/-
This file models fallible calls and the fixed-width arithmetic of one build.
-/

import Mathlib

namespace Foundation

/-- A failed call returns an error value or panics. -/
inductive Fault (ε : Type) where
  | error (value : ε)
  | panic
  deriving DecidableEq, Repr

/-- A call returns a value or a fault. -/
abbrev Outcome (ε α : Type) := Except (Fault ε) α

/-- The `?` operator converts the error and keeps a panic. -/
def Fault.map {ε δ : Type} (convert : ε → δ) : Fault ε → Fault δ
  | .error value => .error (convert value)
  | .panic => .panic

namespace Outcome

variable {ε δ α β : Type}

/-- This call returns the error `value`. -/
def fail (value : ε) : Outcome ε α := .error (.error value)

/-- This call panics. -/
def panicked : Outcome ε α := .error .panic

/-- A guard returns the error when its condition fails. -/
def ensure (condition : Prop) [Decidable condition] (value : ε) : Outcome ε Unit :=
  if condition then .ok () else fail value

/-- A caller converts each error of its callee. -/
def convert (embed : ε → δ) (call : Outcome ε α) : Outcome δ α :=
  call.mapError (Fault.map embed)

/-- The caller of `unwrap` panics on each error. -/
def unwrap (call : Outcome ε α) : Outcome δ α :=
  match call with
  | .ok value => .ok value
  | .error _ => panicked

/-- A sequence succeeds exactly when both of its steps succeed. -/
theorem bind_eq_ok {call : Outcome ε α} {next : α → Outcome ε β} {result : β} :
    (call >>= next) = .ok result ↔ ∃ value, call = .ok value ∧ next value = .ok result := by
  cases call <;> simp [bind, Except.bind]

/-- A sequence fails in its first step or in its second step. -/
theorem bind_eq_fail {call : Outcome ε α} {next : α → Outcome ε β} {error : ε} :
    (call >>= next) = fail error ↔ call = fail error ∨ ∃ value, call = .ok value ∧
      next value = fail error := by
  cases call <;> simp [bind, Except.bind, fail]

/-- A sequence panics in its first step or in its second step. -/
theorem bind_eq_panicked {call : Outcome ε α} {next : α → Outcome ε β} :
    (call >>= next) = panicked ↔ call = panicked ∨ ∃ value, call = .ok value ∧
      next value = panicked := by
  cases call <;> simp [bind, Except.bind, panicked]

@[simp] theorem pure_eq_ok {value result : α} :
    (pure value : Outcome ε α) = .ok result ↔ value = result := by
  simp [pure, Except.pure]

@[simp] theorem fail_ne_ok {value : ε} {result : α} :
    (fail value : Outcome ε α) = .ok result ↔ False := by
  simp [fail]

@[simp] theorem ensure_eq_ok {condition : Prop} [Decidable condition] {value : ε} {done : Unit} :
    ensure condition value = .ok done ↔ condition := by
  unfold ensure
  split <;> simp_all

@[simp] theorem convert_eq_ok {embed : ε → δ} {call : Outcome ε α} {result : α} :
    convert embed call = .ok result ↔ call = .ok result := by
  cases call <;> simp [convert, Except.mapError]

@[simp] theorem ensure_ne_panicked {condition : Prop} [Decidable condition] {value : ε} :
    ensure condition value = panicked ↔ False := by
  unfold ensure
  split <;> simp [panicked, fail]

@[simp] theorem convert_eq_panicked {embed : ε → δ} {call : Outcome ε α} :
    convert embed call = panicked ↔ call = panicked := by
  rcases call with fault | value
  · cases fault <;> simp [convert, Except.mapError, Fault.map, panicked]
  · simp [convert, Except.mapError, panicked]

@[simp] theorem unwrap_eq_ok {call : Outcome ε α} {result : α} :
    (unwrap call : Outcome δ α) = .ok result ↔ call = .ok result := by
  cases call <;> simp [unwrap, panicked]

theorem isOk_iff {call : Outcome ε α} : call.isOk = true ↔ ∃ value, call = .ok value := by
  cases call <;> simp [Except.isOk, Except.toBool]

/-- A call that succeeds returns its value instead of the default. -/
theorem eq_ok_getD {call : Outcome ε α} (default : α) (success : call.isOk) :
    call = .ok (call.toOption.getD default) := by
  cases call with
  | error => cases success
  | ok => rfl

/-- A property that each step keeps holds after a successful loop. -/
theorem foldlM_preserves (holds : β → Prop) {step : β → α → Outcome ε β} {items : List α}
    {start result : β}
    (kept : ∀ before item after, holds before → step before item = .ok after → holds after)
    (initially : holds start) (success : items.foldlM step start = .ok result) : holds result := by
  induction items generalizing start with
  | nil =>
      cases success
      exact initially
  | cons item items ih =>
      obtain ⟨next, first, rest⟩ := bind_eq_ok.mp success
      exact ih (kept start item next initially first) rest

/-- A traversal succeeds exactly when it succeeds at each position. -/
theorem mapM_eq_ok {step : α → Outcome ε β} {items : List α} {results : List β} :
    items.mapM step = .ok results ↔
      List.Forall₂ (fun item result => step item = .ok result) items results := by
  induction items generalizing results with
  | nil => cases results <;> simp
  | cons item items ih =>
      simp only [List.mapM_cons, bind_eq_ok, pure_eq_ok]
      cases results with
      | nil => simp
      | cons result results =>
          rw [List.forall₂_cons, ← ih]
          constructor
          · rintro ⟨value, first, values, rest, same⟩
            cases same
            exact ⟨first, rest⟩
          · rintro ⟨first, rest⟩
            exact ⟨result, first, results, rest, rfl⟩

/-- A failed traversal fails at one of its items. -/
theorem mapM_eq_error {step : α → Outcome ε β} {items : List α} {fault : Fault ε}
    (failed : items.mapM step = .error fault) : ∃ item ∈ items, step item = .error fault := by
  induction items with
  | nil => cases failed
  | cons item items ih =>
      rw [List.mapM_cons] at failed
      cases first : step item with
      | error other =>
          rw [first] at failed
          cases failed
          exact ⟨item, List.mem_cons_self, first⟩
      | ok value =>
          rw [first] at failed
          cases rest : items.mapM step with
          | error other =>
              have same : items.mapM step = .error fault := by
                change (items.mapM step >>= fun values => pure (value :: values)) =
                  .error fault at failed
                rw [rest] at failed
                cases failed
                exact rest
              obtain ⟨later, member, reached⟩ := ih same
              exact ⟨later, List.mem_cons_of_mem _ member, reached⟩
          | ok values =>
              change (items.mapM step >>= fun values => pure (value :: values)) =
                .error fault at failed
              rw [rest] at failed
              cases failed

end Outcome

/-- The build option `overflow-checks` selects one arithmetic for every operation. -/
inductive Overflow where
  | checked
  | wrapping
  deriving DecidableEq, Repr

namespace Overflow

variable {ε : Type}

/-- A checked operation panics out of range and a wrapping operation keeps the reduced value. -/
def guard {α : Type} (mode : Overflow) (inRange : Bool) (reduced : α) : Outcome ε α :=
  match mode with
  | .checked => if inRange then .ok reduced else Outcome.panicked
  | .wrapping => .ok reduced

/-- This is `u64` addition. -/
def add (mode : Overflow) (left right : UInt64) : Outcome ε UInt64 :=
  mode.guard (decide (left.toNat + right.toNat < 2 ^ 64)) (left + right)

/-- This is `u64` subtraction. -/
def sub (mode : Overflow) (left right : UInt64) : Outcome ε UInt64 :=
  mode.guard (decide (right ≤ left)) (left - right)

/-- This is `u32` addition. -/
def add32 (mode : Overflow) (left right : UInt32) : Outcome ε UInt32 :=
  mode.guard (decide (left.toNat + right.toNat < 2 ^ 32)) (left + right)

/-- This is `u32` subtraction. -/
def sub32 (mode : Overflow) (left right : UInt32) : Outcome ε UInt32 :=
  mode.guard (decide (right ≤ left)) (left - right)

/-- An accumulation loop adds its values from left to right. -/
def sum (mode : Overflow) (values : List UInt64) : Outcome ε UInt64 :=
  values.foldlM mode.add 0

/-- The exact sum of the values does not wrap. -/
def exactSum (values : List UInt64) : ℕ := (values.map UInt64.toNat).sum

@[simp] theorem exactSum_nil : exactSum [] = 0 := rfl

@[simp] theorem exactSum_cons (value : UInt64) (values : List UInt64) :
    exactSum (value :: values) = value.toNat + exactSum values := by
  simp [exactSum]

@[simp] theorem exactSum_append (first second : List UInt64) :
    exactSum (first ++ second) = exactSum first + exactSum second := by
  simp [exactSum]

/-- Each value is at most the exact sum. -/
theorem le_exactSum {value : UInt64} {values : List UInt64} (member : value ∈ values) :
    value.toNat ≤ exactSum values :=
  List.single_le_sum (by simp) _ (List.mem_map_of_mem member)

theorem toNat_pos {value : UInt64} : 0 < value.toNat ↔ 0 < value := by
  rw [UInt64.lt_iff_toNat_lt, UInt64.toNat_zero]

/-- A positive sum has a positive value. -/
theorem exists_of_exactSum_pos {values : List UInt64} (positive : 0 < exactSum values) :
    ∃ value ∈ values, 0 < value := by
  by_contra none
  have zero : exactSum values = 0 := by
    apply List.sum_eq_zero
    intro number member
    obtain ⟨value, listed, rfl⟩ := List.mem_map.mp member
    have small : ¬ 0 < value.toNat := fun positive => none ⟨value, listed, toNat_pos.mp positive⟩
    omega
  omega

@[simp] theorem guard_wrapping {α : Type} (inRange : Bool) (reduced : α) :
    (guard .wrapping inRange reduced : Outcome ε α) = .ok reduced := rfl

@[simp] theorem guard_checked_eq_ok {α : Type} {inRange : Bool} {reduced result : α} :
    (guard .checked inRange reduced : Outcome ε α) = .ok result ↔
      inRange = true ∧ reduced = result := by
  unfold guard
  cases inRange <;> simp [Outcome.panicked]

/-- A successful guard returns the reduced value. -/
theorem guard_value {α : Type} {mode : Overflow} {inRange : Bool} {reduced result : α}
    (success : (guard mode inRange reduced : Outcome ε α) = .ok result) : result = reduced := by
  cases mode <;> simp_all

/-- An addition that fits is exact in both modes. -/
theorem add_of_fits (mode : Overflow) {left right : UInt64}
    (fits : left.toNat + right.toNat < 2 ^ 64) :
    (mode.add left right : Outcome ε UInt64) = .ok (left + right) := by
  cases mode with
  | checked => exact guard_checked_eq_ok.mpr ⟨decide_eq_true fits, rfl⟩
  | wrapping => rfl

/-- A subtraction that does not fall below zero is exact in both modes. -/
theorem sub_of_le (mode : Overflow) {left right : UInt64} (enough : right ≤ left) :
    (mode.sub left right : Outcome ε UInt64) = .ok (left - right) := by
  cases mode with
  | checked => exact guard_checked_eq_ok.mpr ⟨decide_eq_true enough, rfl⟩
  | wrapping => rfl

/-- The result of an addition does not depend on the caller's errors. -/
theorem add_retype {δ : Type} {mode : Overflow} {left right total : UInt64}
    (success : (mode.add left right : Outcome ε UInt64) = .ok total) :
    (mode.add left right : Outcome δ UInt64) = .ok total := by
  cases mode with
  | checked => exact guard_checked_eq_ok.mpr (guard_checked_eq_ok.mp success)
  | wrapping =>
      cases success
      rfl

/-- The loop from any accumulator adds the exact sum modulo the word size. -/
theorem foldlM_add_toNat {mode : Overflow} {values : List UInt64} {start total : UInt64}
    (success : values.foldlM (mode.add : UInt64 → UInt64 → Outcome ε UInt64) start = .ok total) :
    total.toNat = (start.toNat + exactSum values) % 2 ^ 64 := by
  induction values generalizing start with
  | nil =>
      have same : start = total := by simpa using success
      have bound := start.toNat_lt
      rw [← same, exactSum_nil, Nat.add_zero, Nat.mod_eq_of_lt bound]
  | cons value values ih =>
      obtain ⟨next, first, rest⟩ := Outcome.bind_eq_ok.mp success
      have added : next = start + value := guard_value first
      rw [ih rest, added, UInt64.toNat_add, exactSum_cons]
      omega

/-- A successful loop returns the exact sum modulo the word size. -/
theorem sum_toNat {mode : Overflow} {values : List UInt64} {total : UInt64}
    (success : (mode.sum values : Outcome ε UInt64) = .ok total) :
    total.toNat = exactSum values % 2 ^ 64 := by
  have reached := foldlM_add_toNat success
  rwa [UInt64.toNat_zero, Nat.zero_add] at reached

/-- Two successful loops over the same values return the same total. -/
theorem sum_unique {δ : Type} {mode : Overflow} {values : List UInt64} {first second : UInt64}
    (left : (mode.sum values : Outcome ε UInt64) = .ok first)
    (right : (mode.sum values : Outcome δ UInt64) = .ok second) : first = second :=
  UInt64.toNat_inj.mp ((sum_toNat left).trans (sum_toNat right).symm)

/-- The checked loop from any accumulator succeeds exactly when the exact sum fits. -/
theorem foldlM_checked_add {values : List UInt64} {start total : UInt64} :
    values.foldlM (Overflow.checked.add : UInt64 → UInt64 → Outcome ε UInt64) start = .ok total ↔
      total.toNat = start.toNat + exactSum values := by
  induction values generalizing start with
  | nil =>
      rw [List.foldlM_nil, Outcome.pure_eq_ok, exactSum_nil, Nat.add_zero, UInt64.toNat_inj,
        eq_comm]
  | cons value values ih =>
      rw [List.foldlM_cons, Outcome.bind_eq_ok, exactSum_cons]
      constructor
      · rintro ⟨next, first, rest⟩
        obtain ⟨inRange, added⟩ := guard_checked_eq_ok.mp first
        have bound := of_decide_eq_true inRange
        rw [ih.mp rest, ← added, UInt64.toNat_add, Nat.mod_eq_of_lt bound]
        omega
      · intro exact
        have limit := total.toNat_lt
        have bound : start.toNat + value.toNat < 2 ^ 64 := by omega
        refine ⟨start + value, guard_checked_eq_ok.mpr ⟨decide_eq_true bound, rfl⟩, ih.mpr ?_⟩
        rw [UInt64.toNat_add, Nat.mod_eq_of_lt bound]
        omega

/-- The checked loop succeeds exactly when its result is the exact sum. -/
theorem sum_checked {values : List UInt64} {total : UInt64} :
    (sum .checked values : Outcome ε UInt64) = .ok total ↔ total.toNat = exactSum values := by
  rw [sum, foldlM_checked_add, UInt64.toNat_zero, Nat.zero_add]

/-- The wrapping loop never fails. -/
theorem sum_wrapping (values : List UInt64) :
    (sum .wrapping values : Outcome ε UInt64) = .ok (UInt64.ofNat (exactSum values)) := by
  have total (start : UInt64) : ∃ result,
      values.foldlM (Overflow.wrapping.add : UInt64 → UInt64 → Outcome ε UInt64) start =
          .ok result := by
    induction values generalizing start with
    | nil => exact ⟨start, rfl⟩
    | cons value values ih => exact ih (start + value)
  obtain ⟨result, success⟩ := total 0
  have reduced := sum_toNat success
  have same : result = UInt64.ofNat (exactSum values) := by
    apply UInt64.toNat_inj.mp
    rw [reduced, UInt64.toNat_ofNat']
  rw [← same]
  exact success

/-- The result of a loop does not depend on the caller's errors. -/
theorem sum_retype {δ : Type} {mode : Overflow} {values : List UInt64} {total : UInt64}
    (success : (mode.sum values : Outcome ε UInt64) = .ok total) :
    (mode.sum values : Outcome δ UInt64) = .ok total := by
  cases mode with
  | checked => exact sum_checked.mpr (sum_checked.mp success)
  | wrapping =>
      rw [sum_wrapping values] at success ⊢
      exact congrArg Except.ok (Except.ok.inj success)

/-- A sum that fits is exact in both modes. -/
theorem sum_of_fits (mode : Overflow) {values : List UInt64} (fits : exactSum values < 2 ^ 64) :
    ∃ total, (mode.sum values : Outcome ε UInt64) = .ok total ∧ total.toNat = exactSum values := by
  have exact : (UInt64.ofNat (exactSum values)).toNat = exactSum values := by
    rw [UInt64.toNat_ofNat', Nat.mod_eq_of_lt fits]
  refine ⟨UInt64.ofNat (exactSum values), ?_, exact⟩
  cases mode with
  | checked => exact sum_checked.mpr exact
  | wrapping => exact sum_wrapping values

end Overflow

end Foundation
