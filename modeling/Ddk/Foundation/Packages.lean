/-
This file models bounds-checked slices and the split of one list into packages.
-/

import Ddk.Foundation.Outcome

namespace Foundation

variable {ε α : Type}

/-- A range outside the list panics. -/
def slice (items : List α) (start stop : ℕ) : Outcome ε (List α) :=
  if start ≤ stop ∧ stop ≤ items.length then .ok ((items.drop start).take (stop - start))
  else Outcome.panicked

/-- The last package receives the remaining items. An item without a package panics. -/
def appendLast : List (List α) → List α → Outcome ε (List (List α))
  | parts, [] => .ok parts
  | [], _ :: _ => Outcome.panicked
  | [part], rest => .ok [part ++ rest]
  | part :: parts, rest => do
      let extended ← appendLast parts rest
      return part :: extended

/-- The packages are equal slices, and the last one also takes the remainder. -/
def package (items : List α) (count size : ℕ) : Outcome ε (List (List α)) := do
  let parts ← (List.range count).mapM fun index => slice items (index * size) ((index + 1) * size)
  let rest ← slice items (count * size) items.length
  appendLast parts rest

theorem slice_eq_ok {items result : List α} {start stop : ℕ} :
    (slice items start stop : Outcome ε (List α)) = .ok result ↔
      (start ≤ stop ∧ stop ≤ items.length) ∧ (items.drop start).take (stop - start) = result := by
  unfold slice
  split <;> simp_all [Outcome.panicked]

/-- Equal slices of a long enough list cover a prefix of it. -/
theorem slices_flatten {items : List α} {size count : ℕ} (fits : count * size ≤ items.length) :
    ∃ parts : List (List α), parts.length = count ∧ parts.flatten = items.take (count * size) ∧
      ((List.range count).mapM fun index =>
        (slice items (index * size) ((index + 1) * size) : Outcome ε (List α))) = .ok parts := by
  induction count with
  | zero => exact ⟨[], rfl, by simp, rfl⟩
  | succ count ih =>
      have room : count * size ≤ items.length := by rw [Nat.succ_mul] at fits; omega
      obtain ⟨parts, length, flat, success⟩ := ih room
      have width : (count + 1) * size - count * size = size := by rw [Nat.succ_mul]; omega
      refine ⟨parts ++ [(items.drop (count * size)).take size], by simp [length], ?_, ?_⟩
      · rw [List.flatten_append, flat, List.flatten_singleton, Nat.succ_mul, List.take_add]
      · have next : (slice items (count * size) ((count + 1) * size) : Outcome ε (List α)) =
            .ok ((items.drop (count * size)).take size) := by
          rw [slice_eq_ok, width]
          exact ⟨⟨Nat.mul_le_mul_right size (Nat.le_succ count), fits⟩, rfl⟩
        rw [List.range_succ, List.mapM_append, success]
        simp only [List.mapM_cons, List.mapM_nil, next]
        rfl

/-- Some slice of a short list is out of range. -/
theorem slices_in_range {items : List α} {size count : ℕ} {parts : List (List α)}
    (success : ((List.range count).mapM fun index =>
      (slice items (index * size) ((index + 1) * size) : Outcome ε (List α))) = .ok parts)
    (positive : 0 < count) : count * size ≤ items.length := by
  obtain ⟨count, rfl⟩ := Nat.exists_eq_succ_of_ne_zero (Nat.pos_iff_ne_zero.mp positive)
  rw [List.range_succ, List.mapM_append] at success
  obtain ⟨front, _, success⟩ := Outcome.bind_eq_ok.mp success
  obtain ⟨back, last, _⟩ := Outcome.bind_eq_ok.mp success
  obtain ⟨part, _, reached, _, _⟩ := List.forall₂_cons_left_iff.mp (Outcome.mapM_eq_ok.mp last)
  exact (slice_eq_ok.mp reached).1.2

/-- The remaining items follow the items of all packages. -/
theorem appendLast_flatten {parts : List (List α)} (rest : List α) (present : parts ≠ []) :
    ∃ extended : List (List α), (appendLast parts rest : Outcome ε (List (List α))) = .ok extended ∧
      extended.length = parts.length ∧ extended.flatten = parts.flatten ++ rest := by
  cases rest with
  | nil => exact ⟨parts, by cases parts <;> rfl, rfl, (List.append_nil _).symm⟩
  | cons item rest =>
      induction parts with
      | nil => exact absurd rfl present
      | cons part parts ih =>
          cases parts with
          | nil => exact ⟨[part ++ item :: rest], rfl, rfl, by simp⟩
          | cons next parts =>
              obtain ⟨extended, success, length, flat⟩ := ih (List.cons_ne_nil _ _)
              refine ⟨part :: extended, ?_, by simp [length], by simp [flat]⟩
              rw [appendLast, success]
              · rfl
              all_goals simp

/-- A list with room for all slices is the concatenation of its packages. -/
theorem package_flatten {items : List α} {count size : ℕ} (positive : 0 < count)
    (fits : count * size ≤ items.length) :
    ∃ packages : List (List α), (package items count size : Outcome ε (List (List α))) =
      .ok packages ∧
      packages.length = count ∧ packages.flatten = items := by
  obtain ⟨parts, length, flat, slices⟩ := slices_flatten (ε := ε) fits
  have present : parts ≠ [] := by
    intro empty
    rw [empty, List.length_nil] at length
    omega
  have remainder : (slice items (count * size) items.length : Outcome ε (List α)) =
      .ok (items.drop (count * size)) := by
    rw [slice_eq_ok, List.take_of_length_le (by rw [List.length_drop])]
    exact ⟨⟨fits, Nat.le_refl _⟩, rfl⟩
  obtain ⟨packages, success, kept, joined⟩ :=
      appendLast_flatten (ε := ε) (items.drop (count * size)) present
  refine ⟨packages, ?_, kept.trans length, by rw [joined, flat, List.take_append_drop]⟩
  rw [package, slices]
  change (slice items (count * size) items.length >>= appendLast parts) = .ok packages
  rw [remainder]
  exact success

/-- Packaging succeeds exactly when every slice is in range. -/
theorem package_eq_ok {items : List α} {count size : ℕ} {packages : List (List α)}
    (positive : 0 < count)
    (success : (package items count size : Outcome ε (List (List α))) = .ok packages) :
    count * size ≤ items.length ∧ packages.flatten = items := by
  obtain ⟨parts, slices, _⟩ := Outcome.bind_eq_ok.mp success
  have fits := slices_in_range slices positive
  obtain ⟨expected, reached, _, flat⟩ := package_flatten (ε := ε) positive fits
  rw [success] at reached
  cases reached
  exact ⟨fits, flat⟩

/-- A slice fails only with a panic. -/
theorem slice_eq_error {items : List α} {start stop : ℕ} {fault : Fault ε}
    (failed : (slice items start stop : Outcome ε (List α)) = .error fault) : fault = .panic := by
  unfold slice at failed
  split at failed
  · cases failed
  · cases failed
    rfl

/-- The remaining items fail only with a panic. -/
theorem appendLast_eq_error {parts : List (List α)} {rest : List α} {fault : Fault ε}
    (failed : (appendLast parts rest : Outcome ε (List (List α))) = .error fault) :
    fault = .panic := by
  by_cases present : parts = []
  · subst present
    cases rest with
    | nil => cases failed
    | cons item rest =>
        cases failed
        rfl
  · obtain ⟨extended, success, _⟩ := appendLast_flatten (ε := ε) rest present
    rw [success] at failed
    cases failed

/-- Packaging fails only with a panic. -/
theorem package_eq_error {items : List α} {count size : ℕ} {fault : Fault ε}
    (failed : (package items count size : Outcome ε (List (List α))) = .error fault) :
    fault = .panic := by
  unfold package at failed
  cases slices : (List.range count).mapM fun index =>
      (slice items (index * size) ((index + 1) * size) : Outcome ε (List α)) with
  | error other =>
      rw [slices] at failed
      cases failed
      obtain ⟨index, _, reached⟩ := Outcome.mapM_eq_error slices
      exact slice_eq_error reached
  | ok parts =>
      rw [slices] at failed
      change (slice items (count * size) items.length >>= appendLast parts) = .error fault at failed
      cases remainder : (slice items (count * size) items.length : Outcome ε (List α)) with
      | error other =>
          rw [remainder] at failed
          cases failed
          exact slice_eq_error remainder
      | ok rest =>
          rw [remainder] at failed
          exact appendLast_eq_error failed

end Foundation
