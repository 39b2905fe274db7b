import Ddk.Construction.Reference

namespace Ddk

open Foundation

namespace AggregatedWithdrawal

section

variable [Bitcoin] {C : Type}

/-- No field of the second withdrawal is greater, and one field of the first one is. -/
def Dominates (first second : AggregatedWithdrawal C) : Prop :=
  (second.mainFee ≤ first.mainFee ∧ second.value ≤ first.value ∧
    second.mainAddress ≤ first.mainAddress) ∧
    (first.mainFee > second.mainFee ∨ first.value > second.value ∨
      first.mainAddress > second.mainAddress)

/-- The three fields of two different withdrawals agree on the greater one. -/
def Comparable (first second : AggregatedWithdrawal C) : Prop :=
  first = second ∨ Dominates first second ∨ Dominates second first

/-- The fee comes first, then the value, then the address. -/
def sortKey (aggregated : AggregatedWithdrawal C) : ℕ ×ₗ ℕ ×ₗ Bitcoin.Address :=
  toLex (aggregated.mainFee.toNat, toLex (aggregated.value.toNat, aggregated.mainAddress))

theorem Dominates.trans {first second third : AggregatedWithdrawal C}
    (left : Dominates first second)
    (right : Dominates second third) : Dominates first third := by
  obtain ⟨⟨fee, value, address⟩, greater⟩ := left
  obtain ⟨⟨fee', value', address'⟩, _⟩ := right
  refine ⟨⟨UInt64.le_trans fee' fee, UInt64.le_trans value' value, address'.trans address⟩, ?_⟩
  rcases greater with more | more | more
  · exact .inl (UInt64.lt_of_le_of_lt fee' more)
  · exact .inr (.inl (UInt64.lt_of_le_of_lt value' more))
  · exact .inr (.inr (address'.trans_lt more))

theorem Dominates.asymm {first second : AggregatedWithdrawal C} (left : Dominates first second) :
    ¬ Dominates second first := by
  intro right
  rcases left.2 with more | more | more
  · exact UInt64.not_lt.mpr right.1.1 more
  · exact UInt64.not_lt.mpr right.1.2.1 more
  · exact not_lt.mpr right.1.2.2 more

/-- A dominating withdrawal comes first in the intended order. -/
theorem Dominates.sortKey_le {first second : AggregatedWithdrawal C}
    (left : Dominates first second) :
    second.sortKey ≤ first.sortKey := by
  obtain ⟨⟨fee, value, address⟩, _⟩ := left
  have rest : toLex (second.value.toNat, second.mainAddress) ≤
      toLex (first.value.toNat, first.mainAddress) :=
    Prod.Lex.toLex_mono ⟨UInt64.le_iff_toNat_le.mp value, address⟩
  exact Prod.Lex.toLex_mono ⟨UInt64.le_iff_toNat_le.mp fee, rest⟩

variable [DecidableEq C]

/-- Only equal withdrawals compare as equal. -/
theorem cmp_eq_iff {first second : AggregatedWithdrawal C} : first.cmp second = .eq ↔
    first = second := by
  unfold cmp
  split
  next same => exact iff_of_true rfl same
  next different =>
    split <;> simp [different]

/-- A different withdrawal with one greater field is greater. -/
theorem cmp_eq_gt_iff {first second : AggregatedWithdrawal C} (different : first ≠ second) :
    first.cmp second = .gt ↔
      first.mainFee > second.mainFee ∨ first.value > second.value ∨
        first.mainAddress > second.mainAddress := by
  rw [cmp, if_neg different]
  split
  next greater => exact iff_of_true rfl greater
  next lesser => exact iff_of_false (fun same => by cases same) lesser

/-- A different withdrawal without a greater field is less. -/
theorem cmp_eq_lt_iff {first second : AggregatedWithdrawal C} (different : first ≠ second) :
    first.cmp second = .lt ↔ first.mainFee ≤ second.mainFee ∧ first.value ≤ second.value ∧
      first.mainAddress ≤ second.mainAddress := by
  have lesser : (first.mainFee ≤ second.mainFee ∧ first.value ≤ second.value ∧
      first.mainAddress ≤ second.mainAddress) ↔
        ¬ (first.mainFee > second.mainFee ∨ first.value > second.value ∨
        first.mainAddress > second.mainAddress) := by
    rw [not_or, not_or, UInt64.not_lt, UInt64.not_lt, not_lt]
  rw [lesser, cmp, if_neg different]
  split
  next greater => exact iff_of_false (fun same => by cases same) (not_not.mpr greater)
  next smaller => exact iff_of_true rfl smaller

/-- A dominating withdrawal is greater in both directions. -/
theorem Dominates.cmp {first second : AggregatedWithdrawal C} (left : Dominates first second) :
    first.cmp second = .gt ∧ second.cmp first = .lt := by
  have different : first ≠ second := by
    rintro rfl
    exact left.asymm left
  exact ⟨(cmp_eq_gt_iff different).mpr left.2, (cmp_eq_lt_iff different.symm).mpr left.1⟩

/-- Two comparisons agree exactly for comparable withdrawals. -/
theorem cmp_swap_iff {first second : AggregatedWithdrawal C} :
    second.cmp first = (first.cmp second).swap ↔ Comparable first second := by
  by_cases same : first = second
  · subst same
    rw [cmp_eq_iff.mpr rfl]
    exact iff_of_true rfl (.inl rfl)
  · constructor
    · intro swapped
      refine .inr ?_
      cases outcome : first.cmp second with
      | eq => exact absurd (cmp_eq_iff.mp outcome) same
      | gt =>
          rw [outcome] at swapped
          exact .inl ⟨(cmp_eq_lt_iff (Ne.symm same)).mp swapped, (cmp_eq_gt_iff same).mp outcome⟩
      | lt =>
          rw [outcome] at swapped
          exact .inr ⟨(cmp_eq_lt_iff same).mp outcome, (cmp_eq_gt_iff (Ne.symm same)).mp swapped⟩
    · intro comparable
      rcases comparable with equal | left | right
      · exact absurd equal same
      · rw [left.cmp.1, left.cmp.2]
        rfl
      · rw [right.cmp.1, right.cmp.2]
        rfl

/-- These laws make a comparison a total order on the items. -/
structure OrderedOn (items : List (AggregatedWithdrawal C)) : Prop where
  swap : ∀ first ∈ items, ∀ second ∈ items, second.cmp first = (first.cmp second).swap
  equal : ∀ first ∈ items, ∀ second ∈ items, first.cmp second = .eq ↔ first = second
  trans : ∀ first ∈ items, ∀ second ∈ items, ∀ third ∈ items, ∀ ordering,
    first.cmp second = ordering → second.cmp third = ordering → first.cmp third = ordering

/-- Every sort of every arrangement gives one list, with greatest fee, value and address first. -/
def SortsToOne (items : List (AggregatedWithdrawal C)) : Prop :=
  ∃ sorted : List (AggregatedWithdrawal C), sorted.Perm items ∧
    sorted.Pairwise (fun first second => second.sortKey ≤ first.sortKey) ∧
    ∀ (library : LibrarySort fun first second : AggregatedWithdrawal C => second.cmp first)
      (yielded : List _),
      yielded.Perm items → library.sort yielded = sorted

/-- Comparable withdrawals are ordered. -/
theorem OrderedOn.of_comparable {items : List (AggregatedWithdrawal C)}
    (comparable : ∀ first ∈ items, ∀ second ∈ items, Comparable first second) :
    OrderedOn items where
  swap first left second right := cmp_swap_iff.mpr (comparable first left second right)
  equal _ _ _ _ := cmp_eq_iff
  trans first left second middle third right ordering before after := by
    have greater : ∀ one ∈ items, ∀ other ∈ items, one.cmp other = .gt → Dominates one other := by
      intro one member other listed outcome
      rcases comparable one member other listed with same | more | less
      · rw [cmp_eq_iff.mpr same] at outcome
        cases outcome
      · exact more
      · rw [less.cmp.2] at outcome
        cases outcome
    have lesser : ∀ one ∈ items, ∀ other ∈ items, one.cmp other = .lt → Dominates other one := by
      intro one member other listed outcome
      apply greater other listed one member
      rw [cmp_swap_iff.mpr (comparable one member other listed), outcome]
      rfl
    cases ordering with
    | eq => exact cmp_eq_iff.mpr ((cmp_eq_iff.mp before).trans (cmp_eq_iff.mp after))
    | gt => exact ((greater _ left _ middle before).trans (greater _ middle _ right after)).cmp.1
    | lt => exact ((lesser _ middle _ right after).trans (lesser _ left _ middle before)).cmp.2

/-- The reversed comparison of ordered items meets the guarantee of a library sort. -/
theorem OrderedOn.totalOn {items : List (AggregatedWithdrawal C)} (ordered : OrderedOn items) :
    TotalOn (fun first second : AggregatedWithdrawal C => second.cmp first) items where
  swap first left second right := ordered.swap second right first left
  trans first left second middle third right before after := by
    have weak : ∀ one ∈ items, ∀ other ∈ items, other.cmp one ≠ .gt → one = other ∨
        one.cmp other = .gt := by
      intro one member other listed outcome
      have swapped := ordered.swap other listed one member
      cases found : other.cmp one with
      | eq => exact .inl (cmp_eq_iff.mp found).symm
      | gt => exact absurd found outcome
      | lt =>
          rw [found] at swapped
          exact .inr swapped
    have strict : ∀ one ∈ items, ∀ other ∈ items, one.cmp other = .gt → other.cmp one ≠ .gt := by
      intro one member other listed outcome
      rw [ordered.swap one member other listed, outcome]
      exact fun same => by cases same
    rcases weak _ left _ middle before with rfl | more
    · exact after
    · rcases weak _ middle _ right after with rfl | further
      · exact before
      · exact strict _ left _ right (ordered.trans _ left _ middle _ right _ more further)

/-- Comparable withdrawals sort to one list. -/
theorem SortsToOne.of_comparable {items : List (AggregatedWithdrawal C)}
    (comparable : ∀ first ∈ items, ∀ second ∈ items, Comparable first second) :
    SortsToOne items := by
  have ordered := OrderedOn.of_comparable comparable
  have total := ordered.totalOn
  have arranged :=
    (LibrarySort.insertion fun first second : AggregatedWithdrawal C => second.cmp first).perm items
  have sorted := (LibrarySort.insertion fun first second : AggregatedWithdrawal C =>
    second.cmp first).sorted items total
  refine ⟨_, arranged, ?_, ?_⟩
  · apply sorted.imp_of_mem
    intro first second left right notGreater
    rcases comparable first (arranged.mem_iff.mp left) second (arranged.mem_iff.mp right)
      with rfl | more | less
    · exact le_refl _
    · exact more.sortKey_le
    · exact absurd less.cmp.1 notGreater
  · intro library yielded permuted
    have kept : TotalOn (fun first second : AggregatedWithdrawal C => second.cmp first) yielded :=
      total.mono fun _ member => permuted.mem_iff.mp member
    have reached := (library.perm yielded).trans permuted
    apply (reached.trans arranged.symm).eq_of_pairwise _ (library.sorted yielded kept) sorted
    intro first second left right before after
    have member := reached.mem_iff.mp left
    have listed := arranged.mem_iff.mp right
    have swapped := ordered.swap second listed first member
    cases found : second.cmp first with
    | eq => exact (cmp_eq_iff.mp found).symm
    | gt => exact absurd found before
    | lt =>
        rw [found] at swapped
        exact absurd swapped after

/-- The comparison is a total order with one sorted list exactly on comparable withdrawals. -/
theorem ordered_iff (items : List (AggregatedWithdrawal C)) :
    OrderedOn items ∧ SortsToOne items ↔ ∀ first ∈ items, ∀ second ∈ items,
      Comparable first second := by
  constructor
  · intro laws first left second right
    exact cmp_swap_iff.mp (laws.1.swap first left second right)
  · intro comparable
    exact ⟨.of_comparable comparable, .of_comparable comparable⟩

end

section

open Reference

/-- The first withdrawal has the greater fee and the second one has the greater value. -/
def dear : AggregatedWithdrawal Unit := ⟨∅, (9 : ℕ), 1, 2⟩

def large : AggregatedWithdrawal Unit := ⟨∅, (9 : ℕ), 2, 1⟩

/-- Each of two withdrawals is greater than the other one. -/
theorem both_greater :
    (¬ ∀ first second : AggregatedWithdrawal Unit, second.cmp first = (first.cmp second).swap) ∧
      dear.cmp large = .gt ∧ large.cmp dear = .gt := by
  have left : dear.cmp large = .gt := by decide +kernel
  have right : large.cmp dear = .gt := by decide +kernel
  refine ⟨fun claim => ?_, left, right⟩
  have swapped := claim dear large
  rw [left, right] at swapped
  cases swapped

end

end AggregatedWithdrawal

end Ddk
