/-
This file states what a library sort guarantees for an arbitrary comparison.
-/

import Mathlib

namespace Foundation

variable {α : Type}

/-- A comparison orders the elements of one list. -/
structure TotalOn (cmp : α → α → Ordering) (items : List α) : Prop where
  swap : ∀ first ∈ items, ∀ second ∈ items, cmp second first = (cmp first second).swap
  trans : ∀ first ∈ items, ∀ second ∈ items, ∀ third ∈ items,
    cmp first second ≠ .gt → cmp second third ≠ .gt → cmp first third ≠ .gt

/-- The comparison also orders each list with elements from an ordered list. -/
theorem TotalOn.mono {cmp : α → α → Ordering} {items other : List α} (total : TotalOn cmp items)
    (included : ∀ item ∈ other, item ∈ items) : TotalOn cmp other where
  swap first firstMember second secondMember :=
    total.swap first (included first firstMember) second (included second secondMember)
  trans first firstMember second secondMember third thirdMember :=
    total.trans first (included first firstMember) second (included second secondMember)
      third (included third thirdMember)

/-- A library sort returns a permutation. The order is specified for total orders only. On
another comparison the order is open, and newer standard libraries may also panic there,
which this model leaves out. -/
structure LibrarySort (cmp : α → α → Ordering) where
  sort : List α → List α
  perm : ∀ items, (sort items).Perm items
  sorted : ∀ items, TotalOn cmp items → (sort items).Pairwise
    fun first second => cmp first second ≠ .gt

namespace LibrarySort

/-- Insertion keeps a list sorted when the comparison orders the list. -/
theorem orderedInsert_pairwise {cmp : α → α → Ordering} (item : α) {items : List α}
    (total : TotalOn cmp (item :: items))
    (sorted : items.Pairwise fun first second => cmp first second ≠ .gt) :
    (items.orderedInsert (fun first second => cmp first second ≠ .gt) item).Pairwise
      fun first second => cmp first second ≠ .gt := by
  induction items with
  | nil => simp
  | cons head items ih =>
      rw [List.pairwise_cons] at sorted
      rw [List.orderedInsert_cons]
      split
      next before =>
        refine List.pairwise_cons.mpr ⟨?_, List.pairwise_cons.mpr sorted⟩
        intro other member
        rcases List.mem_cons.mp member with rfl | later
        · exact before
        · exact total.trans item (by simp) head (by simp) other (by simp [later]) before
            (sorted.1 other later)
      next after =>
        have total' : TotalOn cmp (item :: items) := total.mono fun _ member => by
          rcases List.mem_cons.mp member with rfl | later
          · exact List.mem_cons_self
          · exact List.mem_cons_of_mem _ (List.mem_cons_of_mem _ later)
        refine List.pairwise_cons.mpr ⟨?_, ih total' sorted.2⟩
        intro other member
        rcases (List.mem_orderedInsert _).mp member with rfl | later
        · have reversed := total.swap other (by simp) head (by simp)
          have greater : cmp other head = .gt := by simpa using after
          rw [reversed, greater]
          simp
        · exact sorted.1 other later

/-- Insertion sort meets the guarantee of a library sort. -/
def insertion (cmp : α → α → Ordering) : LibrarySort cmp where
  sort := List.insertionSort fun first second => cmp first second ≠ .gt
  perm := List.perm_insertionSort _
  sorted := by
    intro items total
    induction items with
    | nil => simp
    | cons item items ih =>
        have rest : TotalOn cmp items := total.mono fun _ member => List.mem_cons_of_mem _ member
        have inserted : TotalOn cmp
            (item :: items.insertionSort fun first second => cmp first second ≠ .gt) :=
          total.mono fun _ member => by
            simpa only [List.mem_cons, (List.perm_insertionSort _ items).mem_iff] using member
        exact orderedInsert_pairwise item inserted (ih rest)

end LibrarySort

end Foundation
