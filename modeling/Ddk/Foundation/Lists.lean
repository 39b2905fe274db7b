/-
This file relates paired lists and counts the elements of concatenated lists.
-/

import Mathlib

namespace Foundation

variable {α β γ : Type}

/-- Two lists that a function relates pair with a third list in the same way. -/
theorem zip_related_iff {related : β → γ → Prop} (holds : α → γ → Prop) {middle : List β}
    {right : List γ} (pairs : List.Forall₂ related middle right)
    (functional : ∀ element first second, related element first → related element second →
      first = second)
    (left : List α) :
    (∀ pair ∈ left.zip right, holds pair.1 pair.2) ↔
      ∀ pair ∈ left.zip middle, ∃ value, related pair.2 value ∧ holds pair.1 value := by
  induction pairs generalizing left with
  | nil => simp
  | @cons element value middle right first _ ih =>
      cases left with
      | nil => simp
      | cons head left =>
          simp only [List.zip_cons_cons, List.forall_mem_cons, ih left]
          have same : holds head value ↔ ∃ other, related element other ∧ holds head other := by
            constructor
            · exact fun held => ⟨value, first, held⟩
            · rintro ⟨other, found, held⟩
              exact functional element other value found first ▸ held
          rw [same]

/-- Each element of the first list pairs with an element of the second list. -/
theorem forall₂_mem_left {related : α → β → Prop} {left : List α} {right : List β}
    (pairs : List.Forall₂ related left right) {element : α} (member : element ∈ left) :
    ∃ value ∈ right, related element value := by
  induction pairs with
  | nil => simp at member
  | @cons head value _ right first _ ih =>
      rcases List.mem_cons.mp member with rfl | later
      · exact ⟨value, List.mem_cons_self, first⟩
      · obtain ⟨other, listed, held⟩ := ih later
        exact ⟨other, List.mem_cons_of_mem _ listed, held⟩

/-- Each element of the second list pairs with an element of the first list. -/
theorem forall₂_mem_right {related : α → β → Prop} {left : List α} {right : List β}
    (pairs : List.Forall₂ related left right) {value : β} (member : value ∈ right) :
    ∃ element ∈ left, related element value :=
  forall₂_mem_left pairs.flip member

/-- A list with distinct elements that equals its reverse has at most one element. -/
theorem length_le_one_of_reverse_eq {items : List α} (distinct : items.Nodup)
    (same : items.reverse = items) :
    items.length ≤ 1 := by
  cases items with
  | nil => exact Nat.zero_le 1
  | cons head tail =>
      have last : (head :: tail).getLast? = some head := by
        rw [← List.head?_reverse, same, List.head?_cons]
      cases tail with
      | nil => exact Nat.le_refl 1
      | cons next tail =>
          rw [List.getLast?_cons_cons] at last
          exact absurd (List.mem_of_getLast? last) (List.nodup_cons.mp distinct).1

end Foundation
