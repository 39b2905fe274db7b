/-
This file gives the relations without cycles and their new edges.
-/

import Mathlib

namespace Foundation

open Relation

variable {α : Type}

/-- No path leads from a point to itself. -/
def Acyclic (related : α → α → Prop) : Prop := ∀ point, ¬ TransGen related point point

namespace Acyclic

variable {related larger : α → α → Prop}

/-- A smaller relation has no cycle. -/
theorem mono (acyclic : Acyclic larger)
    (smaller : ∀ first last, related first last → larger first last) :
    Acyclic related :=
  fun point cycle => acyclic point (TransGen.mono smaller _ _ cycle)

/-- A path that uses a new edge reaches its source and continues from its target. -/
theorem path_insert {source target : α}
    (grows : ∀ first last, larger first last → related first last ∨ first = source ∧ last = target)
    {first last : α} (path : TransGen larger first last) :
    TransGen related first last ∨ ReflTransGen related first source ∧
      ReflTransGen related target last := by
  induction path with
  | single edge =>
      rcases grows _ _ edge with old | ⟨rfl, rfl⟩
      · exact .inl (.single old)
      · exact .inr ⟨.refl, .refl⟩
  | tail _ edge ih =>
      rcases grows _ _ edge with old | ⟨rfl, rfl⟩
      · rcases ih with path | ⟨before, after⟩
        · exact .inl (path.tail old)
        · exact .inr ⟨before, after.tail old⟩
      · rcases ih with path | ⟨before, after⟩
        · exact .inr ⟨path.to_reflTransGen, .refl⟩
        · exact .inr ⟨before, .refl⟩

/-- A new edge whose target does not lead back to its source closes no cycle. -/
theorem insert {source target : α} (acyclic : Acyclic related)
    (grows : ∀ first last, larger first last → related first last ∨ first = source ∧ last = target)
    (forward : ¬ ReflTransGen related target source) : Acyclic larger := by
  intro point cycle
  rcases path_insert grows cycle with old | ⟨before, after⟩
  · exact acyclic point old
  · exact forward (after.trans before)

/-- Each point of a finite relation without cycles leads to a last point. -/
theorem exists_last [Finite α] (acyclic : Acyclic related) (point : α) :
    ∃ last, ReflTransGen related point last ∧ ∀ next, ¬ related last next := by
  have irreflexive : Std.Irrefl (Function.swap (TransGen related)) := ⟨acyclic⟩
  have ordered : WellFounded (Function.swap (TransGen related)) :=
    Finite.wellFounded_of_trans_of_irrefl _
  induction point using ordered.induction with
  | _ point ih =>
      by_cases final : ∀ next, ¬ related point next
      · exact ⟨point, .refl, final⟩
      · push Not at final
        obtain ⟨next, edge⟩ := final
        obtain ⟨last, path, final⟩ := ih next (.single edge)
        exact ⟨last, path.head edge, final⟩

end Acyclic

end Foundation
