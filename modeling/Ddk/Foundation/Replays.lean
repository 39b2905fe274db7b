/-
This file compares a run of accepted entries with a later replay of the same entries.
-/

import Ddk.Foundation.Outcome

namespace Foundation

variable {S T ε : Type}

/-- A replay takes the same entries with other answers. The observation compares the two states. -/
structure Replay (S T ε : Type) where
  accept : S → T → Outcome ε S
  replay : S → T → Outcome ε S
  observe : S → S → Prop

namespace Replay

variable (runs : Replay S T ε)

/-- Both runs take each part of the entries and are observed to agree after it. -/
def Agrees (first second : S) (entries : List T) : Prop :=
  ∀ count, ∃ accepted replayed, (entries.take count).foldlM runs.accept first = .ok accepted ∧
    (entries.take count).foldlM runs.replay second = .ok replayed ∧ runs.observe accepted replayed

/-- A condition holds for each entry at the state in which it was accepted. -/
def Stable (stable : S → T → Prop) (first : S) : List T → Prop
  | [] => True
  | entry :: entries =>
      stable first entry ∧ ∀ next, runs.accept first entry = .ok next → Stable stable next entries

variable {runs}

/-- An agreement on some entries is an agreement on the first entry and on the others. -/
theorem agrees_cons {first second next : S} {entry : T} {entries : List T}
    (start : runs.observe first second) (accepted : runs.accept first entry = .ok next) :
    runs.Agrees first second (entry :: entries) ↔
      ∃ after, runs.replay second entry = .ok after ∧ runs.Agrees next after entries := by
  constructor
  · intro agrees
    obtain ⟨_, after, _, replayed, _⟩ := agrees 1
    obtain ⟨after, replayed, _⟩ := Outcome.bind_eq_ok.mp replayed
    refine ⟨after, replayed, fun count => ?_⟩
    obtain ⟨last, final, left, right, observed⟩ := agrees (count + 1)
    rw [List.take_succ_cons, List.foldlM_cons] at left right
    rw [accepted] at left
    rw [replayed] at right
    exact ⟨last, final, left, right, observed⟩
  · intro agrees
    obtain ⟨after, replayed, agrees⟩ := agrees
    intro count
    cases count with
    | zero => exact ⟨first, second, rfl, rfl, start⟩
    | succ count =>
        obtain ⟨last, final, left, right, observed⟩ := agrees count
        refine ⟨last, final, ?_, ?_, observed⟩
        · rw [List.take_succ_cons, List.foldlM_cons, accepted]
          exact left
        · rw [List.take_succ_cons, List.foldlM_cons, replayed]
          exact right

/-- The replay agrees exactly when the condition of each step holds. -/
theorem agrees_iff {related : S → S → Prop} {stable : S → T → Prop}
    (observed : ∀ first second, related first second → runs.observe first second)
    (step : ∀ first second entry next, related first second → runs.accept first entry = .ok next →
      ∃ after, runs.replay second entry = .ok after ∧
    (runs.observe next after → related next after) ∧
        (runs.observe next after ↔ stable first entry))
    {first second last : S} {entries : List T} (start : related first second)
    (accepted : entries.foldlM runs.accept first = .ok last) :
    runs.Agrees first second entries ↔ runs.Stable stable first entries := by
  induction entries generalizing first second with
  | nil =>
      apply iff_of_true
      · intro count
        rw [List.take_nil]
        exact ⟨first, second, rfl, rfl, observed first second start⟩
      · trivial
  | cons entry entries ih =>
      obtain ⟨next, here, later⟩ := Outcome.bind_eq_ok.mp accepted
      obtain ⟨after, replayed, carried, settled⟩ := step first second entry next start here
      rw [agrees_cons (observed first second start) here]
      constructor
      · intro agrees
        obtain ⟨other, same, agrees⟩ := agrees
        rw [replayed] at same
        cases same
        obtain ⟨_, _, left, right, seen⟩ := agrees 0
        cases left
        cases right
        refine ⟨settled.mp seen, fun found reached => ?_⟩
        rw [here] at reached
        cases reached
        exact (ih (carried seen) later).mp agrees
      · intro stays
        obtain ⟨here', others⟩ := stays
        exact ⟨after, replayed, (ih (carried (settled.mpr here')) later).mpr (others next here)⟩

end Replay

end Foundation
