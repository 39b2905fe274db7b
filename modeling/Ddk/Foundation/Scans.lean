/-
This file gives scans that compare each entry with the entry before it.
-/

import Ddk.Foundation.Chains

namespace Foundation

variable {E T O M : Type} (level : E → T)

/-- A scan credits each entry against the level of the entry before it. -/
def credits (credit : T → E → List O) (start : T) : List E → List O
  | [] => []
  | entry :: entries => credit start entry ++ credits credit (level entry) entries

/-- A scan remembers the mark of its last marked entry. -/
def lastMark (mark : T → E → Option M) (start : T) : List E → Option M
  | [] => none
  | entry :: entries => lastMark mark (level entry) entries <|> mark start entry

variable {level} {credit : T → E → List O} {mark : T → E → Option M}

/-- A scan continues at the level of the last entry. -/
theorem credits_append (start : T) (first second : List E) :
    credits level credit start (first ++ second) =
      credits level credit start first ++ credits level credit (tip level start first) second := by
  induction first generalizing start with
  | nil => rfl
  | cons entry first ih =>
      rw [List.cons_append, credits, credits, ih, tip_cons, List.append_assoc]

/-- The second part of a scan replaces the mark of the first part. -/
theorem lastMark_append (start : T) (first second : List E) :
    lastMark level mark start (first ++ second) =
      (lastMark level mark (tip level start first) second <|> lastMark level mark start first) := by
  induction first generalizing start with
  | nil =>
      change _ = (lastMark level mark start second <|> none)
      rw [Option.orElse_eq_orElse, Option.orElse_eq_or, Option.or_none]
      rfl
  | cons entry first ih =>
      rw [List.cons_append, lastMark, lastMark, ih, tip_cons]
      simp only [Option.orElse_eq_orElse, Option.orElse_eq_or, Option.or_assoc]

/-- Each credit compares one entry with the level of the entries before it. -/
theorem mem_credits {start : T} {entries : List E} {output : O} :
    output ∈ credits level credit start entries ↔
      ∃ before entry after, entries = before ++ entry :: after ∧
        output ∈ credit (tip level start before) entry := by
  constructor
  · intro member
    induction entries generalizing start with
    | nil => cases member
    | cons entry entries ih =>
        rcases List.mem_append.mp member with here | later
        · exact ⟨[], entry, entries, rfl, here⟩
        · obtain ⟨before, found, after, rfl, credited⟩ := ih later
          refine ⟨entry :: before, found, after, rfl, ?_⟩
          rw [tip_cons]
          exact credited
  · intro position
    obtain ⟨before, entry, after, rfl, credited⟩ := position
    rw [credits_append]
    exact List.mem_append_right _ (List.mem_append_left _ credited)

/-- The last mark is the mark of an entry. -/
theorem exists_of_lastMark {start : T} {entries : List E} {found : M}
    (marked : lastMark level mark start entries = some found) :
    ∃ entry ∈ entries, ∃ before, mark before entry = some found := by
  induction entries generalizing start with
  | nil => cases marked
  | cons entry entries ih =>
      rw [lastMark, Option.orElse_eq_orElse, Option.orElse_eq_or, Option.or_eq_some_iff] at marked
      rcases marked with later | ⟨_, here⟩
      · obtain ⟨other, member, before, same⟩ := ih later
        exact ⟨other, List.mem_cons_of_mem _ member, before, same⟩
      · exact ⟨entry, List.mem_cons_self, start, here⟩

/-- A scan without marks has no credits. -/
theorem credits_of_unmarked
    (silent : ∀ before entry, mark before entry = none → credit before entry = [])
    {start : T} {entries : List E} (unmarked : lastMark level mark start entries = none) :
    credits level credit start entries = [] := by
  induction entries generalizing start with
  | nil => rfl
  | cons entry entries ih =>
      rw [lastMark, Option.orElse_eq_orElse, Option.orElse_eq_or, Option.or_eq_none_iff] at unmarked
      rw [credits, ih unmarked.1, silent start entry unmarked.2]
      rfl

/-- A nonempty part forgets the level before it. -/
theorem tip_of_ne_nil {entries : List E} (present : entries ≠ []) (first second : T) :
    tip level first entries = tip level second entries := by
  cases entries with
  | nil => exact absurd rfl present
  | cons entry entries => rw [tip_cons, tip_cons]

/-- The level after two parts is the level after the second part. -/
theorem tip_append (start : T) (first second : List E) :
    tip level start (first ++ second) = tip level (tip level start first) second := by
  induction first generalizing start with
  | nil => rfl
  | cons entry first ih => rw [List.cons_append, tip_cons, tip_cons, ih]

/-- A scan resumed after its last mark credits exactly the new entries. -/
theorem credits_resumed
    (silent : ∀ before entry, mark before entry = none → credit before entry = [])
    (start : T) (marked seen later : List E)
    (unmarked : lastMark level mark (tip level start marked) seen = none) :
    credits level credit start (marked ++ later) = credits level credit start (marked ++ seen) ++
      credits level credit (tip level start marked) later := by
  rw [credits_append, credits_append, credits_of_unmarked silent unmarked, List.append_nil]

end Foundation
