/-
This file compares the entries that were created with the entries that are held in several places.
-/

import Ddk.Foundation.Database

namespace Foundation

section

variable {K V : Type} [DecidableEq K]

/-- This number counts the entries with one key. -/
def occurrences (entries : List (K × V)) (key : K) : ℕ := (entries.map Prod.fst).count key

@[simp] theorem occurrences_nil (key : K) : occurrences ([] : List (K × V)) key = 0 := rfl

@[simp] theorem occurrences_append (first second : List (K × V)) (key : K) :
    occurrences (first ++ second) key = occurrences first key + occurrences second key := by
  simp [occurrences]

/-- A listed entry counts for its key. -/
theorem occurrences_pos {entries : List (K × V)} {entry : K × V} (member : entry ∈ entries) :
    0 < occurrences entries entry.1 :=
  List.count_pos_iff.mpr (List.mem_map_of_mem member)

/-- A counted key has an entry. -/
theorem exists_of_occurrences_pos {entries : List (K × V)} {key : K}
    (positive : 0 < occurrences entries key) : ∃ value, (key, value) ∈ entries := by
  obtain ⟨entry, member, rfl⟩ := List.mem_map.mp (List.count_pos_iff.mp positive)
  exact ⟨entry.2, member⟩

/-- A key that occurs once has one entry. -/
theorem eq_of_occurrences_le_one {entries : List (K × V)} {key : K} {first second : V}
    (once : occurrences entries key ≤ 1) (left : (key, first) ∈ entries)
    (right : (key, second) ∈ entries) : first = second := by
  induction entries with
  | nil => simp at left
  | cons head entries ih =>
      have split : occurrences (head :: entries) key = occurrences [head] key +
          occurrences entries key := by
        rw [← occurrences_append, List.singleton_append]
      have absent (value : V) (isHead : head.1 = key) : (key, value) ∉ entries := by
        intro member
        have later : 0 < occurrences entries key := occurrences_pos member
        have first : 0 < occurrences [head] key := isHead ▸ occurrences_pos List.mem_cons_self
        omega
      rcases List.mem_cons.mp left with same | later
      · have isHead : head.1 = key := by rw [← same]
        rcases List.mem_cons.mp right with other | listed
        · exact congrArg Prod.snd (same.trans other.symm)
        · exact absurd listed (absent second isHead)
      · rcases List.mem_cons.mp right with other | listed
        · exact absurd later (absent first (by rw [← other]))
        · exact ih (by omega) later listed

/-- Distinct keys occur at most once. -/
theorem occurrences_le_one {entries : List (K × V)}
    (distinct : (entries.map Prod.fst).Nodup) (key : K) :
    occurrences entries key ≤ 1 :=
  List.nodup_iff_count_le_one.mp distinct key

theorem occurrences_eq_zero {entries : List (K × V)} {key : K}
    (absent : key ∉ entries.map Prod.fst) :
    occurrences entries key = 0 :=
  List.count_eq_zero_of_not_mem absent

/-- Every held entry was created, and a key with one creation is held exactly once. -/
structure Accounts (created held : List (K × V)) : Prop where
  authentic : ∀ entry ∈ held, entry ∈ created
  counted : ∀ key, occurrences created key ≤ 1 → occurrences held key = occurrences created key

namespace Accounts

variable {created held added moved : List (K × V)}

theorem empty : Accounts ([] : List (K × V)) [] :=
  ⟨fun _ member => member, fun _ _ => rfl⟩

/-- A step moves held entries and adds the new ones. -/
theorem extend (accounts : Accounts created held)
    (origin : ∀ entry ∈ moved, entry ∈ added ∨ entry ∈ held)
    (balanced : ∀ key, occurrences (added ++ created) key ≤ 1 →
      occurrences moved key = occurrences held key + occurrences added key) :
    Accounts (added ++ created) moved where
  authentic := by
    intro entry member
    rcases origin entry member with new | old
    · exact List.mem_append_left _ new
    · exact List.mem_append_right _ (accounts.authentic entry old)
  counted := by
    intro key once
    have step := balanced key once
    rw [occurrences_append] at once ⊢
    have before := accounts.counted key (by omega)
    omega

/-- A key with one creation keeps the created value. -/
theorem held_value (accounts : Accounts created held) {key : K} {value other : V}
    (once : occurrences created key = 1) (member : (key, value) ∈ created)
    (listed : (key, other) ∈ held) : other = value :=
  eq_of_occurrences_le_one once.le (accounts.authentic _ listed) member

/-- An entry with one creation is held exactly once. -/
theorem count_held [DecidableEq V] (accounts : Accounts created held) {entry : K × V}
    (once : occurrences created entry.1 = 1) (member : entry ∈ created) : held.count entry = 1 := by
  have single : occurrences held entry.1 = 1 := by rw [accounts.counted _ once.le, once]
  obtain ⟨value, listed⟩ := exists_of_occurrences_pos (by omega : 0 < occurrences held entry.1)
  have same := accounts.held_value once member listed
  rw [same] at listed
  have bounded : held.count entry ≤ occurrences held entry.1 := List.count_le_count_map
  have positive : 0 < held.count entry := List.count_pos_iff.mpr listed
  omega

/-- The lists have one total when each entry with a weight has one creation. -/
theorem sum_eq (accounts : Accounts created held) (weight : V → ℕ)
    (once : ∀ entry ∈ created, weight entry.2 ≠ 0 → occurrences created entry.1 = 1) :
    (held.map fun entry => weight entry.2).sum = (created.map fun entry => weight entry.2).sum := by
  classical
  let weighted := fun entry : K × V => decide (weight entry.2 ≠ 0)
  have dropped (entries : List (K × V)) :
      ((entries.filter weighted).map fun entry => weight entry.2).sum =
      (entries.map fun entry => weight entry.2).sum := by
    induction entries with
    | nil => rfl
    | cons entry entries ih =>
        rw [List.filter_cons]
        by_cases zero : weight entry.2 = 0 <;> simp [weighted, zero] <;> simpa [weighted] using ih
  have same : (held.filter weighted).Perm (created.filter weighted) := by
    rw [List.perm_iff_count]
    intro entry
    by_cases zero : weight entry.2 = 0
    · rw [List.count_eq_zero_of_not_mem, List.count_eq_zero_of_not_mem] <;> simp [weighted, zero]
    · have counted : weighted entry = true := decide_eq_true zero
      rw [List.count_filter counted, List.count_filter counted]
      by_cases member : entry ∈ created
      · have single := once entry member zero
        have bounded : created.count entry ≤ occurrences created entry.1 := List.count_le_count_map
        have positive := List.count_pos_iff.mpr member
        rw [accounts.count_held single member]
        omega
      · rw [List.count_eq_zero_of_not_mem member,
          List.count_eq_zero_of_not_mem fun listed => member (accounts.authentic entry listed)]
  rw [← dropped held, ← dropped created]
  exact (same.map _).sum_eq

end Accounts

end

/-- A database holds each present key once. -/
theorem Database.occurrences_toList {K V : Type} [LinearOrder K] (table : Database K V) (key : K) :
    occurrences table.toList key = if table[key]?.isSome then 1 else 0 := by
  rw [occurrences, Std.ExtTreeMap.map_fst_toList_eq_keys, Database.count_keys]

/-- A name that does not occur has no entry. -/
theorem Database.getElem?_eq_none {K V : Type} [LinearOrder K] {table : Database K V} {key : K}
    (absent : occurrences table.toList key = 0) : table[key]? = none := by
  rw [Database.occurrences_toList] at absent
  by_contra present
  rw [if_pos (Option.isSome_iff_ne_none.mpr present)] at absent
  cases absent

end Foundation
