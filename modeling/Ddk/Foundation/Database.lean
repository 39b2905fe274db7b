/-
This file models ordered key-value databases and the iteration orders of hash maps.
-/

import Mathlib

namespace Foundation

/-- A linear order compares two keys as equal exactly when they are the same key. -/
instance linearOrderLawfulEq (K : Type) [LinearOrder K] : Std.LawfulEqOrd K where
  compare_self := compare_eq_iff_eq.mpr rfl
  eq_of_compare := compare_eq_iff_eq.mp

instance linearOrderTransCmp (K : Type) [LinearOrder K] :
    Std.TransCmp (compare : K → K → Ordering) :=
  inferInstance

/-- A database stores one value for each present key and iterates in key order. -/
abbrev Database (K V : Type) [LinearOrder K] := Std.ExtTreeMap K V

/-- A hash map has the contents of a database. A `HashOrder` gives its iteration order. -/
abbrev HashMap (K V : Type) [LinearOrder K] := Database K V

namespace Database

variable {K V : Type} [LinearOrder K]

/-- A loop puts each entry in list order. -/
def putAll (table : Database K V) (entries : List (K × V)) : Database K V :=
  entries.foldl (fun table entry => table.insert entry.1 entry.2) table

/-- A loop deletes each key in list order. -/
def deleteAll (table : Database K V) (keys : List K) : Database K V :=
  keys.foldl (fun table key => table.erase key) table

/-- The last entry has the greatest key. -/
def last (table : Database K V) : Option (K × V) := table.toList.getLast?

/-- A key is present exactly when the key list contains it. -/
theorem mem_keys_iff {table : Database K V} {key : K} :
    key ∈ table.keys ↔ ∃ value, table[key]? = some value := by
  rw [Std.ExtTreeMap.mem_keys, Std.ExtTreeMap.mem_iff_isSome_getElem?, Option.isSome_iff_exists]

/-- An entry is listed exactly when its lookup finds it. -/
theorem mem_entries_iff {table : Database K V} {entry : K × V} :
    entry ∈ table.toList ↔ table[entry.1]? = some entry.2 :=
  Std.ExtTreeMap.mem_toList_iff_getElem?_eq_some

@[simp] theorem toList_empty : (∅ : Database K V).toList = [] :=
  Std.ExtTreeMap.toList_eq_nil_iff.mpr rfl

@[simp] theorem keys_empty : (∅ : Database K V).keys = [] :=
  Std.ExtTreeMap.keys_eq_nil_iff.mpr rfl

/-- The entries have distinct keys. -/
theorem entries_nodup (table : Database K V) : (table.toList.map Prod.fst).Nodup := by
  rw [Std.ExtTreeMap.map_fst_toList_eq_keys]
  exact Std.ExtTreeMap.nodup_keys

/-- The entries are listed in the order of their keys. -/
theorem entries_sorted (table : Database K V) : table.toList.Pairwise
    fun first second => first.1 < second.1 := by
  have ordered : table.toList.Pairwise fun first second => compare first.1 second.1 = .lt :=
    Std.ExtTreeMap.ordered_keys_toList
  exact ordered.imp fun before => compare_lt_iff_lt.mp before

/-- A table lists the entries that agree with its lookups in the order of their keys. -/
theorem toList_eq_of_sorted {table : Database K V} {entries : List (K × V)}
    (sorted : entries.Pairwise fun first second => first.1 < second.1)
    (same : ∀ entry, entry ∈ entries ↔ table[entry.1]? = some entry.2) :
    table.toList = entries := by
  have distinct (listed : List (K × V))
      (ordered : listed.Pairwise fun first second => first.1 < second.1) :
      listed.Nodup := ordered.imp fun before equal => absurd (congrArg Prod.fst equal) before.ne
  have perm :=
    (List.perm_ext_iff_of_nodup (distinct _ table.entries_sorted) (distinct _ sorted)).mpr
      fun entry =>
    mem_entries_iff.trans (same entry).symm
  exact perm.eq_of_pairwise (fun first second _ _ left right => absurd left right.asymm)
    table.entries_sorted sorted

/-- A table without the first keys of another one lists the entries behind them. -/
theorem toList_eq_drop {table rest : Database K V} {number : ℕ}
    (remains : ∀ key, rest[key]? =
      if key ∈ (table.toList.take number).map Prod.fst then none else table[key]?) :
    rest.toList = table.toList.drop number := by
  have split := table.entries_nodup
  rw [← List.take_append_drop number table.toList, List.map_append] at split
  apply toList_eq_of_sorted (table.entries_sorted.sublist (List.drop_sublist number _))
  intro entry
  rw [remains]
  constructor
  · intro later
    have apart := (List.nodup_append.mp split).2.2
    rw [if_neg fun early => apart entry.1 early entry.1 (List.mem_map_of_mem later) rfl]
    exact mem_entries_iff.mp (List.mem_of_mem_drop later)
  · intro found
    split at found
    next => cases found
    next kept =>
      have listed := mem_entries_iff.mpr found
      rw [← List.take_append_drop number table.toList, List.mem_append] at listed
      exact listed.resolve_left fun early => kept (List.mem_map_of_mem early)

/-- Each key is at most the last key. -/
theorem le_last {table : Database K V} {key : K} {value : V} (found : table[key]? = some value) :
    ∃ entry, table.last = some entry ∧ key ≤ entry.1 := by
  have member : (key, value) ∈ table.toList := mem_entries_iff.mpr found
  have present := List.ne_nil_of_mem member
  refine ⟨table.toList.getLast present, List.getLast?_eq_some_getLast present, ?_⟩
  have ordered : (table.toList.dropLast ++ [table.toList.getLast present]).Pairwise
      fun first second => compare first.1 second.1 = .lt := by
    rw [List.dropLast_append_getLast present]
    exact Std.ExtTreeMap.ordered_keys_toList
  rw [← List.dropLast_append_getLast present, List.mem_append, List.mem_singleton] at member
  rcases member with earlier | last
  · have before := (List.pairwise_append.mp ordered).2.2 _ earlier _ (List.mem_singleton_self _)
    exact (compare_lt_iff_lt.mp before).le
  · rw [← last]

/-- The last entry is present. -/
theorem last_found {table : Database K V} {entry : K × V} (last : table.last = some entry) :
    table[entry.1]? = some entry.2 :=
  mem_entries_iff.mp (List.mem_of_getLast? last)

/-- A present key occurs once in the key list. -/
theorem count_keys (table : Database K V) (key : K) :
    table.keys.count key = if table[key]?.isSome then 1 else 0 := by
  rw [Std.ExtTreeMap.nodup_keys.count]
  simp only [mem_keys_iff, ← Option.isSome_iff_exists]

@[simp] theorem getElem?_put (table : Database K V) (key query : K) (value : V) :
    (table.insert key value)[query]? = if query = key then some value else table[query]? := by
  rw [Std.ExtTreeMap.getElem?_insert]
  simp only [compare_eq_iff_eq, @eq_comm K query]

/-- A put key above every present key becomes the last key. -/
theorem last_put {table : Database K V} {key : K} (value : V)
    (greatest : ∀ other found, table[other]? = some found → other ≤ key) :
    last (table.insert key value) = some (key, value) := by
  have found : (table.insert key value)[key]? = some value := by rw [getElem?_put, if_pos rfl]
  obtain ⟨entry, last, above⟩ := le_last found
  have stored := last_found last
  rw [getElem?_put] at stored
  split at stored
  next same =>
    rw [last]
    exact congrArg some (Prod.ext same (Option.some.inj stored).symm)
  next different => exact absurd (le_antisymm (greatest _ _ stored) above) different

@[simp] theorem getElem?_delete (table : Database K V) (key query : K) :
    (table.erase key)[query]? = if query = key then none else table[query]? := by
  rw [Std.ExtTreeMap.getElem?_erase]
  simp only [compare_eq_iff_eq, @eq_comm K query]

@[simp] theorem putAll_nil (table : Database K V) : table.putAll [] = table := rfl

@[simp] theorem putAll_cons (table : Database K V) (entry : K × V) (entries : List (K × V)) :
    table.putAll (entry :: entries) = putAll (table.insert entry.1 entry.2) entries := rfl

theorem putAll_append (table : Database K V) (first second : List (K × V)) :
    table.putAll (first ++ second) = (table.putAll first).putAll second :=
  List.foldl_append

@[simp] theorem deleteAll_nil (table : Database K V) : table.deleteAll [] = table := rfl

/-- The deletions remove the listed keys and keep every other entry. -/
theorem getElem?_deleteAll (table : Database K V) (keys : List K) (query : K) :
    (table.deleteAll keys)[query]? = if query ∈ keys then none else table[query]? := by
  induction keys generalizing table with
  | nil => simp
  | cons key keys ih =>
      change (deleteAll (table.erase key) keys)[query]? = _
      rw [ih, getElem?_delete]
      by_cases same : query = key <;> simp [same]

/-- The loop keeps each key that it does not put. -/
theorem getElem?_putAll_of_notMem {table : Database K V} {entries : List (K × V)} {query : K}
    (absent : query ∉ entries.map Prod.fst) : (table.putAll entries)[query]? = table[query]? := by
  induction entries generalizing table with
  | nil => rfl
  | cons entry entries ih =>
      rw [List.map_cons, List.mem_cons, not_or] at absent
      rw [putAll_cons, ih absent.2, getElem?_put, if_neg absent.1]

/-- A put key is present after the loop. -/
theorem isSome_putAll_of_mem {table : Database K V} {entries : List (K × V)} {query : K}
    (member : query ∈ entries.map Prod.fst) : ((table.putAll entries)[query]?).isSome := by
  induction entries generalizing table with
  | nil => simp at member
  | cons entry entries ih =>
      rw [putAll_cons]
      by_cases later : query ∈ entries.map Prod.fst
      · exact ih later
      · have same : query = entry.1 := (List.mem_cons.mp member).resolve_right later
        rw [getElem?_putAll_of_notMem later, getElem?_put, if_pos same]
        rfl

/-- Every value after the loop was put by it or was there before. -/
theorem putAll_origin {table : Database K V} {entries : List (K × V)} {query : K} {value : V}
    (found : (table.putAll entries)[query]? = some value) :
    (query, value) ∈ entries ∨ table[query]? = some value := by
  induction entries generalizing table with
  | nil => exact .inr found
  | cons entry entries ih =>
      rcases ih found with later | earlier
      · exact .inl (List.mem_cons_of_mem _ later)
      · rw [getElem?_put] at earlier
        split at earlier
        next same =>
          cases earlier
          exact .inl (by rw [same]; exact List.mem_cons_self)
        next => exact .inr earlier

/-- Distinct keys keep their own values. -/
theorem getElem?_putAll_of_mem {table : Database K V} {entries : List (K × V)}
    (distinct : (entries.map Prod.fst).Nodup) {entry : K × V} (member : entry ∈ entries) :
    (table.putAll entries)[entry.1]? = some entry.2 := by
  induction entries generalizing table with
  | nil => simp at member
  | cons first entries ih =>
      rw [List.map_cons, List.nodup_cons] at distinct
      rw [putAll_cons]
      rcases List.mem_cons.mp member with same | later
      · rw [same, getElem?_putAll_of_notMem distinct.1, getElem?_put, if_pos rfl]
      · exact ih distinct.2 later

/-- Entries with one value give that value to each of their keys. -/
theorem getElem?_putAll_constant (table : Database K V) (keys : List K) (value : V) (query : K) :
    (table.putAll (keys.map fun key => (key, value)))[query]? =
      if query ∈ keys then some value else table[query]? := by
  induction keys generalizing table with
  | nil => rfl
  | cons key keys ih =>
      rw [List.map_cons, Database.putAll_cons, ih, Database.getElem?_put]
      by_cases same : query = key <;> simp [same]

/-- The loop reaches the same table from each order of distinct keys. -/
theorem putAll_perm {table : Database K V} {first second : List (K × V)}
    (same : first.Perm second) (distinct : (first.map Prod.fst).Nodup) :
    table.putAll first = table.putAll second := by
  apply Std.ExtTreeMap.ext_getElem?
  intro query
  by_cases member : query ∈ first.map Prod.fst
  · obtain ⟨entry, listed, rfl⟩ := List.mem_map.mp member
    rw [getElem?_putAll_of_mem distinct listed,
      getElem?_putAll_of_mem ((same.map Prod.fst).nodup_iff.mp distinct) (same.mem_iff.mp listed)]
  · rw [getElem?_putAll_of_notMem member,
      getElem?_putAll_of_notMem (fun later => member ((same.map Prod.fst).mem_iff.mpr later))]

/-- A new key adds one entry. -/
theorem toList_put_perm {table : Database K V} {key : K} (absent : table[key]? = none) (value : V) :
    (table.insert key value).toList.Perm ((key, value) :: table.toList) := by
  have nodup (table : Database K V) : table.toList.Nodup :=
    List.Nodup.of_map Prod.fst (entries_nodup table)
  have fresh : (key, value) ∉ table.toList := by
    rw [mem_entries_iff, absent]
    simp
  rw [List.perm_ext_iff_of_nodup (nodup _) (List.nodup_cons.mpr ⟨fresh, nodup _⟩)]
  rintro ⟨query, result⟩
  rw [List.mem_cons, mem_entries_iff, mem_entries_iff, getElem?_put]
  by_cases same : query = key
  · simp [same, absent, eq_comm]
  · simp [same]

/-- New distinct keys add their entries. -/
theorem toList_putAll_perm {table : Database K V} {entries : List (K × V)}
    (distinct : (entries.map Prod.fst).Nodup)
    (fresh : ∀ key ∈ entries.map Prod.fst, table[key]? = none) :
    (table.putAll entries).toList.Perm (entries ++ table.toList) := by
  induction entries generalizing table with
  | nil => exact List.Perm.refl _
  | cons entry entries ih =>
      rw [List.map_cons, List.nodup_cons] at distinct
      have absent := fresh entry.1 (by simp)
      have later : ∀ key ∈ entries.map Prod.fst, (table.insert entry.1 entry.2)[key]? = none := by
        intro key member
        have different : key ≠ entry.1 := fun same => distinct.1 (same ▸ member)
        rw [getElem?_put, if_neg different]
        exact fresh key (by simp only [List.map_cons]; exact List.mem_cons_of_mem _ member)
      calc (table.putAll (entry :: entries)).toList.Perm _ := ih distinct.2 later
        _ |>.Perm (entries ++ (entry :: table.toList)) :=
            (toList_put_perm absent entry.2).append_left entries
        _ |>.Perm (entry :: entries ++ table.toList) := List.perm_middle

/-- Two tables are inverse when they store the same pairs in both directions. -/
def Inverse {K V : Type} [LinearOrder K] [LinearOrder V] (forward : Database K V)
    (backward : Database V K) : Prop :=
  ∀ (key : K) (value : V), forward[key]? = some value ↔ backward[value]? = some key

section

variable [LinearOrder V] {forward : Database K V} {backward : Database V K}

theorem Inverse.empty : Inverse (∅ : Database K V) (∅ : Database V K) := by
  intro key value
  simp

/-- A new pair keeps the tables inverse. -/
theorem Inverse.put (inverse : Inverse forward backward) {key : K} {value : V}
    (newKey : forward[key]? = none) (newValue : backward[value]? = none) :
    Inverse (forward.insert key value) (backward.insert value key) := by
  intro other found
  rw [getElem?_put, getElem?_put]
  by_cases sameKey : other = key
  · by_cases sameValue : found = value
    · simp [sameKey, sameValue]
    · rw [if_pos sameKey, if_neg sameValue, sameKey, ← inverse, newKey]
      simp [Ne.symm sameValue]
  · by_cases sameValue : found = value
    · rw [if_neg sameKey, if_pos sameValue, sameValue, inverse, newValue]
      simp [Ne.symm sameKey]
    · rw [if_neg sameKey, if_neg sameValue, inverse]

end

end Database

/-- The iteration order of one kind of hash map lists exactly the entries of each map. -/
structure HashOrder (K V : Type) [LinearOrder K] where
  iter : HashMap K V → List (K × V)
  perm : ∀ map, (iter map).Perm map.toList

namespace HashOrder

variable {K V : Type} [LinearOrder K]

/-- This order follows the keys. -/
def byKey : HashOrder K V := ⟨fun map => map.toList, fun _ => List.Perm.refl _⟩

/-- This order lists the entries of another order from the end. -/
def reversed (order : HashOrder K V) : HashOrder K V :=
  ⟨fun map => (order.iter map).reverse, fun map => (List.reverse_perm _).trans (order.perm map)⟩

theorem mem_iter (order : HashOrder K V) {map : HashMap K V} {entry : K × V} :
    entry ∈ order.iter map ↔ map[entry.1]? = some entry.2 :=
  (order.perm map).mem_iff.trans Database.mem_entries_iff

theorem keys_perm (order : HashOrder K V) (map : HashMap K V) :
    ((order.iter map).map Prod.fst).Perm map.keys := by
  rw [← Std.ExtTreeMap.map_fst_toList_eq_keys]
  exact (order.perm map).map Prod.fst

theorem keys_nodup (order : HashOrder K V) (map : HashMap K V) :
    ((order.iter map).map Prod.fst).Nodup :=
  (order.keys_perm map).nodup_iff.mpr Std.ExtTreeMap.nodup_keys

theorem mem_keys (order : HashOrder K V) {map : HashMap K V} {key : K} :
    key ∈ (order.iter map).map Prod.fst ↔ ∃ value, map[key]? = some value :=
  (order.keys_perm map).mem_iff.trans Database.mem_keys_iff

/-- An entry of a map splits its iteration. Its key does not come earlier. -/
theorem exists_split (order : HashOrder K V) {map : HashMap K V} {key : K} {value : V}
    (found : map[key]? = some value) : ∃ before after,
      order.iter map = before ++ (key, value) :: after ∧ key ∉ before.map Prod.fst := by
  have member : (key, value) ∈ order.iter map := order.mem_iter.mpr found
  obtain ⟨before, after, split⟩ := List.append_of_mem member
  have distinct := order.keys_nodup map
  rw [split, List.map_append, List.map_cons, List.nodup_append] at distinct
  exact ⟨before, after, split, fun earlier => distinct.2.2 key earlier key List.mem_cons_self rfl⟩

/-- Putting a map's entries does not depend on the iteration order. -/
theorem putAll_eq (first second : HashOrder K V) (map : HashMap K V) (table : Database K V) :
    table.putAll (first.iter map) = table.putAll (second.iter map) :=
  Database.putAll_perm ((first.perm map).trans (second.perm map).symm) (first.keys_nodup map)

/-- Putting a map's entries replaces exactly the keys of the map. -/
theorem getElem?_putAll (order : HashOrder K V) (map : HashMap K V) (table : Database K V)
    (query : K) :
    (table.putAll (order.iter map))[query]? = (map[query]?).or table[query]? := by
  by_cases member : query ∈ (order.iter map).map Prod.fst
  · obtain ⟨entry, listed, rfl⟩ := List.mem_map.mp member
    rw [Database.getElem?_putAll_of_mem (order.keys_nodup map) listed, order.mem_iter.mp listed]
    rfl
  · rw [Database.getElem?_putAll_of_notMem member]
    cases found : map[query]? with
    | none => rfl
    | some value => exact absurd (order.mem_keys.mpr ⟨value, found⟩) member

/-- A map with at most one entry has one iteration order. -/
theorem iter_eq (first second : HashOrder K V) {map : HashMap K V} (small : map.toList.length ≤ 1) :
    first.iter map = second.iter map := by
  have same := (first.perm map).trans (second.perm map).symm
  have bounded : (first.iter map).length ≤ 1 := (first.perm map).length_eq.trans_le small
  match listed : first.iter map, bounded with
  | [], _ =>
      rw [listed] at same
      exact (List.nil_perm.mp same).symm
  | [entry], _ =>
      rw [listed] at same
      exact List.singleton_perm.mp same

/-- Copying a map into an empty map gives the map for each iteration order. -/
theorem putAll_iter (order : HashOrder K V) (map : HashMap K V) :
    Database.putAll (∅ : HashMap K V) (order.iter map) = map := by
  apply Std.ExtTreeMap.ext_getElem?
  intro query
  rw [order.getElem?_putAll, Std.ExtTreeMap.getElem?_empty, Option.or_none]

/-- Deleting a map's keys removes exactly the keys of the map. -/
theorem getElem?_deleteAll (order : HashOrder K V) (map : HashMap K V) {W : Type}
    (table : Database K W) (query : K) :
    (table.deleteAll ((order.iter map).map Prod.fst))[query]? =
      if (map[query]?).isSome then none else table[query]? := by
  have present : query ∈ (order.iter map).map Prod.fst ↔ (map[query]?).isSome = true := by
    rw [order.mem_keys, Option.isSome_iff_exists]
  rw [Database.getElem?_deleteAll, if_congr present rfl rfl]

end HashOrder

end Foundation
