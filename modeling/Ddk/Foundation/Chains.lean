/-
This file relates linked lists of blocks with the tables that index them.
-/

import Ddk.Foundation.Database

namespace Foundation

/-- Items with equal names have equal values when the names decide the values. -/
theorem map_eq_map_of_imp {α N V : Type} {name : α → N} {value : α → V} {first second : List α}
    (names : first.map name = second.map name)
    (decides : ∀ left ∈ first, ∀ right ∈ second, name left = name right →
      value left = value right) :
    first.map value = second.map value := by
  induction first generalizing second with
  | nil =>
      rw [List.map_nil, eq_comm, List.map_eq_nil_iff] at names
      rw [names]
  | cons left first ih =>
      cases second with
      | nil => cases names
      | cons right second =>
          rw [List.map_cons, List.map_cons, List.cons.injEq] at names
          obtain ⟨head, tail⟩ := names
          have later := ih tail fun left member right listed =>
            decides left (List.mem_cons_of_mem _ member) right (List.mem_cons_of_mem _ listed)
          rw [List.map_cons, List.map_cons, later,
            decides left List.mem_cons_self right List.mem_cons_self head]

/-- A fold that reads only the names of its items gives one result for lists with equal names. -/
theorem foldlM_eq_of_map {m : Type → Type} [Monad m] {α N S : Type} {name : α → N}
    {step : S → α → m S}
    (reads : ∀ state left right, name left = name right → step state left = step state right)
    {first second : List α} (names : first.map name = second.map name) (start : S) :
    first.foldlM step start = second.foldlM step start := by
  induction first generalizing second start with
  | nil =>
      rw [List.map_nil, eq_comm, List.map_eq_nil_iff] at names
      rw [names]
  | cons left first ih =>
      cases second with
      | nil => cases names
      | cons right second =>
          rw [List.map_cons, List.map_cons, List.cons.injEq] at names
          obtain ⟨head, tail⟩ := names
          rw [List.foldlM_cons, List.foldlM_cons, reads start left right head]
          exact bind_congr fun next => ih tail next

section

variable {β H : Type} (hash previous : β → H)

/-- Each block names the block before it, and the first block names the start. -/
def Linked (start : H) : List β → Prop
  | [] => True
  | block :: blocks => previous block = start ∧ Linked (hash block) blocks

/-- The tip is the name of the last block. -/
def tip (start : H) (blocks : List β) : H := (blocks.getLast?.map hash).getD start

@[simp] theorem tip_nil (start : H) : tip hash start [] = start := rfl

@[simp] theorem tip_concat (start : H) (blocks : List β) (block : β) :
    tip hash start (blocks ++ [block]) = hash block := by
  simp [tip]

theorem tip_cons (start : H) (block : β) (blocks : List β) :
    tip hash start (block :: blocks) = tip hash (hash block) blocks := by
  cases blocks with
  | nil => rfl
  | cons next blocks => simp [tip, List.getLast?_cons]

variable {hash previous}

/-- A block that names the tip extends the list. -/
theorem Linked.concat {start : H} {blocks : List β}
    (linked : Linked hash previous start blocks) (block : β)
    (named : previous block = tip hash start blocks) :
    Linked hash previous start (blocks ++ [block]) := by
  induction blocks generalizing start with
  | nil => exact ⟨named, trivial⟩
  | cons first blocks ih =>
      rw [tip_cons] at named
      exact ⟨linked.1, ih linked.2 named⟩

/-- A linked list with one more block is a linked list, and the block names its tip. -/
theorem linked_concat {start : H} {blocks : List β} {block : β} :
    Linked hash previous start (blocks ++ [block]) ↔
      Linked hash previous start blocks ∧ previous block = tip hash start blocks := by
  refine ⟨fun linked => ?_, fun parts => parts.1.concat block parts.2⟩
  induction blocks generalizing start with
  | nil => exact ⟨trivial, linked.1⟩
  | cons first blocks ih =>
      obtain ⟨before, named⟩ := ih linked.2
      exact ⟨⟨linked.1, before⟩, by rw [tip_cons, named]⟩

/-- The first blocks of a linked list are linked. -/
theorem Linked.of_prefix {start : H} {blocks longer : List β}
    (linked : Linked hash previous start longer)
    (part : blocks <+: longer) : Linked hash previous start blocks := by
  obtain ⟨rest, rfl⟩ := part
  induction blocks generalizing start with
  | nil => trivial
  | cons first blocks ih => exact ⟨linked.1, ih linked.2⟩

/-- A block names the tip of the blocks before it. -/
theorem Linked.tip_take {start : H} {blocks : List β} (linked : Linked hash previous start blocks)
    {index : ℕ} {block : β}
    (found : blocks[index]? = some block) : tip hash start (blocks.take index) =
      previous block := by
  obtain ⟨inside, same⟩ := List.getElem?_eq_some_iff.mp found
  have part : blocks.take index ++ [block] <+: blocks := by
    rw [← same, List.take_concat_get']
    exact List.take_prefix _ _
  exact (linked_concat.mp (linked.of_prefix part)).2.symm

/-- Without collisions, two linked lists with one tip are one list. -/
theorem Linked.eq_of_tip {start : H} {first second : List β}
    (left : Linked hash previous start first) (right : Linked hash previous start second)
    (same : tip hash start first = tip hash start second)
    (free : ∀ block ∈ first, ∀ other ∈ second, hash block = hash other →
      previous block = previous other)
    (started : ∀ block ∈ first ++ second, hash block ≠ start) :
    first.map hash = second.map hash := by
  induction first using List.reverseRecOn generalizing second with
  | nil =>
      cases second using List.reverseRecOn with
      | nil => rfl
      | append_singleton second other =>
          rw [tip_nil, tip_concat] at same
          exact absurd same.symm (started other (by simp))
  | append_singleton first block ih =>
      cases second using List.reverseRecOn with
      | nil =>
          rw [tip_nil, tip_concat] at same
          exact absurd same (started block (by simp))
      | append_singleton second other =>
          rw [tip_concat, tip_concat] at same
          obtain ⟨left, named⟩ := linked_concat.mp left
          obtain ⟨right, renamed⟩ := linked_concat.mp right
          have equal := free block (by simp) other (by simp) same
          have before : first.map hash = second.map hash := by
            refine ih left right (named.symm.trans (equal.trans renamed))
              (fun block member other listed => ?_)
              fun block member => ?_
            · exact free block (List.mem_append_left _ member) other (List.mem_append_left _ listed)
            · apply started
              rcases List.mem_append.mp member with member | member
              · exact List.mem_append_left _ (List.mem_append_left _ member)
              · exact List.mem_append_right _ (List.mem_append_left _ member)
          rw [List.map_append, List.map_append, before, List.map_singleton, List.map_singleton,
            same]

/-- The names before the blocks are the start and the names of the blocks. -/
theorem Linked.previous_eq {start : H} {blocks : List β}
    (linked : Linked hash previous start blocks) {index : ℕ} {block : β}
    (found : blocks[index]? = some block) :
    (start :: blocks.map hash)[index]? = some (previous block) := by
  induction blocks generalizing start index with
  | nil => simp at found
  | cons first blocks ih =>
      cases index with
      | zero =>
          cases found
          rw [List.getElem?_cons_zero, linked.1]
      | succ index =>
          rw [List.getElem?_cons_succ] at found
          exact ih linked.2 found

/-- Without collisions, linked blocks have distinct names. -/
theorem Linked.nodup {start : H} {blocks : List β} (linked : Linked hash previous start blocks)
    (free : ∀ first ∈ blocks, ∀ second ∈ blocks, hash first = hash second →
      previous first = previous second)
    (started : ∀ block ∈ blocks, hash block ≠ start) : (blocks.map hash).Nodup := by
  have apart (first second : ℕ) (ordered : first < second) (left right : β)
    (found : blocks[first]? = some left)
      (later : blocks[second]? = some right) : hash left ≠ hash right := by
    intro same
    induction first generalizing second left right with
    | zero =>
        obtain ⟨second, rfl⟩ := Nat.exists_eq_succ_of_ne_zero (Nat.pos_iff_ne_zero.mp ordered)
        have before := linked.previous_eq later
        have equal := free left (List.mem_of_getElem? found) right (List.mem_of_getElem? later) same
        rw [← equal, Option.some.inj (linked.previous_eq found).symm, List.getElem?_cons_succ,
          List.getElem?_map, Option.map_eq_some_iff] at before
        obtain ⟨block, present, named⟩ := before
        exact started block (List.mem_of_getElem? present) named
    | succ first ih =>
        obtain ⟨second, rfl⟩ := Nat.exists_eq_succ_of_ne_zero (Nat.ne_zero_of_lt ordered)
        have before := linked.previous_eq found
        have after := linked.previous_eq later
        have equal := free left (List.mem_of_getElem? found) right (List.mem_of_getElem? later) same
        rw [List.getElem?_cons_succ, List.getElem?_map, Option.map_eq_some_iff] at before after
        obtain ⟨block, present, named⟩ := before
        obtain ⟨other, there, renamed⟩ := after
        exact ih second (by omega) block other present there
          (named.trans (equal.trans renamed.symm))
  rw [List.nodup_iff_getElem?_ne_getElem?]
  intro first second ordered inside
  rw [List.length_map] at inside
  have left := List.getElem?_eq_getElem (l := blocks) (ordered.trans inside)
  have right := List.getElem?_eq_getElem (l := blocks) inside
  rw [List.getElem?_map, List.getElem?_map, left, right]
  intro same
  exact apart first second ordered _ _ left right (Option.some.inj same)

end

section

variable {β K V : Type} [LinearOrder K]

/-- A table has exactly one entry for each position of a list. -/
def Indexes (table : Database K V) (blocks : List β) (entry : ℕ → β → K × V) : Prop :=
  ∀ key value, table[key]? = some value ↔
    ∃ index block, blocks[index]? = some block ∧ entry index block = (key, value)

theorem Indexes.nil (entry : ℕ → β → K × V) : Indexes (∅ : Database K V) [] entry := by
  intro key value
  simp

omit [LinearOrder K] in
/-- The last position of an extended list is new. -/
theorem getElem?_concat_eq_some {blocks : List β} {last block : β} {index : ℕ} :
    (blocks ++ [last])[index]? = some block ↔
      blocks[index]? = some block ∨ (index = blocks.length ∧ last = block) := by
  rw [List.getElem?_append]
  split
  next inside => simp [inside.ne]
  next outside =>
    have none : blocks[index]? = none := List.getElem?_eq_none (Nat.le_of_not_lt outside)
    rw [none, List.getElem?_singleton]
    by_cases here : index = blocks.length
    · simp [here]
    · have further : index - blocks.length ≠ 0 := by omega
      simp [here, further]

/-- A put under a new key adds the last position. -/
theorem Indexes.concat {table : Database K V} {blocks : List β} {entry : ℕ → β → K × V}
    (indexes : Indexes table blocks entry) (block : β)
    (fresh : ∀ index other, blocks[index]? = some other →
      (entry index other).1 ≠ (entry blocks.length block).1) :
    Indexes (table.insert (entry blocks.length block).1 (entry blocks.length block).2)
      (blocks ++ [block]) entry := by
  intro key value
  simp only [Database.getElem?_put, getElem?_concat_eq_some]
  split
  next same =>
    constructor
    · intro stored
      exact ⟨blocks.length, block, .inr ⟨rfl, rfl⟩, Prod.ext same.symm (Option.some.inj stored)⟩
    · intro position
      obtain ⟨index, other, earlier | ⟨here, last⟩, found⟩ := position
      · exact absurd ((congrArg Prod.fst found).trans same) (fresh index other earlier)
      · rw [here, ← last] at found
        exact congrArg (some ∘ Prod.snd) found
  next different =>
    rw [indexes key value]
    constructor
    · intro position
      obtain ⟨index, other, earlier, found⟩ := position
      exact ⟨index, other, .inl earlier, found⟩
    · intro position
      obtain ⟨index, other, earlier | ⟨here, last⟩, found⟩ := position
      · exact ⟨index, other, earlier, found⟩
      · rw [here, ← last] at found
        exact absurd (congrArg Prod.fst found).symm different

end

end Foundation
