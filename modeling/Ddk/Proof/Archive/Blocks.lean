import Ddk.Proof.Archive.Chain

namespace Ddk

open Foundation

theorem toBeBytes_injective : Function.Injective toBeBytes :=
  Function.LeftInverse.injective readU32_toBeBytes

/-- The first block has the height one. -/
def blockAt {B : Type} (blocks : List B) (height : UInt32) : Option B :=
  if height = 0 then none else blocks[height.toNat - 1]?

section

variable {B : Type} {blocks : List B} {height : UInt32}

/-- A block stands at each height up to the length. -/
theorem blockAt_isSome : (blockAt blocks height).isSome ↔ 0 < height.toNat ∧
    height.toNat ≤ blocks.length := by
  rw [blockAt]
  split
  next zero => simp [zero]
  next nonzero =>
    have positive : height.toNat ≠ 0 := fun zero => nonzero (UInt32.toNat_inj.mp zero)
    rw [Option.isSome_iff_ne_none, ne_eq, List.getElem?_eq_none_iff]
    omega

/-- The first blocks keep their heights in a longer list. -/
theorem blockAt_prefix {longer : List B} (part : blocks <+: longer)
    (inside : height.toNat ≤ blocks.length) :
    blockAt longer height = blockAt blocks height := by
  obtain ⟨rest, rfl⟩ := part
  unfold blockAt
  split
  next => rfl
  next nonzero =>
    have positive : height.toNat ≠ 0 := fun zero => nonzero (UInt32.toNat_inj.mp zero)
    rw [List.getElem?_append_left (by omega)]

/-- A projection of the blocks keeps their heights. -/
theorem blockAt_map {D : Type} (project : B → D) (blocks : List B) (height : UInt32) :
    blockAt (blocks.map project) height = (blockAt blocks height).map project := by
  rw [blockAt, blockAt]
  split
  next => rfl
  next => rw [List.getElem?_map]

/-- A new block stands at the next height. -/
theorem blockAt_concat {next : UInt32} (number : next.toNat = blocks.length + 1) (block : B) :
    blockAt (blocks ++ [block]) height = if height = next then some block
      else blockAt blocks height := by
  have positive : next ≠ 0 := by
    rintro rfl
    rw [UInt32.toNat_zero] at number
    omega
  by_cases same : height = next
  · rw [if_pos same, same, blockAt, if_neg positive, number, Nat.add_sub_cancel,
      List.getElem?_append_right le_rfl, Nat.sub_self, List.getElem?_cons_zero]
  · rw [if_neg same, blockAt, blockAt]
    split
    next => rfl
    next zero =>
      have different : height.toNat ≠ next.toNat := fun equal => same (UInt32.toNat_inj.mp equal)
      have nonzero : height.toNat ≠ 0 := fun equal => zero (UInt32.toNat_inj.mp equal)
      by_cases inside : height.toNat - 1 < blocks.length
      · rw [List.getElem?_append_left inside]
      · have outside : (blocks ++ [block]).length ≤ height.toNat - 1 := by
          rw [List.length_append, List.length_singleton]
          omega
        rw [List.getElem?_eq_none outside, List.getElem?_eq_none (by omega)]

end

section

variable [Bitcoin] {A C S : Type}

namespace Archive

/-- Two archives agree up to a height when they store the same blocks there. -/
def Agree (first second : Archive A C) (height : UInt32) : Prop :=
  ∀ query ≤ height, first.getHeader query = second.getHeader query ∧
    first.getBody query = second.getBody query

variable [Blake3] [Bincode C]

/-- An archive holds a list of blocks when it finds each of them at its height and nothing else. -/
structure Holds (archive : Archive A C) (blocks : List (Header × Body A C)) : Prop where
  height : archive.getHeight.toNat = blocks.length
  headers : ∀ height, archive.getHeader height = (blockAt blocks height).map Prod.fst
  bodies : ∀ height, archive.getBody height = (blockAt blocks height).map Prod.snd
  linked : Linked (fun block : Header × Body A C => block.1.hash (C := C))
    (fun block => block.1.prevSideHash) ⟨0⟩ blocks
  best : archive.getBestHash =
    tip (fun block : Header × Body A C => block.1.hash (C := C)) ⟨0⟩ blocks
  rooted : ∀ block ∈ blocks, block.1.merkleRoot = block.2.computeMerkleRoot

theorem Holds.empty : (empty : Archive A C).Holds [] where
  height := rfl
  headers height := by
    rw [blockAt, List.getElem?_nil, ite_self]
    exact Std.ExtTreeMap.getElem?_empty
  bodies height := by
    rw [blockAt, List.getElem?_nil, ite_self]
    exact Std.ExtTreeMap.getElem?_empty
  linked := trivial
  best := rfl
  rooted _ member := nomatch member

variable {mode : Overflow} {archive next : Archive A C} {header : Header} {body : Body A C}
variable {newHeight : UInt32}

/-- An appended block is held after the others. -/
theorem Holds.append {blocks : List (Header × Body A C)} (holds : archive.Holds blocks)
    (step : Appends mode archive header body newHeight next)
    (bounded : next.getHeight.toNat < 2 ^ 32 - 1) :
    next.Holds (blocks ++ [(header, body)]) := by
  obtain ⟨number, height, best, _⟩ := step.next_height (step.room bounded)
  rw [holds.height] at number
  have placed (query : UInt32) : toBeBytes query = toBeBytes newHeight ↔ query = newHeight :=
    toBeBytes_injective.eq_iff
  exact {
    height := by rw [height, number, List.length_append, List.length_singleton]
    headers := by
      intro query
      rw [getHeader, step.stored, Database.getElem?_put, blockAt_concat number,
        if_congr (placed query) rfl rfl]
      split
      next => rfl
      next => exact holds.headers query
    bodies := by
      intro query
      rw [getBody, step.stored, Database.getElem?_put, blockAt_concat number,
        if_congr (placed query) rfl rfl]
      split
      next => rfl
      next => exact holds.bodies query
    linked := holds.linked.concat (header, body) (step.extends_best.trans holds.best)
    best := by rw [best, tip_concat]
    rooted := by
      intro block member
      rcases List.mem_append.mp member with earlier | last
      · exact holds.rooted block earlier
      · rw [List.mem_singleton.mp last]
        exact step.rooted }

/-- A shorter list of blocks has the same blocks up to its height. -/
theorem Holds.agree {other : Archive A C} {blocks longer : List (Header × Body A C)}
    (holds : archive.Holds blocks) (extended : other.Holds longer) (part : blocks <+: longer) :
    archive.Agree other archive.getHeight := by
  intro query inside
  have same := blockAt_prefix part (holds.height ▸ UInt32.le_iff_toNat_le.mp inside)
  exact ⟨by rw [holds.headers, extended.headers, same], by rw [holds.bodies, extended.bodies, same]⟩

/-- A stored header stands at a reached height. -/
theorem Holds.inside {blocks : List (Header × Body A C)} (holds : archive.Holds blocks)
    {height : UInt32}
    (found : archive.getHeader height = some header) : height ≤ archive.getHeight := by
  rw [holds.headers, Option.map_eq_some_iff] at found
  obtain ⟨block, standing, _⟩ := found
  rw [UInt32.le_iff_toNat_le, holds.height]
  exact (blockAt_isSome.mp (Option.isSome_of_mem standing)).2

/-- A held block stands at its height. -/
theorem Holds.found {blocks : List (Header × Body A C)} (holds : archive.Holds blocks)
    {height : UInt32} (positive : 0 < height.toNat) {block : Header × Body A C}
    (found : blocks[height.toNat - 1]? = some block) :
    archive.getHeader height = some block.1 ∧ archive.getBody height = some block.2 := by
  have nonzero : height ≠ 0 := by
    rintro rfl
    exact lt_irrefl _ positive
  rw [holds.headers, holds.bodies, blockAt, if_neg nonzero, found]
  exact ⟨rfl, rfl⟩

/-- Each position in the blocks is below some height. -/
theorem Holds.reached {blocks : List (Header × Body A C)} (holds : archive.Holds blocks) {index : ℕ}
    (inside : index < blocks.length) : ∃ height : UInt32, height.toNat = index + 1 := by
  have bound := archive.getHeight.toNat_lt
  rw [holds.height] at bound
  exact ⟨UInt32.ofNat (index + 1), by rw [UInt32.toNat_ofNat', Nat.mod_eq_of_lt (by omega)]⟩

/-- An archive holds one list of blocks. -/
theorem Holds.eq {blocks others : List (Header × Body A C)} (holds : archive.Holds blocks)
    (same : archive.Holds others) : blocks = others := by
  have lengths : blocks.length = others.length := holds.height.symm.trans same.height
  apply List.ext_getElem? fun index => ?_
  by_cases inside : index < blocks.length
  · obtain ⟨height, number⟩ := holds.reached inside
    have nonzero : height ≠ 0 := by
      rintro rfl
      cases number
    have headers := (holds.headers height).symm.trans (same.headers height)
    have bodies := (holds.bodies height).symm.trans (same.bodies height)
    simp only [blockAt, if_neg nonzero, number, Nat.add_sub_cancel, List.getElem?_eq_getElem inside,
      List.getElem?_eq_getElem (lengths ▸ inside), Option.map_some, Option.some.injEq]
        at headers bodies
    rw [List.getElem?_eq_getElem inside, List.getElem?_eq_getElem (lengths ▸ inside),
      Prod.ext headers bodies]
  · rw [List.getElem?_eq_none (by omega), List.getElem?_eq_none (by omega)]

/-- A stored header belongs to a held block. -/
theorem Holds.stored {blocks : List (Header × Body A C)} (holds : archive.Holds blocks)
    {height : UInt32} (found : archive.getHeader height = some header) :
    ∃ body, archive.getBody height = some body ∧ (header, body) ∈ blocks := by
  rw [holds.headers, Option.map_eq_some_iff] at found
  obtain ⟨block, standing, rfl⟩ := found
  refine ⟨block.2, by rw [holds.bodies, standing, Option.map_some], ?_⟩
  rw [blockAt] at standing
  split at standing
  next => cases standing
  next => exact List.mem_of_getElem? standing

end Archive

namespace Node

variable [Blake3] [Bincode C]
variable [DecidableEq C] [GetValue C] [GetAddress A] [Verify A C] [CustomState S A C]
variable {orders : Orders C} {mode : Overflow} {node next : Node A C S} {header : Header}
variable {body : Body A C}
variable {twoWayPegData : TwoWayPegData C}

/-- A committed block is held after the others. -/
theorem commitBlock_holds {blocks : List (Header × Body A C)} (holds : node.archive.Holds blocks)
    (committed : node.commitBlock orders mode header body twoWayPegData = .ok next)
    (bounded : next.archive.getHeight.toNat < 2 ^ 32 - 1) :
    next.archive.Holds (blocks ++ [(header, body)]) := by
  obtain ⟨newHeight, step⟩ := Archive.appends_iff.mp (commitBlock_eq_ok.mp committed).archived
  exact holds.append step bounded

/-- A committed block does not lower the height. -/
theorem commitBlock_height
    (committed : node.commitBlock orders mode header body twoWayPegData = .ok next) :
    node.archive.getHeight.toNat ≤ next.archive.getHeight.toNat := by
  obtain ⟨newHeight, step⟩ := Archive.appends_iff.mp (commitBlock_eq_ok.mp committed).archived
  exact UInt32.le_iff_toNat_le.mp step.getHeight_le

omit [DecidableEq C] [GetValue C] [GetAddress A] [Verify A C] [CustomState S A C] in
/-- A node answers with the block that it holds. -/
theorem answerGetBlock_holds {blocks : List (Header × Body A C)} (holds : node.archive.Holds blocks)
    (height : UInt32) :
    node.answerGetBlock height =
      (blockAt blocks height).elim .noBlock fun block => .block block.1 block.2 := by
  rw [answerGetBlock, holds.headers, holds.bodies]
  cases blockAt blocks height <;> rfl

end Node

end

end Ddk
