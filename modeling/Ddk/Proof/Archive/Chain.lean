import Ddk.Foundation.Chains
import Ddk.Proof.Node.Heights

namespace Ddk

open Foundation

/-- The block at an index has the next number as its height. -/
def heightKey (index : ℕ) : HeightBytes := toBeBytes (UInt32.ofNat (index + 1))

theorem readU32_heightKey {index : ℕ} (bounded : index + 1 < 2 ^ 32) :
    (readU32 (heightKey index)).toNat = index + 1 := by
  rw [heightKey, readU32_toBeBytes, UInt32.toNat_ofNat', Nat.mod_eq_of_lt bounded]

/-- The heights of a bounded list have different keys. -/
theorem heightKey_ne {first second : ℕ} (ordered : first < second) (bounded : second + 1 < 2 ^ 32) :
    heightKey first ≠ heightKey second := by
  intro same
  have numbers := congrArg (fun key => (readU32 key).toNat) same
  rw [readU32_heightKey (by omega), readU32_heightKey bounded] at numbers
  omega

section

variable [Bitcoin] {A C S : Type}

namespace Archive

/-- The greatest height is the height of the archive. -/
theorem readU32_le_getHeight {archive : Archive A C} {key : HeightBytes} {header : Header}
    (found : archive.headers[key]? = some header) : readU32 key ≤ archive.getHeight := by
  obtain ⟨entry, last, ordered⟩ := Database.le_last found
  rw [getHeight, last]
  exact readU32_mono ordered

variable [Blake3] [Bincode C]

/-- The hash of the stored headers has no collision and is never zero. -/
structure HashesApart (archive : Archive A C) : Prop where
  injective : ∀ first ∈ archive.headers.toList, ∀ second ∈ archive.headers.toList,
    first.2.hash (C := C) = second.2.hash (C := C) → first.2 = second.2
  nonzero : ∀ entry ∈ archive.headers.toList, entry.2.hash (C := C) ≠ ⟨0⟩

/-- An archive is one linked chain of blocks from height one on. -/
structure Chain (archive : Archive A C) (blocks : List (Header × Body A C)) : Prop where
  height : archive.getHeight.toNat = blocks.length
  headers : Indexes archive.headers blocks fun index block => (heightKey index, block.1)
  bodies : Indexes archive.bodies blocks fun index block => (heightKey index, block.2)
  inverse : Indexes archive.hashToHeight blocks fun index block =>
    ((block.1.hash (C := C)).hash, heightKey index)
  linked : Linked (fun block : Header × Body A C => block.1.hash (C := C))
    (fun block => block.1.prevSideHash) ⟨0⟩ blocks
  best : archive.getBestHash =
    tip (fun block : Header × Body A C => block.1.hash (C := C)) ⟨0⟩ blocks
  rooted : ∀ block ∈ blocks, block.1.merkleRoot = block.2.computeMerkleRoot

/-- An appended block extends the best header and enters the three tables at the next height. -/
structure Appends (mode : Overflow) (archive : Archive A C) (header : Header) (body : Body A C)
    (newHeight : UInt32) (next : Archive A C) : Prop where
  extends_best : header.prevSideHash = archive.getBestHash
  rooted : header.merkleRoot = body.computeMerkleRoot
  counted : (mode.add32 archive.getHeight 1 : Outcome Error UInt32) = .ok newHeight
  stored : next = {
    headers := archive.headers.insert (toBeBytes newHeight) header
    bodies := archive.bodies.insert (toBeBytes newHeight) body
    hashToHeight := archive.hashToHeight.insert (header.hash (C := C)).hash (toBeBytes newHeight) }

/-- Appending a header and putting its body is one step. -/
theorem appends_iff {mode : Overflow} {archive next : Archive A C} {header : Header}
    {body : Body A C} :
    (∃ appended, archive.appendHeader mode header = .ok appended ∧
      appended.putBody header body = .ok next) ↔
      ∃ newHeight, Appends mode archive header body newHeight next := by
  simp only [appendHeader, putBody, Outcome.bind_eq_ok, Outcome.ensure_eq_ok, Outcome.pure_eq_ok]
  constructor
  · intro steps
    obtain ⟨_, ⟨_, best, newHeight, counted, rfl⟩, _, rooted, stored⟩ := steps
    rw [Database.getElem?_put, if_pos rfl] at stored
    exact ⟨newHeight, best, rooted, counted, (Outcome.pure_eq_ok.mp stored).symm⟩
  · intro step
    obtain ⟨newHeight, best, rooted, counted, rfl⟩ := step
    refine ⟨_, ⟨(), best, newHeight, counted, rfl⟩, (), rooted, ?_⟩
    rw [Database.getElem?_put, if_pos rfl]
    rfl

variable {mode : Overflow} {archive next : Archive A C} {header : Header} {body : Body A C}
variable {newHeight : UInt32}

/-- The stored heights do not fall. -/
theorem Appends.getHeight_le (step : Appends mode archive header body newHeight next) :
    archive.getHeight ≤ next.getHeight := by
  cases last : archive.headers.last with
  | none =>
      have zero : archive.getHeight = 0 := by rw [getHeight, last]
      rw [zero]
      exact UInt32.zero_le
  | some entry =>
      have current : archive.getHeight = readU32 entry.1 := by rw [getHeight, last]
      have kept : ∃ stored, next.headers[entry.1]? = some stored := by
        rw [step.stored, Database.getElem?_put]
        split
        next => exact ⟨header, rfl⟩
        next => exact ⟨entry.2, Database.last_found last⟩
      obtain ⟨stored, found⟩ := kept
      rw [current]
      exact readU32_le_getHeight found

/-- An archive below the greatest height was below it before its last block. -/
theorem Appends.room (step : Appends mode archive header body newHeight next)
    (bounded : next.getHeight.toNat < 2 ^ 32 - 1) : archive.getHeight.toNat + 1 < 2 ^ 32 := by
  have risen := UInt32.le_iff_toNat_le.mp step.getHeight_le
  omega

/-- Below the greatest height, the next height is one more and above each stored height. -/
theorem Appends.next_height (step : Appends mode archive header body newHeight next)
    (room : archive.getHeight.toNat + 1 < 2 ^ 32) :
    newHeight.toNat = archive.getHeight.toNat + 1 ∧ next.getHeight = newHeight ∧
      next.getBestHash = header.hash (C := C) ∧
      ∀ key stored, archive.headers[key]? = some stored → key ≠ toBeBytes newHeight := by
  have number : newHeight.toNat = archive.getHeight.toNat + 1 := by
    rw [Overflow.guard_value step.counted, UInt32.toNat_add]
    exact Nat.mod_eq_of_lt room
  have below : ∀ key stored, archive.headers[key]? = some stored → key < toBeBytes newHeight := by
    intro key stored found
    by_contra above
    have reached := UInt32.le_iff_toNat_le.mp (readU32_mono (not_lt.mp above))
    have low := UInt32.le_iff_toNat_le.mp (readU32_le_getHeight found)
    rw [readU32_toBeBytes] at reached
    omega
  have last : next.headers.last = some (toBeBytes newHeight, header) := by
    rw [step.stored]
    exact Database.last_put header fun key stored found => (below key stored found).le
  refine ⟨number, ?_, ?_, fun key stored found => (below key stored found).ne⟩
  · rw [getHeight, last]
    exact readU32_toBeBytes newHeight
  · rw [getBestHash, last]

/-- The height counts stored headers, also when the next height wraps. -/
theorem Appends.height_le_size (step : Appends mode archive header body newHeight next)
    (counted : archive.getHeight.toNat ≤ archive.headers.size) :
    next.getHeight.toNat ≤ next.headers.size := by
  have kept : archive.headers.size ≤ next.headers.size := by
    rw [step.stored]
    exact Std.ExtTreeMap.size_le_size_insert
  by_cases room : archive.getHeight.toNat + 1 < 2 ^ 32
  · obtain ⟨number, height, _, fresh⟩ := step.next_height room
    have absent : toBeBytes newHeight ∉ archive.headers := by
      intro present
      exact fresh _ _ (Std.ExtTreeMap.getElem?_eq_some_getElem present) rfl
    have grown : next.headers.size = archive.headers.size + 1 := by
      rw [step.stored, Std.ExtTreeMap.size_insert,
        if_neg (mt Std.ExtTreeMap.mem_iff_contains.mpr absent)]
    rw [height]
    omega
  · have limit := next.getHeight.toNat_lt
    omega

/-- The older headers are still stored, so their hashes stay apart. -/
theorem Appends.apart (step : Appends mode archive header body newHeight next)
    (bounded : next.getHeight.toNat < 2 ^ 32 - 1) (apart : next.HashesApart) :
    archive.HashesApart := by
  obtain ⟨_, _, _, fresh⟩ := step.next_height (step.room bounded)
  have kept : ∀ entry ∈ archive.headers.toList, entry ∈ next.headers.toList := by
    intro entry member
    rw [Database.mem_entries_iff] at member ⊢
    rw [step.stored, Database.getElem?_put, if_neg (fresh entry.1 entry.2 member)]
    exact member
  exact {
    injective first member second other :=
      apart.injective first (kept first member) second (kept second other)
    nonzero entry member := apart.nonzero entry (kept entry member) }

/-- A chain with one more block is a chain. -/
theorem Chain.append {blocks : List (Header × Body A C)} (chain : archive.Chain blocks)
    (step : Appends mode archive header body newHeight next)
    (bounded : next.getHeight.toNat < 2 ^ 32 - 1)
    (apart : next.HashesApart) : next.Chain (blocks ++ [(header, body)]) := by
  obtain ⟨number, height, best, _⟩ := step.next_height (step.room bounded)
  rw [chain.height, ← height] at number
  have named : newHeight = UInt32.ofNat (blocks.length + 1) := by
    rw [← number, UInt32.ofNat_toNat, height]
  have key : toBeBytes newHeight = heightKey blocks.length := by rw [named, heightKey]
  have fresh (index : ℕ) (block : Header × Body A C) (found : blocks[index]? = some block) :
      heightKey index ≠ heightKey blocks.length := by
    have inside := (List.getElem?_eq_some_iff.mp found).1
    exact heightKey_ne inside (by omega)
  have linked := chain.linked.concat (header, body) (step.extends_best.trans chain.best)
  have headers : Indexes next.headers (blocks ++ [(header, body)])
      fun index block => (heightKey index, block.1) := by
    rw [step.stored, key]
    exact chain.headers.concat (header, body) fresh
  have listed : ∀ block ∈ blocks ++ [(header, body)], ∃ key,
      (key, block.1) ∈ next.headers.toList := by
    intro block member
    obtain ⟨index, found⟩ := List.mem_iff_getElem?.mp member
    exact ⟨heightKey index, Database.mem_entries_iff.mpr
      ((headers _ _).mpr ⟨index, block, found, rfl⟩)⟩
  have distinct : ((blocks ++ [(header, body)]).map fun block => block.1.hash (C := C)).Nodup := by
    apply linked.nodup
    · intro first member second other same
      obtain ⟨_, stored⟩ := listed first member
      obtain ⟨_, found⟩ := listed second other
      exact congrArg Header.prevSideHash (apart.injective _ stored _ found same)
    · intro block member
      obtain ⟨_, stored⟩ := listed block member
      exact apart.nonzero _ stored
  exact {
    height := by rw [number, List.length_append, List.length_singleton]
    headers := headers
    bodies := by
      rw [step.stored, key]
      exact chain.bodies.concat (header, body) fresh
    inverse := by
      rw [step.stored, key]
      apply chain.inverse.concat (header, body)
      intro index block found same
      have apart := List.nodup_append.mp (List.map_append ▸ distinct)
      refine apart.2.2 _ (List.mem_map_of_mem (List.mem_of_getElem? found)) _
        (List.mem_map_of_mem (List.mem_singleton_self _)) ?_
      exact congrArg BlockHash.mk same
    linked := linked
    best := by rw [best, tip_concat]
    rooted := by
      intro block member
      rcases List.mem_append.mp member with earlier | last
      · exact chain.rooted block earlier
      · rw [List.mem_singleton.mp last]
        exact step.rooted }

end Archive

namespace Node

variable [Blake3] [Bincode C] [DecidableEq C] [GetValue C] [GetAddress A] [Verify A C] [Bs58]
variable [CustomState S A C]

/-- In every run, the archive is one chain, and its bodies are the bodies that were connected. -/
theorem archive_chain {mode : Overflow} {history : List (Receipt A C)} {node : Node A C S}
    (run : Run mode history node) (bounded : node.archive.getHeight.toNat < 2 ^ 32 - 1)
    (apart : node.archive.HashesApart) :
    ∃ blocks, node.archive.Chain blocks ∧ history.reverse.map (·.body) = blocks.map Prod.snd := by
  induction run with
  | new =>
      refine ⟨[], ?_, rfl⟩
      exact {
        height := rfl
        headers := .nil _
        bodies := .nil _
        inverse := .nil _
        linked := trivial
        best := rfl
        rooted := fun _ member => nomatch member }
  | submitTransaction _ submitted ih =>
      obtain ⟨_, _, _, _, rfl⟩ := submitTransaction_eq_ok.mp submitted
      exact ih bounded apart
  | poolTransaction _ pooled ih =>
      obtain ⟨_, _, rfl⟩ := poolTransaction_eq_ok.mp pooled
      exact ih bounded apart
  | deleteTransaction _ _ ih => exact ih bounded apart
  | getTransactions _ picked ih =>
      obtain ⟨_, _, _, _, rfl⟩ := getTransactions_eq_ok.mp picked
      exact ih bounded apart
  | submitBlock _ _ recorded committed ih =>
      obtain ⟨newHeight, step⟩ := Archive.appends_iff.mp (commitBlock_eq_ok.mp committed).archived
      have below := UInt32.le_iff_toNat_le.mp step.getHeight_le
      obtain ⟨blocks, chain, bodies⟩ := ih (by omega) (step.apart bounded apart)
      refine ⟨_, chain.append step bounded apart, ?_⟩
      rw [List.reverse_cons, List.map_append, bodies, List.map_append, List.map_singleton,
        (State.blockReceipt_describes recorded).1]
      rfl

end Node

end

namespace Node

open Reference

theorem archive_chain_spend :
    ∃ blocks, (spendBlock.next .checked depositNode).archive.Chain blocks ∧
      spendHistory.reverse.map (·.body) = blocks.map Prod.snd :=
  archive_chain spendHistory_run (by decide +kernel) ⟨by decide +kernel, by decide +kernel⟩

end Node

end Ddk
