import Ddk.Construction.Treasury

namespace Ddk

open Foundation

namespace Drivechain

variable [Bitcoin] [Bs58] {C : Type}

/-- The loop adds the credit of one entry. -/
theorem creditDeposit_eq (outputs : HashMap OutPoint (Output C)) {previous : UInt64}
    {entry : TreasuryEntry} (rising : ¬ entry.total < previous) :
    creditDeposit outputs entry.outpoint (entry.total - previous) entry.destination =
      outputs.putAll (creditedOutputs previous entry) := by
  rw [creditDeposit, creditedOutputs, if_neg rising]
  cases Address.fromStr entry.destination <;> rfl

/-- A deposit that carries an entry decodes to the total of the entry. -/
theorem scanDeposit_carried {start : Option Bitcoin.BlockHash} {scan : Scan C} {deposit : Deposit}
    {entry : TreasuryEntry} (carries : deposit.Carries entry) :
    scanDeposit start scan deposit = .ok (
      if start = some entry.hashblock then { scan with lastTotal := entry.total }
      else {
        lastBlockHash := risingBlock scan.lastTotal entry <|> scan.lastBlockHash
        lastTotal := entry.total
        outputs := scan.outputs.putAll (creditedOutputs scan.lastTotal entry) }) := by
  obtain ⟨bytes, transaction, treasury, hex, decoded, output, total, outpoint⟩ := carries.decoded
  have read : require (Bitcoin.hexDecode deposit.txhex) .hex = .ok bytes := by rw [hex, require]
  have parsed : require (Bitcoin.consensusDecode bytes) .bitcoinConsensusEncode =
      .ok transaction := by
    rw [decoded, require]
  refine Outcome.bind_eq_ok.mpr ⟨bytes, read, Outcome.bind_eq_ok.mpr ⟨transaction, parsed, ?_⟩⟩
  simp only [output]
  rw [carries.hashblock, total]
  by_cases here : start = some entry.hashblock
  · rw [if_pos here, if_pos here]
    rfl
  · rw [if_neg here, if_neg here]
    by_cases falling : entry.total < scan.lastTotal
    · rw [if_pos falling, risingBlock, creditedOutputs, if_pos falling, if_pos falling]
      rfl
    · rw [if_neg falling, risingBlock, if_neg falling, ← outpoint, carries.destination,
        creditDeposit_eq scan.outputs falling]
      rfl

/-- An entry outside the start block is credited against the last total. -/
theorem scanDeposit_later {start : Option Bitcoin.BlockHash} {scan : Scan C} {deposit : Deposit}
    {entry : TreasuryEntry} (carries : deposit.Carries entry)
    (later : start ≠ some entry.hashblock) :
    scanDeposit start scan deposit = .ok {
      lastBlockHash := risingBlock scan.lastTotal entry <|> scan.lastBlockHash
      lastTotal := entry.total
      outputs := scan.outputs.putAll (creditedOutputs scan.lastTotal entry) } := by
  rw [scanDeposit_carried carries, if_neg later]

/-- An entry of the start block only sets the last total. -/
theorem scanDeposit_start {start : Option Bitcoin.BlockHash} {scan : Scan C} {deposit : Deposit}
    {entry : TreasuryEntry} (carries : deposit.Carries entry)
    (here : start = some entry.hashblock) :
    scanDeposit start scan deposit = .ok { scan with lastTotal := entry.total } := by
  rw [scanDeposit_carried carries, if_pos here]

/-- Entries outside the start block are credited one after the other. -/
theorem scanDeposits_later {start : Option Bitcoin.BlockHash} {deposits : List Deposit}
    {entries : List TreasuryEntry} (carries : List.Forall₂ Deposit.Carries deposits entries)
    (later : ∀ entry ∈ entries, start ≠ some entry.hashblock) (scan : Scan C) :
    deposits.foldlM (scanDeposit start) scan = .ok {
      lastBlockHash := lastMark TreasuryEntry.total risingBlock scan.lastTotal entries <|>
        scan.lastBlockHash
      lastTotal := tip TreasuryEntry.total scan.lastTotal entries
      outputs := scan.outputs.putAll
        (credits TreasuryEntry.total creditedOutputs scan.lastTotal entries) } := by
  induction carries generalizing scan with
  | nil => rfl
  | @cons deposit entry deposits entries first _ ih =>
      rw [List.foldlM_cons, scanDeposit_later first (later entry List.mem_cons_self)]
      refine (ih (fun other member => later other (List.mem_cons_of_mem _ member)) _).trans ?_
      rw [lastMark, credits, tip_cons, Database.putAll_append]
      simp only [Option.orElse_eq_orElse, Option.orElse_eq_or, Option.or_assoc]

/-- The entries of the start block set the last total. -/
theorem scanDeposits_start {start : Option Bitcoin.BlockHash} {deposits : List Deposit}
    {entries : List TreasuryEntry} (carries : List.Forall₂ Deposit.Carries deposits entries)
    (here : ∀ entry ∈ entries, start = some entry.hashblock) (scan : Scan C) :
    deposits.foldlM (scanDeposit start) scan =
      .ok { scan with lastTotal := tip TreasuryEntry.total scan.lastTotal entries } := by
  induction carries generalizing scan with
  | nil => rfl
  | @cons deposit entry deposits entries first _ ih =>
      rw [List.foldlM_cons, scanDeposit_start first (here entry List.mem_cons_self)]
      refine (ih (fun other member => here other (List.mem_cons_of_mem _ member)) _).trans ?_
      rw [tip_cons]

end Drivechain

namespace Treasury

variable (treasury : Treasury)

/-- The entries between two indices split at an index between them. -/
theorem entriesBetween_append {first middle last : ℕ} (before : first ≤ middle)
    (after : middle ≤ last) :
    treasury.entriesBetween first last =
      treasury.entriesBetween first middle ++ treasury.entriesBetween middle last := by
  have split : (treasury.blocks.take last).drop first =
      (treasury.blocks.take middle).drop first ++ (treasury.blocks.take last).drop middle := by
    have parts := List.take_append_drop middle (treasury.blocks.take last)
    rw [List.take_take, Nat.min_eq_left after] at parts
    rw [← parts, List.drop_append, parts]
    congr 1
    by_cases inside : first ≤ (treasury.blocks.take middle).length
    · rw [Nat.sub_eq_zero_of_le inside, List.drop_zero]
    · have short : (treasury.blocks.take last).length ≤ middle := by
        rw [List.length_take] at inside ⊢
        omega
      rw [List.drop_eq_nil_of_le short, List.drop_nil]
  rw [entriesBetween, split, List.flatMap_append]
  rfl

/-- A rising block is the block of its entry. -/
theorem hashblock_of_rising {previous : UInt64} {entry : TreasuryEntry} {hash : Bitcoin.BlockHash}
    (rose : Drivechain.risingBlock previous entry = some hash) : entry.hashblock = hash := by
  rw [Drivechain.risingBlock] at rose
  split at rose
  next => cases rose
  next => exact Option.some.inj rose

variable {treasury}

/-- A block stands at the position of its hash. -/
theorem position_eq {index : ℕ} {block : TreasuryBlock}
    (found : treasury.blocks[index]? = some block) :
    treasury.position block.hash = index := by
  obtain ⟨inside, rfl⟩ := List.getElem?_eq_some_iff.mp found
  rw [position, List.findIdx_eq inside]
  refine ⟨decide_eq_true rfl, fun earlier before => decide_eq_false fun same => ?_⟩
  have names := List.nodup_iff_getElem?_ne_getElem?.mp treasury.distinct earlier index before
    (by rw [List.length_map]; exact inside)
  apply names
  rw [List.getElem?_map, List.getElem?_map, found, List.getElem?_eq_getElem (before.trans inside)]
  exact congrArg some same

/-- An entry between two indices stands in a block between them. -/
theorem mem_entriesBetween {first last : ℕ} {entry : TreasuryEntry} :
    entry ∈ treasury.entriesBetween first last ↔
      ∃ index block, first ≤ index ∧ index < last ∧ treasury.blocks[index]? = some block ∧
        entry ∈ block.entries := by
  rw [entriesBetween, List.mem_flatMap]
  constructor
  · intro listed
    obtain ⟨block, member, contained⟩ := listed
    obtain ⟨offset, found⟩ := List.mem_iff_getElem?.mp member
    rw [List.getElem?_drop, List.getElem?_take] at found
    split at found
    next inside => exact ⟨first + offset, block, Nat.le_add_right _ _, inside, found, contained⟩
    next => cases found
  · intro position
    obtain ⟨index, block, after, before, found, contained⟩ := position
    refine ⟨block, List.mem_iff_getElem?.mpr ⟨index - first, ?_⟩, contained⟩
    rw [List.getElem?_drop, Nat.add_sub_cancel' after, List.getElem?_take, if_pos before, found]

/-- An entry names its block. -/
theorem hashblock_eq {index : ℕ} {block : TreasuryBlock}
    (found : treasury.blocks[index]? = some block)
    {entry : TreasuryEntry} (contained : entry ∈ block.entries) : entry.hashblock = block.hash :=
  treasury.placed block (List.mem_of_getElem? found) entry contained

/-- The entries of one block are the entries at its index. -/
theorem entriesBetween_single {index : ℕ} {block : TreasuryBlock}
    (found : treasury.blocks[index]? = some block) :
    treasury.entriesBetween index (index + 1) = block.entries := by
  obtain ⟨inside, rfl⟩ := List.getElem?_eq_some_iff.mp found
  rw [entriesBetween, List.drop_take, Nat.add_sub_cancel_left, List.drop_eq_getElem_cons inside,
    List.take_succ_cons, List.take_zero, List.flatMap_singleton]

/-- Later entries do not name the block. -/
theorem hashblock_ne {index last : ℕ} {block : TreasuryBlock}
    (found : treasury.blocks[index]? = some block) {entry : TreasuryEntry}
    (later : entry ∈ treasury.entriesBetween (index + 1) last) :
    entry.hashblock ≠ block.hash := by
  intro same
  obtain ⟨other, holder, after, _, present, contained⟩ := mem_entriesBetween.mp later
  have place := position_eq present
  rw [← hashblock_eq present contained, same, position_eq found] at place
  omega

/-- A last mark names the block of one of the entries. -/
theorem lastMark_block {total : UInt64} {first last : ℕ} {hash : Bitcoin.BlockHash}
    (marked : lastMark TreasuryEntry.total Drivechain.risingBlock total
      (treasury.entriesBetween first last) =
      some hash) :
    ∃ index block, first ≤ index ∧ index < last ∧ treasury.blocks[index]? = some block ∧
      block.hash = hash ∧
      block.entries ≠ [] := by
  obtain ⟨entry, member, previous, rose⟩ := exists_of_lastMark marked
  obtain ⟨index, block, after, before, found, contained⟩ := mem_entriesBetween.mp member
  refine ⟨index, block, after, before, found, ?_, List.ne_nil_of_mem contained⟩
  rw [← hashblock_eq found contained, hashblock_of_rising rose]

end Treasury

namespace Drivechain

variable [Bitcoin] [Bs58] {C : Type}

/-- An entry without a rising total has no credit. -/
theorem creditedOutputs_silent (previous : UInt64) (entry : TreasuryEntry)
    (unmarked : risingBlock previous entry = none) :
    creditedOutputs (C := C) previous entry = [] := by
  rw [risingBlock] at unmarked
  split at unmarked
  next falling => rw [creditedOutputs, if_pos falling]
  next => cases unmarked

omit [Bitcoin] [Bs58] in
/-- A treasury without a rising total is empty, because its first total cannot fall. -/
theorem entries_eq_nil {entries : List TreasuryEntry}
    (unmarked : lastMark TreasuryEntry.total risingBlock 0 entries = none) : entries = [] := by
  cases entries with
  | nil => rfl
  | cons entry entries =>
      rw [lastMark, Option.orElse_eq_orElse, Option.orElse_eq_or, Option.or_eq_none_iff,
        risingBlock] at unmarked
      have falling := unmarked.2
      rw [if_neg (UInt64.not_lt.mpr UInt64.zero_le)] at falling
      cases falling

/-- A resumed scan. It starts at the last rising block of the entries that were seen before. -/
structure Resumed (treasury : Treasury) (seen : ℕ) (start : Option Bitcoin.BlockHash)
    (stop : Bitcoin.BlockHash)
    (scan : Scan C) (batch : List (OutPoint × Output C)) : Prop where
  outputs : scan.outputs = Database.putAll ∅ batch
  kept : (scan.lastBlockHash <|> start) = lastMark TreasuryEntry.total risingBlock 0
    (treasury.upTo stop)
  credited : credits TreasuryEntry.total creditedOutputs 0 (treasury.upTo stop) =
    credits TreasuryEntry.total creditedOutputs 0 (treasury.entriesBetween 0 seen) ++ batch

/-- A scan from the last rising block credits exactly the entries that were not seen before. -/
theorem getDepositOutputs_resumed {client : MainClient} {sidechainNumber : UInt8}
    {treasury : Treasury} {seen : ℕ} {start : Option Bitcoin.BlockHash} {stop : Bitcoin.BlockHash}
    (forward : seen ≤ treasury.position stop + 1)
    (resumed : start = lastMark TreasuryEntry.total risingBlock 0 (treasury.entriesBetween 0 seen))
    (answers : client.Answers sidechainNumber treasury start stop) :
    ∃ (scan : Scan C) (batch : List (OutPoint × Output C)),
      getDepositOutputs client sidechainNumber stop start = .ok scan ∧
        Resumed treasury seen start stop scan batch := by
  obtain ⟨deposits, answer, carries⟩ := answers
  have looped : (getDepositOutputs client sidechainNumber stop start : Outcome Error (Scan C)) =
      deposits.foldlM (scanDeposit start) ⟨none, 0, ∅⟩ := by
    rw [getDepositOutputs, answer]
    rfl
  rw [looped]
  cases start with
  | none =>
      have empty := entries_eq_nil resumed.symm
      rw [scanDeposits_later carries fun entry _ other => by cases other]
      refine ⟨_, credits TreasuryEntry.total creditedOutputs 0 (treasury.upTo stop), rfl, ?_⟩
      exact {
        outputs := rfl
        kept := by
          simp only [Option.orElse_eq_orElse, Option.orElse_eq_or, Option.or_none]
          rfl
        credited := by
          rw [empty]
          rfl }
  | some hash =>
      obtain ⟨index, block, _, before, found, same, filled⟩ := Treasury.lastMark_block resumed.symm
      have place : treasury.position hash = index := by rw [← same, Treasury.position_eq found]
      -- The list is the start block and the entries after it.
      let known := treasury.entriesBetween 0 (index + 1)
      let later := treasury.entriesBetween (index + 1) (treasury.position stop + 1)
      have listing : treasury.listed (some hash) stop = block.entries ++ later := by
        rw [Treasury.listed, Option.elim_some, place,
          treasury.entriesBetween_append (Nat.le_succ index) (by omega),
          Treasury.entriesBetween_single found]
      have ended : known = treasury.entriesBetween 0 index ++ block.entries := by
        rw [← Treasury.entriesBetween_single found]
        exact treasury.entriesBetween_append (Nat.zero_le _) (Nat.le_succ index)
      have level : tip TreasuryEntry.total 0 known = tip TreasuryEntry.total 0 block.entries := by
        rw [ended, tip_append]
        exact tip_of_ne_nil filled _ _
      have whole : treasury.upTo stop = known ++ later :=
        treasury.entriesBetween_append (Nat.zero_le _) (by omega)
      have scanned : treasury.entriesBetween 0 seen = known ++
          treasury.entriesBetween (index + 1) seen :=
        treasury.entriesBetween_append (Nat.zero_le _) before
      -- No entry after the start block rose before.
      have unmarked : lastMark TreasuryEntry.total risingBlock (tip TreasuryEntry.total 0 known)
          (treasury.entriesBetween (index + 1) seen) = none := by
        rw [scanned, lastMark_append, Option.orElse_eq_orElse, Option.orElse_eq_or] at resumed
        cases rose : lastMark TreasuryEntry.total risingBlock (tip TreasuryEntry.total 0 known)
            (treasury.entriesBetween (index + 1) seen) with
        | none => rfl
        | some other =>
            rw [rose, Option.some_or] at resumed
            obtain ⟨entry, listed, level, renamed⟩ := exists_of_lastMark rose
            have again := Treasury.hashblock_of_rising renamed
            rw [← Option.some.inj resumed, ← same] at again
            exact absurd again (Treasury.hashblock_ne found listed)
      have first : lastMark TreasuryEntry.total risingBlock 0 known = some hash := by
        rw [scanned, lastMark_append, unmarked] at resumed
        exact resumed.symm
      rw [listing] at carries
      have front := List.forall₂_take_append deposits block.entries later carries
      have back := List.forall₂_drop_append deposits block.entries later carries
      rw [← List.take_append_drop block.entries.length deposits, List.foldlM_append,
        scanDeposits_start front fun entry inside => by
          rw [Treasury.hashblock_eq found inside, same]]
      change ∃ scan batch, (deposits.drop block.entries.length).foldlM (scanDeposit (some hash)) _ =
        .ok scan ∧ _
      rw [scanDeposits_later back fun entry listed other =>
        Treasury.hashblock_ne found listed ((Option.some.inj other).symm.trans same.symm)]
      refine ⟨_, credits TreasuryEntry.total creditedOutputs
        (tip TreasuryEntry.total 0 known) later, rfl, ?_⟩
      exact {
        outputs := by rw [level]
        kept := by
          rw [whole, lastMark_append, level, first]
          simp only [Option.orElse_eq_orElse, Option.orElse_eq_or, Option.or_none]
        credited := by
          rw [whole, scanned]
          exact credits_resumed creditedOutputs_silent 0 known _ later unmarked }

end Drivechain

end Ddk
