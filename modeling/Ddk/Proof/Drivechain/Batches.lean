import Ddk.Construction.Reference
import Ddk.Proof.Drivechain.Scanning

namespace Ddk

open Foundation

namespace Drivechain

variable [Bitcoin] [Bs58] {C : Type}

omit [Bs58] in
/-- The peg data keeps the deposit block that its deposits set. -/
theorem connectTwoWayPegData_lastDepositBlock [DecidableEq C] [Blake3] [Bincode C]
    {orders : Orders C} {mode : Overflow} {state next : State C} {twoWayPegData : TwoWayPegData C}
    {blockHeight : UInt32}
    (success : state.connectTwoWayPegData orders mode twoWayPegData blockHeight = .ok next) :
    next.lastDepositBlock = (state.connectDeposits orders twoWayPegData).lastDepositBlock := by
  obtain ⟨collected, success, stored⟩ := Outcome.bind_eq_ok.mp success
  have settled : next.lastDepositBlock = collected.lastDepositBlock := by
    cases stored
    apply List.foldlRecOn (motive := fun after => State.lastDepositBlock after =
      collected.lastDepositBlock)
    · rfl
    · intro before kept entry _
      rw [← kept, State.connectStatus]
      split
      next => rfl
      next =>
        split
        next => rfl
        next => cases entry.2 <;> rfl
  rw [settled]
  obtain ⟨due, _, success⟩ := Outcome.bind_eq_ok.mp success
  split at success
  next =>
    obtain ⟨bundle, _, success⟩ := Outcome.bind_eq_ok.mp success
    split at success
    next => cases success; rfl
    next => cases success; rfl
  next => cases success; rfl

/-- A credit takes the difference of two totals. -/
theorem mem_creditedOutputs {previous : UInt64} {entry : TreasuryEntry} {outpoint : OutPoint}
    {output : Output C} :
    (outpoint, output) ∈ creditedOutputs previous entry ↔ entry.outpoint = outpoint ∧
      previous ≤ entry.total ∧
      Address.fromStr entry.destination = some output.address ∧
      output.content = .value (entry.total - previous) := by
  rw [creditedOutputs, ← UInt64.not_lt]
  obtain ⟨address, content⟩ := output
  by_cases falling : entry.total < previous
  · simp [falling]
  · cases parsed : Address.fromStr entry.destination with
    | none => simp [falling]
    | some other => simp [falling, eq_comm]

/-- A list of entries credits exactly the outputs of its scan. -/
theorem mem_credits_iff {entries : List TreasuryEntry} {outpoint : OutPoint} {output : Output C} :
    (outpoint, output) ∈ credits TreasuryEntry.total creditedOutputs 0 entries ↔
      Credits entries outpoint output := by
  rw [mem_credits]
  simp only [mem_creditedOutputs]
  rfl

/-- The credits take the names of their entries in order. -/
theorem credits_names (start : UInt64) (entries : List TreasuryEntry) :
    ((credits TreasuryEntry.total (creditedOutputs (C := C)) start entries).map Prod.fst).Sublist
      (entries.map (·.outpoint)) := by
  induction entries generalizing start with
  | nil => exact List.Sublist.slnil
  | cons entry entries ih =>
      rw [credits, List.map_append, List.map_cons]
      have single : ((creditedOutputs (C := C) start entry).map Prod.fst).Sublist
          [entry.outpoint] := by
        rw [creditedOutputs]
        split
        next => exact List.nil_sublist _
        next =>
          split
          next => exact List.Sublist.refl _
          next => exact List.nil_sublist _
      exact single.append (ih entry.total)

/-- The credits of a treasury have distinct names. -/
theorem credits_nodup (treasury : Treasury) (first last : ℕ) (start : UInt64) :
    ((credits TreasuryEntry.total (creditedOutputs (C := C)) start
      (treasury.entriesBetween first last)).map
      Prod.fst).Nodup := by
  apply (credits_names start _).nodup
  have part : ((treasury.blocks.take last).drop first).Sublist treasury.blocks :=
    (List.drop_sublist _ _).trans (List.take_sublist _ _)
  exact ((part.flatMap _).map _).nodup treasury.named

omit [Bs58] in
/-- The outputs of a scan are its credits. -/
theorem scan_outputs {batch : List (OutPoint × Output C)} (distinct : (batch.map Prod.fst).Nodup)
    {outpoint : OutPoint} {output : Output C} :
    (Database.putAll ∅ batch)[outpoint]? = some output ↔ (outpoint, output) ∈ batch := by
  constructor
  · intro found
    rcases Database.putAll_origin found with member | absent
    · exact member
    · cases absent
  · intro member
    exact Database.getElem?_putAll_of_mem distinct member

omit [Bitcoin] [Bs58] in
/-- The last rising block of some entries is a known block among theirs. -/
theorem lastMark_known {treasury : Treasury} {total : UInt64} {first last : ℕ}
    {hash : Bitcoin.BlockHash}
    (marked : lastMark TreasuryEntry.total risingBlock total (treasury.entriesBetween first last) =
      some hash) :
    treasury.Known hash ∧ first ≤ treasury.position hash ∧ treasury.position hash < last := by
  obtain ⟨index, block, after, before, found, same, _⟩ := Treasury.lastMark_block marked
  rw [← same, Treasury.position_eq found]
  exact ⟨List.mem_map_of_mem (List.mem_of_getElem? found), after, before⟩

/-- The batches credit what the first start does not cover. The induction is on the end blocks. -/
theorem depositBatches_resumed [DecidableEq C] (orders : Orders C) {client : MainClient}
    {sidechainNumber : UInt8} {treasury : Treasury}
    (serves : client.Serves sidechainNumber treasury) {stops : List Bitcoin.BlockHash}
    (known : ∀ stop ∈ stops, treasury.Known stop)
    (rising : stops.Pairwise fun first second => treasury.position first ≤ treasury.position second)
    {seen : ℕ} (forward : ∀ stop ∈ stops, seen ≤ treasury.position stop + 1) {state : State C}
    (resumed : state.lastDepositBlock =
      lastMark TreasuryEntry.total risingBlock 0 (treasury.entriesBetween 0 seen)) :
    ∃ scans batches, depositBatches orders client sidechainNumber state stops = .ok scans ∧
      List.Forall₂ (fun scan batch => scan.outputs = Database.putAll ∅ batch) scans batches ∧
      credits TreasuryEntry.total creditedOutputs 0
          (treasury.entriesBetween 0 (tip (treasury.position · + 1) seen stops)) =
        credits TreasuryEntry.total creditedOutputs 0 (treasury.entriesBetween 0 seen) ++
          batches.flatten := by
  induction stops generalizing seen state with
  | nil => exact ⟨[], [], rfl, List.Forall₂.nil, (List.append_nil _).symm⟩
  | cons stop stops ih =>
      obtain ⟨later, rising⟩ := List.pairwise_cons.mp rising
      have ahead := forward stop List.mem_cons_self
      have answers := serves state.lastDepositBlock stop (known stop List.mem_cons_self)
        fun hash kept => by
        have marked := lastMark_known (resumed.symm.trans kept)
        exact ⟨marked.1, by omega⟩
      obtain ⟨scan, batch, scanned, complete⟩ :=
          getDepositOutputs_resumed (C := C) ahead resumed answers
      have next :
          (state.connectDeposits orders ⟨scan.outputs, scan.lastBlockHash, ∅⟩).lastDepositBlock =
          lastMark TreasuryEntry.total risingBlock 0
              (treasury.entriesBetween 0 (treasury.position stop + 1)) :=
        complete.kept
      obtain ⟨scans, batches, following, listed, credited⟩ := ih
        (fun other member => known other (List.mem_cons_of_mem _ member)) rising
        (fun other member => Nat.succ_le_succ (later other member)) next
      refine ⟨scan :: scans, batch :: batches, ?_, List.Forall₂.cons complete.outputs listed, ?_⟩
      · rw [depositBatches, scanned]
        change depositBatches orders client sidechainNumber _ stops >>= _ = _
        rw [following]
        rfl
      · have first := complete.credited
        rw [Treasury.upTo] at first
        rw [tip_cons, credited, first, List.flatten_cons, List.append_assoc]

omit [Bs58] in
/-- Batches with distinct names give disjoint outputs. -/
theorem scans_disjoint {scans : List (Scan C)} {batches : List (List (OutPoint × Output C))}
    (listed : List.Forall₂ (fun scan batch => scan.outputs = Database.putAll ∅ batch) scans batches)
    (distinct : (batches.flatten.map Prod.fst).Nodup) :
    scans.Pairwise (fun first second : Scan C =>
        ∀ outpoint : OutPoint, first.outputs[outpoint]? ≠ none → second.outputs[outpoint]? = none) ∧
      ∀ (outpoint : OutPoint) (output : Output C), (outpoint, output) ∈ batches.flatten ↔
        ∃ scan ∈ scans, scan.outputs[outpoint]? = some output := by
  induction listed with
  | nil => exact ⟨List.Pairwise.nil, fun _ _ => by simp⟩
  | @cons scan batch scans batches here _ ih =>
      rw [List.flatten_cons, List.map_append, List.nodup_append] at distinct
      obtain ⟨single, others, apart⟩ := distinct
      obtain ⟨disjoint, covers⟩ := ih others
      have contents (outpoint : OutPoint) (output : Output C) :
          scan.outputs[outpoint]? = some output ↔ (outpoint, output) ∈ batch := by
        rw [here]
        exact scan_outputs single
      constructor
      · refine List.pairwise_cons.mpr ⟨fun other member outpoint credited => ?_, disjoint⟩
        obtain ⟨output, found⟩ := Option.ne_none_iff_exists'.mp credited
        rw [Option.eq_none_iff_forall_ne_some]
        intro repeated present
        have first := List.mem_map_of_mem (f := Prod.fst) ((contents outpoint output).mp found)
        have second := List.mem_map_of_mem (f := Prod.fst)
          ((covers outpoint repeated).mpr ⟨other, member, present⟩)
        exact apart _ first _ second rfl
      · intro outpoint output
        rw [List.flatten_cons, List.mem_append, ← contents, covers]
        simp only [List.mem_cons, exists_eq_or_imp]

/-- The batches credit disjoint outputs, and together they credit the outputs of one scan. -/
theorem depositBatches_agree [DecidableEq C] (orders : Orders C) {client : MainClient}
    {sidechainNumber : UInt8} {treasury : Treasury}
    (serves : client.Serves sidechainNumber treasury) {stops : List Bitcoin.BlockHash}
    (known : ∀ stop ∈ stops, treasury.Known stop)
    (rising : stops.Pairwise fun first second => treasury.position first ≤ treasury.position second)
    {last : Bitcoin.BlockHash} (ended : stops.getLast? = some last) {state : State C}
    (fresh : state.lastDepositBlock = none) :
    ∃ (scans : List (Scan C)) (whole : Scan C),
      depositBatches orders client sidechainNumber state stops = .ok scans ∧
      getDepositOutputs client sidechainNumber last none = .ok whole ∧
      (scans.Pairwise fun first second : Scan C =>
        ∀ outpoint : OutPoint, first.outputs[outpoint]? ≠ none → second.outputs[outpoint]? = none) ∧
      (∀ (outpoint : OutPoint) (output : Output C), whole.outputs[outpoint]? = some output ↔
        ∃ scan ∈ scans, scan.outputs[outpoint]? = some output) ∧
      ∀ (outpoint : OutPoint) (output : Output C), whole.outputs[outpoint]? = some output ↔
        Credits (treasury.upTo last) outpoint output := by
  have forward : ∀ stop ∈ stops, 0 ≤ treasury.position stop + 1 := fun _ _ => Nat.zero_le _
  obtain ⟨scans, batches, scanned, listed, credited⟩ :=
    depositBatches_resumed orders serves known rising forward fresh
  have final : tip (treasury.position · + 1) 0 stops = treasury.position last + 1 := by
    rw [tip, ended]
    rfl
  rw [final] at credited
  change credits TreasuryEntry.total creditedOutputs 0 (treasury.upTo last) =
    batches.flatten at credited
  have member := List.mem_of_getLast? ended
  obtain ⟨whole, complete, finished, covers⟩ :=
      getDepositOutputs_resumed (C := C) (forward last member)
    rfl (serves none last (known last member) (fun _ none => by cases none))
  have distinct := credits_nodup (C := C) treasury 0 (treasury.position last + 1) 0
  change ((credits TreasuryEntry.total creditedOutputs 0 (treasury.upTo last)).map Prod.fst).Nodup
    at distinct
  have same : complete = batches.flatten := covers.credited.symm.trans credited
  rw [credited] at distinct
  obtain ⟨disjoint, covered⟩ := scans_disjoint listed distinct
  have contents (outpoint : OutPoint) (output : Output C) :
      whole.outputs[outpoint]? = some output ↔ (outpoint, output) ∈ batches.flatten := by
    rw [covers.outputs, same]
    exact scan_outputs distinct
  refine ⟨scans, whole, scanned, finished, disjoint, fun outpoint output => ?_,
    fun outpoint output => ?_⟩
  · rw [contents, covered]
  · rw [contents, ← credited]
    exact mem_credits_iff

end Drivechain

namespace Reference

/-- The decoders read each known entry. -/
theorem deposit_carries {hashblock : Bitcoin.BlockHash} {total : UInt64}
    (known : total = 10 ∨ total = 24) :
    (deposit hashblock total).Carries (entry hashblock total) where
  hashblock := rfl
  destination := rfl
  decoded := by
    refine ⟨(treasury total).consensusEncode, treasury total, ⟨total, [0xb4, 0x01, 0x00, 0x51]⟩, ?_,
      ?_, rfl, rfl, rfl⟩
    · change Bitcoin.hexDecode (deposit 0 total).txhex = _
      rcases known with rfl | rfl <;> decide +kernel
    · rcases known with rfl | rfl <;> decide +kernel

/-- The client serves each treasury of known entries. -/
theorem serving_serves {treasury : Treasury} (sidechainNumber : UInt8)
    (known : ∀ block ∈ treasury.blocks, ∀ found ∈ block.entries,
      found = entry found.hashblock found.total ∧ (found.total = 10 ∨ found.total = 24)) :
    (serving treasury).Serves sidechainNumber treasury := by
  intro start stop _ _
  refine ⟨_, rfl, ?_⟩
  rw [List.forall₂_map_left_iff, List.forall₂_same]
  intro found listed
  obtain ⟨index, block, _, _, present, contained⟩ := Treasury.mem_entriesBetween.mp listed
  obtain ⟨same, read⟩ := known block (List.mem_of_getElem? present) found contained
  rw [same]
  exact deposit_carries read

end Reference

namespace Drivechain

open Reference

/-- The second deposit is two blocks after the first. -/
def raisedTreasury : Treasury where
  blocks := [⟨1, [entry 1 10]⟩, ⟨2, []⟩, ⟨3, [entry 3 24]⟩]
  distinct := by decide
  placed := by decide
  named := by decide +kernel

theorem raisedTreasury_batches :
    ∃ (scans : List (Scan Unit)) (whole : Scan Unit),
      depositBatches orders (serving raisedTreasury) 0 State.empty [1, 2, 3] = .ok scans ∧
      getDepositOutputs (serving raisedTreasury) 0 3 none = .ok whole ∧
      (scans.Pairwise fun first second : Scan Unit =>
        ∀ outpoint : OutPoint, first.outputs[outpoint]? ≠ none → second.outputs[outpoint]? = none) ∧
      (∀ (outpoint : OutPoint) (output : Output Unit), whole.outputs[outpoint]? = some output ↔
        ∃ scan ∈ scans, scan.outputs[outpoint]? = some output) ∧
      ∀ (outpoint : OutPoint) (output : Output Unit), whole.outputs[outpoint]? = some output ↔
        Credits (raisedTreasury.upTo 3) outpoint output := by
  have known : ∀ stop ∈ ([1, 2, 3] : List Bitcoin.BlockHash), raisedTreasury.Known stop :=
    fun _ member => member
  have rising : ([1, 2, 3] : List Bitcoin.BlockHash).Pairwise fun first second =>
      raisedTreasury.position first ≤ raisedTreasury.position second := by decide +kernel
  exact depositBatches_agree orders (serving_serves 0 (by decide +kernel)) known rising rfl rfl

end Drivechain

end Ddk
