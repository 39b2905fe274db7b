import Ddk.Proof.Node.Authorization
import Ddk.Proof.Node.Heights

namespace Ddk.Node

open Foundation

section

variable [Bitcoin] {A C S : Type} [CustomState S A C]
variable [GetValue C] [GetAddress A] [Verify A C] [Blake3] [Bincode C] [DecidableEq C] [Bs58]

/-- A checked build counts the next height, and a due bundle is collectable. -/
structure BlockFits (orders : Orders C) (mode : Overflow) (node : Node A C S) (body : Body A C)
    (twoWayPegData : TwoWayPegData C) : Prop where
  numbered : mode = .checked → node.archive.getHeight.toNat + 1 < 2 ^ 32
  collectable : State.bundleDue mode node.state node.archive.getHeight = .ok true →
    State.Collectable orders mode
      ((node.state.connectBody body).connectDeposits orders twoWayPegData).utxos

/-- In every run, it is decided whether a bundle is due exactly when the next height fits. -/
theorem Run.bundleDue_succeeds_iff {mode : Overflow} {history : List (Receipt A C)}
    {node : Node A C S} (run : Run mode history node) :
    (∃ due, State.bundleDue mode node.state node.archive.getHeight = .ok due) ↔
      (mode = .checked → node.archive.getHeight.toNat + 1 < 2 ^ 32) := by
  cases mode with
  | wrapping =>
      apply iff_of_true
      · exact ⟨_, rfl⟩
      · exact fun other => nomatch other
  | checked =>
      simp only [State.bundleDue, Outcome.bind_eq_ok, Outcome.pure_eq_ok, forall_const]
      constructor
      · rintro ⟨_, nextHeight, next, _⟩
        exact of_decide_eq_true (Overflow.guard_checked_eq_ok.mp next).1
      · intro room
        have next : (node.archive.getHeight + 1).toNat = node.archive.getHeight.toNat + 1 := by
          rw [UInt32.toNat_add]
          exact Nat.mod_eq_of_lt room
        have elapsed : node.state.lastWithdrawalBundleFailureHeight.getD 0 ≤
            node.archive.getHeight + 1 := by
          rw [UInt32.le_iff_toNat_le, next]
          cases failed : node.state.lastWithdrawalBundleFailureHeight with
          | none => exact Nat.zero_le _
          | some failure =>
              exact Nat.le_succ_of_le (UInt32.le_iff_toNat_le.mp (run.failure_le failed))
        exact ⟨_, _, Overflow.guard_checked_eq_ok.mpr ⟨decide_eq_true room, rfl⟩, _,
          Overflow.guard_checked_eq_ok.mpr ⟨decide_eq_true elapsed, rfl⟩, rfl⟩

/-- In every run, the next block connects exactly when its bundle fits. -/
theorem connects_iff {mode : Overflow} {history : List (Receipt A C)} {node : Node A C S}
    (run : Run mode history node) (orders : Orders C) (body : Body A C)
    (twoWayPegData : TwoWayPegData C) :
    (∃ next, (node.state.connectBody body).connectTwoWayPegData orders mode twoWayPegData
        node.archive.getHeight = .ok next) ↔ BlockFits orders mode node body twoWayPegData := by
  rw [State.connectTwoWayPegData_succeeds_iff]
  have same : State.bundleDue mode (node.state.connectBody body) node.archive.getHeight =
      State.bundleDue mode node.state node.archive.getHeight := rfl
  rw [same]
  constructor
  · rintro ⟨due, waited, collectable⟩
    refine ⟨run.bundleDue_succeeds_iff.mp ⟨due, waited⟩, fun ready => collectable ?_⟩
    exact Except.ok.inj (waited.symm.trans ready)
  · intro fits
    obtain ⟨due, waited⟩ := run.bundleDue_succeeds_iff.mpr fits.numbered
    exact ⟨due, waited, fun ready => fits.collectable (ready ▸ waited)⟩

end

section

open Reference

/-- An empty block extends the chain of a node. -/
def emptyBlock (node : Node Authorization Unit Unit) : Submission :=
  .extending node ⟨[], [], []⟩ 1 (client [] [] [])

/-- This node has some empty blocks. -/
def emptyNode : ℕ → Node Authorization Unit Unit
  | 0 => Node.new ()
  | height + 1 => (emptyBlock (emptyNode height)).next .checked (emptyNode height)

def emptyHistory : ℕ → List (Receipt Authorization Unit)
  | 0 => []
  | height + 1 => (emptyBlock (emptyNode height)).receipt .checked (emptyNode height) ::
    emptyHistory height

theorem emptyHistory_run : Run .checked (emptyHistory 4) (emptyNode 4) :=
  ((((Run.new ()).submission (emptyBlock (emptyNode 0)) (by decide +kernel)).submission
    (emptyBlock (emptyNode 1)) (by decide +kernel)).submission
    (emptyBlock (emptyNode 2)) (by decide +kernel)).submission (emptyBlock (emptyNode 3))
      (by decide +kernel)

/-- This body has one transaction without inputs and without authorizations. -/
def freeBody (outputs : List (Output Unit)) : Body Authorization Unit := ⟨[], [⟨[], outputs⟩], []⟩

/-- Every state accepts outputs without value. -/
theorem freeBody_accepted (state : State Unit) {outputs : List (Output Unit)}
    (free : Overflow.exactSum (outputs.map getValue) = 0) :
    state.validateBody .checked (freeBody outputs) = .ok 0 := by
  have created : (Overflow.checked.sum (outputs.map getValue) : Outcome State.Error UInt64) =
      .ok 0 :=
    Overflow.sum_checked.mpr free.symm
  have fee : State.validateFilledTransaction .checked ⟨⟨[], outputs⟩, []⟩ = .ok 0 :=
    State.validateFilledTransaction_eq_ok.mpr ⟨0, 0, rfl, created, UInt64.le_refl 0, rfl⟩
  refine State.validateBody_eq_ok.mpr ⟨[⟨⟨[], outputs⟩, []⟩], ?_⟩
  exact {
    filled := .cons rfl .nil
    distinct := List.nodup_nil
    valued := ⟨[0], .cons fee .nil, rfl⟩
    covered := ⟨0, rfl, UInt64.le_refl 0⟩
    addressed := fun _ member => nomatch member
    verified := (Authorization.verifyAuthorizations_eq_ok verifyBatch_exact _).mpr
      ⟨Nat.zero_le _, fun _ member => nomatch member⟩ }

/-- These outputs withdraw nothing to as many destinations as given. -/
def floodOutputs (count : ℕ) : List (Output Unit) :=
  (List.range count).map fun destination => ⟨⟨5⟩, .withdrawal 0 0 (destination : ℕ)⟩

theorem floodOutputs_free (count : ℕ) :
    Overflow.exactSum ((floodOutputs count).map getValue) = 0 := by
  apply List.sum_eq_zero
  intro number member
  simp only [floodOutputs, List.map_map, List.mem_map] at member
  obtain ⟨_, _, rfl⟩ := member
  rfl

/-- The flooded outputs reach each of the destinations. -/
theorem floodOutputs_present (orders : Orders Unit) (state : State Unit) {count : ℕ}
    (bounded : count < 2 ^ 32) {destination : ℕ} (inside : destination < count) :
    withdrawalsTo destination
      ((state.connectBody (freeBody (floodOutputs count))).connectDeposits orders
      ⟨∅, none, ∅⟩).utxos.toList ≠ [] := by
  let name := OutPoint.regular (Transaction.txid ⟨[], floodOutputs count⟩)
  let entry : OutPoint × Output Unit :=
    (name (UInt32.ofNat destination), ⟨⟨5⟩, .withdrawal 0 0 (destination : ℕ)⟩)
  have created : entry ∈ numbered name (floodOutputs count) :=
    mem_numbered.mpr ⟨destination, by simp [floodOutputs, inside, entry], rfl⟩
  have distinct : ((numbered name (floodOutputs count)).map Prod.fst).Nodup :=
    numbered_nodup (fun _ _ same => (OutPoint.regular.inj same).2)
      (by simpa [floodOutputs] using bounded)
  have stored : (state.connectBody (freeBody (floodOutputs count))).utxos[entry.1]? =
      some entry.2 :=
    Database.getElem?_putAll_of_mem distinct created
  have kept : entry ∈ ((state.connectBody (freeBody (floodOutputs count))).connectDeposits orders
      ⟨∅, none, ∅⟩).utxos.toList := by
    rw [Database.mem_entries_iff, State.connectDeposits_utxos, Std.ExtTreeMap.getElem?_empty]
    exact stored
  exact List.ne_nil_of_mem (mem_withdrawalsTo.mpr ⟨kept, rfl⟩)

/-- Every destination has a script of 23 bytes, so one destination above the limit is too heavy. -/
theorem selectedWeight_flooded (orders : Orders Unit) {utxos : Database OutPoint (Output Unit)}
    (flooded : ∀ destination < State.maxBundleOutputs + 1,
      withdrawalsTo (destination : ℕ) utxos.toList ≠ []) :
    State.selectedWeight orders utxos = 400128 := by
  have present : List.range (State.maxBundleOutputs + 1) ⊆ (State.groupsOf utxos).keys := by
    intro destination member
    exact State.mem_groupsOf_keys.mpr (flooded destination (List.mem_range.mp member))
  have enough := (List.subperm_of_subset List.nodup_range present).length_le
  rw [List.length_range] at enough
  have count : (State.chosen orders (State.groupsOf utxos)).length =
      State.maxBundleOutputs + 1 := by
    rw [State.chosen_length]
    exact Nat.min_eq_left enough
  have scripts (aggregated : AggregatedWithdrawal Unit) :
      (Bitcoin.scriptPubkey aggregated.mainAddress).length = 23 := by
    change ([0xa9, 0x14] ++ leBytes 20 aggregated.mainAddress ++ [0x87]).length = 23
    rw [List.length_append, List.length_append, leBytes_length]
    rfl
  rw [State.selectedWeight, List.length_map, count, List.map_map, List.sum_eq_card_nsmul _ 32,
    List.length_map, count]
  · rfl
  · intro length member
    obtain ⟨aggregated, _, rfl⟩ := List.mem_map.mp member
    rw [Function.comp_apply, scripts aggregated]
    rfl

/-- This body withdraws nothing to one destination more than the limit. -/
def floodBody : Body Authorization Unit := freeBody (floodOutputs (State.maxBundleOutputs + 1))

theorem connects_iff_flood :
    (∃ next, ((emptyNode 4).state.connectBody floodBody).connectTwoWayPegData orders .checked
      ⟨∅, none, ∅⟩
        (emptyNode 4).archive.getHeight = .ok next) ↔
      BlockFits orders .checked (emptyNode 4) floodBody ⟨∅, none, ∅⟩ :=
  connects_iff emptyHistory_run orders _ _

/-- After four empty blocks, an accepted body blocks the chain. -/
theorem flood_blocks :
    ¬ ∀ (history : List (Receipt Authorization Unit)) (node : Node Authorization Unit Unit),
      Run .checked history node → ∀ (orders : Orders Unit) (body : Body Authorization Unit)
        (fees : UInt64)
        (twoWayPegData : TwoWayPegData Unit), node.state.validateBody .checked body = .ok fees →
      ∃ next, (node.state.connectBody body).connectTwoWayPegData orders .checked twoWayPegData
        node.archive.getHeight = .ok next := by
  intro connects
  have accepted : (emptyNode 4).state.validateBody .checked floodBody = .ok 0 :=
    freeBody_accepted _ (floodOutputs_free (State.maxBundleOutputs + 1))
  have connected := connects _ _ emptyHistory_run orders floodBody 0 ⟨∅, none, ∅⟩ accepted
  have fits := (connects_iff emptyHistory_run orders floodBody ⟨∅, none, ∅⟩).mp connected
  have ready : State.bundleDue .checked (emptyNode 4).state (emptyNode 4).archive.getHeight =
      .ok true := by
    decide +kernel
  have light := (fits.collectable ready).light
  have bounded : State.maxBundleOutputs + 1 < 2 ^ 32 := by decide
  have heavy : State.selectedWeight orders
    (((emptyNode 4).state.connectBody floodBody).connectDeposits orders
      ⟨∅, none, ∅⟩).utxos = 400128 :=
    selectedWeight_flooded orders fun _ inside => floodOutputs_present orders _ bounded inside
  rw [heavy] at light
  exact absurd light (by decide)

end

end Ddk.Node
