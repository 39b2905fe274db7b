import Ddk.Proof.Node.Runs
import Ddk.Proof.Withdrawals.Weight

namespace Ddk

open Foundation

/-- The bytes of a height give the height back. -/
theorem readU32_toBeBytes (height : UInt32) : readU32 (toBeBytes height) = height := by
  apply UInt32.toNat_inj.mp
  have limit := height.toNat_lt
  simp only [readU32, toBeBytes, ofLex_toLex, Fin.ofNat, UInt32.toNat_ofNat']
  omega

/-- The order of the keys is the order of the heights. -/
theorem readU32_mono {first second : HeightBytes} (ordered : first ≤ second) :
    readU32 first ≤ readU32 second := by
  have number (bytes : HeightBytes) : (readU32 bytes).toNat = (ofLex bytes).1.val * 2 ^ 24 +
      (ofLex (ofLex bytes).2).1.val * 2 ^ 16 + (ofLex (ofLex (ofLex bytes).2).2).1.val * 2 ^ 8 +
      (ofLex (ofLex (ofLex bytes).2).2).2.val := by
    simp only [readU32, UInt32.toNat_ofNat']
    omega
  rw [UInt32.le_iff_toNat_le, number, number]
  simp only [Prod.Lex.le_iff, Fin.lt_def, Fin.le_def, Fin.ext_iff] at ordered
  omega

/-- The keys of two heights have the order of the heights. -/
theorem toBeBytes_mono {first second : UInt32} (ordered : first ≤ second) :
    toBeBytes first ≤ toBeBytes second := by
  by_contra above
  have reversed := readU32_mono (not_le.mp above).le
  rw [readU32_toBeBytes, readU32_toBeBytes] at reversed
  have same : first = second := UInt32.le_antisymm ordered reversed
  exact above (same ▸ le_rfl)

section

variable [Bitcoin] [Blake3] {A C S : Type} [Bincode C]

namespace Archive

/-- A new header stands one above the height, and no later header is lower. -/
theorem appendHeader_height {mode : Overflow} {archive appended : Archive A C} {header : Header}
    (success : archive.appendHeader mode header = .ok appended) :
    archive.getHeight + 1 ≤ appended.getHeight := by
  obtain ⟨_, _, success⟩ := Outcome.bind_eq_ok.mp success
  obtain ⟨newHeight, next, stored⟩ := Outcome.bind_eq_ok.mp success
  cases stored
  rw [← Overflow.guard_value next]
  have found : (archive.headers.insert (toBeBytes newHeight) header)[toBeBytes newHeight]? =
      some header := by
    rw [Database.getElem?_put, if_pos rfl]
  obtain ⟨entry, last, ordered⟩ := Database.le_last found
  rw [getHeight, last]
  have raised := readU32_mono ordered
  rwa [readU32_toBeBytes] at raised

/-- A stored body leaves the headers unchanged. -/
theorem putBody_height {archive stored : Archive A C} {header : Header} {body : Body A C}
    (success : archive.putBody header body = .ok stored) :
    stored.getHeight = archive.getHeight := by
  obtain ⟨_, _, success⟩ := Outcome.bind_eq_ok.mp success
  dsimp only at success
  split at success
  next =>
    cases success
    rfl
  next => cases success

end Archive

namespace State

variable [DecidableEq C]

omit [Blake3] [Bincode C] in
/-- A settled bundle records the height of its block or keeps the last failure. -/
theorem connectStatuses_failure (orders : Orders C) (state : State C)
    (bundleStatuses : HashMap Bitcoin.Txid WithdrawalBundleStatus) (blockHeight : UInt32) :
    (state.connectStatuses orders bundleStatuses blockHeight).lastWithdrawalBundleFailureHeight =
        some (blockHeight + 1) ∨
      (state.connectStatuses orders bundleStatuses blockHeight).lastWithdrawalBundleFailureHeight =
        state.lastWithdrawalBundleFailureHeight := by
  cases pending : state.pendingWithdrawalBundle with
  | none => exact .inr (by rw [connectStatuses, foldl_connectStatus_none pending])
  | some bundle =>
      rw [connectStatuses_eq orders pending]
      split
      next => exact .inr rfl
      next status _ =>
        cases status with
        | failed => exact .inl rfl
        | confirmed => exact .inr rfl

/-- A block records its own height as the last failure or keeps the last failure. -/
theorem connectTwoWayPegData_failure {orders : Orders C} {mode : Overflow} {state next : State C}
    {twoWayPegData : TwoWayPegData C} {blockHeight : UInt32}
    (success : state.connectTwoWayPegData orders mode twoWayPegData blockHeight = .ok next) :
    next.lastWithdrawalBundleFailureHeight = some (blockHeight + 1) ∨
      next.lastWithdrawalBundleFailureHeight = state.lastWithdrawalBundleFailureHeight := by
  obtain ⟨collected, reached, stored⟩ := Outcome.bind_eq_ok.mp success
  rw [Outcome.pure_eq_ok] at stored
  have kept : collected.lastWithdrawalBundleFailureHeight =
      state.lastWithdrawalBundleFailureHeight := by
    rcases connectWithdrawals_cases reached with same | ⟨_, _, _, _, _, same⟩ <;> rw [same] <;> rfl
  rw [← stored, ← kept]
  exact connectStatuses_failure orders collected twoWayPegData.bundleStatuses blockHeight

end State

namespace Node

variable [DecidableEq C] [GetValue C] [GetAddress A] [Verify A C] [Bs58] [CustomState S A C]

/-- No bundle failed above the height of a checked run. -/
theorem Run.failure_le {history : List (Receipt A C)} {node : Node A C S}
    (run : Run .checked history node) {failure : UInt32}
    (failed : node.state.lastWithdrawalBundleFailureHeight = some failure) :
    failure ≤ node.archive.getHeight := by
  induction run with
  | new => cases failed
  | submitTransaction _ submitted ih =>
      obtain ⟨_, _, _, _, rfl⟩ := submitTransaction_eq_ok.mp submitted
      exact ih failed
  | poolTransaction _ pooled ih =>
      obtain ⟨_, _, rfl⟩ := poolTransaction_eq_ok.mp pooled
      exact ih failed
  | deleteTransaction _ _ ih => exact ih failed
  | getTransactions _ picked ih =>
      obtain ⟨_, _, _, _, rfl⟩ := getTransactions_eq_ok.mp picked
      exact ih failed
  | @submitBlock _ node _ _ _ _ _ _ _ _ _ _ _ committed ih =>
      have committed := commitBlock_eq_ok.mp committed
      obtain ⟨appended, reached, archived⟩ := committed.archived
      have raised := Archive.appendHeader_height reached
      rw [← Archive.putBody_height archived] at raised
      rcases State.connectTwoWayPegData_failure committed.connected with here | kept
      · rw [here] at failed
        exact Option.some.inj failed ▸ raised
      · have earlier := ih (kept.symm.trans failed)
        obtain ⟨_, _, success⟩ := Outcome.bind_eq_ok.mp reached
        obtain ⟨newHeight, next, _⟩ := Outcome.bind_eq_ok.mp success
        have room := of_decide_eq_true (Overflow.guard_checked_eq_ok.mp next).1
        rw [UInt32.le_iff_toNat_le, UInt32.toNat_add, Nat.mod_eq_of_lt room] at raised
        rw [UInt32.le_iff_toNat_le] at earlier ⊢
        omega

end Node

end

end Ddk
