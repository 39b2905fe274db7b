import Ddk.Construction.Drivechain

namespace Ddk.Drivechain

open Foundation

variable [Bitcoin] [Bs58] {C : Type}

/-- One entry keeps the outputs or puts one deposit. -/
theorem scanDeposit_outputs {start : Option Bitcoin.BlockHash} {scan next : Scan C}
    {deposit : Deposit} (success : scanDeposit start scan deposit = .ok next) :
    next.outputs = scan.outputs ∨ ∃ name output, next.outputs =
      scan.outputs.insert (.deposit name) output := by
  obtain ⟨bytes, _, success⟩ := Outcome.bind_eq_ok.mp success
  obtain ⟨transaction, _, success⟩ := Outcome.bind_eq_ok.mp success
  split at success
  next => cases success
  next treasury _ =>
    split at success
    next => exact .inl (congrArg Scan.outputs (Except.ok.inj success)).symm
    next =>
      dsimp only at success
      split at success
      next => exact .inl (congrArg Scan.outputs (Except.ok.inj success)).symm
      next =>
        cases success
        dsimp only
        unfold creditDeposit
        split
        next address _ => exact .inr ⟨_, _, rfl⟩
        next => exact .inl rfl

/-- The peg data names deposits only. -/
theorem getTwoWayPegData_named {client : MainClient} {sidechainNumber : UInt8}
    {stop : Bitcoin.BlockHash} {start : Option Bitcoin.BlockHash} {twoWayPegData : TwoWayPegData C}
    (success : getTwoWayPegData client sidechainNumber stop start = .ok twoWayPegData) :
    ∀ entry ∈ twoWayPegData.deposits.toList, ∃ name, entry.1 = .deposit name := by
  obtain ⟨scan, scanned, success⟩ := Outcome.bind_eq_ok.mp success
  obtain ⟨_, _, stored⟩ := Outcome.bind_eq_ok.mp success
  obtain ⟨deposits, _, looped⟩ := Outcome.bind_eq_ok.mp scanned
  cases stored
  refine Outcome.foldlM_preserves (fun scan : Scan C =>
    ∀ entry ∈ scan.outputs.toList, ∃ name, entry.1 = OutPoint.deposit name) ?_ (by simp) looped
  intro before deposit after kept step entry member
  rcases scanDeposit_outputs step with same | ⟨name, output, same⟩
  · exact kept entry (same ▸ member)
  · rw [same, Database.mem_entries_iff, Database.getElem?_put] at member
    split at member
    next named => exact ⟨name, named⟩
    next => exact kept entry (Database.mem_entries_iff.mpr member)

end Ddk.Drivechain
