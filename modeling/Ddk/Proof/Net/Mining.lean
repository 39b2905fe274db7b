import Ddk.Construction.Mining
import Ddk.Proof.Archive.Chain
import Ddk.Proof.Net.Download

namespace Ddk

open Foundation

section

variable [Bitcoin] [Blake3] {A C : Type} [Bincode C]

/-- A confirmed block passed the verification of its commitment, and the miner held it. -/
theorem Miner.confirmBmm_eq_ok {client : Drivechain.BmmClient} {miner next : Miner A C}
    {header : Header} {body : Body A C} :
    miner.confirmBmm client = .ok (some (header, body), next) ↔
      miner.block = some (header, body) ∧
        Drivechain.verifyBmm (C := C) client miner.sidechainNumber header = .ok () ∧
        { miner with block := none } = next := by
  unfold confirmBmm
  cases miner.block with
  | none => simp
  | some block =>
      obtain ⟨held, heldBody⟩ := block
      simp only [Outcome.bind_eq_ok, Outcome.convert_eq_ok, Outcome.pure_eq_ok, Prod.mk.injEq,
        Option.some.injEq]
      constructor
      · intro steps
        obtain ⟨_, verified, ⟨rfl, rfl⟩, same⟩ := steps
        exact ⟨⟨rfl, rfl⟩, verified, same⟩
      · intro steps
        obtain ⟨⟨rfl, rfl⟩, verified, same⟩ := steps
        exact ⟨(), verified, ⟨rfl, rfl⟩, same⟩

namespace ChainEvent

variable (C)

/-- Some earlier verification of the header succeeded. -/
def Verified (events : List ChainEvent) (header : Header) : Prop :=
  ∃ client sidechainNumber, ChainEvent.verified client sidechainNumber header ∈ events ∧
    Drivechain.verifyBmm (C := C) client sidechainNumber header = .ok ()

/-- Each header was verified before it entered the archive. -/
def AppendsVerified : List ChainEvent → Prop
  | [] => True
  | .verified _ _ _ :: events => AppendsVerified events
  | .confirmed header :: events => Verified C events header ∧ AppendsVerified events
  | .downloaded header :: events => Verified C events header ∧ AppendsVerified events

/-- Each downloaded header was verified by the node's own miner before. -/
def DownloadsVerified : List ChainEvent → Prop
  | [] => True
  | .verified _ _ _ :: events => DownloadsVerified events
  | .confirmed _ :: events => DownloadsVerified events
  | .downloaded header :: events => Verified C events header ∧ DownloadsVerified events

variable {C}

/-- A later event keeps the earlier verifications. -/
theorem Verified.later {events : List ChainEvent} {header : Header}
    (verified : Verified C events header)
    (event : ChainEvent) : Verified C (event :: events) header := by
  obtain ⟨client, sidechainNumber, member, success⟩ := verified
  exact ⟨client, sidechainNumber, List.mem_cons_of_mem _ member, success⟩

end ChainEvent

end

namespace Node

section

variable [Bitcoin] {A C S : Type} [CustomState S A C]
variable [GetValue C] [GetAddress A] [Verify A C] [Blake3] [Bincode C] [DecidableEq C] [Bs58]
variable [Wire A C]
variable {mode : Overflow} {events : List ChainEvent} {miner : Miner A C}
variable {handed : List (Header × Body A C)}
variable {node : Node A C S}

/-- Each block that the miner handed over was verified. -/
theorem MiningRun.handed_verified (run : MiningRun mode events miner handed node) :
    ∀ block ∈ handed, ChainEvent.Verified C events block.1 := by
  induction run with
  | new => exact fun block member => absurd member List.not_mem_nil
  | attemptBmm _ _ ih => exact ih
  | confirmBmm _ confirmed ih =>
      intro block member
      rcases List.mem_cons.mp member with rfl | earlier
      · exact ⟨_, _, List.mem_cons_self, (Miner.confirmBmm_eq_ok.mp confirmed).2.1⟩
      · exact (ih block earlier).later _
  | submitConfirmed _ _ _ _ ih => exact fun block member => (ih block member).later _
  | download _ _ _ _ ih => exact fun block member => (ih block member).later _
  | mempool _ _ ih => exact ih

omit [Wire A C] [Bs58] in
/-- A committed block stores its own header and no other new one. -/
theorem commitBlock_headers {orders : Orders C} {next : Node A C S} {header : Header}
    {body : Body A C} {twoWayPegData : TwoWayPegData C}
    (committed : node.commitBlock orders mode header body twoWayPegData = .ok next)
    {key : HeightBytes} {stored : Header} (found : next.archive.headers[key]? = some stored) :
    stored = header ∨ node.archive.headers[key]? = some stored := by
  obtain ⟨newHeight, step⟩ := Archive.appends_iff.mp (commitBlock_eq_ok.mp committed).archived
  rw [step.stored, Database.getElem?_put] at found
  split at found
  next => exact .inl (Option.some.inj found).symm
  next => exact .inr found

/-- Each stored header was appended by a confirmation or by a download. -/
theorem MiningRun.stored_appended (run : MiningRun mode events miner handed node)
    {key : HeightBytes} {header : Header} (found : node.archive.headers[key]? = some header) :
    .confirmed header ∈ events ∨ .downloaded header ∈ events := by
  induction run with
  | new =>
      rw [Node.new, Archive.empty, Std.ExtTreeMap.getElem?_empty] at found
      cases found
  | attemptBmm _ _ ih => exact ih found
  | confirmBmm _ _ ih => exact (ih found).imp (List.mem_cons_of_mem _) (List.mem_cons_of_mem _)
  | submitConfirmed _ _ _ committed ih =>
      rcases commitBlock_headers committed found with rfl | earlier
      · exact .inl List.mem_cons_self
      · exact (ih earlier).imp (List.mem_cons_of_mem _) (List.mem_cons_of_mem _)
  | download _ _ _ committed ih =>
      rcases commitBlock_headers committed found with rfl | earlier
      · exact .inr List.mem_cons_self
      · exact (ih earlier).imp (List.mem_cons_of_mem _) (List.mem_cons_of_mem _)
  | mempool _ _ ih => exact ih found

/-- A surviving download step keeps the run or appends one downloaded header. -/
theorem MiningRun.requestMissingHeader (run : MiningRun mode events miner handed node)
    {orders : Orders C} {client : Drivechain.MainClient} {state : Option PeerState}
    {stream : Stream} {next : Node A C S}
    (survived : node.requestMissingHeader orders mode client state stream = .ok next) :
    MiningRun mode events miner handed next ∨
      ∃ header, MiningRun mode (.downloaded header :: events) miner handed next := by
  rcases requestMissingHeader_keepsOrAccepts survived
    with rfl | ⟨header, body, replied, data, fetched, committed⟩
  · exact .inl run
  · exact .inr ⟨header, run.download replied fetched (commitBlock_eq_ok.mpr committed)⟩

/-- In every run, all appended headers were verified exactly when the downloaded ones were. -/
theorem appends_verified_iff (run : MiningRun mode events miner handed node) :
    (∀ (key : HeightBytes) (header : Header), node.archive.headers[key]? = some header →
        .confirmed header ∈ events ∨ .downloaded header ∈ events) ∧
      (ChainEvent.AppendsVerified C events ↔ ChainEvent.DownloadsVerified C events) := by
  refine ⟨fun key header found => run.stored_appended found, ?_⟩
  induction run with
  | new => exact Iff.rfl
  | attemptBmm _ _ ih => exact ih
  | confirmBmm _ _ ih => exact ih
  | submitConfirmed before member _ _ ih =>
      rw [ChainEvent.AppendsVerified, ChainEvent.DownloadsVerified, ih]
      exact and_iff_right (before.handed_verified _ member)
  | download _ _ _ _ ih => rw [ChainEvent.AppendsVerified, ChainEvent.DownloadsVerified, ih]
  | mempool _ _ ih => exact ih

end

section

open Reference

/-- A peer answers each request with the same block. -/
def sendingStream : Stream := fun _ =>
  .ok (Wire.encodeResponse
    (Response.block (worthlessHeader 1) (worthlessBody 1) : Response Authorization Unit))

/-- The mainchain commits to nothing, and the downloaded block enters the archive. -/
theorem unverified_run : MiningRun .checked [.downloaded (worthlessBlock 1).header] (Miner.new 0) []
    ((worthlessBlock 1).next .checked (Node.new ())) := by
  have fetched : ((worthlessBlock 1).fetch (Node.new ())).isOk = true := by decide +kernel
  have committed : ((worthlessBlock 1).commit .checked (Node.new ())).isOk = true := by
    decide +kernel
  have replied : Peer.request sendingStream (Request.getBlock (A := Authorization) (C := Unit) 1) =
      .ok (.block (worthlessBlock 1).header (worthlessBlock 1).body) := by decide +kernel
  exact .download (.new () 0) replied (Outcome.eq_ok_getD _ fetched)
    (Outcome.eq_ok_getD _ committed)

theorem appends_verified_iff_unverified :
    (∀ (key : HeightBytes) (header : Header),
        ((worthlessBlock 1).next .checked (Node.new ())).archive.headers[key]? = some header →
        .confirmed header ∈ [ChainEvent.downloaded (worthlessBlock 1).header] ∨
          .downloaded header ∈ [ChainEvent.downloaded (worthlessBlock 1).header]) ∧
      (ChainEvent.AppendsVerified Unit [.downloaded (worthlessBlock 1).header] ↔
        ChainEvent.DownloadsVerified Unit [.downloaded (worthlessBlock 1).header]) :=
  appends_verified_iff unverified_run

/-- A block without a commitment enters the chain. -/
theorem unverified_download :
    ¬ ∀ (events : List ChainEvent) (miner : Miner Authorization Unit)
      (handed : List (Header × Body Authorization Unit))
        (node : Node Authorization Unit Unit), MiningRun .checked events miner handed node →
      ChainEvent.AppendsVerified Unit events := by
  intro claim
  obtain ⟨⟨_, _, member, _⟩, _⟩ := claim _ _ _ _ unverified_run
  cases member

end

end Node

end Ddk
