import Ddk.Construction.Concurrency
import Ddk.Foundation.Snapshots
import Ddk.Proof.Drivechain.Batches
import Ddk.Proof.Node.Runs

namespace Ddk

open Foundation

section

variable [Bitcoin] [Blake3] {A C : Type} [Bincode C] [GetValue C] [GetAddress A] [Verify A C]
variable [DecidableEq C]

/-- A run spends the inputs of each of its blocks. -/
theorem State.Run.inputs {mode : Overflow} {history : List (Receipt A C)} {state : State C}
    (run : State.Run mode history state) :
    ∀ receipt ∈ history, receipt.spentEntries.map Prod.fst = receipt.body.getInputs := by
  induction run with
  | empty => exact fun _ member => by cases member
  | block _ connects ih =>
      obtain ⟨_, describes⟩ := connects.describes
      intro receipt member
      rcases List.mem_cons.mp member with rfl | earlier
      · exact describes.spentEntries_keys
      · exact ih receipt earlier

/-- A deposit that was delivered once and spent is not in the database. -/
theorem State.Run.deposit_gone {mode : Overflow} {history : List (Receipt A C)} {state : State C}
    (run : State.Run mode history state)
    (once : ((History.depositEntries history).map Prod.fst).Nodup) {receipt : Receipt A C}
    (member : receipt ∈ history) {name : Bitcoin.OutPoint}
    (spent : OutPoint.deposit name ∈ receipt.body.getInputs) :
    state.utxos[OutPoint.deposit name]? = none := by
  have created : occurrences (History.createdEntries history) (OutPoint.deposit name) ≤ 1 := by
    rw [History.occurrences_deposit]
    exact occurrences_le_one once _
  have balance := run.accounts.counted (OutPoint.deposit name) created
  have taken : 0 < occurrences (History.spentEntries history) (OutPoint.deposit name) := by
    rw [← run.inputs receipt member] at spent
    obtain ⟨entry, listed, named⟩ := List.mem_map.mp spent
    rw [← named]
    exact occurrences_pos (List.mem_flatMap.mpr ⟨receipt, member, listed⟩)
  by_contra present
  obtain ⟨output, found⟩ := Option.ne_none_iff_exists'.mp present
  have listed : (OutPoint.deposit name, output) ∈ state.utxos.toList :=
    Database.mem_entries_iff.mpr found
  have stored : 0 < occurrences state.utxos.toList (OutPoint.deposit name) := occurrences_pos listed
  rw [History.heldEntries] at balance
  simp only [occurrences_append] at balance
  omega

end

namespace Drivechain

variable [Bitcoin] {C : Type}

/-- The keys of a batch with distinct names are its names. -/
theorem keys_putAll {batch : List (OutPoint × Output C)} (distinct : (batch.map Prod.fst).Nodup) :
    (Database.putAll (∅ : HashMap OutPoint (Output C)) batch).keys.Perm (batch.map Prod.fst) := by
  have fresh : ∀ key ∈ batch.map Prod.fst, (∅ : HashMap OutPoint (Output C))[key]? = none :=
    fun _ _ => by simp
  have listed := (Database.toList_putAll_perm distinct fresh).map Prod.fst
  rw [Std.ExtTreeMap.map_fst_toList_eq_keys, List.map_append] at listed
  simpa using listed

variable [Bs58]

/-- These are the names of the credits before an index. -/
def creditedNames (C : Type) (treasury : Treasury) (seen : ℕ) : List OutPoint :=
  (credits TreasuryEntry.total (creditedOutputs (C := C)) 0 (treasury.entriesBetween 0 seen)).map
    Prod.fst

/-- A later index keeps the credits. -/
theorem creditedNames_subset (treasury : Treasury) {first last : ℕ} (before : first ≤ last) :
    creditedNames C treasury first ⊆ creditedNames C treasury last := by
  rw [creditedNames, creditedNames, treasury.entriesBetween_append (Nat.zero_le first) before,
    credits_append, List.map_append]
  exact List.subset_append_left _ _

omit [Bitcoin] [Bs58] in
/-- The last rising block of two indices is the last rising block between them. -/
theorem lastMark_between {treasury : Treasury} {first middle last : ℕ} (before : first ≤ middle)
    (after : middle ≤ last)
    (same : lastMark TreasuryEntry.total risingBlock 0 (treasury.entriesBetween 0 first) =
      lastMark TreasuryEntry.total risingBlock 0 (treasury.entriesBetween 0 last)) :
    lastMark TreasuryEntry.total risingBlock 0 (treasury.entriesBetween 0 middle) =
      lastMark TreasuryEntry.total risingBlock 0 (treasury.entriesBetween 0 last) := by
  have split := treasury.entriesBetween_append (Nat.zero_le middle) after
  rw [split, lastMark_append, Option.orElse_eq_orElse, Option.orElse_eq_or] at same ⊢
  cases later : lastMark TreasuryEntry.total risingBlock
      (tip TreasuryEntry.total 0 (treasury.entriesBetween 0 middle))
        (treasury.entriesBetween middle last) with
  | none => rw [Option.none_or]
  | some hash =>
      rw [later, Option.some_or] at same
      have early := (lastMark_known same).2.2
      have late := (lastMark_known later).2.1
      omega

/-- A fetch from a kept start completes the credits that were reached at its read. -/
theorem getTwoWayPegData_resumed {client : MainClient} {sidechainNumber : UInt8}
    {treasury : Treasury} {seen : ℕ} {start : Option Bitcoin.BlockHash} {stop : Bitcoin.BlockHash}
    {twoWayPegData : TwoWayPegData C} (forward : seen ≤ treasury.position stop + 1)
    (resumed : start = lastMark TreasuryEntry.total risingBlock 0 (treasury.entriesBetween 0 seen))
    (answers : client.Answers sidechainNumber treasury start stop)
    (fetched : getTwoWayPegData client sidechainNumber stop start = .ok twoWayPegData) :
    (twoWayPegData.depositBlockHash <|> start) =
        lastMark TreasuryEntry.total risingBlock 0 (treasury.upTo stop) ∧
      (creditedNames C treasury (treasury.position stop + 1)).Perm
        (creditedNames C treasury seen ++ twoWayPegData.deposits.keys) := by
  obtain ⟨scan, batch, scanned, complete⟩ :=
      getDepositOutputs_resumed (C := C) forward resumed answers
  obtain ⟨other, again, fetched⟩ := Outcome.bind_eq_ok.mp fetched
  obtain ⟨statuses, _, stored⟩ := Outcome.bind_eq_ok.mp fetched
  have same : other = scan := Except.ok.inj (again.symm.trans scanned)
  cases stored
  subst same
  refine ⟨complete.kept, ?_⟩
  have credited := complete.credited
  have distinct := credits_nodup (C := C) treasury 0 (treasury.position stop + 1) 0
  rw [Treasury.upTo] at credited
  rw [credited, List.map_append] at distinct
  rw [creditedNames, credited, List.map_append, complete.outputs]
  exact (keys_putAll distinct.of_append_right).symm.append_left _

end Drivechain

namespace Commit

open Drivechain

variable [Bitcoin] {A C : Type}

/-- The commits reach the entries of the blocks before this index. -/
def frontier (treasury : Treasury) (commits : List (Commit A C)) : ℕ :=
  (commits.head?.map fun commit => treasury.position commit.header.prevMainHash + 1).getD 0

/-- An earlier part of the commits reaches no later block. -/
theorem Forward.frontier_le {treasury : Treasury} {commit : Commit A C}
    {earlier : List (Commit A C)} (forward : Forward treasury (commit :: earlier)) (count : ℕ) :
    frontier treasury (earlier.drop count) ≤ treasury.position commit.header.prevMainHash + 1 := by
  rw [frontier]
  cases first : (earlier.drop count).head? with
  | none => exact Nat.zero_le _
  | some other =>
      have member := List.mem_of_mem_drop (List.mem_of_head? first)
      exact Nat.succ_le_succ ((List.pairwise_cons.mp forward).1 other member)

theorem Forward.frontier_drop_le {treasury : Treasury} {commits : List (Commit A C)}
    (forward : Forward treasury commits) (count : ℕ) :
    frontier treasury (commits.drop count) ≤ frontier treasury commits := by
  cases commits with
  | nil => rw [List.drop_nil]
  | cons commit earlier =>
      cases count with
      | zero => exact Nat.le_refl _
      | succ count => exact forward.frontier_le count

variable [Bs58]

/-- A commit appends the names of its deposits to the credited names. -/
def toWrite (treasury : Treasury) (commit : Commit A C) : Write OutPoint where
  since := commit.since
  reached := creditedNames C treasury (treasury.position commit.header.prevMainHash + 1)
  batch := commit.receipt.deposits.keys

theorem frontier_toWrite (treasury : Treasury) (commits : List (Commit A C)) :
    Write.frontier (commits.map (toWrite treasury)) =
      creditedNames C treasury (frontier treasury commits) := by
  cases commits <;> rfl

theorem unraced_toWrite (treasury : Treasury) (commits : List (Commit A C)) :
    Write.Unraced (commits.map (toWrite treasury)) ↔ Unraced commits := by
  induction commits with
  | nil => rfl
  | cons commit earlier ih =>
      rw [List.map_cons, Write.Unraced, Unraced, ih]
      change (∀ other ∈ (earlier.map (toWrite treasury)).take commit.since, other.batch = []) ∧ _ ↔
        _
      rw [← List.map_take, List.forall_mem_map]
      simp only [toWrite, Std.ExtTreeMap.keys_eq_nil_iff]

theorem appended_toWrite (treasury : Treasury) (commits : List (Commit A C)) :
    Write.appended (commits.map (toWrite treasury)) =
      (History.depositEntries (history commits)).map Prod.fst := by
  rw [Write.appended, History.depositEntries, history, List.map_flatMap, List.flatMap_map,
    List.flatMap_map]
  simp only [toWrite, Std.ExtTreeMap.map_fst_toList_eq_keys]

end Commit

namespace Node

open Drivechain Commit

section

variable [Bitcoin] [Bs58] {A C S : Type} [CustomState S A C] {treasury : Treasury}
variable {commits : List (Commit A C)}

/-- A call keeps the start that some commits left, and the mainchain answered it. -/
structure Call.Kept (S : Type) [CustomState S A C] (treasury : Treasury)
    (commits : List (Commit A C))
    (call : Call A C) : Prop where
  read : call.read ≤ commits.length
  start : call.start = lastMark TreasuryEntry.total risingBlock 0
    (treasury.entriesBetween 0 (frontier treasury (commits.drop (commits.length - call.read))))
  fetched : ∀ twoWayPegData, call.fetched = some twoWayPegData → ∃ client : MainClient,
    client.Answers (CustomState.thisSidechain S A C) treasury call.start call.header.prevMainHash ∧
    getTwoWayPegData (S := S) (A := A) client call.header call.start = .ok twoWayPegData

/-- The next commit keeps what the calls have read. -/
theorem Call.Kept.commit {call : Call A C} (kept : Call.Kept S treasury commits call)
    (commit : Commit A C) :
    Call.Kept S treasury (commit :: commits) call where
  read := kept.read.trans (Nat.le_succ _)
  start := by
    have shift : (commit :: commits).length - call.read = (commits.length - call.read) + 1 := by
      have read := kept.read
      rw [List.length_cons]
      omega
    rw [shift, List.drop_succ_cons]
    exact kept.start
  fetched := kept.fetched

/-- The kept deposit block is the last rising one that the commits reach, and they form a log. -/
structure Reached (S : Type) [CustomState S A C] (treasury : Treasury) (calls : List (Call A C))
    (commits : List (Commit A C)) (state : State C) : Prop where
  kept : ∀ call ∈ calls, Call.Kept S treasury commits call
  start : state.lastDepositBlock =
    lastMark TreasuryEntry.total risingBlock 0
      (treasury.entriesBetween 0 (frontier treasury commits))
  log : Write.Log (commits.map (toWrite treasury))

/-- A commit extends the log from the start of its call. -/
theorem Reached.commit {state : State C} {first last : List (Call A C)} {call : Call A C}
    (reached : Reached S treasury (first ++ call :: last) commits state) {receipt : Receipt A C}
    (forward : Forward treasury (⟨call.header, receipt, commits.length - call.read⟩ :: commits))
    {twoWayPegData : TwoWayPegData C} (fetched : call.fetched = some twoWayPegData)
    (deposits : receipt.deposits = twoWayPegData.deposits) {next : State C}
    (stored : next.lastDepositBlock = (twoWayPegData.depositBlockHash <|> state.lastDepositBlock)) :
    Reached S treasury (first ++ last)
      (⟨call.header, receipt, commits.length - call.read⟩ :: commits) next := by
  have kept := reached.kept call (List.mem_append_right _ List.mem_cons_self)
  have earlier : Forward treasury commits := (List.pairwise_cons.mp forward).2
  obtain ⟨client, answers, success⟩ := kept.fetched twoWayPegData fetched
  obtain ⟨marked, credited⟩ := getTwoWayPegData_resumed (forward.frontier_le _) kept.start answers
    (Outcome.convert_eq_ok.mp success)
  constructor
  · intro other member
    apply Call.Kept.commit
    apply reached.kept
    rcases List.mem_append.mp member with before | after
    · exact List.mem_append_left _ before
    · exact List.mem_append_right _ (List.mem_cons_of_mem _ after)
  · change _ = lastMark TreasuryEntry.total risingBlock 0 (treasury.upTo call.header.prevMainHash)
    rw [stored]
    rw [Option.orElse_eq_orElse, Option.orElse_eq_or] at marked ⊢
    cases rising : twoWayPegData.depositBlockHash with
    | some hash =>
        rw [rising, Option.some_or] at marked
        rw [Option.some_or, marked]
    | none =>
        rw [rising, Option.none_or, kept.start] at marked
        rw [Option.none_or, reached.start]
        exact lastMark_between (earlier.frontier_drop_le _) (forward.frontier_le 0) marked
  · rw [List.map_cons]
    apply Write.Log.cons reached.log
    · rw [← List.map_drop, frontier_toWrite]
      change (creditedNames C treasury _).Perm (_ ++ receipt.deposits.keys)
      rw [deposits]
      exact credited
    · rw [frontier_toWrite]
      exact creditedNames_subset treasury (forward.frontier_le 0)
    · exact credits_nodup treasury _ _ _

variable [Blake3] [Bincode C] [GetValue C] [GetAddress A] [Verify A C] [DecidableEq C]
variable {mode : Overflow} {calls : List (Call A C)} {node : Node A C S}

theorem ConcurrentRun.state_run (run : ConcurrentRun mode treasury calls commits node) :
    State.Run mode (history commits) node.state := by
  induction run with
  | new => exact .empty
  | mempool _ _ ih => exact ih
  | read _ _ _ ih => exact ih
  | fetch _ _ _ ih => exact ih
  | commit _ _ recorded committed ih =>
      obtain ⟨_, accepted, _⟩ := State.blockReceipt_describes recorded
      exact .block ih ⟨accepted, recorded, (commitBlock_eq_ok.mp committed).connected⟩
  | fail _ ih => exact ih

/-- Every step of a run keeps the log. -/
theorem ConcurrentRun.reached (run : ConcurrentRun mode treasury calls commits node)
    (forward : Forward treasury commits) : Reached S treasury calls commits node.state := by
  induction run with
  | new => exact ⟨fun _ member => absurd member List.not_mem_nil, rfl, .nil⟩
  | mempool _ _ ih => exact ih forward
  | read header body _ ih =>
      have before := ih forward
      refine ⟨fun call member => ?_, before.start, before.log⟩
      rcases List.mem_cons.mp member with rfl | earlier
      · refine ⟨Nat.le_refl _, ?_, fun _ none => by cases none⟩
        rw [Nat.sub_self, List.drop_zero]
        exact before.start
      · exact before.kept call earlier
  | @fetch first last call commits node client twoWayPegData _ answers fetched ih =>
      have before := ih forward
      have asked := before.kept call (List.mem_append_right _ List.mem_cons_self)
      refine ⟨fun other member => ?_, before.start, before.log⟩
      rcases List.mem_append.mp member with earlier | later
      · exact before.kept other (List.mem_append_left _ earlier)
      · rcases List.mem_cons.mp later with rfl | later
        · exact ⟨asked.read, asked.start, fun _ same => by
            cases same
            exact ⟨client, answers, fetched⟩⟩
        · exact before.kept other (List.mem_append_right _ (List.mem_cons_of_mem _ later))
  | commit _ fetched recorded committed ih =>
      obtain ⟨_, _, _, describes⟩ := State.blockReceipt_describes recorded
      have stored := connectTwoWayPegData_lastDepositBlock
        (commitBlock_eq_ok.mp committed).connected
      exact (ih (List.pairwise_cons.mp forward).2).commit forward fetched describes.deposits stored
  | fail _ ih =>
      have before := ih forward
      refine ⟨fun other member => before.kept other ?_, before.start, before.log⟩
      rcases List.mem_append.mp member with earlier | later
      · exact List.mem_append_left _ earlier
      · exact List.mem_append_right _ (List.mem_cons_of_mem _ later)

/-- Every deposit is credited once exactly when no other call puts one between read and commit. -/
theorem concurrent_deposits_iff (run : ConcurrentRun mode treasury calls commits node)
    (forward : Forward treasury commits) :
    State.CreditedOnce (history commits) node.state ↔ Commit.Unraced commits := by
  have log := (run.reached forward).log
  have once := log.nodup_iff
  rw [appended_toWrite, unraced_toWrite] at once
  constructor
  · intro credited
    exact once.mp credited.once
  · intro unraced
    have distinct := once.mpr unraced
    exact ⟨distinct, fun _ member _ spent => run.state_run.deposit_gone distinct member spent⟩

end

section

open Reference

/-- The first deposit answers each call that starts no later than its block. -/
theorem deposit_answers {start : Option Bitcoin.BlockHash} {stop : Bitcoin.BlockHash}
    (listed : raisedTreasury.listed start stop = [entry 1 10]) :
    (client [deposit 1 10] [] []).Answers 0 raisedTreasury start stop := by
  refine ⟨_, rfl, ?_⟩
  rw [listed]
  exact .cons (deposit_carries (.inl rfl)) .nil

/-- A call begins after some commits with the start that a node keeps. -/
def begin (submission : Submission) (node : Node Authorization Unit Unit)
    (read : ℕ) : Call Authorization Unit :=
  ⟨submission.header, submission.body, node.state.lastDepositBlock, read, none⟩

/-- The mainchain answers the call. -/
def answered (submission : Submission) (node : Node Authorization Unit Unit)
    (read : ℕ) : Call Authorization Unit :=
  { begin submission node read with fetched := some (submission.pegData node) }

theorem ConcurrentRun.answer {treasury : Treasury} {first last : List (Call Authorization Unit)}
    {commits : List (Commit Authorization Unit)} {submission : Submission}
    {earlier node : Node Authorization Unit Unit}
    {read : ℕ}
    (run : ConcurrentRun .checked treasury (first ++ begin submission earlier read :: last)
      commits node)
    (answers : submission.client.Answers 0 treasury earlier.state.lastDepositBlock
      submission.header.prevMainHash)
    (accepted : (submission.fetch earlier).isOk = true) :
    ConcurrentRun .checked treasury (first ++ answered submission earlier read :: last)
      commits node :=
  run.fetch answers (Outcome.eq_ok_getD _ accepted)

/-- A submission commits the peg data that it fetched with the start of another node. -/
def lateReceipt (submission : Submission) (earlier node : Node Authorization Unit Unit) :
    Receipt Authorization Unit :=
  (node.state.blockReceipt orders .checked submission.body (submission.pegData earlier)
    node.archive.getHeight).toOption.getD ⟨submission.body, [], 0, ∅, none⟩

def lateNode (submission : Submission) (earlier node : Node Authorization Unit Unit) :
    Node Authorization Unit Unit :=
  (node.commitBlock orders .checked submission.header submission.body
    (submission.pegData earlier)).toOption.getD node

/-- A late commit passes its checks. -/
def lateAccepted (submission : Submission) (earlier node : Node Authorization Unit Unit) : Bool :=
  (node.state.blockReceipt orders .checked submission.body (submission.pegData earlier)
      node.archive.getHeight).isOk &&
    (node.commitBlock orders .checked submission.header submission.body
      (submission.pegData earlier)).isOk

theorem ConcurrentRun.late {treasury : Treasury} {first last : List (Call Authorization Unit)}
    {commits : List (Commit Authorization Unit)} {submission : Submission}
    {earlier node : Node Authorization Unit Unit}
    {read : ℕ}
    (run : ConcurrentRun .checked treasury (first ++ answered submission earlier read :: last)
      commits node)
    (accepted : lateAccepted submission earlier node = true) :
    ConcurrentRun .checked treasury (first ++ last)
      (⟨submission.header, lateReceipt submission earlier node, commits.length - read⟩ :: commits)
      (lateNode submission earlier node) := by
  rw [lateAccepted, Bool.and_eq_true] at accepted
  exact run.commit rfl (Outcome.eq_ok_getD _ accepted.1) (Outcome.eq_ok_getD _ accepted.2)

def parentNode : Node Authorization Unit Unit := lateNode depositBlock (Node.new ()) (Node.new ())

def parentCommit : Commit Authorization Unit :=
  ⟨depositBlock.header, lateReceipt depositBlock (Node.new ()) (Node.new ()), 0⟩

/-- The second block spends the deposit of the first, and both calls read the new node. -/
def racedCommits : List (Commit Authorization Unit) :=
  [⟨spendBlock.header, lateReceipt spendBlock (Node.new ()) parentNode, 1⟩, parentCommit]

theorem racedCommits_run :
    ConcurrentRun .checked raisedTreasury [] racedCommits
      (lateNode spendBlock (Node.new ()) parentNode) := by
  have asked : ConcurrentRun .checked raisedTreasury
      ([begin spendBlock (Node.new ()) 0] ++ begin depositBlock (Node.new ()) 0 :: []) []
      (Node.new () : Node Authorization Unit Unit) :=
    ((ConcurrentRun.new ()).read depositBlock.header depositBlock.body).read spendBlock.header
      spendBlock.body
  have first : ConcurrentRun .checked raisedTreasury
      ([] ++ begin spendBlock (Node.new ()) 0 :: [answered depositBlock (Node.new ()) 0]) []
      (Node.new () : Node Authorization Unit Unit) :=
    asked.answer (deposit_answers (by decide +kernel)) (by decide +kernel)
  have second : ConcurrentRun .checked raisedTreasury
      ([answered spendBlock (Node.new ()) 0] ++ answered depositBlock (Node.new ()) 0 :: []) []
      (Node.new () : Node Authorization Unit Unit) :=
    first.answer (deposit_answers (by decide +kernel)) (by decide +kernel)
  have parent : ConcurrentRun .checked raisedTreasury
      ([] ++ answered spendBlock (Node.new ()) 0 :: []) [parentCommit] parentNode :=
    second.late (by decide +kernel)
  exact parent.late (by decide +kernel)

/-- The second call puts the deposit again after its block spent it. -/
theorem raced_deposit_reappears :
    ∃ (commits : List (Commit Authorization Unit)) (node : Node Authorization Unit Unit),
      ConcurrentRun .checked raisedTreasury [] commits node ∧
      Commit.Forward raisedTreasury commits ∧
      (∃ receipt ∈ Commit.history commits, depositOutPoint 10 ∈ receipt.body.getInputs) ∧
      node.state.utxos[depositOutPoint 10]? ≠ none ∧
      ¬ State.CreditedOnce (Commit.history commits) node.state := by
  have spent : depositOutPoint 10 ∈ spendBlock.body.getInputs := by decide +kernel
  have present : (lateNode spendBlock (Node.new ()) parentNode).state.utxos[depositOutPoint 10]? ≠
      none := by
    decide +kernel
  have member : racedCommits[0].receipt ∈ Commit.history racedCommits := List.mem_cons_self
  have body : racedCommits[0].receipt.body = spendBlock.body := by decide +kernel
  rw [← body] at spent
  have forward : Commit.Forward raisedTreasury racedCommits := by
    unfold Commit.Forward
    decide +kernel
  refine ⟨racedCommits, _, racedCommits_run, forward, ⟨_, member, spent⟩, present, ?_⟩
  intro credited
  exact present (credited.gone _ member _ spent)

/-- The second call reads after the first commit. -/
def orderedCommits : List (Commit Authorization Unit) :=
  [⟨spendBlock.header, lateReceipt spendBlock parentNode parentNode, 0⟩, parentCommit]

theorem orderedCommits_run :
    ConcurrentRun .checked raisedTreasury [] orderedCommits
      (lateNode spendBlock parentNode parentNode) := by
  have asked : ConcurrentRun .checked raisedTreasury
    ([] ++ begin depositBlock (Node.new ()) 0 :: []) []
      (Node.new () : Node Authorization Unit Unit) :=
    (ConcurrentRun.new ()).read depositBlock.header depositBlock.body
  have first : ConcurrentRun .checked raisedTreasury
    ([] ++ answered depositBlock (Node.new ()) 0 :: []) []
      (Node.new () : Node Authorization Unit Unit) :=
    asked.answer (deposit_answers (by decide +kernel)) (by decide +kernel)
  have parent : ConcurrentRun .checked raisedTreasury [] [parentCommit] parentNode :=
    first.late (by decide +kernel)
  have begun : ConcurrentRun .checked raisedTreasury ([] ++ begin spendBlock parentNode 1 :: [])
    [parentCommit]
      parentNode := parent.read spendBlock.header spendBlock.body
  have second : ConcurrentRun .checked raisedTreasury ([] ++ answered spendBlock parentNode 1 :: [])
    [parentCommit]
      parentNode := begun.answer (deposit_answers (by decide +kernel)) (by decide +kernel)
  exact second.late (by decide +kernel)

theorem concurrent_deposits_ordered :
    State.CreditedOnce (Commit.history orderedCommits)
      (lateNode spendBlock parentNode parentNode).state := by
  have forward : Commit.Forward raisedTreasury orderedCommits := by
    unfold Commit.Forward
    decide +kernel
  apply (concurrent_deposits_iff orderedCommits_run forward).mpr
  exact ⟨fun _ member => absurd member List.not_mem_nil,
    fun _ member => absurd member List.not_mem_nil, trivial⟩

end

end Node

end Ddk
