import Ddk.Proof.Node.Authorization
import Ddk.Proof.Node.Runs

namespace Ddk

open Foundation

section

variable [Bitcoin] {A C : Type}

omit [Bitcoin] in
/-- Marking succeeds only for distinct inputs. -/
theorem MemPool.markInputs_nodup {spentUtxos marked : Database OutPoint Unit}
    {inputs : List OutPoint} (success : markInputs spentUtxos inputs = .ok marked) :
    inputs.Nodup ∧ ∀ input ∈ inputs, spentUtxos[input]? = none := by
  induction inputs generalizing spentUtxos with
  | nil => simp
  | cons input inputs ih =>
      rw [markInputs] at success
      split at success
      next => cases success
      next new =>
        obtain ⟨distinct, fresh⟩ := ih success
        have absent : spentUtxos[input]? = none := by simpa using new
        have apart : ∀ other ∈ inputs, other ≠ input ∧ spentUtxos[other]? = none := by
          intro other member
          have unmarked := fresh other member
          rw [Database.getElem?_put] at unmarked
          split at unmarked
          next => cases unmarked
          next different => exact ⟨different, unmarked⟩
        refine ⟨List.nodup_cons.mpr ⟨fun member => (apart input member).1 rfl, distinct⟩, ?_⟩
        intro other member
        rcases List.mem_cons.mp member with rfl | later
        · exact absent
        · exact (apart other later).2

/-- Each pooled transaction has distinct inputs. -/
def MemPool.InputsNodup (mempool : MemPool A C) : Prop :=
  ∀ (name : Hash) (transaction : AuthorizedTransaction A C),
    mempool.transactions[name]? = some transaction → transaction.transaction.inputs.Nodup

/-- Each transaction that the mempool returns is pooled. -/
theorem MemPool.InputsNodup.take {mempool : MemPool A C} (distinct : mempool.InputsNodup)
    {number : ℕ} {transaction : AuthorizedTransaction A C}
    (member : transaction ∈ mempool.take number) :
    transaction.transaction.inputs.Nodup := by
  obtain ⟨entry, listed, rfl⟩ := List.mem_map.mp member
  exact distinct entry.1 entry.2 (Database.mem_entries_iff.mp (List.mem_of_mem_take listed))

/-- Deleting keeps the inputs of each pooled transaction distinct. -/
theorem MemPool.InputsNodup.delete {mempool : MemPool A C} (distinct : mempool.InputsNodup)
    (txid : Txid) :
    (mempool.delete txid).InputsNodup := by
  intro name other found
  rw [MemPool.delete, Database.getElem?_delete] at found
  split at found
  next => cases found
  next => exact distinct name other found

variable [Blake3] [Bincode C]

/-- Pooling keeps the inputs of each pooled transaction distinct. -/
theorem MemPool.InputsNodup.put {mempool next : MemPool A C} (distinct : mempool.InputsNodup)
    {transaction : AuthorizedTransaction A C} (success : mempool.put transaction = .ok next) :
    next.InputsNodup := by
  obtain ⟨marked, marking, stored⟩ := Outcome.bind_eq_ok.mp success
  cases stored
  intro name other found
  rw [Database.getElem?_put] at found
  split at found
  next =>
    cases found
    exact (markInputs_nodup marking).1
  next => exact distinct name other found

end

namespace Node

section

variable [Bitcoin] {A C S : Type} [CustomState S A C]
variable [GetValue C] [GetAddress A] [Verify A C] [Blake3] [Bincode C]

/-- The template picks each transaction that validates and shares no input with an earlier pick. -/
def eligible (mode : Overflow) (node : Node A C S) (spentUtxos : Finset OutPoint) :
    List (AuthorizedTransaction A C) → List (AuthorizedTransaction A C)
  | [] => []
  | transaction :: transactions =>
      let inputs := transaction.transaction.inputs.toFinset
      if Disjoint spentUtxos inputs ∧ (node.validateTransaction mode transaction).isOk then
        transaction :: eligible mode node (spentUtxos ∪ inputs) transactions
      else eligible mode node spentUtxos transactions

/-- A pick adds an eligible transaction and its fee, or it evicts the transaction. -/
theorem pickTransaction_cases {mode : Overflow} {node : Node A C S} {template next : Template A C}
    {transaction : AuthorizedTransaction A C}
    (success : node.pickTransaction mode template transaction = .ok next) :
    let inputs := transaction.transaction.inputs.toFinset
    (¬ (Disjoint template.spentUtxos inputs ∧ (node.validateTransaction mode transaction).isOk) ∧
      next = { template with mempool := template.mempool.delete transaction.transaction.txid }) ∨
    (Disjoint template.spentUtxos inputs ∧ ∃ fee,
      node.validateTransaction mode transaction = .ok fee ∧
      mode.add template.fee fee = (.ok next.fee : Outcome State.Error UInt64) ∧
      next = {
        template with
        fee := next.fee
        returnedTransactions := template.returnedTransactions ++ [transaction]
        spentUtxos := template.spentUtxos ∪ inputs }) := by
  intro inputs
  unfold pickTransaction at success
  dsimp only at success
  split at success
  next conflict =>
    cases success
    exact .inl ⟨fun both => conflict both.1, rfl⟩
  next apart =>
    rw [not_not] at apart
    obtain ⟨invalid, checked, success⟩ := Outcome.bind_eq_ok.mp success
    cases validation : node.validateTransaction mode transaction with
    | error fault =>
        cases fault with
        | panic =>
            rw [validation] at checked
            cases checked
        | error error =>
            rw [validation] at checked
            cases checked
            cases success
            exact .inl ⟨fun both => absurd both.2 Bool.false_ne_true, rfl⟩
    | ok fee =>
        rw [validation] at checked
        cases checked
        rw [if_neg Bool.false_ne_true] at success
        obtain ⟨filled, valid⟩ := validateTransaction_eq_ok.mp validation
        obtain ⟨valueIn, valueOut, sumIn, sumOut, _, difference⟩ :=
          State.validateFilledTransaction_eq_ok.mp valid.valued
        obtain ⟨refilled, found, success⟩ := Outcome.bind_eq_ok.mp success
        have same : refilled = filled :=
          Except.ok.inj ((Outcome.convert_eq_ok.mp found).symm.trans valid.filled)
        subst same
        obtain ⟨totalIn, reachedIn, success⟩ := Outcome.bind_eq_ok.mp success
        obtain ⟨totalOut, reachedOut, success⟩ := Outcome.bind_eq_ok.mp success
        obtain ⟨earned, subtracted, success⟩ := Outcome.bind_eq_ok.mp success
        obtain ⟨total, added, success⟩ := Outcome.bind_eq_ok.mp success
        cases success
        have paid : earned = fee := by
          rw [Overflow.guard_value subtracted, Overflow.sum_unique reachedIn sumIn,
            Overflow.sum_unique reachedOut sumOut, difference]
        rw [paid] at added
        exact .inr ⟨apart, fee, rfl, Overflow.add_retype added, rfl⟩

/-- A template after some picks returns them with distinct inputs and the sum of their fees. -/
structure Picked (mode : Overflow) (node : Node A C S) (template : Template A C)
    (transactions : List (AuthorizedTransaction A C)) : Prop where
  returned : template.returnedTransactions = transactions
  spent : template.spentUtxos = (transactions.flatMap (·.transaction.inputs)).toFinset
  distinct : (transactions.flatMap (·.transaction.inputs)).Nodup
  charged : ∃ fees,
    List.Forall₂ (fun transaction fee => node.validateTransaction mode transaction = .ok fee)
      transactions fees ∧ (mode.sum fees : Outcome State.Error UInt64) = .ok template.fee

/-- One more pick extends the template by the transaction if it is eligible. -/
theorem Picked.pick {mode : Overflow} {node : Node A C S} {template next : Template A C}
    {transactions : List (AuthorizedTransaction A C)}
    (picked : Picked mode node template transactions)
    {transaction : AuthorizedTransaction A C} (distinct : transaction.transaction.inputs.Nodup)
    (success : node.pickTransaction mode template transaction = .ok next) :
    Picked mode node next (transactions ++ eligible mode node template.spentUtxos [transaction]) ∧
      next.spentUtxos = template.spentUtxos ∪
        ((eligible mode node template.spentUtxos [transaction]).flatMap
          (·.transaction.inputs)).toFinset := by
  rcases pickTransaction_cases success with ⟨refused, same⟩ | ⟨apart, fee, valid, added, same⟩
  · have none : eligible mode node template.spentUtxos [transaction] = [] := if_neg refused
    rw [none, List.append_nil, same]
    exact ⟨⟨picked.returned, picked.spent, picked.distinct, picked.charged⟩, by simp⟩
  · have one : eligible mode node template.spentUtxos [transaction] = [transaction] :=
      if_pos ⟨apart, by rw [valid]; rfl⟩
    obtain ⟨fees, checks, sum⟩ := picked.charged
    rw [one, same]
    refine ⟨⟨?_, ?_, ?_, fees ++ [fee], ?_, ?_⟩, ?_⟩
    · rw [picked.returned]
    · simp [picked.spent]
    · rw [picked.spent] at apart
      rw [List.flatMap_append, List.flatMap_singleton, List.nodup_append]
      refine ⟨picked.distinct, distinct, ?_⟩
      rintro input earlier other later rfl
      exact Finset.disjoint_left.mp apart (List.mem_toFinset.mpr earlier)
        (List.mem_toFinset.mpr later)
    · exact List.rel_append checks (.cons valid .nil)
    · rw [Overflow.sum, List.foldlM_append, Outcome.bind_eq_ok]
      refine ⟨template.fee, sum, ?_⟩
      rw [List.foldlM_cons, Outcome.bind_eq_ok]
      exact ⟨next.fee, added, rfl⟩
    · simp

omit [Blake3] [Bincode C] in
/-- Eligibility reads the transactions from left to right. -/
theorem eligible_cons (mode : Overflow) (node : Node A C S) (spentUtxos : Finset OutPoint)
    (transaction : AuthorizedTransaction A C) (transactions : List (AuthorizedTransaction A C)) :
    eligible mode node spentUtxos (transaction :: transactions) =
      eligible mode node spentUtxos [transaction] ++
        eligible mode node (spentUtxos ∪
          ((eligible mode node spentUtxos [transaction]).flatMap (·.transaction.inputs)).toFinset)
            transactions := by
  rw [eligible, eligible]
  split <;> simp [eligible]

omit [Blake3] [Bincode C] in
/-- Each eligible transaction validates. -/
theorem eligible_isOk (mode : Overflow) (node : Node A C S) (spentUtxos : Finset OutPoint)
    (transactions : List (AuthorizedTransaction A C)) :
    ∀ transaction ∈ eligible mode node spentUtxos transactions,
      (node.validateTransaction mode transaction).isOk := by
  induction transactions generalizing spentUtxos with
  | nil => simp [eligible]
  | cons head transactions ih =>
      rw [eligible]
      split
      next accepted =>
        intro transaction member
        rcases List.mem_cons.mp member with rfl | later
        · exact accepted.2
        · exact ih _ transaction later
      next => exact ih spentUtxos

/-- The loop extends the template by exactly the eligible transactions. -/
theorem Picked.loop {mode : Overflow} {node : Node A C S} {template result : Template A C}
    {transactions pooled : List (AuthorizedTransaction A C)}
    (picked : Picked mode node template transactions)
    (distinct : ∀ transaction ∈ pooled, transaction.transaction.inputs.Nodup)
    (success : pooled.foldlM (pickTransaction mode node) template = .ok result) :
    Picked mode node result (transactions ++ eligible mode node template.spentUtxos pooled) := by
  induction pooled generalizing template transactions with
  | nil =>
      cases success
      rw [eligible, List.append_nil]
      exact picked
  | cons transaction pooled ih =>
      obtain ⟨next, first, rest⟩ := Outcome.bind_eq_ok.mp success
      obtain ⟨extended, spent⟩ := picked.pick (distinct transaction List.mem_cons_self) first
      have looped :=
        ih extended (fun later member => distinct later (List.mem_cons_of_mem _ member)) rest
      rw [spent, List.append_assoc, ← eligible_cons] at looped
      exact looped

/-- Each run keeps a property of the mempool that puts and deletions keep. -/
theorem Run.mempool_preserves [DecidableEq C] [Bs58] {holds : MemPool A C → Prop}
    (empty : holds MemPool.empty)
    (put : ∀ mempool next transaction, holds mempool →
      mempool.put transaction = .ok next → holds next)
    (delete : ∀ mempool txid, holds mempool → holds (mempool.delete txid)) {mode : Overflow}
    {history : List (Receipt A C)} {node : Node A C S}
    (run : Run mode history node) : holds node.mempool := by
  induction run with
  | new => exact empty
  | submitTransaction _ submitted ih =>
      obtain ⟨_, _, _, stored, rfl⟩ := submitTransaction_eq_ok.mp submitted
      exact put _ _ _ ih stored
  | poolTransaction _ pooled ih =>
      obtain ⟨_, stored, rfl⟩ := poolTransaction_eq_ok.mp pooled
      exact put _ _ _ ih stored
  | deleteTransaction txid _ ih => exact delete _ txid ih
  | getTransactions _ picked ih =>
      obtain ⟨_, looped, _, _, rfl⟩ := getTransactions_eq_ok.mp picked
      apply Outcome.foldlM_preserves (fun template : Template A C => holds template.mempool) _ ih
        looped
      intro before transaction after kept step
      rcases pickTransaction_cases step with ⟨_, same⟩ | ⟨_, _, _, _, same⟩
      · rw [same]
        exact delete _ _ kept
      · rw [same]
        exact kept
  | submitBlock _ _ _ committed ih =>
      rw [← (commitBlock_eq_ok.mp committed).mempool]
      exact List.foldlRecOn _ _ ih fun mempool kept transaction _ =>
        delete mempool transaction.txid kept

/-- The pooled transactions of each run have distinct inputs. -/
theorem Run.pooled_nodup [DecidableEq C] [Bs58] {mode : Overflow} {history : List (Receipt A C)}
    {node : Node A C S} (run : Run mode history node) : node.mempool.InputsNodup := by
  apply run.mempool_preserves
  · simp [MemPool.InputsNodup, MemPool.empty]
  · intro mempool next transaction distinct stored
    exact distinct.put stored
  · intro mempool txid distinct
    exact distinct.delete txid

end

section

variable [Bitcoin] [Blake3] [Ed25519] [Rayon] {C S : Type} [GetValue C] [Bincode C]
variable [CustomState S Authorization C]

/-- The eligible transactions of a pool line up when they are concatenated. -/
def TemplateAligned (mode : Overflow) (node : Node Authorization C S) (number : ℕ) : Prop :=
  let picked := eligible mode node ∅ (node.mempool.take number)
  node.state.Aligned (picked.flatMap (·.authorizations)) (picked.map (·.transaction))

/-- Validated transactions fill to checked transactions. -/
theorem exists_filled {mode : Overflow} {node : Node Authorization C S}
    {transactions : List (AuthorizedTransaction Authorization C)} {fees : List UInt64}
    (valid : List.Forall₂ (fun transaction fee =>
      node.validateTransaction mode transaction = .ok fee)
      transactions fees) :
    ∃ filledTransactions,
      List.Forall₂ (fun transaction filled => node.state.fillTransaction transaction = .ok filled)
        (transactions.map (·.transaction)) filledTransactions ∧
      List.Forall₂ (fun filled fee => State.validateFilledTransaction mode filled = .ok fee)
        filledTransactions fees := by
  induction valid with
  | nil => exact ⟨[], .nil, .nil⟩
  | cons success _ ih =>
      obtain ⟨filled, first⟩ := validateTransaction_eq_ok.mp success
      obtain ⟨filledTransactions, found, checks⟩ := ih
      exact ⟨filled :: filledTransactions, .cons first.filled found, .cons first.valued checks⟩

/-- A template is a valid body with its own fee exactly when its pool is aligned. -/
theorem template_valid_iff [DecidableEq C] [Bs58] (batch : Authorization.VerifyBatchExact)
    {mode : Overflow} {history : List (Receipt Authorization C)}
    {node next : Node Authorization C S} (run : Run mode history node) {number : ℕ}
    {transactions : List (AuthorizedTransaction Authorization C)} {fee : UInt64}
    (returned : node.getTransactions mode number = .ok (transactions, fee, next))
    (coinbase : List (Output C)) (covered : Overflow.exactSum (coinbase.map getValue) ≤ fee.toNat) :
    node.state.validateBody mode (Body.new transactions coinbase) = .ok fee ↔
      node.TemplateAligned mode number := by
  obtain ⟨template, looped, rfl, rfl, _⟩ := getTransactions_eq_ok.mp returned
  have start : Picked mode node (⟨0, [], ∅, node.mempool⟩ : Template Authorization C) [] :=
    ⟨rfl, rfl, List.nodup_nil, [], .nil, rfl⟩
  have picked := start.loop (fun _ member => run.pooled_nodup.take member) looped
  rw [List.nil_append] at picked
  rw [TemplateAligned, ← picked.returned]
  obtain ⟨fees, valid, sum⟩ := picked.charged
  rw [← picked.returned] at valid
  obtain ⟨filledTransactions, filled, checks⟩ := exists_filled valid
  let body := Body.new template.returnedTransactions coinbase
  have decided : node.state.Aligned body.authorizations body.transactions ↔ _ :=
    State.aligned_body_iff batch body filled
  have distinct : body.getInputs.Nodup := by
    have inputs : body.getInputs = template.returnedTransactions.flatMap (·.transaction.inputs) :=
      List.flatMap_map ..
    rw [inputs, picked.returned]
    exact picked.distinct
  obtain ⟨claimed, coinbaseSum, exact⟩ :=
    Overflow.sum_of_fits (ε := State.Error) mode (Nat.lt_of_le_of_lt covered template.fee.toNat_lt)
  have enough : claimed ≤ template.fee := by
    rw [UInt64.le_iff_toNat_le, exact]
    exact covered
  constructor
  · intro accepted
    obtain ⟨refilled, checked⟩ := State.validateBody_eq_ok.mp accepted
    exact (State.aligned_body_iff batch body checked.filled).mpr
      ⟨checked.addressed, checked.verified⟩
  · intro aligned
    obtain ⟨addressed, verified⟩ := decided.mp aligned
    exact State.validateBody_eq_ok.mpr ⟨filledTransactions, filled, distinct, ⟨fees, checks, sum⟩,
      ⟨claimed, coinbaseSum, enough⟩, addressed, verified⟩

/-- A pool whose eligible transactions have one authorization for each input is aligned. -/
theorem templateAligned_of_counts (batch : Authorization.VerifyBatchExact) {mode : Overflow}
    {node : Node Authorization C S} {number : ℕ}
    (counted : ∀ transaction ∈ eligible mode node ∅ (node.mempool.take number),
      transaction.authorizations.length = transaction.transaction.inputs.length) :
    node.TemplateAligned mode number := by
  have validated := eligible_isOk mode node ∅ (node.mempool.take number)
  refine (State.authorizesAll_iff.mp ?_).1
  generalize eligible mode node ∅ (node.mempool.take number) = picked at counted validated
  induction picked with
  | nil => exact .nil
  | cons transaction picked ih =>
      obtain ⟨fee, accepted⟩ := Outcome.isOk_iff.mp (validated transaction List.mem_cons_self)
      have first := (validateTransaction_authorizesAll_iff batch accepted).mpr
        (counted transaction List.mem_cons_self)
      have rest := ih (fun later member => counted later (List.mem_cons_of_mem _ member))
        (fun later member => validated later (List.mem_cons_of_mem _ member))
      exact first.append rest

end

section

open Reference

/-- Two deposits belong to the key 7. -/
def twoDepositsBlock : Submission :=
  .extending (Node.new ()) ⟨[], [], []⟩ 1 (client [deposit 1 10, deposit 1 24] [] [])

def twoDepositsNode : Node Authorization Unit Unit := twoDepositsBlock.next .checked (Node.new ())

/-- The first transaction carries no authorization and the second one carries its own. -/
def unsigned : AuthorizedTransaction Authorization Unit :=
  ⟨⟨[depositOutPoint 10], [⟨⟨5⟩, .value 10⟩]⟩, []⟩

def signed : AuthorizedTransaction Authorization Unit :=
  authorize ⟨[depositOutPoint 24], [⟨⟨5⟩, .value 14⟩]⟩

def unsignedNode : Node Authorization Unit Unit :=
  (twoDepositsNode.submitTransaction .checked unsigned).toOption.getD twoDepositsNode

def shiftedNode : Node Authorization Unit Unit :=
  (unsignedNode.submitTransaction .checked signed).toOption.getD unsignedNode

def shiftedTemplate : List (AuthorizedTransaction Authorization Unit) × UInt64 ×
    Node Authorization Unit Unit :=
  (shiftedNode.getTransactions .checked 2).toOption.getD ([], 0, shiftedNode)

/-- The block and both transactions are accepted, and the template is returned. -/
theorem shifted_facts : twoDepositsBlock.accepted .checked (Node.new ()) = true ∧
    (twoDepositsNode.submitTransaction .checked unsigned).isOk = true ∧
    (unsignedNode.submitTransaction .checked signed).isOk = true ∧
    (shiftedNode.getTransactions .checked 2).isOk = true := by
  decide +kernel

theorem unsigned_submitted : twoDepositsNode.submitTransaction .checked unsigned =
    .ok unsignedNode :=
  Outcome.eq_ok_getD twoDepositsNode shifted_facts.2.1

theorem signed_submitted : unsignedNode.submitTransaction .checked signed = .ok shiftedNode :=
  Outcome.eq_ok_getD unsignedNode shifted_facts.2.2.1

theorem shiftedNode_run : Run .checked [twoDepositsBlock.receipt .checked (Node.new ())]
    shiftedNode := by
  have first := (Run.new ()).submission twoDepositsBlock shifted_facts.1
  exact (first.submitTransaction unsigned_submitted).submitTransaction signed_submitted

theorem shiftedTemplate_returned : shiftedNode.getTransactions .checked 2 =
    .ok (shiftedTemplate.1, shiftedTemplate.2.1, shiftedTemplate.2.2) := by
  rw [Prod.mk.eta, shiftedTemplate]
  exact Outcome.eq_ok_getD ([], 0, shiftedNode) shifted_facts.2.2.2

theorem template_valid_shifted :
    shiftedNode.state.validateBody .checked (Body.new shiftedTemplate.1 []) =
      .ok shiftedTemplate.2.1 ↔
      shiftedNode.TemplateAligned .checked 2 :=
  template_valid_iff verifyBatch_exact shiftedNode_run shiftedTemplate_returned [] (Nat.zero_le _)

/-- The authorization of the second transaction falls on the input of the first one. -/
theorem template_invalid :
    ¬ (∀ (history : List (Receipt Authorization Unit)) (node next : Node Authorization Unit Unit)
      (number : ℕ)
        (transactions : List (AuthorizedTransaction Authorization Unit)) (fee : UInt64)
          (coinbase : List (Output Unit)),
        Run .checked history node → node.getTransactions .checked number =
          .ok (transactions, fee, next) →
        Overflow.exactSum (coinbase.map getValue) ≤ fee.toNat →
        node.state.validateBody .checked (Body.new transactions coinbase) = .ok fee) ∧
    shiftedTemplate.1.map (·.transaction) = [unsigned.transaction, signed.transaction] ∧
    shiftedNode.state.validateBody .checked (Body.new shiftedTemplate.1 []) =
      .error (.error .authorizationError) := by
  have rejected : shiftedNode.state.validateBody .checked (Body.new shiftedTemplate.1 []) =
      .error (.error .authorizationError) := by decide +kernel
  refine ⟨fun claim => ?_, by decide +kernel, rejected⟩
  have accepted := claim _ shiftedNode _ 2 _ _ [] shiftedNode_run shiftedTemplate_returned
    (Nat.zero_le _)
  rw [rejected] at accepted
  cases accepted

end

end Node

end Ddk
