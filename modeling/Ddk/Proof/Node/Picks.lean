import Ddk.Proof.Authorization.Packaging
import Ddk.Proof.Node.Templates

namespace Ddk

open Foundation

section

variable [Bitcoin] {A C : Type} [Blake3] [Bincode C]

/-- Each pooled transaction has its own txid as its name. -/
def MemPool.Keyed (mempool : MemPool A C) : Prop :=
  ∀ (name : Hash) (transaction : AuthorizedTransaction A C),
    mempool.transactions[name]? = some transaction → transaction.transaction.txid.hash = name

namespace MemPool

/-- A deletion keeps the names. -/
theorem Keyed.delete {mempool : MemPool A C} (keyed : mempool.Keyed)
    (txid : Txid) : (mempool.delete txid).Keyed := by
  intro name transaction found
  rw [MemPool.delete, Database.getElem?_delete] at found
  split at found
  next => cases found
  next => exact keyed name transaction found

/-- A put names the transaction by its txid. -/
theorem Keyed.put {mempool next : MemPool A C} (keyed : mempool.Keyed)
    {transaction : AuthorizedTransaction A C}
    (success : mempool.put transaction = .ok next) : next.Keyed := by
  obtain ⟨marked, _, stored⟩ := Outcome.bind_eq_ok.mp success
  cases stored
  intro name other found
  rw [Database.getElem?_put] at found
  split at found
  next own =>
    cases found
    exact own.symm
  next => exact keyed name other found

/-- Each transaction that the mempool returns is stored under its txid. -/
theorem Keyed.take {mempool : MemPool A C} (keyed : mempool.Keyed) {number : ℕ}
    {transaction : AuthorizedTransaction A C} (member : transaction ∈ mempool.take number) :
    mempool.transactions[transaction.transaction.txid.hash]? = some transaction := by
  obtain ⟨entry, listed, rfl⟩ := List.mem_map.mp member
  have found := Database.mem_entries_iff.mp (List.mem_of_mem_take listed)
  rw [keyed entry.1 entry.2 found]
  exact found

/-- The returned transactions come in the order of their txids. -/
theorem Keyed.take_sorted {mempool : MemPool A C} (keyed : mempool.Keyed) (number : ℕ) :
    (mempool.take number).Pairwise fun first second =>
      first.transaction.txid.hash < second.transaction.txid.hash := by
  have ordered : mempool.transactions.toList.Pairwise fun first second =>
      compare first.1 second.1 = .lt :=
    Std.ExtTreeMap.ordered_keys_toList
  rw [MemPool.take, List.pairwise_map]
  apply (ordered.sublist (List.take_sublist number _)).imp_of_mem
  intro first second left right before
  have named (entry : Hash × AuthorizedTransaction A C)
      (listed : entry ∈ mempool.transactions.toList.take number) :
      entry.2.transaction.txid.hash = entry.1 :=
    keyed entry.1 entry.2 (Database.mem_entries_iff.mp (List.mem_of_mem_take listed))
  rw [named first left, named second right]
  exact compare_lt_iff_lt.mp before

end MemPool

end

namespace Node

section

variable [Bitcoin] {A C S : Type} [CustomState S A C]
variable [GetValue C] [GetAddress A] [Verify A C]

/-- The calls of the traits do not panic on a transaction, and its value sums fit the word size. -/
structure Checkable (node : Node A C S) (transaction : AuthorizedTransaction A C) : Prop where
  verified : (Verify.verifyTransaction transaction : Outcome (Verify.Error A C) Unit) ≠
    Outcome.panicked
  custom : ∀ filledTransaction, CustomState.validateFilledTransaction (A := A) node.customState
    node.archive.getHeight node.state filledTransaction ≠ Outcome.panicked
  fits : ∀ filledTransaction, node.state.fillTransaction transaction.transaction =
    .ok filledTransaction →
    State.valueIn filledTransaction < 2 ^ 64 ∧ State.valueOut filledTransaction < 2 ^ 64

/-- The check of such a transaction returns. -/
theorem Checkable.validateTransaction {mode : Overflow} {node : Node A C S}
    {transaction : AuthorizedTransaction A C}
    (checkable : node.Checkable transaction) : node.validateTransaction mode transaction ≠
      Outcome.panicked := by
  intro panics
  unfold Node.validateTransaction at panics
  simp only [State.checkAddresses, State.authorized, Outcome.bind_eq_panicked,
    Outcome.convert_eq_panicked, Outcome.convert_eq_ok, Outcome.ensure_ne_panicked,
    Outcome.ensure_eq_ok, checkable.verified, checkable.custom, false_or] at panics
  rcases panics with unfilled | ⟨filledTransaction, filled, _, _, _, _, _, _, valued⟩
  · rw [State.fillTransaction, Outcome.bind_eq_panicked] at unfilled
    rcases unfilled with missing | ⟨_, _, returned⟩
    · obtain ⟨input, _, failed⟩ := Outcome.mapM_eq_error missing
      unfold State.getUtxo at failed
      cases found : node.state.utxos[input]? with
      | none =>
          rw [found] at failed
          cases failed
      | some utxo =>
          rw [found] at failed
          cases failed
    · cases returned
  · obtain ⟨fitsIn, fitsOut⟩ := checkable.fits filledTransaction filled
    obtain ⟨totalIn, sumIn, _⟩ := Overflow.sum_of_fits (ε := State.Error) mode fitsIn
    obtain ⟨totalOut, sumOut, _⟩ := Overflow.sum_of_fits (ε := State.Error) mode fitsOut
    rcases Outcome.bind_eq_panicked.mp valued with overflow | ⟨_, _, valued⟩
    · rw [sumIn] at overflow
      cases overflow
    rcases Outcome.bind_eq_panicked.mp valued with overflow | ⟨_, _, valued⟩
    · rw [sumOut] at overflow
      cases overflow
    rcases Outcome.bind_eq_panicked.mp valued with refused | ⟨_, _, returned⟩
    · exact Outcome.ensure_ne_panicked.mp refused
    · cases returned

/-- The transactions that the template does not pick keep their order. -/
def rejected (mode : Overflow) (node : Node A C S) (spentUtxos : Finset OutPoint) :
    List (AuthorizedTransaction A C) → List (AuthorizedTransaction A C)
  | [] => []
  | transaction :: transactions =>
      let inputs := transaction.transaction.inputs.toFinset
      if Disjoint spentUtxos inputs ∧ (node.validateTransaction mode transaction).isOk then
        rejected mode node (spentUtxos ∪ inputs) transactions
      else transaction :: rejected mode node spentUtxos transactions

/-- Each transaction is picked or rejected, and not both. -/
theorem eligible_append_rejected (mode : Overflow) (node : Node A C S)
    (spentUtxos : Finset OutPoint) (transactions : List (AuthorizedTransaction A C)) :
    (eligible mode node spentUtxos transactions ++ rejected mode node spentUtxos transactions).Perm
      transactions := by
  induction transactions generalizing spentUtxos with
  | nil => exact .nil
  | cons transaction transactions ih =>
      rw [eligible, rejected]
      split
      next => exact (ih _).cons transaction
      next => exact List.perm_middle.trans ((ih spentUtxos).cons transaction)

/-- The picked transactions are a subsequence. -/
theorem eligible_sublist (mode : Overflow) (node : Node A C S) (spentUtxos : Finset OutPoint)
    (transactions : List (AuthorizedTransaction A C)) :
    (eligible mode node spentUtxos transactions).Sublist transactions := by
  induction transactions generalizing spentUtxos with
  | nil => exact .slnil
  | cons transaction transactions ih =>
      rw [eligible]
      split
      next => exact (ih _).cons_cons transaction
      next => exact (ih spentUtxos).cons transaction

/-- The picks of a longer list extend the picks of its beginning. -/
theorem eligible_append (mode : Overflow) (node : Node A C S) (spentUtxos : Finset OutPoint)
    (first last : List (AuthorizedTransaction A C)) :
    eligible mode node spentUtxos (first ++ last) =
      eligible mode node spentUtxos first ++
        eligible mode node (spentUtxos ∪
          ((eligible mode node spentUtxos first).flatMap (·.transaction.inputs)).toFinset)
            last := by
  induction first generalizing spentUtxos with
  | nil => simp [eligible]
  | cons transaction first ih =>
      rw [List.cons_append, eligible, eligible]
      split
      next => simp [ih, Finset.union_assoc]
      next => exact ih spentUtxos

/-- Each eligible transaction has a fee. -/
theorem eligible_fees (mode : Overflow) (node : Node A C S) (spentUtxos : Finset OutPoint)
    (transactions : List (AuthorizedTransaction A C)) :
    ∃ fees,
      List.Forall₂ (fun transaction fee => node.validateTransaction mode transaction = .ok fee)
      (eligible mode node spentUtxos transactions) fees := by
  induction transactions generalizing spentUtxos with
  | nil => exact ⟨[], .nil⟩
  | cons transaction transactions ih =>
      rw [eligible]
      split
      next accepted =>
        obtain ⟨fee, first⟩ := Outcome.isOk_iff.mp accepted.2
        obtain ⟨fees, rest⟩ := ih (spentUtxos ∪ transaction.transaction.inputs.toFinset)
        exact ⟨fee :: fees, .cons first rest⟩
      next => exact ih spentUtxos

/-- Among different transactions, a pick validates and spends no input of an earlier pick. -/
theorem mem_eligible_iff {mode : Overflow} {node : Node A C S}
    {first last : List (AuthorizedTransaction A C)} {transaction : AuthorizedTransaction A C}
    (distinct : (first ++ transaction :: last).Nodup) :
    transaction ∈ eligible mode node ∅ (first ++ transaction :: last) ↔
      (∃ fee, node.validateTransaction mode transaction = .ok fee) ∧
        ∀ earlier ∈ first, earlier ∈ eligible mode node ∅ (first ++ transaction :: last) →
          earlier.transaction.inputs.Disjoint transaction.transaction.inputs := by
  have fresh := (List.nodup_append.mp distinct).2.2
  have unique := (List.nodup_cons.mp (List.nodup_append.mp distinct).2.1).1
  rw [eligible_append, Finset.empty_union]
  -- The picks of the beginning are exactly the earlier picks of the whole list.
  have listed : ∀ earlier ∈ first, (earlier ∈ eligible mode node ∅ first ++ eligible mode node
      ((eligible mode node ∅ first).flatMap (·.transaction.inputs)).toFinset (transaction :: last) ↔
        earlier ∈ eligible mode node ∅ first) := by
    intro earlier member
    rw [List.mem_append, or_iff_left]
    intro later
    exact fresh earlier member earlier ((eligible_sublist mode node _ _).subset later) rfl
  have apart : Disjoint ((eligible mode node ∅ first).flatMap (·.transaction.inputs)).toFinset
        transaction.transaction.inputs.toFinset ↔
      ∀ earlier ∈ first, earlier ∈ eligible mode node ∅ first ++ eligible mode node
          ((eligible mode node ∅ first).flatMap (·.transaction.inputs)).toFinset
            (transaction :: last) →
        earlier.transaction.inputs.Disjoint transaction.transaction.inputs := by
    rw [Finset.disjoint_left]
    simp only [List.mem_toFinset, List.mem_flatMap]
    constructor
    · intro separate earlier member picked input spent
      exact separate ⟨earlier, (listed earlier member).mp picked, spent⟩
    · intro separate input used spent
      obtain ⟨earlier, picked, shared⟩ := used
      have member := (eligible_sublist mode node _ _).subset picked
      exact separate earlier member ((listed earlier member).mpr picked) shared spent
  rw [← apart, List.mem_append, or_iff_right fun early =>
    fresh transaction ((eligible_sublist mode node _ _).subset early) transaction
      List.mem_cons_self rfl,
    eligible, ← Outcome.isOk_iff]
  split
  next accepted => exact iff_of_true List.mem_cons_self accepted.symm
  next refused =>
    apply iff_of_false _ fun both => refused both.symm
    intro later
    exact unique ((eligible_sublist mode node _ _).subset later)

variable [Blake3] [Bincode C]

/-- A refused transaction leaves the mempool. -/
theorem pickTransaction_refused {mode : Overflow} {node : Node A C S} {template : Template A C}
    {transaction : AuthorizedTransaction A C}
    (calm : node.validateTransaction mode transaction ≠ Outcome.panicked)
    (refused : ¬ (Disjoint template.spentUtxos transaction.transaction.inputs.toFinset ∧
      (node.validateTransaction mode transaction).isOk)) :
    node.pickTransaction mode template transaction =
      .ok { template with mempool := template.mempool.delete transaction.transaction.txid } := by
  unfold pickTransaction
  dsimp only
  split
  next => rfl
  next apart =>
    cases validation : node.validateTransaction mode transaction with
    | ok fee =>
        rw [not_not] at apart
        exact absurd ⟨apart, by rw [validation]; rfl⟩ refused
    | error fault =>
        cases fault with
        | panic => exact absurd validation calm
        | error error => rfl

/-- An accepted transaction adds its fee and its inputs. -/
theorem pickTransaction_accepted {mode : Overflow} {node : Node A C S} {template : Template A C}
    {transaction : AuthorizedTransaction A C} {fee : UInt64}
    (apart : Disjoint template.spentUtxos transaction.transaction.inputs.toFinset)
    (valid : node.validateTransaction mode transaction = .ok fee)
    (fits : template.fee.toNat + fee.toNat < 2 ^ 64) :
    node.pickTransaction mode template transaction = .ok {
      fee := template.fee + fee
      returnedTransactions := template.returnedTransactions ++ [transaction]
      spentUtxos := template.spentUtxos ∪ transaction.transaction.inputs.toFinset
      mempool := template.mempool } := by
  obtain ⟨filledTransaction, checks⟩ := validateTransaction_eq_ok.mp valid
  obtain ⟨valueIn, valueOut, sumIn, sumOut, enough, difference⟩ :=
    State.validateFilledTransaction_eq_ok.mp checks.valued
  have passed : isErr (node.validateTransaction mode transaction) = .ok false := by
    rw [valid]
    rfl
  unfold pickTransaction
  dsimp only
  rw [if_neg (not_not.mpr apart), Outcome.bind_eq_ok]
  refine ⟨false, passed, ?_⟩
  rw [if_neg Bool.false_ne_true, Outcome.bind_eq_ok]
  refine ⟨filledTransaction, Outcome.convert_eq_ok.mpr checks.filled, ?_⟩
  rw [Outcome.bind_eq_ok]
  refine ⟨valueIn, Overflow.sum_retype sumIn, ?_⟩
  rw [Outcome.bind_eq_ok]
  refine ⟨valueOut, Overflow.sum_retype sumOut, ?_⟩
  rw [Outcome.bind_eq_ok]
  refine ⟨fee, ?_, ?_⟩
  · rw [← difference]
    exact Overflow.sub_of_le mode enough
  rw [Overflow.add_of_fits mode fits]
  rfl

/-- The loop returns the eligible transactions with their fees and evicts the rejected ones. -/
theorem foldlM_pickTransaction {mode : Overflow} {node : Node A C S} {template : Template A C}
    {pooled : List (AuthorizedTransaction A C)} {fees : List UInt64}
    (calm : ∀ transaction ∈ pooled, node.validateTransaction mode transaction ≠ Outcome.panicked)
    (valid : List.Forall₂ (fun transaction fee =>
      node.validateTransaction mode transaction = .ok fee)
      (eligible mode node template.spentUtxos pooled) fees)
    (fits : template.fee.toNat + Overflow.exactSum fees < 2 ^ 64) :
    ∃ result, pooled.foldlM (pickTransaction mode node) template = .ok result ∧
      result.returnedTransactions = template.returnedTransactions ++
        eligible mode node template.spentUtxos pooled ∧
      result.fee.toNat = template.fee.toNat + Overflow.exactSum fees ∧
      result.mempool = ⟨template.mempool.transactions.deleteAll
        ((rejected mode node template.spentUtxos pooled).map (·.transaction.txid.hash)),
        template.mempool.spentUtxos⟩ := by
  induction pooled generalizing template fees with
  | nil =>
      cases valid
      exact ⟨template, rfl, (List.append_nil _).symm, rfl, rfl⟩
  | cons transaction pooled ih =>
      have later := fun other member => calm other (List.mem_cons_of_mem _ member)
      rw [eligible] at valid ⊢
      rw [rejected]
      split at valid
      next accepted =>
        rw [if_pos accepted, if_pos accepted]
        obtain ⟨fee, rest, first, others, rfl⟩ := List.forall₂_cons_left_iff.mp valid
        rw [Overflow.exactSum_cons] at fits ⊢
        have bound : template.fee.toNat + fee.toNat < 2 ^ 64 := by omega
        have added : (template.fee + fee).toNat = template.fee.toNat + fee.toNat := by
          rw [UInt64.toNat_add, Nat.mod_eq_of_lt bound]
        have picked := pickTransaction_accepted accepted.1 first bound
        obtain ⟨result, looped, returned, charged, evicted⟩ := @ih {
          fee := template.fee + fee
          returnedTransactions := template.returnedTransactions ++ [transaction]
          spentUtxos := template.spentUtxos ∪ transaction.transaction.inputs.toFinset
          mempool := template.mempool } rest later others (by rw [added]; omega)
        refine ⟨result, Outcome.bind_eq_ok.mpr ⟨_, picked, looped⟩, ?_, ?_, evicted⟩
        · rw [returned, List.append_assoc]
          rfl
        · rw [charged, added]
          omega
      next refused =>
        rw [if_neg refused, if_neg refused]
        have picked := pickTransaction_refused (calm transaction List.mem_cons_self) refused
        obtain ⟨result, looped, returned, charged, evicted⟩ := @ih {
          template with mempool := template.mempool.delete transaction.transaction.txid } fees
            later valid fits
        exact ⟨result, Outcome.bind_eq_ok.mpr ⟨_, picked, looped⟩, returned, charged, evicted⟩

/-- A template is the greedy choice in txid order, and its mempool loses the other candidates. -/
structure Greedy (mode : Overflow) (node : Node A C S) (number : ℕ)
    (transactions : List (AuthorizedTransaction A C)) (fee : UInt64)
    (next : Node A C S) : Prop where
  sublist : transactions.Sublist (node.mempool.take number)
  sorted : transactions.Pairwise fun first second =>
    first.transaction.txid.hash < second.transaction.txid.hash
  picked : ∀ first transaction last, node.mempool.take number = first ++ transaction :: last →
    (transaction ∈ transactions ↔ (∃ fee, node.validateTransaction mode transaction = .ok fee) ∧
      ∀ earlier ∈ first, earlier ∈ transactions →
        earlier.transaction.inputs.Disjoint transaction.transaction.inputs)
  charged : ∃ fees,
    List.Forall₂ (fun transaction fee => node.validateTransaction mode transaction = .ok fee)
      transactions fees ∧ fee.toNat = Overflow.exactSum fees
  frame : next = { node with mempool := next.mempool } ∧
    next.mempool.spentUtxos = node.mempool.spentUtxos
  pooled : ∀ (name : Hash) (transaction : AuthorizedTransaction A C),
    next.mempool.transactions[name]? = some transaction ↔
      node.mempool.transactions[name]? = some transaction ∧
        (transaction ∈ node.mempool.take number → transaction ∈ transactions)

/-- The call returns a greedy template when no trait call panics and the sums fit. -/
theorem getTransactions_greedy {mode : Overflow} {node : Node A C S} (keyed : node.mempool.Keyed)
    {number : ℕ} (checkable : ∀ transaction ∈ node.mempool.take number, node.Checkable transaction)
    (fits : ∀ fees,
      List.Forall₂ (fun transaction fee => node.validateTransaction mode transaction = .ok fee)
      (eligible mode node ∅ (node.mempool.take number)) fees → Overflow.exactSum fees < 2 ^ 64) :
    ∃ transactions fee next, node.getTransactions mode number = .ok (transactions, fee, next) ∧
      Greedy mode node number transactions fee next := by
  have sorted := keyed.take_sorted number
  have distinct : (node.mempool.take number).Nodup := by
    apply sorted.imp
    intro first second before same
    rw [same] at before
    exact lt_irrefl _ before
  obtain ⟨fees, valid⟩ := eligible_fees mode node ∅ (node.mempool.take number)
  have bounded := fits fees valid
  obtain ⟨template, looped, returned, charged, evicted⟩ :=
    @foldlM_pickTransaction _ _ _ _ _ _ _ _ _ _ mode node ⟨0, [], ∅, node.mempool⟩
      (node.mempool.take number) fees
      (fun transaction member => (checkable transaction member).validateTransaction)
      valid (by rw [UInt64.toNat_zero, Nat.zero_add]; exact bounded)
  dsimp only at returned charged evicted
  rw [List.nil_append] at returned
  rw [UInt64.toNat_zero, Nat.zero_add] at charged
  refine ⟨eligible mode node ∅ (node.mempool.take number), template.fee,
    { node with mempool := template.mempool },
    getTransactions_eq_ok.mpr ⟨template, looped, returned, rfl, rfl⟩,
      eligible_sublist mode node ∅ _,
    sorted.sublist (eligible_sublist mode node ∅ _), ?_, ⟨fees, valid, charged⟩,
      ⟨rfl, by rw [evicted]⟩, ?_⟩
  · intro first transaction last split
    rw [split] at distinct ⊢
    exact mem_eligible_iff distinct
  · intro name transaction
    have removed : name ∈ (rejected mode node ∅ (node.mempool.take number)).map
        (·.transaction.txid.hash) →
        ∀ stored, node.mempool.transactions[name]? = some stored →
          stored ∈ rejected mode node ∅ (node.mempool.take number) := by
      intro named stored found
      obtain ⟨other, member, same⟩ := List.mem_map.mp named
      have taken := (eligible_append_rejected mode node ∅ _).subset (List.mem_append_right _ member)
      have own := keyed.take taken
      rw [same, found] at own
      cases own
      exact member
    have apart := List.nodup_append.mp
      ((eligible_append_rejected mode node ∅ (node.mempool.take number)).nodup_iff.mpr distinct)
    rw [evicted, Database.getElem?_deleteAll]
    constructor
    · intro found
      split at found
      next => cases found
      next kept =>
        refine ⟨found, fun taken => ?_⟩
        have divided := (eligible_append_rejected mode node ∅ _).symm.subset taken
        rcases List.mem_append.mp divided with picked | refused
        · exact picked
        · exact absurd (List.mem_map.mpr ⟨transaction, refused, keyed name transaction found⟩) kept
    · rintro ⟨found, kept⟩
      rw [if_neg, found]
      intro named
      have refused := removed named transaction found
      have taken := (eligible_append_rejected mode node ∅ _).subset
        (List.mem_append_right _ refused)
      exact apart.2.2 transaction (kept taken) transaction refused rfl

/-- Each pooled transaction of a run has its own txid as its name. -/
theorem Run.keyed [DecidableEq C] [Bs58] {mode : Overflow} {history : List (Receipt A C)}
    {node : Node A C S}
    (run : Run mode history node) : node.mempool.Keyed := by
  apply run.mempool_preserves
  · intro name transaction found
    simp [MemPool.empty] at found
  · intro mempool next transaction keyed stored
    exact keyed.put stored
  · intro mempool txid keyed
    exact keyed.delete txid

end

section

open Reference

/-- Both pooled transactions can be checked. -/
theorem shiftedNode_checkable : ∀ transaction ∈ shiftedNode.mempool.take 2,
    shiftedNode.Checkable transaction := by
  have bounded : ∀ transaction ∈ shiftedNode.mempool.take 2,
      ∀ filledTransaction ∈ (shiftedNode.state.fillTransaction transaction.transaction).toOption,
        State.valueIn filledTransaction < 2 ^ 64 ∧ State.valueOut filledTransaction < 2 ^ 64 := by
          decide +kernel
  intro transaction member
  constructor
  · intro panics
    cases Authorization.Package.verify_eq_error panics
  · intro filledTransaction panics
    cases panics
  · intro filledTransaction filled
    apply bounded transaction member filledTransaction
    rw [filled]
    rfl

theorem getTransactions_greedy_shifted :
    ∃ transactions fee next, shiftedNode.getTransactions .checked 2 =
      .ok (transactions, fee, next) ∧
      Greedy .checked shiftedNode 2 transactions fee next := by
  have bounded : ∀ fees ∈ ((eligible .checked shiftedNode ∅ (shiftedNode.mempool.take 2)).mapM
      (shiftedNode.validateTransaction .checked)).toOption,
          Overflow.exactSum fees < 2 ^ 64 := by decide +kernel
  apply getTransactions_greedy shiftedNode_run.keyed shiftedNode_checkable
  intro fees valid
  apply bounded fees
  rw [Outcome.mapM_eq_ok.mpr valid]
  rfl

end

end Node

end Ddk
