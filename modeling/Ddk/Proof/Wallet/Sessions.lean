import Ddk.Construction.Client
import Ddk.Proof.Node.Runs
import Ddk.Proof.Wallet.Payments

namespace Ddk

open Foundation

/-- A filtered copy of a table has exactly the entries that pass the filter. -/
theorem getElem?_putAll_filter {K V : Type} [LinearOrder K] (table : Database K V)
    (keep : K × V → Bool) {key : K}
    {value : V} : (Database.putAll (∅ : HashMap K V) (table.toList.filter keep))[key]? =
      some value ↔
      table[key]? = some value ∧ keep (key, value) := by
  have distinct : ((table.toList.filter keep).map Prod.fst).Nodup :=
    (List.Sublist.map Prod.fst List.filter_sublist).nodup (Database.entries_nodup table)
  constructor
  · intro found
    rcases Database.putAll_origin found with member | none
    · obtain ⟨listed, kept⟩ := List.mem_filter.mp member
      exact ⟨Database.mem_entries_iff.mp listed, kept⟩
    · rw [Std.ExtTreeMap.getElem?_empty] at none
      cases none
  · intro parts
    exact Database.getElem?_putAll_of_mem distinct
      (List.mem_filter.mpr ⟨Database.mem_entries_iff.mpr parts.1, parts.2⟩)

section

variable [Bitcoin] {A C S : Type}

/-- The node returns its outputs at the given addresses and no others. -/
theorem Node.getUtxosByAddresses_eq_some {node : Node A C S} {addresses : Finset Address}
    {outpoint : OutPoint}
    {output : Output C} : (node.getUtxosByAddresses addresses)[outpoint]? = some output ↔
      node.state.utxos[outpoint]? = some output ∧ output.address ∈ addresses := by
  rw [getUtxosByAddresses, State.getUtxosByAddresses, getElem?_putAll_filter, decide_eq_true_eq]

namespace Wallet

variable {wallet : Wallet C}

theorem mem_getAddresses {address : Address} :
    address ∈ wallet.getAddresses ↔ ∃ index : HeightBytes,
      wallet.indexToAddress[index]? = some address := by
  rw [getAddresses, List.mem_toFinset, List.mem_map]
  constructor
  · intro listed
    obtain ⟨entry, member, rfl⟩ := listed
    exact ⟨entry.1, Database.mem_entries_iff.mp member⟩
  · intro stored
    obtain ⟨index, found⟩ := stored
    exact ⟨(index, address), Database.mem_entries_iff.mpr found, rfl⟩

/-- A refresh replaces the outputs at the addresses of the wallet. -/
theorem refresh_utxos (order : HashOrder OutPoint (Output C)) (node : Node A C S)
    (outpoint : OutPoint) :
    (wallet.refresh order node).utxos[outpoint]? =
      ((node.getUtxosByAddresses wallet.getAddresses)[outpoint]?).or wallet.utxos[outpoint]? :=
  order.getElem?_putAll _ _ _

/-- A prune keeps exactly the outputs whose names the node has. -/
theorem prune_utxos (order : HashOrder OutPoint (Output C)) (node : Node A C S)
    (outpoint : OutPoint) :
    (wallet.prune order node).utxos[outpoint]? =
      if (node.state.utxos[outpoint]?).isSome then wallet.utxos[outpoint]? else none := by
  have copied : wallet.getUtxos = wallet.utxos := HashOrder.putAll_iter .byKey wallet.utxos
  have spent : outpoint ∈ node.getSpentUtxos ((order.iter wallet.utxos).map Prod.fst) ↔
      (∃ output, wallet.utxos[outpoint]? = some output) ∧ node.state.utxos[outpoint]? = none := by
    rw [Node.getSpentUtxos, List.mem_filter, order.mem_keys, Option.isNone_iff_eq_none]
  change (wallet.utxos.deleteAll _)[outpoint]? = _
  rw [Database.getElem?_deleteAll, copied]
  split
  next gone => rw [(spent.mp gone).2, Option.isSome_none, if_neg Bool.false_ne_true]
  next kept =>
    cases present : node.state.utxos[outpoint]? with
    | some output => rfl
    | none =>
        cases stored : wallet.utxos[outpoint]? with
        | none => rfl
        | some output => exact absurd (spent.mpr ⟨⟨output, stored⟩, present⟩) kept

end Wallet

end

section

variable [Bitcoin] [Ed25519] [Bip32] [Blake3] {A C S : Type}

namespace Wallet

/-- Each listed address is the one of the key at its index. -/
def Derived (wallet : Wallet C) : Prop :=
  ∀ (bytes : HeightBytes) (address : Address), wallet.indexToAddress[bytes]? = some address →
    ∃ keypair, wallet.getKeypair (readU32 bytes) = .ok keypair ∧
      Authorization.getAddress keypair.publicKey = address

/-- A new address keeps the listed ones, also when its index is in use. -/
theorem Derived.getNewAddress {mode : Overflow} {wallet next : Wallet C} {address : Address}
    (derived : wallet.Derived) (made : wallet.getNewAddress mode = .ok (address, next)) :
    next.Derived ∧ next.utxos = wallet.utxos ∧ wallet.getAddresses ⊆ next.getAddresses := by
  obtain ⟨index, keypair, _, found, hashed, rfl⟩ := getNewAddress_eq_ok.mp made
  refine ⟨fun bytes other listed => ?_, rfl, fun other member => ?_⟩
  · rw [Database.getElem?_put] at listed
    split at listed
    next same =>
      cases listed
      rw [same, readU32_toBeBytes]
      exact ⟨keypair, found, hashed⟩
    next => exact derived bytes other listed
  · obtain ⟨bytes, listed⟩ := mem_getAddresses.mp member
    refine mem_getAddresses.mpr ⟨bytes, ?_⟩
    rw [Database.getElem?_put]
    split
    next same =>
      obtain ⟨earlier, reached, named⟩ := derived bytes other listed
      rw [same, readU32_toBeBytes, found] at reached
      cases reached
      rw [← named, hashed]
    next => exact listed

variable [Bincode C]

/-- A backed wallet holds outputs that a history created at its own addresses. -/
structure Backed (history : List (Receipt A C)) (wallet : Wallet C) : Prop where
  created : ∀ (outpoint : OutPoint) (output : Output C), wallet.utxos[outpoint]? = some output →
    (outpoint, output) ∈ History.createdEntries history
  addressed : ∀ (outpoint : OutPoint) (output : Output C), wallet.utxos[outpoint]? = some output →
    output.address ∈ wallet.getAddresses
  derived : wallet.Derived
  indexed : wallet.Indexed

/-- A wallet without outputs and addresses is backed. -/
theorem Backed.of_empty {history : List (Receipt A C)} {wallet : Wallet C}
    (utxos : wallet.utxos = ∅) (addresses : wallet.addressToIndex = ∅)
    (indices : wallet.indexToAddress = ∅) :
    wallet.Backed history := by
  refine ⟨fun outpoint _ found => ?_, fun outpoint _ found => ?_, fun bytes _ found => ?_,
    .of_empty addresses indices⟩
  · rw [utxos, Std.ExtTreeMap.getElem?_empty] at found
    cases found
  · rw [utxos, Std.ExtTreeMap.getElem?_empty] at found
    cases found
  · rw [indices, Std.ExtTreeMap.getElem?_empty] at found
    cases found

end Wallet

namespace Session

variable [CustomState S A C] [DecidableEq C] [Bincode C] [GetValue C] [GetAddress A] [Verify A C]
variable [Bs58]
variable {mode : Overflow} {history : List (Receipt A C)} {node : Node A C S} {wallet : Wallet C}

/-- The node of a session makes a run of its shared databases. -/
theorem state_run (session : Session mode history node wallet) :
    State.Run mode history node.state := by
  induction session with
  | new => exact .empty
  | pool _ _ ih => exact ih
  | submitBlock _ _ recorded committed ih =>
      obtain ⟨_, accepted, _⟩ := State.blockReceipt_describes recorded
      exact .block ih ⟨accepted, recorded, (Node.commitBlock_eq_ok.mp committed).connected⟩
  | setSeed _ _ ih => exact ih
  | getNewAddress _ _ ih => exact ih
  | refresh _ _ ih => exact ih
  | deleteUtxos _ _ ih => exact ih

/-- The blocks of a session deliver outputs with deposit names only. -/
theorem deposits_named (session : Session mode history node wallet) :
    ∀ entry ∈ History.depositEntries history, ∃ name, entry.1 = .deposit name := by
  induction session with
  | new => simp [History.depositEntries]
  | pool _ _ ih => exact ih
  | submitBlock _ fetched recorded _ ih =>
      obtain ⟨_, _, _, describes⟩ := State.blockReceipt_describes recorded
      intro entry member
      rcases List.mem_append.mp member with here | earlier
      · dsimp only at here
        rw [describes.deposits] at here
        exact Drivechain.getTwoWayPegData_named (Outcome.convert_eq_ok.mp fetched) entry here
      · exact ih entry earlier
  | setSeed _ _ ih => exact ih
  | getNewAddress _ _ ih => exact ih
  | refresh _ _ ih => exact ih
  | deleteUtxos _ _ ih => exact ih

/-- Each output of the node was created by a block. -/
theorem utxos_created (session : Session mode history node wallet) {outpoint : OutPoint}
    {output : Output C} (found : node.state.utxos[outpoint]? = some output) :
    (outpoint, output) ∈ History.createdEntries history :=
  session.state_run.accounts.authentic _
    (List.mem_append_left _ (List.mem_append_left _ (Database.mem_entries_iff.mpr found)))

/-- In every session, the wallet is backed. -/
theorem backed (session : Session mode history node wallet) : wallet.Backed history := by
  induction session with
  | new => exact .of_empty rfl rfl rfl
  | pool _ _ ih => exact ih
  | submitBlock _ _ _ _ ih =>
      refine ⟨fun outpoint output found => ?_, ih.addressed, ih.derived, ih.indexed⟩
      rw [History.createdEntries, List.flatMap_cons]
      exact List.mem_append_right _ (ih.created outpoint output found)
  | setSeed _ _ _ => exact .of_empty rfl rfl rfl
  | getNewAddress _ made ih =>
      obtain ⟨derived, kept, grown⟩ := ih.derived.getNewAddress made
      refine ⟨fun outpoint output found => ?_, fun outpoint output found => ?_, derived,
        ih.indexed.getNewAddress made⟩
      · rw [kept] at found
        exact ih.created outpoint output found
      · rw [kept] at found
        exact grown (ih.addressed outpoint output found)
  | @refresh _ node wallet order session ih =>
      have origin (outpoint : OutPoint) (output : Output C)
          (found : (wallet.refresh order node).utxos[outpoint]? = some output) :
          (node.state.utxos[outpoint]? = some output ∧ output.address ∈ wallet.getAddresses) ∨
            wallet.utxos[outpoint]? = some output := by
        rw [Wallet.refresh_utxos, Option.or_eq_some_iff] at found
        rcases found with new | ⟨_, old⟩
        · exact .inl (Node.getUtxosByAddresses_eq_some.mp new)
        · exact .inr old
      refine ⟨fun outpoint output found => ?_, fun outpoint output found => ?_, ih.derived,
        ⟨ih.indexed.derived, ih.indexed.listed⟩⟩
      · rcases origin outpoint output found with ⟨present, _⟩ | old
        · exact session.utxos_created present
        · exact ih.created outpoint output old
      · rcases origin outpoint output found with ⟨_, own⟩ | old
        · exact own
        · exact ih.addressed outpoint output old
  | @deleteUtxos _ _ wallet outpoints _ ih =>
      have origin (outpoint : OutPoint) (output : Output C)
          (found : (wallet.deleteUtxos outpoints).utxos[outpoint]? = some output) :
          wallet.utxos[outpoint]? = some output := by
        change (wallet.utxos.deleteAll outpoints)[outpoint]? = some output at found
        rw [Database.getElem?_deleteAll] at found
        split at found
        next => cases found
        next => exact found
      exact ⟨fun outpoint output found => ih.created outpoint output (origin outpoint output found),
        fun outpoint output found => ih.addressed outpoint output (origin outpoint output found),
          ih.derived,
        ⟨ih.indexed.derived, ih.indexed.listed⟩⟩

/-- In every session, an output that wallet and node hold under one name is the same output. -/
theorem same_output (session : Session mode history node wallet) (named : History.WellNamed history)
    (delivered : ((History.depositEntries history).map Prod.fst).Nodup) {outpoint : OutPoint}
    {output other : Output C} (stored : wallet.utxos[outpoint]? = some output)
    (present : node.state.utxos[outpoint]? = some other) : other = output :=
  History.created_unique named ⟨session.deposits_named, delivered⟩ (session.utxos_created present)
    (session.backed.created _ _ stored)

/-- In every session, a refresh and a prune leave exactly the node's outputs at own addresses. -/
theorem synced_utxos (session : Session mode history node wallet)
    (named : History.WellNamed history)
    (delivered : ((History.depositEntries history).map Prod.fst).Nodup)
    (order other : HashOrder OutPoint (Output C)) :
    ((wallet.refresh order node).prune other node).utxos =
      node.getUtxosByAddresses wallet.getAddresses := by
  have refreshed := session.refresh order
  apply Std.ExtTreeMap.ext_getElem?
  intro outpoint
  apply Option.ext
  intro output
  rw [Wallet.prune_utxos, Node.getUtxosByAddresses_eq_some]
  cases present : node.state.utxos[outpoint]? with
  | none => simp
  | some found =>
      rw [Option.isSome_some, if_pos rfl]
      constructor
      · intro stored
        have same := refreshed.same_output named delivered stored present
        exact ⟨congrArg some same, refreshed.backed.addressed outpoint output stored⟩
      · intro owned
        rw [Wallet.refresh_utxos, Node.getUtxosByAddresses_eq_some.mpr
          ⟨present.trans owned.1, owned.2⟩]
        rfl

/-- In every session, a refresh and a prune leave the node's own-address outputs and their sum. -/
theorem synced (session : Session mode history node wallet) (named : History.WellNamed history)
    (delivered : ((History.depositEntries history).map Prod.fst).Nodup)
    (order other : HashOrder OutPoint (Output C)) :
    let owned := node.state.utxos.toList.filter fun entry => entry.2.address ∈ wallet.getAddresses
    let following := (wallet.refresh order node).prune other node
    following.utxos.toList = owned ∧
      following.getBalance mode = mode.sum (owned.map fun entry => getValue entry.2) := by
  intro owned following
  have listed : following.utxos.toList = owned := by
    have utxos : following.utxos = _ := session.synced_utxos named delivered order other
    rw [utxos]
    apply Database.toList_eq_of_sorted (node.state.utxos.entries_sorted.filter _)
    intro entry
    rw [Node.getUtxosByAddresses_eq_some, List.mem_filter, Database.mem_entries_iff,
      decide_eq_true_eq]
  exact ⟨listed, by rw [Wallet.getBalance, listed]⟩

/-- In every session, a pruned wallet has only outputs of the node at own addresses. -/
theorem pruned_owned (session : Session mode history node wallet)
    (named : History.WellNamed history)
    (delivered : ((History.depositEntries history).map Prod.fst).Nodup)
    (order : HashOrder OutPoint (Output C)) :
    (wallet.prune order node).OwnedIn node.state where
  present outpoint output found := by
    rw [Wallet.prune_utxos] at found
    cases present : node.state.utxos[outpoint]? with
    | none =>
        rw [present] at found
        cases found
    | some other =>
        rw [present] at found
        rw [session.same_output named delivered found present]
  addressed outpoint output found := by
    rw [Wallet.prune_utxos] at found
    split at found
    next => exact Wallet.mem_getAddresses.mp (session.backed.addressed outpoint output found)
    next => cases found

end Session

end

section

variable [Bitcoin] [Ed25519] [Bip32] [Blake3] [Rayon] {C S : Type} [CustomState S Authorization C]
variable [DecidableEq C]
variable [Bincode C] [GetValue C] [Bs58]

/-- In every session, the node accepts each payment of the pruned wallet with exactly its fee. -/
theorem Session.pays_accepted {mode : Overflow} {history : List (Receipt Authorization C)}
    {node : Node Authorization C S} {wallet : Wallet C} (session : Session mode history node wallet)
    (named : History.WellNamed history)
    (delivered : ((History.depositEntries history).map Prod.fst).Nodup)
    (signs : Wallet.SignThenVerify)
    (permitted : ∀ filledTransaction, CustomState.validateFilledTransaction
      (A := Authorization) node.customState
      node.archive.getHeight node.state filledTransaction = .ok ())
    (order : HashOrder OutPoint (Output C)) (orders : CoinOrders C) {payment : Wallet.Payment}
    (asked : payment.amount < 2 ^ 64) (bounded : (wallet.prune order node).spendableValue < 2 ^ 64)
    {transaction : Transaction C} {next : Wallet C}
    (paid : (wallet.prune order node).pay orders mode payment = .ok (transaction, next)) :
    ∃ authorized, next.authorize transaction = .ok authorized ∧
      authorized.transaction = transaction ∧
      node.validateTransaction mode authorized = .ok payment.fee := by
  have indexed :=
    (session.deleteUtxos
      (node.getSpentUtxos ((order.iter wallet.getUtxos).map Prod.fst))).backed.indexed
  have owned := session.pruned_owned named delivered order
  obtain ⟨coins, funded⟩ :=
    (Wallet.pay_pays orders mode indexed bounded asked).paid transaction next paid
  obtain ⟨authorized, signed, same, _, accepted⟩ := funded.accepted signs permitted indexed owned
  exact ⟨authorized, signed, same, accepted⟩

end

namespace Session

open Reference Node Wallet

/-- An accepted submission extends a session. -/
theorem submission {mode : Overflow} {history : List (Receipt Authorization Unit)}
    {node : Node Authorization Unit Unit} {wallet : Wallet Unit}
    (session : Session mode history node wallet) (submission : Submission)
    (accepted : submission.accepted mode node = true) :
    Session mode (submission.receipt mode node :: history) (submission.next mode node) wallet := by
  rw [Submission.accepted, Bool.and_eq_true, Bool.and_eq_true] at accepted
  exact .submitBlock session (Outcome.eq_ok_getD _ accepted.1.1) (Outcome.eq_ok_getD _ accepted.1.2)
    (Outcome.eq_ok_getD _ accepted.2)

/-- The second block pays nine units of the deposit to the wallet. -/
def payBlock : Submission :=
  .extending depositNode (Body.new [authorize ⟨[depositOutPoint 10], [⟨firstAddress.1, .value 9⟩]⟩]
    [⟨⟨5⟩, .value 1⟩]) 2 (client [deposit 1 10] [] [])

def payHistory : List (Receipt Authorization Unit) :=
  [payBlock.receipt .checked depositNode, depositBlock.receipt .checked (Node.new ())]

def payNode : Node Authorization Unit Unit := payBlock.next .checked depositNode

/-- Both blocks are accepted, and each deposit is delivered once. -/
theorem payHistory_facts : depositBlock.accepted .checked (Node.new ()) ∧
    payBlock.accepted .checked depositNode ∧
    ((History.depositEntries payHistory).map Prod.fst).Nodup := by
  decide +kernel

theorem pay_session : Session .checked payHistory payNode firstAddress.2 := by
  have started : Session .checked [] (Node.new () : Node Authorization Unit Unit) firstAddress.2 :=
    ((Session.new ()).setSeed _).getNewAddress firstAddress_made
  exact (started.submission depositBlock payHistory_facts.1).submission payBlock
    payHistory_facts.2.1

theorem pay_named : History.WellNamed payHistory :=
  ⟨by decide +kernel, by decide +kernel, by decide +kernel, by decide +kernel⟩

theorem pay_delivered : ((History.depositEntries payHistory).map Prod.fst).Nodup :=
  payHistory_facts.2.2

theorem synced_pay :
    ((firstAddress.2.refresh .byKey payNode).prune .byKey payNode).getBalance .checked =
      Overflow.checked.sum ((payNode.state.utxos.toList.filter fun entry =>
        entry.2.address ∈ firstAddress.2.getAddresses).map fun entry => getValue entry.2) :=
  (synced pay_session pay_named pay_delivered .byKey .byKey).2

def prunedWallet : Wallet Unit := (firstAddress.2.refresh .byKey payNode).prune .byKey payNode

def prunedPayment : Transaction Unit × Wallet Unit :=
  (prunedWallet.pay sampleOrders .checked samplePayment).toOption.getD (⟨[], []⟩, prunedWallet)

/-- The pruned wallet can pay, and the sum of its coins does not overflow. -/
theorem prunedPayment_facts : (prunedWallet.pay sampleOrders .checked samplePayment).isOk ∧
    prunedWallet.spendableValue < 2 ^ 64 := by
  decide +kernel

theorem prunedPayment_made :
    prunedWallet.pay sampleOrders .checked samplePayment =
      .ok (prunedPayment.1, prunedPayment.2) := by
  rw [Prod.mk.eta]
  exact Outcome.eq_ok_getD _ prunedPayment_facts.1

theorem pays_accepted_pay : ∃ authorized, prunedPayment.2.authorize prunedPayment.1 =
    .ok authorized ∧
    authorized.transaction = prunedPayment.1 ∧
      payNode.validateTransaction .checked authorized = .ok samplePayment.fee := by
  have asked : samplePayment.amount < 2 ^ 64 := by decide
  have refreshed : Session .checked payHistory payNode (firstAddress.2.refresh .byKey payNode) :=
    pay_session.refresh .byKey
  exact pays_accepted refreshed pay_named pay_delivered signThenVerify_reference
    (fun _ => rfl) .byKey sampleOrders
    asked prunedPayment_facts.2 prunedPayment_made

end Session

end Ddk
