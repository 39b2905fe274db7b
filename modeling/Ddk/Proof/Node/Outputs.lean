import Ddk.Proof.Node.Capacity
import Ddk.Proof.Node.Runs

namespace Ddk

open Foundation

section

variable [Bitcoin] {A C : Type} [Blake3] [Bincode C]

/-- This receipt only carries the contents of a body. -/
def Receipt.ofBody (body : Body A C) : Receipt A C := ⟨body, [], 0, ∅, none⟩

/-- A body creates new and distinct names, and its outputs replace exactly its inputs. -/
structure State.ConnectsExactly (state : State C) (body : Body A C) : Prop where
  distinct : (body.createdOutputs.map Prod.fst).Nodup
  unstored : ∀ outpoint ∈ body.createdOutputs.map Prod.fst, outpoint ∉ state.stored.map Prod.fst
  listed : body.getOutputs.toList.Perm body.createdOutputs
  apart : ∀ outpoint ∈ body.createdOutputs.map Prod.fst,
    (state.utxos.deleteAll body.getInputs)[outpoint]? = none
  updated : (state.connectBody body).utxos =
    (state.utxos.deleteAll body.getInputs).putAll body.getOutputs.toList

/-- A body repeats an output-creating transaction, or it repeats a transaction or a coinbase whose
outputs are still stored. -/
inductive Body.Repeats (history : List (Receipt A C)) (state : State C)
    (body : Body A C) : Prop where
  | within (transaction : Transaction C) (creates : transaction.outputs ≠ [])
      (twice : [transaction, transaction].Sublist body.transactions)
  | transaction (transaction : Transaction C) (included : transaction ∈ body.transactions)
      (before : transaction ∈ History.transactions history) (outpoint : OutPoint)
      (created : outpoint ∈ transaction.createdOutputs.map Prod.fst)
      (stored : outpoint ∈ state.stored.map Prod.fst)
  | coinbase (receipt : Receipt A C) (before : receipt ∈ history)
      (coinbase : receipt.body.coinbase = body.coinbase)
      (transactions : receipt.body.transactions = body.transactions) (outpoint : OutPoint)
      (created : outpoint ∈ body.coinbaseOutputs.map Prod.fst)
      (stored : outpoint ∈ state.stored.map Prod.fst)

namespace State

variable {state : State C} {body : Body A C} {history : List (Receipt A C)}

/-- Distinct names list each created output once. -/
theorem getOutputs_perm (distinct : (body.createdOutputs.map Prod.fst).Nodup) :
    body.getOutputs.toList.Perm body.createdOutputs := by
  have listed : body.getOutputs.toList.Perm
      (body.createdOutputs ++ (∅ : HashMap OutPoint (Output C)).toList) :=
    Database.toList_putAll_perm distinct fun _ _ => Std.ExtTreeMap.getElem?_empty
  rwa [Database.toList_empty, List.append_nil] at listed

/-- Distinct new names make the connection an exact update. -/
theorem connectBody_updated (distinct : (body.createdOutputs.map Prod.fst).Nodup)
    (found : ∀ input ∈ body.getInputs, (state.utxos[input]?).isSome)
    (fresh : ∀ outpoint ∈ body.createdOutputs.map Prod.fst, state.utxos[outpoint]? = none) :
    (state.connectBody body).utxos = (state.utxos.deleteAll body.getInputs).putAll
      body.getOutputs.toList := by
  have outputs := getOutputs_perm distinct
  have names := outputs.map Prod.fst
  apply Std.ExtTreeMap.ext_getElem?
  intro outpoint
  by_cases created : outpoint ∈ body.createdOutputs.map Prod.fst
  · have unspent : outpoint ∉ body.getInputs := by
      intro spent
      have present := found outpoint spent
      rw [fresh outpoint created] at present
      cases present
    obtain ⟨output, stored⟩ := Option.isSome_iff_exists.mp (connectBody_created created unspent)
    have listed : (outpoint, output) ∈ body.createdOutputs := by
      rcases connectBody_origin stored with new | old
      · exact new
      · rw [fresh outpoint created] at old
        cases old
    rw [stored]
    exact (Database.getElem?_putAll_of_mem (names.nodup_iff.mpr distinct)
      (outputs.mem_iff.mpr listed)).symm
  · rw [connectBody_kept created, Database.getElem?_putAll_of_notMem
      (fun listed => created (names.mem_iff.mp listed)),
      Database.getElem?_deleteAll]

/-- A body that connects exactly repeats nothing. -/
theorem ConnectsExactly.not_repeats (exact : state.ConnectsExactly body) :
    ¬ body.Repeats history state := by
  intro repeated
  cases repeated with
  | within transaction creates twice =>
      have regular := twice.flatMap Transaction.createdOutputs
      have names := (regular.trans (List.sublist_append_right body.coinbaseOutputs _)).map Prod.fst
      have distinct := exact.distinct.sublist names
      rw [List.flatMap_cons, List.flatMap_singleton, List.map_append, List.nodup_append] at distinct
      have present : transaction.createdOutputs.map Prod.fst ≠ [] := by
        intro empty
        apply creates
        rw [← List.length_eq_zero_iff, ← List.length_zipIdx, ← List.length_map, ← numbered,
          ← Transaction.createdOutputs, ← List.length_map, empty, List.length_nil]
      obtain ⟨name, member⟩ := List.exists_mem_of_ne_nil _ present
      exact distinct.2.2 name member name member rfl
  | transaction transaction included _ outpoint created stored =>
      apply exact.unstored outpoint _ stored
      rw [Body.createdOutputs, List.map_append, List.mem_append]
      obtain ⟨entry, listed, named⟩ := List.mem_map.mp created
      exact .inr
        (List.mem_map.mpr ⟨entry, List.mem_flatMap.mpr ⟨transaction, included, listed⟩, named⟩)
  | coinbase _ _ _ _ outpoint created stored =>
      apply exact.unstored outpoint _ stored
      rw [Body.createdOutputs, List.map_append, List.mem_append]
      exact .inl created

/-- Transactions of one name are equal, so unrepeated ones with outputs have distinct names. -/
theorem createdOutputs_distinct (free : History.WellNamed (Receipt.ofBody body :: history))
    (single : ∀ transaction : Transaction C, transaction.outputs ≠ [] →
      ¬ [transaction, transaction].Sublist body.transactions) :
    (body.createdOutputs.map Prod.fst).Nodup := by
  have known (transaction : Transaction C) (member : transaction ∈ body.transactions) :
      transaction ∈ History.transactions (Receipt.ofBody body :: history) :=
    List.mem_append_left _ member
  have regular : ((body.transactions.flatMap Transaction.createdOutputs).map Prod.fst).Nodup := by
    rw [List.map_flatMap, List.nodup_flatMap]
    refine ⟨fun transaction member => free.createdOutputs_nodup (known transaction member), ?_⟩
    rw [List.pairwise_iff_forall_sublist]
    intro first second pair outpoint left right
    obtain ⟨entry, listed, rfl⟩ := List.mem_map.mp left
    obtain ⟨other, relisted, renamed⟩ := List.mem_map.mp right
    obtain ⟨_, present, named⟩ := mem_numbered.mp listed
    obtain ⟨_, _, again⟩ := mem_numbered.mp relisted
    have same : first = second := by
      apply free.txids first (known first (pair.subset (by simp))) second
        (known second (pair.subset (by simp)))
      exact (OutPoint.regular.inj (named.symm.trans (renamed.symm.trans again))).1
    rw [← same] at pair
    exact single first (List.ne_nil_of_mem (List.mem_of_getElem? present)) pair
  rw [Body.createdOutputs, List.map_append, List.nodup_append]
  refine ⟨free.coinbase_nodup List.mem_cons_self, regular, ?_⟩
  intro name left other right same
  obtain ⟨entry, listed, rfl⟩ := List.mem_map.mp left
  obtain ⟨created, relisted, rfl⟩ := List.mem_map.mp right
  obtain ⟨transaction, _, numbered⟩ := List.mem_flatMap.mp relisted
  obtain ⟨_, _, named⟩ := mem_numbered.mp listed
  obtain ⟨_, _, renamed⟩ := mem_numbered.mp numbered
  cases named.symm.trans (same.trans renamed)

/-- Without repetition, no created name is stored. -/
theorem createdOutputs_unstored (free : History.WellNamed (Receipt.ofBody body :: history))
    (named : ∀ entry ∈ History.depositEntries history, ∃ name, entry.1 = OutPoint.deposit name)
    (authentic : ∀ entry ∈ state.stored, entry ∈ History.createdEntries history)
    (single : ¬ body.Repeats history state) :
    ∀ outpoint ∈ body.createdOutputs.map Prod.fst, outpoint ∉ state.stored.map Prod.fst := by
  intro outpoint created stored
  obtain ⟨entry, held, same⟩ := List.mem_map.mp stored
  obtain ⟨receipt, before, creation⟩ := History.mem_createdEntries.mp (authentic entry held)
  rw [same] at creation
  rw [Body.createdOutputs, List.map_append, List.mem_append] at created
  rcases created with coinbase | regular
  · obtain ⟨output, listed, called⟩ := List.mem_map.mp coinbase
    obtain ⟨_, _, numbered⟩ := mem_numbered.mp listed
    rw [called] at numbered
    rcases creation with ⟨_, renamed, _⟩ | ⟨_, _, _, renamed, _⟩ | delivered
    · obtain ⟨sameCoinbase, sameTransactions⟩ :=
        free.merkleRoots receipt (List.mem_cons_of_mem _ before)
        (Receipt.ofBody body) List.mem_cons_self
          (OutPoint.coinbase.inj (renamed.symm.trans numbered)).1
      exact single (.coinbase receipt before sameCoinbase sameTransactions outpoint coinbase stored)
    · cases numbered.symm.trans renamed
    · obtain ⟨name, renamed⟩ :=
        named _ (History.mem_depositEntries.mpr ⟨receipt, before, delivered⟩)
      cases numbered.symm.trans renamed
  · obtain ⟨output, listed, called⟩ := List.mem_map.mp regular
    obtain ⟨transaction, included, relisted⟩ := List.mem_flatMap.mp listed
    obtain ⟨_, _, numbered⟩ := mem_numbered.mp relisted
    rw [called] at numbered
    rcases creation with ⟨_, renamed, _⟩ | ⟨earlier, _, member, renamed, _⟩ | delivered
    · cases numbered.symm.trans renamed
    · have known := History.mem_transactions.mpr ⟨receipt, before, member⟩
      have twin : transaction = earlier := by
        apply free.txids transaction (List.mem_append_left _ included) earlier
          (List.mem_append_right _ known)
        exact (OutPoint.regular.inj (numbered.symm.trans renamed)).1
      exact single (.transaction transaction included (twin ▸ known) outpoint
        (List.mem_map.mpr ⟨output, relisted, called⟩) stored)
    · obtain ⟨name, renamed⟩ :=
        named _ (History.mem_depositEntries.mpr ⟨receipt, before, delivered⟩)
      cases numbered.symm.trans renamed

end State

namespace Node

variable {S : Type} [CustomState S A C] [GetValue C] [GetAddress A] [Verify A C] [DecidableEq C]
variable [Bs58]

/-- In every run, an accepted body updates exactly when it repeats nothing that is still stored. -/
theorem connectBody_exact_iff {mode : Overflow} {history : List (Receipt A C)} {node : Node A C S}
    (run : Run mode history node) {body : Body A C} {fees : UInt64}
    (accepted : node.state.validateBody mode body = .ok fees)
    (free : History.WellNamed (Receipt.ofBody body :: history)) :
    node.state.ConnectsExactly body ↔ ¬ body.Repeats history node.state := by
  refine ⟨State.ConnectsExactly.not_repeats, fun single => ?_⟩
  obtain ⟨filledTransactions, valid⟩ := State.validateBody_eq_ok.mp accepted
  have authentic : ∀ entry ∈ node.state.stored, entry ∈ History.createdEntries history :=
    fun entry stored => run.state_run.accounts.authentic entry (List.mem_append_left _ stored)
  have distinct := State.createdOutputs_distinct free fun transaction creates twice =>
    single (.within transaction creates twice)
  have unstored := State.createdOutputs_unstored free run.deposits_named authentic single
  have fresh : ∀ outpoint ∈ body.createdOutputs.map Prod.fst,
      node.state.utxos[outpoint]? = none := by
    intro outpoint created
    rw [← Option.not_isSome_iff_eq_none]
    intro present
    obtain ⟨output, found⟩ := Option.isSome_iff_exists.mp present
    exact unstored outpoint created
      (List.mem_map.mpr ⟨(outpoint, output), State.mem_stored.mpr (.inl found), rfl⟩)
  have found : ∀ input ∈ body.getInputs, (node.state.utxos[input]?).isSome := by
    intro input spent
    obtain ⟨transaction, included, member⟩ := List.mem_flatMap.mp spent
    obtain ⟨filled, _, success⟩ := forall₂_mem_left valid.filled included
    rw [← FilledTransaction.spentEntries_keys success] at member
    obtain ⟨entry, listed, rfl⟩ := List.mem_map.mp member
    rw [FilledTransaction.spentEntries_found success listed]
    rfl
  exact {
    distinct := distinct
    unstored := unstored
    listed := State.getOutputs_perm distinct
    apart := by
      intro outpoint created
      rw [Database.getElem?_deleteAll, fresh outpoint created, ite_self]
    updated := State.connectBody_updated distinct found fresh }

end Node

end

namespace Node

open Reference

def worthlessNode : Node Authorization Unit Unit := (worthlessBlock 1).next .checked (Node.new ())

def worthlessHistory : List (Receipt Authorization Unit) :=
  [(worthlessBlock 1).receipt .checked (Node.new ())]

theorem worthlessHistory_run : Run .checked worthlessHistory worthlessNode :=
  (Run.new ()).submission (worthlessBlock 1) (by decide +kernel)

theorem worthlessBody_accepted (state : State Unit) :
    state.validateBody .checked (worthlessBody 1) = .ok 0 :=
  freeBody_accepted state rfl

theorem worthlessHistory_wellNamed :
    History.WellNamed (Receipt.ofBody (worthlessBody 1) :: worthlessHistory) :=
  ⟨by decide +kernel, by decide +kernel, by decide +kernel, by decide +kernel⟩

theorem connectBody_exact_iff_worthless :
    worthlessNode.state.ConnectsExactly (worthlessBody 1) ↔
      ¬ (worthlessBody 1).Repeats worthlessHistory worthlessNode.state :=
  connectBody_exact_iff worthlessHistory_run (worthlessBody_accepted _) worthlessHistory_wellNamed

/-- A repeated body overwrites an unspent output. -/
theorem connectBody_overwrites :
    ¬ ∀ (history : List (Receipt Authorization Unit)) (node : Node Authorization Unit Unit)
        (body : Body Authorization Unit) (fees : UInt64), Run .checked history node →
      node.state.validateBody .checked body = .ok fees →
      History.WellNamed (Receipt.ofBody body :: history) →
      node.state.ConnectsExactly body := by
  intro claim
  have exact := claim _ worthlessNode (worthlessBody 1) 0 worthlessHistory_run
    (worthlessBody_accepted _)
    worthlessHistory_wellNamed
  have overwritten : ∃ outpoint ∈ (worthlessBody 1).createdOutputs.map Prod.fst,
      outpoint ∈ worthlessNode.state.stored.map Prod.fst := by decide +kernel
  obtain ⟨outpoint, created, stored⟩ := overwritten
  exact exact.unstored outpoint created stored

end Node

end Ddk
