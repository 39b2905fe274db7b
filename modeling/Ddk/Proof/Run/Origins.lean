import Ddk.Construction.History

namespace Ddk

open Foundation

variable [Bitcoin] {A C : Type}

/-- A numbered entry stands at its index. -/
theorem mem_numbered {name : UInt32 → OutPoint} {outputs : List (Output C)}
    {entry : OutPoint × Output C} :
    entry ∈ numbered name outputs ↔
      ∃ index, outputs[index]? = some entry.2 ∧ entry.1 = name (UInt32.ofNat index) := by
  simp only [numbered, List.mem_map, Prod.exists, List.mem_zipIdx_iff_getElem?]
  constructor
  · rintro ⟨output, index, found, rfl⟩
    exact ⟨index, found, rfl⟩
  · rintro ⟨index, found, named⟩
    exact ⟨entry.2, index, found, by rw [← named]⟩

/-- Different names number fewer outputs than a word counts. -/
theorem numbered_nodup {name : UInt32 → OutPoint} (injective : Function.Injective name)
    {outputs : List (Output C)} (bounded : outputs.length < 2 ^ 32) :
    ((numbered name outputs).map Prod.fst).Nodup := by
  have names : (numbered name outputs).map Prod.fst =
      (List.range' 0 outputs.length).map fun index => name (UInt32.ofNat index) := by
    rw [numbered, ← List.zipIdx_map_snd 0 outputs, List.map_map, List.map_map]
    rfl
  rw [names]
  refine List.Nodup.map_on ?_ (List.nodup_range')
  intro first firstMember second secondMember same
  have numbers := congrArg UInt32.toNat (injective same)
  rw [List.mem_range'_1] at firstMember secondMember
  rwa [UInt32.toNat_ofNat', UInt32.toNat_ofNat', Nat.mod_eq_of_lt (by omega),
    Nat.mod_eq_of_lt (by omega)] at numbers

section

variable [Blake3] [Bincode C]

/-- A block creates an output in its coinbase, in a transaction or from a deposit. -/
inductive Receipt.Creates (receipt : Receipt A C) (outpoint : OutPoint)
    (output : Output C) : Prop where
  | coinbase (vout : UInt32) (named : outpoint = .coinbase receipt.body.computeMerkleRoot vout)
      (listed : (outpoint, output) ∈ receipt.body.coinbaseOutputs)
  | regular (transaction : Transaction C) (vout : UInt32)
      (included : transaction ∈ receipt.body.transactions)
      (named : outpoint = .regular transaction.txid vout)
      (listed : (outpoint, output) ∈ transaction.createdOutputs)
  | deposit (listed : (outpoint, output) ∈ receipt.deposits.toList)

/-- The created entries are exactly those that the block creates. -/
theorem Receipt.mem_createdEntries {receipt : Receipt A C} {outpoint : OutPoint}
    {output : Output C} :
    (outpoint, output) ∈ receipt.createdEntries ↔ receipt.Creates outpoint output := by
  rw [Receipt.createdEntries, Body.createdOutputs, List.mem_append, List.mem_append,
    List.mem_flatMap]
  constructor
  · rintro ((listed | ⟨transaction, included, listed⟩) | listed)
    · obtain ⟨index, _, named⟩ := mem_numbered.mp listed
      exact .coinbase _ named listed
    · obtain ⟨index, _, named⟩ := mem_numbered.mp listed
      exact .regular transaction _ included named listed
    · exact .deposit listed
  · rintro (⟨_, _, listed⟩ | ⟨transaction, _, included, _, listed⟩ | listed)
    · exact .inl (.inl listed)
    · exact .inl (.inr ⟨transaction, included, listed⟩)
    · exact .inr listed

omit [Blake3] [Bincode C] in
/-- A name of another kind numbers no output. -/
theorem occurrences_numbered {name : UInt32 → OutPoint} {outputs : List (Output C)}
    {outpoint : OutPoint}
    (other : ∀ vout, outpoint ≠ name vout) : occurrences (numbered name outputs) outpoint = 0 := by
  apply occurrences_eq_zero
  intro member
  obtain ⟨entry, listed, rfl⟩ := List.mem_map.mp member
  obtain ⟨index, _, named⟩ := mem_numbered.mp listed
  exact other _ named

/-- Transactions with other names create no output with this name. -/
theorem occurrences_createdOutputs {transactions : List (Transaction C)} {outpoint : OutPoint}
    (other : ∀ transaction ∈ transactions, ∀ vout, outpoint ≠ .regular transaction.txid vout) :
    occurrences (transactions.flatMap Transaction.createdOutputs) outpoint = 0 := by
  induction transactions with
  | nil => rfl
  | cons transaction transactions ih =>
      rw [List.flatMap_cons, occurrences_append, ih fun later member =>
        other later (List.mem_cons_of_mem _ member)]
      exact occurrences_numbered (other transaction List.mem_cons_self)

namespace History

theorem mem_createdEntries {history : List (Receipt A C)} {outpoint : OutPoint}
    {output : Output C} :
    (outpoint, output) ∈ createdEntries history ↔ ∃ receipt ∈ history,
      receipt.Creates outpoint output := by
  simp only [createdEntries, List.mem_flatMap, Receipt.mem_createdEntries]

/-- The hashes of transactions and bodies do not collide, and output numbers do not wrap. -/
structure WellNamed (history : List (Receipt A C)) : Prop where
  txids : ∀ first ∈ transactions history, ∀ second ∈ transactions history,
    first.txid = second.txid → first = second
  merkleRoots : ∀ first ∈ history, ∀ second ∈ history,
    first.body.computeMerkleRoot = second.body.computeMerkleRoot →
      first.body.coinbase = second.body.coinbase ∧
        first.body.transactions = second.body.transactions
  outputs : ∀ transaction ∈ transactions history, transaction.outputs.length < 2 ^ 32
  coinbases : ∀ receipt ∈ history, receipt.body.coinbase.length < 2 ^ 32

/-- The peg data names deposits only, and it delivers each of them at most once. -/
structure DeliveredOnce (history : List (Receipt A C)) : Prop where
  named : ∀ entry ∈ depositEntries history, ∃ name, entry.1 = .deposit name
  distinct : ((depositEntries history).map Prod.fst).Nodup

variable {history : List (Receipt A C)}

omit [Blake3] [Bincode C] in
theorem mem_transactions {transaction : Transaction C} :
    transaction ∈ transactions history ↔ ∃ receipt ∈ history,
      transaction ∈ receipt.body.transactions := by
  simp [transactions]

omit [Blake3] [Bincode C] in
theorem mem_depositEntries {entry : OutPoint × Output C} :
    entry ∈ depositEntries history ↔ ∃ receipt ∈ history, entry ∈ receipt.deposits.toList := by
  simp [depositEntries]

/-- A history without its last block keeps the hash assumptions. -/
theorem WellNamed.tail {receipt : Receipt A C} {history : List (Receipt A C)}
    (free : WellNamed (receipt :: history)) : WellNamed history where
  txids first firstMember second secondMember :=
    free.txids first (List.mem_append_right _ firstMember) second
      (List.mem_append_right _ secondMember)
  merkleRoots first firstMember second secondMember :=
    free.merkleRoots first (List.mem_cons_of_mem _ firstMember) second
      (List.mem_cons_of_mem _ secondMember)
  outputs transaction member := free.outputs transaction (List.mem_append_right _ member)
  coinbases receipt member := free.coinbases receipt (List.mem_cons_of_mem _ member)

omit [Blake3] [Bincode C] in
/-- A history without its last block keeps the deposit assumptions. -/
theorem DeliveredOnce.tail {receipt : Receipt A C} {history : List (Receipt A C)}
    (delivered : DeliveredOnce (receipt :: history)) : DeliveredOnce history where
  named entry member := delivered.named entry (List.mem_append_right _ member)
  distinct := by
    have distinct := delivered.distinct
    rw [depositEntries, List.flatMap_cons, List.map_append] at distinct
    exact (List.nodup_append.mp distinct).2.1

/-- The coinbase outputs of a bounded body have distinct names. -/
theorem WellNamed.coinbase_nodup (free : WellNamed history) {receipt : Receipt A C}
    (member : receipt ∈ history) : (receipt.body.coinbaseOutputs.map Prod.fst).Nodup :=
  numbered_nodup (fun _ _ same => (OutPoint.coinbase.inj same).2) (free.coinbases receipt member)

/-- The outputs of a bounded transaction have distinct names. -/
theorem WellNamed.createdOutputs_nodup (free : WellNamed history) {transaction : Transaction C}
    (included : transaction ∈ transactions history) :
    (transaction.createdOutputs.map Prod.fst).Nodup :=
  numbered_nodup (fun _ _ same => (OutPoint.regular.inj same).2) (free.outputs transaction included)

/-- Every creation of one name creates the same output. -/
theorem created_unique (free : WellNamed history) (delivered : DeliveredOnce history)
    {outpoint : OutPoint} {first second : Output C}
    (left : (outpoint, first) ∈ createdEntries history)
    (right : (outpoint, second) ∈ createdEntries history) : first = second := by
  obtain ⟨receipt, member, created⟩ := mem_createdEntries.mp left
  obtain ⟨other, otherMember, again⟩ := mem_createdEntries.mp right
  have deposited {receipt : Receipt A C} {output : Output C} (member : receipt ∈ history)
      (listed : (outpoint, output) ∈ receipt.deposits.toList) : ∃ name, outpoint = .deposit name :=
    delivered.named (outpoint, output) (mem_depositEntries.mpr ⟨receipt, member, listed⟩)
  rcases created with ⟨vout, named, listed⟩ | ⟨transaction, vout, included, named, listed⟩ | listed
  · rcases again with ⟨index, renamed, relisted⟩ | ⟨_, _, _, renamed, _⟩ | relisted
    · have root := (OutPoint.coinbase.inj (named.symm.trans renamed)).1
      have same := (free.merkleRoots receipt member other otherMember root).1
      have coinbase : other.body.coinbaseOutputs = receipt.body.coinbaseOutputs := by
        rw [Body.coinbaseOutputs, Body.coinbaseOutputs, root, same]
      rw [coinbase] at relisted
      exact eq_of_occurrences_le_one (occurrences_le_one (free.coinbase_nodup member) _)
        listed relisted
    · cases named.symm.trans renamed
    · obtain ⟨name, renamed⟩ := deposited otherMember relisted
      cases named.symm.trans renamed
  · have known := mem_transactions.mpr ⟨receipt, member, included⟩
    rcases again with ⟨_, renamed, _⟩ | ⟨twin, index, reincluded, renamed, relisted⟩ | relisted
    · cases named.symm.trans renamed
    · have same := free.txids transaction known twin
        (mem_transactions.mpr ⟨other, otherMember, reincluded⟩)
        (OutPoint.regular.inj (named.symm.trans renamed)).1
      rw [← same] at relisted
      exact eq_of_occurrences_le_one (occurrences_le_one (free.createdOutputs_nodup known) _)
        listed relisted
    · obtain ⟨name, renamed⟩ := deposited otherMember relisted
      cases named.symm.trans renamed
  · obtain ⟨name, named⟩ := deposited member listed
    rcases again with ⟨_, renamed, _⟩ | ⟨_, _, _, renamed, _⟩ | relisted
    · cases named.symm.trans renamed
    · cases named.symm.trans renamed
    · exact eq_of_occurrences_le_one (occurrences_le_one delivered.distinct _)
        (mem_depositEntries.mpr ⟨receipt, member, listed⟩)
        (mem_depositEntries.mpr ⟨other, otherMember, relisted⟩)

/-- The creations of a deposit name are its deliveries. -/
theorem occurrences_deposit (name : Bitcoin.OutPoint) :
    occurrences (createdEntries history) (.deposit name) =
      occurrences (depositEntries history) (.deposit name) := by
  induction history with
  | nil => rfl
  | cons receipt history ih =>
      have coinbase : occurrences receipt.body.coinbaseOutputs (.deposit name) = 0 :=
        occurrences_numbered fun _ same => by cases same
      have regular : occurrences (receipt.body.transactions.flatMap Transaction.createdOutputs)
          (.deposit name) = 0 :=
        occurrences_createdOutputs fun _ _ _ same => by cases same
      rw [createdEntries, depositEntries, List.flatMap_cons, List.flatMap_cons, occurrences_append,
        occurrences_append, Receipt.createdEntries, Body.createdOutputs, occurrences_append,
        occurrences_append, coinbase, regular, Nat.zero_add]
      exact congrArg _ ih

end History

end

end Ddk
