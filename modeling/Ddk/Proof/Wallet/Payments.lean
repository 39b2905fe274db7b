import Ddk.Construction.Reference
import Ddk.Proof.Node.Authorization
import Ddk.Proof.Wallet.Addresses
import Ddk.Proof.Wallet.Coins

namespace Ddk.Wallet

open Foundation

/-- Each batch of signatures by derived keys verifies. -/
def SignThenVerify [Ed25519] [Bip32] : Prop :=
  ∀ pairs : List (Bip32.ExtendedSecretKey × List UInt8),
    Ed25519.verifyBatch (pairs.map (·.2))
      (pairs.map fun pair => Bip32.sign (Bip32.secretKey pair.1) (Bip32.publicKey pair.1) pair.2)
      (pairs.map fun pair => Bip32.publicKey pair.1) = .ok ()

section

variable [Bitcoin] [Blake3] [Ed25519] [Bip32] {C : Type}

/-- Each stored output is present in the node and belongs to an address of the wallet. -/
structure OwnedIn (wallet : Wallet C) (state : State C) : Prop where
  present : ∀ (outpoint : OutPoint) (output : Output C), wallet.utxos[outpoint]? = some output →
    state.utxos[outpoint]? = some output
  addressed : ∀ (outpoint : OutPoint) (output : Output C), wallet.utxos[outpoint]? = some output →
    ∃ index : HeightBytes, wallet.indexToAddress[index]? = some output.address

omit [Blake3] in
/-- The key pair of an index comes from a derived key. -/
theorem getKeypair_derived {wallet : Wallet C} {index : UInt32} {keypair : Keypair}
    (derived : wallet.getKeypair index = .ok keypair) :
    ∃ child : Bip32.ExtendedSecretKey,
      keypair = ⟨Bip32.secretKey child, Bip32.publicKey child⟩ := by
  obtain ⟨_, _, derived⟩ := Outcome.bind_eq_ok.mp derived
  obtain ⟨_, _, derived⟩ := Outcome.bind_eq_ok.mp derived
  obtain ⟨child, _, derived⟩ := Outcome.bind_eq_ok.mp derived
  exact ⟨child, (Except.ok.inj derived).symm⟩

variable [Bincode C]

/-- This authorization signs a transaction with a derived key. -/
def signedBy (transaction : Transaction C) (child : Bip32.ExtendedSecretKey) : Authorization :=
  ⟨Bip32.publicKey child, Authorization.sign ⟨Bip32.secretKey child, Bip32.publicKey child⟩
    transaction⟩

/-- The key of an address in the index signs for an output to that address. -/
theorem authorizeInput_signs {wallet : Wallet C} (indexed : wallet.Indexed)
    (transaction : Transaction C) {coin : OutPoint × Output C}
    (stored : wallet.utxos[coin.1]? = some coin.2)
    (known : ∃ index, wallet.addressToIndex[coin.2.address]? = some index) :
    ∃ child, wallet.authorizeInput transaction coin.1 = .ok (signedBy transaction child) ∧
      Authorization.getAddress (Bip32.publicKey child) = coin.2.address := by
  obtain ⟨index, found⟩ := known
  obtain ⟨keypair, derived, hashed⟩ := indexed.derived coin.2.address index found
  obtain ⟨child, rfl⟩ := getKeypair_derived derived
  refine ⟨child, ?_, hashed⟩
  refine Outcome.bind_eq_ok.mpr ⟨coin.2, orError_eq_ok.mpr stored, ?_⟩
  refine Outcome.bind_eq_ok.mpr ⟨index, orError_eq_ok.mpr found, ?_⟩
  exact Outcome.bind_eq_ok.mpr ⟨_, derived, rfl⟩

/-- The wallet signs each coin with the key of its address. The induction is on the coins. -/
theorem authorize_signs {wallet : Wallet C} (indexed : wallet.Indexed) (transaction : Transaction C)
    {coins : List (OutPoint × Output C)}
    (stored : ∀ coin ∈ coins, wallet.utxos[coin.1]? = some coin.2)
    (known : ∀ coin ∈ coins, ∃ index, wallet.addressToIndex[coin.2.address]? = some index) :
    ∃ children : List Bip32.ExtendedSecretKey,
      (coins.map Prod.fst).mapM (wallet.authorizeInput transaction) =
        .ok (children.map (signedBy transaction)) ∧
      List.Forall₂ (fun child coin => Authorization.getAddress (Bip32.publicKey child) =
        coin.2.address)
        children coins := by
  induction coins with
  | nil => exact ⟨[], rfl, .nil⟩
  | cons coin coins ih =>
      obtain ⟨child, signed, hashed⟩ := authorizeInput_signs indexed transaction
        (stored coin List.mem_cons_self) (known coin List.mem_cons_self)
      obtain ⟨children, others, addressed⟩ :=
        ih (fun other member => stored other (List.mem_cons_of_mem _ member))
        fun other member => known other (List.mem_cons_of_mem _ member)
      refine ⟨child :: children, ?_, .cons hashed addressed⟩
      apply Outcome.mapM_eq_ok.mpr
      exact .cons signed (Outcome.mapM_eq_ok.mp others)

omit [Blake3] in
/-- The signatures of derived keys verify on their transaction. -/
theorem verify_signed (signs : SignThenVerify) (transaction : Transaction C)
    (children : List Bip32.ExtendedSecretKey) :
    Authorization.verifyAuthorizedTransaction ⟨transaction, children.map (signedBy transaction)⟩ =
      .ok () := by
  have batch := signs (children.map fun child => (child, Bincode.transaction transaction))
  simp only [List.map_map, Function.comp_def] at batch
  rw [Authorization.verifyAuthorizedTransaction, Authorization.Package.verify]
  simp only [List.map_map, Function.comp_def, List.length_map, signedBy, Authorization.sign]
  rw [← List.map_const', batch]
  rfl

end

section

variable [Bitcoin] [Blake3] [Ed25519] [Bip32] {C : Type} [GetValue C]

/-- A built payment spends coins of the wallet, and its outputs leave the fee. -/
structure Paid (wallet : Wallet C) (fee : UInt64) (coins : List (OutPoint × Output C))
    (transaction : Transaction C)
    (next : Wallet C) : Prop where
  inputs : transaction.inputs = coins.map Prod.fst
  owned : ∀ coin ∈ coins, wallet.utxos[coin.1]? = some coin.2
  balanced : totalValue coins = Overflow.exactSum (transaction.outputs.map getValue) + fee.toNat
  bounded : totalValue coins < 2 ^ 64
  grown : Grown wallet next

/-- The call lacks funds exactly below the amount, and each payment that it returns is paid. -/
structure Pays (wallet : Wallet C) (amount : ℕ) (fee : UInt64)
    (call : Outcome Error (Transaction C × Wallet C)) :
    Prop where
  short : call = Outcome.fail .notEnoughFunds ↔ wallet.spendableValue < amount
  paid : ∀ transaction next, call = .ok (transaction, next) →
    ∃ coins, Paid wallet fee coins transaction next

/-- A call pays when it funds the payment first and then keeps the coins and the change. -/
theorem Pays.of_funded (orders : CoinOrders C) (mode : Overflow) {wallet : Wallet C}
    (bounded : wallet.spendableValue < 2 ^ 64) {amount value fee : UInt64}
    (asked : value.toNat + fee.toNat ≤ amount.toNat)
    {build : List OutPoint × UInt64 → Outcome Error (Transaction C × Wallet C)}
    (funds : ∀ funded, build funded ≠ Outcome.fail .notEnoughFunds)
    (built : ∀ funded transaction next, build funded = .ok (transaction, next) →
      transaction.inputs = funded.1 ∧
      Overflow.exactSum (transaction.outputs.map getValue) = value.toNat + funded.2.toNat ∧
    Grown wallet next) :
    Pays wallet amount.toNat fee (wallet.fundPayment orders mode amount value fee >>= build) := by
  rcases wallet.fundPayment_cases orders mode bounded asked
    with ⟨short, failed⟩ | ⟨enough, coins, change, funded⟩
  · rw [failed]
    constructor
    · exact iff_of_true rfl short
    · intro transaction next success
      cases success
  · obtain ⟨found, covers⟩ := funded
    rw [found]
    change Pays wallet _ fee (build (coins.map Prod.fst, change))
    constructor
    · exact iff_of_false (funds _) (by omega)
    · intro transaction next success
      obtain ⟨inputs, outputs, grown⟩ := built _ transaction next success
      change _ = value.toNat + change.toNat at outputs
      refine ⟨coins, inputs, covers.owned, ?_, covers.bounded, grown⟩
      rw [covers.balanced, outputs]
      omega

/-- A transaction to another address pays. -/
theorem createTransaction_pays (orders : CoinOrders C) (mode : Overflow) {wallet : Wallet C}
    (indexed : wallet.Indexed) (bounded : wallet.spendableValue < 2 ^ 64) (address : Address)
    {value fee : UInt64} (asked : value.toNat + fee.toNat < 2 ^ 64) :
    Pays wallet (value.toNat + fee.toNat) fee
      (wallet.createTransaction orders mode address value fee) := by
  have amount : (value + fee).toNat = value.toNat + fee.toNat := by
    rw [UInt64.toNat_add, Nat.mod_eq_of_lt asked]
  rw [createTransaction, Overflow.add_of_fits mode asked, ← amount]
  change Pays wallet _ fee (wallet.fundPayment orders mode (value + fee) value fee >>= _)
  apply Pays.of_funded orders mode bounded amount.ge
  · intro funded failed
    rcases Outcome.bind_eq_fail.mp failed with first | ⟨made, _, done⟩
    · exact getNewAddress_ne_funds mode wallet first
    · cases done
  · intro funded transaction next success
    obtain ⟨⟨changeAddress, after⟩, made, done⟩ := Outcome.bind_eq_ok.mp success
    cases done
    exact ⟨rfl, by simp [getValue], indexed.grown made⟩

/-- A withdrawal pays. Its mainchain fee is asked for and stays in the change. -/
theorem createWithdrawal_pays (orders : CoinOrders C) (mode : Overflow) {wallet : Wallet C}
    (indexed : wallet.Indexed) (bounded : wallet.spendableValue < 2 ^ 64)
    (mainAddress : Bitcoin.Address) {value mainFee fee : UInt64}
    (asked : value.toNat + fee.toNat + mainFee.toNat < 2 ^ 64) :
    Pays wallet (value.toNat + fee.toNat + mainFee.toNat) fee
      (wallet.createWithdrawal orders mode mainAddress value mainFee fee) := by
  have subtotal : (value + fee).toNat = value.toNat + fee.toNat := by
    rw [UInt64.toNat_add, Nat.mod_eq_of_lt (by omega)]
  have fits : (value + fee).toNat + mainFee.toNat < 2 ^ 64 := by omega
  have amount : (value + fee + mainFee).toNat = value.toNat + fee.toNat + mainFee.toNat := by
    rw [UInt64.toNat_add, Nat.mod_eq_of_lt fits, subtotal]
  rw [createWithdrawal, Overflow.add_of_fits mode (by omega)]
  change Pays wallet _ fee (mode.add (value + fee) mainFee >>= _)
  rw [Overflow.add_of_fits mode fits, ← amount]
  change Pays wallet _ fee (wallet.fundPayment orders mode (value + fee + mainFee) value fee >>= _)
  apply Pays.of_funded orders mode bounded (by omega)
  · intro funded failed
    rcases Outcome.bind_eq_fail.mp failed with first | ⟨made, _, failed⟩
    · exact getNewAddress_ne_funds mode wallet first
    · rcases Outcome.bind_eq_fail.mp failed with second | ⟨_, _, done⟩
      · exact getNewAddress_ne_funds mode made.2 second
      · cases done
  · intro funded transaction next success
    obtain ⟨⟨address, middle⟩, first, success⟩ := Outcome.bind_eq_ok.mp success
    obtain ⟨⟨changeAddress, after⟩, second, done⟩ := Outcome.bind_eq_ok.mp success
    cases done
    have grown := indexed.grown first
    exact ⟨rfl, by simp [getValue], grown.trans (grown.indexed.grown second)⟩

/-- Both kinds of payment pay. -/
theorem pay_pays (orders : CoinOrders C) (mode : Overflow) {wallet : Wallet C}
    (indexed : wallet.Indexed) (bounded : wallet.spendableValue < 2 ^ 64) {payment : Payment}
    (asked : payment.amount < 2 ^ 64) :
    Pays wallet payment.amount payment.fee (wallet.pay orders mode payment) := by
  cases payment with
  | transaction address value fee =>
      exact createTransaction_pays orders mode indexed bounded address asked
  | withdrawal mainAddress value mainFee fee =>
      exact createWithdrawal_pays orders mode indexed bounded mainAddress asked

variable [Bincode C] [Rayon] {S : Type} [CustomState S Authorization C]

/-- The wallet authorizes each input of its payment, and the node accepts it with its exact fee. -/
theorem Paid.accepted {mode : Overflow} {wallet next : Wallet C} {node : Node Authorization C S}
    {fee : UInt64} {coins : List (OutPoint × Output C)} {transaction : Transaction C}
    (signs : SignThenVerify)
    (permitted : ∀ filledTransaction, CustomState.validateFilledTransaction
      (A := Authorization) node.customState
      node.archive.getHeight node.state filledTransaction = .ok ())
    (indexed : wallet.Indexed) (owned : wallet.OwnedIn node.state)
    (paid : Paid wallet fee coins transaction next) :
    ∃ authorized, next.authorize transaction = .ok authorized ∧
      authorized.transaction = transaction ∧
      authorized.authorizations.length = transaction.inputs.length ∧
      node.validateTransaction mode authorized = .ok fee := by
  have stored : ∀ coin ∈ coins, next.utxos[coin.1]? = some coin.2 := by
    intro coin member
    rw [paid.grown.utxos]
    exact paid.owned coin member
  have known : ∀ coin ∈ coins, ∃ index, next.addressToIndex[coin.2.address]? = some index := by
    intro coin member
    obtain ⟨index, listed⟩ := owned.addressed coin.1 coin.2 (paid.owned coin member)
    exact paid.grown.kept coin.2.address (indexed.listed index coin.2.address listed)
  obtain ⟨children, signed, addressed⟩ :=
    authorize_signs paid.grown.indexed transaction stored known
  rw [← paid.inputs] at signed
  refine ⟨⟨transaction, children.map (signedBy transaction)⟩, ?_, rfl, ?_, ?_⟩
  · exact Outcome.bind_eq_ok.mpr ⟨_, signed, rfl⟩
  · rw [paid.inputs, List.length_map, List.length_map]
    exact addressed.length_eq
  · apply Node.validateTransaction_eq_ok.mpr
    refine ⟨⟨transaction, coins.map Prod.snd⟩, ?_⟩
    exact {
      filled := by
        refine State.fillTransaction_eq_ok.mpr ⟨rfl, ?_⟩
        rw [paid.inputs, List.forall₂_map_left_iff, List.forall₂_map_right_iff, List.forall₂_same]
        exact fun coin member => owned.present coin.1 coin.2 (paid.owned coin member)
      addressed := by
        have related :
            List.Forall₂ (fun authorization utxo => getAddress authorization = Output.address utxo)
              (children.map (signedBy transaction)) (coins.map Prod.snd) := by
          rw [List.forall₂_map_left_iff, List.forall₂_map_right_iff]
          exact addressed
        exact fun _ member => (List.forall₂_iff_zip.mp related).2 member
      verified := verify_signed signs transaction children
      custom := permitted _
      valued := by
        have worth : Overflow.exactSum ((coins.map Prod.snd).map getValue) = totalValue coins := by
          rw [List.map_map]
          rfl
        have balanced := paid.balanced
        have bounded := paid.bounded
        obtain ⟨valueIn, sumIn, countedIn⟩ :=
            Overflow.sum_of_fits (ε := State.Error) mode (worth.trans_lt bounded)
        obtain ⟨valueOut, sumOut, countedOut⟩ := Overflow.sum_of_fits (ε := State.Error) mode
          (show Overflow.exactSum (transaction.outputs.map getValue) < 2 ^ 64 by omega)
        have enough : valueOut ≤ valueIn := UInt64.le_iff_toNat_le.mpr (by omega)
        refine State.validateFilledTransaction_eq_ok.mpr
          ⟨valueIn, valueOut, sumIn, sumOut, enough, ?_⟩
        apply UInt64.toNat_inj.mp
        rw [UInt64.toNat_sub_of_le _ _ enough]
        omega }

/-- Every payment is accepted with exactly its fee, and it fails exactly for want of funds. -/
theorem pay_accepted {mode : Overflow} {wallet : Wallet C} (run : Run mode wallet)
    (signs : SignThenVerify) {node : Node Authorization C S}
    (permitted : ∀ filledTransaction, CustomState.validateFilledTransaction
      (A := Authorization) node.customState
      node.archive.getHeight node.state filledTransaction = .ok ())
    (owned : wallet.OwnedIn node.state) (orders : CoinOrders C) {payment : Payment}
    (asked : payment.amount < 2 ^ 64) (bounded : wallet.spendableValue < 2 ^ 64) :
    (∀ transaction next, wallet.pay orders mode payment = .ok (transaction, next) →
      ∃ authorized, next.authorize transaction = .ok authorized ∧
        authorized.transaction = transaction ∧
        authorized.authorizations.length = transaction.inputs.length ∧
        node.validateTransaction mode authorized = .ok payment.fee) ∧
    (wallet.pay orders mode payment = Outcome.fail .notEnoughFunds ↔
      wallet.spendableValue < payment.amount) := by
  have pays := pay_pays orders mode run.indexed bounded asked
  refine ⟨fun transaction next success => ?_, pays.short⟩
  obtain ⟨coins, paid⟩ := pays.paid transaction next success
  exact paid.accepted signs permitted run.indexed owned

end

section

open Reference

/-- The reference signatures verify. -/
theorem signThenVerify_reference : SignThenVerify := by
  intro (pairs : List (ℕ × List UInt8))
  have paired : (pairs.map fun pair => (pair.1, pair.2)) =
      (pairs.map fun pair => pair.1).zip (pairs.map (·.2)) :=
    (List.zip_map' ..).symm
  exact if_pos ⟨paired, by rw [List.length_map, List.length_map]⟩

/-- An address holds a coin and a withdrawal. -/
def heldUtxos (address : Address) : HashMap OutPoint (Output Unit) :=
  Database.putAll ∅ [(.deposit ⟨1, 0⟩, ⟨address, .value 10⟩),
    (.deposit ⟨2, 0⟩, ⟨address, .withdrawal 5 1 (9 : ℕ)⟩)]

def heldWallet (made : Address × Wallet Unit) : Wallet Unit :=
  made.2.putUtxos .byKey (heldUtxos made.1)

/-- The node knows the same outputs. -/
def heldNode (wallet : Wallet Unit) : Node Authorization Unit Unit :=
  { Node.new () with state := { State.empty with utxos := wallet.utxos } }

theorem heldWallet_owned {start : Wallet Unit} {made : Address × Wallet Unit}
    (success : start.getNewAddress .checked = .ok made) (fresh : start.utxos = ∅) :
    (heldWallet made).OwnedIn (heldNode (heldWallet made)).state where
  present _ _ found := found
  addressed outpoint output found := by
    obtain ⟨address, next⟩ := made
    obtain ⟨index, keypair, _, _, _, rfl⟩ := getNewAddress_eq_ok.mp success
    refine ⟨toBeBytes index, ?_⟩
    have listed : (heldUtxos address)[outpoint]? = some output := by
      change (start.utxos.putAll (HashOrder.byKey.iter (heldUtxos address)))[outpoint]? =
        some output at found
      rw [fresh, HashOrder.putAll_iter] at found
      exact found
    have owner : output.address = address := by
      rcases Database.putAll_origin listed with member | absent
      · simp only [List.mem_cons, List.not_mem_nil, or_false, Prod.mk.injEq] at member
        rcases member with ⟨_, rfl⟩ | ⟨_, rfl⟩ <;> rfl
      · cases absent
    change (start.indexToAddress.insert (toBeBytes index) address)[toBeBytes index]? = _
    rw [Database.getElem?_put, if_pos rfl, owner]

def seededWallet : Wallet Unit := Wallet.empty.setSeed ⟨List.replicate 64 0, by decide⟩

def firstAddress : Address × Wallet Unit :=
  (seededWallet.getNewAddress .checked).toOption.getD (⟨0⟩, seededWallet)

theorem firstAddress_made : seededWallet.getNewAddress .checked = .ok firstAddress :=
  Outcome.eq_ok_getD _ (by decide +kernel)

/-- A withdrawal of five with a fee of one leaves four units. -/
def samplePayment : Payment := .withdrawal (9 : ℕ) 5 2 1

def sampleOrders : CoinOrders Unit := ⟨.insertion _, .byKey⟩

def paidTransaction : Transaction Unit × Wallet Unit :=
  ((heldWallet firstAddress).pay sampleOrders .checked samplePayment).toOption.getD
    (⟨[], []⟩, seededWallet)

theorem paidTransaction_made :
    (heldWallet firstAddress).pay sampleOrders .checked samplePayment = .ok paidTransaction :=
  Outcome.eq_ok_getD _ (by decide +kernel)

theorem pay_accepted_withdrawal :
    (∃ authorized, paidTransaction.2.authorize paidTransaction.1 = .ok authorized ∧
      authorized.transaction = paidTransaction.1 ∧
      authorized.authorizations.length = paidTransaction.1.inputs.length ∧
      (heldNode (heldWallet firstAddress)).validateTransaction .checked authorized = .ok 1) ∧
    ((heldWallet firstAddress).pay sampleOrders .checked samplePayment =
      Outcome.fail .notEnoughFunds ↔
      (heldWallet firstAddress).spendableValue < samplePayment.amount) := by
  have run : Run .checked (heldWallet firstAddress) :=
    ((Run.new.setSeed _).getNewAddress firstAddress_made).putUtxos .byKey _
  have owned := heldWallet_owned firstAddress_made rfl
  have asked : samplePayment.amount < 2 ^ 64 := by decide
  have bounded : (heldWallet firstAddress).spendableValue < 2 ^ 64 := by decide +kernel
  have accepted := pay_accepted run signThenVerify_reference
    (fun _ => rfl) owned sampleOrders asked bounded
  exact ⟨accepted.1 paidTransaction.1 paidTransaction.2 paidTransaction_made, accepted.2⟩

end

end Ddk.Wallet
