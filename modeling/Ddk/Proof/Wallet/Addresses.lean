import Ddk.Construction.Wallet
import Ddk.Proof.Node.Heights

namespace Ddk.Wallet

open Foundation

/-- A value is found, or the call fails with the given error. -/
theorem orError_eq_ok {α : Type} {value : Option α} {error : Error} {found : α} :
    orError value error = .ok found ↔ value = some found := by
  cases value <;> simp [orError, Outcome.fail]

variable [Bitcoin] [Ed25519] [Bip32] {C : Type}

variable [Blake3]

/-- A new address belongs to the key after the last index. -/
theorem getNewAddress_eq_ok {mode : Overflow} {wallet next : Wallet C} {address : Address} :
    wallet.getNewAddress mode = .ok (address, next) ↔
      ∃ index keypair, mode.add32 (ε := Error) wallet.getNumAddresses 1 = .ok index ∧
        wallet.getKeypair index = .ok keypair ∧
        Authorization.getAddress keypair.publicKey = address ∧
        { wallet with
          indexToAddress := wallet.indexToAddress.insert (toBeBytes index) address
          addressToIndex := wallet.addressToIndex.insert address (toBeBytes index) } = next := by
  simp only [getNewAddress, Outcome.bind_eq_ok, Outcome.pure_eq_ok, Prod.mk.injEq]
  constructor
  · intro steps
    obtain ⟨index, added, keypair, derived, rfl, rfl⟩ := steps
    exact ⟨index, keypair, added, derived, rfl, rfl⟩
  · intro steps
    obtain ⟨index, keypair, added, derived, rfl, rfl⟩ := steps
    exact ⟨index, added, keypair, derived, rfl, rfl⟩

/-- Each stored index derives the key of its address, and each listed address has an index. -/
structure Indexed (wallet : Wallet C) : Prop where
  derived : ∀ (address : Address) (bytes : HeightBytes),
    wallet.addressToIndex[address]? = some bytes →
    ∃ keypair, wallet.getKeypair (readU32 bytes) = .ok keypair ∧
      Authorization.getAddress keypair.publicKey = address
  listed : ∀ (bytes : HeightBytes) (address : Address),
    wallet.indexToAddress[bytes]? = some address →
    ∃ index, wallet.addressToIndex[address]? = some index

/-- A wallet without addresses has an empty index. -/
theorem Indexed.of_empty {wallet : Wallet C} (addresses : wallet.addressToIndex = ∅)
    (indices : wallet.indexToAddress = ∅) : wallet.Indexed := by
  constructor
  · intro address bytes found
    rw [addresses, Std.ExtTreeMap.getElem?_empty] at found
    cases found
  · intro bytes address found
    rw [indices, Std.ExtTreeMap.getElem?_empty] at found
    cases found

/-- A new address keeps the index. -/
theorem Indexed.getNewAddress {mode : Overflow} {wallet next : Wallet C} {address : Address}
    (indexed : wallet.Indexed) (made : wallet.getNewAddress mode = .ok (address, next)) :
    next.Indexed := by
  obtain ⟨index, keypair, _, derived, hashed, rfl⟩ := getNewAddress_eq_ok.mp made
  constructor
  · intro other bytes found
    rw [Database.getElem?_put] at found
    split at found
    next same =>
      cases found
      rw [readU32_toBeBytes]
      exact ⟨keypair, derived, hashed.trans same.symm⟩
    next => exact indexed.derived other bytes found
  · intro bytes other found
    rw [Database.getElem?_put] at found ⊢
    split at found
    next =>
      cases found
      exact ⟨_, if_pos rfl⟩
    next =>
      obtain ⟨earlier, present⟩ := indexed.listed bytes other found
      split
      next => exact ⟨_, rfl⟩
      next => exact ⟨earlier, present⟩

/-- Every wallet of a run keeps its index. -/
theorem Run.indexed [GetValue C] {mode : Overflow} {wallet : Wallet C}
    (run : Run mode wallet) : wallet.Indexed := by
  induction run with
  | new => exact Indexed.of_empty rfl rfl
  | setSeed => exact Indexed.of_empty rfl rfl
  | getNewAddress _ made ih => exact ih.getNewAddress made
  | putUtxos _ _ _ ih => exact ⟨ih.derived, ih.listed⟩
  | deleteUtxos _ _ ih => exact ⟨ih.derived, ih.listed⟩

/-- A later wallet has the same outputs and keeps the addresses. -/
structure Grown (wallet next : Wallet C) : Prop where
  indexed : next.Indexed
  utxos : next.utxos = wallet.utxos
  kept : ∀ address : Address, (∃ index, wallet.addressToIndex[address]? = some index) →
    ∃ index, next.addressToIndex[address]? = some index

theorem Grown.trans {first second third : Wallet C} (before : Grown first second)
    (after : Grown second third) :
    Grown first third where
  indexed := after.indexed
  utxos := after.utxos.trans before.utxos
  kept address present := after.kept address (before.kept address present)

/-- A new address adds to the addresses. -/
theorem Indexed.grown {mode : Overflow} {wallet next : Wallet C} {address : Address}
    (indexed : wallet.Indexed)
    (made : wallet.getNewAddress mode = .ok (address, next)) : Grown wallet next := by
  have kept := indexed.getNewAddress made
  obtain ⟨index, keypair, _, _, _, rfl⟩ := getNewAddress_eq_ok.mp made
  refine ⟨kept, rfl, fun other present => ?_⟩
  obtain ⟨earlier, found⟩ := present
  rw [Database.getElem?_put]
  split
  next => exact ⟨_, rfl⟩
  next => exact ⟨earlier, found⟩

/-- A new address never fails for want of funds. -/
theorem getNewAddress_ne_funds (mode : Overflow) (wallet : Wallet C) :
    wallet.getNewAddress mode ≠ Outcome.fail .notEnoughFunds := by
  have numbered : (mode.add32 wallet.getNumAddresses 1 : Outcome Error UInt32) ≠
      Outcome.fail .notEnoughFunds := by
    unfold Overflow.add32 Overflow.guard
    cases mode with
    | checked =>
        dsimp only
        split <;> simp [Outcome.panicked, Outcome.fail]
    | wrapping => simp [Outcome.fail]
  have missing {α : Type} (value : Option α) (error : Error) (other : error ≠ .notEnoughFunds) :
      orError value error ≠ Outcome.fail .notEnoughFunds := by
    cases value with
    | none => simpa [orError, Outcome.fail] using other
    | some value => simp [orError, Outcome.fail]
  intro failed
  rcases Outcome.bind_eq_fail.mp failed with first | ⟨index, _, failed⟩
  · exact numbered first
  · rcases Outcome.bind_eq_fail.mp failed with second | ⟨keypair, _, done⟩
    · rcases Outcome.bind_eq_fail.mp second with seedless | ⟨seed, _, second⟩
      · exact missing _ _ (by decide) seedless
      · rcases Outcome.bind_eq_fail.mp second with invalid | ⟨xpriv, _, second⟩
        · exact missing _ _ (by decide) invalid
        · rcases Outcome.bind_eq_fail.mp second with underived | ⟨child, _, done⟩
          · exact missing _ _ (by decide) underived
          · cases done
    · cases done

end Ddk.Wallet
