import Ddk.Proof.Wallet.Payments

namespace Ddk.Wallet

open Foundation

section

variable [Bitcoin] [Blake3] [Ed25519] [Bip32] {C : Type}

/-- The seed of a wallet derives an address at an index. -/
def Derives (wallet : Wallet C) (index : UInt32) (address : Address) : Prop :=
  ∃ keypair, wallet.getKeypair index = .ok keypair ∧
    Authorization.getAddress keypair.publicKey = address

/-- The seed of a wallet derives distinct addresses. A hardened index has 31 bits. -/
def Collisionless (wallet : Wallet C) : Prop :=
  ∀ (first second : UInt32) (address : Address), first.toNat < 2 ^ 31 → second.toNat < 2 ^ 31 →
    wallet.Derives first address → wallet.Derives second address → first = second

/-- The two tables number the addresses of the current seed from one to the last index. -/
structure Numbered (wallet : Wallet C) (recent : List Address) : Prop where
  indexes : ∀ bytes : HeightBytes,
    (∃ address : Address, wallet.indexToAddress[bytes]? = some address) ↔
    ∃ index, 0 < index ∧ index ≤ wallet.getNumAddresses ∧ toBeBytes index = bytes
  inverse : Database.Inverse wallet.indexToAddress wallet.addressToIndex
  derived : ∀ (index : UInt32) (address : Address),
    wallet.indexToAddress[toBeBytes index]? = some address →
    wallet.Derives index address
  recent : ∀ address : Address, address ∈ recent ↔ ∃ bytes : HeightBytes,
    wallet.indexToAddress[bytes]? = some address

/-- A wallet without addresses is numbered to zero. -/
theorem Numbered.of_empty {wallet : Wallet C} (indices : wallet.indexToAddress = ∅)
    (addresses : wallet.addressToIndex = ∅) : wallet.Numbered [] := by
  have none : wallet.getNumAddresses = 0 := by
    rw [getNumAddresses, indices, Database.last, Database.toList_empty]
    rfl
  constructor
  · intro bytes
    rw [indices, none]
    constructor
    · intro present
      obtain ⟨address, found⟩ := present
      rw [Std.ExtTreeMap.getElem?_empty] at found
      cases found
    · intro numbered
      obtain ⟨index, positive, bounded, _⟩ := numbered
      exact absurd positive (UInt32.not_lt.mpr bounded)
  · rw [indices, addresses]
    exact .empty
  · intro index address found
    rw [indices, Std.ExtTreeMap.getElem?_empty] at found
    cases found
  · intro address
    rw [indices]
    simp

section

variable {wallet : Wallet C} {recent : List Address} {index : UInt32} {address : Address}

/-- The index after the last one is free. -/
theorem Numbered.absent (numbered : wallet.Numbered recent)
    (above : index.toNat = wallet.getNumAddresses.toNat + 1) :
    wallet.indexToAddress[toBeBytes index]? = none := by
  apply Option.eq_none_iff_forall_ne_some.mpr
  intro other found
  obtain ⟨earlier, _, bounded, same⟩ := (numbered.indexes _).mp ⟨other, found⟩
  have equal := congrArg readU32 same
  rw [readU32_toBeBytes, readU32_toBeBytes] at equal
  rw [equal, UInt32.le_iff_toNat_le] at bounded
  omega

/-- The address after the last index is new. -/
theorem Numbered.fresh (distinct : wallet.Collisionless) (numbered : wallet.Numbered recent)
    (above : index.toNat = wallet.getNumAddresses.toNat + 1) (room : index.toNat < 2 ^ 31)
    (owner : wallet.Derives index address) (bytes : HeightBytes) :
    wallet.indexToAddress[bytes]? ≠ some address := by
  intro found
  obtain ⟨earlier, _, bounded, rfl⟩ := (numbered.indexes bytes).mp ⟨address, found⟩
  rw [UInt32.le_iff_toNat_le] at bounded
  have derived := numbered.derived earlier address found
  have same := distinct earlier index address (by omega) room derived owner
  rw [same] at bounded
  omega

/-- The new index is the last one. -/
theorem Numbered.last_put (numbered : wallet.Numbered recent)
    (above : index.toNat = wallet.getNumAddresses.toNat + 1) :
    Database.last (wallet.indexToAddress.insert (toBeBytes index) address) =
      some (toBeBytes index, address) := by
  apply Database.last_put
  intro other found stored
  obtain ⟨earlier, _, bounded, rfl⟩ := (numbered.indexes other).mp ⟨found, stored⟩
  apply toBeBytes_mono
  rw [UInt32.le_iff_toNat_le] at bounded ⊢
  omega

/-- The new index follows the indexes that are in use. -/
theorem Numbered.indexes_put (numbered : wallet.Numbered recent)
    (above : index.toNat = wallet.getNumAddresses.toNat + 1) (bytes : HeightBytes) :
    (∃ other, (wallet.indexToAddress.insert (toBeBytes index) address)[bytes]? = some other) ↔
      ∃ earlier : UInt32, 0 < earlier ∧ earlier ≤ index ∧ toBeBytes earlier = bytes := by
  rw [Database.getElem?_put]
  constructor
  · intro present
    split at present
    next own =>
      refine ⟨index, ?_, UInt32.le_refl index, own.symm⟩
      rw [UInt32.lt_iff_toNat_lt, above, UInt32.toNat_zero]
      exact Nat.succ_pos _
    next =>
      obtain ⟨earlier, positive, bounded, same⟩ := (numbered.indexes bytes).mp present
      refine ⟨earlier, positive, ?_, same⟩
      rw [UInt32.le_iff_toNat_le] at bounded ⊢
      omega
  · intro listed
    obtain ⟨earlier, positive, bounded, same⟩ := listed
    split
    next => exact ⟨address, rfl⟩
    next other =>
      refine (numbered.indexes bytes).mpr ⟨earlier, positive, ?_, same⟩
      have different : earlier ≠ index := by
        intro equal
        exact other (same.symm.trans (congrArg toBeBytes equal))
      have apart : earlier.toNat ≠ index.toNat := fun equal => different (UInt32.toNat_inj.mp equal)
      rw [UInt32.le_iff_toNat_le] at bounded ⊢
      omega

/-- The new address joins the recent ones. -/
theorem Numbered.recent_put (numbered : wallet.Numbered recent)
    (free : wallet.indexToAddress[toBeBytes index]? = none) (other : Address) :
    other ∈ address :: recent ↔
      ∃ bytes : HeightBytes, (wallet.indexToAddress.insert (toBeBytes index) address)[bytes]? =
        some other := by
  rw [List.mem_cons, numbered.recent]
  constructor
  · intro listed
    rcases listed with rfl | ⟨bytes, found⟩
    · refine ⟨toBeBytes index, ?_⟩
      rw [Database.getElem?_put, if_pos rfl]
    · refine ⟨bytes, ?_⟩
      rw [Database.getElem?_put, if_neg, found]
      intro own
      rw [own, free] at found
      cases found
  · intro present
    obtain ⟨bytes, found⟩ := present
    rw [Database.getElem?_put] at found
    split at found
    next =>
      cases found
      exact .inl rfl
    next => exact .inr ⟨bytes, found⟩

end

/-- The last index of the tables is the new one. -/
theorem Numbered.getNumAddresses_put {wallet : Wallet C} {recent : List Address} {index : UInt32}
    (numbered : wallet.Numbered recent) (above : index.toNat = wallet.getNumAddresses.toNat + 1)
    (address : Address) :
    getNumAddresses {
      wallet with
      indexToAddress := wallet.indexToAddress.insert (toBeBytes index) address
      addressToIndex := wallet.addressToIndex.insert address (toBeBytes index) } = index := by
  rw [getNumAddresses, numbered.last_put above]
  exact readU32_toBeBytes index

/-- A new address does not lower the number of addresses. -/
theorem getNumAddresses_le {mode : Overflow} {wallet next : Wallet C} {address : Address}
    (made : wallet.getNewAddress mode = .ok (address, next)) :
    wallet.getNumAddresses ≤ next.getNumAddresses := by
  obtain ⟨index, _, _, _, _, rfl⟩ := getNewAddress_eq_ok.mp made
  unfold getNumAddresses
  cases last : wallet.indexToAddress.last with
  | none => exact UInt32.zero_le
  | some entry =>
      have kept : ∃ value, (wallet.indexToAddress.insert (toBeBytes index) address)[entry.1]? =
          some value := by
        rw [Database.getElem?_put]
        split
        next => exact ⟨address, rfl⟩
        next => exact ⟨entry.2, Database.last_found last⟩
      obtain ⟨value, found⟩ := kept
      obtain ⟨greatest, latest, above⟩ := Database.le_last found
      rw [latest]
      exact readU32_mono above

/-- A new address keeps the seed, so it keeps the derivation. -/
theorem Collisionless.of_getNewAddress {mode : Overflow} {wallet next : Wallet C}
    {address : Address} (made : wallet.getNewAddress mode = .ok (address, next))
    (distinct : next.Collisionless) : wallet.Collisionless := by
  obtain ⟨_, _, _, _, _, rfl⟩ := getNewAddress_eq_ok.mp made
  exact distinct

/-- A new address has the next index, and no address since the seed repeats it. -/
theorem Numbered.getNewAddress {mode : Overflow} {wallet next : Wallet C} {recent : List Address}
    {address : Address} (distinct : wallet.Collisionless) (numbered : wallet.Numbered recent)
    (made : wallet.getNewAddress mode = .ok (address, next))
    (room : next.getNumAddresses.toNat < 2 ^ 31) :
    address ∉ recent ∧ next.Numbered (address :: recent) := by
  have low := UInt32.le_iff_toNat_le.mp (getNumAddresses_le made)
  obtain ⟨index, keypair, added, derived, hashed, rfl⟩ := getNewAddress_eq_ok.mp made
  have owner : wallet.Derives index address := ⟨keypair, derived, hashed⟩
  have above : index.toNat = wallet.getNumAddresses.toNat + 1 := by
    rw [Overflow.guard_value added, UInt32.toNat_add, UInt32.toNat_one]
    omega
  have count := numbered.getNumAddresses_put above address
  rw [count] at room
  have free := numbered.absent above
  have fresh := numbered.fresh distinct above room owner
  have newValue : wallet.addressToIndex[address]? = none := by
    apply Option.eq_none_iff_forall_ne_some.mpr
    intro bytes found
    exact fresh bytes ((numbered.inverse bytes address).mpr found)
  refine ⟨fun repeated => ?_, ?_, numbered.inverse.put free newValue, ?_, numbered.recent_put free⟩
  · obtain ⟨bytes, found⟩ := (numbered.recent address).mp repeated
    exact fresh bytes found
  · rw [count]
    exact numbered.indexes_put above
  · intro other found stored
    rw [Database.getElem?_put] at stored
    split at stored
    next own =>
      cases stored
      have same := congrArg readU32 own
      rw [readU32_toBeBytes, readU32_toBeBytes] at same
      rw [same]
      exact owner
    next => exact numbered.derived other found stored

/-- Each wallet of a run is numbered while its number of addresses fits the hardened indices. -/
theorem AddressRun.numbered {mode : Overflow} {issued : List (Option Seed × Address)}
    {recent : List Address} {wallet : Wallet C} (run : AddressRun mode issued recent wallet)
    (distinct : wallet.Collisionless)
    (room : wallet.getNumAddresses.toNat < 2 ^ 31) : wallet.Numbered recent ∧ recent.Nodup := by
  induction run with
  | new => exact ⟨.of_empty rfl rfl, List.nodup_nil⟩
  | setSeed => exact ⟨.of_empty rfl rfl, List.nodup_nil⟩
  | getNewAddress _ made ih =>
      have raised := UInt32.le_iff_toNat_le.mp (getNumAddresses_le made)
      have earlier := Collisionless.of_getNewAddress made distinct
      obtain ⟨numbered, apart⟩ := ih earlier (by omega)
      obtain ⟨fresh, next⟩ := numbered.getNewAddress earlier made room
      exact ⟨next, List.nodup_cons.mpr ⟨fresh, apart⟩⟩
  | putUtxos _ _ _ ih =>
      obtain ⟨numbered, apart⟩ := ih distinct room
      exact ⟨⟨numbered.indexes, numbered.inverse, numbered.derived, numbered.recent⟩, apart⟩
  | deleteUtxos _ _ ih =>
      obtain ⟨numbered, apart⟩ := ih distinct room
      exact ⟨⟨numbered.indexes, numbered.inverse, numbered.derived, numbered.recent⟩, apart⟩

/-- An authorization holds the key of its input's address and signs the transaction with it. -/
def SignsInput [Bincode C] (wallet : Wallet C) (transaction : Transaction C) (input : OutPoint)
    (authorization : Authorization) : Prop :=
  ∃ utxo index keypair, wallet.utxos[input]? = some utxo ∧ wallet.getKeypair index = .ok keypair ∧
    wallet.indexToAddress[toBeBytes index]? = some utxo.address ∧
    Authorization.getAddress keypair.publicKey = utxo.address ∧
    authorization = ⟨keypair.publicKey, Authorization.sign keypair transaction⟩

/-- A numbered wallet signs each input with the key of its address. -/
theorem Numbered.authorize [Bincode C] {wallet : Wallet C} {recent : List Address}
    (numbered : wallet.Numbered recent) {transaction : Transaction C}
    {authorized : AuthorizedTransaction Authorization C}
    (success : wallet.authorize transaction = .ok authorized) :
    authorized.transaction = transaction ∧
      List.Forall₂ (wallet.SignsInput transaction) transaction.inputs
        authorized.authorizations := by
  obtain ⟨authorizations, traversed, same⟩ := Outcome.bind_eq_ok.mp success
  cases same
  refine ⟨rfl, (Outcome.mapM_eq_ok.mp traversed).imp ?_⟩
  intro input authorization signed
  obtain ⟨utxo, spent, signed⟩ := Outcome.bind_eq_ok.mp signed
  obtain ⟨bytes, indexed, signed⟩ := Outcome.bind_eq_ok.mp signed
  obtain ⟨keypair, derived, signed⟩ := Outcome.bind_eq_ok.mp signed
  cases signed
  have listed := (numbered.inverse bytes utxo.address).mpr (orError_eq_ok.mp indexed)
  obtain ⟨index, _, _, rfl⟩ := (numbered.indexes bytes).mp ⟨utxo.address, listed⟩
  obtain ⟨child, generated, hashed⟩ := numbered.derived index utxo.address listed
  rw [readU32_toBeBytes, generated] at derived
  cases derived
  exact ⟨utxo, index, keypair, orError_eq_ok.mp spent, generated, listed, hashed, rfl⟩

/-- In every run, the tables number the addresses since the last seed, and inputs are signed. -/
theorem addresses_numbered [Bincode C] {mode : Overflow} {issued : List (Option Seed × Address)}
    {recent : List Address} {wallet : Wallet C} (run : AddressRun mode issued recent wallet)
    (distinct : wallet.Collisionless) (room : wallet.getNumAddresses.toNat < 2 ^ 31) :
    wallet.Numbered recent ∧ recent.Nodup ∧
      (∀ address next, wallet.getNewAddress mode = .ok (address, next) →
        next.getNumAddresses.toNat < 2 ^ 31 →
        address ∉ recent) ∧
      ∀ transaction authorized, wallet.authorize transaction = .ok authorized →
        authorized.transaction = transaction ∧
          List.Forall₂ (wallet.SignsInput transaction) transaction.inputs
            authorized.authorizations := by
  obtain ⟨numbered, apart⟩ := run.numbered distinct room
  refine ⟨numbered, apart, ?_, fun _ _ success => numbered.authorize success⟩
  intro address next made room
  exact (numbered.getNewAddress distinct made room).1

end

section

open Reference

/-- The digits of the first bytes stand above the digits of the other bytes. -/
theorem digits_append (first second : List UInt8) :
    digits (first ++ second) = digits first * 257 ^ second.length + digits second := by
  have above (start : ℕ) (bytes : List UInt8) :
      bytes.foldl (fun number byte => number * 257 + byte.toNat + 1) start =
        start * 257 ^ bytes.length + digits bytes := by
    induction bytes generalizing start with
    | nil => simp [digits]
    | cons byte bytes ih =>
        have whole := ih (0 * 257 + byte.toNat + 1)
        rw [← List.foldl_cons, ← digits] at whole
        rw [List.foldl_cons, ih, whole, List.length_cons, pow_succ]
        ring
  rw [digits, List.foldl_append, above, ← digits]

/-- The first four bytes of a key are the bytes of its index. -/
theorem digits_index (upper index : ℕ) :
    digits (leBytes 4 (upper * 2 ^ 32 + index)) =
      ((index % 256 * 257 + index / 256 % 256 + 258) * 257 + index / 256 / 256 % 256 + 1) * 257 +
        index / 256 / 256 / 256 % 256 + 1 := by
  have bytes (number : ℕ) : leBytes 4 number = [UInt8.ofNat number, UInt8.ofNat (number / 256),
      UInt8.ofNat (number / 256 / 256), UInt8.ofNat (number / 256 / 256 / 256)] := rfl
  have value (first second third fourth : UInt8) : digits [first, second, third, fourth] =
      ((first.toNat * 257 + second.toNat + 258) * 257 + third.toNat + 1) * 257 +
          fourth.toNat + 1 := by
    simp only [digits, List.foldl_cons, List.foldl_nil]
    omega
  have low (unit number : ℕ) : (upper * (256 * unit) + number) % 256 = number % 256 := by
    rw [Nat.mul_left_comm, Nat.add_comm, Nat.add_mul_mod_self_left]
  have high (unit number : ℕ) : (upper * (256 * unit) + number) / 256 =
      upper * unit + number / 256 := by
    rw [Nat.mul_left_comm, Nat.add_comm, Nat.add_mul_div_left _ _ (by decide), Nat.add_comm]
  have whole : 2 ^ 32 = 256 * (256 * (256 * (256 * 1))) := by decide
  rw [whole, bytes, value]
  simp only [UInt8.toNat_ofNat', Nat.reducePow, high, low]

/-- The digits of a key separate the bytes of its index from its other bytes. -/
theorem digits_key (upper : ℕ) (index : UInt32) :
    digits (leBytes 32 (upper * 2 ^ 32 + index.toNat)) =
      digits (leBytes 4 (upper * 2 ^ 32 + index.toNat)) * 257 ^ 28 + digits (leBytes 28 upper) := by
  have rest : (upper * 2 ^ 32 + index.toNat) / 256 / 256 / 256 / 256 = upper := by
    have limit := index.toNat_lt
    rw [Nat.div_div_eq_div_mul, Nat.div_div_eq_div_mul, Nat.div_div_eq_div_mul]
    norm_num
    omega
  have split (number : ℕ) :
      leBytes 32 number = leBytes 4 number ++ leBytes 28 (number / 256 / 256 / 256 / 256) := rfl
  rw [split, rest, digits_append, leBytes_length]

/-- Four digits of a small base fit an address. -/
theorem four_digits_lt {first second third fourth : ℕ} (one : first < 256) (two : second < 256)
    (three : third < 256) (four : fourth < 256) :
    ((first * 257 + second + 258) * 257 + third + 1) * 257 + fourth + 1 < 2 ^ 160 := by
  have bound : ((first * 257 + second + 258) * 257 + third + 1) * 257 + fourth + 1 < 2 ^ 40 := by
    omega
  exact bound.trans (by decide)

/-- The last digit of a number is unique. -/
theorem last_digit {upper lower above below : ℕ}
    (same : upper * 257 + lower + 1 = above * 257 + below + 1)
    (bound : lower < 256) (limit : below < 256) : upper = above ∧ lower = below := by omega

/-- Four bytes determine an index. -/
theorem index_of_bytes {first second : ℕ} (left : first < 2 ^ 32) (right : second < 2 ^ 32)
    (low : first % 256 * 257 + first / 256 % 256 + 258 = second % 256 * 257 +
      second / 256 % 256 + 258)
    (third : first / 256 / 256 % 256 = second / 256 / 256 % 256)
    (fourth : first / 256 / 256 / 256 % 256 = second / 256 / 256 / 256 % 256) : first = second := by
  omega

/-- The reference hash separates the keys of two indices. -/
theorem getAddress_injective (upper : ℕ) {first second : UInt32}
    (same : Authorization.getAddress (upper * 2 ^ 32 + first.toNat : ℕ) =
      Authorization.getAddress (upper * 2 ^ 32 + second.toNat : ℕ)) : first = second := by
  have hashed : digits (leBytes 32 (upper * 2 ^ 32 + first.toNat)) % 2 ^ 160 =
      digits (leBytes 32 (upper * 2 ^ 32 + second.toNat)) % 2 ^ 160 :=
    congrArg (fun address : Address => address.bytes.val) same
  rw [digits_key, digits_key] at hashed
  have low := Nat.ModEq.add_right_cancel' _ hashed
  have coprime : Nat.gcd (2 ^ 160) (257 ^ 28) = 1 := by decide +kernel
  have reduced := Nat.ModEq.cancel_right_of_coprime coprime low
  rw [digits_index, digits_index] at reduced
  have byte (number : ℕ) : number % 256 < 256 := Nat.mod_lt _ (by decide)
  have equal :=
    Nat.ModEq.eq_of_lt_of_lt reduced (four_digits_lt (byte _) (byte _) (byte _) (byte _))
    (four_digits_lt (byte _) (byte _) (byte _) (byte _))
  obtain ⟨upper, fourth⟩ := last_digit equal (byte _) (byte _)
  obtain ⟨rest, third⟩ := last_digit upper (byte _) (byte _)
  exact UInt32.toNat_inj.mp (index_of_bytes first.toNat_lt second.toNat_lt rest third fourth)

/-- An index below the highest bit keeps its number under that bit. -/
theorem childNumber_hardened {index : UInt32} (low : index.toNat < 2 ^ 31) :
    (childNumber (.hardened index)).toNat = 2 ^ 31 + index.toNat := by
  have mark : ((1 : UInt32) <<< 31).toNat = 2 ^ 31 * 1 := by decide
  rw [childNumber, UInt32.toNat_or, mark, ← Nat.two_pow_add_eq_or_of_lt low, Nat.mul_one]

/-- The path of an index stands above the index in the reference key. -/
theorem derives_reference {wallet : Wallet Unit} {index : UInt32} {address : Address} {seed : Seed}
    (seeded : wallet.seed = some seed) (derives : wallet.Derives index address) :
    Authorization.getAddress
      (childKey ([.hardened 1, .hardened 0, .hardened 0].foldl childKey (digits seed.val))
      (.hardened index)) = address := by
  obtain ⟨keypair, derived, hashed⟩ := derives
  obtain ⟨same, found, derived⟩ := Outcome.bind_eq_ok.mp derived
  obtain ⟨xpriv, parsed, derived⟩ := Outcome.bind_eq_ok.mp derived
  obtain ⟨child, path, returned⟩ := Outcome.bind_eq_ok.mp derived
  cases returned
  rw [seeded] at found
  cases found
  cases parsed
  cases path
  exact hashed

/-- The reference hash separates the addresses of each reference seed. -/
theorem collisionless_reference (wallet : Wallet Unit) : wallet.Collisionless := by
  intro first second address firstLow secondLow left right
  cases seeded : wallet.seed with
  | none =>
      obtain ⟨keypair, derived, _⟩ := left
      obtain ⟨seed, found, _⟩ := Outcome.bind_eq_ok.mp derived
      rw [seeded] at found
      cases found
  | some seed =>
      have same := (derives_reference seeded left).trans (derives_reference seeded right).symm
      have numbers := congrArg UInt32.toNat (getAddress_injective _ same)
      rw [childNumber_hardened firstLow, childNumber_hardened secondLow] at numbers
      exact UInt32.toNat_inj.mp (Nat.add_left_cancel numbers)

/-- The wallet of the first address holds two of its outputs. -/
theorem heldWallet_run :
    AddressRun .checked [(seededWallet.seed, firstAddress.1)] [firstAddress.1]
      (heldWallet firstAddress) :=
  ((AddressRun.new.setSeed _).getNewAddress firstAddress_made).putUtxos .byKey _

theorem addresses_numbered_held :
    (heldWallet firstAddress).Numbered [firstAddress.1] ∧ [firstAddress.1].Nodup ∧
      (∀ address next, (heldWallet firstAddress).getNewAddress .checked = .ok (address, next) →
        next.getNumAddresses.toNat < 2 ^ 31 → address ∉ [firstAddress.1]) ∧
      ∀ transaction authorized, (heldWallet firstAddress).authorize transaction = .ok authorized →
        authorized.transaction = transaction ∧
          List.Forall₂ ((heldWallet firstAddress).SignsInput transaction) transaction.inputs
            authorized.authorizations :=
  addresses_numbered heldWallet_run (collisionless_reference _) (by decide +kernel)

/-- The same seed is set twice, and the first address under it is returned twice. -/
theorem address_repeats :
    ¬ ∀ (issued : List (Option Seed × Address)) (recent : List Address) (wallet next : Wallet Unit)
      (address : Address),
      AddressRun .checked issued recent wallet → wallet.Collisionless →
        wallet.getNewAddress .checked = .ok (address, next) → next.getNumAddresses.toNat < 2 ^ 31 →
        (wallet.seed, address) ∉ issued := by
  intro claim
  have run := ((AddressRun.new.setSeed _).getNewAddress firstAddress_made).setSeed
    ⟨List.replicate 64 0, by decide⟩
  have room : firstAddress.2.getNumAddresses.toNat < 2 ^ 31 := by decide +kernel
  exact claim _ _ seededWallet firstAddress.2 firstAddress.1 run
    (collisionless_reference _) firstAddress_made room
    List.mem_cons_self

end

end Ddk.Wallet
