import Ddk.Construction.Wallet
import Ddk.Proof.State.ValueChecks

namespace Ddk.Wallet

open Foundation

variable [Bitcoin] {C : Type} [GetValue C]

/-- The selection may take each output that is no withdrawal. -/
def spendable (utxos : List (OutPoint × Output C)) : List (OutPoint × Output C) :=
  utxos.filter fun utxo => !utxo.2.content.isWithdrawal

/-- The loop takes spendable outputs while the total is up to the value and leaves some above it. -/
theorem selectLoop_takes (mode : Overflow) (value : UInt64) {total : UInt64}
    {utxos : List (OutPoint × Output C)}
    (bounded : total.toNat + totalValue (spendable utxos) < 2 ^ 64)
    (selected : HashMap OutPoint (Output C)) :
    ∃ taken rest final, spendable utxos = taken ++ rest ∧
      selectLoop mode value total selected utxos = .ok (final, selected.putAll taken) ∧
      final.toNat = total.toNat + totalValue taken ∧ (rest ≠ [] → value < final) ∧
      ∀ first coin last, taken = first ++ coin :: last →
        total.toNat + totalValue first ≤ value.toNat := by
  induction utxos generalizing total selected with
  | nil =>
      refine ⟨[], [], total, rfl, rfl, rfl, fun other => absurd rfl other,
        fun first coin last split => ?_⟩
      exact absurd split.symm
        (List.append_ne_nil_of_right_ne_nil first (List.cons_ne_nil coin last))
  | cons utxo utxos ih =>
      rw [selectLoop]
      by_cases withdrawal : utxo.2.content.isWithdrawal
      · have skipped : spendable (utxo :: utxos) = spendable utxos := by
          simp [spendable, withdrawal]
        rw [if_pos withdrawal, skipped]
        rw [skipped] at bounded
        exact ih bounded selected
      · have kept : spendable (utxo :: utxos) = utxo :: spendable utxos := by
          simp [spendable, withdrawal]
        rw [if_neg withdrawal, kept]
        rw [kept] at bounded
        by_cases enough : total > value
        · rw [if_pos enough]
          refine ⟨[], utxo :: spendable utxos, total, rfl, rfl, rfl, fun _ => enough,
            fun first coin last split => ?_⟩
          exact absurd split.symm
            (List.append_ne_nil_of_right_ne_nil first (List.cons_ne_nil coin last))
        · have single : totalValue (utxo :: spendable utxos) =
              (getValue utxo.2).toNat + totalValue (spendable utxos) := by
            rw [totalValue, List.map_cons, Overflow.exactSum_cons]
            rfl
          rw [if_neg enough]
          rw [single] at bounded
          have fits : total.toNat + (getValue utxo.2).toNat < 2 ^ 64 := by omega
          have counted : (total + getValue utxo.2).toNat = total.toNat +
              (getValue utxo.2).toNat := by
            rw [UInt64.toNat_add, Nat.mod_eq_of_lt fits]
          obtain ⟨taken, rest, final, split, looped, sum, left, needed⟩ :=
            ih (by rw [counted]; omega) (selected.insert utxo.1 utxo.2)
          refine ⟨utxo :: taken, rest, final, by rw [split, List.cons_append], ?_, ?_, left, ?_⟩
          · rw [Overflow.add_of_fits mode fits]
            exact looped
          · rw [sum, counted, totalValue, totalValue, List.map_cons, Overflow.exactSum_cons]
            omega
          · intro first coin last divided
            cases first with
            | nil => exact UInt64.le_iff_toNat_le.mp (UInt64.not_lt.mp enough)
            | cons head first =>
                obtain ⟨rfl, later⟩ := List.cons.inj divided
                have bound := needed first coin last later
                rw [counted] at bound
                rw [totalValue, List.map_cons, Overflow.exactSum_cons]
                change _ + (_ + totalValue first) ≤ _
                omega

/-- The spendable outputs of the wallet hold this value. -/
def spendableValue (wallet : Wallet C) : ℕ := totalValue (spendable wallet.utxos.toList)

/-- The coins of a selection are spendable outputs of the wallet and hold its total. -/
structure Selected (wallet : Wallet C) (total : UInt64)
    (coins : HashMap OutPoint (Output C)) : Prop where
  owned : ∀ (outpoint : OutPoint) (output : Output C), coins[outpoint]? = some output →
    wallet.utxos[outpoint]? = some output
  counted : totalValue coins.toList = total.toNat

/-- Sorting keeps the value of the spendable outputs. -/
theorem totalValue_spendable_sort (orders : CoinOrders C) (wallet : Wallet C) :
    totalValue (spendable (orders.sort.sort wallet.utxos.toList)) = wallet.spendableValue := by
  have same : (spendable (orders.sort.sort wallet.utxos.toList)).Perm
      (spendable wallet.utxos.toList) :=
    (orders.sort.perm wallet.utxos.toList).filter _
  exact ((same.map _).map _).sum_eq

/-- The selection takes the first of the sorted coins and fails when they do not reach the value. -/
theorem selectCoins_takes (orders : CoinOrders C) (mode : Overflow) (wallet : Wallet C)
    (bounded : wallet.spendableValue < 2 ^ 64) (value : UInt64) :
    ∃ taken rest total, spendable (orders.sort.sort wallet.utxos.toList) = taken ++ rest ∧
      wallet.selectCoins orders mode value =
        (Outcome.ensure (value ≤ total) Error.notEnoughFunds >>=
          fun _ => pure (total, Database.putAll ∅ taken)) ∧
      (value ≤ total ↔ value.toNat ≤ wallet.spendableValue) ∧ total.toNat = totalValue taken ∧
      (rest ≠ [] → value < total) ∧ ∀ first coin last, taken = first ++ coin :: last →
        totalValue first ≤ value.toNat := by
  have worth := totalValue_spendable_sort orders wallet
  have start : (0 : UInt64).toNat + totalValue (spendable (orders.sort.sort wallet.utxos.toList)) <
      2 ^ 64 := by
    rw [worth]
    simpa using bounded
  obtain ⟨taken, rest, total, split, looped, sum, left, needed⟩ :=
    selectLoop_takes mode value start ∅
  rw [UInt64.toNat_zero, Nat.zero_add] at sum
  refine ⟨taken, rest, total, split, ?_, ?_, sum, left, ?_⟩
  · rw [selectCoins, looped]
    rfl
  · rw [UInt64.le_iff_toNat_le, ← worth, split, totalValue_append, ← sum]
    constructor
    · omega
    · intro enough
      by_cases done : rest = []
      · rw [done, totalValue_nil, Nat.add_zero] at enough
        exact enough
      · exact (UInt64.lt_iff_toNat_lt.mp (left done)).le
  · intro first coin last divided
    have bound := needed first coin last divided
    rwa [UInt64.toNat_zero, Nat.zero_add] at bound

/-- The first of the sorted coins are coins of the wallet with distinct names. -/
theorem taken_owned (orders : CoinOrders C) (wallet : Wallet C)
    {taken rest : List (OutPoint × Output C)}
    (split : spendable (orders.sort.sort wallet.utxos.toList) = taken ++ rest) :
    (∀ coin ∈ taken, wallet.utxos[coin.1]? = some coin.2) ∧ (taken.map Prod.fst).Nodup := by
  have sorted := orders.sort.perm wallet.utxos.toList
  have part : taken.Sublist (orders.sort.sort wallet.utxos.toList) := by
    have prefixed : taken.Sublist (spendable (orders.sort.sort wallet.utxos.toList)) := by
      rw [split]
      exact List.sublist_append_left _ _
    exact prefixed.trans List.filter_sublist
  constructor
  · intro coin member
    exact Database.mem_entries_iff.mp (sorted.mem_iff.mp (part.subset member))
  · exact (part.map _).nodup ((sorted.map Prod.fst).nodup_iff.mpr (Database.entries_nodup _))

omit [GetValue C] in
/-- The map of some coins with distinct names lists exactly them. -/
theorem toList_coins {coins : List (OutPoint × Output C)} (distinct : (coins.map Prod.fst).Nodup) :
    (Database.putAll (∅ : HashMap OutPoint (Output C)) coins).toList.Perm coins := by
  have fresh : ∀ key ∈ coins.map Prod.fst, (∅ : HashMap OutPoint (Output C))[key]? = none :=
    fun _ _ => by simp
  have listed := Database.toList_putAll_perm distinct fresh
  rwa [Database.toList_empty, List.append_nil] at listed

/-- The selection fails exactly when the spendable outputs do not reach the value. -/
theorem selectCoins_cases (orders : CoinOrders C) (mode : Overflow) (wallet : Wallet C)
    (bounded : wallet.spendableValue < 2 ^ 64) (value : UInt64) :
    (wallet.spendableValue < value.toNat ∧
      wallet.selectCoins orders mode value = Outcome.fail .notEnoughFunds) ∨
    (value.toNat ≤ wallet.spendableValue ∧ ∃ total coins,
      wallet.selectCoins orders mode value = .ok (total, coins) ∧
      value ≤ total ∧ wallet.Selected total coins) := by
  obtain ⟨taken, rest, total, split, steps, reaches, sum, _, _⟩ :=
    wallet.selectCoins_takes orders mode bounded value
  obtain ⟨owned, distinct⟩ := taken_owned orders wallet split
  have selected : wallet.Selected total (Database.putAll ∅ taken) := by
    constructor
    · intro outpoint output found
      rcases Database.putAll_origin found with member | absent
      · exact owned (outpoint, output) member
      · cases absent
    · have listed := toList_coins distinct
      have counted : totalValue (Database.putAll ∅ taken).toList = totalValue taken :=
        ((listed.map _).map _).sum_eq
      exact counted.trans sum.symm
  rw [steps]
  by_cases enough : value ≤ total
  · right
    refine ⟨reaches.mp enough, total, Database.putAll ∅ taken, ?_, enough, selected⟩
    rw [Outcome.ensure, if_pos enough]
    rfl
  · left
    refine ⟨by have below := mt reaches.mpr enough; omega, ?_⟩
    rw [Outcome.ensure, if_neg enough]
    rfl

/-- The coins are outputs of the wallet with the value, the fee and the change. -/
structure Funds (wallet : Wallet C) (coins : List (OutPoint × Output C))
    (value fee change : UInt64) : Prop where
  owned : ∀ coin ∈ coins, wallet.utxos[coin.1]? = some coin.2
  balanced : totalValue coins = value.toNat + fee.toNat + change.toNat
  bounded : totalValue coins < 2 ^ 64

/-- A payment is funded exactly when the spendable outputs reach its amount. -/
theorem fundPayment_cases (orders : CoinOrders C) (mode : Overflow) (wallet : Wallet C)
    (bounded : wallet.spendableValue < 2 ^ 64) {amount value fee : UInt64}
    (asked : value.toNat + fee.toNat ≤ amount.toNat) :
    (wallet.spendableValue < amount.toNat ∧
      wallet.fundPayment orders mode amount value fee = Outcome.fail .notEnoughFunds) ∨
    (amount.toNat ≤ wallet.spendableValue ∧ ∃ coins change,
      wallet.fundPayment orders mode amount value fee = .ok (coins.map Prod.fst, change) ∧
      wallet.Funds coins value fee change) := by
  rcases wallet.selectCoins_cases orders mode bounded amount
    with ⟨short, failed⟩ | ⟨enough, total, coins, found⟩
  · left
    refine ⟨short, ?_⟩
    rw [fundPayment, failed]
    rfl
  · obtain ⟨selected, reached, covers⟩ := found
    have worth : amount.toNat ≤ total.toNat := UInt64.le_iff_toNat_le.mp reached
    have first : value ≤ total := UInt64.le_iff_toNat_le.mpr (by omega)
    have left : (total - value).toNat = total.toNat - value.toNat :=
      UInt64.toNat_sub_of_le _ _ first
    have second : fee ≤ total - value := UInt64.le_iff_toNat_le.mpr (by omega)
    have change : (total - value - fee).toNat = total.toNat - value.toNat - fee.toNat := by
      rw [UInt64.toNat_sub_of_le _ _ second, left]
    have listed := orders.coins.perm coins
    have counted : totalValue (orders.coins.iter coins) = total.toNat :=
      (((listed.map _).map _).sum_eq).trans covers.counted
    right
    refine ⟨enough, orders.coins.iter coins, total - value - fee, ?_, ?_⟩
    · rw [fundPayment, selected]
      change mode.sub total value >>= _ = _
      rw [Overflow.sub_of_le mode first]
      change mode.sub (total - value) fee >>= _ = _
      rw [Overflow.sub_of_le mode second]
      rfl
    · exact {
        owned := fun coin member => covers.owned coin.1 coin.2 (orders.coins.mem_iter.mp member)
        balanced := by
          rw [counted, change]
          omega
        bounded := by
          rw [counted]
          exact total.toNat_lt }

end Ddk.Wallet
