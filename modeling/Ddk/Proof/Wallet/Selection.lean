import Ddk.Construction.Reference
import Ddk.Proof.Wallet.Coins

namespace Ddk.Wallet

open Foundation

section

variable [Bitcoin] {C : Type} [GetValue C]

/-- The selection takes the shortest sufficient part of the ascending coins, or finds too little. -/
structure SelectsShortest (orders : CoinOrders C) (mode : Overflow) (wallet : Wallet C)
    (value : UInt64) : Prop where
  short : wallet.selectCoins orders mode value = Outcome.fail .notEnoughFunds ↔
    wallet.spendableValue < value.toNat
  taken : value.toNat ≤ wallet.spendableValue → ∃ taken rest total,
    spendable (orders.sort.sort wallet.utxos.toList) = taken ++ rest ∧
      wallet.selectCoins orders mode value = .ok (total, Database.putAll ∅ taken) ∧
        total.toNat = totalValue taken ∧
      value.toNat ≤ totalValue taken ∧ ∀ first coin last, taken = first ++ coin :: last →
        totalValue first < value.toNat

/-- Some first coins reach the value exactly, and other coins follow them. -/
def ReachesExactly (orders : CoinOrders C) (wallet : Wallet C) (value : UInt64) : Prop :=
  ∃ first coin last, spendable (orders.sort.sort wallet.utxos.toList) = first ++ coin :: last ∧
    totalValue first = value.toNat

/-- The shortest selection stops at the first coins that reach the value exactly. -/
theorem SelectsShortest.stops {orders : CoinOrders C} {mode : Overflow} {wallet : Wallet C}
    {value : UInt64} (shortest : SelectsShortest orders mode wallet value)
    (reached : ReachesExactly orders wallet value) :
    ∃ taken coin last total, spendable (orders.sort.sort wallet.utxos.toList) =
      taken ++ coin :: last ∧
      wallet.selectCoins orders mode value = .ok (total, Database.putAll ∅ taken) ∧
        total = value := by
  obtain ⟨first, coin, last, divided, exact⟩ := reached
  have whole := totalValue_spendable_sort orders wallet
  rw [divided, totalValue_append, exact] at whole
  obtain ⟨taken, rest, total, split, success, sum, enough, needed⟩ := shortest.taken (by omega)
  rw [divided] at split
  rcases List.append_eq_append_iff.mp split with ⟨more, longer, remaining⟩ |
    ⟨more, shorter, remaining⟩
  · cases more with
    | nil =>
        rw [List.append_nil] at longer
        subst longer
        exact ⟨taken, coin, last, total, divided, success, UInt64.toNat_inj.mp (sum.trans exact)⟩
    | cons head more =>
        have below := needed first head more longer
        omega
  · refine ⟨taken, (more ++ coin :: last).head (by simp), (more ++ coin :: last).tail, total, ?_,
      success, ?_⟩
    · rw [List.cons_head_tail, divided, shorter, List.append_assoc]
    · rw [shorter, totalValue_append] at exact
      exact UInt64.toNat_inj.mp (by omega)

/-- The selection is shortest exactly when no first coins before another one reach the value. -/
theorem selectsShortest_iff (orders : CoinOrders C) (mode : Overflow) (wallet : Wallet C)
    (bounded : wallet.spendableValue < 2 ^ 64) (value : UInt64) :
    SelectsShortest orders mode wallet value ↔ ¬ ReachesExactly orders wallet value := by
  obtain ⟨taken, rest, total, split, steps, reaches, sum, left, needed⟩ :=
    wallet.selectCoins_takes orders mode bounded value
  constructor
  · intro shortest reached
    obtain ⟨first, coin, last, final, divided, success, same⟩ := shortest.stops reached
    subst same
    have enough : final ≤ total := by
      by_contra short
      rw [steps, Outcome.ensure, if_neg short] at success
      cases success
    rw [steps, Outcome.ensure, if_pos enough] at success
    obtain ⟨stopped, coins⟩ := Prod.mk.inj (Except.ok.inj success)
    have everything : rest = [] := by
      by_contra others
      have above := left others
      rw [stopped] at above
      exact UInt64.lt_irrefl _ above
    rw [everything, List.append_nil] at split
    rw [divided] at split
    have all := toList_coins (taken_owned orders wallet (divided.trans (List.append_nil _).symm)).2
    have some := toList_coins (taken_owned orders wallet divided).2
    rw [← coins, ← split] at some
    have lengths := all.length_eq.symm.trans some.length_eq
    rw [List.length_append, List.length_cons] at lengths
    omega
  · intro inexact
    constructor
    · rw [steps, ← Nat.not_le, ← reaches]
      by_cases enough : value ≤ total
      · rw [Outcome.ensure, if_pos enough]
        exact iff_of_false (fun same => by cases same) (not_not.mpr enough)
      · rw [Outcome.ensure, if_neg enough]
        exact iff_of_true rfl enough
    · intro covered
      have enough := reaches.mpr covered
      refine ⟨taken, rest, total, split, ?_, sum, ?_, ?_⟩
      · rw [steps, Outcome.ensure, if_pos enough]
        rfl
      · rw [← sum]
        exact UInt64.le_iff_toNat_le.mp enough
      · intro first coin last divided
        apply Nat.lt_of_le_of_ne (needed first coin last divided)
        intro exact
        apply inexact
        refine ⟨first, coin, last ++ rest, ?_, exact⟩
        rw [split, divided, List.append_assoc, List.cons_append]

end

section

open Reference

/-- The wallet holds a coin of five and a coin of seven. -/
def twoCoins : Wallet Unit :=
  { (Wallet.empty : Wallet Unit) with
    utxos :=
      Database.putAll ∅ [(.deposit ⟨1, 0⟩, ⟨⟨5⟩, .value 5⟩), (.deposit ⟨2, 0⟩, ⟨⟨5⟩, .value 7⟩)] }

def ascending : CoinOrders Unit := ⟨.insertion _, .byKey⟩

/-- No first coins are worth six. -/
theorem selectsShortest_iff_six :
    SelectsShortest ascending .checked twoCoins 6 ↔ ¬ ReachesExactly ascending twoCoins 6 :=
  selectsShortest_iff ascending .checked twoCoins (by decide +kernel) 6

/-- This pair gives the total and the number of the selected coins. -/
def selectionSize (result : Outcome Error (UInt64 × HashMap OutPoint (Output Unit))) :
    Option (UInt64 × ℕ) :=
  result.toOption.map fun selection => (selection.1, selection.2.keys.length)

/-- A coin of five pays five, and the selection takes the coin of seven as well. -/
theorem selection_takes_extra_coin :
    (¬ ∀ (orders : CoinOrders Unit) (wallet : Wallet Unit) (value : UInt64),
        wallet.spendableValue < 2 ^ 64 →
        SelectsShortest orders .checked wallet value) ∧
      selectionSize (twoCoins.selectCoins ascending .checked 5) = some (12, 2) := by
  have selected : selectionSize (twoCoins.selectCoins ascending .checked 5) = some (12, 2) := by
    decide +kernel
  refine ⟨fun claim => ?_, selected⟩
  have sorted : spendable (ascending.sort.sort twoCoins.utxos.toList) =
      [(.deposit ⟨1, 0⟩, ⟨⟨5⟩, .value 5⟩)] ++ (.deposit ⟨2, 0⟩, ⟨⟨5⟩, .value 7⟩) :: [] := by
        decide +kernel
  have reached : ReachesExactly ascending twoCoins 5 := ⟨_, _, _, sorted, by decide +kernel⟩
  obtain ⟨_, _, _, total, _, success, same⟩ :=
    (claim ascending twoCoins 5 (by decide +kernel)).stops reached
  rw [success] at selected
  have first := congrArg Prod.fst (Option.some.inj selected)
  exact absurd (same.symm.trans first) (by decide)

end

end Ddk.Wallet
