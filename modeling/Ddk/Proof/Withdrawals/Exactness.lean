import Ddk.Proof.Withdrawals.Coverage
import Ddk.Proof.Withdrawals.Reproduction

namespace Ddk

open Foundation

namespace State

section

variable [Bitcoin] {C : Type}

/-- This is the greatest fee that some withdrawals offer. -/
def greatestFee (entries : List (OutPoint × Output C)) : ℕ :=
  (entries.map fun entry => entry.2.mainFee.toNat).foldr max 0

/-- These are the distinct destinations of the withdrawals. -/
def destinations (utxos : Database OutPoint (Output C)) : List Bitcoin.Address :=
  (utxos.toList.filterMap fun entry => entry.2.destination).dedup

/-- A bundle spends all withdrawals of some destinations, pays their sums and commits to fees. -/
structure SettlesExactly [GetValue C] (utxos : Database OutPoint (Output C))
    (bundle : WithdrawalBundle C)
    (addresses : List Bitcoin.Address) : Prop where
  distinct : addresses.Nodup
  owed : ∀ address ∈ addresses, address ∈ destinations utxos
  complete : (destinations utxos).length ≤ maxBundleOutputs →
    ∀ address ∈ destinations utxos, address ∈ addresses
  spent : ∀ (outpoint : OutPoint) (output : Output C), bundle.spentUtxos[outpoint]? = some output ↔
    utxos[outpoint]? = some output ∧ ∃ address ∈ addresses, output.destination = some address
  paid : List.Forall₂ (fun address output => output.scriptPubkey = Bitcoin.scriptPubkey address ∧
    output.value.toNat = totalValue (withdrawalsTo address utxos.toList)) addresses
      (bundle.transaction.output.drop 3)
  charged : bundle.transaction.encodedFee =
    (addresses.map fun address => greatestFee (withdrawalsTo address utxos.toList)).sum

/-- An address is a destination exactly when it has withdrawals. -/
theorem mem_destinations {utxos : Database OutPoint (Output C)} {address : Bitcoin.Address} :
    address ∈ destinations utxos ↔ withdrawalsTo address utxos.toList ≠ [] := by
  rw [destinations, List.mem_dedup, List.mem_filterMap]
  constructor
  · rintro ⟨entry, listed, destination⟩
    exact List.ne_nil_of_mem (mem_withdrawalsTo.mpr ⟨listed, destination⟩)
  · intro present
    obtain ⟨entry, member⟩ := List.exists_mem_of_ne_nil _ present
    exact ⟨entry, mem_withdrawalsTo.mp member⟩

variable [GetValue C]

/-- An aggregate offers the greatest fee of its withdrawals. -/
theorem mainFee_eq_greatestFee {mainAddress : Bitcoin.Address}
    {entries : List (OutPoint × Output C)} {aggregated : AggregatedWithdrawal C}
    (aggregates : Aggregates mainAddress entries aggregated) :
    aggregated.mainFee.toNat = greatestFee entries := by
  apply Nat.le_antisymm
  · rcases aggregates.fee_offered with zero | ⟨entry, member, same⟩
    · rw [zero]
      exact Nat.zero_le _
    · rw [same]
      exact List.le_max_of_le' 0 (List.mem_map_of_mem member) (Nat.le_refl _)
  · apply List.max_le_of_forall_le
    intro fee listed
    obtain ⟨entry, member, rfl⟩ := List.mem_map.mp listed
    exact UInt64.le_iff_toNat_le.mp (aggregates.fee_bounds entry member)

variable [DecidableEq C]

omit [DecidableEq C] in
/-- There are as many groups as destinations. -/
theorem groupsOf_length (utxos : Database OutPoint (Output C)) :
    (groupsOf utxos).keys.length = (destinations utxos).length := by
  have same : ∀ address, address ∈ (groupsOf utxos).keys ↔ address ∈ destinations utxos := by
    intro address
    rw [mem_groupsOf_keys, mem_destinations]
  exact ((List.perm_ext_iff_of_nodup Std.ExtTreeMap.nodup_keys (List.nodup_dedup _)).mpr
    same).length_eq

omit [GetValue C] in
/-- Every group is chosen when the limit allows all of them. -/
theorem chosen_complete {orders : Orders C}
    {groups : HashMap Bitcoin.Address (AggregatedWithdrawal C)}
    (few : groups.keys.length ≤ maxBundleOutputs) {address : Bitcoin.Address}
    {aggregated : AggregatedWithdrawal C}
    (found : groups[address]? = some aggregated) : aggregated ∈ chosen orders groups := by
  have selected := chosen_length orders groups
  rw [Nat.min_eq_right (Nat.le_succ_of_le few)] at selected
  have listed : aggregated ∈ orders.sort.sort ((orders.groups.iter groups).map (·.2)) := by
    apply (orders.sort.perm _).mem_iff.mpr
    exact List.mem_map.mpr ⟨(address, aggregated), orders.groups.mem_iter.mpr found, rfl⟩
  have sorted : (orders.sort.sort ((orders.groups.iter groups).map (·.2))).length =
      groups.keys.length := by
    rw [(orders.sort.perm _).length_eq, List.length_map, ← List.length_map Prod.fst,
      (orders.groups.keys_perm groups).length_eq]
  rw [chosen, List.take_of_length_le (by omega)]
  exact listed

variable [Blake3] [Bincode C]

/-- A collected bundle settles the chosen destinations exactly. -/
theorem Collected.settles {orders : Orders C} {utxos : Database OutPoint (Output C)}
    {blockHeight : UInt32} {groups : HashMap Bitcoin.Address (AggregatedWithdrawal C)}
    {fee : UInt64} {bundle : WithdrawalBundle C}
    (collected : Collected orders .checked utxos blockHeight groups fee bundle) :
    SettlesExactly utxos bundle ((chosen orders groups).map (·.mainAddress)) := by
  obtain ⟨rfl, fits⟩ := aggregateUtxos_eq_ok.mp collected.aggregated
  have all := groupsOf_aggregates utxos
  have aggregates := fun aggregated (member : aggregated ∈ chosen orders (groupsOf utxos)) =>
    chosen_aggregates all member
  have spent := chosen_spent_perm orders all
  constructor
  · exact chosen_addresses_nodup orders all
  · intro address listed
    obtain ⟨aggregated, member, rfl⟩ := List.mem_map.mp listed
    obtain ⟨name, found⟩ := mem_chosen member
    rw [(all.present name aggregated found).address]
    exact mem_destinations.mpr
      ((all.listed name).mp (Option.isSome_iff_exists.mpr ⟨aggregated, found⟩))
  · intro few address known
    obtain ⟨aggregated, found⟩ :=
      Option.isSome_iff_exists.mp ((all.listed address).mpr (mem_destinations.mp known))
    rw [← groupsOf_length] at few
    exact List.mem_map.mpr ⟨aggregated, chosen_complete few found,
      (all.present address aggregated found).address⟩
  · intro outpoint output
    rw [collected.bundle, chosenBundle]
    change (gatherSpent orders ∅ (chosen orders (groupsOf utxos)))[outpoint]? = some output ↔ _
    rw [← @Database.mem_entries_iff _ _ _ _ (outpoint, output), spent.mem_iff, List.mem_flatMap]
    simp only [mem_withdrawalsTo, Database.mem_entries_iff]
    constructor
    · rintro ⟨aggregated, member, stored, destination⟩
      exact ⟨stored, aggregated.mainAddress, List.mem_map_of_mem member, destination⟩
    · rintro ⟨stored, address, listed, destination⟩
      obtain ⟨aggregated, member, rfl⟩ := List.mem_map.mp listed
      exact ⟨aggregated, member, stored, destination⟩
  · have outputs : bundle.transaction.output.drop 3 =
        (chosen orders (groupsOf utxos)).map bundleOutput := by
      rw [collected.bundle]
      rfl
    rw [outputs, List.forall₂_map_left_iff, List.forall₂_map_right_iff, List.forall₂_same]
    intro aggregated member
    refine ⟨rfl, ?_⟩
    have value := (aggregates aggregated member).value
    rw [Nat.mod_eq_of_lt (fits rfl _)] at value
    exact value
  · have encoded : bundle.transaction.encodedFee = fee.toNat := by
      rw [collected.bundle, chosenBundle, bundleTransaction_encodedFee]
    rw [encoded, Overflow.sum_checked.mp collected.charged, Overflow.exactSum, List.map_map,
      List.map_map]
    apply congrArg List.sum
    apply List.map_congr_left
    intro aggregated member
    exact mainFee_eq_greatestFee (aggregates aggregated member)

/-- A collection returns nothing exactly without withdrawals, and otherwise settles exactly. -/
theorem bundle_settles_exactly {orders : Orders C} {utxos : Database OutPoint (Output C)}
    {blockHeight : UInt32} {result : Option (WithdrawalBundle C)}
    (success : collectWithdrawalBundle orders .checked utxos blockHeight = .ok result) :
    (result = none ↔ ∀ (outpoint : OutPoint) (output : Output C), utxos[outpoint]? = some output →
      output.destination = none) ∧
    ∀ bundle, result = some bundle → ∃ addresses, SettlesExactly utxos bundle addresses := by
  have unowed : (∀ (outpoint : OutPoint) (output : Output C), utxos[outpoint]? = some output →
      output.destination = none) ↔ ∀ address, withdrawalsTo address utxos.toList = [] := by
    constructor
    · intro none address
      apply List.eq_nil_iff_forall_not_mem.mpr
      intro entry member
      obtain ⟨listed, destination⟩ := mem_withdrawalsTo.mp member
      rw [none entry.1 entry.2 (Database.mem_entries_iff.mp listed)] at destination
      cases destination
    · intro empty outpoint output found
      by_contra destination
      obtain ⟨address, named⟩ := Option.ne_none_iff_exists'.mp destination
      have member : (outpoint, output) ∈ withdrawalsTo address utxos.toList :=
        mem_withdrawalsTo.mpr ⟨Database.mem_entries_iff.mpr found, named⟩
      rw [empty address] at member
      cases member
  cases result with
  | none =>
      refine ⟨iff_of_true rfl (unowed.mpr fun address => ?_), fun _ same => by cases same⟩
      have empty := (aggregateUtxos_eq_ok.mp (collectWithdrawalBundle_eq_none.mp success)).1
      have listed := (groupsOf_aggregates utxos).listed address
      rw [← empty, Std.ExtTreeMap.getElem?_empty] at listed
      by_contra present
      cases listed.mpr present
  | some bundle =>
      obtain ⟨groups, fee, collected⟩ := collectWithdrawalBundle_eq_some.mp success
      refine ⟨iff_of_false (fun same => by cases same) fun none => ?_, fun other same => ?_⟩
      · have present := collected.present
        obtain ⟨rfl, _⟩ := aggregateUtxos_eq_ok.mp collected.aggregated
        have empty : groupsOf utxos = ∅ := by
          apply Std.ExtTreeMap.ext_getElem?
          intro address
          have listed := (groupsOf_aggregates utxos).listed address
          rw [unowed.mp none address] at listed
          rw [Std.ExtTreeMap.getElem?_empty, ← Option.not_isSome_iff_eq_none]
          exact fun found => listed.mp found rfl
        rw [empty] at present
        simp at present
      · cases same
        exact ⟨_, collected.settles⟩

end

section

open Reference

/-- The two withdrawals make one bundle. -/
theorem bundle_settles_exactly_twoWithdrawals :
    ∃ bundle addresses, collectWithdrawalBundle orders .checked twoWithdrawals.utxos 5 =
      .ok (some bundle) ∧
      SettlesExactly twoWithdrawals.utxos bundle addresses := by
  have success : collectWithdrawalBundle orders .checked twoWithdrawals.utxos 5 =
      .ok ((collectWithdrawalBundle orders .checked twoWithdrawals.utxos 5).toOption.getD none) :=
    Outcome.eq_ok_getD none (by decide +kernel)
  have present :
      ((collectWithdrawalBundle orders .checked twoWithdrawals.utxos 5).toOption.getD none).isSome =
          true := by
    decide +kernel
  obtain ⟨bundle, found⟩ := Option.isSome_iff_exists.mp present
  obtain ⟨addresses, settles⟩ := (bundle_settles_exactly success).2 bundle found
  rw [found] at success
  exact ⟨bundle, addresses, success, settles⟩

end

end State

end Ddk
