import Ddk.Proof.Withdrawals.Collection

namespace Ddk.State

open Foundation

variable [Bitcoin] {C : Type} [GetValue C] [DecidableEq C]

omit [GetValue C] in
/-- Every chosen destination is in the aggregation table. -/
theorem mem_chosen {orders : Orders C} {groups : HashMap Bitcoin.Address (AggregatedWithdrawal C)}
    {aggregated : AggregatedWithdrawal C} (member : aggregated ∈ chosen orders groups) :
    ∃ mainAddress : Bitcoin.Address, groups[mainAddress]? = some aggregated := by
  have sorted := (orders.sort.perm _).mem_iff.mp (List.mem_of_mem_take member)
  obtain ⟨entry, listed, rfl⟩ := List.mem_map.mp sorted
  exact ⟨entry.1, orders.groups.mem_iter.mp listed⟩

/-- A chosen destination aggregates all withdrawals to its address. -/
theorem chosen_aggregates {orders : Orders C} {entries : List (OutPoint × Output C)}
    {groups : HashMap Bitcoin.Address (AggregatedWithdrawal C)} (all : AggregatesAll entries groups)
    {aggregated : AggregatedWithdrawal C} (member : aggregated ∈ chosen orders groups) :
    Aggregates aggregated.mainAddress (withdrawalsTo aggregated.mainAddress entries)
      aggregated := by
  obtain ⟨mainAddress, found⟩ := mem_chosen member
  have aggregates := all.present mainAddress aggregated found
  rwa [← aggregates.address] at aggregates

/-- The chosen destinations have distinct addresses. -/
theorem chosen_addresses_nodup (orders : Orders C) {entries : List (OutPoint × Output C)}
    {groups : HashMap Bitcoin.Address (AggregatedWithdrawal C)}
    (all : AggregatesAll entries groups) :
    ((chosen orders groups).map (·.mainAddress)).Nodup := by
  have named : ((orders.groups.iter groups).map (·.2)).map (·.mainAddress) =
      (orders.groups.iter groups).map Prod.fst := by
    rw [List.map_map]
    apply List.map_congr_left
    intro entry member
    exact (all.present entry.1 entry.2 (orders.groups.mem_iter.mp member)).address
  have distinct :
      ((orders.sort.sort ((orders.groups.iter groups).map (·.2))).map (·.mainAddress)).Nodup := by
    rw [((orders.sort.perm _).map _).nodup_iff, named]
    exact orders.groups.keys_nodup groups
  exact distinct.sublist ((List.take_sublist _ _).map _)

omit [GetValue C] in
/-- Maps with distinct keys gather to all of their entries. -/
theorem gatherSpent_perm {orders : Orders C} {spentUtxos : HashMap OutPoint (Output C)}
    {aggregatedWithdrawals : List (AggregatedWithdrawal C)}
    (distinct : ((aggregatedWithdrawals.flatMap (·.spentUtxos.toList) ++ spentUtxos.toList).map
      Prod.fst).Nodup) :
    (gatherSpent orders spentUtxos aggregatedWithdrawals).toList.Perm
      (aggregatedWithdrawals.flatMap (·.spentUtxos.toList) ++ spentUtxos.toList) := by
  induction aggregatedWithdrawals generalizing spentUtxos with
  | nil => exact List.Perm.refl _
  | cons aggregated rest ih =>
      have reordered : (rest.flatMap (·.spentUtxos.toList) ++
        (aggregated.spentUtxos.toList ++ spentUtxos.toList)).Perm
          ((aggregated :: rest).flatMap (·.spentUtxos.toList) ++ spentUtxos.toList) := by
        rw [List.flatMap_cons, ← List.append_assoc]
        exact List.perm_append_comm.append_right _
      have apart := ((reordered.map Prod.fst).nodup_iff.mpr distinct)
      have fresh : ∀ key ∈ (orders.outputs.iter aggregated.spentUtxos).map Prod.fst,
          spentUtxos[key]? = none := by
        intro key member
        rw [List.map_append, List.map_append] at apart
        have separate := (List.nodup_append.mp (List.nodup_append.mp apart).2.1).2.2
        by_contra present
        obtain ⟨output, found⟩ := Option.ne_none_iff_exists'.mp present
        have entry : (key, output) ∈ spentUtxos.toList := Database.mem_entries_iff.mpr found
        have listed : key ∈ spentUtxos.toList.map Prod.fst := List.mem_map.mpr ⟨_, entry, rfl⟩
        have own : key ∈ aggregated.spentUtxos.toList.map Prod.fst :=
          ((orders.outputs.perm _).map Prod.fst).mem_iff.mp member
        exact separate key own key listed rfl
      have added :=
        Database.toList_putAll_perm (orders.outputs.keys_nodup aggregated.spentUtxos) fresh
      have entries := added.trans ((orders.outputs.perm aggregated.spentUtxos).append_right _)
      have together := entries.append_left (rest.flatMap (·.spentUtxos.toList))
      have gathered := ih (((together.map Prod.fst).nodup_iff).mpr apart)
      exact (gathered.trans together).trans reordered

omit [GetValue C] [DecidableEq C] in
/-- The withdrawals of distinct destinations have distinct names. -/
theorem withdrawals_nodup {entries : List (OutPoint × Output C)}
    (distinct : (entries.map Prod.fst).Nodup) {addresses : List Bitcoin.Address}
    (apart : addresses.Nodup) :
    ((addresses.flatMap fun mainAddress => withdrawalsTo mainAddress entries).map
      Prod.fst).Nodup := by
  rw [List.map_flatMap, List.nodup_flatMap]
  refine ⟨fun mainAddress _ => distinct.sublist (List.filter_sublist.map _), ?_⟩
  refine apart.imp ?_
  rintro first second different key left right
  obtain ⟨entry, firstMember, rfl⟩ := List.mem_map.mp left
  obtain ⟨other, secondMember, same⟩ := List.mem_map.mp right
  rw [mem_withdrawalsTo] at firstMember secondMember
  have equal : other = entry := List.inj_on_of_nodup_map distinct secondMember.1 firstMember.1 same
  rw [equal, firstMember.2] at secondMember
  exact different (Option.some.inj secondMember.2)

omit [DecidableEq C] in
/-- An aggregate's map lists the withdrawals of its destination. -/
theorem Aggregates.spent_perm {mainAddress : Bitcoin.Address} {entries : List (OutPoint × Output C)}
    {aggregated : AggregatedWithdrawal C} (aggregates : Aggregates mainAddress entries aggregated)
    (distinct : (entries.map Prod.fst).Nodup) : aggregated.spentUtxos.toList.Perm entries := by
  have added : (Database.putAll (∅ : HashMap OutPoint (Output C)) entries).toList.Perm _ :=
    Database.toList_putAll_perm distinct (by simp)
  rw [aggregates.spent]
  simpa using added

/-- The chosen destinations spend exactly their withdrawals. -/
theorem chosen_spent_perm (orders : Orders C) {utxos : Database OutPoint (Output C)}
    {groups : HashMap Bitcoin.Address (AggregatedWithdrawal C)}
    (all : AggregatesAll utxos.toList groups) :
    (gatherSpent orders ∅ (chosen orders groups)).toList.Perm
      ((chosen orders groups).flatMap fun aggregated =>
        withdrawalsTo aggregated.mainAddress utxos.toList) := by
  have each : ∀ aggregated ∈ chosen orders groups,
      aggregated.spentUtxos.toList.Perm (withdrawalsTo aggregated.mainAddress utxos.toList) := by
    intro aggregated member
    exact Aggregates.spent_perm (chosen_aggregates all member)
      ((Database.entries_nodup utxos).sublist (List.filter_sublist.map _))
  have together := List.Perm.flatMap_left _ each
  have distinct := withdrawals_nodup (Database.entries_nodup utxos)
    (chosen_addresses_nodup orders all)
  rw [List.flatMap_map] at distinct
  have gathered : (gatherSpent orders ∅ (chosen orders groups)).toList.Perm _ :=
    gatherSpent_perm (by
    rw [Database.toList_empty, List.append_nil, (together.map Prod.fst).nodup_iff]
    exact distinct)
  rw [Database.toList_empty, List.append_nil] at gathered
  exact gathered.trans together

/-- These are the withdrawals of the database in key order. -/
def withdrawals (utxos : Database OutPoint (Output C)) : List (OutPoint × Output C) :=
  utxos.toList.filter fun entry => entry.2.destination.isSome

omit [DecidableEq C] in
/-- Every destination is a group of its withdrawals. -/
theorem mem_groupsOf_keys {utxos : Database OutPoint (Output C)} {mainAddress : Bitcoin.Address} :
    mainAddress ∈ (groupsOf utxos).keys ↔ withdrawalsTo mainAddress utxos.toList ≠ [] := by
  rw [Database.mem_keys_iff, ← Option.isSome_iff_exists]
  exact (groupsOf_aggregates utxos).listed mainAddress

omit [GetValue C] in
/-- The selection takes each group up to the limit of the loop. -/
theorem chosen_length (orders : Orders C)
    (groups : HashMap Bitcoin.Address (AggregatedWithdrawal C)) :
    (chosen orders groups).length = min (maxBundleOutputs + 1) groups.keys.length := by
  rw [chosen, List.length_take, (orders.sort.perm _).length_eq, List.length_map,
    ← List.length_map Prod.fst, (orders.groups.keys_perm groups).length_eq]

omit [DecidableEq C] in
/-- With one group, the withdrawals have one destination. -/
theorem withdrawals_of_single {utxos : Database OutPoint (Output C)} {mainAddress : Bitcoin.Address}
    (single : (groupsOf utxos).keys = [mainAddress]) :
    withdrawals utxos = withdrawalsTo mainAddress utxos.toList := by
  apply List.filter_congr
  intro entry listed
  cases destination : entry.2.destination with
  | none => simp
  | some target =>
      have member : target ∈ (groupsOf utxos).keys :=
        mem_groupsOf_keys.mpr (List.ne_nil_of_mem (mem_withdrawalsTo.mpr ⟨listed, destination⟩))
      rw [single, List.mem_singleton] at member
      simp [member]

omit [DecidableEq C] in
/-- There are at most as many groups as withdrawals. -/
theorem groupsOf_length_le (utxos : Database OutPoint (Output C)) :
    (groupsOf utxos).keys.length ≤ (withdrawals utxos).length := by
  have included : (groupsOf utxos).keys ⊆ (withdrawals utxos).filterMap
      fun entry => entry.2.destination := by
    intro mainAddress member
    obtain ⟨entry, listed⟩ := List.exists_mem_of_ne_nil _ (mem_groupsOf_keys.mp member)
    obtain ⟨inside, destination⟩ := mem_withdrawalsTo.mp listed
    refine List.mem_filterMap.mpr ⟨entry, List.mem_filter.mpr ⟨inside, ?_⟩, destination⟩
    rw [destination]
    rfl
  have counted := (List.subperm_of_subset Std.ExtTreeMap.nodup_keys included).length_le
  exact counted.trans (List.length_filterMap_le _ _)

/-- The bundle spends at most the withdrawals. -/
theorem gatherSpent_length_le (orders : Orders C) (utxos : Database OutPoint (Output C)) :
    (gatherSpent orders ∅ (chosen orders (groupsOf utxos))).toList.length ≤
      (withdrawals utxos).length := by
  have spent := chosen_spent_perm orders (groupsOf_aggregates utxos)
  have included : (gatherSpent orders ∅ (chosen orders (groupsOf utxos))).toList ⊆
      withdrawals utxos := by
    intro entry member
    obtain ⟨aggregated, _, listed⟩ := List.mem_flatMap.mp (spent.mem_iff.mp member)
    obtain ⟨inside, destination⟩ := mem_withdrawalsTo.mp listed
    refine List.mem_filter.mpr ⟨inside, ?_⟩
    rw [destination]
    rfl
  exact (List.subperm_of_subset (List.Nodup.of_map Prod.fst (Database.entries_nodup _))
    included).length_le

/-- The bundle spends two outputs when there are two withdrawals. -/
theorem two_le_gatherSpent_length (orders : Orders C) {utxos : Database OutPoint (Output C)}
    (several : 2 ≤ (withdrawals utxos).length) :
    2 ≤ (gatherSpent orders ∅ (chosen orders (groupsOf utxos))).toList.length := by
  have all := groupsOf_aggregates utxos
  have room : 2 ≤ maxBundleOutputs + 1 := by decide
  have selected := chosen_length orders (groupsOf utxos)
  rw [(chosen_spent_perm orders all).length_eq, List.length_flatMap]
  by_cases single : (groupsOf utxos).keys.length ≤ 1
  · obtain ⟨entry, listed⟩ :=
      List.exists_mem_of_length_pos (by omega : 0 < (withdrawals utxos).length)
    obtain ⟨inside, withdrawn⟩ := List.mem_filter.mp listed
    obtain ⟨mainAddress, destination⟩ := Option.isSome_iff_exists.mp withdrawn
    have known : mainAddress ∈ (groupsOf utxos).keys :=
      mem_groupsOf_keys.mpr (List.ne_nil_of_mem (mem_withdrawalsTo.mpr ⟨inside, destination⟩))
    have counted := List.length_pos_of_mem known
    obtain ⟨key, keys⟩ := List.length_eq_one_iff.mp (by omega : (groupsOf utxos).keys.length = 1)
    obtain ⟨aggregated, alone⟩ :=
      List.length_eq_one_iff.mp (by omega : (chosen orders (groupsOf utxos)).length = 1)
    have member : aggregated ∈ chosen orders (groupsOf utxos) :=
      alone ▸ List.mem_singleton_self aggregated
    obtain ⟨address, found⟩ := mem_chosen member
    have named : aggregated.mainAddress ∈ (groupsOf utxos).keys := by
      rw [(all.present address aggregated found).address]
      exact Database.mem_keys_iff.mpr ⟨aggregated, found⟩
    rw [keys, List.mem_singleton] at named
    rw [alone, List.map_singleton, List.sum_singleton, named, ← withdrawals_of_single keys]
    exact several
  · have each : ∀ length ∈ (chosen orders (groupsOf utxos)).map fun aggregated =>
        (withdrawalsTo aggregated.mainAddress utxos.toList).length, 1 ≤ length := by
      intro length member
      obtain ⟨aggregated, listed, rfl⟩ := List.mem_map.mp member
      obtain ⟨address, found⟩ := mem_chosen listed
      rw [(all.present address aggregated found).address]
      exact List.length_pos_iff.mpr
        ((all.listed address).mp (Option.isSome_iff_exists.mpr ⟨aggregated, found⟩))
    have counted := List.length_le_sum_of_one_le _ each
    rw [List.length_map] at counted
    omega

variable [Blake3] [Bincode C]

/-- A collected bundle spends withdrawals from the database. -/
theorem Collected.spent_mem {orders : Orders C} {mode : Overflow}
    {utxos : Database OutPoint (Output C)} {blockHeight : UInt32}
    {groups : HashMap Bitcoin.Address (AggregatedWithdrawal C)} {fee : UInt64}
    {bundle : WithdrawalBundle C}
    (collected : Collected orders mode utxos blockHeight groups fee bundle) {outpoint : OutPoint}
    {output : Output C} (found : bundle.spentUtxos[outpoint]? = some output) :
    utxos[outpoint]? = some output := by
  have all := foldlM_aggregateUtxo collected.aggregated
  rw [collected.bundle] at found
  have entry : (outpoint, output) ∈ (gatherSpent orders ∅ (chosen orders groups)).toList :=
    Database.mem_entries_iff.mpr found
  have listed := (chosen_spent_perm orders all).mem_iff.mp entry
  obtain ⟨aggregated, _, member⟩ := List.mem_flatMap.mp listed
  exact Database.mem_entries_iff.mp (mem_withdrawalsTo.mp member).1

end Ddk.State
