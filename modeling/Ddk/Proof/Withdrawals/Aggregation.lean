import Ddk.Construction.Withdrawals

namespace Ddk

open Foundation

variable [Bitcoin] {C : Type}

/-- Only a withdrawal has a mainchain destination. -/
def Output.destination (output : Output C) : Option Bitcoin.Address :=
  match output.content with
  | .withdrawal _ _ mainAddress => some mainAddress
  | _ => none

/-- Only a withdrawal offers a mainchain fee. -/
def Output.mainFee (output : Output C) : UInt64 :=
  match output.content with
  | .withdrawal _ mainFee _ => mainFee
  | _ => 0

/-- The withdrawals of one destination keep their database order. -/
def withdrawalsTo (mainAddress : Bitcoin.Address) (entries : List (OutPoint × Output C)) :
    List (OutPoint × Output C) :=
  entries.filter fun entry => entry.2.destination = some mainAddress

theorem withdrawalsTo_append (mainAddress : Bitcoin.Address)
    (first second : List (OutPoint × Output C)) :
    withdrawalsTo mainAddress (first ++ second) =
      withdrawalsTo mainAddress first ++ withdrawalsTo mainAddress second :=
  List.filter_append ..

theorem mem_withdrawalsTo {mainAddress : Bitcoin.Address} {entries : List (OutPoint × Output C)}
    {entry : OutPoint × Output C} :
    entry ∈ withdrawalsTo mainAddress entries ↔
      entry ∈ entries ∧ entry.2.destination = some mainAddress := by
  simp [withdrawalsTo]

variable [GetValue C]

/-- An aggregate collects some withdrawals of one destination. -/
structure Aggregates (mainAddress : Bitcoin.Address) (entries : List (OutPoint × Output C))
    (aggregated : AggregatedWithdrawal C) : Prop where
  address : aggregated.mainAddress = mainAddress
  spent : aggregated.spentUtxos = Database.putAll ∅ entries
  value : aggregated.value.toNat = totalValue entries % 2 ^ 64
  fee_bounds : ∀ entry ∈ entries, entry.2.mainFee ≤ aggregated.mainFee
  fee_offered : aggregated.mainFee = 0 ∨ ∃ entry ∈ entries, aggregated.mainFee = entry.2.mainFee

/-- One withdrawal extends the aggregate of its destination. -/
theorem Aggregates.extend {mainAddress : Bitcoin.Address} {entries : List (OutPoint × Output C)}
    {aggregated : AggregatedWithdrawal C} (before : Aggregates mainAddress entries aggregated)
    {entry : OutPoint × Output C} {total : UInt64}
    (added : total.toNat = (totalValue entries + (getValue entry.2).toNat) % 2 ^ 64) :
    Aggregates mainAddress (entries ++ [entry]) {
      aggregated with
      value := total
      mainFee := if entry.2.mainFee > aggregated.mainFee then entry.2.mainFee
        else aggregated.mainFee
      spentUtxos := aggregated.spentUtxos.insert entry.1 entry.2 } where
  address := before.address
  spent := by
    rw [Database.putAll_append, ← before.spent]
    rfl
  value := by
    rw [totalValue_append, added]
    simp [totalValue]
  fee_bounds := by
    intro other member
    dsimp only
    rcases List.mem_append.mp member with old | new
    · have bound := before.fee_bounds other old
      split
      next greater => exact UInt64.le_trans bound (UInt64.le_of_lt greater)
      next => exact bound
    · rw [List.mem_singleton.mp new]
      split
      next => exact UInt64.le_refl _
      next smaller => exact UInt64.not_lt.mp smaller
  fee_offered := by
    dsimp only
    split
    next => exact .inr ⟨entry, by simp, rfl⟩
    next =>
      rcases before.fee_offered with zero | ⟨other, member, same⟩
      · exact .inl zero
      · exact .inr ⟨other, List.mem_append_left _ member, same⟩

/-- The aggregation table describes exactly the withdrawals that the loop has read. -/
structure AggregatesAll (entries : List (OutPoint × Output C))
    (groups : HashMap Bitcoin.Address (AggregatedWithdrawal C)) : Prop where
  present : ∀ mainAddress aggregated, groups[mainAddress]? = some aggregated →
    Aggregates mainAddress (withdrawalsTo mainAddress entries) aggregated
  listed : ∀ mainAddress, (groups[mainAddress]?).isSome ↔ withdrawalsTo mainAddress entries ≠ []

/-- A destination has one aggregate of its withdrawals. -/
theorem Aggregates.unique {mainAddress : Bitcoin.Address} {entries : List (OutPoint × Output C)}
    {first second : AggregatedWithdrawal C} (left : Aggregates mainAddress entries first)
    (right : Aggregates mainAddress entries second) : first = second := by
  have ordered {one other : AggregatedWithdrawal C} (from_one : Aggregates mainAddress entries one)
      (from_other : Aggregates mainAddress entries other) : one.mainFee ≤ other.mainFee := by
    rcases from_one.fee_offered with zero | ⟨entry, member, same⟩
    · rw [zero, UInt64.le_iff_toNat_le, UInt64.toNat_zero]
      exact Nat.zero_le _
    · rw [same]
      exact from_other.fee_bounds entry member
  have spent := left.spent.trans right.spent.symm
  have address := left.address.trans right.address.symm
  have value := UInt64.toNat_inj.mp (left.value.trans right.value.symm)
  have fee := UInt64.le_antisymm (ordered left right) (ordered right left)
  cases first
  cases second
  simp_all

/-- The withdrawals determine the aggregation table. -/
theorem AggregatesAll.unique {entries : List (OutPoint × Output C)}
    {first second : HashMap Bitcoin.Address (AggregatedWithdrawal C)}
    (left : AggregatesAll entries first)
    (right : AggregatesAll entries second) : first = second := by
  apply Std.ExtTreeMap.ext_getElem?
  intro mainAddress
  have listed := (left.listed mainAddress).trans (right.listed mainAddress).symm
  cases found : first[mainAddress]? with
  | none =>
      rw [found] at listed
      have absent : ¬ (second[mainAddress]?).isSome := fun present => by cases listed.mpr present
      rw [Option.not_isSome_iff_eq_none.mp absent]
  | some aggregated =>
      rw [found] at listed
      obtain ⟨other, present⟩ := Option.isSome_iff_exists.mp (listed.mp rfl)
      rw [present, (left.present mainAddress aggregated found).unique
        (right.present mainAddress other present)]

namespace State

omit [GetValue C] in
/-- An output without a destination leaves the table unchanged. -/
theorem aggregateUtxo_other {mode : Overflow}
    {groups : HashMap Bitcoin.Address (AggregatedWithdrawal C)}
    {entry : OutPoint × Output C} (other : entry.2.destination = none) :
    aggregateUtxo mode groups entry = .ok groups := by
  obtain ⟨outpoint, address, content⟩ := entry
  cases content with
  | custom => rfl
  | value => rfl
  | withdrawal => cases other

/-- A withdrawal adds its payout to the aggregate of its destination. -/
theorem aggregateUtxo_destination {mode : Overflow}
    {groups : HashMap Bitcoin.Address (AggregatedWithdrawal C)} {entry : OutPoint × Output C}
    {mainAddress : Bitcoin.Address} (destination : entry.2.destination = some mainAddress) :
    aggregateUtxo mode groups entry = do
      let aggregated := (groups[mainAddress]?).getD (emptyAggregate mainAddress)
      let total ← mode.add aggregated.value (getValue entry.2)
      return groups.insert mainAddress {
        aggregated with
        value := total
        mainFee := if entry.2.mainFee > aggregated.mainFee then entry.2.mainFee
          else aggregated.mainFee
        spentUtxos := aggregated.spentUtxos.insert entry.1 entry.2 } := by
  obtain ⟨outpoint, address, content⟩ := entry
  cases content with
  | custom => cases destination
  | value => cases destination
  | withdrawal =>
      cases destination
      rfl

/-- The table starts a destination with an empty aggregate. -/
theorem emptyAggregate_aggregates (mainAddress : Bitcoin.Address) :
    Aggregates mainAddress [] (emptyAggregate mainAddress : AggregatedWithdrawal C) where
  address := rfl
  spent := rfl
  value := rfl
  fee_bounds := by simp
  fee_offered := .inl rfl

/-- The aggregate of a destination exists before its next withdrawal. -/
theorem getD_aggregates {entries : List (OutPoint × Output C)}
    {groups : HashMap Bitcoin.Address (AggregatedWithdrawal C)} (all : AggregatesAll entries groups)
    (mainAddress : Bitcoin.Address) :
    Aggregates mainAddress (withdrawalsTo mainAddress entries)
      ((groups[mainAddress]?).getD (emptyAggregate mainAddress)) := by
  cases found : groups[mainAddress]? with
  | some aggregated => exact all.present mainAddress aggregated found
  | none =>
      have none : withdrawalsTo mainAddress entries = [] := by
        by_contra present
        have listed := (all.listed mainAddress).mpr present
        rw [found] at listed
        cases listed
      rw [none]
      exact emptyAggregate_aggregates mainAddress

/-- One loop step describes one more entry. -/
theorem aggregateUtxo_aggregates {mode : Overflow} {entries : List (OutPoint × Output C)}
    {groups next : HashMap Bitcoin.Address (AggregatedWithdrawal C)}
    (all : AggregatesAll entries groups) {entry : OutPoint × Output C}
    (success : aggregateUtxo mode groups entry = .ok next) :
    AggregatesAll (entries ++ [entry]) next := by
  cases destination : entry.2.destination with
  | none =>
      rw [aggregateUtxo_other destination] at success
      cases success
      have unchanged (mainAddress : Bitcoin.Address) :
          withdrawalsTo mainAddress (entries ++ [entry]) = withdrawalsTo mainAddress entries := by
        simp [withdrawalsTo, destination]
      exact ⟨fun mainAddress aggregated found => unchanged mainAddress ▸ all.present _ _ found,
        fun mainAddress => unchanged mainAddress ▸ all.listed mainAddress⟩
  | some target =>
      rw [aggregateUtxo_destination destination] at success
      obtain ⟨total, added, stored⟩ := Outcome.bind_eq_ok.mp success
      cases stored
      have before := getD_aggregates all target
      have sum : total.toNat =
          (totalValue (withdrawalsTo target entries) + (getValue entry.2).toNat) % 2 ^ 64 := by
        rw [Overflow.guard_value added, UInt64.toNat_add, before.value, Nat.mod_add_mod]
      have here : withdrawalsTo target (entries ++ [entry]) =
          withdrawalsTo target entries ++ [entry] := by
        simp [withdrawalsTo, destination]
      have elsewhere {mainAddress : Bitcoin.Address} (other : mainAddress ≠ target) :
          withdrawalsTo mainAddress (entries ++ [entry]) = withdrawalsTo mainAddress entries := by
        simp [withdrawalsTo, destination, other.symm]
      constructor
      · intro mainAddress aggregated found
        rw [Database.getElem?_put] at found
        split at found
        next same =>
          cases found
          rw [same, here]
          exact before.extend sum
        next other => exact elsewhere other ▸ all.present mainAddress aggregated found
      · intro mainAddress
        rw [Database.getElem?_put]
        split
        next same => simp [same, here]
        next other => exact elsewhere other ▸ all.listed mainAddress

/-- The aggregation loop describes every entry. -/
theorem foldlM_aggregateUtxo {mode : Overflow} {entries : List (OutPoint × Output C)}
    {groups : HashMap Bitcoin.Address (AggregatedWithdrawal C)}
    (success : entries.foldlM (aggregateUtxo mode) ∅ = .ok groups) :
    AggregatesAll entries groups := by
  induction entries using List.reverseRecOn generalizing groups with
  | nil =>
      cases success
      exact ⟨by simp, by simp [withdrawalsTo]⟩
  | append_singleton entries entry ih =>
      rw [List.foldlM_append] at success
      obtain ⟨before, earlier, last⟩ := Outcome.bind_eq_ok.mp success
      rw [List.foldlM_cons] at last
      obtain ⟨after, step, finished⟩ := Outcome.bind_eq_ok.mp last
      cases finished
      exact aggregateUtxo_aggregates (ih earlier) step

/-- The checked loop succeeds when every destination's payout fits. -/
theorem foldlM_aggregateUtxo_succeeds {mode : Overflow} {entries : List (OutPoint × Output C)}
    (fits : mode = .wrapping ∨ ∀ mainAddress,
      totalValue (withdrawalsTo mainAddress entries) < 2 ^ 64) :
    ∃ groups, entries.foldlM (aggregateUtxo mode) ∅ = .ok groups := by
  induction entries using List.reverseRecOn with
  | nil => exact ⟨∅, rfl⟩
  | append_singleton entries entry ih =>
      have earlier : mode = .wrapping ∨ ∀ mainAddress,
          totalValue (withdrawalsTo mainAddress entries) < 2 ^ 64 := by
        refine fits.imp_right fun bounds mainAddress => ?_
        have bound := bounds mainAddress
        rw [withdrawalsTo_append, totalValue_append] at bound
        omega
      obtain ⟨groups, success⟩ := ih earlier
      have step : ∃ next, aggregateUtxo mode groups entry = .ok next := by
        cases destination : entry.2.destination with
        | none => exact ⟨groups, aggregateUtxo_other destination⟩
        | some target =>
            have before := getD_aggregates (foldlM_aggregateUtxo success) target
            rw [aggregateUtxo_destination destination]
            have room : ∃ total, (mode.add ((groups[target]?).getD (emptyAggregate target)).value
                (getValue entry.2) : Outcome Error UInt64) = .ok total := by
              rcases fits with rfl | bounds
              · exact ⟨_, rfl⟩
              · have bound := bounds target
                rw [withdrawalsTo_append, totalValue_append] at bound
                have own : totalValue (withdrawalsTo target [entry]) =
                    (getValue entry.2).toNat := by
                  simp [withdrawalsTo, destination, totalValue]
                have small := before.value
                rw [Nat.mod_eq_of_lt (by omega)] at small
                exact ⟨_, Overflow.add_of_fits _ (by omega)⟩
            obtain ⟨total, added⟩ := room
            exact ⟨_, Outcome.bind_eq_ok.mpr ⟨total, added, rfl⟩⟩
      obtain ⟨next, advanced⟩ := step
      refine ⟨next, ?_⟩
      rw [List.foldlM_append, success]
      change List.foldlM (aggregateUtxo mode) groups [entry] = .ok next
      rw [List.foldlM_cons]
      exact Outcome.bind_eq_ok.mpr ⟨next, advanced, rfl⟩

/-- The checked loop fails when some destination's payout does not fit. -/
theorem totalValue_lt_of_foldlM_aggregateUtxo {entries : List (OutPoint × Output C)}
    {groups : HashMap Bitcoin.Address (AggregatedWithdrawal C)}
    (success : entries.foldlM (aggregateUtxo .checked) ∅ = .ok groups)
    (mainAddress : Bitcoin.Address) :
    totalValue (withdrawalsTo mainAddress entries) < 2 ^ 64 := by
  induction entries using List.reverseRecOn generalizing groups with
  | nil => simp [withdrawalsTo]
  | append_singleton entries entry ih =>
      rw [List.foldlM_append] at success
      obtain ⟨before, earlier, last⟩ := Outcome.bind_eq_ok.mp success
      rw [List.foldlM_cons] at last
      obtain ⟨after, step, _⟩ := Outcome.bind_eq_ok.mp last
      have bound := ih earlier
      rw [withdrawalsTo_append, totalValue_append]
      by_cases here : entry.2.destination = some mainAddress
      · rw [aggregateUtxo_destination here] at step
        obtain ⟨total, added, _⟩ := Outcome.bind_eq_ok.mp step
        have small := (getD_aggregates (foldlM_aggregateUtxo earlier) mainAddress).value
        rw [Nat.mod_eq_of_lt bound] at small
        have room := of_decide_eq_true (Overflow.guard_checked_eq_ok.mp added).1
        have own : totalValue (withdrawalsTo mainAddress [entry]) = (getValue entry.2).toNat := by
          simp [withdrawalsTo, here, totalValue]
        omega
      · have none : withdrawalsTo mainAddress [entry] = [] := by simp [withdrawalsTo, here]
        rw [none, totalValue_nil]
        omega

/-- This table holds the withdrawals of each destination. Its payouts are reduced to a word. -/
def groupsOf (utxos : Database OutPoint (Output C)) :
    HashMap Bitcoin.Address (AggregatedWithdrawal C) :=
  (utxos.toList.foldlM (aggregateUtxo .wrapping) ∅).toOption.getD ∅

theorem groupsOf_aggregates (utxos : Database OutPoint (Output C)) :
    AggregatesAll utxos.toList (groupsOf utxos) := by
  have built : ∃ groups, utxos.toList.foldlM (aggregateUtxo .wrapping) ∅ = .ok groups :=
    foldlM_aggregateUtxo_succeeds (.inl rfl)
  obtain ⟨groups, success⟩ := built
  have same : groupsOf utxos = groups := by
    rw [groupsOf, success]
    rfl
  rw [same]
  exact foldlM_aggregateUtxo success

/-- The aggregation builds the one table of its database exactly when each payout fits. -/
theorem aggregateUtxos_eq_ok {mode : Overflow} {utxos : Database OutPoint (Output C)}
    {groups : HashMap Bitcoin.Address (AggregatedWithdrawal C)} :
    utxos.toList.foldlM (aggregateUtxo mode) ∅ = .ok groups ↔ groups = groupsOf utxos ∧
      (mode = .checked → ∀ mainAddress, totalValue (withdrawalsTo mainAddress utxos.toList) <
        2 ^ 64) := by
  constructor
  · intro success
    refine ⟨(foldlM_aggregateUtxo success).unique (groupsOf_aggregates utxos), ?_⟩
    rintro rfl
    exact totalValue_lt_of_foldlM_aggregateUtxo success
  · rintro ⟨rfl, fits⟩
    have possible : mode = .wrapping ∨
        ∀ mainAddress, totalValue (withdrawalsTo mainAddress utxos.toList) < 2 ^ 64 := by
      cases mode with
      | checked => exact .inr (fits rfl)
      | wrapping => exact .inl rfl
    obtain ⟨groups, success⟩ := foldlM_aggregateUtxo_succeeds possible
    rw [← (foldlM_aggregateUtxo success).unique (groupsOf_aggregates utxos)]
    exact success

end State

end Ddk
