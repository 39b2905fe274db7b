/-
This file gives parties that announce the lengths of their logs and download
the next entry from each other.
-/

import Mathlib

namespace Foundation

open Relation

/-- A party asks one peer at a time for the entry at one index. -/
inductive Fetch (N β : Type) where
  | idle
  | asked (peer : N) (index : ℕ)
  | answered (peer : N) (index : ℕ) (entry : Option β)
  | stopped

/-- A request asks for an entry of the peer, and an answer is that entry. -/
def Fetch.Honest {N β : Type} (logs : N → List β) : Fetch N β → Prop
  | .idle => True
  | .asked peer index => index < (logs peer).length
  | .answered peer index entry => index < (logs peer).length ∧ entry = (logs peer)[index]?
  | .stopped => True

/-- A download asks for the entry after a log. -/
def Fetch.Next {N β : Type} (log : List β) : Fetch N β → Prop
  | .idle => True
  | .asked _ index => index = log.length
  | .answered _ index _ => index = log.length
  | .stopped => True

/-- An idle or stopped party waits for no peer. -/
def Fetch.Still {N β : Type} : Fetch N β → Prop
  | .idle => True
  | .asked _ _ => False
  | .answered _ _ _ => False
  | .stopped => True

theorem Fetch.Still.next {N β : Type} {fetch : Fetch N β} (still : fetch.Still)
    (log : List β) : fetch.Next log := by
  cases fetch with
  | idle => trivial
  | asked => exact still.elim
  | answered => exact still.elim
  | stopped => trivial

/-- Each party has a log, the last announcement of each peer and one download. -/
@[ext] structure Replicas (N β : Type) where
  logs : N → List β
  announcements : List (N × N × ℕ)
  heard : N → N → Option ℕ
  fetches : N → Fetch N β

/-- An event extends a log by an own entry or by a downloaded one. -/
inductive LogEvent (N β : Type) where
  | produced (node : N) (entry : β)
  | received (node : N)
  deriving DecidableEq

namespace Replicas

variable {N β : Type} [DecidableEq N]

omit [DecidableEq N] in
/-- A quiet system has empty logs, no announcement and no download. -/
def empty : Replicas N β := ⟨fun _ => [], [], fun _ _ => none, fun _ => .idle⟩

/-- The parties extend their logs, announce, hear or lose lengths and download entries. -/
inductive Step (before : Replicas N β) : Option (LogEvent N β) → Replicas N β → Prop where
  | produce (node : N) (entry : β) :
      Step before (some (.produced node entry)) { before with
        logs := Function.update before.logs node (before.logs node ++ [entry]) }
  | announce (sender receiver : N) :
      Step before none { before with
        announcements := before.announcements ++ [(sender, receiver, (before.logs sender).length)] }
  | hear {sender receiver : N} {length : ℕ} {first last : List (N × N × ℕ)}
      (waiting : before.announcements = first ++ (sender, receiver, length) :: last) :
      Step before none { before with
        announcements := first ++ last
        heard := Function.update before.heard receiver
          (Function.update (before.heard receiver) sender (some length)) }
  | lose {lost : N × N × ℕ} {first last : List (N × N × ℕ)}
      (waiting : before.announcements = first ++ lost :: last) :
      Step before none { before with announcements := first ++ last }
  | forget (node peer : N) :
      Step before none { before with
        heard := Function.update before.heard node (Function.update (before.heard node) peer none) }
  | ask {node peer : N} {length : ℕ} (idle : before.fetches node = .idle)
      (heard : before.heard node peer = some length) (ahead : (before.logs node).length < length) :
      Step before none { before with
        fetches := Function.update before.fetches node (.asked peer (before.logs node).length) }
  | answer {node peer : N} {index : ℕ} (asked : before.fetches node = .asked peer index) :
      Step before none { before with
        fetches := Function.update before.fetches node
          (.answered peer index (before.logs peer)[index]?) }
  | receive {node peer : N} {index : ℕ} {entry : β}
      (answered : before.fetches node = .answered peer index (some entry)) :
      Step before (some (.received node)) { before with
        logs := Function.update before.logs node (before.logs node ++ [entry])
        fetches := Function.update before.fetches node .idle }
  | discard {node peer : N} {index : ℕ}
      (answered : before.fetches node = .answered peer index none) :
      Step before none { before with fetches := Function.update before.fetches node .idle }
  | stop (node : N) :
      Step before none { before with fetches := Function.update before.fetches node .stopped }
  | rest : Step before none before

/-- A run lists its events, the last one first. -/
inductive Run (first : Replicas N β) : List (LogEvent N β) → Replicas N β → Prop where
  | start : Run first [] first
  | step {events : List (LogEvent N β)} {event : Option (LogEvent N β)}
      {before after : Replicas N β} (earlier : Run first events before)
      (taken : Step before event after) :
      Run first (event.toList ++ events) after

variable {before after : Replicas N β} {event : Option (LogEvent N β)}

/-- A property of all entries only needs a proof for the changed one. -/
theorem forall_update {V : Type} (Holds : N → V → Prop) {function : N → V} {key : N} {value : V}
    (all : ∀ query, Holds query (function query)) (changed : Holds key value) (query : N) :
    Holds query (Function.update function key value query) := by
  by_cases same : query = key
  · subst same
    rwa [Function.update_self]
  · rw [Function.update_of_ne same]
    exact all query

omit [DecidableEq N] in
/-- Taking one item out of a list keeps only old items. -/
theorem kept_mem {α : Type} {first last : List α} {item taken : α} (member : item ∈ first ++ last) :
    item ∈ first ++ taken :: last := by
  rcases List.mem_append.mp member with before | after
  · exact List.mem_append_left _ before
  · exact List.mem_append_right _ (List.mem_cons_of_mem _ after)

/-- No log loses an entry. -/
theorem Step.grows (taken : Step before event after)
    (node : N) : before.logs node <+: after.logs node := by
  have appended (key : N) (entry : β) :
      ∀ query, before.logs query <+: Function.update before.logs key
          (before.logs key ++ [entry]) query :=
    forall_update (fun query log => before.logs query <+: log) (fun _ => List.prefix_rfl)
      (List.prefix_append _ _)
  cases taken with
  | produce key entry => exact appended key entry node
  | receive => exact appended _ _ node
  | announce => exact List.prefix_rfl
  | hear => exact List.prefix_rfl
  | lose => exact List.prefix_rfl
  | forget => exact List.prefix_rfl
  | ask => exact List.prefix_rfl
  | answer => exact List.prefix_rfl
  | discard => exact List.prefix_rfl
  | stop => exact List.prefix_rfl
  | rest => exact List.prefix_rfl

theorem Run.grows {first : Replicas N β} {events : List (LogEvent N β)}
    (run : Run first events after) (node : N) :
    first.logs node <+: after.logs node := by
  induction run with
  | start => exact List.prefix_rfl
  | step _ taken ih => exact ih.trans (taken.grows node)

/-- Each announced length is reached, and each answer is the entry of the peer. -/
structure Honest (replicas : Replicas N β) : Prop where
  announced : ∀ announcement ∈ replicas.announcements,
    announcement.2.2 ≤ (replicas.logs announcement.1).length
  heard : ∀ node peer, ∀ length ∈ replicas.heard node peer, length ≤ (replicas.logs peer).length
  fetched : ∀ node, (replicas.fetches node).Honest replicas.logs

omit [DecidableEq N] in
theorem Honest.empty : Honest (empty : Replicas N β) where
  announced _ member := absurd member List.not_mem_nil
  heard _ _ _ found := nomatch found
  fetched _ := trivial

omit [DecidableEq N] in
/-- Longer logs keep the facts about shorter ones. -/
theorem Honest.longer {replicas : Replicas N β} (honest : Honest replicas) {logs : N → List β}
    (grows : ∀ node, replicas.logs node <+: logs node) : Honest { replicas with logs } where
  announced announcement member := (honest.announced announcement member).trans (grows _).length_le
  heard node peer length found := (honest.heard node peer length found).trans (grows peer).length_le
  fetched node := by
    have before := honest.fetched node
    change (replicas.fetches node).Honest logs
    cases fetch : replicas.fetches node with
    | idle => trivial
    | asked peer index =>
        rw [fetch] at before
        exact Nat.lt_of_lt_of_le before (grows peer).length_le
    | answered peer index entry =>
        rw [fetch] at before
        obtain ⟨inside, same⟩ := before
        refine ⟨inside.trans_le (grows peer).length_le, ?_⟩
        obtain ⟨rest, split⟩ := grows peer
        rw [same, ← split, List.getElem?_append_left inside]
    | stopped => trivial

/-- A changed download only needs facts about itself. -/
theorem Honest.fetch {replicas : Replicas N β} (honest : Honest replicas) {node : N}
    {fetch : Fetch N β} (changed : fetch.Honest replicas.logs) :
    Honest { replicas with fetches := Function.update replicas.fetches node fetch } :=
  ⟨honest.announced, honest.heard,
    forall_update (fun _ (fetch : Fetch N β) => fetch.Honest replicas.logs)
    honest.fetched changed⟩

/-- A changed length only needs a fact about itself. -/
theorem Honest.hear {replicas : Replicas N β} (honest : Honest replicas) {receiver sender : N}
    {value : Option ℕ} (changed : ∀ length ∈ value, length ≤ (replicas.logs sender).length) :
    Honest { replicas with
      heard := Function.update replicas.heard receiver
        (Function.update (replicas.heard receiver) sender value) } :=
  ⟨honest.announced, forall_update
    (fun _ (heard : N → Option ℕ) => ∀ peer, ∀ length ∈ heard peer,
      length ≤ (replicas.logs peer).length)
    honest.heard (forall_update (fun peer (value : Option ℕ) => ∀ length ∈ value,
      length ≤ (replicas.logs peer).length)
      (honest.heard receiver) changed), honest.fetched⟩

omit [DecidableEq N] in
/-- The other announcements stay as they are. -/
theorem Honest.taken {replicas : Replicas N β} (honest : Honest replicas) {lost : N × N × ℕ}
    {first last : List (N × N × ℕ)} (waiting : replicas.announcements = first ++ lost :: last) :
    Honest { replicas with announcements := first ++ last } := by
  have announced := honest.announced
  rw [waiting] at announced
  exact ⟨fun announcement member => announced announcement (kept_mem member), honest.heard,
    honest.fetched⟩

theorem Honest.step (honest : Honest before) (taken : Step before event after) : Honest after := by
  have grows := taken.grows
  cases taken with
  | produce => exact honest.longer grows
  | announce sender receiver =>
      refine ⟨fun announcement member => ?_, honest.heard, honest.fetched⟩
      rcases List.mem_append.mp member with earlier | last
      · exact honest.announced announcement earlier
      · rw [List.mem_singleton.mp last]
  | hear waiting =>
      have heard := honest.announced
      rw [waiting] at heard
      refine (honest.taken waiting).hear fun length same => ?_
      cases same
      exact heard _ (List.mem_append_right _ List.mem_cons_self)
  | lose waiting => exact honest.taken waiting
  | forget => exact honest.hear fun _ found => nomatch found
  | ask _ claimed ahead => exact honest.fetch (ahead.trans_le (honest.heard _ _ _ claimed))
  | @answer node peer index asked =>
      have inside := honest.fetched node
      rw [asked] at inside
      exact honest.fetch ⟨inside, rfl⟩
  | receive => exact (honest.longer grows).fetch trivial
  | discard => exact honest.fetch trivial
  | stop => exact honest.fetch trivial
  | rest => exact honest

/-- In every run, each answer is an entry of the peer. -/
theorem Run.honest {events : List (LogEvent N β)} (run : Run empty events after) :
    Honest after := by
  induction run with
  | start => exact .empty
  | step _ taken ih => exact ih.step taken

/-- Each entry was produced by some party. -/
def Copied (events : List (LogEvent N β)) (logs : N → List β) : Prop :=
  ∀ node, ∀ entry ∈ logs node, ∃ producer, .produced producer entry ∈ events

/-- In every run, the downloads only copy entries. -/
theorem Run.copied {events : List (LogEvent N β)} (run : Run empty events after) :
    Copied events after.logs := by
  induction run with
  | start => exact fun _ _ member => absurd member List.not_mem_nil
  | @step events event before after earlier taken ih =>
      have kept : Copied (event.toList ++ events) before.logs := by
        intro node entry member
        obtain ⟨producer, produced⟩ := ih node entry member
        exact ⟨producer, List.mem_append_right _ produced⟩
      have appended (key : N) (entry : β)
          (source : ∃ producer, .produced producer entry ∈ event.toList ++ events) :
          Copied (event.toList ++ events)
              (Function.update before.logs key (before.logs key ++ [entry])) := by
        apply forall_update (fun _ (log : List β) => ∀ entry ∈ log, ∃ producer,
          LogEvent.produced producer entry ∈ event.toList ++ events) kept
        intro other member
        rcases List.mem_append.mp member with old | new
        · exact kept key other old
        · rwa [List.mem_singleton.mp new]
      cases taken with
      | produce node entry => exact appended node entry ⟨node, List.mem_cons_self⟩
      | @receive node peer index entry answered =>
          have honest := earlier.honest.fetched node
          rw [answered] at honest
          exact appended node entry (kept peer entry (List.mem_of_getElem? honest.2.symm))
      | announce => exact kept
      | hear => exact kept
      | lose => exact kept
      | forget => exact kept
      | ask => exact kept
      | answer => exact kept
      | discard => exact kept
      | stop => exact kept
      | rest => exact kept

/-- Only one party produces entries. -/
def ProducedBy (source : N) (events : List (LogEvent N β)) : Prop :=
  ∀ node entry, .produced node entry ∈ events → node = source

/-- Each log is a part of the source's log, and each download extends its log by the next entry. -/
structure Follows (source : N) (replicas : Replicas N β) : Prop where
  honest : Honest replicas
  prefixes : ∀ node, replicas.logs node <+: replicas.logs source
  still : (replicas.fetches source).Still
  next : ∀ node, (replicas.fetches node).Next (replicas.logs node)

omit [DecidableEq N] in
theorem Follows.empty (source : N) : Follows source (empty : Replicas N β) where
  honest := .empty
  prefixes _ := List.prefix_rfl
  still := trivial
  next _ := trivial

/-- Only a party other than the source waits for a peer. -/
theorem Follows.fetch {source : N} {replicas : Replicas N β}
    (follows : Follows source replicas) {node : N} {fetch : Fetch N β}
    (changed : fetch.Honest replicas.logs) (other : node = source → fetch.Still)
    (next : fetch.Next (replicas.logs node)) :
    Follows source { replicas with fetches := Function.update replicas.fetches node fetch } where
  honest := follows.honest.fetch changed
  prefixes := follows.prefixes
  still := by
    change (Function.update replicas.fetches node fetch source).Still
    by_cases same : source = node
    · rw [← same, Function.update_self]
      exact other same.symm
    · rw [Function.update_of_ne same]
      exact follows.still
  next := forall_update (fun node (fetch : Fetch N β) => fetch.Next (replicas.logs node))
    follows.next next

omit [DecidableEq N] in
/-- The source does not ask a party whose log is a part of its own. -/
theorem Follows.ne_source {source : N} {replicas : Replicas N β}
    (follows : Follows source replicas) {node : N}
    (waits : ¬ (replicas.fetches node).Still) : node ≠ source := by
  rintro rfl
  exact waits follows.still

omit [DecidableEq N] in
/-- The entry at the end of a shorter log extends it. -/
theorem prefix_concat {short long : List β} {entry : β} (part : short <+: long)
    (found : long[short.length]? = some entry) : short ++ [entry] <+: long := by
  obtain ⟨rest, rfl⟩ := part
  rw [List.getElem?_append_right le_rfl, Nat.sub_self] at found
  cases rest with
  | nil => cases found
  | cons head rest =>
      cases found
      exact ⟨rest, by rw [List.append_assoc, List.singleton_append]⟩

omit [DecidableEq N] in
/-- The entry of a download extends a log to a longer part of the log of the source. -/
theorem Follows.extends {source : N} {replicas : Replicas N β} (follows : Follows source replicas)
    {node peer : N} {index : ℕ} {entry : β}
    (answered : replicas.fetches node = .answered peer index (some entry)) :
    replicas.logs node ++ [entry] <+: replicas.logs source := by
  have inside := follows.honest.fetched node
  have next := follows.next node
  rw [answered] at inside next
  obtain ⟨bounded, same⟩ := inside
  obtain ⟨rest, split⟩ := follows.prefixes peer
  have index_eq : index = (replicas.logs node).length := next
  apply prefix_concat (follows.prefixes node)
  rw [← split, ← index_eq, List.getElem?_append_left bounded, same]

theorem Follows.step {source : N} (follows : Follows source before)
    (taken : Step before event after)
    (permitted : ProducedBy source event.toList) : Follows source after := by
  have honest := follows.honest.step taken
  cases taken with
  | produce node entry =>
      have same : node = source := permitted node entry List.mem_cons_self
      subst same
      refine ⟨honest, ?_, follows.still, ?_⟩
      · change ∀ query, Function.update before.logs node (before.logs node ++ [entry]) query <+:
          Function.update before.logs node (before.logs node ++ [entry]) node
        rw [Function.update_self]
        exact forall_update (fun _ log => log <+: before.logs node ++ [entry])
          (fun query => (follows.prefixes query).trans (List.prefix_append _ _)) List.prefix_rfl
      · intro query
        change (before.fetches query).Next
          (Function.update before.logs node (before.logs node ++ [entry]) query)
        by_cases same : query = node
        · rw [same]
          exact follows.still.next _
        · rw [Function.update_of_ne same]
          exact follows.next query
  | announce sender receiver => exact ⟨honest, follows.prefixes, follows.still, follows.next⟩
  | hear waiting => exact ⟨honest, follows.prefixes, follows.still, follows.next⟩
  | lose waiting => exact ⟨honest, follows.prefixes, follows.still, follows.next⟩
  | forget => exact ⟨honest, follows.prefixes, follows.still, follows.next⟩
  | @ask node peer length _ claimed ahead =>
      have reached := follows.honest.heard _ _ _ claimed
      refine follows.fetch (ahead.trans_le reached) (fun same => ?_) rfl
      have shorter := (follows.prefixes peer).length_le
      rw [same] at ahead
      omega
  | @answer node peer index asked =>
      have inside := follows.honest.fetched node
      have next := follows.next node
      have other := @Follows.ne_source N β source before follows node
      rw [asked] at inside next other
      exact follows.fetch ⟨inside, rfl⟩ (fun same => absurd same (other id)) next
  | @receive node peer index entry answered =>
      have other := @Follows.ne_source N β source before follows node
      rw [answered] at other
      have apart := other id
      have part := follows.extends answered
      refine ⟨honest, ?_, ?_, ?_⟩
      · change ∀ query, Function.update before.logs node (before.logs node ++ [entry]) query <+:
          Function.update before.logs node (before.logs node ++ [entry]) source
        rw [Function.update_of_ne apart.symm]
        exact forall_update (fun _ log => log <+: before.logs source) follows.prefixes part
      · change (Function.update before.fetches node .idle source).Still
        rw [Function.update_of_ne apart.symm]
        exact follows.still
      · intro query
        change (Function.update before.fetches node .idle query).Next
          (Function.update before.logs node (before.logs node ++ [entry]) query)
        by_cases same : query = node
        · rw [same, Function.update_self, Function.update_self]
          trivial
        · rw [Function.update_of_ne same, Function.update_of_ne same]
          exact follows.next query
  | discard => exact follows.fetch trivial (fun _ => trivial) trivial
  | stop => exact follows.fetch trivial (fun _ => trivial) trivial
  | rest => exact follows

/-- In every run with one producer, each log is a part of its log. -/
theorem Run.follows {source : N} {events : List (LogEvent N β)} (run : Run empty events after)
    (produced : ProducedBy source events) : Follows source after := by
  induction run with
  | start => exact .empty source
  | step _ taken ih =>
      exact (ih fun node entry member => produced node entry (List.mem_append_right _ member)).step
        taken
        fun node entry member => produced node entry (List.mem_append_left _ member)

/-- In a settled system the last announcements are current and no entry is left to ask for. -/
structure Settled (linked : N → N → Prop) (replicas : Replicas N β) : Prop where
  current : ∀ node peer, linked node peer → replicas.heard node peer =
    some (replicas.logs peer).length
  caught : ∀ node peer, ∀ length ∈ replicas.heard node peer, length ≤ (replicas.logs node).length

omit [DecidableEq N] in
/-- In a settled system, each party that is connected to the source has its whole log. -/
theorem Follows.settled {source : N} {replicas : Replicas N β} (follows : Follows source replicas)
    {linked : N → N → Prop} (settled : Settled linked replicas) {node : N}
    (connected : ReflTransGen linked node source) : replicas.logs node = replicas.logs source := by
  have longer : (replicas.logs source).length ≤ (replicas.logs node).length := by
    induction connected using ReflTransGen.head_induction_on with
    | refl => exact le_rfl
    | head link _ ih => exact ih.trans (settled.caught _ _ _ (settled.current _ _ link))
  exact (follows.prefixes node).eq_of_length_le longer

section

variable [Fintype N]

/-- These are all entries of all logs. -/
def entryCount (logs : N → List β) : ℕ := ∑ node, (logs node).length

theorem entryCount_append (logs : N → List β) (node : N) (entry : β) :
    entryCount (Function.update logs node (logs node ++ [entry])) = entryCount logs + 1 := by
  rw [entryCount, entryCount, ← Finset.add_sum_erase _ _ (Finset.mem_univ node),
    ← Finset.add_sum_erase _ _ (Finset.mem_univ node), Function.update_self, List.length_append,
    List.length_singleton]
  have others : ∑ other ∈ Finset.univ.erase node,
      (Function.update logs node (logs node ++ [entry]) other).length =
      ∑ other ∈ Finset.univ.erase node, (logs other).length := by
    apply Finset.sum_congr rfl
    intro other member
    rw [Function.update_of_ne (Finset.ne_of_mem_erase member)]
  rw [others]
  omega

/-- Each event adds one entry. -/
theorem Step.entryCount_eq (taken : Step before event after) :
    entryCount after.logs = entryCount before.logs + event.toList.length := by
  cases taken with
  | produce node entry => exact entryCount_append _ _ _
  | receive => exact entryCount_append _ _ _
  | announce => rfl
  | hear => rfl
  | lose => rfl
  | forget => rfl
  | ask => rfl
  | answer => rfl
  | discard => rfl
  | stop => rfl
  | rest => rfl

theorem Run.entryCount_eq {first : Replicas N β} {events : List (LogEvent N β)}
    (run : Run first events after) :
    entryCount after.logs = entryCount first.logs + events.length := by
  induction run with
  | start => rfl
  | step _ taken ih =>
      rw [taken.entryCount_eq, ih, List.length_append]
      omega

omit [Fintype N] in
/-- Without new entries, the source keeps its log. -/
theorem Follows.quiet {source : N} (follows : Follows source before)
    (taken : Step before event after) (quiet : ∀ node entry, .produced node entry ∉ event.toList) :
    Follows source after ∧ after.logs source = before.logs source := by
  refine ⟨follows.step taken fun node entry member => absurd member (quiet node entry), ?_⟩
  cases taken with
  | produce node entry => exact absurd List.mem_cons_self (quiet node entry)
  | @receive node peer index entry answered =>
      have apart := @Follows.ne_source N β source before follows node
      rw [answered] at apart
      exact Function.update_of_ne (apart id).symm _ _
  | announce => rfl
  | hear => rfl
  | lose => rfl
  | forget => rfl
  | ask => rfl
  | answer => rfl
  | discard => rfl
  | stop => rfl
  | rest => rfl

/-- Without new entries, all downloads of all runs together are bounded. -/
theorem Run.bounded {source : N} {first : Replicas N β} {events : List (LogEvent N β)}
    (follows : Follows source first) (run : Run first events after)
    (quiet : ∀ node entry, .produced node entry ∉ events) :
    entryCount first.logs + events.length ≤ Fintype.card N * (first.logs source).length := by
  have kept : Follows source after ∧ after.logs source = first.logs source := by
    induction run with
    | start => exact ⟨follows, rfl⟩
    | step _ taken ih =>
        obtain ⟨before, same⟩ := ih fun node entry member =>
          quiet node entry (List.mem_append_right _ member)
        obtain ⟨after, last⟩ := before.quiet taken fun node entry member =>
          quiet node entry (List.mem_append_left _ member)
        exact ⟨after, last.trans same⟩
  rw [← run.entryCount_eq, ← kept.2]
  have shorter : ∀ node ∈ Finset.univ, (after.logs node).length ≤ (after.logs source).length :=
    fun node _ => (kept.1.prefixes node).length_le
  exact (Finset.sum_le_card_nsmul _ _ _ shorter).trans_eq (smul_eq_mul _ _)

end

end Replicas

end Foundation
