import Ddk.Construction.Reference
import Ddk.Proof.Net.Sync

namespace Ddk

open Foundation Relation

namespace ChainNetwork

section

variable [Bitcoin] [Blake3] {N A C S : Type} [Bincode C] [DecidableEq N] [DecidableEq C]
variable [CustomState S A C]
variable [GetValue C] [GetAddress A] [Verify A C]
variable {mode : Overflow} {customStates : N → S} {events : List (LogEvent N (Header × Body A C))}
variable {network next : ChainNetwork N A C S} {source : N}

/-- A run from new nodes is a run of the replicas from empty logs. -/
theorem Run.replicated (run : Run mode (new customStates) events network)
    (bounded : Bounded network) :
    ∃ replicas, Replicas.Run .empty events replicas ∧ Simulates network replicas :=
  run.simulated (.new customStates) bounded

/-- An answer is the block of the peer at the asked height. -/
theorem Run.answered_block (run : Run mode (new customStates) events network)
    (bounded : Bounded network) {node peer : N} {height : UInt32} {response : Response A C}
    (answered : network.tasks node = .answered peer height response) :
    ∃ header body, response = .block header body ∧
      (network.nodes peer).archive.getHeader height = some header ∧
      (network.nodes peer).archive.getBody height = some body := by
  obtain ⟨replicas, logged, simulates⟩ := run.replicated bounded
  have positive := simulates.positive node
  have fetched := logged.honest.fetched node
  rw [simulates.fetch, answered] at fetched
  rw [answered] at positive
  cases response with
  | block header body =>
      obtain ⟨_, same⟩ := fetched
      obtain ⟨found, stored⟩ := (simulates.logs peer).found positive same.symm
      exact ⟨header, body, rfl, found, stored⟩
  | noBlock => exact absurd fetched.2 (List.getElem?_eq_getElem fetched.1 ▸ nofun)
  | transactionAccepted => exact absurd fetched.2 (List.getElem?_eq_getElem fetched.1 ▸ nofun)
  | transactionRejected => exact absurd fetched.2 (List.getElem?_eq_getElem fetched.1 ▸ nofun)

/-- In every run, a claimed height is reached and an answer is the asked block of the peer. -/
theorem Run.answers_held (run : Run mode (new customStates) events network)
    (bounded : Bounded network) :
    (∀ node peer state, network.states node peer = some state →
      state.blockHeight ≤ (network.nodes peer).archive.getHeight) ∧
    (∀ heartBeat ∈ network.heartBeats,
      heartBeat.state.blockHeight ≤ (network.nodes heartBeat.sender).archive.getHeight) ∧
    ∀ node peer height response, network.tasks node = .answered peer height response →
      ∃ header body, response = .block header body ∧
        (network.nodes peer).archive.getHeader height = some header ∧
        (network.nodes peer).archive.getBody height = some body := by
  obtain ⟨replicas, logged, simulates⟩ := run.replicated bounded
  have honest := logged.honest
  refine ⟨fun node peer state found => ?_, fun heartBeat member => ?_,
    fun node peer height response answered => run.answered_block bounded answered⟩
  · have heard : state.blockHeight.toNat ∈ replicas.heard node peer := by
      rw [simulates.heard]
      simp only [found, Option.map_some, Option.mem_def]
    rw [UInt32.le_iff_toNat_le, (simulates.logs peer).height]
    exact honest.heard node peer _ heard
  · have announced : heartBeat.announcement ∈ replicas.announcements := by
      rw [simulates.announcements]
      exact List.mem_map_of_mem member
    rw [UInt32.le_iff_toNat_le, (simulates.logs heartBeat.sender).height]
    exact honest.announced _ announced

/-- In every run, a stored block was submitted by some miner with this header and body. -/
theorem Run.stored_submitted (run : Run mode (new customStates) events network)
    (bounded : Bounded network) {node : N} {height : UInt32} {header : Header}
    (found : (network.nodes node).archive.getHeader height = some header) :
    ∃ body, (network.nodes node).archive.getBody height = some body ∧
      ∃ miner, .produced miner (header, body) ∈ events := by
  obtain ⟨replicas, logged, simulates⟩ := run.replicated bounded
  obtain ⟨body, stored, member⟩ := (simulates.logs node).stored found
  exact ⟨body, stored, logged.copied node _ member⟩

/-- In a run with one miner, the archives follow its archive. -/
theorem Run.followed (run : Run mode (new customStates) events network) (bounded : Bounded network)
    (mined : Replicas.ProducedBy source events) :
    ∃ replicas, Replicas.Follows source replicas ∧ Simulates network replicas := by
  obtain ⟨replicas, logged, simulates⟩ := run.replicated bounded
  exact ⟨replicas, logged.follows mined, simulates⟩

/-- In a run with one miner, each archive agrees with the miner's up to its own height. -/
theorem Run.one_miner_agree (run : Run mode (new customStates) events network)
    (bounded : Bounded network) (mined : Replicas.ProducedBy source events) (node : N) :
    (network.nodes node).archive.getHeight ≤ (network.nodes source).archive.getHeight ∧
      (network.nodes node).archive.Agree (network.nodes source).archive
        (network.nodes node).archive.getHeight := by
  obtain ⟨replicas, follows, simulates⟩ := run.followed bounded mined
  refine ⟨?_, (simulates.logs node).agree (simulates.logs source) (follows.prefixes node)⟩
  rw [UInt32.le_iff_toNat_le, (simulates.logs node).height, (simulates.logs source).height]
  exact (follows.prefixes node).length_le

/-- In a run with one miner, an answered block is the next one, and its archive accepts it. -/
theorem Run.one_miner_appends (run : Run mode (new customStates) events network)
    (bounded : Bounded network) (mined : Replicas.ProducedBy source events) {node peer : N}
    {height : UInt32} {header : Header} {body : Body A C}
    (answered : network.tasks node = .answered peer height (.block header body)) :
    height.toNat = (network.nodes node).archive.getHeight.toNat + 1 ∧
      ∃ appended stored, (network.nodes node).archive.appendHeader (C := C) mode header =
        .ok appended ∧
        appended.putBody header body = .ok stored := by
  obtain ⟨replicas, follows, simulates⟩ := run.followed bounded mined
  have task : replicas.fetches node = .answered peer (height.toNat - 1) (some (header, body)) := by
    rw [simulates.fetch, answered, DownloadTask.fetch]
  have part := follows.extends task
  have next := follows.next node
  have positive := simulates.positive node
  rw [task] at next
  rw [answered] at positive
  obtain ⟨_, named⟩ := linked_concat.mp ((simulates.logs source).linked.of_prefix part)
  have rooted := (simulates.logs source).rooted (header, body) (part.subset (by simp))
  have number : height.toNat - 1 = (replicas.logs node).length := next
  have positive : 0 < height.toNat := positive
  have room := bounded node
  have low : (network.nodes node).archive.getHeight.toNat + 1 < 2 ^ 32 := by omega
  obtain ⟨counted, _⟩ := add32_one Archive.Error mode low
  obtain ⟨appended, success, stored⟩ := Archive.appends_iff.mpr
    ⟨_, named.trans (simulates.logs node).best.symm, rooted, counted, rfl⟩
  rw [(simulates.logs node).height]
  exact ⟨by omega, appended, _, success, stored⟩

/-- At rest every download task is idle and can ask no peer, and the linked states are current. -/
structure Rests (mode : Overflow) (linked : N → N → Prop)
    (network : ChainNetwork N A C S) : Prop where
  idle : ∀ node, network.tasks node = .idle
  caught : ∀ node peer, network.request mode node peer = none
  current : ∀ node peer, linked node peer → ∃ state, network.states node peer = some state ∧
    state.blockHeight = (network.nodes peer).archive.getHeight

omit [Blake3] [Bincode C] [DecidableEq C] [CustomState S A C] [GetValue C] [GetAddress A]
  [Verify A C] in
/-- A task that cannot ask a peer has heard of no greater height. -/
theorem Rests.not_ahead {linked : N → N → Prop} (rests : Rests mode linked network) {node peer : N}
    {state : PeerState} (found : network.states node peer = some state) :
    state.blockHeight ≤ (network.nodes node).archive.getHeight := by
  by_contra above
  have none := rests.caught node peer
  rw [ChainNetwork.request, rests.idle, found] at none
  dsimp only at none
  rw [if_pos (UInt32.not_le.mp above)] at none
  split at none
  next => cases none
  next => cases none

omit [DecidableEq C] [CustomState S A C] [GetValue C] [GetAddress A] [Verify A C] in
/-- A network at rest is a settled system. -/
theorem Rests.settled {linked : N → N → Prop} {replicas : Replicas N (Header × Body A C)}
    (rests : Rests mode linked network) (simulates : Simulates network replicas) :
    Replicas.Settled linked replicas where
  current node peer link := by
    obtain ⟨state, found, same⟩ := rests.current node peer link
    rw [simulates.heard, ← (simulates.logs peer).height, ← same]
    simp only [found, Option.map_some]
  caught node peer length heard := by
    rw [simulates.heard, Option.mem_def, Option.map_eq_some_iff] at heard
    obtain ⟨state, found, rfl⟩ := heard
    rw [← (simulates.logs node).height]
    exact UInt32.le_iff_toNat_le.mp (rests.not_ahead found)

/-- In a run with one miner, each node that is linked to it has the whole chain at rest. -/
theorem Run.rests_agree (run : Run mode (new customStates) events network)
    (bounded : Bounded network) (mined : Replicas.ProducedBy source events) {linked : N → N → Prop}
    (rests : Rests mode linked network) {node : N} (connected : ReflTransGen linked node source) :
    (network.nodes node).archive.getBestHash = (network.nodes source).archive.getBestHash ∧
      ∀ height, (network.nodes node).archive.Agree (network.nodes source).archive height := by
  obtain ⟨replicas, follows, simulates⟩ := run.followed bounded mined
  have same := follows.settled (rests.settled simulates) connected
  have first := simulates.logs node
  have second := simulates.logs source
  rw [same] at first
  exact ⟨first.best.trans second.best.symm, fun _ height _ =>
    ⟨(first.headers height).trans (second.headers height).symm,
      (first.bodies height).trans (second.bodies height).symm⟩⟩

/-- Without a new block of the miner, all downloads together fill at most the missing heights. -/
theorem Run.one_miner_bounded [Fintype N] {first : ChainNetwork N A C S}
    {later : List (LogEvent N (Header × Body A C))}
    (before : Run mode (new customStates) events first) (mined : Replicas.ProducedBy source events)
    (run : Run mode first later network) (bounded : Bounded network)
    (quiet : ∀ miner block, .produced miner block ∉ later) :
    later.length + ∑ node, (first.nodes node).archive.getHeight.toNat ≤
      Fintype.card N * (first.nodes source).archive.getHeight.toNat := by
  have low : Bounded first := fun node => (run.height_le node).trans_lt (bounded node)
  obtain ⟨replicas, follows, simulates⟩ := before.followed low mined
  obtain ⟨after, logged, _⟩ := run.simulated simulates bounded
  have filled := logged.bounded follows quiet
  have heights : ∑ node, (first.nodes node).archive.getHeight.toNat =
      Replicas.entryCount replicas.logs :=
    Finset.sum_congr rfl fun node _ => (simulates.logs node).height
  rw [heights, (simulates.logs source).height]
  omega

/-- This list of actions runs as long as each of them is possible. -/
def play (mode : Overflow) (actions : List (Action N A C)) (start : ChainNetwork N A C S) :
    Option (List (LogEvent N (Header × Body A C)) × ChainNetwork N A C S) :=
  actions.foldlM (fun reached action =>
    (reached.2.step mode action).map fun next =>
      ((reached.2.event mode action).toList ++ reached.1, next)) ([], start)

/-- A property of the start that each played step keeps holds at the end. -/
theorem play_induction
    {motive : List (LogEvent N (Header × Body A C)) → ChainNetwork N A C S → Prop}
    {actions : List (Action N A C)} {first : ChainNetwork N A C S}
    {last : List (LogEvent N (Header × Body A C)) × ChainNetwork N A C S} (start : motive [] first)
    (kept : ∀ action ∈ actions, ∀ events network next, motive events network →
      network.step mode action = some next →
      motive ((network.event mode action).toList ++ events) next)
    (played : ChainNetwork.play mode actions first = some last) : motive last.1 last.2 := by
  have continued (actions : List (Action N A C))
    (reached : List (LogEvent N (Header × Body A C)) × ChainNetwork N A C S)
      (kept : ∀ action ∈ actions, ∀ events network next, motive events network →
        network.step mode action = some next →
        motive ((network.event mode action).toList ++ events) next)
      (holds : motive reached.1 reached.2)
      (played : actions.foldlM (fun reached action => (reached.2.step mode action).map fun next =>
        ((reached.2.event mode action).toList ++ reached.1, next)) reached = some last) :
      motive last.1 last.2 := by
    induction actions generalizing reached with
    | nil =>
        cases played
        exact holds
    | cons action actions ih =>
        rw [List.foldlM_cons, Option.bind_eq_bind, Option.bind_eq_some_iff] at played
        obtain ⟨next, taken, played⟩ := played
        obtain ⟨network, stepped, rfl⟩ := Option.map_eq_some_iff.mp taken
        have here := kept action List.mem_cons_self reached.1 reached.2 network holds stepped
        exact ih _ (fun action member => kept action (List.mem_cons_of_mem _ member)) here played
  exact continued actions _ kept start played

/-- A played list continues a run. -/
theorem Run.play {actions : List (Action N A C)} {first : ChainNetwork N A C S}
    {last : List (LogEvent N (Header × Body A C)) × ChainNetwork N A C S}
    (played : ChainNetwork.play mode actions first = some last) : Run mode first last.1 last.2 :=
  play_induction .start (fun _ _ _ _ _ before taken => before.step taken) played

end

section

open Reference

/-- The first node mines a block, and the second node asks for it after a heart beat. -/
def asking : List (Action Bool Authorization Unit) := [
  .submit false orders (worthlessBlock 1).header (worthlessBlock 1).body
    ((worthlessBlock 1).pegData (Node.new ())),
  .heartBeat false true, .heartBeatListen 0, .request true false, .answer true]

/-- The second node takes the block and announces its height. -/
def taking : List (Action Bool Authorization Unit) :=
  [.receive true orders ((worthlessBlock 1).pegData (Node.new ())), .heartBeat true false,
    .heartBeatListen 0]

def newPair : ChainNetwork Bool Authorization Unit Unit := new fun _ => ()

def played (actions : List (Action Bool Authorization Unit))
    (start : ChainNetwork Bool Authorization Unit Unit) :
    List (LogEvent Bool (Header × Body Authorization Unit)) ×
      ChainNetwork Bool Authorization Unit Unit :=
  (play .wrapping actions start).getD ([], start)

theorem played_run {actions : List (Action Bool Authorization Unit)}
    {start : ChainNetwork Bool Authorization Unit Unit}
    (possible : (play .wrapping actions start).isSome) :
    Run .wrapping start (played actions start).1 (played actions start).2 := by
  obtain ⟨last, reached⟩ := Option.isSome_iff_exists.mp possible
  rw [played, reached]
  exact Run.play reached

/-- The second node has the answer, and only the first node has mined. -/
theorem asking_facts : (play .wrapping asking newPair).isSome ∧
    (∀ node, ((played asking newPair).2.nodes node).archive.getHeight.toNat < 2 ^ 32 - 1) ∧
    (played asking newPair).1 =
      [.produced false ((worthlessBlock 1).header, (worthlessBlock 1).body)] ∧
    (played asking newPair).2.tasks true =
      .answered false 1 (.block (worthlessBlock 1).header (worthlessBlock 1).body) := by
  decide +kernel

theorem asking_run : Run .wrapping newPair (played asking newPair).1 (played asking newPair).2 :=
  played_run asking_facts.1

theorem asking_bounded : (played asking newPair).2.Bounded := asking_facts.2.1

theorem asking_mined : Replicas.ProducedBy false (played asking newPair).1 := by
  obtain ⟨_, _, events, _⟩ := asking_facts
  intro node block member
  rw [events, List.mem_singleton] at member
  cases member
  rfl

theorem asking_answered : (played asking newPair).2.tasks true =
    .answered false 1 (.block (worthlessBlock 1).header (worthlessBlock 1).body) :=
  asking_facts.2.2.2

/-- The second node takes the block of the answer. -/
theorem taking_facts : (play .wrapping taking (played asking newPair).2).isSome ∧
    (∀ node, ((played taking (played asking newPair).2).2.nodes node).archive.getHeight.toNat <
      2 ^ 32 - 1) ∧
    (played taking (played asking newPair).2).1 = [.received true] := by
  decide +kernel

/-- These are all actions of both nodes. -/
def syncing : List (Action Bool Authorization Unit) := asking ++ taking

/-- Both nodes have the block, wait for nobody and know the height of the other. -/
theorem syncing_facts : (play .wrapping syncing newPair).isSome ∧
    (∀ node, ((played syncing newPair).2.nodes node).archive.getHeight.toNat < 2 ^ 32 - 1) ∧
    (played syncing newPair).1 =
      [.received true, .produced false ((worthlessBlock 1).header, (worthlessBlock 1).body)] ∧
    (∀ node, (played syncing newPair).2.tasks node = .idle) ∧
    (∀ node peer, ((played syncing newPair).2.request .wrapping node peer).isNone) ∧
    (∀ node peer, node ≠ peer → ((played syncing newPair).2.states node peer).map (·.blockHeight) =
      some ((played syncing newPair).2.nodes peer).archive.getHeight) ∧
    ((played syncing newPair).2.nodes true).archive.getHeader 1 = some (worthlessBlock 1).header ∧
    ((played syncing newPair).2.nodes true).archive.getBody 1 = some (worthlessBlock 1).body := by
  decide +kernel

theorem syncing_run : Run .wrapping newPair (played syncing newPair).1 (played syncing newPair).2 :=
  played_run syncing_facts.1

theorem syncing_bounded : (played syncing newPair).2.Bounded := syncing_facts.2.1

theorem syncing_mined : Replicas.ProducedBy false (played syncing newPair).1 := by
  obtain ⟨_, _, events, _⟩ := syncing_facts
  intro node block member
  rw [events, List.mem_cons, List.mem_singleton] at member
  rcases member with other | same
  · cases other
  · cases same
    rfl

theorem syncing_rests : Rests .wrapping (fun first second => first ≠ second)
    (played syncing newPair).2 := by
  obtain ⟨_, _, _, idle, caught, current, _⟩ := syncing_facts
  exact ⟨idle, fun node peer => Option.isNone_iff_eq_none.mp (caught node peer),
    fun node peer different => Option.map_eq_some_iff.mp (current node peer different)⟩

theorem answers_held_asking :
    ((played asking newPair).2.nodes false).archive.getHeader 1 = some (worthlessBlock 1).header ∧
      ((played asking newPair).2.nodes false).archive.getBody 1 = some (worthlessBlock 1).body := by
  obtain ⟨header, body, same, found⟩ :=
    (Run.answers_held asking_run asking_bounded).2.2 _ _ _ _ asking_answered
  rw [Response.block.injEq] at same
  rwa [same.1, same.2]

theorem stored_submitted_syncing :
    ∃ miner, .produced miner ((worthlessBlock 1).header, (worthlessBlock 1).body) ∈
      (played syncing newPair).1 := by
  obtain ⟨_, _, _, _, _, _, found, same⟩ := syncing_facts
  obtain ⟨body, stored, submitted⟩ := Run.stored_submitted syncing_run syncing_bounded found
  rw [same] at stored
  cases stored
  exact submitted

theorem one_miner_agree_syncing :
    ((played syncing newPair).2.nodes true).archive.Agree
      ((played syncing newPair).2.nodes false).archive
      ((played syncing newPair).2.nodes true).archive.getHeight :=
  (Run.one_miner_agree syncing_run syncing_bounded syncing_mined true).2

theorem one_miner_appends_asking :
    ∃ appended stored, ((played asking newPair).2.nodes true).archive.appendHeader
      (C := Unit) .wrapping
        (worthlessBlock 1).header = .ok appended ∧
      appended.putBody (worthlessBlock 1).header (worthlessBlock 1).body = .ok stored :=
  (Run.one_miner_appends asking_run asking_bounded asking_mined asking_answered).2

theorem rests_agree_syncing :
    ((played syncing newPair).2.nodes true).archive.getBestHash =
      ((played syncing newPair).2.nodes false).archive.getBestHash :=
  (Run.rests_agree syncing_run syncing_bounded syncing_mined syncing_rests (.single (by decide))).1

theorem one_miner_bounded_taking :
    (played taking (played asking newPair).2).1.length +
        ∑ node, ((played asking newPair).2.nodes node).archive.getHeight.toNat ≤
      Fintype.card Bool * ((played asking newPair).2.nodes false).archive.getHeight.toNat := by
  obtain ⟨possible, low, events⟩ := taking_facts
  refine Run.one_miner_bounded asking_run asking_mined (played_run possible) low
    fun miner block member => ?_
  rw [events, List.mem_singleton] at member
  cases member

end

end ChainNetwork

end Ddk
