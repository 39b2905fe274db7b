import Ddk.Construction.Download
import Ddk.Foundation.Replicas
import Ddk.Proof.Archive.Blocks

namespace Ddk

open Foundation

section

variable [Bitcoin] {N A C S : Type}

/-- A download asks for the block after a log, and only a block is an entry. -/
def DownloadTask.fetch : DownloadTask N A C → Fetch N (Header × Body A C)
  | .idle => .idle
  | .asked peer height => .asked peer (height.toNat - 1)
  | .answered peer height (.block header body) =>
    .answered peer (height.toNat - 1) (some (header, body))
  | .answered peer height _ => .answered peer (height.toNat - 1) none
  | .stopped => .stopped

/-- No task waits for the height zero. -/
def DownloadTask.Positive : DownloadTask N A C → Prop
  | .idle => True
  | .asked _ height => 0 < height.toNat
  | .answered _ height _ => 0 < height.toNat
  | .stopped => True

/-- A heart beat announces the number of blocks of its sender. -/
def HeartBeat.announcement (heartBeat : HeartBeat N) : N × N × ℕ :=
  (heartBeat.sender, heartBeat.receiver, heartBeat.state.blockHeight.toNat)

namespace ChainNetwork

omit [Bitcoin] in
/-- A height below the last one is counted up without an overflow. -/
theorem add32_one (ε : Type) (mode : Overflow) {height : UInt32}
    (room : height.toNat + 1 < 2 ^ 32) :
    (mode.add32 height 1 : Outcome ε UInt32) = .ok (height + 1) ∧
      (height + 1).toNat = height.toNat + 1 := by
  refine ⟨?_, ?_⟩
  · cases mode with
    | checked => exact Overflow.guard_checked_eq_ok.mpr ⟨decide_eq_true room, rfl⟩
    | wrapping => rfl
  · rw [UInt32.toNat_add]
    exact Nat.mod_eq_of_lt room

variable [Blake3] [Bincode C]

/-- The archives are the logs of the parties, and the tasks are the downloads. -/
structure Simulates (network : ChainNetwork N A C S)
    (replicas : Replicas N (Header × Body A C)) : Prop where
  logs : ∀ node, (network.nodes node).archive.Holds (replicas.logs node)
  announcements : replicas.announcements = network.heartBeats.map HeartBeat.announcement
  heard : replicas.heard = fun node peer => (network.states node peer).map (·.blockHeight.toNat)
  fetches : replicas.fetches = fun node => (network.tasks node).fetch
  positive : ∀ node, (network.tasks node).Positive

theorem Simulates.new [DecidableEq N] (customStates : N → S) :
    Simulates (new customStates : ChainNetwork N A C S) Replicas.empty where
  logs _ := Archive.Holds.empty
  announcements := rfl
  heard := rfl
  fetches := rfl
  positive _ := trivial

/-- Each download belongs to a task. -/
theorem Simulates.fetch {network : ChainNetwork N A C S} {replicas : Replicas N (Header × Body A C)}
    (simulates : Simulates network replicas) (node : N) :
    replicas.fetches node = (network.tasks node).fetch := by
  rw [simulates.fetches]

/-- No height is at the end of its word. -/
def Bounded (network : ChainNetwork N A C S) : Prop :=
  ∀ node, (network.nodes node).archive.getHeight.toNat < 2 ^ 32 - 1

variable [DecidableEq N]

omit [Blake3] [Bincode C] in
/-- An update of the tasks updates the downloads. -/
theorem fetch_update (tasks : N → DownloadTask N A C) (node : N) (task : DownloadTask N A C) :
    (fun other => (Function.update tasks node task other).fetch) =
      Function.update (fun other => (tasks other).fetch) node task.fetch := by
  funext other
  by_cases same : other = node
  · rw [same, Function.update_self, Function.update_self]
  · rw [Function.update_of_ne same, Function.update_of_ne same]

omit [Bitcoin] [Blake3] [Bincode C] in
/-- An update of one state updates its height. -/
theorem heard_update (states : N → N → Option PeerState) (node peer : N)
    (state : Option PeerState) :
    (fun first second =>
      (Function.update states node (Function.update (states node) peer state) first second).map
        (·.blockHeight.toNat)) =
      Function.update (fun first second => (states first second).map (·.blockHeight.toNat)) node
        (Function.update (fun second => (states node second).map (·.blockHeight.toNat)) peer
          (state.map (·.blockHeight.toNat))) := by
  funext first second
  by_cases same : first = node
  · rw [same, Function.update_self, Function.update_self]
    by_cases equal : second = peer
    · rw [equal, Function.update_self, Function.update_self]
    · rw [Function.update_of_ne equal, Function.update_of_ne equal]
  · rw [Function.update_of_ne same, Function.update_of_ne same]

variable {mode : Overflow} {network next : ChainNetwork N A C S}
variable {replicas : Replicas N (Header × Body A C)}

/-- A changed task is a changed download. -/
theorem Simulates.task (simulates : Simulates network replicas) (node : N)
    {task : DownloadTask N A C} (positive : task.Positive) :
    Simulates { network with tasks := Function.update network.tasks node task }
      { replicas with fetches := Function.update replicas.fetches node task.fetch } :=
  ⟨simulates.logs, simulates.announcements, simulates.heard,
    by rw [simulates.fetches, ← fetch_update],
    Replicas.forall_update (fun _ (task : DownloadTask N A C) => task.Positive)
      simulates.positive positive⟩

/-- A changed state is a changed length. -/
theorem Simulates.state (simulates : Simulates network replicas) (node peer : N)
    (state : Option PeerState) :
    Simulates { network with
      states := Function.update network.states node
        (Function.update (network.states node) peer state) }
      { replicas with
        heard := Function.update replicas.heard node
          (Function.update (replicas.heard node) peer (state.map (·.blockHeight.toNat))) } :=
  ⟨simulates.logs, simulates.announcements, by rw [simulates.heard, ← heard_update],
    simulates.fetches, simulates.positive⟩

omit [Blake3] [Bincode C] in
theorem nodes_of_request {node peer : N} (taken : network.request mode node peer = some next) :
    next.nodes = network.nodes := by
  unfold ChainNetwork.request at taken
  dsimp only at taken
  split at taken
  next =>
    split at taken
    next =>
      split at taken
      next =>
        cases taken
        rfl
      next =>
        cases taken
        rfl
    next => cases taken
  next => cases taken

omit [Blake3] [Bincode C] in
theorem nodes_of_answer {node : N} (taken : network.answer node = some next) :
    next.nodes = network.nodes := by
  unfold ChainNetwork.answer at taken
  split at taken
  next =>
    cases taken
    rfl
  next => cases taken

omit [DecidableEq N] in
/-- A heart beat in flight is an announcement between the others. -/
theorem Simulates.delivered (simulates : Simulates network replicas) {position : ℕ}
    {heartBeat : HeartBeat N} (found : network.heartBeats[position]? = some heartBeat) :
    replicas.announcements = (network.heartBeats.take position).map HeartBeat.announcement ++
      (heartBeat.sender, heartBeat.receiver, heartBeat.state.blockHeight.toNat) ::
        (network.heartBeats.drop (position + 1)).map HeartBeat.announcement ∧
    (network.heartBeats.eraseIdx position).map HeartBeat.announcement =
      (network.heartBeats.take position).map HeartBeat.announcement ++
        (network.heartBeats.drop (position + 1)).map HeartBeat.announcement := by
  obtain ⟨inside, same⟩ := List.getElem?_eq_some_iff.mp found
  refine ⟨?_, ?_⟩
  · rw [simulates.announcements]
    conv_lhs => rw [← List.take_append_drop position network.heartBeats,
      List.drop_eq_getElem_cons inside, same]
    rw [List.map_append, List.map_cons]
    rfl
  · rw [List.eraseIdx_eq_take_drop_succ, List.map_append]

omit [DecidableEq N] in
/-- Other heart beats in flight are other announcements. -/
theorem Simulates.announced (simulates : Simulates network replicas)
    {heartBeats : List (HeartBeat N)} {announcements : List (N × N × ℕ)}
    (same : heartBeats.map HeartBeat.announcement = announcements) :
    Simulates { network with heartBeats } { replicas with announcements } :=
  ⟨simulates.logs, same.symm, simulates.heard, simulates.fetches, simulates.positive⟩

variable [DecidableEq C] [CustomState S A C] [GetValue C] [GetAddress A] [Verify A C]

/-- A committed block extends the log of its node. -/
theorem Simulates.commit (simulates : Simulates network replicas) {node : N} {orders : Orders C}
    {header : Header} {body : Body A C} {twoWayPegData : TwoWayPegData C} {committed : Node A C S}
    (success : (network.nodes node).commitBlock orders mode header body twoWayPegData =
      .ok committed)
    (bounded : committed.archive.getHeight.toNat < 2 ^ 32 - 1) :
    Simulates { network with nodes := Function.update network.nodes node committed }
      {
        replicas with
        logs := Function.update replicas.logs node (replicas.logs node ++ [(header, body)]) } := by
  refine ⟨fun other => ?_, simulates.announcements, simulates.heard, simulates.fetches,
    simulates.positive⟩
  by_cases same : other = node
  · change (Function.update network.nodes node committed other).archive.Holds
      (Function.update replicas.logs node (replicas.logs node ++ [(header, body)]) other)
    rw [same, Function.update_self, Function.update_self]
    exact Node.commitBlock_holds (simulates.logs node) success bounded
  · change (Function.update network.nodes node committed other).archive.Holds
      (Function.update replicas.logs node (replicas.logs node ++ [(header, body)]) other)
    rw [Function.update_of_ne same, Function.update_of_ne same]
    exact simulates.logs other

/-- A log system matches a step when both have the same event. -/
def Matches (mode : Overflow) (network : ChainNetwork N A C S) (action : Action N A C)
    (next : ChainNetwork N A C S)
    (replicas : Replicas N (Header × Body A C)) : Prop :=
  ∃ after, Replicas.Step replicas (network.event mode action) after ∧ Simulates next after

/-- A submission of the own miner produces its block or changes nothing. -/
theorem Simulates.submit (simulates : Simulates network replicas) {node : N} {orders : Orders C}
    {header : Header} {body : Body A C} {twoWayPegData : TwoWayPegData C}
    (bounded : Bounded (network.submit mode node orders header body twoWayPegData)) :
    Matches mode network (.submit node orders header body twoWayPegData)
      (network.submit mode node orders header body twoWayPegData) replicas := by
  unfold ChainNetwork.submit at bounded ⊢
  unfold Matches
  cases success : (network.nodes node).commitBlock orders mode header body twoWayPegData with
  | error fault =>
      have silent : network.event mode (.submit node orders header body twoWayPegData) = none := by
        rw [event, success]
      rw [silent]
      exact ⟨replicas, .rest, simulates⟩
  | ok committed =>
      have room : (Function.update network.nodes node committed node).archive.getHeight.toNat <
          2 ^ 32 - 1 := by
        rw [success] at bounded
        exact bounded node
      rw [Function.update_self] at room
      have produced : network.event mode (.submit node orders header body twoWayPegData) =
          some (.produced node (header, body)) := by
        rw [event, success]
      rw [produced]
      exact ⟨_, .produce node (header, body), simulates.commit success room⟩

/-- A silent step of the replicas fits an action without an event. -/
theorem Matches.silent {action : Action N A C} {after : Replicas N (Header × Body A C)}
    (taken : Replicas.Step replicas none after) (simulates : Simulates next after)
    (silent : network.event mode action = none) : Matches mode network action next replicas := by
  unfold Matches
  rw [silent]
  exact ⟨after, taken, simulates⟩

/-- A request of a task asks for the block after its log. -/
theorem Simulates.request (simulates : Simulates network replicas) {node peer : N}
    (taken : network.request mode node peer = some next) :
    Matches mode network (.request node peer) next replicas := by
  unfold ChainNetwork.request at taken
  split at taken
  next state idle found =>
    dsimp only at taken
    split at taken
    next ahead =>
      obtain ⟨success, number⟩ := add32_one Empty mode
        (Nat.lt_of_le_of_lt (UInt32.lt_iff_toNat_lt.mp ahead) state.blockHeight.toNat_lt)
      have before := (simulates.logs node).height
      rw [success] at taken
      cases taken
      have fetch : (DownloadTask.asked peer ((network.nodes node).archive.getHeight +
          1) : DownloadTask N A C).fetch =
          .asked peer (replicas.logs node).length := by
        rw [DownloadTask.fetch, number, before, Nat.add_sub_cancel]
      have task : (replicas.fetches node) = .idle := by
        rw [simulates.fetch, idle, DownloadTask.fetch]
      have heard : replicas.heard node peer = some state.blockHeight.toNat := by
        rw [simulates.heard]
        simp only [found, Option.map_some]
      have longer : (replicas.logs node).length < state.blockHeight.toNat := by
        rw [← before]
        exact UInt32.lt_iff_toNat_lt.mp ahead
      refine .silent (.ask task heard longer) ?_ rfl
      rw [← fetch]
      refine simulates.task node ?_
      rw [DownloadTask.Positive, number]
      omega
    next => cases taken
  next => cases taken

/-- An answer is the block that the peer holds. -/
theorem Simulates.answer (simulates : Simulates network replicas) {node : N}
    (taken : network.answer node = some next) :
    Matches mode network (.answer node) next replicas := by
  unfold ChainNetwork.answer at taken
  split at taken
  next peer height asked =>
    cases taken
    have positive := simulates.positive node
    rw [asked] at positive
    have task : replicas.fetches node = .asked peer (height.toNat - 1) := by
      rw [simulates.fetch, asked, DownloadTask.fetch]
    have fetch :
        (DownloadTask.answered peer height ((network.nodes peer).answerGetBlock height)).fetch =
        .answered peer (height.toNat - 1) (replicas.logs peer)[height.toNat - 1]? := by
      have nonzero : height ≠ 0 := by
        rintro rfl
        exact lt_irrefl _ positive
      rw [Node.answerGetBlock_holds (simulates.logs peer), blockAt, if_neg nonzero]
      cases (replicas.logs peer)[height.toNat - 1]? <;> rfl
    refine .silent (.answer task) ?_ rfl
    rw [← fetch]
    exact simulates.task node positive
  next => cases taken

/-- A received block extends the log, and a rejected one stops the task. -/
theorem Simulates.receive (simulates : Simulates network replicas) {node : N} {orders : Orders C}
    {twoWayPegData : TwoWayPegData C}
    (taken : network.receive mode node orders twoWayPegData = some next)
    (bounded : Bounded next) : Matches mode network (.receive node orders twoWayPegData)
      next replicas := by
  unfold ChainNetwork.receive at taken
  split at taken
  next peer height header body answered =>
    split at taken
    next committed success =>
      cases taken
      have room : (Function.update network.nodes node committed node).archive.getHeight.toNat <
          2 ^ 32 - 1 := bounded node
      rw [Function.update_self] at room
      have task : replicas.fetches node = .answered peer (height.toNat - 1)
          (some (header, body)) := by
        rw [simulates.fetch, answered, DownloadTask.fetch]
      have idle : (DownloadTask.idle : DownloadTask N A C).Positive := trivial
      have received : network.event mode (.receive node orders twoWayPegData) =
          some (.received node) := by
        rw [event, answered]
        dsimp only
        rw [success]
      unfold Matches
      rw [received]
      exact ⟨_, .receive task, (simulates.commit success room).task node idle⟩
    next fault failed =>
      cases taken
      have silent : network.event mode (.receive node orders twoWayPegData) = none := by
        rw [event, answered]
        dsimp only
        rw [failed]
      exact .silent (.stop node) (simulates.task node trivial) silent
  next peer height response other answered =>
    cases taken
    have task : replicas.fetches node = .answered peer (height.toNat - 1) none := by
      rw [simulates.fetch, answered]
      cases response with
      | block header body => exact absurd rfl (other header body)
      | noBlock => rfl
      | transactionAccepted => rfl
      | transactionRejected => rfl
    have silent : network.event mode (.receive node orders twoWayPegData) = none := by
      rw [event, answered]
      cases response with
      | block header body => exact absurd rfl (other header body)
      | noBlock => rfl
      | transactionAccepted => rfl
      | transactionRejected => rfl
    exact .silent (.discard task) (simulates.task node trivial) silent
  next => cases taken

/-- Each step of the network is a step of the replicas. -/
theorem Simulates.step (simulates : Simulates network replicas) {action : Action N A C}
    (taken : network.step mode action = some next) (bounded : Bounded next) :
    Matches mode network action next replicas := by
  cases action with
  | submit node orders header body twoWayPegData =>
      cases taken
      exact simulates.submit bounded
  | pool node mempool =>
      cases taken
      have kept : ({ network.nodes node with mempool } : Node A C S).archive.Holds
          (replicas.logs node) :=
        simulates.logs node
      exact .silent .rest ⟨Replicas.forall_update
        (fun node (changed : Node A C S) => changed.archive.Holds (replicas.logs node))
          simulates.logs kept,
        simulates.announcements, simulates.heard, simulates.fetches, simulates.positive⟩ rfl
  | connect node peer =>
      cases taken
      exact .silent (.forget node peer) (simulates.state node peer none) rfl
  | heartBeat sender receiver =>
      cases taken
      refine .silent (.announce sender receiver) ⟨simulates.logs, ?_, simulates.heard,
        simulates.fetches,
        simulates.positive⟩ rfl
      change replicas.announcements ++ [(sender, receiver, (replicas.logs sender).length)] =
        (network.heartBeats ++
          [(⟨sender, receiver, ⟨(network.nodes sender).archive.getHeight⟩⟩ : HeartBeat N)]).map
          HeartBeat.announcement
      rw [List.map_append, ← simulates.announcements, ← (simulates.logs sender).height]
      rfl
  | heartBeatListen position =>
      obtain ⟨heartBeat, found, rfl⟩ := Option.map_eq_some_iff.mp taken
      obtain ⟨waiting, rest⟩ := simulates.delivered found
      exact .silent (.hear waiting) ((simulates.announced rest).state _ _ (some heartBeat.state))
        rfl
  | lose position =>
      cases taken
      cases found : network.heartBeats[position]? with
      | none =>
          rw [List.eraseIdx_of_length_le (List.getElem?_eq_none_iff.mp found)]
          exact .silent .rest simulates rfl
      | some heartBeat =>
          obtain ⟨waiting, rest⟩ := simulates.delivered found
          exact .silent (.lose waiting) (simulates.announced rest) rfl
  | request node peer => exact simulates.request taken
  | answer node => exact simulates.answer taken
  | receive node orders twoWayPegData => exact simulates.receive taken bounded
  | fail node =>
      cases taken
      exact .silent (.stop node) (simulates.task node trivial) rfl

omit [Blake3] [Bincode C] [DecidableEq C] [CustomState S A C] [GetValue C] [GetAddress A]
  [Verify A C] in
/-- A changed node that is not lower keeps all heights. -/
theorem height_update (nodes : N → Node A C S) {node : N} {changed : Node A C S}
    (higher : (nodes node).archive.getHeight.toNat ≤ changed.archive.getHeight.toNat) (other : N) :
    (nodes other).archive.getHeight.toNat ≤
      (Function.update nodes node changed other).archive.getHeight.toNat :=
  Replicas.forall_update
    (fun other (after : Node A C S) => (nodes other).archive.getHeight.toNat ≤
      after.archive.getHeight.toNat)
    (fun _ => le_rfl) higher other

/-- A received block does not lower a height. -/
theorem height_le_of_receive {changed : N} {orders : Orders C} {twoWayPegData : TwoWayPegData C}
    (taken : network.receive mode changed orders twoWayPegData = some next) (node : N) :
    (network.nodes node).archive.getHeight.toNat ≤ (next.nodes node).archive.getHeight.toNat := by
  unfold ChainNetwork.receive at taken
  split at taken
  next =>
    split at taken
    next committed success =>
      cases taken
      exact height_update network.nodes (Node.commitBlock_height success) node
    next =>
      cases taken
      exact le_rfl
  next =>
    cases taken
    exact le_rfl
  next => cases taken

/-- No step lowers a height. -/
theorem height_le_of_step {action : Action N A C} (taken : network.step mode action = some next)
    (node : N) :
    (network.nodes node).archive.getHeight.toNat ≤ (next.nodes node).archive.getHeight.toNat := by
  cases action with
  | submit changed orders header body twoWayPegData =>
      cases taken
      unfold ChainNetwork.submit
      split
      next committed success =>
        exact height_update network.nodes (Node.commitBlock_height success) node
      next => exact le_rfl
  | pool changed mempool =>
      cases taken
      have kept : (network.nodes changed).archive.getHeight.toNat ≤
          ({ network.nodes changed with mempool } : Node A C S).archive.getHeight.toNat := le_rfl
      exact height_update network.nodes kept node
  | heartBeatListen position =>
      obtain ⟨_, _, rfl⟩ := Option.map_eq_some_iff.mp taken
      exact le_rfl
  | request changed peer => rw [nodes_of_request taken]
  | answer changed => rw [nodes_of_answer taken]
  | receive changed orders twoWayPegData => exact height_le_of_receive taken node
  | connect changed peer =>
      cases taken
      exact le_rfl
  | heartBeat sender receiver =>
      cases taken
      exact le_rfl
  | lose position =>
      cases taken
      exact le_rfl
  | fail changed =>
      cases taken
      exact le_rfl

/-- Two runs after each other are one run. -/
theorem Run.append {first middle : ChainNetwork N A C S}
    {earlier later : List (LogEvent N (Header × Body A C))}
    (before : Run mode first earlier middle) (run : Run mode middle later network) :
    Run mode first (later ++ earlier) network := by
  induction run with
  | start => exact before
  | step _ taken ih =>
      rw [List.append_assoc]
      exact ih.step taken

/-- No run lowers a height. -/
theorem Run.height_le {first : ChainNetwork N A C S}
    {events : List (LogEvent N (Header × Body A C))}
    (run : Run mode first events network) (node : N) :
    (first.nodes node).archive.getHeight.toNat ≤ (network.nodes node).archive.getHeight.toNat := by
  induction run with
  | start => exact le_rfl
  | step _ taken ih => exact ih.trans (height_le_of_step taken node)

/-- In every run below the last height, the archives go on as the logs of a run of the replicas. -/
theorem Run.simulated {first : ChainNetwork N A C S}
    {events : List (LogEvent N (Header × Body A C))}
    (run : Run mode first events network) (simulates : Simulates first replicas)
    (bounded : Bounded network) :
    ∃ after, Replicas.Run replicas events after ∧ Simulates network after := by
  induction run with
  | start => exact ⟨replicas, .start, simulates⟩
  | @step events network next action before taken ih =>
      obtain ⟨earlier, run, kept⟩ :=
        ih fun node => (height_le_of_step taken node).trans_lt (bounded node)
      obtain ⟨after, logged, simulates⟩ := kept.step taken bounded
      exact ⟨after, run.step logged, simulates⟩

end ChainNetwork

end

end Ddk
