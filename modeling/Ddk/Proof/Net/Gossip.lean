import Ddk.Construction.Gossip
import Ddk.Foundation.CallWork
import Ddk.Proof.Net.Pushing

namespace Ddk

open Foundation Relation

/-- The remote ports of distinct ports are distinct. -/
theorem Topology.remotes_nodup {N P : Type} [DecidableEq P] (topology : Topology N P)
    {order : List P} (distinct : order.Nodup) (port : P) :
    ((order.filter (· ≠ port)).map topology.remote).Nodup := by
  have injective : Function.Injective topology.remote := by
    intro first second same
    rw [← topology.paired first, same, topology.paired]
  exact (distinct.filter _).map injective

/-- The ports of a node have some order. -/
theorem Topology.exists_order {N P : Type} [DecidableEq N] [Fintype P] (topology : Topology N P)
    (node : N) :
    ∃ order, topology.Lists node order := by
  refine ⟨(Finset.univ.filter (topology.owner · = node)).toList, Finset.nodup_toList _, ?_⟩
  intro port
  rw [Finset.mem_toList, Finset.mem_filter, and_iff_right (Finset.mem_univ port)]

section

variable [Bitcoin] {I N P A C S : Type}

/-- A node stores a valid transaction whose inputs are distinct and not marked. -/
theorem Node.receiveTransaction_of_admits [CustomState S A C] [GetValue C] [GetAddress A]
    [Verify A C] [Blake3] [Bincode C] {mode : Overflow} {node : Node A C S}
    {transaction : AuthorizedTransaction A C} (admits : node.Admits mode transaction) :
    ∃ mempool, node.receiveTransaction mode transaction = (none, .ok { node with mempool }) := by
  obtain ⟨fee, valid⟩ := admits.valid
  obtain ⟨marked, marking⟩ := MemPool.markInputs_succeeds_iff.mpr ⟨admits.distinct, admits.unmarked⟩
  obtain ⟨mempool, stored⟩ : ∃ mempool, node.mempool.put transaction = .ok mempool :=
    ⟨_, MemPool.put_eq_ok.mpr ⟨marked, marking, rfl⟩⟩
  refine ⟨mempool, ?_⟩
  rw [Node.receiveTransaction, valid, Node.poolTransaction, stored]
  rfl

namespace Network

/-- Each push of a loop asks a loop that waits for no other one. -/
def Clear (topology : Topology N P) (network : Network I N P A C S) : Action I N P A C → Prop
  | .submit _ _ _ _ => True
  | .push caller =>
      ∀ port ∈ caller.getRight?, ∀ call ∈ network.calls caller, ∀ server ∈ call.frame.pending.head?,
        server ≠ port ∧ network.skeleton.target (.inr server) = none
  | .accept port position _ =>
      ∀ call ∈ network.request port position, ∀ input ∈ call.transaction.transaction.inputs,
        (network.nodes (topology.owner port)).mempool.spentUtxos[input]?.isNone
  | .resume _ => True
  | .finish _ => True

/-- Clear actions meet the condition. -/
theorem Clear.meets {topology : Topology N P} {network : Network I N P A C S}
    {action : Action I N P A C}
    (clear : network.Clear topology action) : network.Meets topology action := by
  cases action with
  | submit task node transaction order => trivial
  | push caller =>
      intro port own call running server next path
      subst own
      obtain ⟨other, free⟩ := clear port rfl call running server next
      rcases path.cases_head with same | ⟨first, edge, _⟩
      · exact other same
      · rw [Calls.Waits, free] at edge
        cases edge
  | accept port position order =>
      intro call requested input used
      exact Option.isNone_iff_eq_none.mp (clear call requested input used)
  | resume caller => trivial
  | finish caller => trivial

instance [DecidableEq P] (topology : Topology N P) (network : Network I N P A C S) :
    (action : Action I N P A C) → Decidable (network.Clear topology action)
  | .submit _ _ _ _ => isTrue trivial
  | .push caller =>
      inferInstanceAs (Decidable (∀ port ∈ caller.getRight?, ∀ call ∈ network.calls caller,
        ∀ server ∈ call.frame.pending.head?, server ≠ port ∧
          network.skeleton.target (.inr server) = none))
  | .accept port position _ =>
      inferInstanceAs (Decidable (∀ call ∈ network.request port position,
        ∀ input ∈ call.transaction.transaction.inputs,
          (network.nodes (topology.owner port)).mempool.spentUtxos[input]?.isNone))
  | .resume _ => isTrue trivial
  | .finish _ => isTrue trivial

variable [DecidableEq I] [DecidableEq P]

/-- A changed call changes one frame. -/
theorem skeleton_update (network : Network I N P A C S) (nodes : N → Node A C S)
    (caller : Caller I P) (call : Option (PushCall I P A C)) (queues : P → List (Caller I P))
    (stopped : Finset P) :
    (⟨nodes, Function.update network.calls caller call, queues, stopped⟩ : Network I N P A C
      S).skeleton =
      ⟨Function.update network.skeleton.frames caller (call.map (·.frame)), queues⟩ := by
  have frames := Function.comp_update (Option.map PushCall.frame) network.calls caller call
  exact congrArg (Calls.mk · queues) frames

/-- A response answers the frame of its client. -/
theorem skeleton_respond (nodes : N → Node A C S) (calls : Caller I P → Option (PushCall I P A C))
    (client : Option (Caller I P)) (response : Option (Response A C))
    (queues : P → List (Caller I P)) (stopped : Finset P) :
    (⟨nodes, respond calls client response, queues, stopped⟩ : Network I N P A C S).skeleton =
      ⟨Calls.answer (⟨nodes, calls, queues, stopped⟩ : Network I N P A C S).skeleton.frames client,
        queues⟩ := by
  cases client with
  | none => rfl
  | some client =>
      have frames := skeleton_update ⟨nodes, calls, queues, stopped⟩ nodes client
        ((calls client).map fun call =>
            { call with frame := { call.frame with phase := .answered }, response })
        queues stopped
      rw [Option.map_map] at frames
      rw [respond, frames, Calls.answer]
      change _ =
        (⟨Function.update _ client (((calls client).map (·.frame)).map _), queues⟩ : Calls I P)
      rw [Option.map_map]
      rfl

/-- A push calls the next server. -/
theorem push_cases {network next : Network I N P A C S} {caller : Caller I P}
    (taken : network.push caller = some next) :
    ∃ call server pending, network.calls caller = some call ∧
      call.frame.pending = server :: pending ∧
      call.frame.phase = .ready ∧
      next = { network with
        calls := Function.update network.calls caller
          (some { call with frame := ⟨pending, .waiting server, call.frame.client⟩ })
        queues := Function.update network.queues server (network.queues server ++ [caller]) } := by
  unfold push at taken
  split at taken
  next transaction server pending client response running =>
    cases taken
    exact ⟨_, server, pending, running, rfl, rfl, rfl⟩
  next => cases taken

/-- A call ends without pending servers. -/
theorem finish_cases {network next : Network I N P A C S} {caller : Caller I P}
    (taken : network.finish caller = some next) :
    ∃ call, network.calls caller = some call ∧ call.frame.pending = [] ∧ call.frame.phase = .ready ∧
      next = { network with
        calls := respond (Function.update network.calls caller none) call.frame.client
          (some .transactionAccepted) } := by
  unfold finish at taken
  split at taken
  next transaction client response running =>
    cases taken
    exact ⟨_, running, rfl, rfl, rfl⟩
  next => cases taken

/-- A call with a response continues. -/
theorem resume_cases {network next : Network I N P A C S} {caller : Caller I P}
    (responded : ∀ call, network.calls caller = some call → call.frame.phase = .answered →
      call.response.isSome)
    (taken : network.resume caller = some next) :
    ∃ call, network.calls caller = some call ∧ call.frame.phase = .answered ∧
      next = { network with
        calls := Function.update network.calls caller
          (some { call with frame := { call.frame with phase := .ready } }) } := by
  unfold resume at taken
  split at taken
  next transaction pending client response running =>
    cases taken
    exact ⟨_, running, rfl, rfl⟩
  next running => cases responded _ running rfl
  next => cases taken

/-- A changed call keeps a property of the calls. -/
theorem forall_update {holds : PushCall I P A C → Prop}
    {calls : Caller I P → Option (PushCall I P A C)}
    (each : ∀ caller call, calls caller = some call → holds call) {caller : Caller I P}
    {changed : Option (PushCall I P A C)} (own : ∀ call, changed = some call → holds call) :
    ∀ other call, Function.update calls caller changed other = some call → holds call := by
  apply (Function.forall_update_iff calls fun _ value => ∀ call, value = some call → holds call).mpr
  exact ⟨own, fun other _ => each other⟩

/-- A response keeps a property of the calls that holds of the answered call. -/
theorem forall_respond {holds : PushCall I P A C → Prop}
    {calls : Caller I P → Option (PushCall I P A C)}
    (each : ∀ caller call, calls caller = some call → holds call) {client : Option (Caller I P)}
    {response : Option (Response A C)}
    (own : ∀ call, holds call →
      holds { call with frame := { call.frame with phase := .answered }, response }) :
    ∀ other call, respond calls client response other = some call → holds call := by
  cases client with
  | none => exact each
  | some client =>
      apply forall_update each
      intro call changed
      obtain ⟨before, found, rfl⟩ := Option.map_eq_some_iff.mp changed
      exact own before (each client before found)

section

variable [CustomState S A C] [GetValue C] [GetAddress A] [Verify A C]

/-- An honest call has distinct inputs and is valid everywhere. If answered, it was accepted. -/
structure Honest (mode : Overflow) (nodes : N → Node A C S) (call : PushCall I P A C) : Prop where
  answered : call.frame.phase = .answered → call.response = some .transactionAccepted
  distinct : call.transaction.transaction.inputs.Nodup
  valid : ∀ node, ∃ fee, (nodes node).validateTransaction mode call.transaction = .ok fee

/-- No loop has stopped, and all calls are honest. -/
structure Healthy (mode : Overflow) (network : Network I N P A C S) : Prop where
  listening : network.stopped = ∅
  alike : network.Alike mode
  honest : ∀ caller call, network.calls caller = some call → Honest mode network.nodes call

omit [DecidableEq I] [DecidableEq P] in
/-- A new call has no response yet. -/
theorem Honest.begin {mode : Overflow} {nodes : N → Node A C S}
    {transaction : AuthorizedTransaction A C} (distinct : transaction.transaction.inputs.Nodup)
    (valid : ∀ node, ∃ fee, (nodes node).validateTransaction mode transaction = .ok fee)
    (pending : List P) (client : Option (Caller I P)) :
    Honest mode nodes ⟨transaction, ⟨pending, .ready, client⟩, none⟩ where
  answered answered := by cases answered
  distinct := distinct
  valid := valid

omit [DecidableEq I] [DecidableEq P] in
/-- Nodes that differ only in their mempools are alike. -/
theorem Alike.of_same {mode : Overflow} {network : Network I N P A C S}
    (same : ∀ first second, (network.nodes first).state = (network.nodes second).state ∧
      (network.nodes first).customState = (network.nodes second).customState ∧
        (network.nodes first).archive = (network.nodes second).archive) : network.Alike mode := by
  intro first second transaction valid
  obtain ⟨state, customState, archive⟩ := same first second
  unfold Node.validateTransaction at valid ⊢
  rw [← state, ← customState, ← archive]
  exact valid

/-- A push keeps the network healthy and makes a call. -/
theorem Healthy.push {mode : Overflow} {network next : Network I N P A C S}
    {topology : Topology N P} {caller : Caller I P} (healthy : Healthy mode network)
    (meets : network.Meets topology (.push caller)) (taken : network.push caller = some next) :
    Healthy mode next ∧ Calls.Handles network.skeleton next.skeleton := by
  obtain ⟨call, server, pending, running, calls, ready, rfl⟩ := push_cases taken
  have honest := healthy.honest caller call running
  constructor
  · refine ⟨healthy.listening, healthy.alike, ?_⟩
    apply forall_update healthy.honest
    intro value same
    cases same
    refine ⟨?_, honest.distinct, honest.valid⟩
    intro answered
    cases answered
  · rw [skeleton_update]
    apply Calls.Handles.call
    · change (network.calls caller).map _ = _
      rw [running, Option.map_some, ← calls, ← ready]
    · intro origin own
      apply meets origin own call running
      rw [calls]
      rfl

/-- A resumed call keeps the network healthy. -/
theorem Healthy.resume {mode : Overflow} {network next : Network I N P A C S} {caller : Caller I P}
    (healthy : Healthy mode network) (taken : network.resume caller = some next) :
    Healthy mode next ∧ Calls.Handles network.skeleton next.skeleton := by
  have responded : ∀ call, network.calls caller = some call → call.frame.phase = .answered →
      call.response.isSome := by
    intro call running answered
    rw [(healthy.honest caller call running).answered answered]
    rfl
  obtain ⟨call, running, answered, rfl⟩ := resume_cases responded taken
  have honest := healthy.honest caller call running
  constructor
  · refine ⟨healthy.listening, healthy.alike, ?_⟩
    apply forall_update healthy.honest
    intro value same
    cases same
    refine ⟨?_, honest.distinct, honest.valid⟩
    intro answered
    cases answered
  · rw [skeleton_update]
    apply @Calls.Handles.resume _ _ _ _ network.skeleton caller call.frame
    · change (network.calls caller).map _ = _
      rw [running, Option.map_some]
    · exact answered

/-- A finished call keeps the network healthy. -/
theorem Healthy.finish {mode : Overflow} {network next : Network I N P A C S} {caller : Caller I P}
    (healthy : Healthy mode network) (taken : network.finish caller = some next) :
    Healthy mode next ∧ Calls.Handles network.skeleton next.skeleton := by
  obtain ⟨call, running, last, ready, rfl⟩ := finish_cases taken
  constructor
  · refine ⟨healthy.listening, healthy.alike, ?_⟩
    apply forall_respond
    · apply forall_update healthy.honest
      intro value none
      cases none
    · intro value honest
      exact ⟨fun _ => rfl, honest.distinct, honest.valid⟩
  · rw [skeleton_respond, skeleton_update]
    apply Calls.Handles.finish
    change (network.calls caller).map _ = _
    rw [running, Option.map_some, ← last, ← ready]

variable [DecidableEq N]

/-- Validation does not read the mempool. -/
theorem validateTransaction_update (mode : Overflow) (nodes : N → Node A C S) (owner node : N)
    (mempool : MemPool A C) (transaction : AuthorizedTransaction A C) :
    (Function.update nodes owner { nodes owner with mempool } node).validateTransaction mode
      transaction =
      (nodes node).validateTransaction mode transaction := by
  by_cases same : node = owner
  · rw [same, Function.update_self]
    rfl
  · rw [Function.update_of_ne same]

omit [DecidableEq I] [DecidableEq P] in
/-- A changed mempool leaves honest calls honest. -/
theorem Honest.update {mode : Overflow} {nodes : N → Node A C S} {call : PushCall I P A C}
    (honest : Honest mode nodes call) (owner : N) (mempool : MemPool A C) :
    Honest mode (Function.update nodes owner { nodes owner with mempool }) call where
  answered := honest.answered
  distinct := honest.distinct
  valid node := by
    rw [validateTransaction_update]
    exact honest.valid node

omit [DecidableEq I] [DecidableEq P] in
/-- A changed mempool leaves the nodes alike. -/
theorem Alike.update {mode : Overflow} {network : Network I N P A C S}
    (alike : network.Alike mode) (owner : N) (mempool : MemPool A C)
    (calls : Caller I P → Option (PushCall I P A C)) (queues : P → List (Caller I P))
    (stopped : Finset P) :
    Alike mode ⟨Function.update network.nodes owner { network.nodes owner with mempool }, calls,
      queues, stopped⟩ := by
  intro first second transaction valid
  rw [validateTransaction_update] at valid ⊢
  exact alike first second transaction valid

variable [Blake3] [Bincode C] [Fintype P]

/-- An accepted request keeps the network healthy. -/
theorem Healthy.accept {mode : Overflow} {topology : Topology N P}
    {network next : Network I N P A C S} {port : P} {position : ℕ} {order : List P}
    (healthy : Healthy mode network) (meets : network.Meets topology (.accept port position order))
    (taken : network.accept mode topology port position order = some next) :
    Healthy mode next ∧ Calls.Handles network.skeleton next.skeleton := by
  unfold Network.accept at taken
  split at taken
  next ready =>
    obtain ⟨idle, _, listed, _⟩ := ready
    split at taken
    next call requested =>
      obtain ⟨client, queued, running⟩ := Option.bind_eq_some_iff.mp requested
      have honest := healthy.honest client call running
      obtain ⟨mempool, received⟩ := Node.receiveTransaction_of_admits
        ⟨honest.valid (topology.owner port), honest.distinct, meets call requested⟩
      rw [received, queued] at taken
      cases taken
      constructor
      · refine ⟨healthy.listening, healthy.alike.update _ _ _ _ _, ?_⟩
        apply forall_update
        · intro caller value found
          exact (healthy.honest caller value found).update _ _
        · intro value same
          cases same
          exact (Honest.begin honest.distinct honest.valid _ _).update _ _
      · obtain ⟨bound, at_position⟩ := List.getElem?_eq_some_iff.mp queued
        rw [skeleton_update, List.eraseIdx_eq_take_drop_succ]
        apply Calls.Handles.serve
        · change (network.calls (.inr port)).map _ = none
          rw [Option.isNone_iff_eq_none.mp idle]
          rfl
        · change network.queues port = _
          rw [← at_position, ← List.drop_eq_getElem_cons bound, List.take_append_drop]
        · exact topology.remotes_nodup listed port
    next => cases taken
  next => cases taken

/-- A new submission keeps the network healthy. -/
theorem Healthy.submit {mode : Overflow} {topology : Topology N P}
    {network next : Network I N P A C S} {task : I} {node : N}
    {transaction : AuthorizedTransaction A C} {order : List P} (healthy : Healthy mode network)
    (taken : network.submit mode topology task node transaction order = some next) :
    Healthy mode next ∧ (next.skeleton = network.skeleton ∨
      Calls.Begins network.skeleton next.skeleton) := by
  unfold Network.submit at taken
  split at taken
  next ready =>
    split at taken
    next committed submission =>
      obtain ⟨fee, mempool, valid, stored, rfl⟩ := Node.submitTransaction_eq_ok.mp submission
      have admits := Node.submitTransaction_succeeds_iff.mp ⟨_, submission⟩
      cases taken
      constructor
      · refine ⟨healthy.listening, healthy.alike.update _ _ _ _ _, ?_⟩
        apply forall_update
        · intro caller value found
          exact (healthy.honest caller value found).update _ _
        · intro value same
          cases same
          have everywhere := fun other => healthy.alike node other transaction ⟨fee, valid⟩
          exact (Honest.begin admits.distinct everywhere _ _).update _ _
      · right
        rw [skeleton_update]
        apply Calls.Begins.begin
        change (network.calls (.inl task)).map _ = none
        rw [Option.isNone_iff_eq_none.mp ready.1]
        rfl
    next =>
      cases taken
      exact ⟨healthy, .inl rfl⟩
  next => cases taken

/-- A handling step keeps the network healthy and handles the nested calls. -/
theorem Healthy.handle {mode : Overflow} {topology : Topology N P}
    {network next : Network I N P A C S} {action : Action I N P A C}
    (healthy : Healthy mode network) (handles : action.Handles)
    (meets : network.Meets topology action) (taken : network.step mode topology action = some next)
    :
    Healthy mode next ∧ Calls.Handles network.skeleton next.skeleton := by
  cases action with
  | submit task node transaction order => cases handles
  | push caller => exact healthy.push meets taken
  | accept port position order => exact healthy.accept meets taken
  | resume caller => exact healthy.resume taken
  | finish caller => exact healthy.finish taken

/-- Some party of an active network has a next step. -/
theorem Healthy.exists_step {mode : Overflow} (topology : Topology N P)
    {network : Network I N P A C S} (healthy : Healthy mode network)
    (sound : Calls.Sound network.skeleton) (active : network.skeleton.Active) :
    ∃ action : Action I N P A C, action.Handles ∧ network.step mode topology action ≠ none := by
  rcases active with ⟨caller, frame, running, free⟩ | ⟨port, idle, queued⟩
  · obtain ⟨call, found, rfl⟩ := Option.map_eq_some_iff.mp running
    obtain ⟨transaction, ⟨pending, phase, client⟩, response⟩ := call
    cases phase with
    | waiting server => cases free
    | answered =>
        refine ⟨.resume caller, trivial, ?_⟩
        change network.resume caller ≠ none
        cases response <;> simp [Network.resume, found]
    | ready =>
        cases pending with
        | nil =>
            refine ⟨.finish caller, trivial, ?_⟩
            change network.finish caller ≠ none
            simp [Network.finish, found]
        | cons server pending =>
            refine ⟨.push caller, trivial, ?_⟩
            change network.push caller ≠ none
            simp [Network.push, found]
  · obtain ⟨client, others, listed⟩ := List.exists_cons_of_ne_nil queued
    have waits : network.skeleton.target client = some port := by
      apply (sound.asking port client).mp
      apply List.mem_append_left
      rw [listed]
      exact List.mem_cons_self
    obtain ⟨frame, running, _⟩ := Calls.frame_of_target waits
    obtain ⟨call, found, _⟩ := Option.map_eq_some_iff.mp running
    have requested : network.request port 0 = some call := by
      change network.queues port = client :: others at listed
      rw [request, listed]
      exact found
    obtain ⟨order, lists⟩ := topology.exists_order (topology.owner port)
    have ready : (network.calls (.inr port)).isNone ∧ port ∉ network.stopped ∧
        topology.Lists (topology.owner port) order := by
      refine ⟨Option.isNone_iff_eq_none.mpr (Option.map_eq_none_iff.mp idle), ?_, lists⟩
      rw [healthy.listening]
      exact Finset.notMem_empty port
    refine ⟨.accept port 0 order, trivial, ?_⟩
    change network.accept mode topology port 0 order ≠ none
    rw [Network.accept, if_pos ready, requested]
    dsimp only
    split <;> exact Option.some_ne_none _

/-- The network stays healthy, and its calls have trails. -/
theorem Run.healthy {mode : Overflow} {topology : Topology N P}
    {start network : Network I N P A C S} (quiet : start.Quiet) (alike : start.Alike mode)
    (run : Run mode topology (fun network action => network.Meets topology action) start network) :
    Healthy mode network ∧ ∃ callers trail, Calls.Traced network.skeleton callers trail := by
  induction run with
  | start =>
      constructor
      · refine ⟨quiet.stopped, alike, ?_⟩
        intro caller call running
        rw [quiet.calls] at running
        cases running
      · have empty : start.skeleton = ⟨fun _ => none, fun _ => []⟩ := by
          have frames : (fun caller => (start.calls caller).map (·.frame)) = fun _ => none := by
            funext caller
            rw [quiet.calls]
            rfl
          have queues : start.queues = fun _ => [] := funext quiet.queues
          rw [skeleton, frames, queues]
        rw [empty]
        exact ⟨_, _, Calls.Traced.empty⟩
  | @step network next action before meets taken ih =>
      obtain ⟨healthy, callers, trail, traced⟩ := ih
      have handled (handles : action.Handles) :
          Healthy mode next ∧ ∃ callers trail, Calls.Traced next.skeleton callers trail := by
        obtain ⟨healthy, step⟩ := healthy.handle handles meets taken
        obtain ⟨others, traced, _⟩ := traced.handle step
        exact ⟨healthy, callers, others, traced⟩
      cases action with
      | submit task node transaction order =>
          obtain ⟨healthy, same | begins⟩ := healthy.submit taken
          · rw [same]
            exact ⟨healthy, callers, trail, traced⟩
          · obtain ⟨more, traced⟩ := traced.begin begins
            exact ⟨healthy, more, trail, traced⟩
      | push caller => exact handled trivial
      | accept port position order => exact handled trivial
      | resume caller => exact handled trivial
      | finish caller => exact handled trivial

/-- All calls of a healthy network at rest have ended. -/
theorem Healthy.ended {mode : Overflow} {topology : Topology N P} {network : Network I N P A C S}
    (healthy : Healthy mode network) (sound : Calls.Sound network.skeleton)
    (rests : network.Resting mode topology) (caller : Caller I P) :
    network.calls caller = none := by
  apply Option.eq_none_iff_forall_ne_some.mpr
  intro call running
  have framed : network.skeleton.frames caller = some call.frame := by
    change (network.calls caller).map _ = _
    rw [running, Option.map_some]
  obtain ⟨action, handles, enabled⟩ := healthy.exists_step topology sound (sound.active framed)
  exact enabled (rests action handles)

/-- Each handling step uses some of the work of the calls. -/
theorem Handling.work_le {mode : Overflow} {topology : Topology N P}
    {start network : Network I N P A C S} {length : ℕ} {callers : Finset (Caller I P)}
    {trail : P → List P} (healthy : Healthy mode start)
    (traced : Calls.Traced start.skeleton callers trail)
    (handling : Handling mode topology start length network) :
    Healthy mode network ∧ ∃ others, Calls.Traced network.skeleton callers others ∧
      length + network.skeleton.work callers others ≤ start.skeleton.work callers trail := by
  induction handling with
  | start => exact ⟨healthy, trail, traced, (Nat.zero_add _).le⟩
  | step before handles meets taken ih =>
      obtain ⟨healthy, others, traced, bound⟩ := ih
      obtain ⟨healthy, handled⟩ := healthy.handle handles meets taken
      obtain ⟨trails, traced, lower⟩ := traced.handle handled
      refine ⟨healthy, trails, traced, ?_⟩
      omega

/-- Gossip serves all requests in each run that meets the condition. -/
theorem gossip_served {mode : Overflow} {topology : Topology N P}
    {start network : Network I N P A C S} (quiet : start.Quiet) (alike : start.Alike mode)
    (run : Run mode topology (fun network action => network.Meets topology action) start network) :
    Served mode topology network := by
  obtain ⟨healthy, callers, trail, traced⟩ := run.healthy quiet alike
  constructor
  · exact healthy.listening
  · intro caller call running answered
    exact (healthy.honest caller call running).answered answered
  · exact healthy.ended traced.sound
  · refine ⟨network.skeleton.work callers trail, ?_⟩
    intro length later handling
    obtain ⟨_, _, _, bound⟩ := handling.work_le healthy traced
    omega

/-- This list of actions runs as long as each of them is allowed. -/
def play (mode : Overflow) (topology : Topology N P)
    (allowed : Network I N P A C S → Action I N P A C → Prop)
    [∀ network action, Decidable (allowed network action)] (actions : List (Action I N P A C))
    (start : Network I N P A C S) : Option (Network I N P A C S) :=
  actions.foldlM (fun network action => if allowed network action then
    network.step mode topology action else none)
    start

/-- A played list continues a run. -/
theorem Run.play {mode : Overflow} {topology : Topology N P}
    {allowed : Network I N P A C S → Action I N P A C → Prop}
    [∀ network action, Decidable (allowed network action)]
    {actions : List (Action I N P A C)} {start network last : Network I N P A C S}
    (run : Run mode topology allowed start network)
    (played : Network.play mode topology allowed actions network = some last) :
    Run mode topology allowed start last := by
  induction actions generalizing network with
  | nil =>
      cases played
      exact run
  | cons action actions ih =>
      obtain ⟨next, first, rest⟩ := Option.bind_eq_some_iff.mp played
      obtain ⟨permitted, taken⟩ := Option.ite_none_right_eq_some.mp first
      exact ih (run.step permitted taken) rest

/-- A run stays a run when more actions are allowed. -/
theorem Run.mono {mode : Overflow} {topology : Topology N P}
    {allowed more : Network I N P A C S → Action I N P A C → Prop}
    {start network : Network I N P A C S}
    (weaker : ∀ network action, allowed network action → more network action)
    (run : Run mode topology allowed start network) : Run mode topology more start network := by
  induction run with
  | start => exact .start
  | step _ permitted taken ih => exact ih.step (weaker _ _ permitted) taken

/-- A network rests when no caller moves and each idle loop has an empty queue. -/
theorem resting_of_blocked {mode : Overflow} {topology : Topology N P}
    {network : Network I N P A C S}
    (callers : ∀ caller, network.push caller = none ∧ network.resume caller = none ∧
      network.finish caller = none)
    (ports : ∀ port, (network.calls (.inr port)).isSome ∨ network.queues port = []) :
    network.Resting mode topology := by
  intro action handles
  cases action with
  | submit task node transaction order => cases handles
  | push caller => exact (callers caller).1
  | resume caller => exact (callers caller).2.1
  | finish caller => exact (callers caller).2.2
  | accept port position order =>
      change network.accept mode topology port position order = none
      unfold Network.accept
      split
      next ready =>
        rcases ports port with busy | empty
        · rw [Option.isNone_iff_eq_none.mp ready.1] at busy
          cases busy
        · rw [request, empty, List.getElem?_nil, Option.bind_none]
      next => rfl

end

end Network

end

namespace Network

open Reference

/-- Three nodes form a ring. Each has a port to the next node and a port to the node before it. -/
def ring : Topology (Fin 3) (Fin 3 × Bool) where
  owner port := port.1
  remote port := (if port.2 then port.1 + 1 else port.1 - 1, !port.2)
  paired := by decide

/-- All nodes have the state of one node, and no call is in progress. -/
def idle {I N P : Type} (node : Node Authorization Unit Unit) :
    Network I N P Authorization Unit Unit :=
  ⟨fun _ => node, fun _ => none, fun _ => [], ∅⟩

theorem idle_quiet {I N P : Type} (node : Node Authorization Unit Unit) :
    (idle node : Network I N P _ _ _).Quiet :=
  ⟨fun _ => rfl, fun _ => rfl, rfl⟩

theorem idle_alike {I N P : Type} (mode : Overflow) (node : Node Authorization Unit Unit) :
    (idle node : Network I N P _ _ _).Alike mode :=
  Alike.of_same fun _ _ => ⟨rfl, rfl, rfl⟩

/-- A transaction of the first node goes around the ring. -/
def around (transaction : Transaction Unit) :
    List (Action Unit (Fin 3) (Fin 3 × Bool) Authorization Unit) := [
  .submit () 0 (authorize transaction) [(0, true), (0, false)],
  .push (.inl ()), .accept (1, false) 0 [(1, true), (1, false)],
  .push (.inr (1, false)), .accept (2, false) 0 [(2, true), (2, false)],
  .push (.inr (2, false)), .accept (0, false) 0 [(0, true), (0, false)]]

/-- The errors return along the same way. -/
def back : List (Action Unit (Fin 3) (Fin 3 × Bool) Authorization Unit) :=
  [.resume (.inr (2, false)), .resume (.inr (1, false)), .resume (.inl ())]

def stoppedRing : Option (Network Unit (Fin 3) (Fin 3 × Bool) Authorization Unit Unit) :=
  play .checked ring (fun _ _ => True) (around Node.spendDeposit ++ back) (idle Node.depositNode)

def blockedRing : Option (Network Unit (Fin 3) (Fin 3 × Bool) Authorization Unit Unit) :=
  play .checked ring (fun _ _ => True) (around (worthless 1) ++ [.push (.inr (0, false))])
    (idle Node.depositNode)

/-- The push comes back to the first node, and all loops on its way stop or wait forever. -/
theorem ring_fails :
    ¬ (∀ (topology : Topology (Fin 3) (Fin 3 × Bool))
        (start network : Network Unit (Fin 3) (Fin 3 × Bool) Authorization Unit Unit),
        start.Quiet → start.Alike .checked → Run .checked topology (fun _ _ => True) start network →
          network.Served .checked topology) ∧
      (∃ network : Network Unit (Fin 3) (Fin 3 × Bool) Authorization Unit Unit,
        Run .checked ring (fun _ _ => True) (idle Node.depositNode) network ∧
          network.stopped = {(0, false), (1, false), (2, false)}) ∧
      ∃ network : Network Unit (Fin 3) (Fin 3 × Bool) Authorization Unit Unit,
        Run .checked ring (fun _ _ => True) (idle Node.depositNode) network ∧
          network.Resting .checked ring ∧ network.calls (.inl ()) ≠ none := by
  have stopped : stoppedRing.map (·.stopped) = some {(0, false), (1, false), (2, false)} := by
    decide +kernel
  have blocked : blockedRing.any (fun network => (network.calls (.inl ())).isSome &&
      decide (∀ caller, (network.push caller).isNone ∧ (network.resume caller).isNone ∧
        (network.finish caller).isNone) &&
      decide (∀ port, (network.calls (.inr port)).isSome ∨ network.queues port = [])) =
          true := by decide +kernel
  obtain ⟨network, played, loops⟩ := Option.map_eq_some_iff.mp stopped
  obtain ⟨other, deadlocked, facts⟩ := (Option.any_eq_true _ _).mp blocked
  have run := Run.start.play played
  refine ⟨fun claim => ?_, ⟨network, run, loops⟩, other, Run.start.play deadlocked, ?_⟩
  · have served := claim ring _ network (idle_quiet Node.depositNode)
      (idle_alike .checked Node.depositNode) run
    rw [served.listening] at loops
    exact absurd loops (by decide)
  · simp only [Bool.and_eq_true, decide_eq_true_eq, Option.isNone_iff_eq_none] at facts
    obtain ⟨⟨waiting, callers⟩, ports⟩ := facts
    exact ⟨resting_of_blocked callers ports, Option.isSome_iff_ne_none.mp waiting⟩

/-- Three nodes form a path. The node in the middle has two ports. -/
def path : Topology (Fin 3) (Fin 4) where
  owner port := if port = 0 then 0 else if port = 3 then 2 else 1
  remote port := if port.val % 2 = 0 then port + 1 else port - 1
  paired := by decide

/-- A transaction reaches the end of the path, and all its requests are answered. -/
def along (transaction : Transaction Unit) :
    List (Action Unit (Fin 3) (Fin 4) Authorization Unit) := [
  .submit () 0 (authorize transaction) [0],
  .push (.inl ()), .accept 1 0 [1, 2], .push (.inr 1), .accept 3 0 [3],
  .finish (.inr 3), .resume (.inr 1), .finish (.inr 1), .resume (.inl ()), .finish (.inl ())]

def servedPath : Option (Network Unit (Fin 3) (Fin 4) Authorization Unit Unit) :=
  play .checked path (Clear path) (along Node.spendDeposit) (idle Node.depositNode)

/-- The whole run along the path meets the condition, and each node stores the transaction. -/
theorem gossip_served_path :
    ∃ network : Network Unit (Fin 3) (Fin 4) Authorization Unit Unit,
      network.Served .checked path ∧ network.calls (.inl ()) = none ∧
        ∀ node, (network.nodes node).mempool.transactions[Node.spendDeposit.txid.hash]?.isSome := by
  have facts : servedPath.any (fun network => (network.calls (.inl ())).isNone && decide (∀ node,
      (network.nodes node).mempool.transactions[Node.spendDeposit.txid.hash]?.isSome)) =
          true := by decide +kernel
  obtain ⟨network, played, facts⟩ := (Option.any_eq_true _ _).mp facts
  simp only [Bool.and_eq_true, decide_eq_true_eq, Option.isNone_iff_eq_none] at facts
  have run := (Run.start.play played).mono fun _ _ clear => Clear.meets clear
  exact ⟨network, gossip_served (idle_quiet Node.depositNode)
    (idle_alike .checked Node.depositNode) run, facts⟩

end Network

end Ddk
