import Ddk.Proof.Net.Gossip

namespace Ddk

open Foundation Relation

/-- A connection joins adjacent nodes. -/
def Topology.Adjacent {N P : Type} (topology : Topology N P) (first second : N) : Prop :=
  ∃ port, topology.owner port = first ∧ topology.owner (topology.remote port) = second

section

variable [Bitcoin] {I N P A C S : Type}

/-- The mempool of a node stores a transaction under this name. -/
def Node.Pools (node : Node A C S) (txid : Txid) : Prop :=
  (node.mempool.transactions[txid.hash]?).isSome

/-- A call still pushes to a server, or it waits for it. -/
def PushCall.Targets (call : PushCall I P A C) (server : P) : Prop :=
  server ∈ call.frame.pending ∨ call.frame.phase = .waiting server

section

variable [Blake3] [Bincode C]

/-- A stored transaction is pooled under its name, and the other names keep their transactions. -/
theorem MemPool.put_transactions {mempool next : MemPool A C}
    {transaction : AuthorizedTransaction A C} (stored : mempool.put transaction = .ok next)
    (name : Hash) :
    next.transactions[name]? =
      if name = transaction.transaction.txid.hash then some transaction
        else mempool.transactions[name]? := by
  obtain ⟨spentUtxos, _, rfl⟩ := MemPool.put_eq_ok.mp stored
  exact Database.getElem?_put mempool.transactions _ _ _

variable [DecidableEq N]

/-- A put into one mempool pools the transaction at its node and nothing else. -/
theorem Node.pools_update {nodes : N → Node A C S} {owner : N} {mempool : MemPool A C}
    {transaction : AuthorizedTransaction A C}
    (stored : (nodes owner).mempool.put transaction = .ok mempool) (node : N)
    (txid : Txid) : (Function.update nodes owner { nodes owner with mempool } node).Pools txid ↔
      (nodes node).Pools txid ∨ (node = owner ∧ txid = transaction.transaction.txid) := by
  by_cases here : node = owner
  · subst here
    rw [Function.update_self, Pools, MemPool.put_transactions stored]
    by_cases same : txid = transaction.transaction.txid
    · rw [same, if_pos rfl]
      exact iff_of_true rfl (.inr ⟨rfl, rfl⟩)
    · have names : txid.hash ≠ transaction.transaction.txid.hash :=
        fun equal => same (congrArg Txid.mk equal)
      rw [if_neg names, or_iff_left (fun own => same own.2), Pools]
  · rw [Function.update_of_ne here, or_iff_left (fun own => here own.1)]

end

namespace Network

variable [CustomState S A C] [GetValue C] [GetAddress A] [Verify A C] [DecidableEq I]
variable [DecidableEq N] [DecidableEq P]
variable [Blake3] [Bincode C] [Fintype P] {mode : Overflow} {topology : Topology N P}
variable {network next : Network I N P A C S}

/-- A submission is refused, or it stores its transaction and begins to push it to all peers. -/
theorem submit_cases {task : I} {node : N} {transaction : AuthorizedTransaction A C}
    {order : List P} (taken : network.submit mode topology task node transaction order = some next)
    :
    next = network ∨ ∃ fee mempool, network.calls (.inl task) = none ∧ topology.Lists node order ∧
      (network.nodes node).validateTransaction mode transaction = .ok fee ∧
      (network.nodes node).mempool.put transaction = .ok mempool ∧
      next = { network with
        nodes := Function.update network.nodes node { network.nodes node with mempool }
        calls := Function.update network.calls (.inl task)
          (some ⟨transaction, ⟨order.map topology.remote, .ready, none⟩, none⟩) } := by
  unfold Network.submit at taken
  split at taken
  next ready =>
    split at taken
    next committed submission =>
      obtain ⟨fee, mempool, valid, stored, rfl⟩ := Node.submitTransaction_eq_ok.mp submission
      cases taken
      exact .inr ⟨fee, mempool, Option.isNone_iff_eq_none.mp ready.1, ready.2, valid, stored, rfl⟩
    next =>
      cases taken
      exact .inl rfl
  next => cases taken

/-- A loop stores a request and begins to push it to the other peers, or it stops. -/
theorem accept_cases {port : P} {position : ℕ} {order : List P}
    (taken : network.accept mode topology port position order = some next) :
    ∃ client call, network.calls (.inr port) = none ∧ topology.Lists (topology.owner port) order ∧
      (network.queues port)[position]? = some client ∧ network.calls client = some call ∧
      ((∃ fee mempool, (network.nodes (topology.owner port)).validateTransaction mode
          call.transaction = .ok fee ∧
          (network.nodes (topology.owner port)).mempool.put call.transaction = .ok mempool ∧
          next = { network with
            nodes := Function.update network.nodes (topology.owner port)
              { network.nodes (topology.owner port) with mempool }
            calls := Function.update network.calls (.inr port) (some ⟨call.transaction,
              ⟨(order.filter (· ≠ port)).map topology.remote, .ready, some client⟩, none⟩)
            queues := Function.update network.queues port
              ((network.queues port).eraseIdx position) }) ∨
        ∃ response, next = { network with
          calls := respond network.calls (some client) response
          queues := Function.update network.queues port ((network.queues port).eraseIdx position)
          stopped := insert port network.stopped }) := by
  unfold Network.accept at taken
  split at taken
  next ready =>
    split at taken
    next call requested =>
      obtain ⟨client, queued, running⟩ := Option.bind_eq_some_iff.mp requested
      refine ⟨client, call, Option.isNone_iff_eq_none.mp ready.1, ready.2.2, queued, running, ?_⟩
      rw [queued] at taken
      unfold Node.receiveTransaction at taken
      cases valid : (network.nodes (topology.owner port)).validateTransaction mode
        call.transaction with
      | error fault =>
          rw [valid] at taken
          cases fault with
          | error error =>
              cases taken
              exact .inr ⟨_, rfl⟩
          | panic =>
              cases taken
              exact .inr ⟨_, rfl⟩
      | ok fee =>
          rw [valid] at taken
          cases pooled : (network.nodes (topology.owner port)).poolTransaction call.transaction with
          | error fault =>
              rw [pooled] at taken
              cases taken
              exact .inr ⟨_, rfl⟩
          | ok stored =>
              rw [pooled] at taken
              obtain ⟨mempool, put, rfl⟩ := Node.poolTransaction_eq_ok.mp pooled
              cases taken
              exact .inl ⟨fee, mempool, rfl, put, rfl⟩
    next => cases taken
  next => cases taken

omit [CustomState S A C] [GetValue C] [GetAddress A] [Verify A C] [DecidableEq N] [Blake3]
  [Bincode C] [Fintype P] in
/-- A call continues with a response, or it ends without one. -/
theorem resume_ends {caller : Caller I P} (taken : network.resume caller = some next) :
    ∃ call, network.calls caller = some call ∧ call.frame.phase = .answered ∧
      ((call.response.isSome ∧ next = { network with
          calls := Function.update network.calls caller
            (some { call with frame := { call.frame with phase := .ready } }) }) ∨
        (call.response = none ∧ next = { network with
          calls := respond (Function.update network.calls caller none) call.frame.client none
          stopped := network.stopped ∪ caller.getRight?.toFinset })) := by
  unfold resume at taken
  split at taken
  next running =>
    cases taken
    exact ⟨_, running, rfl, .inl ⟨rfl, rfl⟩⟩
  next running =>
    cases taken
    exact ⟨_, running, rfl, .inr ⟨rfl, rfl⟩⟩
  next => cases taken

omit [DecidableEq I] [DecidableEq N] [DecidableEq P] [Fintype P] in
/-- A call is submitted when its task submits only these transactions. -/
def Submits (submitted : AuthorizedTransaction A C → Prop) : Action I N P A C → Prop
  | .submit _ _ transaction _ => submitted transaction
  | _ => True

omit [DecidableEq I] [DecidableEq N] [DecidableEq P] [Fintype P] in
instance (submitted : AuthorizedTransaction A C → Prop) [DecidablePred submitted] :
    (action : Action I N P A C) → Decidable (Submits submitted action)
  | .submit _ _ transaction _ => inferInstanceAs (Decidable (submitted transaction))
  | .push _ => isTrue trivial
  | .accept _ _ _ => isTrue trivial
  | .resume _ => isTrue trivial
  | .finish _ => isTrue trivial

/-- Each pooled transaction was there at the start, or it was submitted and found valid. -/
structure Originates (mode : Overflow) (submitted : AuthorizedTransaction A C → Prop)
    (start network : Network I N P A C S) : Prop where
  same : ∀ node, ∃ mempool, network.nodes node = { start.nodes node with mempool }
  calls : ∀ caller call, network.calls caller = some call → submitted call.transaction
  pooled : ∀ node (name : Hash) transaction, (network.nodes node).mempool.transactions[name]? =
    some transaction →
    (start.nodes node).mempool.transactions[name]? = some transaction ∨
      (submitted transaction ∧ transaction.transaction.txid.hash = name ∧
        ∃ fee, (start.nodes node).validateTransaction mode transaction = .ok fee)

variable {submitted : AuthorizedTransaction A C → Prop} {start : Network I N P A C S}

omit [DecidableEq I] [DecidableEq P] [Fintype P] in
/-- A stored transaction that was submitted and is valid keeps the origins. -/
theorem Originates.store (originates : Originates mode submitted start network) {owner : N}
    {mempool : MemPool A C} {transaction : AuthorizedTransaction A C} {fee : UInt64}
    (known : submitted transaction)
    (valid : (network.nodes owner).validateTransaction mode transaction = .ok fee)
    (stored : (network.nodes owner).mempool.put transaction = .ok mempool)
    {calls : Caller I P → Option (PushCall I P A C)} {queues : P → List (Caller I P)}
    {stopped : Finset P}
    (each : ∀ caller call, calls caller = some call → submitted call.transaction) :
    Originates mode submitted start
      ⟨Function.update network.nodes owner { network.nodes owner with mempool }, calls, queues,
        stopped⟩ where
  same node := by
    dsimp only
    by_cases here : node = owner
    · subst here
      obtain ⟨before, same⟩ := originates.same node
      rw [Function.update_self, same]
      exact ⟨mempool, rfl⟩
    · rw [Function.update_of_ne here]
      exact originates.same node
  calls := each
  pooled node name other found := by
    dsimp only at found
    by_cases here : node = owner
    · subst here
      rw [Function.update_self, MemPool.put_transactions stored] at found
      split at found
      next named =>
        cases found
        obtain ⟨before, same⟩ := originates.same node
        rw [same] at valid
        exact .inr ⟨known, named.symm, fee, valid⟩
      next => exact originates.pooled node name other found
    · rw [Function.update_of_ne here] at found
      exact originates.pooled node name other found

/-- Each step keeps the origins. -/
theorem Originates.step (originates : Originates mode submitted start network)
    {action : Action I N P A C} (submits : Submits submitted action)
    (taken : network.step mode topology action = some next) :
    Originates mode submitted start next := by
  cases action with
  | submit task node transaction order =>
      obtain rfl | ⟨fee, mempool, _, _, valid, stored, rfl⟩ := submit_cases taken
      · exact originates
      · refine originates.store submits valid stored
          (forall_update originates.calls fun call same => ?_)
        cases same
        exact submits
  | push caller =>
      obtain ⟨call, server, pending, running, _, _, rfl⟩ := push_cases taken
      refine ⟨originates.same, forall_update originates.calls fun value same => ?_,
        originates.pooled⟩
      cases same
      exact originates.calls caller call running
  | accept port position order =>
      obtain ⟨client, call, _, _, _, running, stores | refuses⟩ := accept_cases taken
      · obtain ⟨fee, mempool, valid, stored, rfl⟩ := stores
        have known := originates.calls client call running
        refine originates.store known valid stored
          (forall_update originates.calls fun value same => ?_)
        cases same
        exact known
      · obtain ⟨response, rfl⟩ := refuses
        refine ⟨originates.same, ?_, originates.pooled⟩
        change ∀ caller call, respond network.calls (some client) response caller = some call →
          submitted call.transaction
        exact forall_respond originates.calls fun _ known => known
  | resume caller =>
      obtain ⟨call, running, _, ⟨_, rfl⟩ | ⟨_, rfl⟩⟩ := resume_ends taken
      · refine ⟨originates.same, forall_update originates.calls fun value same => ?_,
          originates.pooled⟩
        cases same
        exact originates.calls caller call running
      · refine ⟨originates.same, forall_respond ?_ fun _ known => known, originates.pooled⟩
        exact forall_update originates.calls fun value none => nomatch none
  | finish caller =>
      obtain ⟨call, _, _, _, rfl⟩ := finish_cases taken
      refine ⟨originates.same, forall_respond ?_ fun _ known => known, originates.pooled⟩
      exact forall_update originates.calls fun value none => nomatch none

theorem Run.originates (quiet : start.Quiet)
    (run : Run mode topology (fun _ action => Submits submitted action) start network) :
    Originates mode submitted start network := by
  induction run with
  | start =>
      refine ⟨fun node => ⟨(start.nodes node).mempool, rfl⟩, fun caller call running => ?_,
        fun _ _ _ found => .inl found⟩
      rw [quiet.calls] at running
      cases running
  | step _ submits taken ih => exact ih.step submits taken

/-- In every run, also with failing sessions, gossip pools only submitted and valid transactions. -/
theorem Run.pooled_submitted (quiet : start.Quiet)
    (run : Run mode topology (fun _ action => Submits submitted action) start network) {node : N}
    {name : Hash} {transaction : AuthorizedTransaction A C}
    (stored : (network.nodes node).mempool.transactions[name]? = some transaction) :
    (start.nodes node).mempool.transactions[name]? = some transaction ∨
      (submitted transaction ∧ transaction.transaction.txid.hash = name ∧
        ∃ fee, (start.nodes node).validateTransaction mode transaction = .ok fee) :=
  (run.originates quiet).pooled node name transaction stored

/-- A pool with a new transaction has passed it to all its peers, or a call is on the way there. -/
structure Spreads (topology : Topology N P) (start network : Network I N P A C S) : Prop where
  distinct : ∀ port, (network.queues port).Nodup
  queued : ∀ port, ∀ caller ∈ network.queues port, ∃ call, network.calls caller = some call ∧
    call.frame.phase = .waiting port
  tasks : ∀ task call, network.calls (.inl task) = some call → call.frame.client = none
  handled : ∀ port call, network.calls (.inr port) = some call →
    ∃ client request, call.frame.client = some client ∧
    client ∉ network.queues port ∧ network.calls client = some request ∧
      request.frame.phase = .waiting port ∧
    request.transaction = call.transaction ∧
    (network.nodes (topology.owner port)).Pools call.transaction.transaction.txid
  backed : ∀ caller call, network.calls caller = some call → ∀ server, call.Targets server →
    (network.nodes (topology.owner (topology.remote server))).Pools
      call.transaction.transaction.txid
  responded : ∀ caller call, network.calls caller = some call → call.frame.phase = .answered →
    call.response.isSome
  spread : ∀ node txid, (network.nodes node).Pools txid → ¬ (start.nodes node).Pools txid →
    ∀ port, topology.owner port = node →
      (network.nodes (topology.owner (topology.remote port))).Pools txid ∨
      ∃ caller call, network.calls caller = some call ∧ call.transaction.transaction.txid = txid ∧
        call.Targets (topology.remote port)

omit [CustomState S A C] [GetValue C] [GetAddress A] [Verify A C] [DecidableEq N] [Blake3]
  [Bincode C] [Fintype P] in
/-- A call of a changed table is the changed call or another one. -/
theorem call_of_update {calls : Caller I P → Option (PushCall I P A C)} {caller other : Caller I P}
    {changed : Option (PushCall I P A C)} {call : PushCall I P A C}
    (found : Function.update calls caller changed other = some call) :
    (other = caller ∧ changed = some call) ∨ (other ≠ caller ∧ calls other = some call) := by
  by_cases same : other = caller
  · subst same
    rw [Function.update_self] at found
    exact .inl ⟨rfl, found⟩
  · rw [Function.update_of_ne same] at found
    exact .inr ⟨same, found⟩

omit [CustomState S A C] [GetValue C] [GetAddress A] [Verify A C] [DecidableEq N] [Fintype P] in
/-- A call may change its phase when no loop serves it and each lost target has stored. -/
theorem Spreads.change (spreads : Spreads topology start network) {caller : Caller I P}
    {call changed : PushCall I P A C} {queues : P → List (Caller I P)}
    (running : network.calls caller = some call)
    (free : ∀ port, call.frame.phase = .waiting port → caller ∉ queues port ∧
      network.calls (.inr port) = none)
    (transaction : changed.transaction = call.transaction)
    (client : changed.frame.client = call.frame.client)
    (aims : ∀ server, changed.Targets server → call.Targets server)
    (served : ∀ server, call.Targets server → changed.Targets server ∨
      (network.nodes (topology.owner server)).Pools call.transaction.transaction.txid)
    (responded : changed.frame.phase = .answered → changed.response.isSome)
    (distinct : ∀ port, (queues port).Nodup)
    (queued : ∀ port, ∀ other ∈ queues port,
      other ∈ network.queues port ∨ (other = caller ∧ changed.frame.phase = .waiting port)) :
    Spreads topology start ⟨network.nodes, Function.update network.calls caller (some changed),
      queues,
      network.stopped⟩ := by
  have kept {other : Caller I P} {request : PushCall I P A C}
    (found : network.calls other = some request)
      (different : other ≠ caller) : Function.update network.calls caller (some changed) other =
          some request :=
    (Function.update_of_ne different _ _).trans found
  constructor
  case distinct => exact distinct
  case queued =>
    intro port other member
    rcases queued port other member with old | ⟨rfl, waits⟩
    · obtain ⟨request, found, waits⟩ := spreads.queued port other old
      refine ⟨request, kept found ?_, waits⟩
      rintro rfl
      rw [running] at found
      cases found
      exact (free port waits).1 member
    · exact ⟨changed, Function.update_self .., waits⟩
  case tasks =>
    intro task request found
    rcases call_of_update found with ⟨rfl, same⟩ | ⟨_, found⟩
    · cases same
      exact client.trans (spreads.tasks task call running)
    · exact spreads.tasks task request found
  case handled =>
    intro port request found
    have before : ∃ earlier, network.calls (.inr port) = some earlier ∧
        request.transaction = earlier.transaction ∧
        request.frame.client = earlier.frame.client := by
      rcases call_of_update found with ⟨rfl, same⟩ | ⟨_, found⟩
      · cases same
        exact ⟨call, running, transaction, client⟩
      · exact ⟨request, found, rfl, rfl⟩
    obtain ⟨earlier, standing, same, sameClient⟩ := before
    obtain ⟨handled, original, own, absent, known, waits, equal, pooled⟩ :=
      spreads.handled port earlier standing
    have different : handled ≠ caller := by
      rintro rfl
      rw [running] at known
      cases known
      rw [(free port waits).2] at standing
      cases standing
    refine ⟨handled, original, sameClient.trans own, fun member => ?_, kept known different, waits,
      equal.trans same.symm, same ▸ pooled⟩
    rcases queued port handled member with old | ⟨own, _⟩
    · exact absent old
    · exact different own
  case backed =>
    intro other request found server aimed
    rcases call_of_update found with ⟨rfl, same⟩ | ⟨_, found⟩
    · cases same
      rw [transaction]
      exact spreads.backed other call running server (aims server aimed)
    · exact spreads.backed other request found server aimed
  case responded =>
    intro other request found answered
    rcases call_of_update found with ⟨rfl, same⟩ | ⟨_, found⟩
    · cases same
      exact responded answered
    · exact spreads.responded other request found answered
  case spread =>
    intro node txid pooled fresh port own
    rcases spreads.spread node txid pooled fresh port own
      with reached | ⟨other, request, found, same, aimed⟩
    · exact .inl reached
    · by_cases here : other = caller
      · subst here
        rw [running] at found
        cases found
        rcases served _ aimed with aimed | reached
        · exact .inr ⟨other, changed, Function.update_self .., by rw [transaction, same], aimed⟩
        · exact .inl (same ▸ reached)
      · exact .inr ⟨other, request, kept found here, same, aimed⟩

omit [CustomState S A C] [GetValue C] [GetAddress A] [Verify A C] [DecidableEq N] [Fintype P] in
/-- A call without targets may end. -/
theorem Spreads.remove (spreads : Spreads topology start network) {caller : Caller I P}
    {call : PushCall I P A C} (running : network.calls caller = some call)
    (done : ∀ server, ¬ call.Targets server) :
    Spreads topology start { network with calls := Function.update network.calls caller none } := by
  have kept {other : Caller I P} {request : PushCall I P A C} {server : P}
    (found : network.calls other = some request)
      (aimed : request.Targets server) : Function.update network.calls caller none other =
          some request := by
    have different : other ≠ caller := by
      rintro rfl
      rw [running] at found
      cases found
      exact done server aimed
    exact (Function.update_of_ne different _ _).trans found
  have old {other : Caller I P} {request : PushCall I P A C}
      (found : Function.update network.calls caller none other = some request) :
          network.calls other = some request := by
    rcases call_of_update found with ⟨_, none⟩ | ⟨_, found⟩
    · cases none
    · exact found
  constructor
  case distinct => exact spreads.distinct
  case queued =>
    intro port other member
    obtain ⟨request, found, waits⟩ := spreads.queued port other member
    exact ⟨request, kept found (.inr waits), waits⟩
  case tasks => exact fun task request found => spreads.tasks task request (old found)
  case handled =>
    intro port request found
    obtain ⟨handled, original, own, absent, known, waits, rest⟩ :=
      spreads.handled port request (old found)
    exact ⟨handled, original, own, absent, kept known (.inr waits), waits, rest⟩
  case backed => exact fun other request found => spreads.backed other request (old found)
  case responded => exact fun other request found => spreads.responded other request (old found)
  case spread =>
    intro node txid pooled fresh port own
    rcases spreads.spread node txid pooled fresh port own
      with reached | ⟨other, request, found, same, aimed⟩
    · exact .inl reached
    · exact .inr ⟨other, request, kept found aimed, same, aimed⟩

omit [CustomState S A C] [GetValue C] [GetAddress A] [Verify A C] [Fintype P] in
/-- A new call stores its transaction and pushes it to all peers that have not stored it. -/
theorem Spreads.begin (spreads : Spreads topology start network) {caller : Caller I P} {owner : N}
    {mempool : MemPool A C} {transaction : AuthorizedTransaction A C} {pending : List P}
    {client : Option (Caller I P)} (idle : network.calls caller = none)
    (stored : (network.nodes owner).mempool.put transaction = .ok mempool)
    (owned : ∀ server ∈ pending, topology.owner (topology.remote server) = owner)
    (covers : ∀ port, topology.owner port = owner → topology.remote port ∈ pending ∨
      (network.nodes (topology.owner (topology.remote port))).Pools transaction.transaction.txid)
    (tasked : ∀ task, caller = .inl task → client = none) {queues : P → List (Caller I P)}
    (distinct : ∀ port, (queues port).Nodup)
    (queued : ∀ port, ∀ other ∈ queues port, other ∈ network.queues port)
    (serves : ∀ port, caller = .inr port → topology.owner port = owner ∧
      ∃ handled request, client = some handled ∧
      handled ∉ queues port ∧ network.calls handled = some request ∧
    request.frame.phase = .waiting port ∧
      request.transaction = transaction) :
    Spreads topology start
      ⟨Function.update network.nodes owner { network.nodes owner with mempool },
      Function.update network.calls caller (some ⟨transaction, ⟨pending, .ready, client⟩, none⟩),
      queues,
      network.stopped⟩ := by
  have grown {node : N} {txid : Txid} (pooled : (network.nodes node).Pools txid) :
      (Function.update network.nodes owner { network.nodes owner with mempool } node).Pools txid :=
    (Node.pools_update stored node txid).mpr (.inl pooled)
  have own : (Function.update network.nodes owner { network.nodes owner with mempool } owner).Pools
      transaction.transaction.txid := (Node.pools_update stored owner _).mpr (.inr ⟨rfl, rfl⟩)
  have kept {other : Caller I P} {request : PushCall I P A C}
      (found : network.calls other = some request) :
      Function.update network.calls caller
        (some ⟨transaction, ⟨pending, .ready, client⟩, none⟩) other =
        some request := by
    have different : other ≠ caller := by
      rintro rfl
      rw [idle] at found
      cases found
    exact (Function.update_of_ne different _ _).trans found
  constructor
  case distinct => exact distinct
  case queued =>
    intro port other member
    obtain ⟨request, found, waits⟩ := spreads.queued port other (queued port other member)
    exact ⟨request, kept found, waits⟩
  case tasks =>
    intro task request found
    rcases call_of_update found with ⟨same, new⟩ | ⟨_, found⟩
    · cases new
      exact tasked task same.symm
    · exact spreads.tasks task request found
  case handled =>
    intro port request found
    rcases call_of_update found with ⟨same, new⟩ | ⟨_, found⟩
    · cases new
      obtain ⟨rfl, handled, original, sameClient, absent, known, waits, equal⟩ :=
        serves port same.symm
      exact ⟨handled, original, sameClient, absent, kept known, waits, equal, own⟩
    · obtain ⟨handled, original, sameClient, absent, known, waits, equal, pooled⟩ :=
        spreads.handled port request found
      exact ⟨handled, original, sameClient, fun member => absent (queued port handled member),
        kept known, waits, equal,
        grown pooled⟩
  case backed =>
    intro other request found server aimed
    rcases call_of_update found with ⟨_, new⟩ | ⟨_, found⟩
    · cases new
      rcases aimed with listed | waits
      · rw [owned server listed]
        exact own
      · cases waits
    · exact grown (spreads.backed other request found server aimed)
  case responded =>
    intro other request found answered
    rcases call_of_update found with ⟨_, new⟩ | ⟨_, found⟩
    · cases new
      cases answered
    · exact spreads.responded other request found answered
  case spread =>
    intro node txid pooled fresh port at_node
    rcases (Node.pools_update stored node txid).mp pooled with old | ⟨rfl, rfl⟩
    · rcases spreads.spread node txid old fresh port at_node
        with reached | ⟨other, request, found, same, aimed⟩
      · exact .inl (grown reached)
      · exact .inr ⟨other, request, kept found, same, aimed⟩
    · rcases covers port at_node with listed | reached
      · exact .inr ⟨caller, _, Function.update_self .., rfl, .inl listed⟩
      · exact .inl (grown reached)

omit [CustomState S A C] [GetValue C] [GetAddress A] [Verify A C] [DecidableEq N] [Fintype P] in
/-- A pushed request waits in the queue of its server. -/
theorem Spreads.push (spreads : Spreads topology start network) {caller : Caller I P}
    (taken : network.push caller = some next) : Spreads topology start next := by
  obtain ⟨call, server, pending, running, aims, ready, rfl⟩ := push_cases taken
  have free (port : P) : call.frame.phase ≠ .waiting port := by
    rw [ready]
    exact nofun
  have targets (other : P) : call.Targets other ↔ other ∈ pending ∨
      Phase.waiting server = .waiting other := by
    rw [PushCall.Targets, aims, List.mem_cons, or_iff_left (free other), Phase.waiting.injEq,
      or_comm, @eq_comm _ server]
  apply spreads.change running
  · exact fun port waits => absurd waits (free port)
  · rfl
  · rfl
  · exact fun other aimed => (targets other).mpr aimed
  · exact fun other aimed => .inl ((targets other).mp aimed)
  · exact nofun
  · intro port
    by_cases here : port = server
    · subst here
      rw [Function.update_self]
      refine List.nodup_append.mpr ⟨spreads.distinct port, List.nodup_singleton caller, ?_⟩
      rintro other member _ last rfl
      rw [List.mem_singleton] at last
      subst last
      obtain ⟨request, found, waits⟩ := spreads.queued port other member
      rw [running] at found
      cases found
      exact free port waits
    · rw [Function.update_of_ne here]
      exact spreads.distinct port
  · intro port other member
    by_cases here : port = server
    · subst here
      rw [Function.update_self, List.mem_append, List.mem_singleton] at member
      exact member.imp_right fun same => ⟨same, rfl⟩
    · rw [Function.update_of_ne here] at member
      exact .inl member

omit [CustomState S A C] [GetValue C] [GetAddress A] [Verify A C] [DecidableEq N] [Fintype P] in
/-- A call resumes with its response. -/
theorem Spreads.resume (spreads : Spreads topology start network) {caller : Caller I P}
    (taken : network.resume caller = some next) : Spreads topology start next := by
  obtain ⟨call, running, answered, rfl⟩ := resume_cases (spreads.responded caller) taken
  have free (port : P) : call.frame.phase ≠ .waiting port := by
    rw [answered]
    exact nofun
  apply spreads.change running
  · exact fun port waits => absurd waits (free port)
  · rfl
  · rfl
  · exact fun other aimed => aimed.imp_right nofun
  · exact fun other aimed => .inl (aimed.imp_right fun waits => absurd waits (free other))
  · exact nofun
  · exact spreads.distinct
  · exact fun port other member => .inl member

omit [CustomState S A C] [GetValue C] [GetAddress A] [Verify A C] [DecidableEq N] [Fintype P] in
/-- An ended call answers its client, whose server has stored the transaction. -/
theorem Spreads.finish (spreads : Spreads topology start network) {caller : Caller I P}
    (taken : network.finish caller = some next) : Spreads topology start next := by
  obtain ⟨call, running, aims, ready, rfl⟩ := finish_cases taken
  have done (server : P) : ¬ call.Targets server := by
    rw [PushCall.Targets, aims, ready]
    exact fun aimed => aimed.elim List.not_mem_nil nofun
  have removed := spreads.remove running done
  cases caller with
  | inl task =>
      rw [spreads.tasks task call running]
      exact removed
  | inr port =>
      obtain ⟨client, request, own, absent, known, waits, same, pooled⟩ :=
        spreads.handled port call running
      have left : Function.update network.calls (.inr port) none client = some request := by
        have different : client ≠ .inr port := by
          rintro rfl
          rw [running] at known
          cases known
          exact done port (.inr waits)
        exact (Function.update_of_ne different _ _).trans known
      have answered : respond (Function.update network.calls (.inr port) none) (some client)
          (some .transactionAccepted) = Function.update
            (Function.update network.calls (.inr port) none) client
            (some { request with
              frame := { request.frame with phase := .answered }
              response := some .transactionAccepted }) := by
        rw [respond, left, Option.map_some]
      rw [own, answered]
      apply removed.change left
      · intro other waiting
        rw [waits, Phase.waiting.injEq] at waiting
        subst waiting
        exact ⟨absent, Function.update_self ..⟩
      · rfl
      · rfl
      · intro other aimed
        rcases aimed with listed | waiting
        · exact .inl listed
        · cases waiting
      · intro other aimed
        rcases aimed with listed | waiting
        · exact .inl (.inl listed)
        · rw [waits, Phase.waiting.injEq] at waiting
          subst waiting
          exact .inr (same ▸ pooled)
      · exact fun _ => rfl
      · exact spreads.distinct
      · exact fun other caller member => .inl member

/-- A submission begins to push its transaction to all peers. -/
theorem Spreads.submit (spreads : Spreads topology start network) {task : I} {node : N}
    {transaction : AuthorizedTransaction A C} {order : List P}
    (taken : network.submit mode topology task node transaction order = some next) :
    Spreads topology start next := by
  obtain rfl | ⟨fee, mempool, idle, lists, _, stored, rfl⟩ := submit_cases taken
  · exact spreads
  · refine spreads.begin idle stored (fun server listed => ?_) (fun port own => ?_)
      (fun _ _ => rfl) spreads.distinct
      (fun _ _ member => member) nofun
    · obtain ⟨port, ordered, rfl⟩ := List.mem_map.mp listed
      rw [topology.paired]
      exact (lists.2 port).mp ordered
    · exact .inl (List.mem_map_of_mem ((lists.2 port).mpr own))

/-- An accepted request stores its transaction. A refused one stops its loop. -/
theorem Spreads.accept (spreads : Spreads topology start network) {port : P} {position : ℕ}
    {order : List P} (taken : network.accept mode topology port position order = some next)
    (listening : next.stopped = ∅) :
    Spreads topology start next := by
  obtain ⟨client, call, idle, lists, waiting, running, stores | refuses⟩ := accept_cases taken
  · obtain ⟨fee, mempool, _, stored, rfl⟩ := stores
    have member : client ∈ network.queues port := List.mem_of_getElem? waiting
    obtain ⟨request, found, waits⟩ := spreads.queued port client member
    rw [running] at found
    cases found
    refine spreads.begin idle stored (fun server listed => ?_) (fun other own => ?_) nofun
      (fun other => ?_)
      (fun other caller listed => ?_) fun other same => ?_
    · obtain ⟨other, ordered, rfl⟩ := List.mem_map.mp listed
      rw [topology.paired]
      exact (lists.2 other).mp (List.mem_of_mem_filter ordered)
    · by_cases here : other = port
      · subst here
        exact .inr (spreads.backed client call running other (.inr waits))
      · exact .inl
          (List.mem_map_of_mem (List.mem_filter.mpr ⟨(lists.2 other).mpr own, by simpa using here⟩))
    · by_cases here : other = port
      · subst here
        rw [Function.update_self]
        exact (spreads.distinct other).eraseIdx position
      · rw [Function.update_of_ne here]
        exact spreads.distinct other
    · by_cases here : other = port
      · subst here
        rw [Function.update_self] at listed
        exact List.mem_of_mem_eraseIdx listed
      · rw [Function.update_of_ne here] at listed
        exact listed
    · cases same
      refine ⟨rfl, client, call, rfl, ?_, running, waits, rfl⟩
      rw [Function.update_self, List.mem_eraseIdx_iff_getElem?]
      rintro ⟨index, different, again⟩
      have inside := (List.getElem?_eq_some_iff.mp again).1
      exact different ((List.getElem?_inj inside (spreads.distinct port)).mp
        (again.trans waiting.symm))
  · obtain ⟨response, rfl⟩ := refuses
    exact absurd listening (Finset.insert_ne_empty _ _)

omit [Blake3] [Bincode C] [CustomState S A C] [GetValue C] [GetAddress A] [Verify A C]
  [DecidableEq N] [Fintype P] in
/-- A stopped loop does not start again. -/
theorem stopped_of_resume {caller : Caller I P} (taken : network.resume caller = some next)
    (listening : next.stopped = ∅) : network.stopped = ∅ := by
  obtain ⟨call, _, _, ⟨_, rfl⟩ | ⟨_, rfl⟩⟩ := resume_ends taken
  · exact listening
  · exact (Finset.union_eq_empty.mp listening).1

/-- A step of a network whose loops all listen keeps the spreading. -/
theorem Spreads.step {action : Action I N P A C}
    (taken : network.step mode topology action = some next)
    (listening : next.stopped = ∅) :
    network.stopped = ∅ ∧ (Spreads topology start network → Spreads topology start next) := by
  cases action with
  | submit task node transaction order =>
      refine ⟨?_, fun spreads => spreads.submit taken⟩
      obtain rfl | ⟨_, _, _, _, _, _, rfl⟩ := submit_cases taken
      · exact listening
      · exact listening
  | push caller =>
      refine ⟨?_, fun spreads => spreads.push taken⟩
      obtain ⟨_, _, _, _, _, _, rfl⟩ := push_cases taken
      exact listening
  | accept port position order =>
      refine ⟨?_, fun spreads => spreads.accept taken listening⟩
      obtain ⟨_, _, _, _, _, _, ⟨_, _, _, _, rfl⟩ | ⟨_, rfl⟩⟩ := accept_cases taken
      · exact listening
      · exact absurd listening (Finset.insert_ne_empty _ _)
  | resume caller => exact ⟨stopped_of_resume taken listening, fun spreads => spreads.resume taken⟩
  | finish caller =>
      refine ⟨?_, fun spreads => spreads.finish taken⟩
      obtain ⟨_, _, _, _, rfl⟩ := finish_cases taken
      exact listening

/-- While all loops listen, each new transaction is at all peers or on its way to them. -/
theorem Run.spreads {allowed : Network I N P A C S → Action I N P A C → Prop} (quiet : start.Quiet)
    (run : Run mode topology allowed start network) (listening : network.stopped = ∅) :
    Spreads topology start network := by
  induction run with
  | start =>
      have idle {caller : Caller I P} {call : PushCall I P A C}
          (running : start.calls caller = some call) : False := by
        rw [quiet.calls] at running
        cases running
      refine ⟨fun port => ?_, fun port caller member => ?_, fun _ _ running => (idle running).elim,
        fun _ _ running => (idle running).elim, fun _ _ running => (idle running).elim,
        fun _ _ running => (idle running).elim, fun _ _ pooled fresh => absurd pooled fresh⟩
      · rw [quiet.queues]
        exact List.nodup_nil
      · rw [quiet.queues] at member
        cases member
  | step _ _ taken ih =>
      obtain ⟨before, kept⟩ := Spreads.step taken listening
      exact kept (ih before)

/-- A new transaction reaches all connected nodes unless a loop has stopped or a call goes on. -/
theorem Run.gossip_delivered {allowed : Network I N P A C S → Action I N P A C → Prop}
    (quiet : start.Quiet) (run : Run mode topology allowed start network)
    (listening : network.stopped = ∅) (ended : ∀ caller, network.calls caller = none) {txid : Txid}
    (fresh : ∀ node, ¬ (start.nodes node).Pools txid) {node peer : N}
    (pooled : (network.nodes node).Pools txid)
    (connected : ReflTransGen topology.Adjacent node peer) : (network.nodes peer).Pools txid := by
  have spreads := run.spreads quiet listening
  induction connected with
  | refl => exact pooled
  | tail _ adjacent reached =>
      obtain ⟨port, own, rfl⟩ := adjacent
      rcases spreads.spread _ txid reached (fresh _) port own
        with delivered | ⟨caller, call, running, _⟩
      · exact delivered
      · rw [ended] at running
        cases running

end Network

end

namespace Network

open Reference

theorem idle_nodes {I N P : Type} (node : Node Authorization Unit Unit) (name : N) :
    (idle node : Network I N P Authorization Unit Unit).nodes name = node := rfl

/-- The loops of the path all listen at the end, and no call goes on. -/
theorem gossip_delivered_path :
    ∃ network : Network Unit (Fin 3) (Fin 4) Authorization Unit Unit,
      Run .checked path (fun network action => Clear path network action)
        (idle Node.depositNode) network ∧
        (network.nodes 2).Pools Node.spendDeposit.txid := by
  have facts : servedPath.any (fun network => decide (network.stopped = ∅) &&
      decide (∀ caller, (network.calls caller).isNone) &&
      decide ((network.nodes 0).mempool.transactions[Node.spendDeposit.txid.hash]?).isSome) =
          true := by
    decide +kernel
  obtain ⟨network, played, facts⟩ := (Option.any_eq_true _ _).mp facts
  simp only [Bool.and_eq_true, decide_eq_true_eq, Option.isNone_iff_eq_none] at facts
  obtain ⟨⟨listening, ended⟩, pooled⟩ := facts
  have run := Run.start.play played
  have unknown : ¬ Node.depositNode.Pools Node.spendDeposit.txid := by
    rw [Node.Pools]
    decide +kernel
  have connected : ReflTransGen path.Adjacent 0 2 :=
    (ReflTransGen.single ⟨0, rfl, rfl⟩).tail ⟨2, rfl, rfl⟩
  exact ⟨network, run, Run.gossip_delivered (idle_quiet Node.depositNode) run listening ended
    (fun name => (idle_nodes Node.depositNode name).symm ▸ unknown) pooled connected⟩

/-- The loops of the ring stop, and the second node has pooled only what the task submitted. -/
theorem pooled_submitted_ring :
    ∃ (network : Network Unit (Fin 3) (Fin 3 × Bool) Authorization Unit Unit)
      (transaction : AuthorizedTransaction Authorization Unit),
      network.stopped = {(0, false), (1, false), (2, false)} ∧
      (network.nodes 1).mempool.transactions[Node.spendDeposit.txid.hash]? = some transaction ∧
      transaction = authorize Node.spendDeposit ∧
      ∃ fee, Node.depositNode.validateTransaction .checked transaction = .ok fee := by
  have facts :
      (play .checked ring (fun _ action => Submits (· = authorize Node.spendDeposit) action)
        (around Node.spendDeposit ++ back) (idle Node.depositNode)).any
        (fun network : Network Unit (Fin 3) (Fin 3 × Bool) Authorization Unit Unit =>
          decide (network.stopped = {(0, false), (1, false), (2, false)}) &&
            ((network.nodes 1).mempool.transactions[Node.spendDeposit.txid.hash]?).isSome) =
                true := by
    decide +kernel
  obtain ⟨network, played, facts⟩ := (Option.any_eq_true _ _).mp facts
  simp only [Bool.and_eq_true, decide_eq_true_eq] at facts
  obtain ⟨stopped, pooled⟩ := facts
  obtain ⟨transaction, stored⟩ := Option.isSome_iff_exists.mp pooled
  have run := Run.start.play played
  rcases Run.pooled_submitted (idle_quiet Node.depositNode) run stored
    with before | ⟨same, _, valid⟩
  · have empty : (Node.depositNode.mempool.transactions[Node.spendDeposit.txid.hash]?).isNone := by
      decide +kernel
    rw [idle_nodes] at before
    rw [before] at empty
    cases empty
  · rw [idle_nodes] at valid
    exact ⟨network, transaction, stopped, stored, same, valid⟩

end Network

end Ddk
