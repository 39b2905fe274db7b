/-
This file bounds the steps of nested calls.
-/

import Ddk.Foundation.RemoteCalls

namespace Foundation.Calls

open Relation

variable {T P : Type}

/-- The trail of a caller lists the servers that wait for it. A busy server is on its own trail. -/
def trailOf (trail : P → List P) : Caller T P → List P
  | .inl _ => []
  | .inr server => trail server

/-- Each busy server continues the trail of its client, and the callers are finitely many. -/
structure Traced (calls : Calls T P) (callers : Finset (Caller T P))
    (trail : P → List P) : Prop where
  sound : Sound calls
  follows : ∀ server client, calls.client server = some client →
    trail server = server :: trailOf trail client
  servers : ∀ server, .inr server ∈ callers
  listed : ∀ caller frame, calls.frames caller = some frame → caller ∈ callers

/-- The empty calls have empty trails. -/
theorem Traced.empty [Fintype P] :
    Traced (⟨fun _ => none, fun _ => []⟩ : Calls T P) (Finset.univ.map Function.Embedding.inr)
      fun _ => [] where
  sound := Sound.empty
  follows _ _ handled := by cases handled
  servers server := Finset.mem_map_of_mem _ (Finset.mem_univ server)
  listed _ _ none := by cases none

/-- A busy server handles the call of a client. -/
theorem Sound.exists_client {calls : Calls T P} (sound : Sound calls) {server : P}
    {frame : Frame T P} (running : calls.frames (.inr server) = some frame) :
    ∃ client, calls.client server = some client := by
  obtain ⟨client, held⟩ := Option.isSome_iff_exists.mp (sound.owned _ _ running)
  refine ⟨client, ?_⟩
  rw [Calls.client, running]
  exact held

/-- The members of a trail are distinct and wait for its server. -/
theorem Traced.trail_nodup {calls : Calls T P} {callers : Finset (Caller T P)} {trail : P → List P}
    (traced : Traced calls callers trail) {server : P} {client : Caller T P}
    (handled : calls.client server = some client) :
    (trail server).Nodup ∧ ∀ member ∈ trail server, ReflTransGen calls.Waits member server := by
  induction path : trail server generalizing server client with
  | nil =>
      rw [traced.follows server client handled] at path
      cases path
  | cons first rest ih =>
      have continued := traced.follows server client handled
      rw [path] at continued
      obtain ⟨rfl, tail⟩ := List.cons.inj continued
      cases client with
      | inl task =>
          rw [tail]
          refine ⟨List.nodup_singleton first, ?_⟩
          intro member inside
          rw [List.mem_singleton.mp inside]
      | inr caller =>
          have waits : calls.Waits caller first := traced.sound.target_client handled
          obtain ⟨frame, running, _⟩ := frame_of_target waits
          obtain ⟨outer, nested⟩ := traced.sound.exists_client running
          obtain ⟨distinct, reaches⟩ := ih nested tail.symm
          constructor
          · apply List.nodup_cons.mpr
            refine ⟨?_, distinct⟩
            intro inside
            exact traced.sound.acyclic first (TransGen.tail' (reaches first inside) waits)
          · intro member inside
            rcases List.mem_cons.mp inside with rfl | inside
            · exact .refl
            · exact (reaches member inside).tail waits

/-- Calls with old clients and old callers only keep their trails. -/
theorem Traced.keep {calls next : Calls T P} {callers : Finset (Caller T P)} {trail : P → List P}
    (traced : Traced calls callers trail) (sound : Sound next)
    (kept : ∀ server client, next.client server = some client → calls.client server = some client)
    (old : ∀ caller frame, next.frames caller = some frame → (calls.frames caller).isSome) :
    Traced next callers trail where
  sound := sound
  follows server client handled := traced.follows server client (kept server client handled)
  servers := traced.servers
  listed caller frame running := by
    obtain ⟨before, held⟩ := Option.isSome_iff_exists.mp (old caller frame running)
    exact traced.listed caller before held

/-- The cost of a call covers the calls of its server, which are one level deeper. -/
def cost (width : ℕ) : ℕ → ℕ
  | 0 => 4
  | depth + 1 => 4 + width * cost width depth

theorem four_le_cost (width depth : ℕ) : 4 ≤ cost width depth := by
  cases depth with
  | zero => exact Nat.le_refl 4
  | succ depth => exact Nat.le_add_right 4 _

/-- A frame has some work besides its pending calls. -/
def phaseWork : Phase P → ℕ
  | .ready => 1
  | .waiting _ => 2
  | .answered => 2

/-- A new value at one point changes a sum by the difference of the weights. -/
theorem sum_update {ι V : Type} [DecidableEq ι] (weight : ι → V → ℕ) (values : ι → V)
    {points : Finset ι} {point : ι} (member : point ∈ points) (value : V) :
    ∑ index ∈ points, weight index (Function.update values point value index) +
      weight point (values point) =
      ∑ index ∈ points, weight index (values index) + weight point value := by
  rw [← Finset.add_sum_erase _ _ member, Function.update_self,
    ← Finset.add_sum_erase _ (fun index => weight index (values index)) member]
  have rest : ∑ index ∈ points.erase point,
      weight index (Function.update values point value index) =
      ∑ index ∈ points.erase point, weight index (values index) := by
    apply Finset.sum_congr rfl
    intro index member
    rw [Function.update_of_ne (Finset.ne_of_mem_erase member)]
  omega

variable [Fintype P]

/-- This is the cost of a call at the level of its caller. -/
def callWork (trail : P → List P) (caller : Caller T P) : ℕ :=
  cost (Fintype.card P) (Fintype.card P - (trailOf trail caller).length)

def frameWork (trail : P → List P) (caller : Caller T P) : Option (Frame T P) → ℕ
  | none => 0
  | some frame => frame.pending.length * callWork trail caller + phaseWork frame.phase

def queueWork (trail : P → List P) (queue : List (Caller T P)) : ℕ :=
  (queue.map fun caller => callWork trail caller - 2).sum

/-- The work of the calls counts the pending and the queued calls. -/
def work (calls : Calls T P) (callers : Finset (Caller T P)) (trail : P → List P) : ℕ :=
  ∑ caller ∈ callers, frameWork trail caller (calls.frames caller) +
    ∑ server, queueWork trail (calls.queues server)

theorem four_le_callWork (trail : P → List P) (caller : Caller T P) : 4 ≤ callWork trail caller :=
  four_le_cost _ _

theorem queueWork_append (trail : P → List P) (first last : List (Caller T P)) :
    queueWork trail (first ++ last) = queueWork trail first + queueWork trail last := by
  rw [queueWork, List.map_append, List.sum_append]
  rfl

theorem queueWork_cons (trail : P → List P) (caller : Caller T P) (queue : List (Caller T P)) :
    queueWork trail (caller :: queue) = callWork trail caller - 2 + queueWork trail queue := by
  rw [queueWork, List.map_cons, List.sum_cons]
  rfl

/-- A server that continues a trail calls at a lower cost. -/
theorem callWork_eq {trail : P → List P} {server : P} {client : Caller T P}
    (continued : trail server = server :: trailOf trail client) (distinct : (trail server).Nodup) :
    callWork trail client = 4 + Fintype.card P * callWork (T := T) trail (.inr server) := by
  have bound := distinct.length_le_card
  have longer := congrArg List.length continued
  rw [List.length_cons] at longer
  have deeper : Fintype.card P - (trailOf trail client).length =
      Fintype.card P - (trail server).length + 1 := by
    omega
  rw [callWork, deeper]
  rfl

theorem work_mk (frames : Caller T P → Option (Frame T P)) (queues : P → List (Caller T P))
    (callers : Finset (Caller T P)) (trail : P → List P) :
    work ⟨frames, queues⟩ callers trail =
      ∑ caller ∈ callers, frameWork trail caller (frames caller) + ∑ server,
        queueWork trail (queues server) := rfl

/-- Only the trails of busy servers matter for the work. -/
theorem work_congr {calls : Calls T P} (sound : Sound calls) {callers : Finset (Caller T P)}
    {trail others : P → List P}
    (same : ∀ server frame, calls.frames (.inr server) = some frame →
      others server = trail server) :
    calls.work callers others = calls.work callers trail := by
  have running : ∀ caller frame, calls.frames caller = some frame →
      callWork others caller = callWork trail caller := by
    intro caller frame found
    cases caller with
    | inl task => rfl
    | inr server => rw [callWork, trailOf, same server frame found]; rfl
  have frames : ∀ caller, frameWork others caller (calls.frames caller) =
      frameWork trail caller (calls.frames caller) := by
    intro caller
    cases found : calls.frames caller with
    | none => rfl
    | some frame => rw [frameWork, frameWork, running caller frame found]
  have queues : ∀ server, queueWork others (calls.queues server) =
      queueWork trail (calls.queues server) := by
    intro server
    rw [queueWork, queueWork]
    congr 1
    apply List.map_congr_left
    intro caller queued
    have waits := (sound.asking server caller).mp (List.mem_append_left _ queued)
    obtain ⟨frame, found, _⟩ := frame_of_target waits
    rw [running caller frame found]
  rw [work, work, Finset.sum_congr rfl fun caller _ => frames caller,
    Finset.sum_congr rfl fun server _ => queues server]

variable [DecidableEq T] [DecidableEq P]

omit [Fintype P] in
/-- A changed frame of a running caller adds no caller. -/
theorem isSome_update {frames : Caller T P → Option (Frame T P)} {caller : Caller T P}
    {frame : Frame T P} (running : frames caller = some frame) {changed : Option (Frame T P)}
    (other : Caller T P) (value : Frame T P)
    (found : Function.update frames caller changed other = some value) : (frames other).isSome := by
  by_cases same : other = caller
  · rw [same, running]
    rfl
  · rw [Function.update_of_ne same] at found
    rw [found]
    rfl

omit [Fintype P] in
/-- An answer adds no caller. -/
theorem isSome_answer {frames : Caller T P → Option (Frame T P)} {client : Option (Caller T P)}
    (other : Caller T P) (value : Frame T P) (found : answer frames client other = some value) :
    (frames other).isSome := by
  cases client with
  | none =>
      rw [show frames other = some value from found]
      rfl
  | some client =>
      by_cases same : other = client
      · rw [same, answer, Function.update_self] at found
        rw [same, ← Option.isSome_map, found]
        rfl
      · rw [answer, Function.update_of_ne same] at found
        rw [found]
        rfl

omit [Fintype P] in
/-- The first step of a task keeps the trails and lists the task. -/
theorem Traced.begin {calls next : Calls T P} {callers : Finset (Caller T P)} {trail : P → List P}
    (traced : Traced calls callers trail) (begins : Begins calls next) :
    ∃ more, Traced next more trail := by
  have sound := traced.sound.begin begins
  cases begins with
  | @begin task pending idle =>
      have clients :
          (⟨Function.update calls.frames (.inl task) (some ⟨pending, .ready, none⟩), calls.queues⟩ :
          Calls T P).client = calls.client := by
        apply client_update_same
        rw [idle]
        rfl
      refine ⟨insert (.inl task) callers, sound, ?_, ?_, ?_⟩
      · rw [clients]
        exact traced.follows
      · intro server
        exact Finset.mem_insert_of_mem (traced.servers server)
      · intro caller frame running
        by_cases same : caller = .inl task
        · rw [same]
          exact Finset.mem_insert_self _ _
        · apply Finset.mem_insert_of_mem
          change Function.update calls.frames (.inl task) _ caller = some frame at running
          rw [Function.update_of_ne same] at running
          exact traced.listed caller frame running

omit [DecidableEq T] in
/-- A new queue changes the work of its server. -/
theorem sum_queues (trail : P → List P) (queues : P → List (Caller T P)) (server : P)
    (queue : List (Caller T P)) :
    ∑ other, queueWork trail (Function.update queues server queue other) +
      queueWork trail (queues server) =
      ∑ other, queueWork trail (queues other) + queueWork trail queue :=
  sum_update (fun _ => queueWork trail) queues (Finset.mem_univ server) queue

section

variable {calls : Calls T P} {callers : Finset (Caller T P)} {trail : P → List P}

/-- A call turns the work of a pending server into the work of a request. -/
theorem Traced.call (traced : Traced calls callers trail) {caller : Caller T P} {server : P}
    {pending : List P} {client : Option (Caller T P)}
    (running : calls.frames caller = some ⟨server :: pending, .ready, client⟩)
    (forward : ∀ origin, caller = .inr origin → ¬ ReflTransGen calls.Waits server origin) :
    Traced ⟨Function.update calls.frames caller (some ⟨pending, .waiting server, client⟩),
        Function.update calls.queues server (calls.queues server ++ [caller])⟩ callers trail ∧
      work ⟨Function.update calls.frames caller (some ⟨pending, .waiting server, client⟩),
        Function.update calls.queues server (calls.queues server ++ [caller])⟩ callers trail <
        calls.work callers trail := by
  constructor
  · apply traced.keep (traced.sound.handle (.call running forward))
    · intro other outer handled
      rw [client_update_running running] at handled
      · exact handled
      · rfl
    · exact isSome_update running
  · have frames := sum_update (frameWork trail) calls.frames (traced.listed caller _ running)
      (some ⟨pending, .waiting server, client⟩)
    have queues := sum_queues trail calls.queues server (calls.queues server ++ [caller])
    have enough := four_le_callWork trail caller
    have before : frameWork trail caller (calls.frames caller) =
        pending.length * callWork trail caller + callWork trail caller + 1 := by
      rw [running, frameWork, List.length_cons, Nat.succ_mul]
      rfl
    have after : frameWork trail caller (some ⟨pending, .waiting server, client⟩) =
        pending.length * callWork trail caller + 2 := rfl
    have single : queueWork trail [caller] = callWork trail caller - 2 :=
      queueWork_cons trail caller []
    rw [queueWork_append, single] at queues
    rw [work_mk, work]
    omega

/-- An idle server turns the work of a request into the work of its own, deeper calls. -/
theorem Traced.serve (traced : Traced calls callers trail) {server : P}
    {first last : List (Caller T P)} {client : Caller T P} {pending : List P}
    (idle : calls.frames (.inr server) = none)
    (queued : calls.queues server = first ++ client :: last) (distinct : pending.Nodup) :
    ∃ others,
        Traced ⟨Function.update calls.frames (.inr server) (some ⟨pending, .ready, some client⟩),
        Function.update calls.queues server (first ++ last)⟩ callers others ∧
      work ⟨Function.update calls.frames (.inr server) (some ⟨pending, .ready, some client⟩),
        Function.update calls.queues server (first ++ last)⟩ callers others <
          calls.work callers trail := by
  have waits : calls.target client = some server := by
    apply (traced.sound.asking server client).mp
    apply List.mem_append_left
    rw [queued]
    exact List.mem_append_right _ List.mem_cons_self
  obtain ⟨waiter, waiting, _⟩ := frame_of_target waits
  have clients := client_update_server calls.frames calls.queues
    (Function.update calls.queues server (first ++ last)) server
      (some ⟨pending, .ready, some client⟩)
  -- Only the trail of the idle server changes.
  obtain ⟨trails, own, busy⟩ : ∃ trails : P → List P,
      trails server = server :: trailOf trail client ∧
      ∀ other frame, calls.frames (.inr other) = some frame → trails other = trail other := by
    refine ⟨Function.update trail server (server :: trailOf trail client),
      Function.update_self _ _ _, ?_⟩
    intro other frame running
    apply Function.update_of_ne
    intro same
    rw [same, idle] at running
    cases running
  have outer : ∀ caller frame, calls.frames caller = some frame →
      trailOf trails caller = trailOf trail caller := by
    intro caller frame running
    cases caller with
    | inl task => rfl
    | inr other => exact busy other frame running
  have next :
      Traced ⟨Function.update calls.frames (.inr server) (some ⟨pending, .ready, some client⟩),
      Function.update calls.queues server (first ++ last)⟩ callers trails := by
    refine ⟨traced.sound.handle (.serve idle queued distinct), ?_, traced.servers, ?_⟩
    · intro other nested handled
      rw [clients] at handled
      by_cases same : other = server
      · subst same
        rw [Function.update_self] at handled
        cases handled
        rw [own, outer client waiter waiting]
      · rw [Function.update_of_ne same] at handled
        obtain ⟨frame, running, _⟩ := Option.bind_eq_some_iff.mp handled
        obtain ⟨held, nesting, _⟩ := frame_of_target (traced.sound.target_client handled)
        rw [busy other frame running, traced.follows other nested handled,
          outer nested held nesting]
    · intro caller frame running
      by_cases same : caller = .inr server
      · rw [same]
        exact traced.servers server
      · change Function.update calls.frames (.inr server) _ caller = some frame at running
        rw [Function.update_of_ne same] at running
        exact traced.listed caller frame running
  refine ⟨trails, next, ?_⟩
  rw [← work_congr traced.sound busy]
  have frames := sum_update (frameWork trails) calls.frames (traced.servers server)
    (some ⟨pending, .ready, some client⟩)
  have queues := sum_queues trails calls.queues server (first ++ last)
  have enough : callWork trails client = 4 + Fintype.card P *
      callWork (T := T) trails (.inr server) := by
    have handled :
        (⟨Function.update calls.frames (.inr server) (some ⟨pending, .ready, some client⟩),
        Function.update calls.queues server (first ++ last)⟩ : Calls T P).client server =
            some client := by
      rw [clients, Function.update_self]
      rfl
    rw [← outer client waiter waiting] at own
    exact callWork_eq own (next.trail_nodup handled).1
  have few : pending.length * callWork (T := T) trails (.inr server) ≤
      Fintype.card P * callWork (T := T) trails (.inr server) :=
        Nat.mul_le_mul_right _ distinct.length_le_card
  have before : frameWork trails (.inr server) (calls.frames (.inr server)) = 0 := by
    rw [idle]
    rfl
  have after : frameWork trails (.inr server) (some ⟨pending, .ready, some client⟩) =
      pending.length * callWork (T := T) trails (.inr server) + 1 := rfl
  rw [queued, queueWork_append, queueWork_append, queueWork_cons] at queues
  rw [work_mk, work]
  omega

/-- An answered client has the same work as before. -/
theorem Traced.sum_answer (traced : Traced calls callers trail) {caller : Caller T P}
    {client : Option (Caller T P)} (running : calls.frames caller = some ⟨[], .ready, client⟩) :
    ∑ other ∈ callers, frameWork trail other
      (answer (Function.update calls.frames caller none) client other) =
      ∑ other ∈ callers, frameWork trail other
        (Function.update calls.frames caller none other) := by
  cases client with
  | none => rfl
  | some client =>
      cases caller with
      | inl task => cases traced.sound.owned _ _ running
      | inr server =>
          have handled : calls.client server = some client := by
            rw [Calls.client, running]
            rfl
          obtain ⟨frame, found, waiting⟩ := frame_of_target (traced.sound.target_client handled)
          have other : client ≠ .inr server := by
            intro same
            rw [same, running] at found
            cases found
            cases waiting
          have kept : Function.update calls.frames (.inr server) none client = some frame := by
            rw [Function.update_of_ne other, found]
          have changed :=
            sum_update (frameWork trail) (Function.update calls.frames (.inr server) none)
            (traced.listed client frame found) (some { frame with phase := .answered })
          have before : frameWork trail client (some frame) =
              frame.pending.length * callWork trail client + 2 := by
            rw [frameWork, waiting]
            rfl
          have after : frameWork trail client (some { frame with phase := .answered }) =
              frame.pending.length * callWork trail client + 2 := rfl
          rw [answer, kept, Option.map_some]
          rw [kept] at changed
          omega

/-- A finished frame loses its own work. -/
theorem Traced.finish (traced : Traced calls callers trail) {caller : Caller T P}
    {client : Option (Caller T P)} (running : calls.frames caller = some ⟨[], .ready, client⟩) :
    Traced ⟨answer (Function.update calls.frames caller none) client, calls.queues⟩ callers trail ∧
      work ⟨answer (Function.update calls.frames caller none) client, calls.queues⟩ callers trail <
        calls.work callers trail := by
  constructor
  · apply traced.keep (traced.sound.handle (.finish running))
    · intro other outer handled
      cases client with
      | none =>
          change (⟨Function.update calls.frames caller none, calls.queues⟩ : Calls T P).client
            other = _ at handled
          rw [@client_update_same _ _ _ _ calls.frames calls.queues] at handled
          · exact handled
          · rw [running]
            rfl
      | some client =>
          cases caller with
          | inl task => cases traced.sound.owned _ _ running
          | inr server =>
              rw [client_answer] at handled
              by_cases same : other = server
              · rw [same, Function.update_self] at handled
                cases handled
              · rw [Function.update_of_ne same] at handled
                exact handled
    · intro other frame found
      obtain ⟨value, held⟩ := Option.isSome_iff_exists.mp (isSome_answer other frame found)
      exact isSome_update running other value held
  · have frames := sum_update (frameWork trail) calls.frames (traced.listed caller _ running) none
    have before : frameWork trail caller (calls.frames caller) = 1 := by
      rw [running, frameWork, List.length_nil, Nat.zero_mul]
      rfl
    have after : frameWork trail caller none = 0 := rfl
    have answered := traced.sum_answer running
    rw [work_mk, work]
    omega

/-- A continued frame has less work than an answered one. -/
theorem Traced.resume (traced : Traced calls callers trail) {caller : Caller T P}
    {frame : Frame T P} (running : calls.frames caller = some frame)
    (answered : frame.phase = .answered) :
    Traced ⟨Function.update calls.frames caller (some { frame with phase := .ready }), calls.queues⟩
      callers trail ∧
      work ⟨Function.update calls.frames caller (some { frame with phase := .ready }), calls.queues⟩
        callers trail <
        calls.work callers trail := by
  constructor
  · apply traced.keep (traced.sound.handle (.resume running answered))
    · intro other outer handled
      rw [client_update_running running] at handled
      · exact handled
      · rfl
    · exact isSome_update running
  · have frames := sum_update (frameWork trail) calls.frames (traced.listed caller frame running)
      (some { frame with phase := .ready })
    have before : frameWork trail caller (calls.frames caller) =
        frame.pending.length * callWork trail caller + 2 := by
      rw [running, frameWork, answered]
      rfl
    have after : frameWork trail caller (some { frame with phase := .ready }) =
        frame.pending.length * callWork trail caller + 1 := rfl
    rw [work_mk, work]
    omega

/-- Each handling step lowers the work. -/
theorem Traced.handle {next : Calls T P} (traced : Traced calls callers trail)
    (handles : Handles calls next) :
    ∃ others, Traced next callers others ∧ next.work callers others < calls.work callers trail := by
  cases handles with
  | call running forward => exact ⟨trail, traced.call running forward⟩
  | serve idle queued distinct => exact traced.serve idle queued distinct
  | finish running => exact ⟨trail, traced.finish running⟩
  | resume running answered => exact ⟨trail, traced.resume running answered⟩

end

end Foundation.Calls
