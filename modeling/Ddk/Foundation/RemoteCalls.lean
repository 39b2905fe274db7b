/-
This file gives nested calls between servers. A server handles one call at a time and waits
for the calls that it makes.
-/

import Ddk.Foundation.Acyclic

namespace Foundation

open Relation

/-- Tasks and busy servers make calls. -/
abbrev Caller (T P : Type) := T ⊕ P

inductive Phase (P : Type) where
  | ready
  | waiting (server : P)
  | answered
  deriving DecidableEq

def Phase.server {P : Type} : Phase P → Option P
  | .ready => none
  | .waiting server => some server
  | .answered => none

/-- A frame calls its pending servers one after the other and then answers its client. -/
structure Frame (T P : Type) where
  pending : List P
  phase : Phase P
  client : Option (Caller T P)

/-- Each server queues the callers that it has not served. -/
structure Calls (T P : Type) where
  frames : Caller T P → Option (Frame T P)
  queues : P → List (Caller T P)

namespace Calls

variable {T P : Type}

/-- This is the server for which a caller waits. -/
def target (calls : Calls T P) (caller : Caller T P) : Option P :=
  (calls.frames caller).bind (·.phase.server)

/-- This is the caller whose call a server handles. -/
def client (calls : Calls T P) (server : P) : Option (Caller T P) :=
  (calls.frames (.inr server)).bind (·.client)

/-- These callers wait for a server, and the last of them can be the one that it handles. -/
def asked (calls : Calls T P) (server : P) : List (Caller T P) :=
  calls.queues server ++ (calls.client server).toList

/-- A busy server waits for another server. -/
def Waits (calls : Calls T P) (first second : P) : Prop := calls.target (.inr first) = some second

/-- Some frame does not wait, or some idle server has a queue. -/
def Active (calls : Calls T P) : Prop :=
  (∃ caller frame, calls.frames caller = some frame ∧ frame.phase.server = none) ∨
    ∃ server, calls.frames (.inr server) = none ∧ calls.queues server ≠ []

/-- Each waiting caller is asked for once by its server, and no servers wait in a cycle. -/
structure Sound (calls : Calls T P) : Prop where
  asking : ∀ server caller, caller ∈ calls.asked server ↔ calls.target caller = some server
  distinct : ∀ server, (calls.asked server).Nodup
  owned : ∀ caller frame, calls.frames caller = some frame → frame.client.isSome = caller.isRight
  acyclic : Acyclic calls.Waits

/-- A handled client waits for its server. -/
theorem Sound.target_client {calls : Calls T P} (sound : Sound calls) {server : P}
    {client : Caller T P}
    (handled : calls.client server = some client) : calls.target client = some server := by
  apply (sound.asking server client).mp
  apply List.mem_append_right
  rw [handled]
  exact List.mem_singleton_self client

/-- A target belongs to a frame. -/
theorem frame_of_target {calls : Calls T P} {caller : Caller T P} {server : P}
    (waits : calls.target caller = some server) :
    ∃ frame, calls.frames caller = some frame ∧ frame.phase = .waiting server := by
  obtain ⟨frame, found, waiting⟩ := Option.bind_eq_some_iff.mp waits
  refine ⟨frame, found, ?_⟩
  cases phase : frame.phase with
  | ready => rw [phase] at waiting; cases waiting
  | answered => rw [phase] at waiting; cases waiting
  | waiting other =>
      rw [phase] at waiting
      cases waiting
      rfl

/-- Sound calls are active as long as some frame remains. -/
theorem Sound.active [Finite P] {calls : Calls T P} (sound : Sound calls) {caller : Caller T P}
    {frame : Frame T P}
    (running : calls.frames caller = some frame) : calls.Active := by
  have asked_active : ∀ server waiter, calls.target waiter = some server →
      (∀ next, ¬ calls.Waits server next) → calls.Active := by
    intro server waiter waits final
    cases found : calls.frames (.inr server) with
    | some handler =>
        refine .inl ⟨.inr server, handler, found, ?_⟩
        apply Option.eq_none_iff_forall_ne_some.mpr
        intro next waiting
        exact final next (Option.bind_eq_some_iff.mpr ⟨handler, found, waiting⟩)
    | none =>
        refine .inr ⟨server, found, ?_⟩
        have listed := (sound.asking server waiter).mpr waits
        have unserved : calls.client server = none := by
          rw [Calls.client, found]
          rfl
        rw [asked, unserved, Option.toList_none, List.append_nil] at listed
        exact List.ne_nil_of_mem listed
  cases waiting : frame.phase.server with
  | none => exact .inl ⟨caller, frame, running, waiting⟩
  | some server =>
      have waits : calls.target caller = some server :=
        Option.bind_eq_some_iff.mpr ⟨frame, running, waiting⟩
      obtain ⟨last, path, final⟩ := sound.acyclic.exists_last server
      rcases path.cases_tail with rfl | ⟨before, _, edge⟩
      · exact asked_active last caller waits final
      · exact asked_active last (.inr before) edge final

/-- The empty calls are sound. -/
theorem Sound.empty : Sound (⟨fun _ => none, fun _ => []⟩ : Calls T P) where
  asking _ _ := iff_of_false List.not_mem_nil (fun waits => by cases waits)
  distinct _ := List.nodup_nil
  owned _ _ none := by cases none
  acyclic _ cycle := by
    obtain ⟨_, edge, _⟩ := TransGen.head'_iff.mp cycle
    cases edge

/-- Calls with the same targets and the same asked callers stay sound. -/
theorem Sound.transfer {calls next : Calls T P} (sound : Sound calls)
    (targets : next.target = calls.target)
    (asked : ∀ server, (next.asked server).Perm (calls.asked server))
    (owned : ∀ caller frame, next.frames caller = some frame →
      frame.client.isSome = caller.isRight) : Sound next where
  asking server caller := by
    rw [(asked server).mem_iff, targets]
    exact sound.asking server caller
  distinct server := (asked server).nodup_iff.mpr (sound.distinct server)
  owned := owned
  acyclic := sound.acyclic.mono fun first last edge => by
    rw [Waits, targets] at edge
    exact edge

variable [DecidableEq T] [DecidableEq P]

/-- An answered client continues later. -/
def answer (frames : Caller T P → Option (Frame T P)) : Option (Caller T P) → Caller T P →
    Option (Frame T P)
  | none => frames
  | some client =>
      Function.update frames client ((frames client).map fun frame =>
        { frame with phase := .answered })

/-- An idle task begins to call some servers. -/
inductive Begins : Calls T P → Calls T P → Prop where
  | begin {calls : Calls T P} {task : T} {pending : List P}
      (idle : calls.frames (.inl task) = none) :
      Begins calls ⟨Function.update calls.frames (.inl task) (some ⟨pending, .ready, none⟩),
        calls.queues⟩

/-- A step of the calls does not call a server that leads back to the caller. -/
inductive Handles : Calls T P → Calls T P → Prop where
  | call {calls : Calls T P} {caller : Caller T P} {server : P} {pending : List P}
      {client : Option (Caller T P)}
      (running : calls.frames caller = some ⟨server :: pending, .ready, client⟩)
      (forward : ∀ origin, caller = .inr origin → ¬ ReflTransGen calls.Waits server origin) :
      Handles calls ⟨Function.update calls.frames caller (some ⟨pending, .waiting server, client⟩),
        Function.update calls.queues server (calls.queues server ++ [caller])⟩
  | serve {calls : Calls T P} {server : P} {first last : List (Caller T P)} {client : Caller T P}
      {pending : List P} (idle : calls.frames (.inr server) = none)
      (queued : calls.queues server = first ++ client :: last) (distinct : pending.Nodup) :
      Handles calls ⟨Function.update calls.frames (.inr server)
        (some ⟨pending, .ready, some client⟩),
        Function.update calls.queues server (first ++ last)⟩
  | finish {calls : Calls T P} {caller : Caller T P} {client : Option (Caller T P)}
      (running : calls.frames caller = some ⟨[], .ready, client⟩) :
      Handles calls ⟨answer (Function.update calls.frames caller none) client, calls.queues⟩
  | resume {calls : Calls T P} {caller : Caller T P} {frame : Frame T P}
      (running : calls.frames caller = some frame) (answered : frame.phase = .answered) :
      Handles calls ⟨Function.update calls.frames caller (some { frame with phase := .ready }),
        calls.queues⟩

/-- A new frame changes the target of its caller. -/
theorem target_update (frames : Caller T P → Option (Frame T P))
    (queues others : P → List (Caller T P)) (caller : Caller T P) (frame : Option (Frame T P)) :
    (⟨Function.update frames caller frame, others⟩ : Calls T P).target =
      Function.update (⟨frames, queues⟩ : Calls T P).target caller
        (frame.bind (·.phase.server)) := by
  funext other
  exact Function.apply_update (fun _ frame => frame.bind (·.phase.server)) frames caller frame other

/-- A new frame with the same client keeps all clients. -/
theorem client_update_same {frames : Caller T P → Option (Frame T P)}
    {queues others : P → List (Caller T P)} {caller : Caller T P} {frame : Option (Frame T P)}
    (same : frame.bind (·.client) = (frames caller).bind (·.client)) :
    (⟨Function.update frames caller frame, others⟩ : Calls T P).client =
      (⟨frames, queues⟩ : Calls T P).client := by
  funext server
  have moved := Function.apply_update (fun _ frame => frame.bind Frame.client) frames caller frame
    (.inr server)
  rw [same, Function.update_eq_self] at moved
  exact moved

/-- A new frame of a server changes its client. -/
theorem client_update_server (frames : Caller T P → Option (Frame T P))
    (queues others : P → List (Caller T P)) (server : P) (frame : Option (Frame T P)) :
    (⟨Function.update frames (.inr server) frame, others⟩ : Calls T P).client =
      Function.update (⟨frames, queues⟩ : Calls T P).client server (frame.bind (·.client)) := by
  funext other
  have moved :=
    congrFun (Function.update_comp_eq_of_injective frames Sum.inr_injective server frame) other
  change (Function.update frames (.inr server) frame (.inr other)).bind _ = _
  rw [← @Function.comp_apply _ _ _ (Function.update frames (.inr server) frame) Sum.inr, moved]
  exact Function.apply_update (fun _ frame => frame.bind Frame.client)
    (frames ∘ Sum.inr) server frame other

/-- A frame with a right client keeps the owners. -/
theorem owned_update {frames : Caller T P → Option (Frame T P)}
    (owned : ∀ caller frame, frames caller = some frame → frame.client.isSome = caller.isRight)
    {caller : Caller T P} {frame : Option (Frame T P)}
    (right : ∀ value, frame = some value → value.client.isSome = caller.isRight) :
    ∀ other value, Function.update frames caller frame other = some value →
      value.client.isSome = other.isRight := by
  intro other value found
  by_cases same : other = caller
  · subst same
    rw [Function.update_self] at found
    exact right value found
  · rw [Function.update_of_ne same] at found
    exact owned other value found

/-- A new frame that does not wait and keeps the clients leaves the calls sound. -/
theorem Sound.update {calls : Calls T P} (sound : Sound calls) {caller : Caller T P}
    {frame : Frame T P} (before : calls.target caller = none) (after : frame.phase.server = none)
    (client : frame.client = (calls.frames caller).bind (·.client))
    (right : frame.client.isSome = caller.isRight) :
    Sound ⟨Function.update calls.frames caller (some frame), calls.queues⟩ := by
  have clients := @client_update_same _ _ _ _ calls.frames calls.queues calls.queues caller
    (some frame) client
  have targets := target_update calls.frames calls.queues calls.queues caller (some frame)
  rw [Option.bind_some, after, ← before, Function.update_eq_self] at targets
  apply sound.transfer targets
  · intro server
    rw [asked, clients]
    exact List.Perm.refl _
  · apply owned_update sound.owned
    intro value same
    cases same
    exact right

/-- A caller may begin to wait for a server that does not lead back to it. -/
theorem Sound.wait {calls next : Calls T P} (sound : Sound calls) {caller : Caller T P} {server : P}
    (free : calls.target caller = none)
    (targets : next.target = Function.update calls.target caller (some server))
    (asks : (next.asked server).Perm (caller :: calls.asked server))
    (others : ∀ other, other ≠ server → next.asked other = calls.asked other)
    (forward : ∀ origin, caller = .inr origin → ¬ ReflTransGen calls.Waits server origin)
    (owned : ∀ caller frame, next.frames caller = some frame →
      frame.client.isSome = caller.isRight) : Sound next := by
  have unasked : ∀ other, caller ∉ calls.asked other := by
    intro other member
    have waits := (sound.asking other caller).mp member
    rw [free] at waits
    cases waits
  constructor
  · intro other waiter
    rw [targets]
    by_cases own : waiter = caller
    · subst own
      rw [Function.update_self]
      by_cases same : other = server
      · subst same
        exact iff_of_true (asks.mem_iff.mpr List.mem_cons_self) rfl
      · rw [others other same]
        exact iff_of_false (unasked other) fun equal => same (Option.some.inj equal).symm
    · rw [Function.update_of_ne own, ← sound.asking]
      by_cases same : other = server
      · subst same
        rw [asks.mem_iff, List.mem_cons, or_iff_right own]
      · rw [others other same]
  · intro other
    by_cases same : other = server
    · subst same
      exact asks.nodup_iff.mpr (List.nodup_cons.mpr ⟨unasked other, sound.distinct other⟩)
    · rw [others other same]
      exact sound.distinct other
  · exact owned
  · cases caller with
    | inl task =>
        apply sound.acyclic.mono
        intro first last edge
        rw [Waits, targets, Function.update_of_ne Sum.inr_ne_inl] at edge
        exact edge
    | inr origin =>
        apply @Acyclic.insert _ _ _ origin server sound.acyclic
        · intro first last edge
          rw [Waits, targets] at edge
          by_cases same : first = origin
          · subst same
            rw [Function.update_self] at edge
            exact .inr ⟨rfl, (Option.some.inj edge).symm⟩
          · rw [Function.update_of_ne fun equal => same (Sum.inr_injective equal)] at edge
            exact .inl edge
        · exact forward origin rfl

/-- A waiting caller that its server answers leaves the calls sound. -/
theorem Sound.release {calls next : Calls T P} (sound : Sound calls) {caller : Caller T P}
    {server : P} (waits : calls.target caller = some server)
    (targets : next.target = Function.update calls.target caller none)
    (asks : (calls.asked server).Perm (caller :: next.asked server))
    (others : ∀ other, other ≠ server → next.asked other = calls.asked other)
    (owned : ∀ caller frame, next.frames caller = some frame →
      frame.client.isSome = caller.isRight) : Sound next := by
  have once := List.nodup_cons.mp (asks.nodup_iff.mp (sound.distinct server))
  constructor
  · intro other waiter
    rw [targets]
    by_cases own : waiter = caller
    · subst own
      rw [Function.update_self]
      apply iff_of_false _ (fun equal => by cases equal)
      by_cases same : other = server
      · subst same
        exact once.1
      · rw [others other same, sound.asking, waits]
        exact fun equal => same (Option.some.inj equal).symm
    · rw [Function.update_of_ne own, ← sound.asking]
      by_cases same : other = server
      · subst same
        rw [asks.mem_iff, List.mem_cons, or_iff_right own]
      · rw [others other same]
  · intro other
    by_cases same : other = server
    · subst same
      exact once.2
    · rw [others other same]
      exact sound.distinct other
  · exact owned
  · apply sound.acyclic.mono
    intro first last edge
    rw [Waits, targets] at edge
    by_cases same : Sum.inr first = caller
    · rw [same, Function.update_self] at edge
      cases edge
    · rw [Function.update_of_ne same] at edge
      exact edge

/-- The step of an idle task leaves the calls sound. -/
theorem Sound.begin {calls next : Calls T P} (sound : Sound calls)
    (begins : Begins calls next) : Sound next := by
  cases begins with
  | begin idle =>
      apply sound.update
      · rw [target, idle]
        rfl
      · rfl
      · rw [idle]
        rfl
      · rfl

/-- An answer releases its client and removes the frame of its server. -/
theorem target_answer {calls : Calls T P} {server : P} {frame : Frame T P} {client : Caller T P}
    (running : calls.frames (.inr server) = some frame) (ready : frame.phase.server = none) :
    (⟨answer (Function.update calls.frames (.inr server) none) (some client),
      calls.queues⟩ : Calls T P).target =
      Function.update calls.target client none := by
  have removed :
      (⟨Function.update calls.frames (.inr server) none, calls.queues⟩ : Calls T P).target =
      calls.target := by
    rw [target_update calls.frames calls.queues, Function.update_eq_self_iff]
    change _ = (calls.frames (.inr server)).bind _
    rw [running, Option.bind_some, ready]
    rfl
  rw [answer, target_update _ calls.queues, removed]
  congr 1
  cases (Function.update calls.frames (.inr server) none) client <;> rfl

/-- An answer keeps the clients of all other servers. -/
theorem client_answer {calls : Calls T P} {server : P} {client : Caller T P} :
    (⟨answer (Function.update calls.frames (.inr server) none) (some client),
      calls.queues⟩ : Calls T P).client =
      Function.update calls.client server none := by
  rw [answer, @client_update_same _ _ _ _ (Function.update calls.frames (.inr server) none)
    calls.queues]
  · exact client_update_server calls.frames calls.queues calls.queues server none
  · cases (Function.update calls.frames (.inr server) none) client <;> rfl

section

variable {calls : Calls T P}

/-- A frame with the client of an earlier frame keeps all clients. -/
theorem client_update_running {caller : Caller T P} {frame changed : Frame T P}
    {queues : P → List (Caller T P)} (running : calls.frames caller = some frame)
    (same : changed.client = frame.client) :
    (⟨Function.update calls.frames caller (some changed), queues⟩ : Calls T P).client =
      calls.client := by
  apply client_update_same
  rw [running]
  exact same

/-- A call of the next server leaves the calls sound. -/
theorem Sound.call (sound : Sound calls) {caller : Caller T P} {server : P} {pending : List P}
    {client : Option (Caller T P)}
    (running : calls.frames caller = some ⟨server :: pending, .ready, client⟩)
    (forward : ∀ origin, caller = .inr origin → ¬ ReflTransGen calls.Waits server origin) :
    Sound ⟨Function.update calls.frames caller (some ⟨pending, .waiting server, client⟩),
      Function.update calls.queues server (calls.queues server ++ [caller])⟩ := by
  have owner := sound.owned caller _ running
  have free : calls.target caller = none := by
    rw [target, running]
    rfl
  have clients : (⟨Function.update calls.frames caller (some ⟨pending, .waiting server, client⟩),
      Function.update calls.queues server (calls.queues server ++ [caller])⟩ : Calls T P).client =
          calls.client :=
    client_update_running running rfl
  apply sound.wait free (target_update calls.frames calls.queues _ caller _)
  · rw [asked, clients, asked]
    change (Function.update calls.queues server (calls.queues server ++ [caller]) server ++ _).Perm
      _
    rw [Function.update_self, List.append_assoc]
    exact List.perm_middle
  · intro other different
    rw [asked, clients, asked]
    change Function.update calls.queues server (calls.queues server ++ [caller]) other ++ _ = _
    rw [Function.update_of_ne different]
  · exact forward
  · apply owned_update sound.owned
    intro value same
    cases same
    exact owner

/-- A served request moves from the queue to its server. -/
theorem Sound.serve (sound : Sound calls) {server : P} {first last : List (Caller T P)}
    {client : Caller T P} {pending : List P} (idle : calls.frames (.inr server) = none)
    (queued : calls.queues server = first ++ client :: last) :
    Sound ⟨Function.update calls.frames (.inr server) (some ⟨pending, .ready, some client⟩),
      Function.update calls.queues server (first ++ last)⟩ := by
  have unserved : calls.client server = none := by
    rw [Calls.client, idle]
    rfl
  have clients := client_update_server calls.frames calls.queues
    (Function.update calls.queues server (first ++ last)) server
      (some ⟨pending, .ready, some client⟩)
  apply sound.transfer
  · rw [target_update calls.frames calls.queues, Function.update_eq_self_iff]
    change _ = (calls.frames (.inr server)).bind _
    rw [idle]
    rfl
  · intro other
    rw [asked, clients, asked]
    change (Function.update calls.queues server (first ++ last) other ++ _).Perm _
    by_cases same : other = server
    · subst same
      rw [Function.update_self, Function.update_self, unserved, queued, List.append_assoc,
        List.append_assoc]
      apply List.Perm.append_left
      rw [Option.toList_none, List.append_nil]
      exact List.perm_append_singleton client last
    · rw [Function.update_of_ne same, Function.update_of_ne same]
  · apply owned_update sound.owned
    intro value same
    cases same
    rfl

/-- A finished task leaves the calls sound. -/
theorem Sound.finish_task (sound : Sound calls) {task : T}
    (running : calls.frames (.inl task) = some ⟨[], .ready, none⟩) :
    Sound ⟨Function.update calls.frames (.inl task) none, calls.queues⟩ := by
  apply sound.transfer
  · rw [target_update calls.frames calls.queues, Function.update_eq_self_iff]
    change _ = (calls.frames (.inl task)).bind _
    rw [running]
    rfl
  · intro server
    have clients :
        (⟨Function.update calls.frames (.inl task) none, calls.queues⟩ : Calls T P).client =
        calls.client := by
      apply client_update_same
      rw [running]
      rfl
    rw [asked, asked, clients]
  · apply owned_update sound.owned
    intro value none
    cases none

/-- A finished server releases its client. -/
theorem Sound.finish_server (sound : Sound calls) {server : P} {client : Caller T P}
    (running : calls.frames (.inr server) = some ⟨[], .ready, some client⟩) :
    Sound ⟨answer (Function.update calls.frames (.inr server) none) (some client),
      calls.queues⟩ := by
  have handled : calls.client server = some client := by
    rw [Calls.client, running]
    rfl
  have waits := sound.target_client handled
  have other : client ≠ .inr server := by
    intro same
    rw [same, target, running] at waits
    cases waits
  apply sound.release waits (target_answer running rfl)
  · rw [asked, asked, client_answer, handled, Function.update_self]
    rw [Option.toList_none, List.append_nil]
    exact List.perm_append_singleton client _
  · intro next different
    rw [asked, asked, client_answer, Function.update_of_ne different]
  · apply owned_update
    · apply owned_update sound.owned
      intro value none
      cases none
    · intro value found
      rw [Function.update_of_ne other] at found
      obtain ⟨frame, held, rfl⟩ := Option.map_eq_some_iff.mp found
      exact sound.owned client frame held

/-- Each handling step leaves the calls sound. -/
theorem Sound.handle {next : Calls T P} (sound : Sound calls)
    (handles : Handles calls next) : Sound next := by
  cases handles with
  | call running forward => exact sound.call running forward
  | serve idle queued distinct => exact sound.serve idle queued
  | @finish caller client running =>
      have owner := sound.owned caller _ running
      cases caller with
      | inl task =>
          cases client with
          | none => exact sound.finish_task running
          | some client => cases owner
      | inr server =>
          cases client with
          | none => cases owner
          | some client => exact sound.finish_server running
  | @resume caller frame running answered =>
      apply sound.update
      · rw [target, running, Option.bind_some, answered]
        rfl
      · rfl
      · rw [running]
        rfl
      · exact sound.owned caller frame running

end

end Calls

end Foundation
