import Ddk.Proof.Net.Replication

namespace Ddk

open Foundation

section

variable [Bitcoin] [Blake3] {A C : Type} [Bincode C]

/-- The hashes of the blocks in two archives have no collision, and no header hash is zero. -/
structure Archive.Apart (first second : Archive A C) : Prop where
  headers : ∀ {height other left right}, first.getHeader height = some left →
    second.getHeader other = some right →
    left.hash (C := C) = right.hash (C := C) → left = right
  contents : ∀ {height other left right}, first.getBody height = some left →
    second.getBody other = some right →
    left.computeMerkleRoot = right.computeMerkleRoot → left.coinbase = right.coinbase ∧
      left.transactions = right.transactions
  nonzero : ∀ {height header}, first.getHeader height = some header ∨
    second.getHeader height = some header →
    header.hash (C := C) ≠ ⟨0⟩

namespace Archive

/-- The hash of a block covers everything but its authorizations. -/
def covered (block : Header × Body A C) : Header × List (Output C) × List (Transaction C) :=
  (block.1, block.2.coinbase, block.2.transactions)

omit [Blake3] [Bincode C] in
theorem mem_headers {archive : Archive A C} {height : UInt32} {header : Header}
    (found : archive.getHeader height = some header) :
    (toBeBytes height, header) ∈ archive.headers.toList :=
  Database.mem_entries_iff.mpr found

omit [Blake3] [Bincode C] in
theorem mem_bodies {archive : Archive A C} {height : UInt32} {body : Body A C}
    (found : archive.getBody height = some body) :
    (toBeBytes height, body) ∈ archive.bodies.toList :=
  Database.mem_entries_iff.mpr found

/-- Two archives are apart when their tables are. -/
theorem apart_of_tables {first second : Archive A C}
    (headers : ∀ left ∈ first.headers.toList, ∀ right ∈ second.headers.toList,
      left.2.hash (C := C) = right.2.hash (C := C) → left.2 = right.2)
    (contents : ∀ left ∈ first.bodies.toList, ∀ right ∈ second.bodies.toList,
      left.2.computeMerkleRoot = right.2.computeMerkleRoot →
        left.2.coinbase = right.2.coinbase ∧ left.2.transactions = right.2.transactions)
    (nonzero : ∀ entry ∈ first.headers.toList ++ second.headers.toList,
      entry.2.hash (C := C) ≠ ⟨0⟩) :
    first.Apart second where
  headers stored found := headers _ (mem_headers stored) _ (mem_headers found)
  contents stored found := contents _ (mem_bodies stored) _ (mem_bodies found)
  nonzero found := by
    rcases found with found | found
    · exact nonzero _ (List.mem_append_left _ (mem_headers found))
    · exact nonzero _ (List.mem_append_right _ (mem_headers found))

variable {first second : Archive A C} {left right : List (Header × Body A C)}

/-- Each held block stands at some height. -/
theorem Holds.at (holds : first.Holds left) {block : Header × Body A C} (member : block ∈ left) :
    ∃ height, first.getHeader height = some block.1 ∧ first.getBody height = some block.2 := by
  obtain ⟨index, found⟩ := List.mem_iff_getElem?.mp member
  obtain ⟨height, number⟩ := holds.reached (List.getElem?_eq_some_iff.mp found).1
  refine ⟨height, holds.found (by omega) ?_⟩
  rw [number, Nat.add_sub_cancel, found]

/-- Two lists of blocks with one tip have the same headers. -/
theorem Apart.same_headers (apart : first.Apart second) (leftHolds : first.Holds left)
    (rightHolds : second.Holds right) {part : List (Header × Body A C)} (short : part <+: right)
    (same : tip (fun block : Header × Body A C => block.1.hash (C := C)) ⟨0⟩ left =
      tip (fun block => block.1.hash (C := C)) ⟨0⟩ part) : left.map Prod.fst =
    part.map Prod.fst := by
  have equal : ∀ block ∈ left, ∀ other ∈ part, block.1.hash (C := C) = other.1.hash (C := C) →
      block.1 = other.1 := by
    intro block member other listed collided
    obtain ⟨_, found, _⟩ := leftHolds.at member
    obtain ⟨_, stored, _⟩ := rightHolds.at (short.subset listed)
    exact apart.headers found stored collided
  have nonzero : ∀ block ∈ left ++ part, block.1.hash (C := C) ≠ ⟨0⟩ := by
    intro block member
    rcases List.mem_append.mp member with member | member
    · obtain ⟨_, found, _⟩ := leftHolds.at member
      exact apart.nonzero (.inl found)
    · obtain ⟨_, found, _⟩ := rightHolds.at (short.subset member)
      exact apart.nonzero (.inr found)
  have names := leftHolds.linked.eq_of_tip (rightHolds.linked.of_prefix short) same
    (fun block member other listed collided => congrArg Header.prevSideHash
      (equal block member other listed collided))
    nonzero
  exact map_eq_map_of_imp names equal

/-- Two lists of blocks with one tip are the same up to the authorizations. -/
theorem Apart.same_contents (apart : first.Apart second) (leftHolds : first.Holds left)
    (rightHolds : second.Holds right)
    (same : first.getBestHash = second.getBestHash) : left.map covered = right.map covered := by
  have headers := apart.same_headers leftHolds rightHolds List.prefix_rfl
    (leftHolds.best.symm.trans (same.trans rightHolds.best))
  refine map_eq_map_of_imp headers fun block member other listed equal => ?_
  obtain ⟨_, _, found⟩ := leftHolds.at member
  obtain ⟨_, _, stored⟩ := rightHolds.at listed
  have roots : block.2.computeMerkleRoot = other.2.computeMerkleRoot := by
    rw [← leftHolds.rooted block member, ← rightHolds.rooted other listed, equal]
  obtain ⟨coinbase, transactions⟩ := apart.contents found stored roots
  rw [covered, covered, equal, coinbase, transactions]

/-- Archives with one best hash have the same blocks up to their authorizations. -/
theorem Apart.same_blocks (apart : first.Apart second) (leftHolds : first.Holds left)
    (rightHolds : second.Holds right) (same : first.getBestHash = second.getBestHash)
    (height : UInt32) :
    first.getHeader height = second.getHeader height ∧
      (first.getBody height).map (fun body => (body.coinbase, body.transactions)) =
        (second.getBody height).map (fun body => (body.coinbase, body.transactions)) := by
  have moved := congrArg (blockAt · height) (apart.same_contents leftHolds rightHolds same)
  simp only [blockAt_map] at moved
  rw [leftHolds.headers, rightHolds.headers, leftHolds.bodies, rightHolds.bodies]
  have headers := congrArg (Option.map Prod.fst) moved
  have bodies := congrArg (Option.map Prod.snd) moved
  simp only [Option.map_map] at headers bodies ⊢
  exact ⟨headers, bodies⟩

end Archive

end

namespace ChainNetwork

section

variable [Bitcoin] [Blake3] {N A C S : Type} [Bincode C] [DecidableEq N] [DecidableEq C]
variable [CustomState S A C]
variable [GetValue C] [GetAddress A] [Verify A C]
variable {mode : Overflow} {customStates : N → S}
variable {events later : List (LogEvent N (Header × Body A C))}
variable {first network : ChainNetwork N A C S}

/-- A stored header stands at a reached height. -/
theorem Run.inside (run : Run mode (new customStates) events network)
    (bounded : Bounded network) {node : N} {height : UInt32} {header : Header}
    (found : (network.nodes node).archive.getHeader height = some header) :
    height ≤ (network.nodes node).archive.getHeight := by
  obtain ⟨replicas, _, simulates⟩ := run.replicated bounded
  exact (simulates.logs node).inside found

/-- An archive only grows. -/
theorem Run.grown (before : Run mode (new customStates) events first)
    (run : Run mode first later network)
    (bounded : Bounded network) : ∃ replicas after, Simulates first replicas ∧
      Simulates network after ∧
      ∀ node, replicas.logs node <+: after.logs node := by
  obtain ⟨replicas, _, simulates⟩ :=
    before.replicated fun node => (run.height_le node).trans_lt (bounded node)
  obtain ⟨after, logged, kept⟩ := run.simulated simulates bounded
  exact ⟨replicas, after, simulates, kept, logged.grows⟩

/-- In every run, an archive keeps its blocks. -/
theorem Run.append_only (before : Run mode (new customStates) events first)
    (run : Run mode first later network) (bounded : Bounded network) (node : N) :
    (first.nodes node).archive.Agree (network.nodes node).archive
      (first.nodes node).archive.getHeight := by
  obtain ⟨replicas, after, simulates, kept, grown⟩ := before.grown run bounded
  exact (simulates.logs node).agree (kept.logs node) (grown node)

/-- In every run, two nodes with one best block have the same chain up to the authorizations. -/
theorem Run.best_hash_agree (run : Run mode (new customStates) events network)
    (bounded : Bounded network) {node peer : N}
    (apart : (network.nodes node).archive.Apart (network.nodes peer).archive)
    (same : (network.nodes node).archive.getBestHash = (network.nodes peer).archive.getBestHash) :
    (network.nodes node).archive.getHeight = (network.nodes peer).archive.getHeight ∧ ∀ height,
      (network.nodes node).archive.getHeader height =
        (network.nodes peer).archive.getHeader height ∧
      ((network.nodes node).archive.getBody height).map
        (fun body => (body.coinbase, body.transactions)) =
        ((network.nodes peer).archive.getBody height).map
          (fun body => (body.coinbase, body.transactions)) := by
  obtain ⟨replicas, _, simulates⟩ := run.replicated bounded
  have left := simulates.logs node
  have right := simulates.logs peer
  have headers := apart.same_headers left right List.prefix_rfl
    (left.best.symm.trans (same.trans right.best))
  refine ⟨?_, apart.same_blocks left right same⟩
  have lengths := congrArg List.length headers
  rw [List.length_map, List.length_map, ← left.height, ← right.height] at lengths
  exact UInt32.toNat_inj.mp lengths

/-- An accepted block comes from a peer that has all blocks of its receiver. -/
theorem Run.accepted_extends (run : Run mode (new customStates) events network)
    (bounded : Bounded network) {node peer : N}
    (apart : (network.nodes node).archive.Apart (network.nodes peer).archive) {height : UInt32}
    {header : Header} {body : Body A C}
    (answered : network.tasks node = .answered peer height (.block header body)) {orders : Orders C}
    {twoWayPegData : TwoWayPegData C} {next : Node A C S}
    (accepted : (network.nodes node).commitBlock orders mode header body twoWayPegData = .ok next) :
    ∀ query ≤ (network.nodes node).archive.getHeight,
      (network.nodes node).archive.getHeader query =
        (network.nodes peer).archive.getHeader query := by
  obtain ⟨replicas, logged, simulates⟩ := run.replicated bounded
  have left := simulates.logs node
  have right := simulates.logs peer
  have task := logged.honest.fetched node
  rw [simulates.fetch, answered] at task
  obtain ⟨newHeight, step⟩ := Archive.appends_iff.mp (Node.commitBlock_eq_ok.mp accepted).archived
  have named := right.linked.tip_take task.2.symm
  have headers := apart.same_headers left right (List.take_prefix _ _)
    (left.best.symm.trans (step.extends_best.symm.trans named.symm))
  have lengths := congrArg List.length headers
  rw [List.length_map, List.length_map] at lengths
  intro query inside
  have bound := UInt32.le_iff_toNat_le.mp inside
  rw [left.height, lengths] at bound
  rw [left.headers, right.headers, ← blockAt_map, headers, blockAt_map,
    blockAt_prefix (List.take_prefix _ _) bound]

/-- A fork is permanent: a download from the other fork stops its task. -/
theorem Run.fork_stops (before : Run mode (new customStates) events first)
    (run : Run mode first later network) (bounded : Bounded network) {node peer : N}
    (apart : (network.nodes node).archive.Apart (network.nodes peer).archive) {query : UInt32}
    {left right : Header} (stored : (first.nodes node).archive.getHeader query = some left)
    (found : (first.nodes peer).archive.getHeader query = some right) (forked : left ≠ right)
    {height : UInt32} {response : Response A C}
    (answered : network.tasks node = .answered peer height response) (orders : Orders C)
    (twoWayPegData : TwoWayPegData C) :
    network.receive mode node orders twoWayPegData =
      some { network with tasks := Function.update network.tasks node .stopped } := by
  have low : Bounded first := fun node => (run.height_le node).trans_lt (bounded node)
  have whole := before.append run
  obtain ⟨header, body, rfl, _⟩ := whole.answered_block bounded answered
  obtain ⟨replicas, after, simulates, kept, grown⟩ := before.grown run bounded
  have reached := before.inside low stored
  have same := ((simulates.logs node).agree (kept.logs node) (grown node) query reached).1
  have other :=
    ((simulates.logs peer).agree (kept.logs peer) (grown peer) query (before.inside low found)).1
  rw [ChainNetwork.receive, answered]
  dsimp only
  cases result : (network.nodes node).commitBlock orders mode header body twoWayPegData with
  | error fault => rfl
  | ok next =>
      have agree := whole.accepted_extends bounded apart answered result query
        (UInt32.le_trans reached (UInt32.le_iff_toNat_le.mpr (run.height_le node)))
      rw [← same, ← other, stored, found] at agree
      exact absurd (Option.some.inj agree) forked

end

section

open Reference

theorem append_only_taking :
    ((played asking newPair).2.nodes false).archive.Agree
      ((played taking (played asking newPair).2).2.nodes false).archive
      ((played asking newPair).2.nodes false).archive.getHeight := by
  obtain ⟨possible, low, _⟩ := taking_facts
  exact Run.append_only asking_run (played_run possible) low false

/-- The nodes mine different first blocks. -/
def forking : List (Action Bool Authorization Unit) := [
  .submit false orders (worthlessBlock 1).header (worthlessBlock 1).body
    ((worthlessBlock 1).pegData (Node.new ())),
  .submit true orders (worthlessBlock 2).header (worthlessBlock 2).body
    ((worthlessBlock 2).pegData (Node.new ()))]

/-- The second block of the first node extends its chain. -/
def secondBlock : Submission :=
  .extending ((worthlessBlock 1).next .wrapping (Node.new ())) (worthlessBody 3) 1 (client [] [] [])

/-- The second node asks for the second block of the first node. -/
def crossing : List (Action Bool Authorization Unit) := [
  .submit false orders secondBlock.header secondBlock.body
    (secondBlock.pegData ((worthlessBlock 1).next .wrapping (Node.new ()))),
  .heartBeat false true, .heartBeatListen 0, .request true false, .answer true]

theorem fork_stops_crossing :
    let network := (played crossing (played forking newPair).2).2
    network.receive .wrapping true orders (secondBlock.pegData (Node.new ())) =
      some { network with tasks := Function.update network.tasks true .stopped } := by
  have forked : Run .wrapping newPair (played forking newPair).1 (played forking newPair).2 :=
    played_run (by decide +kernel)
  have crossed : Run .wrapping (played forking newPair).2
    (played crossing (played forking newPair).2).1
      (played crossing (played forking newPair).2).2 := played_run (by decide +kernel)
  have low : ∀ node,
      ((played crossing (played forking newPair).2).2.nodes node).archive.getHeight.toNat <
          2 ^ 32 - 1 := by
    decide +kernel
  have first : ((played forking newPair).2.nodes true).archive.getHeader 1 =
      some (worthlessBlock 2).header := by
    decide +kernel
  have second : ((played forking newPair).2.nodes false).archive.getHeader 1 =
      some (worthlessBlock 1).header := by
    decide +kernel
  have answered : (played crossing (played forking newPair).2).2.tasks true =
      .answered false 2 (.block secondBlock.header secondBlock.body) := by
    decide +kernel
  exact Run.fork_stops forked crossed low
    (Archive.apart_of_tables (by decide +kernel) (by decide +kernel) (by decide +kernel))
      first second (by decide +kernel)
    answered _ _

end

end ChainNetwork

end Ddk
