import Ddk.Proof.Net.Ledger
import Ddk.Proof.Net.Formats

namespace Ddk

open Foundation

section

variable [BincodeFormat] [Bitcoin] [BitcoinFormat] [Blake3] {A C : Type} [SidechainFormat A C]

namespace Archive

/-- A node hashes the bytes of its stored headers and body contents. -/
def hashed (archive : Archive A C) : List (List UInt8) :=
  archive.headers.toList.map (fun entry => Format.header.encode entry.2) ++
    archive.bodies.toList.map fun entry => (Format.bodyContents A).encode
      (entry.2.coinbase, entry.2.transactions)

/-- Different bytes of two archives have one hash, or a hash is zero. -/
def Collides (first second : Archive A C) : Prop :=
  (∃ left ∈ first.hashed, ∃ right ∈ second.hashed, left ≠ right ∧
    Blake3.hash left = Blake3.hash right) ∨
    ∃ bytes ∈ first.hashed ++ second.hashed, Blake3.hash bytes = 0

/-- The stored bodies have vectors of one-word length and values that the foreign formats write. -/
def Fits (archive : Archive A C) : Prop :=
  ∀ height body, archive.getBody height = some body →
    (Format.bodyContents A).Fits (body.coinbase, body.transactions)

omit [Blake3] in
theorem header_mem_hashed {archive : Archive A C} {height : UInt32} {header : Header}
    (found : archive.getHeader height = some header) :
    Format.header.encode header ∈ archive.hashed :=
  List.mem_append_left _ (List.mem_map.mpr ⟨_, mem_headers found, rfl⟩)

omit [Blake3] in
theorem body_mem_hashed {archive : Archive A C} {height : UInt32} {body : Body A C}
    (found : archive.getBody height = some body) :
    (Format.bodyContents A).encode (body.coinbase, body.transactions) ∈ archive.hashed :=
  List.mem_append_right _ (List.mem_map.mpr ⟨_, mem_bodies found, rfl⟩)

omit [Blake3] in
/-- An archive fits when its bodies can be read back. -/
theorem fits_of_table {archive : Archive A C} (stored : ∀ entry ∈ archive.bodies.toList,
    (Format.bodyContents A).decode
    ((Format.bodyContents A).encode (entry.2.coinbase, entry.2.transactions)) =
      some ((entry.2.coinbase, entry.2.transactions), [])) : archive.Fits :=
  fun _ _ found => (Format.bodyContents A).decode_fits _ _ _ (stored _ (mem_bodies found))

omit [Blake3] [SidechainFormat A C] in
theorem header_fits (header : Header) : Format.header.Fits header :=
  ⟨BincodeFormat.bytes32.total _, BincodeFormat.bytes32.total _, BitcoinFormat.hash.total _⟩

/-- Archives without a collision of their bytes are apart. -/
theorem apart_of_not_collides {first second : Archive A C} (firstFits : first.Fits)
    (secondFits : second.Fits) (safe : ¬ first.Collides second) :
    letI : Bincode C := Format.bincode A C
    first.Apart second := by
  let _ : Bincode C := Format.bincode A C
  have equal {left right : List UInt8} (member : left ∈ first.hashed)
    (listed : right ∈ second.hashed)
      (same : Blake3.hash left = Blake3.hash right) : left = right := by
    by_contra different
    exact safe (.inl ⟨left, member, right, listed, different, same⟩)
  refine ⟨fun stored found same => ?_, fun stored found same => ?_,
    fun found zero => safe (.inr ?_)⟩
  · have bytes := equal (header_mem_hashed stored) (header_mem_hashed found)
      (congrArg BlockHash.hash same)
    exact Format.header.encode_injective (header_fits _) (header_fits _) bytes
  · have bytes := equal (body_mem_hashed stored) (body_mem_hashed found)
      (congrArg MerkleRoot.hash same)
    have contents := (Format.bodyContents A).encode_injective (firstFits _ _ stored)
      (secondFits _ _ found) bytes
    exact Prod.mk.inj contents
  · rcases found with found | found
    · exact ⟨_, List.mem_append_left _ (header_mem_hashed found), congrArg BlockHash.hash zero⟩
    · exact ⟨_, List.mem_append_right _ (header_mem_hashed found), congrArg BlockHash.hash zero⟩

end Archive

namespace ChainNetwork

variable {N S : Type} [DecidableEq N] [DecidableEq C] [CustomState S A C] [GetValue C]
variable [GetAddress A] [Verify A C]

/-- In every run, nodes with different chains under one best hash have hashed a collision. -/
theorem Run.divergence_collides {mode : Overflow} {customStates : N → S}
    {events : List (LogEvent N (Header × Body A C))}
    {network : ChainNetwork N A C S} {node peer : N} {height : UInt32} :
    letI : Bincode C := Format.bincode A C
    Run mode (new customStates) events network → Bounded network →
    (network.nodes node).archive.Fits → (network.nodes peer).archive.Fits →
    (network.nodes node).archive.getBestHash = (network.nodes peer).archive.getBestHash →
    ((network.nodes node).archive.getHeight ≠ (network.nodes peer).archive.getHeight ∨
      (network.nodes node).archive.getHeader height ≠
        (network.nodes peer).archive.getHeader height ∨
      ((network.nodes node).archive.getBody height).map
        (fun body => (body.coinbase, body.transactions)) ≠
        ((network.nodes peer).archive.getBody height).map
          (fun body => (body.coinbase, body.transactions))) →
    (network.nodes node).archive.Collides (network.nodes peer).archive := by
  intro run bounded firstFits secondFits same different
  by_contra safe
  have apart := Archive.apart_of_not_collides firstFits secondFits safe
  obtain ⟨level, agree⟩ := @Run.best_hash_agree _ _ N A C S
    (Format.bincode A C) _ _ _ _ _ _ _ _ _ _ run bounded _ _ apart same
  rcases different with heights | headers | contents
  · exact heights level
  · exact headers (agree height).1
  · exact contents (agree height).2

/-- In every steady run, different ledgers under one best hash come with a hashed collision. -/
theorem SteadyRun.ledger_divergence_collides [Bs58] {mode : Overflow} {orders : Orders C}
    {client : Drivechain.MainClient} {customStates : N → S}
    {events : List (LogEvent N (Header × Body A C))}
    {network : ChainNetwork N A C S} {node peer : N} :
    letI : Bincode C := Format.bincode A C
    SteadyRun mode orders client (new customStates) events network → Bounded network →
    (network.nodes node).archive.Fits → (network.nodes peer).archive.Fits →
    (network.nodes node).archive.getBestHash = (network.nodes peer).archive.getBestHash →
    (network.nodes node).state ≠ (network.nodes peer).state →
    (network.nodes node).archive.Collides (network.nodes peer).archive := by
  let _ : Bincode C := Format.bincode A C
  intro steady bounded firstFits secondFits same different
  by_contra safe
  exact different
    (steady.best_hash_state bounded (Archive.apart_of_not_collides firstFits secondFits safe) same)

end ChainNetwork

end

namespace ChainNetwork

open Reference

local instance formatBytes : Bincode Unit := Format.bincode Authorization Unit

/-- The reference hash of this header does not depend on the choice between two mainchain hashes. -/
def twinHeader (first : Bool) : Header :=
  ⟨(worthlessBody 1).computeMerkleRoot, ⟨0⟩,
    if first then 0 else
      102611823752591276557398846590701317270085082664120093265535715220877231448321⟩

/-- Each node mines its own block under the same hash. -/
def mining : List (Action Bool Authorization Unit) := [
  .submit false orders (twinHeader false) (worthlessBody 1) ⟨∅, none, ∅⟩,
  .submit true orders (twinHeader true) (worthlessBody 1) ⟨∅, none, ∅⟩]

def mined : List (LogEvent Bool (Header × Body Authorization Unit)) ×
    ChainNetwork Bool Authorization Unit Unit :=
  (play .wrapping mining newPair).getD ([], newPair)

/-- Both nodes have one best hash, but their blocks differ. -/
theorem mined_facts : (play .wrapping mining newPair).isSome ∧
    (∀ node, (mined.2.nodes node).archive.getHeight.toNat < 2 ^ 32 - 1) ∧
    (∀ node, ∀ entry ∈ (mined.2.nodes node).archive.bodies.toList,
      ((Format.bodyContents Authorization).decode ((Format.bodyContents Authorization).encode
        (entry.2.coinbase, entry.2.transactions))) =
          some ((entry.2.coinbase, entry.2.transactions), [])) ∧
    (mined.2.nodes false).archive.getBestHash = (mined.2.nodes true).archive.getBestHash ∧
    (mined.2.nodes false).archive.getHeader 1 ≠ (mined.2.nodes true).archive.getHeader 1 := by
  decide +kernel

theorem mined_run : Run .wrapping newPair mined.1 mined.2 := by
  obtain ⟨last, reached⟩ := Option.isSome_iff_exists.mp mined_facts.1
  rw [mined, reached]
  exact Run.play reached

theorem divergence_collides_mined :
    (mined.2.nodes false).archive.Collides (mined.2.nodes true).archive := by
  obtain ⟨_, low, stored, same, different⟩ := mined_facts
  exact Run.divergence_collides mined_run low (Archive.fits_of_table (stored false))
    (Archive.fits_of_table (stored true))
    same (.inr (.inl different))

/-- The mainchain lists a deposit up to one of the two mainchain blocks. -/
def unevenClient : Drivechain.MainClient :=
  ⟨fun _ stop _ => some (if stop = some 0 then [] else [deposit 1 10]), some [], some []⟩

def pegData (header : Header) : TwoWayPegData Unit :=
  (Node.getTwoWayPegData (S := Unit) (A := Authorization) unevenClient header none).toOption.getD
    ⟨∅, none, ∅⟩

def twinAction (first : Bool) : Action Bool Authorization Unit :=
  .submit first orders (twinHeader first) (worthlessBody 1) (pegData (twinHeader first))

def minedOnce : ChainNetwork Bool Authorization Unit Unit :=
  newPair.submit .wrapping false orders (twinHeader false) (worthlessBody 1)
    (pegData (twinHeader false))

/-- The deposit enters the state of one node only. -/
def minedApart : ChainNetwork Bool Authorization Unit Unit :=
  minedOnce.submit .wrapping true orders (twinHeader true) (worthlessBody 1)
    (pegData (twinHeader true))

/-- The mainchain answers both nodes, and their states differ under one best hash. -/
theorem minedApart_facts :
    (∀ first, (Node.getTwoWayPegData (S := Unit) (A := Authorization) unevenClient
      (twinHeader first) none : Node.Result Unit Authorization Unit (TwoWayPegData Unit)).isOk) ∧
    (minedOnce.nodes true).state.lastDepositBlock = none ∧
    (∀ node, (minedApart.nodes node).archive.getHeight.toNat < 2 ^ 32 - 1) ∧
    (∀ node, ∀ entry ∈ (minedApart.nodes node).archive.bodies.toList,
      ((Format.bodyContents Authorization).decode ((Format.bodyContents Authorization).encode
        (entry.2.coinbase, entry.2.transactions))) =
          some ((entry.2.coinbase, entry.2.transactions), [])) ∧
    (minedApart.nodes false).archive.getBestHash = (minedApart.nodes true).archive.getBestHash ∧
    (minedApart.nodes false).state.utxos.toList.length ≠
      (minedApart.nodes true).state.utxos.toList.length := by
  decide +kernel

theorem minedApart_steady : ∃ events,
    SteadyRun .wrapping orders unevenClient newPair events minedApart := by
  obtain ⟨fetched, unseen, _⟩ := minedApart_facts
  have first : newPair.Steady orders unevenClient (twinAction false) :=
    ⟨rfl, Outcome.eq_ok_getD _ (fetched false)⟩
  have second : minedOnce.Steady orders unevenClient (twinAction true) :=
    ⟨rfl, unseen ▸ Outcome.eq_ok_getD _ (fetched true)⟩
  have once : newPair.step .wrapping (twinAction false) = some minedOnce := rfl
  have apart : minedOnce.step .wrapping (twinAction true) = some minedApart := rfl
  exact ⟨_, (SteadyRun.start.step first once).step second apart⟩

theorem ledger_divergence_collides_minedApart :
    (minedApart.nodes false).archive.Collides (minedApart.nodes true).archive := by
  obtain ⟨events, steady⟩ := minedApart_steady
  obtain ⟨_, _, low, stored, same, counts⟩ := minedApart_facts
  have different : (minedApart.nodes false).state ≠ (minedApart.nodes true).state := fun equal =>
    counts (congrArg (fun state => state.utxos.toList.length) equal)
  exact SteadyRun.ledger_divergence_collides steady low (Archive.fits_of_table (stored false))
    (Archive.fits_of_table (stored true)) same different

end ChainNetwork

end Ddk
