import Ddk.Construction.ReferenceFormats
import Ddk.Proof.Net.Messages
import Ddk.Proof.Withdrawals.Aggregation

namespace Ddk

open Foundation

section

variable [Bitcoin] {A C : Type}

/-- An address is spelled once when its format reads it only from the bytes that it writes. -/
def Output.SpelledOnce [BitcoinFormat] (output : Output C) : Prop :=
  ∀ mainAddress, output.destination = some mainAddress → BitcoinFormat.address.ExactAt mainAddress

/-- A request carries the outputs of its transaction. -/
def Request.outputs : Request A C → List (Output C)
  | .getBlock _ => []
  | .pushTransaction transaction => transaction.transaction.outputs

/-- A response carries the outputs of its block. -/
def Response.outputs : Response A C → List (Output C)
  | .block _ body => body.coinbase ++ body.transactions.flatMap (·.outputs)
  | _ => []

end

namespace Format

section

variable [BincodeFormat] [Bitcoin] [BitcoinFormat]

omit [Bitcoin] [BitcoinFormat] in
theorem vector_exactAt {α : Type} {codec : Codec α} {values : List α}
    (exact : ∀ value ∈ values, codec.ExactAt value) : (vector codec).ExactAt values :=
  Codec.vector_exactAt exact

theorem outPoint_exact : outPoint.Exact := by
  apply Enumeration.codec_exact
  simp only [outPoints, List.mem_cons, List.not_mem_nil, or_false, forall_eq_or_imp, forall_eq]
  refine ⟨?_, ?_, ?_⟩
  · exact Codec.pair_exact (Codec.ofEquiv_exact BincodeFormat.bytes32.exact _)
      BincodeFormat.u32.exact
  · exact Codec.pair_exact (Codec.ofEquiv_exact BincodeFormat.bytes32.exact _)
      BincodeFormat.u32.exact
  · exact BitcoinFormat.outPoint.exact

/-- The formats of a sidechain are exact. A mainchain address may have other spellings. -/
structure ForeignExact (A C : Type) [SidechainFormat A C] : Prop where
  authorization : (SidechainFormat.authorization C : Codec A).Exact
  custom : (SidechainFormat.custom A : Codec C).Exact

variable {A C : Type} [SidechainFormat A C]

theorem output_exactAt (foreign : ForeignExact A C) {value : Output C}
    (spelled : value.SpelledOnce) :
    (output A).ExactAt value := by
  have content : (content A).ExactAt value.content := by
    apply Enumeration.codec_exactAt
    simp only [contents, List.mem_cons, List.not_mem_nil, or_false, forall_eq_or_imp, forall_eq]
    refine ⟨fun _ _ => foreign.custom.exactAt _, fun _ _ => BincodeFormat.u64.exact.exactAt _, ?_⟩
    -- Only a withdrawal holds an address, and the spelling of its destination is exact.
    intro payload withdrawn
    have built := (withdrawalContent.project_eq_some _ _).mp withdrawn
    have destination : value.destination = some payload.2.2 := by
      rw [Output.destination, built]
      rfl
    exact Codec.pair_exactAt (BincodeFormat.u64.exact.exactAt _)
      (Codec.pair_exactAt (BincodeFormat.u64.exact.exactAt _) (spelled _ destination))
  exact Codec.ofEquiv_exactAt
    (Codec.pair_exactAt ((Codec.ofEquiv_exact BincodeFormat.bytes20.exact _).exactAt _) content)

theorem transaction_exactAt (foreign : ForeignExact A C) {value : Transaction C}
    (spelled : ∀ output ∈ value.outputs, output.SpelledOnce) : (transaction A).ExactAt value :=
  Codec.ofEquiv_exactAt (Codec.pair_exactAt (vector_exactAt fun _ _ => outPoint_exact.exactAt _)
    (vector_exactAt fun output member => output_exactAt foreign (spelled output member)))

theorem header_exact : header.Exact :=
  Codec.ofEquiv_exact (Codec.pair_exact (Codec.ofEquiv_exact BincodeFormat.bytes32.exact _)
    (Codec.pair_exact (Codec.ofEquiv_exact BincodeFormat.bytes32.exact _) BitcoinFormat.hash.exact))
      _

omit [Bitcoin] [BitcoinFormat] in
theorem authorizations_exactAt (foreign : ForeignExact A C) (authorizations : List A) :
    (vector (SidechainFormat.authorization C)).ExactAt authorizations :=
  vector_exactAt fun _ _ => foreign.authorization.exactAt _

theorem authorizedTransaction_exactAt (foreign : ForeignExact A C)
    {value : AuthorizedTransaction A C}
    (spelled : ∀ output ∈ value.transaction.outputs, output.SpelledOnce) :
    authorizedTransaction.ExactAt value :=
  Codec.ofEquiv_exactAt
    (Codec.pair_exactAt (transaction_exactAt foreign spelled) (authorizations_exactAt foreign _))

theorem body_exactAt (foreign : ForeignExact A C) {value : Body A C}
    (coinbase : ∀ output ∈ value.coinbase, output.SpelledOnce)
    (spelled : ∀ transaction ∈ value.transactions, ∀ output ∈ transaction.outputs,
      output.SpelledOnce) :
    body.ExactAt value :=
  Codec.ofEquiv_exactAt (Codec.pair_exactAt
    (vector_exactAt fun output member => output_exactAt foreign (coinbase output member))
    (Codec.pair_exactAt
      (vector_exactAt fun transaction member => transaction_exactAt foreign
        (spelled transaction member))
      (authorizations_exactAt foreign _)))

theorem request_exactAt (foreign : ForeignExact A C) {message : Request A C}
    (spelled : ∀ output ∈ message.outputs, output.SpelledOnce) : request.ExactAt message := by
  apply Enumeration.codec_exactAt
  simp only [requests, List.mem_cons, List.not_mem_nil, or_false, forall_eq_or_imp, forall_eq]
  refine ⟨fun _ _ => BincodeFormat.u32.exact.exactAt _, fun payload pushed => ?_⟩
  have built := (pushTransactionRequest.project_eq_some _ _).mp pushed
  rw [built] at spelled
  exact authorizedTransaction_exactAt foreign spelled

theorem response_exactAt (foreign : ForeignExact A C) {message : Response A C}
    (spelled : ∀ output ∈ message.outputs, output.SpelledOnce) : response.ExactAt message := by
  apply Enumeration.codec_exactAt
  simp only [responses, List.mem_cons, List.not_mem_nil, or_false, forall_eq_or_imp, forall_eq]
  have empty (payload : Unit) : Codec.unit.ExactAt payload := Codec.unit_exact.exactAt payload
  refine ⟨fun payload served => ?_, fun _ _ => empty _, fun _ _ => empty _, fun _ _ => empty _⟩
  have built := (blockResponse.project_eq_some _ _).mp served
  rw [built] at spelled
  have coinbase : ∀ output ∈ payload.2.coinbase, output.SpelledOnce :=
    fun output member => spelled output (List.mem_append_left _ member)
  refine Codec.pair_exactAt (header_exact.exactAt _) (body_exactAt foreign coinbase ?_)
  intro transaction listed output member
  exact spelled output
    (List.mem_append_right _ (List.mem_flatMap.mpr ⟨transaction, listed, member⟩))

/-- A peer reads each message that fits from its bytes, which other bytes may follow. It reads a
message whose addresses are spelled once from no other bytes. -/
theorem messages_read_iff (foreign : ForeignExact A C) :
    (∀ (message : Request A C), request.Fits message → ∀ rest,
      (wire A C).decodeRequest ((wire A C).encodeRequest message ++ rest) = some message) ∧
    (∀ (message : Response A C), response.Fits message → ∀ rest,
      (wire A C).decodeResponse ((wire A C).encodeResponse message ++ rest) = some message) ∧
    (∀ (bytes : List UInt8) (message : Request A C),
      (∀ output ∈ message.outputs, output.SpelledOnce) →
      ((wire A C).decodeRequest bytes = some message ↔
        request.Fits message ∧ ∃ rest, bytes = (wire A C).encodeRequest message ++ rest)) ∧
    (∀ (bytes : List UInt8) (message : Response A C),
      (∀ output ∈ message.outputs, output.SpelledOnce) →
      ((wire A C).decodeResponse bytes = some message ↔
        response.Fits message ∧ ∃ rest, bytes = (wire A C).encodeResponse message ++ rest)) ∧
    ∀ (bytes : List UInt8) (state : PeerState), peerState.read bytes = some state ↔
      ∃ rest, bytes = peerState.encode state ++ rest := by
  refine ⟨fun _ fits rest => request.read_encode fits rest,
    fun _ fits rest => response.read_encode fits rest,
    fun _ _ spelled => Codec.read_iff (request_exactAt foreign spelled),
    fun _ _ spelled => Codec.read_iff (response_exactAt foreign spelled), fun bytes state => ?_⟩
  have total : peerState.Fits state := BincodeFormat.u32.total _
  have exact : peerState.ExactAt state :=
    (Codec.ofEquiv_exact BincodeFormat.u32.exact _).exactAt state
  exact (Codec.read_iff exact).trans (and_iff_right total)

omit [SidechainFormat A C] in
/-- A stored bundle is read back under each iteration order, and its bytes are its own. -/
theorem withdrawalBundle_restored [SidechainFormat A C]
    (writer reader : HashOrder OutPoint (Output C)) {bundle : WithdrawalBundle C}
    (fits : (withdrawalBundle (A := A) writer).Fits bundle) :
    (∀ rest, (withdrawalBundle (A := A) reader).read
      ((withdrawalBundle (A := A) writer).encode bundle ++ rest) =
      some bundle) ∧
    ∀ other, (withdrawalBundle (A := A) reader).Fits other →
      (withdrawalBundle (A := A) reader).encode other =
        (withdrawalBundle (A := A) writer).encode bundle →
      other = bundle := by
  have restored (rest : List UInt8) : (withdrawalBundle (A := A) reader).read
      ((withdrawalBundle (A := A) writer).encode bundle ++ rest) = some bundle :=
    (withdrawalBundle writer).read_encode fits rest
  refine ⟨restored, fun other otherFits same => ?_⟩
  have read := (withdrawalBundle (A := A) reader).read_encode otherFits []
  rw [same, restored] at read
  exact (Option.some.inj read).symm

end

/-- The bytes from the most significant one on are in the order of the number. -/
theorem reverse_leBytes_lt_iff (count : ℕ) {first second : ℕ} (firstFits : first < 2 ^ (8 * count))
    (secondFits : second < 2 ^ (8 * count)) :
    (leBytes count first).reverse < (leBytes count second).reverse ↔ first < second := by
  induction count generalizing first second with
  | zero =>
      rw [Nat.mul_zero, pow_zero, Nat.lt_one_iff] at firstFits secondFits
      rw [firstFits, secondFits]
      simp [leBytes]
  | succ count ih =>
      have width : 2 ^ (8 * (count + 1)) = 2 ^ 8 * 2 ^ (8 * count) := by
        rw [← pow_add, Nat.mul_succ, Nat.add_comm]
      have low := Nat.div_lt_of_lt_mul (width ▸ firstFits)
      have high := Nat.div_lt_of_lt_mul (width ▸ secondFits)
      have same : leBytes count (first / 2 ^ 8) = leBytes count (second / 2 ^ 8) ↔
          first / 2 ^ 8 = second / 2 ^ 8 :=
        ⟨leBytes_injective count low high, fun same => by rw [same]⟩
      rw [leBytes, leBytes, List.reverse_cons, List.reverse_cons, append_lt_append_iff (by simp),
        ih low high, List.reverse_inj, same, List.cons_lt_cons_iff, UInt8.lt_iff_toNat_lt,
        UInt8.toNat_ofNat', UInt8.toNat_ofNat']
      simp only [List.not_lt_nil, and_false, or_false]
      omega

theorem hashBytes_lt_iff {first second : Hash} : hashBytes first < hashBytes second ↔
    first < second :=
  reverse_leBytes_lt_iff 32 first.isLt second.isLt

theorem voutKey_lt_iff {first second : UInt32} :
    voutKey first < voutKey second ↔ leBytes 4 first.toNat < leBytes 4 second.toNat :=
  map_lt_map_iff (fun _ _ => UInt8.lt_iff_toNat_lt.symm) fun _ _ => UInt8.toNat_inj.mp

/-- The bytes of a hash and an index are in the order of their key. -/
theorem name_lt_iff {first second : Hash} {vout index : UInt32} :
    hashBytes first ++ leBytes 4 vout.toNat < hashBytes second ++ leBytes 4 index.toNat ↔
      toLex (first, voutKey vout) < toLex (second, voutKey index) := by
  rw [append_lt_append_iff (by simp), Prod.Lex.toLex_lt_toLex, hashBytes_lt_iff,
    hashBytes_injective.eq_iff, voutKey_lt_iff]

/-- Equal first bytes leave the order to the other bytes. -/
theorem marked_lt_iff {mark left right : List UInt8} : mark ++ left < mark ++ right ↔
    left < right := by
  have irreflexive : ¬ mark < mark := List.lt_irrefl mark
  rw [append_lt_append_iff rfl]
  tauto

/-- The variants are in the order of their indexes and then in the order of their payloads. -/
theorem variant_lt_iff {left right : List UInt8} {first second : Hash ×ₗ List ℕ} {one two : ℕ}
    (low : one < 3) (high : two < 3) (payload : one = two → (left < right ↔ first < second)) :
    leBytes 4 one ++ left < leBytes 4 two ++ right ↔ toLex (one, first) < toLex (two, second) := by
  have ordered : ∀ one < 3, ∀ two < 3, (leBytes 4 one < leBytes 4 two ↔ one < two) ∧
      (leBytes 4 one = leBytes 4 two ↔ one = two) := by
    decide
  rw [append_lt_append_iff (by simp), Prod.Lex.toLex_lt_toLex, (ordered one low two high).1,
    (ordered one low two high).2, and_congr_right payload]

section

variable [BincodeFormat] [Bitcoin] [BitcoinFormat]

/-- Numbers start with their least significant byte, and a deposit with fixed bytes. -/
structure OutPointLayout : Prop where
  variant : ∀ index, BincodeFormat.variant.encode index = leBytes 4 index.toNat
  vout : ∀ vout, BincodeFormat.u32.encode vout = leBytes 4 vout.toNat
  hash : ∀ hash, BincodeFormat.bytes32.encode hash = hashBytes hash
  deposit : ∃ mark, ∀ outpoint, BitcoinFormat.outPoint.encode outpoint =
    mark ++ (hashBytes outpoint.txid ++ leBytes 4 outpoint.vout.toNat)

/-- The database compares the bytes of two names, and it finds the order of their keys. -/
theorem outPoint_lt_iff (layout : OutPointLayout) {first second : OutPoint} :
    outPoint.encode first < outPoint.encode second ↔ first < second := by
  obtain ⟨mark, deposit⟩ := layout.deposit
  have regular (txid : Txid) (vout : UInt32) : outPoint.encode (.regular txid vout) =
      leBytes 4 0 ++ (hashBytes txid.hash ++ leBytes 4 vout.toNat) := by
    rw [← layout.hash, ← layout.vout]
    exact congrArg (· ++ _) (layout.variant 0)
  have coinbase (merkleRoot : MerkleRoot) (vout : UInt32) :
      outPoint.encode (.coinbase merkleRoot vout) =
      leBytes 4 1 ++ (hashBytes merkleRoot.hash ++ leBytes 4 vout.toNat) := by
    rw [← layout.hash, ← layout.vout]
    exact congrArg (· ++ _) (layout.variant 1)
  have deposited (outpoint : Bitcoin.OutPoint) : outPoint.encode (.deposit outpoint) =
      leBytes 4 2 ++ (mark ++ (hashBytes outpoint.txid ++ leBytes 4 outpoint.vout.toNat)) := by
    rw [← deposit]
    exact congrArg (· ++ _) (layout.variant 2)
  change _ ↔ first.key < second.key
  rcases first with ⟨⟨hash⟩, vout⟩ | ⟨⟨hash⟩, vout⟩ | ⟨hash, vout⟩ <;>
    rcases second with ⟨⟨other⟩, index⟩ | ⟨⟨other⟩, index⟩ | ⟨other, index⟩ <;>
    simp only [regular, coinbase, deposited, OutPoint.key] <;>
    apply variant_lt_iff (by decide) (by decide) <;>
    intro same
  -- Only two names of one variant compare payloads, and a deposit has fixed bytes before its hash.
  all_goals first
    | exact absurd same (by decide)
    | exact name_lt_iff
    | exact marked_lt_iff.trans name_lt_iff

end

section

open Reference

/-- The reference formats have this layout, and the mark of a deposit is the length of its hash. -/
theorem layout_reference : OutPointLayout :=
  ⟨fun _ => rfl, fun _ => rfl, fun _ => rfl, leBytes 8 32, fun _ => by
  rw [← List.append_assoc]
  rfl⟩

/-- The index 256 comes before the index 1, since its least significant byte is less. -/
theorem outPoint_lt_vouts :
    outPoint.encode (.regular ⟨1⟩ 256) < outPoint.encode (.regular ⟨1⟩ 1) :=
  (outPoint_lt_iff layout_reference).mpr (by decide)

theorem foreign_exact : ForeignExact Authorization Unit where
  authorization := Codec.ofEquiv_exact (Codec.pair_exact (littleEndian_exact 32)
    (Codec.pair_exact (littleEndian_exact 32) (Codec.exact_iff.mpr fun _ =>
      Codec.vector_exactAt fun _ _ => (PrimitiveCodec.exact _).exactAt _))) _
  custom := Codec.unit_exact

/-- This request pushes a transaction that withdraws to an address. -/
def withdrawalRequest : Request Authorization Unit :=
  .pushTransaction ⟨⟨[], [⟨⟨5⟩, .withdrawal 3 1 (7 : ℕ)⟩]⟩, []⟩

theorem messages_read_withdrawal :
    (wire Authorization Unit).decodeRequest
      ((wire Authorization Unit).encodeRequest withdrawalRequest ++ [7]) =
      some withdrawalRequest := by
  have restored : (request : Codec (Request Authorization Unit)).decode
      (request.encode withdrawalRequest) =
      some (withdrawalRequest, []) := by
    decide +kernel
  have spelled : ∀ output ∈ withdrawalRequest.outputs, output.SpelledOnce :=
    fun _ _ mainAddress _ => (Codec.marked_exact (littleEndian_exact 20) _).exactAt mainAddress
  exact ((messages_read_iff foreign_exact).2.2.1 _ _ spelled).mpr
    ⟨request.decode_fits _ _ _ restored, [7], rfl⟩

/-- This bundle pays two withdrawals. -/
def pairBundle : WithdrawalBundle Unit :=
  ⟨Database.putAll ∅ [(.regular ⟨1⟩ 0, ⟨⟨5⟩, .withdrawal 3 1 (7 : ℕ)⟩),
    (.regular ⟨2⟩ 1, ⟨⟨5⟩, .withdrawal 4 1 (8 : ℕ)⟩)],
    treasury 10⟩

theorem withdrawalBundle_restored_pair :
    (withdrawalBundle (A := Authorization) HashOrder.byKey.reversed).read
      ((withdrawalBundle (A := Authorization) .byKey).encode pairBundle ++ [7]) =
        some pairBundle := by
  have written : (withdrawalBundle (A := Authorization) .byKey).decode
      ((withdrawalBundle (A := Authorization) .byKey).encode pairBundle) =
          some (pairBundle, []) := by
    decide +kernel
  exact (withdrawalBundle_restored .byKey HashOrder.byKey.reversed
    ((withdrawalBundle .byKey).decode_fits _ _ _ written)).1 [7]

end

end Format

end Ddk
