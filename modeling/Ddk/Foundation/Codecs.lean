/-
This file gives byte formats with their round trips and builds them from each other.
-/

import Ddk.Foundation.Database

namespace Foundation

/-- A format writes values and reads exactly those that fit, from the front of any bytes. -/
structure Codec (α : Type) where
  Fits : α → Prop
  encode : α → List UInt8
  decode : List UInt8 → Option (α × List UInt8)
  decode_encode : ∀ value rest, Fits value → decode (encode value ++ rest) = some (value, rest)
  decode_fits : ∀ bytes value rest, decode bytes = some (value, rest) → Fits value

/-- An exact format reads only the bytes that it writes. -/
def Codec.Exact {α : Type} (codec : Codec α) : Prop :=
  ∀ bytes value rest, codec.decode bytes = some (value, rest) → bytes = codec.encode value ++ rest

/-- A format is exact at a value that it reads only from the bytes that it writes. -/
def Codec.ExactAt {α : Type} (codec : Codec α) (value : α) : Prop :=
  ∀ bytes rest, codec.decode bytes = some (value, rest) → bytes = codec.encode value ++ rest

/-- A primitive format is exact and writes every value. -/
structure PrimitiveCodec (α : Type) extends Codec α where
  total : ∀ value, Fits value
  exact : toCodec.Exact

namespace Codec

variable {α β : Type}

theorem exact_iff {codec : Codec α} : codec.Exact ↔ ∀ value, codec.ExactAt value :=
  ⟨fun exact value bytes rest => exact bytes value rest,
    fun exact bytes value rest => exact value bytes rest⟩

theorem Exact.exactAt {codec : Codec α} (exact : codec.Exact) (value : α) : codec.ExactAt value :=
  exact_iff.mp exact value

/-- A whole message may be followed by other bytes. -/
def read (codec : Codec α) (bytes : List UInt8) : Option α := (codec.decode bytes).map Prod.fst

theorem read_encode (codec : Codec α) {value : α} (fits : codec.Fits value) (rest : List UInt8) :
    codec.read (codec.encode value ++ rest) = some value := by
  rw [read, codec.decode_encode value rest fits]
  rfl

theorem read_eq_some {codec : Codec α} {bytes : List UInt8} {value : α} :
    codec.read bytes = some value ↔ ∃ rest, codec.decode bytes = some (value, rest) := by
  rw [read, Option.map_eq_some_iff]
  constructor
  · intro accepted
    obtain ⟨⟨found, rest⟩, decoded, rfl⟩ := accepted
    exact ⟨rest, decoded⟩
  · intro accepted
    obtain ⟨rest, decoded⟩ := accepted
    exact ⟨(value, rest), decoded, rfl⟩

/-- A format that is exact at a value reads it from its bytes and from nothing else. -/
theorem read_iff {codec : Codec α} {bytes : List UInt8} {value : α} (exact : codec.ExactAt value) :
    codec.read bytes = some value ↔ codec.Fits value ∧ ∃ rest,
      bytes = codec.encode value ++ rest := by
  constructor
  · intro accepted
    obtain ⟨rest, decoded⟩ := read_eq_some.mp accepted
    exact ⟨codec.decode_fits _ _ _ decoded, rest, exact _ _ decoded⟩
  · intro written
    obtain ⟨fits, rest, rfl⟩ := written
    exact codec.read_encode fits rest

/-- Two values that fit have different bytes, also when other bytes follow. -/
theorem encode_prefix_free (codec : Codec α) {first second : α} (firstFits : codec.Fits first)
    (secondFits : codec.Fits second) {left right : List UInt8}
    (same : codec.encode first ++ left = codec.encode second ++ right) : first = second ∧
      left = right := by
  have decoded := codec.decode_encode first left firstFits
  rw [same, codec.decode_encode second right secondFits] at decoded
  have equal := Option.some.inj decoded
  exact ⟨(congrArg Prod.fst equal).symm, (congrArg Prod.snd equal).symm⟩

theorem encode_injective (codec : Codec α) {first second : α} (firstFits : codec.Fits first)
    (secondFits : codec.Fits second) (same : codec.encode first = codec.encode second) :
    first = second :=
  (codec.encode_prefix_free firstFits secondFits (congrArg (· ++ []) same)).1

/-- Values of one width are read from the first bytes. -/
def fixed (width : ℕ) (Fits : α → Prop) (write : α → List UInt8) (reader : List UInt8 → α)
    (sized : ∀ value, (write value).length = width)
    (inverse : ∀ value, Fits value → reader (write value) = value)
    (fitting : ∀ bytes : List UInt8, bytes.length = width → Fits (reader bytes)) : Codec α where
  Fits := Fits
  encode := write
  decode bytes := if width ≤ bytes.length then some (reader (bytes.take width), bytes.drop width)
    else none
  decode_encode value rest fits := by
    have enough : width ≤ (write value ++ rest).length := by
      rw [List.length_append, sized]
      omega
    rw [if_pos enough, List.take_left' (sized value), List.drop_left' (sized value),
      inverse value fits]
  decode_fits bytes value rest decoded := by
    split at decoded
    next enough =>
      cases decoded
      exact fitting _ (by rw [List.length_take, Nat.min_eq_left enough])
    next => cases decoded

/-- A fixed format is exact when its bytes determine its values. -/
theorem fixed_exact {width : ℕ} {Fits : α → Prop} {write : α → List UInt8} {reader : List UInt8 → α}
    {sized : ∀ value, (write value).length = width}
    {inverse : ∀ value, Fits value → reader (write value) = value}
    {fitting : ∀ bytes : List UInt8, bytes.length = width → Fits (reader bytes)}
    (canonical : ∀ bytes : List UInt8, bytes.length = width → write (reader bytes) = bytes) :
    (fixed width Fits write reader sized inverse fitting).Exact := by
  intro bytes value rest decoded
  unfold fixed at decoded ⊢
  dsimp only at decoded ⊢
  split at decoded
  next enough =>
    cases decoded
    rw [canonical _ (by rw [List.length_take, Nat.min_eq_left enough]), List.take_append_drop]
  next => cases decoded

/-- A variant without fields has no payload bytes. -/
def unit : Codec Unit where
  Fits _ := True
  encode _ := []
  decode bytes := some ((), bytes)
  decode_encode _ _ _ := rfl
  decode_fits _ _ _ _ := trivial

theorem unit_exact : unit.Exact := by
  intro bytes value rest decoded
  cases decoded
  rfl

/-- The bytes of a pair are the bytes of its parts in order. -/
def pair (first : Codec α) (second : Codec β) : Codec (α × β) where
  Fits value := first.Fits value.1 ∧ second.Fits value.2
  encode value := first.encode value.1 ++ second.encode value.2
  decode bytes := (first.decode bytes).bind fun left =>
    (second.decode left.2).map fun right => ((left.1, right.1), right.2)
  decode_encode value rest fits := by
    rw [List.append_assoc, first.decode_encode _ _ fits.1, Option.bind_some,
      second.decode_encode _ _ fits.2]
    rfl
  decode_fits bytes value rest decoded := by
    obtain ⟨left, found, decoded⟩ := Option.bind_eq_some_iff.mp decoded
    obtain ⟨right, reached, same⟩ := Option.map_eq_some_iff.mp decoded
    cases same
    exact ⟨first.decode_fits _ _ _ found, second.decode_fits _ _ _ reached⟩

theorem pair_exactAt {first : Codec α} {second : Codec β} {value : α × β}
    (left : first.ExactAt value.1)
    (right : second.ExactAt value.2) : (first.pair second).ExactAt value := by
  intro bytes rest decoded
  obtain ⟨head, found, decoded⟩ := Option.bind_eq_some_iff.mp decoded
  obtain ⟨tail, reached, same⟩ := Option.map_eq_some_iff.mp decoded
  cases same
  rw [left _ _ found, right _ _ reached]
  exact (List.append_assoc ..).symm

theorem pair_exact {first : Codec α} {second : Codec β} (left : first.Exact)
    (right : second.Exact) :
    (first.pair second).Exact :=
  exact_iff.mpr fun value => pair_exactAt (left.exactAt value.1) (right.exactAt value.2)

/-- A structure has the bytes of the tuple of its fields. -/
def ofEquiv (codec : Codec α) (fields : β ≃ α) : Codec β where
  Fits value := codec.Fits (fields value)
  encode value := codec.encode (fields value)
  decode bytes := (codec.decode bytes).map fun found => (fields.symm found.1, found.2)
  decode_encode value rest fits := by
    rw [codec.decode_encode _ _ fits, Option.map_some, Equiv.symm_apply_apply]
  decode_fits bytes value rest decoded := by
    obtain ⟨found, reached, same⟩ := Option.map_eq_some_iff.mp decoded
    cases same
    rw [Equiv.apply_symm_apply]
    exact codec.decode_fits _ _ _ reached

theorem ofEquiv_exactAt {codec : Codec α} {fields : β ≃ α} {value : β}
    (exact : codec.ExactAt (fields value)) :
    (codec.ofEquiv fields).ExactAt value := by
  intro bytes rest decoded
  obtain ⟨found, reached, same⟩ := Option.map_eq_some_iff.mp decoded
  cases same
  rw [Equiv.apply_symm_apply] at exact
  unfold ofEquiv
  dsimp only
  rw [Equiv.apply_symm_apply]
  exact exact _ _ reached

theorem ofEquiv_exact {codec : Codec α} (exact : codec.Exact) (fields : β ≃ α) :
    (codec.ofEquiv fields).Exact :=
  exact_iff.mpr fun value => ofEquiv_exactAt (exact.exactAt (fields value))

/-- A marked format starts with fixed bytes. -/
def marked (mark : List UInt8) (codec : Codec α) : Codec α where
  Fits := codec.Fits
  encode value := mark ++ codec.encode value
  decode bytes := if bytes.take mark.length = mark then
    codec.decode (bytes.drop mark.length) else none
  decode_encode value rest fits := by
    rw [List.append_assoc, List.take_left' rfl, if_pos rfl, List.drop_left' rfl,
      codec.decode_encode value rest fits]
  decode_fits bytes value rest decoded := by
    split at decoded
    next => exact codec.decode_fits _ _ _ decoded
    next => cases decoded

theorem marked_exact {codec : Codec α} (exact : codec.Exact)
    (mark : List UInt8) : (marked mark codec).Exact := by
  intro bytes value rest decoded
  unfold marked at decoded ⊢
  dsimp only at decoded ⊢
  split at decoded
  next same =>
    have split := (List.take_append_drop mark.length bytes).symm
    rwa [same, exact _ _ _ decoded, ← List.append_assoc] at split
  next => cases decoded

section

variable (codec : Codec α)

/-- This loop reads a known number of values. -/
def decodeMany : ℕ → List UInt8 → Option (List α × List UInt8)
  | 0, bytes => some ([], bytes)
  | count + 1, bytes => (codec.decode bytes).bind fun head =>
      (decodeMany count head.2).map fun tail => (head.1 :: tail.1, tail.2)

theorem decodeMany_flatMap (values : List α) (rest : List UInt8)
    (fits : ∀ value ∈ values, codec.Fits value) :
    codec.decodeMany values.length (values.flatMap codec.encode ++ rest) = some (values, rest) := by
  induction values with
  | nil => rfl
  | cons value values ih =>
      have later := ih fun other member => fits other (List.mem_cons_of_mem _ member)
      rw [List.length_cons, List.flatMap_cons, List.append_assoc, decodeMany,
        codec.decode_encode _ _ (fits value List.mem_cons_self), Option.bind_some, later]
      rfl

/-- The loop reads as many values as it is asked for, and each of them fits. -/
theorem decodeMany_fits {count : ℕ} {bytes rest : List UInt8} {values : List α}
    (decoded : codec.decodeMany count bytes = some (values, rest)) :
    values.length = count ∧ ∀ value ∈ values, codec.Fits value := by
  induction count generalizing bytes values with
  | zero =>
      cases decoded
      exact ⟨rfl, fun _ member => absurd member List.not_mem_nil⟩
  | succ count ih =>
      obtain ⟨head, found, decoded⟩ := Option.bind_eq_some_iff.mp decoded
      obtain ⟨tail, reached, same⟩ := Option.map_eq_some_iff.mp decoded
      cases same
      obtain ⟨length, fits⟩ := ih reached
      refine ⟨congrArg (· + 1) length, fun value member => ?_⟩
      rcases List.mem_cons.mp member with rfl | later
      · exact codec.decode_fits _ _ _ found
      · exact fits value later

theorem decodeMany_exact {count : ℕ} {bytes rest : List UInt8} {values : List α}
    (exact : ∀ value ∈ values, codec.ExactAt value)
    (decoded : codec.decodeMany count bytes = some (values, rest)) :
    bytes = values.flatMap codec.encode ++ rest := by
  induction count generalizing bytes values with
  | zero =>
      cases decoded
      rfl
  | succ count ih =>
      obtain ⟨head, found, decoded⟩ := Option.bind_eq_some_iff.mp decoded
      obtain ⟨tail, reached, same⟩ := Option.map_eq_some_iff.mp decoded
      cases same
      have later := ih (fun value member => exact value (List.mem_cons_of_mem _ member)) reached
      rw [exact _ List.mem_cons_self _ _ found, later, List.flatMap_cons, List.append_assoc]

end

/-- A vector starts with its length. -/
def vector (length : PrimitiveCodec UInt64) (codec : Codec α) : Codec (List α) where
  Fits values := values.length < 2 ^ 64 ∧ ∀ value ∈ values, codec.Fits value
  encode values := length.encode (UInt64.ofNat values.length) ++ values.flatMap codec.encode
  decode bytes := (length.decode bytes).bind fun head => codec.decodeMany head.1.toNat head.2
  decode_encode values rest fits := by
    rw [List.append_assoc, length.decode_encode _ _ (length.total _), Option.bind_some,
      UInt64.toNat_ofNat', Nat.mod_eq_of_lt fits.1]
    exact codec.decodeMany_flatMap values rest fits.2
  decode_fits bytes values rest decoded := by
    obtain ⟨head, found, decoded⟩ := Option.bind_eq_some_iff.mp decoded
    obtain ⟨counted, fits⟩ := codec.decodeMany_fits decoded
    exact ⟨counted ▸ head.1.toNat_lt, fits⟩

theorem vector_exactAt {length : PrimitiveCodec UInt64} {codec : Codec α} {values : List α}
    (exact : ∀ value ∈ values, codec.ExactAt value) : (vector length codec).ExactAt values := by
  intro bytes rest decoded
  obtain ⟨head, found, decoded⟩ := Option.bind_eq_some_iff.mp decoded
  have counted := (codec.decodeMany_fits decoded).1
  unfold vector
  dsimp only
  rw [length.exact _ _ _ found, codec.decodeMany_exact exact decoded, counted, UInt64.ofNat_toNat,
    List.append_assoc]

end Codec

/-- A structure of primitive fields is primitive. -/
def PrimitiveCodec.both {α β : Type} (first : PrimitiveCodec α)
    (second : PrimitiveCodec β) : PrimitiveCodec (α × β) where
  toCodec := first.pair second.toCodec
  total value := ⟨first.total value.1, second.total value.2⟩
  exact := Codec.pair_exact first.exact second.exact

/-- A variant of an enumeration builds its values from a payload. -/
structure Variant (α : Type) where
  Payload : Type
  codec : Codec Payload
  build : Payload → α
  project : α → Option Payload
  project_eq_some : ∀ value payload, project value = some payload ↔ value = build payload

/-- An enumeration lists its variants. Each value has exactly one of them. -/
structure Enumeration (α : Type) where
  variants : List (Variant α)
  covers : ∀ value, ∃ variant ∈ variants, (variant.project value).isSome
  distinct : variants.Pairwise fun first second => ∀ value, (first.project value).isSome →
    second.project value = none
  few : variants.length < 2 ^ 32

namespace Variant

variable {α : Type}

theorem project_build (variant : Variant α) (payload : variant.Payload) :
    variant.project (variant.build payload) = some payload :=
  (variant.project_eq_some _ _).mpr rfl

/-- The first variant of a value gives its index and its payload bytes. -/
def encodeFrom (tag : PrimitiveCodec UInt32) (value : α) : ℕ → List (Variant α) → List UInt8
  | _, [] => []
  | index, variant :: variants =>
      match variant.project value with
      | some payload => tag.encode (UInt32.ofNat index) ++ variant.codec.encode payload
      | none => encodeFrom tag value (index + 1) variants

theorem encodeFrom_eq (tag : PrimitiveCodec UInt32) {value : α} {first last : List (Variant α)}
    {variant : Variant α} {payload : variant.Payload}
    (earlier : ∀ other ∈ first, other.project value = none)
    (found : variant.project value = some payload) (index : ℕ) :
    encodeFrom tag value index (first ++ variant :: last) =
      tag.encode (UInt32.ofNat (index + first.length)) ++ variant.codec.encode payload := by
  induction first generalizing index with
  | nil =>
      rw [List.nil_append, encodeFrom, found]
      rfl
  | cons other first ih =>
      have skipped := earlier other List.mem_cons_self
      rw [List.cons_append, encodeFrom, skipped]
      dsimp only
      rw [ih (fun next member => earlier next (List.mem_cons_of_mem _ member)), List.length_cons]
      congr 3
      omega

end Variant

namespace Enumeration

variable {α : Type} (enumeration : Enumeration α)

/-- A value has only one variant. -/
theorem unique {value : α} {first second : Variant α} (listed : first ∈ enumeration.variants)
    (member : second ∈ enumeration.variants) (found : (first.project value).isSome)
    (reached : (second.project value).isSome) : first = second := by
  by_contra different
  obtain ⟨left, right, split⟩ := List.append_of_mem listed
  have apart := enumeration.distinct
  rw [split, List.pairwise_append, List.pairwise_cons] at apart
  have hidden : first.project value = none ∨ second.project value = none := by
    rw [split, List.mem_append, List.mem_cons] at member
    rcases member with before | same | after
    · exact .inl (apart.2.2 second before first List.mem_cons_self value reached)
    · exact absurd same.symm different
    · exact .inr (apart.2.1.1 second after value found)
  rcases hidden with none | none
  · rw [none] at found
    cases found
  · rw [none] at reached
    cases reached

/-- The variants before the one of a value do not have it. -/
theorem earlier {value : α} {first last : List (Variant α)} {variant : Variant α}
    (split : enumeration.variants = first ++ variant :: last)
    (found : (variant.project value).isSome) :
    ∀ other ∈ first, other.project value = none := by
  have apart := enumeration.distinct
  rw [split, List.pairwise_append] at apart
  intro other member
  by_contra some
  have hidden := apart.2.2 other member variant List.mem_cons_self value
    (Option.isSome_iff_ne_none.mpr some)
  rw [hidden] at found
  cases found

theorem exists_split (value : α) : ∃ first variant last payload,
    enumeration.variants = first ++ variant :: last ∧ variant.project value = some payload := by
  obtain ⟨variant, member, present⟩ := enumeration.covers value
  obtain ⟨payload, found⟩ := Option.isSome_iff_exists.mp present
  obtain ⟨first, last, split⟩ := List.append_of_mem member
  exact ⟨first, variant, last, payload, split, found⟩

/-- The bytes of a value are the index of its variant and the bytes of its payload. -/
theorem encodeFrom_variants (tag : PrimitiveCodec UInt32) {value : α}
    {first last : List (Variant α)} {variant : Variant α}
    {payload : variant.Payload} (split : enumeration.variants = first ++ variant :: last)
    (found : variant.project value = some payload) :
    Variant.encodeFrom tag value 0 enumeration.variants =
      tag.encode (UInt32.ofNat first.length) ++ variant.codec.encode payload := by
  rw [split, Variant.encodeFrom_eq tag (enumeration.earlier split (Option.isSome_of_mem found))
    found, Nat.zero_add]

/-- The index of each variant fits into its word. -/
theorem toNat_index {first last : List (Variant α)} {variant : Variant α}
    (split : enumeration.variants = first ++ variant :: last) :
    (UInt32.ofNat first.length).toNat = first.length := by
  have few := enumeration.few
  rw [split, List.length_append] at few
  rw [UInt32.toNat_ofNat', Nat.mod_eq_of_lt (by omega)]

/-- The bytes of an enumeration start with the index of the variant. -/
def codec (tag : PrimitiveCodec UInt32) : Codec α where
  Fits value := ∀ variant ∈ enumeration.variants, ∀ payload, variant.project value = some payload →
    variant.codec.Fits payload
  encode value := Variant.encodeFrom tag value 0 enumeration.variants
  decode bytes := (tag.decode bytes).bind fun head =>
    (enumeration.variants[head.1.toNat]?).bind fun variant =>
      (variant.codec.decode head.2).map fun found => (variant.build found.1, found.2)
  decode_encode value rest fits := by
    obtain ⟨first, variant, last, payload, split, found⟩ := enumeration.exists_split value
    have member : variant ∈ enumeration.variants := by
      rw [split]
      exact List.mem_append_right _ List.mem_cons_self
    have listed : enumeration.variants[first.length]? = some variant := by
      rw [split, List.getElem?_append_right (Nat.le_refl _), Nat.sub_self, List.getElem?_cons_zero]
    rw [enumeration.encodeFrom_variants tag split found, List.append_assoc,
      tag.decode_encode _ _ (tag.total _), Option.bind_some, enumeration.toNat_index split, listed,
      Option.bind_some, variant.codec.decode_encode _ _ (fits variant member payload found),
      Option.map_some, ← (variant.project_eq_some _ _).mp found]
  decode_fits bytes value rest decoded := by
    obtain ⟨head, tagged, decoded⟩ := Option.bind_eq_some_iff.mp decoded
    obtain ⟨variant, listed, decoded⟩ := Option.bind_eq_some_iff.mp decoded
    obtain ⟨found, reached, same⟩ := Option.map_eq_some_iff.mp decoded
    cases same
    intro other member payload projected
    have built := variant.project_build found.1
    have one := enumeration.unique member (List.mem_of_getElem? listed)
      (Option.isSome_of_mem projected)
      (Option.isSome_of_mem built)
    subst one
    rw [built] at projected
    cases projected
    exact other.codec.decode_fits _ _ _ reached

/-- An enumeration is exact at a value when the variant of the value is exact at its payload. -/
theorem codec_exactAt {tag : PrimitiveCodec UInt32} {value : α}
    (exact : ∀ variant ∈ enumeration.variants, ∀ payload, variant.project value = some payload →
      variant.codec.ExactAt payload) : (enumeration.codec tag).ExactAt value := by
  intro bytes rest decoded
  obtain ⟨head, marked, decoded⟩ := Option.bind_eq_some_iff.mp decoded
  obtain ⟨variant, listed, decoded⟩ := Option.bind_eq_some_iff.mp decoded
  obtain ⟨found, reached, same⟩ := Option.map_eq_some_iff.mp decoded
  cases same
  obtain ⟨inside, there⟩ := List.getElem?_eq_some_iff.mp listed
  have split : enumeration.variants = enumeration.variants.take head.1.toNat ++
      variant :: enumeration.variants.drop (head.1.toNat + 1) := by
    rw [← there, List.cons_getElem_drop_succ, List.take_append_drop]
  have written : (enumeration.codec tag).encode (variant.build found.1) = _ :=
    enumeration.encodeFrom_variants tag split (variant.project_build found.1)
  rw [written, List.length_take, Nat.min_eq_left inside.le, UInt32.ofNat_toNat, List.append_assoc,
    tag.exact _ _ _ marked,
    exact variant (List.mem_of_getElem? listed) _ (variant.project_build found.1) _ _ reached]

theorem codec_exact {tag : PrimitiveCodec UInt32}
    (exact : ∀ variant ∈ enumeration.variants, variant.codec.Exact) :
    (enumeration.codec tag).Exact :=
  Codec.exact_iff.mpr fun _ => enumeration.codec_exactAt fun variant listed payload _ =>
    (exact variant listed).exactAt payload

end Enumeration

section

variable {α β : Type} [LT α] [LT β]

omit [LT β] in
/-- Lists with parts of one length are in the order of their first parts and then of the others. -/
theorem append_lt_append_iff {first second left right : List α}
    (same : first.length = second.length) :
    first ++ left < second ++ right ↔ first < second ∨ first = second ∧ left < right := by
  induction first generalizing second with
  | nil =>
      rw [List.length_nil, eq_comm, List.length_eq_zero_iff] at same
      rw [same]
      simp
  | cons head first ih =>
      cases second with
      | nil => cases same
      | cons other second =>
          have shorter := ih (Nat.succ.inj same)
          rw [List.cons_append, List.cons_append, List.cons_lt_cons_iff, List.cons_lt_cons_iff,
            shorter, List.cons.injEq]
          tauto

/-- An order of the items gives the order of the lists. -/
theorem map_lt_map_iff {project : α → β}
    (mono : ∀ left right, project left < project right ↔ left < right)
    (injective : Function.Injective project) {first second : List α} :
    first.map project < second.map project ↔ first < second := by
  induction first generalizing second with
  | nil => cases second <;> simp
  | cons head first ih =>
      cases second with
      | nil => simp
      | cons other second =>
          rw [List.map_cons, List.map_cons, List.cons_lt_cons_iff, List.cons_lt_cons_iff, ih, mono,
            injective.eq_iff]

end

namespace Codec

variable {K V : Type} [LinearOrder K]

/-- A hash map is written in its iteration order. A repeated key keeps its last value. -/
def hashMap (order : HashOrder K V) (length : PrimitiveCodec UInt64)
    (codec : Codec (K × V)) : Codec (HashMap K V) where
  Fits map := (vector length codec).Fits (order.iter map)
  encode map := (vector length codec).encode (order.iter map)
  decode bytes := ((vector length codec).decode bytes).map
    fun found => (Database.putAll ∅ found.1, found.2)
  decode_encode map rest fits := by
    rw [(vector length codec).decode_encode _ _ fits, Option.map_some, order.putAll_iter]
  decode_fits bytes map rest decoded := by
    obtain ⟨found, reached, same⟩ := Option.map_eq_some_iff.mp decoded
    cases same
    obtain ⟨bounded, fits⟩ := (vector length codec).decode_fits _ _ _ reached
    have origin : ∀ entry ∈ order.iter (Database.putAll ∅ found.1), entry ∈ found.1 := by
      intro entry member
      rcases Database.putAll_origin (order.mem_iter.mp member) with listed | none
      · exact listed
      · rw [Std.ExtTreeMap.getElem?_empty] at none
        cases none
    have distinct : (order.iter (Database.putAll ∅ found.1)).Nodup :=
      List.Nodup.of_map Prod.fst (order.keys_nodup _)
    exact ⟨(List.subperm_of_subset distinct origin).length_le.trans_lt bounded,
      fun entry member => fits entry (origin entry member)⟩

end Codec

end Foundation
