import Arcium.Base.Bytes

/-!
# Records of fixed-width fields

A `Codec` is an encoding of a type in a fixed number of bytes, exact in both directions. A record
format writes its fields one after the other and reads them at fixed offsets:

* `Codec.read_append`: what is read at the offset of a field is what was written there;
* `Codec.enc_read`: writing what was read at an offset gives the bytes that stand there, so a reader
  that looks at every byte accepts one encoding of a value at most.

* `Canonical`: so it is, whatever the format.

`chunks` cuts a byte string into pieces of one width, as `as_chunks` does (`chunks_flatMap`,
`flatten_chunks`).
-/

namespace Arcium

/-- `accepts b a`, that `b` is accepted for `a`, is that `b` is what `enc` writes of `a`, and that `D`
holds of `a`. -/
def Canonical {α : Type} (D : α → Prop) (enc : α → Bytes) (accepts : Bytes → α → Prop) : Prop :=
  ∀ b a, accepts b a ↔ D a ∧ b = enc a

/-- `b[off..off + n]`. -/
def slice (b : Bytes) (off n : Nat) : Bytes := (b.drop off).take n

theorem slice_length {b : Bytes} {off n : Nat} (h : off + n ≤ b.length) : (slice b off n).length = n := by
  rw [slice, List.length_take, List.length_drop]
  omega

theorem slice_append {a : Bytes} {off : Nat} (h : a.length = off) (b : Bytes) (n : Nat) :
    slice (a ++ b) off n = b.take n := by
  rw [slice, List.drop_left' h]

/-- A slice and the bytes after it are the bytes from an offset on. -/
theorem slice_append_drop (b : Bytes) {off n next : Nat} (h : off + n = next) :
    slice b off n ++ b.drop next = b.drop off := by
  rw [slice, ← h, ← List.drop_drop, List.take_append_drop]

/-- An encoding of `α` in `width` bytes, in which every such string of bytes encodes something. -/
structure Codec (α : Type) where
  width : Nat
  enc : α → Bytes
  dec : Bytes → α
  enc_length : ∀ a, (enc a).length = width
  dec_enc : ∀ a, dec (enc a) = a
  enc_dec : ∀ b, b.length = width → enc (dec b) = b

namespace Codec

variable {α : Type}

/-- The field at an offset. -/
def read (F : Codec α) (b : Bytes) (off : Nat) : α := F.dec (slice b off F.width)

theorem read_append (F : Codec α) {a : Bytes} {off : Nat} (h : a.length = off) (x : α) (rest : Bytes) :
    F.read (a ++ (F.enc x ++ rest)) off = x := by
  rw [read, slice_append h, List.take_left' (F.enc_length x), F.dec_enc]

theorem read_here (F : Codec α) (x : α) (rest : Bytes) : F.read (F.enc x ++ rest) 0 = x :=
  F.read_append (a := []) rfl x rest

theorem enc_read (F : Codec α) {b : Bytes} {off : Nat} (h : off + F.width ≤ b.length) :
    F.enc (F.read b off) = slice b off F.width := F.enc_dec _ (slice_length h)

/-- A field and the bytes after it are the bytes from its offset on. -/
theorem enc_read_append (F : Codec α) {b : Bytes} {off next : Nat} (h : off + F.width = next)
    (hl : next ≤ b.length) : F.enc (F.read b off) ++ b.drop next = b.drop off := by
  rw [F.enc_read (h ▸ hl)]
  exact slice_append_drop b h

/-- One byte. -/
def byte : Codec UInt8 where
  width := 1
  enc a := [a]
  dec b := b.headD 0
  enc_length _ := rfl
  dec_enc _ := rfl
  enc_dec b h := by
    obtain ⟨x, rfl⟩ := List.length_eq_one_iff.mp h
    rfl

theorem ofNat_eq (x : UInt8) {n : Nat} (h : n % 256 = x.toNat) : UInt8.ofNat n = x := by
  apply UInt8.toNat_inj.mp
  rw [UInt8.toNat_ofNat']
  exact h

/-- `u32::from_be_bytes` of four bytes. -/
def decBe32 : Bytes → UInt32
  | [a, b, c, d] => ofBe32 a b c d
  | _ => 0

theorem be32_ofBe32 (a b c d : UInt8) : be32 (ofBe32 a b c d) = [a, b, c, d] := by
  have ha := a.toNat_lt
  have hb := b.toNat_lt
  have hc := c.toNat_lt
  have hd := d.toNat_lt
  have hn : (ofBe32 a b c d).toNat =
      a.toNat * 2 ^ 24 + b.toNat * 2 ^ 16 + c.toNat * 2 ^ 8 + d.toNat := by
    rw [ofBe32, UInt32.toNat_ofNat', Nat.mod_eq_of_lt (by omega)]
  simp only [be32, hn, List.cons.injEq, and_true]
  refine ⟨ofNat_eq a ?_, ofNat_eq b ?_, ofNat_eq c ?_, ofNat_eq d ?_⟩ <;> omega

/-- `u32`, big-endian. -/
def u32 : Codec UInt32 where
  width := 4
  enc := be32
  dec := decBe32
  enc_length := be32_length
  dec_enc := ofBe32_be32
  enc_dec b h := by
    obtain ⟨a, b, c, d, rfl⟩ := List.length_eq_four.mp h
    exact be32_ofBe32 a b c d

/-- `u16::from_be_bytes` of two bytes. -/
def decBe16 : Bytes → UInt16
  | [a, b] => ofBe16 a b
  | _ => 0

theorem be16_ofBe16 (a b : UInt8) : be16 (ofBe16 a b) = [a, b] := by
  have ha := a.toNat_lt
  have hb := b.toNat_lt
  have hn : (ofBe16 a b).toNat = a.toNat * 2 ^ 8 + b.toNat := by
    rw [ofBe16, UInt16.toNat_ofNat', Nat.mod_eq_of_lt (by omega)]
  simp only [be16, hn, List.cons.injEq, and_true]
  refine ⟨ofNat_eq a ?_, ofNat_eq b ?_⟩ <;> omega

/-- `u16`, big-endian. -/
def u16 : Codec UInt16 where
  width := 2
  enc := be16
  dec := decBe16
  enc_length _ := rfl
  dec_enc := ofBe16_be16
  enc_dec b h := by
    obtain ⟨a, b, rfl⟩ := List.length_eq_two.mp h
    exact be16_ofBe16 a b

/-- The value of eight bytes. -/
def be64Nat (a b c d e f g h : UInt8) : Nat :=
  (a.toNat * 2 ^ 24 + b.toNat * 2 ^ 16 + c.toNat * 2 ^ 8 + d.toNat) * 2 ^ 32 +
    (e.toNat * 2 ^ 24 + f.toNat * 2 ^ 16 + g.toNat * 2 ^ 8 + h.toNat)

theorem ofBe64_eq (a b c d e f g h : UInt8) :
    ofBe64 [a, b, c, d, e, f, g, h] = UInt64.ofNat (be64Nat a b c d e f g h) := by
  unfold ofBe64 be64Nat
  simp only [List.foldl_cons, List.foldl_nil]
  refine congrArg UInt64.ofNat ?_
  omega

theorem be64_ofBe64 (a b c d e f g h : UInt8) :
    be64 (ofBe64 [a, b, c, d, e, f, g, h]) = [a, b, c, d, e, f, g, h] := by
  have ha := a.toNat_lt
  have hb := b.toNat_lt
  have hc := c.toNat_lt
  have hd := d.toNat_lt
  have he := e.toNat_lt
  have hf := f.toNat_lt
  have hg := g.toNat_lt
  have hh := h.toNat_lt
  have hn : (ofBe64 [a, b, c, d, e, f, g, h]).toNat = be64Nat a b c d e f g h := by
    rw [ofBe64_eq, UInt64.toNat_ofNat', Nat.mod_eq_of_lt]
    unfold be64Nat
    omega
  simp only [be64, hn, List.cons.injEq, and_true]
  unfold be64Nat
  refine ⟨ofNat_eq a ?_, ofNat_eq b ?_, ofNat_eq c ?_, ofNat_eq d ?_, ofNat_eq e ?_, ofNat_eq f ?_,
    ofNat_eq g ?_, ofNat_eq h ?_⟩ <;> omega

theorem ofBe64_be64 (n : UInt64) : ofBe64 (be64 n) = n := by
  have hn := n.toNat_lt
  rw [be64, ofBe64_eq]
  apply UInt64.toNat_inj.mp
  unfold be64Nat
  simp only [UInt64.toNat_ofNat', UInt8.toNat_ofNat']
  omega

/-- `u64`, big-endian. -/
def u64 : Codec UInt64 where
  width := 8
  enc := be64
  dec := ofBe64
  enc_length _ := rfl
  dec_enc := ofBe64_be64
  enc_dec b h := by
    match b, h with
    | [a, b, c, d, e, f, g, h], _ => exact be64_ofBe64 a b c d e f g h

/-- `n` bytes as they are. -/
def raw (n : Nat) : Codec { b : Bytes // b.length = n } where
  width := n
  enc a := a.val
  dec b := ⟨(b ++ List.replicate n 0).take n, by
    rw [List.length_take, List.length_append, List.length_replicate]
    omega⟩
  enc_length a := a.property
  dec_enc a := Subtype.ext (List.take_left' a.property)
  enc_dec b h := List.take_left' h

/-- Thirty-two bytes. -/
def bytes32 : Codec Bytes32 := raw 32

/-- Two fields, one after the other. -/
def prod {β : Type} (F : Codec α) (G : Codec β) : Codec (α × β) where
  width := F.width + G.width
  enc x := F.enc x.1 ++ G.enc x.2
  dec b := (F.read b 0, G.read b F.width)
  enc_length x := by rw [List.length_append, F.enc_length, G.enc_length]
  dec_enc x := by
    have h2 := G.read_append (F.enc_length x.1) x.2 []
    rw [List.append_nil] at h2
    rw [F.read_here, h2]
  enc_dec b h := by
    have h1 := F.enc_read_append (b := b) (Nat.zero_add F.width) (by omega)
    have h2 := G.enc_read_append h.symm (Nat.le_refl b.length)
    rw [List.drop_length, List.append_nil] at h2
    rw [h2]
    exact h1

/-! ## Reading what was written -/

theorem drop_past (F : Codec α) (x : α) (rest : Bytes) {off : Nat} (h : F.width ≤ off) :
    (F.enc x ++ rest).drop off = rest.drop (off - F.width) := by
  rw [List.drop_append, F.enc_length, List.drop_eq_nil_of_le (by rw [F.enc_length]; exact h),
    List.nil_append]

theorem slice_past (F : Codec α) (x : α) (rest : Bytes) {off : Nat} (h : F.width ≤ off) (n : Nat) :
    slice (F.enc x ++ rest) off n = slice rest (off - F.width) n := by
  rw [slice, F.drop_past x rest h, slice]

/-- A read past a field reads what comes after it. -/
theorem read_past {β : Type} (F : Codec α) (G : Codec β) (x : β) (rest : Bytes) {off : Nat}
    (h : G.width ≤ off) : F.read (G.enc x ++ rest) off = F.read rest (off - G.width) := by
  rw [read, G.slice_past x rest h, read]

theorem slice_here {n : Nat} (x : { b : Bytes // b.length = n }) (rest : Bytes) :
    slice ((raw n).enc x ++ rest) 0 n = x.val := by
  rw [slice, List.drop_zero]
  exact List.take_left' x.property

@[simp] theorem raw_width (n : Nat) : (raw n).width = n := rfl

@[simp] theorem byte_width : byte.width = 1 := rfl

@[simp] theorem u16_width : u16.width = 2 := rfl

@[simp] theorem u32_width : u32.width = 4 := rfl

@[simp] theorem u64_width : u64.width = 8 := rfl

@[simp] theorem bytes32_width : bytes32.width = 32 := rfl

end Codec

/-! ## Pieces of one width -/

/-- `as_chunks`: the whole pieces of `width` bytes. -/
def chunks (width : Nat) (b : Bytes) : List Bytes :=
  (List.range (b.length / width)).map fun i => slice b (i * width) width

theorem chunks_length (width : Nat) (b : Bytes) : (chunks width b).length = b.length / width := by
  rw [chunks, List.length_map, List.length_range]

theorem length_of_mem_chunks {width : Nat} {b c : Bytes} (h : c ∈ chunks width b) :
    c.length = width := by
  obtain ⟨i, hi, rfl⟩ := List.mem_map.mp h
  apply slice_length
  have hi := List.mem_range.mp hi
  calc i * width + width = (i + 1) * width := by rw [Nat.succ_mul]
    _ ≤ b.length / width * width := Nat.mul_le_mul_right _ hi
    _ ≤ b.length := Nat.div_mul_le_self _ _

/-- The pieces of a string of whole pieces are the string. -/
theorem flatten_chunks {width count : Nat} {b : Bytes} (hw : 0 < width)
    (h : b.length = width * count) : (chunks width b).flatten = b := by
  have htake : ∀ n, ((List.range n).map fun i => slice b (i * width) width).flatten =
      b.take (n * width) := by
    intro n
    induction n with
    | zero => rw [Nat.zero_mul]; rfl
    | succ n ih =>
      rw [List.range_succ, List.map_append, List.flatten_append, ih, Nat.succ_mul, List.take_add]
      simp [slice]
  rw [chunks, htake, h, Nat.mul_div_cancel_left _ hw, Nat.mul_comm, ← h, List.take_length]

namespace Codec

variable {α : Type}

theorem flatMap_length (F : Codec α) (l : List α) :
    (l.flatMap F.enc).length = F.width * l.length := by
  induction l with
  | nil => rfl
  | cons x l ih =>
    rw [List.flatMap_cons, List.length_append, ih, F.enc_length, List.length_cons, Nat.mul_succ,
      Nat.add_comm]

theorem slice_flatMap (F : Codec α) (l : List α) (i : Nat) (h : i < l.length) :
    slice (l.flatMap F.enc) (i * F.width) F.width = F.enc l[i] := by
  induction l generalizing i with
  | nil => cases h
  | cons x l ih =>
    rw [List.flatMap_cons]
    cases i with
    | zero => rw [Nat.zero_mul, slice, List.drop_zero, List.take_left' (F.enc_length x)]; rfl
    | succ i =>
      rw [slice, Nat.succ_mul, Nat.add_comm, ← List.drop_drop, List.drop_left' (F.enc_length x)]
      exact ih i (Nat.lt_of_succ_lt_succ h)

/-- The pieces of a string of fields are the fields. -/
theorem chunks_flatMap (F : Codec α) (hw : 0 < F.width) (l : List α) :
    chunks F.width (l.flatMap F.enc) = l.map F.enc := by
  apply List.ext_getElem
  · rw [chunks_length, F.flatMap_length, Nat.mul_div_cancel_left _ hw, List.length_map]
  · intro i h1 h2
    rw [List.length_map] at h2
    simp only [chunks, List.getElem_map, List.getElem_range]
    exact F.slice_flatMap l i h2

/-- Writing what was read from pieces gives the pieces. -/
theorem flatMap_dec (F : Codec α) {pieces : List Bytes} (h : ∀ c ∈ pieces, c.length = F.width) :
    (pieces.map F.dec).flatMap F.enc = pieces.flatten := by
  rw [List.flatMap_map, List.flatten_eq_flatMap]
  exact List.flatMap_congr fun c hc => F.enc_dec c (h c hc)

end Codec

end Arcium
