import Mathlib.Data.List.Basic
import Mathlib.Algebra.Group.Nat.Defs

/-!
# Byte strings and big-endian integers

`Bytes` is the model of `Vec<u8>` and `&[u8]`; `Bytes32` is `[u8; 32]`, the type of every public
key, secret scalar and message id of the repository: its length is part of the type.

`be16`, `be32` and `be64` are `to_be_bytes` of `u16`, `u32` and `u64`; `ofBe32` is
`u32::from_be_bytes` on exactly four bytes, `ofBe64` and `ofLe64` are `u64::from_be_bytes` and
`u64::from_le_bytes` on any number of bytes.
-/

namespace Arcium

abbrev Bytes := List UInt8

/-- `[u8; 32]`. -/
abbrev Bytes32 := { b : Bytes // b.length = 32 }

instance : Inhabited Bytes32 := ⟨⟨List.replicate 32 0, by simp⟩⟩

/-- `b[..32]` as `[u8; 32]`, if `b` has 32 bytes. -/
def take32 (b : Bytes) : Option Bytes32 :=
  if h : (b.take 32).length = 32 then some ⟨b.take 32, h⟩ else none

theorem take32_append (a : Bytes32) (b : Bytes) : take32 (a.val ++ b) = some a := by
  have h : (a.val ++ b).take 32 = a.val := List.take_left' a.property
  unfold take32
  simp only [h, a.property, dite_true]

theorem take32_some {bytes : Bytes} {a : Bytes32} (h : take32 bytes = some a) :
    bytes = a.val ++ bytes.drop 32 := by
  unfold take32 at h
  split at h
  · rw [← Option.some.inj h]
    exact (List.take_append_drop 32 bytes).symm
  · cases h

/-- `u32::to_be_bytes`. -/
def be32 (n : UInt32) : Bytes :=
  [UInt8.ofNat (n.toNat / 2 ^ 24), UInt8.ofNat (n.toNat / 2 ^ 16), UInt8.ofNat (n.toNat / 2 ^ 8),
    UInt8.ofNat n.toNat]

/-- `u32::from_be_bytes`. -/
def ofBe32 (a b c d : UInt8) : UInt32 :=
  UInt32.ofNat (a.toNat * 2 ^ 24 + b.toNat * 2 ^ 16 + c.toNat * 2 ^ 8 + d.toNat)

theorem be32_length (n : UInt32) : (be32 n).length = 4 := rfl

theorem ofBe32_be32 (n : UInt32) :
    ofBe32 (UInt8.ofNat (n.toNat / 2 ^ 24)) (UInt8.ofNat (n.toNat / 2 ^ 16))
      (UInt8.ofNat (n.toNat / 2 ^ 8)) (UInt8.ofNat n.toNat) = n := by
  have hn := n.toNat_lt
  unfold ofBe32
  apply UInt32.toNat_inj.mp
  simp only [UInt32.toNat_ofNat', UInt8.toNat_ofNat']
  omega

/-- `u16::to_be_bytes`. -/
def be16 (n : UInt16) : Bytes := [UInt8.ofNat (n.toNat / 2 ^ 8), UInt8.ofNat n.toNat]

/-- `u16::from_be_bytes`. -/
def ofBe16 (a b : UInt8) : UInt16 := UInt16.ofNat (a.toNat * 2 ^ 8 + b.toNat)

theorem ofBe16_be16 (n : UInt16) : ofBe16 (UInt8.ofNat (n.toNat / 2 ^ 8)) (UInt8.ofNat n.toNat) = n := by
  have hn := n.toNat_lt
  unfold ofBe16
  apply UInt16.toNat_inj.mp
  simp only [UInt16.toNat_ofNat', UInt8.toNat_ofNat']
  omega

/-- `u64::to_be_bytes`. -/
def be64 (n : UInt64) : Bytes :=
  [UInt8.ofNat (n.toNat / 2 ^ 56), UInt8.ofNat (n.toNat / 2 ^ 48), UInt8.ofNat (n.toNat / 2 ^ 40),
    UInt8.ofNat (n.toNat / 2 ^ 32), UInt8.ofNat (n.toNat / 2 ^ 24), UInt8.ofNat (n.toNat / 2 ^ 16),
    UInt8.ofNat (n.toNat / 2 ^ 8), UInt8.ofNat n.toNat]

/-- `u64::from_be_bytes`. -/
def ofBe64 (b : Bytes) : UInt64 := UInt64.ofNat (b.foldl (fun n x => n * 2 ^ 8 + x.toNat) 0)

/-- `u64::from_le_bytes`. -/
def ofLe64 (b : Bytes) : UInt64 := ofBe64 b.reverse

end Arcium
