import Arcium.Base.Codec

/-!
# Little-endian numbers

`leBytes w n`: the lowest `w` bytes of `n`, the lowest first. `ofLe`: the number that bytes are.
`Codec.littleEndian w`: numbers of `w` bytes are a codec.
-/

namespace Arcium

/-- The lowest `w` bytes of `n`. -/
def leBytes : (w n : Nat) → Bytes
  | 0, _ => []
  | w + 1, n => UInt8.ofNat n :: leBytes w (n / 256)

/-- The number that bytes are. -/
def ofLe : Bytes → Nat
  | [] => 0
  | b :: bytes => b.toNat + 256 * ofLe bytes

theorem leBytes_length (w n : Nat) : (leBytes w n).length = w := by
  induction w generalizing n with
  | zero => rfl
  | succ w ih => rw [leBytes, List.length_cons, ih]

theorem ofLe_leBytes (w n : Nat) : ofLe (leBytes w n) = n % 256 ^ w := by
  induction w generalizing n with
  | zero => rw [leBytes, ofLe, Nat.pow_zero, Nat.mod_one]
  | succ w ih =>
    rw [Nat.pow_succ, Nat.mul_comm (256 ^ w) 256, Nat.mod_mul, leBytes, ofLe, ih, UInt8.toNat_ofNat']

theorem ofLe_lt (bytes : Bytes) : ofLe bytes < 256 ^ bytes.length := by
  induction bytes with
  | nil => decide
  | cons b bytes ih =>
    have hb := b.toNat_lt
    rw [ofLe, List.length_cons, Nat.pow_succ]
    omega

theorem leBytes_ofLe (bytes : Bytes) : leBytes bytes.length (ofLe bytes) = bytes := by
  induction bytes with
  | nil => rfl
  | cons b bytes ih =>
    have hb := b.toNat_lt
    have hhead : UInt8.ofNat (b.toNat + 256 * ofLe bytes) = b := by
      apply UInt8.toNat_inj.mp
      rw [UInt8.toNat_ofNat']
      omega
    have hrest : (b.toNat + 256 * ofLe bytes) / 256 = ofLe bytes := by omega
    rw [List.length_cons, ofLe, leBytes, hhead, hrest, ih]

/-- Numbers of `w` bytes. -/
def Codec.littleEndian (w : Nat) : Codec (Fin (256 ^ w)) where
  width := w
  enc n := leBytes w n
  dec b := ⟨ofLe b % 256 ^ w, Nat.mod_lt _ (Nat.pow_pos (by decide))⟩
  enc_length n := leBytes_length w n
  dec_enc n := by
    have h : ofLe (leBytes w n) % 256 ^ w = n := by
      rw [ofLe_leBytes, Nat.mod_mod, Nat.mod_eq_of_lt n.2]
    exact Fin.ext h
  enc_dec b h := by
    have hlt := ofLe_lt b
    rw [h] at hlt
    dsimp only
    rw [Nat.mod_eq_of_lt hlt, ← h, leBytes_ofLe]

@[simp] theorem Codec.littleEndian_width (w : Nat) : (Codec.littleEndian w).width = w := rfl

end Arcium
