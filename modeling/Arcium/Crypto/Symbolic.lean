import Arcium.Crypto.TwoParty

/-!
# Symbolic primitives

Primitives that meet `Ideal` and `AeadCorrect`: keys are terms over the KDFs, a DH secret is its own
public key, a shared secret is the unordered pair of public keys, and a ciphertext is the message
followed by a tag of the key, the nonce and the associated data. They show that the assumptions are
consistent, and they make runs of the model computable.
-/

namespace Arcium

/-- The unordered pair of two keys, as an ordered one. -/
def sortPair (a b : Bytes32) : Bytes32 × Bytes32 := if a.val ≤ b.val then (a, b) else (b, a)

theorem sortPair_comm (a b : Bytes32) : sortPair a b = sortPair b a := by
  unfold sortPair
  by_cases h : a.val ≤ b.val <;> by_cases h' : b.val ≤ a.val
  · rw [Subtype.ext (List.le_antisymm h h')]
  · rw [if_pos h, if_neg h']
  · rw [if_neg h, if_pos h']
  · rcases List.le_total a.val b.val with h1 | h1
    · exact absurd h1 h
    · exact absurd h1 h'

theorem sortPair_inj {a b c d : Bytes32} (h : sortPair a b = sortPair c d) :
    (a = c ∧ b = d) ∨ (a = d ∧ b = c) := by
  unfold sortPair at h
  split at h <;> split at h <;> obtain ⟨h1, h2⟩ := Prod.mk.inj h
  · exact .inl ⟨h1, h2⟩
  · exact .inr ⟨h1, h2⟩
  · exact .inr ⟨h2, h1⟩
  · exact .inl ⟨h2, h1⟩

/-- Keys as terms. -/
inductive SymKey where
  /-- A root key that two parties agreed on. -/
  | root (n : Nat)
  /-- The first half of `kdf_rk`. -/
  | rootOf (k : SymKey) (s : Bytes32 × Bytes32)
  /-- The second half of `kdf_rk`. -/
  | chainOf (k : SymKey) (s : Bytes32 × Bytes32)
  | hmac (k : SymKey) (tag : UInt8)
  deriving DecidableEq

namespace SymKey

/-- The bytes of a key. -/
def bytes : SymKey → Bytes
  | root n => [0, UInt8.ofNat n]
  | rootOf k s => 1 :: (k.bytes ++ s.1.val ++ s.2.val)
  | chainOf k s => 2 :: (k.bytes ++ s.1.val ++ s.2.val)
  | hmac k tag => 3 :: tag :: k.bytes

end SymKey

/-- The tag of a ciphertext. -/
def symTag (key : SymKey) (nonce : Nonce) (aad : Bytes) : Bytes := key.bytes ++ nonce.val ++ aad

/-- The symbolic primitives. -/
def symbolic : Crypto where
  Key := SymKey
  Shared := Bytes32 × Bytes32
  publicKey secret := secret
  diffieHellman secret key := sortPair secret key
  hkdf k s := (.rootOf k s, .chainOf k s)
  hmac k tag := .hmac k tag
  cipherEncrypt key nonce msg aad := some (msg ++ symTag key nonce aad)
  cipherDecrypt key nonce ct aad :=
    if (symTag key nonce aad).isSuffixOf ct
    then some (ct.take (ct.length - (symTag key nonce aad).length)) else none

theorem symbolic_ideal (n : Nat) : Ideal symbolic (.root n) where
  dh_comm := sortPair_comm
  dh_inj _ _ _ _ h := sortPair_inj h
  hkdf_fst_inj _ _ _ _ h := SymKey.rootOf.inj h
  hkdf_snd_inj _ _ _ _ h := SymKey.chainOf.inj h
  hmac_inj _ _ _ _ h := SymKey.hmac.inj h
  hkdf_fst_ne _ _ := nofun
  hkdf_snd_ne_hmac _ _ _ _ := nofun

theorem symbolic_aeadCorrect : AeadCorrect symbolic := by
  intro key nonce msg aad ct h
  obtain rfl := Option.some.inj h
  have hs : (symTag key nonce aad).isSuffixOf (msg ++ symTag key nonce aad) = true := by
    rw [List.isSuffixOf_iff_suffix]
    exact List.suffix_append _ _
  show (if _ then _ else _) = _
  rw [if_pos hs, List.length_append, Nat.add_sub_cancel, List.take_left]

/-- Thirty-two bytes `n`. -/
def fill (n : UInt8) : Bytes32 := ⟨List.replicate 32 n, by simp⟩

/-- A nonce of bytes `n`. -/
def fillNonce (n : UInt8) : Nonce := ⟨List.replicate 24 n, by simp⟩

namespace Net

/-- Alice has sent the byte `7`. -/
def oneSent : Net symbolic :=
  (start symbolic (.root 0) (fill 1) (fill 2)).encrypt .alice [7] [] (fillNonce 3)

/-- Alice's message in `oneSent`. -/
def oneMessage : Encryption symbolic.Key :=
  let header : Header := { dh := fill 1, pn := 0, n := 0 }
  let chain : SymKey := .chainOf (.root 0) (fill 1, fill 2)
  { key := .hmac chain 1, header, ad := [], plaintext := [7], chain
    ciphertext := (fillNonce 3).val ++ ([7] ++ symTag (.hmac chain 1) (fillNonce 3) header.toBytes) }

/-- Bob has read it. -/
def oneRead : Net symbolic :=
  oneSent.decrypt .bob oneMessage.header oneMessage.ciphertext [] (fill 4)

variable {guard : UInt32 → Prop}

theorem reach_oneSent (h : guard 0) : Reach (C := symbolic) (SymKey.root 0) (fill 1) (fill 2) guard oneSent :=
  .encrypt _ _ _ _ (.start (by decide)) h

theorem reach_oneRead (h : guard 0) : Reach (C := symbolic) (SymKey.root 0) (fill 1) (fill 2) guard oneRead := by
  refine .decrypt .bob _ _ _ _ (reach_oneSent h) ?_ ?_
  · intro q
    cases q <;> decide
  · intro key hk pt hp
    have hk' : (oneSent.ratchet .bob).messageKey symbolic oneMessage.header (fill 4) =
        some oneMessage.key := by decide +kernel
    obtain rfl := Option.some.inj (hk'.symm.trans hk)
    have hp' : aeadDecrypt symbolic oneMessage.key oneMessage.ciphertext
        (concatAd [] oneMessage.header.toBytes) = .ok [7] := by decide +kernel
    obtain rfl := Except.ok.inj (hp'.symm.trans hp)
    exact ⟨.alice, oneMessage, List.mem_singleton.mpr rfl, rfl, rfl, rfl, rfl⟩

end Net

end Arcium
