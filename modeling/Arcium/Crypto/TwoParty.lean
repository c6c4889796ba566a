import Arcium.Crypto.RatchetSpec
import Mathlib.Logic.Function.Basic

/-!
# Two ratchets and an active network

Alice (`init_alice`) and Bob (`init_bob`) start from one root key and Bob's initial DH key. A run
(`Net.Reach`) is any sequence of encryptions and of decryptions of arbitrary headers, ciphertexts
and associated data: the network drops, duplicates, reorders, replays and injects.

`Net` is the pair of ratchets with a log of what happened (`sent`, `accepted`, `dhKeys`,
`evicted`); no function of the ratchet reads the log.

The assumptions on the primitives:

* `Ideal`: DH is commutative and injective in the pair of public keys; the KDFs have no collisions,
  and the root key is none of their outputs.
* `Net.Unforged`, at each decryption: the AEAD opens only what was sealed under that key and that
  associated data.
* `Net.Fresh`, at each decryption: the fresh DH key was not used before.
-/

namespace Arcium

inductive Party where
  | alice
  | bob
  deriving DecidableEq, Repr

namespace Party

def other : Party → Party
  | alice => bob
  | bob => alice

@[simp] theorem other_other (p : Party) : p.other.other = p := by cases p <;> rfl

theorem ne_other (p : Party) : p ≠ p.other := by cases p <;> decide

theorem eq_or_eq_other (p q : Party) : q = p ∨ q = p.other := by cases p <;> cases q <;> decide

end Party

/-- A message and the key its ciphertext is under. -/
structure Message (K : Type) where
  key : K
  header : Header
  ad : Bytes
  plaintext : Bytes
  ciphertext : Bytes
  deriving DecidableEq

/-- A message as its sender logged it: with the chain key it was sent from. -/
structure Encryption (K : Type) extends Message K where
  chain : K
  deriving DecidableEq

/-- Both ratchets, and the log of the run, newest first. -/
structure Net (C : Crypto) where
  ratchet : Party → DoubleRatchet C.Key
  /-- What each party encrypted. -/
  sent : Party → List (Encryption C.Key)
  /-- What each party decrypted. -/
  accepted : Party → List (Message C.Key)
  /-- The DH keys each party has had. -/
  dhKeys : Party → List PublicKey
  /-- The message keys each party's `trim_skipped` dropped. -/
  evicted : Party → List C.Key

/-- The assumptions on DH and on the KDFs, for the root key `sk`. -/
structure Ideal (C : Crypto) (sk : C.Key) : Prop where
  dh_comm : ∀ a b, C.diffieHellman a (C.publicKey b) = C.diffieHellman b (C.publicKey a)
  dh_inj : ∀ a x b c, C.diffieHellman a x = C.diffieHellman b (C.publicKey c) →
    (C.publicKey a = C.publicKey b ∧ x = C.publicKey c) ∨
      (C.publicKey a = C.publicKey c ∧ x = C.publicKey b)
  hkdf_fst_inj : ∀ k s k' s', (C.hkdf k s).1 = (C.hkdf k' s').1 → k = k' ∧ s = s'
  hkdf_snd_inj : ∀ k s k' s', (C.hkdf k s).2 = (C.hkdf k' s').2 → k = k' ∧ s = s'
  hmac_inj : ∀ k t k' t', C.hmac k t = C.hmac k' t' → k = k' ∧ t = t'
  hkdf_fst_ne : ∀ k s, (C.hkdf k s).1 ≠ sk
  hkdf_snd_ne_hmac : ∀ k s k' t, (C.hkdf k s).2 ≠ C.hmac k' t

/-- The AEAD opens what it sealed. -/
def AeadCorrect (C : Crypto) : Prop :=
  ∀ key nonce msg aad ct, C.cipherEncrypt key nonce msg aad = some ct →
    C.cipherDecrypt key nonce ct aad = some msg

theorem AeadCorrect.decrypt {C : Crypto} (hc : AeadCorrect C) {key : C.Key} {nonce : Nonce}
    {pt ad ct : Bytes} (h : aeadEncrypt C key nonce pt ad = .ok ct) :
    aeadDecrypt C key ct ad = .ok pt := by
  unfold aeadEncrypt at h
  split at h
  · next c hs =>
    cases h
    have hl : (nonce.val ++ c).take nonceSize = nonce.val := List.take_left' nonce.property
    have hd : (nonce.val ++ c).drop nonceSize = c := List.drop_left' nonce.property
    unfold aeadDecrypt
    simp only [hl, hd, nonce.property, dite_true]
    rw [hc _ _ _ _ _ hs]
  · cases h

namespace DoubleRatchet

variable {C : Crypto} {K : Type}

/-- The keys that `trim_skipped` drops. -/
def trimEvicted (r : DoubleRatchet K) : List K :=
  (r.skipped.entries.take (r.skipped.len - r.maxSkipped)).map Prod.snd

/-- The keys that `skip_message_keys` evicts. -/
def skipEvicted (C : Crypto) (stop : UInt32) (r : DoubleRatchet C.Key) : List C.Key :=
  match r.ckr, r.dhr with
  | some ck, some dhr => trimEvicted (skipTo C dhr ck stop r)
  | _, _ => []

/-- The keys that a successful `decrypt` evicts. -/
def decryptEvicted (C : Crypto) (header : Header) (fresh : StaticSecret)
    (r : DoubleRatchet C.Key) : List C.Key :=
  if (r.skipped.get? (header.dh, header.n)).isSome then []
  else
    skipEvicted C header.n (switchChain C header fresh r).2 ++
      if r.dhr = some header.dh then [] else skipEvicted C header.pn r

end DoubleRatchet

namespace Net

variable (C : Crypto)

open Function (update)

/-- The start: both parties know `sk`, and Alice the public key of Bob's `b`. -/
def start (sk : C.Key) (a b : StaticSecret) : Net C where
  ratchet
    | .alice => .initAlice C sk (C.publicKey b) a
    | .bob => .initBob C sk b
  sent _ := []
  accepted _ := []
  dhKeys
    | .alice => [C.publicKey a]
    | .bob => [C.publicKey b]
  evicted _ := []

variable {C}

/-- Party `p` calls `encrypt`. -/
def encrypt (p : Party) (pt ad : Bytes) (nonce : Nonce) (net : Net C) : Net C :=
  match (net.ratchet p).cks, (net.ratchet p).encrypt C pt ad nonce with
  | some chain, (.ok (header, ciphertext), r) =>
    { net with
      ratchet := update net.ratchet p r
      sent := update net.sent p ({ key := (kdfCk C chain).2, header, ad, plaintext := pt, ciphertext,
                                   chain } :: net.sent p) }
  | _, (_, r) => { net with ratchet := update net.ratchet p r }

/-- Party `p` calls `decrypt` on what the network gave it. -/
def decrypt (p : Party) (header : Header) (ciphertext ad : Bytes) (fresh : StaticSecret)
    (net : Net C) : Net C :=
  let r := net.ratchet p
  match r.messageKey C header fresh, r.decrypt C header ciphertext ad fresh with
  | some key, (.ok plaintext, r') =>
    { net with
      ratchet := update net.ratchet p r'
      accepted := update net.accepted p
        ({ key, header, ad, plaintext, ciphertext } :: net.accepted p)
      dhKeys := if (r.skipped.get? (header.dh, header.n)).isSome ∨ r.dhr = some header.dh
        then net.dhKeys
        else update net.dhKeys p (C.publicKey fresh :: net.dhKeys p)
      evicted := update net.evicted p (r.decryptEvicted C header fresh ++ net.evicted p) }
  | _, (_, r') => { net with ratchet := update net.ratchet p r' }

/-- The AEAD opens `ciphertext` under `key` and `aad` only if some party sealed it so. -/
def Unforged (net : Net C) (key : C.Key) (ciphertext aad : Bytes) : Prop :=
  ∀ pt, aeadDecrypt C key ciphertext aad = .ok pt →
    ∃ q, ∃ m ∈ net.sent q, m.key = key ∧ m.ciphertext = ciphertext ∧
      concatAd m.ad m.header.toBytes = aad ∧ m.plaintext = pt

/-- No party has had this DH key. -/
def Fresh (net : Net C) (fresh : StaticSecret) : Prop := ∀ q, C.publicKey fresh ∉ net.dhKeys q

/-- The states of every run from `start`. The caller of `encrypt` may refuse to encrypt at some
message numbers: those where `guard` does not hold. -/
inductive Reach (sk : C.Key) (a b : StaticSecret) (guard : UInt32 → Prop) : Net C → Prop
  | start : C.publicKey a ≠ C.publicKey b → Reach sk a b guard (Net.start C sk a b)
  | encrypt {net : Net C} (p : Party) (pt ad : Bytes) (nonce : Nonce) :
      Reach sk a b guard net → guard (net.ratchet p).ns →
      Reach sk a b guard (net.encrypt p pt ad nonce)
  | decrypt {net : Net C} (p : Party) (header : Header) (ct ad : Bytes) (fresh : StaticSecret) :
      Reach sk a b guard net → net.Fresh fresh →
      (∀ key, (net.ratchet p).messageKey C header fresh = some key →
        net.Unforged key ct (concatAd ad header.toBytes)) →
      Reach sk a b guard (net.decrypt p header ct ad fresh)

end Net

/-! ## Positions of chains have different keys -/

namespace Ideal

variable {C : Crypto} {sk : C.Key} (hI : Ideal C sk)

include hI

theorem kdfCk_fst_inj {k k' : C.Key} (h : (kdfCk C k).1 = (kdfCk C k').1) : k = k' :=
  (hI.hmac_inj _ _ _ _ h).1

theorem kdfCk_snd_inj {k k' : C.Key} (h : (kdfCk C k).2 = (kdfCk C k').2) : k = k' :=
  (hI.hmac_inj _ _ _ _ h).1

/-- Two chains that start at outputs of `kdf_rk` meet only if they are the same chain, and then
only at the same position. -/
theorem ckAt_inj {k k' : C.Key} {s s' : C.Shared} {j j' : Nat}
    (h : ckAt C (kdfRk C k s).2 j = ckAt C (kdfRk C k' s').2 j') : (k = k' ∧ s = s') ∧ j = j' := by
  induction j generalizing j' with
  | zero =>
    cases j' with
    | zero => exact ⟨hI.hkdf_snd_inj _ _ _ _ h, rfl⟩
    | succ j' =>
      rw [ckAt_succ] at h
      exact absurd h (hI.hkdf_snd_ne_hmac _ _ _ _)
  | succ j ih =>
    cases j' with
    | zero =>
      rw [ckAt_succ] at h
      exact absurd h.symm (hI.hkdf_snd_ne_hmac _ _ _ _)
    | succ j' =>
      rw [ckAt_succ, ckAt_succ] at h
      obtain ⟨hk, hj⟩ := ih (hI.kdfCk_fst_inj h)
      exact ⟨hk, by rw [hj]⟩

theorem mkAt_inj {k k' : C.Key} {s s' : C.Shared} {j j' : Nat}
    (h : mkAt C (kdfRk C k s).2 j = mkAt C (kdfRk C k' s').2 j') : (k = k' ∧ s = s') ∧ j = j' :=
  hI.ckAt_inj (hI.kdfCk_snd_inj h)

end Ideal

end Arcium
