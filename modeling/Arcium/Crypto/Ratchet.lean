import Arcium.Base.Bytes
import Arcium.Base.IndexMap

/-!
# The Double Ratchet (`core-crypto/src/ratchet.rs`)

A shallow embedding of `DoubleRatchet`: every function is the source's function, with `&mut self`
as a state passed in and out. A function that can fail returns the state it leaves behind on
failure too (`Outcome`), since `decrypt_inner` mutates the ratchet before it knows whether the
message authenticates; `decrypt` is what rolls that back.

The cryptographic primitives (`x25519-dalek`, `hkdf`, `hmac`, `chacha20poly1305`) are third-party
code: they are the functions of `Crypto`, a parameter of the model. Secret keys have an abstract
type `Key`, so that assuming them free of collisions is not contradictory. Randomness (`OsRng`)
is an argument: the fresh DH secret of a ratchet step, the nonce of an encryption.

Counters are `u32` with the wrapping arithmetic of a release build.
-/

namespace Arcium

abbrev PublicKey := Bytes32

abbrev StaticSecret := Bytes32

/-- An XChaCha20-Poly1305 nonce (`NONCE_SIZE` bytes). -/
abbrev Nonce := { b : Bytes // b.length = 24 }

/-- The third-party primitives. -/
structure Crypto where
  /-- Root, chain and message keys. -/
  Key : Type
  /-- X25519 shared secrets. -/
  Shared : Type
  [decKey : DecidableEq Key]
  /-- `PublicKey::from(&secret)`. -/
  publicKey : StaticSecret → PublicKey
  diffieHellman : StaticSecret → PublicKey → Shared
  /-- HKDF-SHA256 with info `DoubleRatchet/RootKDF/v1`, split into its two halves. -/
  hkdf : Key → Shared → Key × Key
  /-- `HMAC-SHA256(key, [tag])`. -/
  hmac : Key → UInt8 → Key
  /-- `XChaCha20Poly1305::encrypt` of `msg` under `key`, `nonce` and `aad`. -/
  cipherEncrypt : Key → Nonce → (msg aad : Bytes) → Option Bytes
  /-- `XChaCha20Poly1305::decrypt`. -/
  cipherDecrypt : Key → Nonce → (ct aad : Bytes) → Option Bytes

attribute [instance] Crypto.decKey

/-- `MAX_SKIP`. -/
def maxSkip : UInt32 := 1000

/-- `HEADER_SIZE`. -/
def headerSize : Nat := 40

/-- `NONCE_SIZE`. -/
def nonceSize : Nat := 24

inductive RatchetError where
  | decryption
  | skipLimit
  | invalidHeader
  | notInitialized
  deriving DecidableEq, Repr

/-- How a call ends when it does not return a value: an `Err`, or a panic. -/
inductive Abort where
  | error (e : RatchetError)
  | panic (msg : String)
  deriving DecidableEq, Repr

structure Header where
  dh : PublicKey
  pn : UInt32
  n : UInt32
  deriving DecidableEq

namespace Header

def toBytes (h : Header) : Bytes := h.dh.val ++ be32 h.pn ++ be32 h.n

def fromBytes (b : Bytes) : Except RatchetError Header :=
  match take32 b, b.drop 32 with
  | some dh, p0 :: p1 :: p2 :: p3 :: n0 :: n1 :: n2 :: n3 :: _ =>
    .ok { dh, pn := ofBe32 p0 p1 p2 p3, n := ofBe32 n0 n1 n2 n3 }
  | _, _ => .error .invalidHeader

theorem toBytes_length (h : Header) : h.toBytes.length = headerSize := by
  simp [toBytes, be32_length, h.dh.property, headerSize]

theorem fromBytes_toBytes (h : Header) (rest : Bytes) : fromBytes (h.toBytes ++ rest) = .ok h := by
  have h1 : take32 (h.toBytes ++ rest) = some h.dh := by
    simp only [toBytes, List.append_assoc]
    exact take32_append _ _
  have h2 : (h.toBytes ++ rest).drop 32 = be32 h.pn ++ (be32 h.n ++ rest) := by
    simp only [toBytes, List.append_assoc]
    exact List.drop_left' h.dh.property
  simp only [fromBytes, h1, h2, be32, List.cons_append, List.nil_append]
  rw [ofBe32_be32, ofBe32_be32]

theorem toBytes_injective {h h' : Header} (e : h.toBytes = h'.toBytes) : h = h' := by
  have h1 := fromBytes_toBytes h []
  rw [e, fromBytes_toBytes h' []] at h1
  exact (Except.ok.inj h1).symm

end Header

/-- `concat_ad`. -/
def concatAd (ad headerBytes : Bytes) : Bytes := ad ++ headerBytes

theorem concatAd_injective {ad ad' : Bytes} {h h' : Header}
    (e : concatAd ad h.toBytes = concatAd ad' h'.toBytes) : ad = ad' ∧ h = h' := by
  obtain ⟨e1, e2⟩ := List.append_inj' e (by rw [Header.toBytes_length, Header.toBytes_length])
  exact ⟨e1, Header.toBytes_injective e2⟩

section Kdf

variable (C : Crypto)

/-- `kdf_rk`: the new root key and the new chain key. -/
def kdfRk (rk : C.Key) (dhOut : C.Shared) : C.Key × C.Key := C.hkdf rk dhOut

/-- `kdf_ck`: the next chain key and the message key. -/
def kdfCk (ck : C.Key) : C.Key × C.Key := (C.hmac ck 2, C.hmac ck 1)

def aeadEncrypt (key : C.Key) (nonce : Nonce) (plaintext ad : Bytes) : Except RatchetError Bytes :=
  match C.cipherEncrypt key nonce plaintext ad with
  | some ct => .ok (nonce.val ++ ct)
  | none => .error .decryption

def aeadDecrypt (key : C.Key) (ctWithNonce ad : Bytes) : Except RatchetError Bytes :=
  if h : (ctWithNonce.take nonceSize).length = 24 then
    match C.cipherDecrypt key ⟨ctWithNonce.take nonceSize, h⟩ (ctWithNonce.drop nonceSize) ad with
    | some pt => .ok pt
    | none => .error .decryption
  else .error .decryption

end Kdf

/-- The state of a ratchet over keys of type `K`. -/
structure DoubleRatchet (K : Type) where
  /-- Our current DH secret. -/
  dhs : StaticSecret
  /-- The peer's last DH public key. -/
  dhr : Option PublicKey
  rk : K
  /-- The sending chain key. -/
  cks : Option K
  /-- The receiving chain key. -/
  ckr : Option K
  ns : UInt32
  nr : UInt32
  pn : UInt32
  skipped : IndexMap (PublicKey × UInt32) K
  maxSkipped : Nat
  deriving DecidableEq

/-- What a call on `&mut self` returns, and the state it leaves. -/
abbrev Outcome (K α : Type) := Except Abort α × DoubleRatchet K

/-- `RatchetSnapshot`: every field but `max_skipped`. -/
structure RatchetSnapshot (K : Type) where
  dhs : StaticSecret
  dhr : Option PublicKey
  rk : K
  cks : Option K
  ckr : Option K
  ns : UInt32
  nr : UInt32
  pn : UInt32
  skipped : IndexMap (PublicKey × UInt32) K

namespace DoubleRatchet

variable (C : Crypto)

/-- `init_alice`, with the fresh secret `dhs`. -/
def initAlice (sk : C.Key) (theirInitialDh : PublicKey) (dhs : StaticSecret) :
    DoubleRatchet C.Key :=
  let keys := kdfRk C sk (C.diffieHellman dhs theirInitialDh)
  { dhs, dhr := some theirInitialDh, rk := keys.1, cks := some keys.2, ckr := none
    ns := 0, nr := 0, pn := 0, skipped := .empty, maxSkipped := 2000 }

/-- `init_bob`. -/
def initBob (sk : C.Key) (ourInitialDh : StaticSecret) : DoubleRatchet C.Key :=
  { dhs := ourInitialDh, dhr := none, rk := sk, cks := none, ckr := none
    ns := 0, nr := 0, pn := 0, skipped := .empty, maxSkipped := 2000 }

def ourDhPublic (r : DoubleRatchet C.Key) : PublicKey := C.publicKey r.dhs

variable {K : Type}

def hasReceivingChain (r : DoubleRatchet K) : Bool := r.ckr.isSome

def isInitialResponderState (r : DoubleRatchet K) : Bool :=
  r.dhr.isNone && r.cks.isNone && r.ckr.isNone && r.ns == 0 && r.nr == 0 && r.pn == 0 &&
    r.skipped.entries.isEmpty

/-- `encrypt`. The chain advances before the AEAD runs, on its error too. -/
def encrypt (plaintext ad : Bytes) (nonce : Nonce) (r : DoubleRatchet C.Key) :
    Outcome C.Key (Header × Bytes) :=
  match r.cks with
  | none => (.error (.error .notInitialized), r)
  | some cks =>
    let keys := kdfCk C cks
    let header : Header := { dh := r.ourDhPublic C, pn := r.pn, n := r.ns }
    let r := { r with cks := some keys.1, ns := r.ns + 1 }
    match aeadEncrypt C keys.2 nonce plaintext (concatAd ad header.toBytes) with
    | .ok ct => (.ok (header, ct), r)
    | .error e => (.error (.error e), r)

/-- `u32::saturating_add`. -/
def saturatingAdd (a b : UInt32) : UInt32 :=
  if a.toNat + b.toNat < 2 ^ 32 then a + b else 0xFFFFFFFF

/-- The loop of `trim_skipped`: it ends when `skipped` fits, or is empty. -/
def trimLoop (max : Nat) : Nat → IndexMap (PublicKey × UInt32) K → IndexMap (PublicKey × UInt32) K
  | 0, m => m
  | fuel + 1, m => if max < m.len then trimLoop max fuel m.shiftRemoveFirst else m

/-- `trim_skipped`: the oldest entries go first. -/
def trimSkipped (r : DoubleRatchet K) : DoubleRatchet K :=
  { r with skipped := trimLoop r.maxSkipped r.skipped.len r.skipped }

/-- `count` rounds of the loop of `skip_message_keys` from chain key `ck` at number `nr`. -/
def skipLoop (dhr : PublicKey) : (count : Nat) → (ck : C.Key) → (nr : UInt32) →
    IndexMap (PublicKey × UInt32) C.Key → C.Key × UInt32 × IndexMap (PublicKey × UInt32) C.Key
  | 0, ck, nr, skipped => (ck, nr, skipped)
  | count + 1, ck, nr, skipped =>
    skipLoop dhr count (kdfCk C ck).1 (nr + 1) (skipped.insert (dhr, nr) (kdfCk C ck).2)

/-- `skip_message_keys`. The source's loop runs while `nr < until`, so `until - nr` times. -/
def skipMessageKeys (stop : UInt32) (r : DoubleRatchet C.Key) : Outcome C.Key Unit :=
  if saturatingAdd r.nr maxSkip < stop then (.error (.error .skipLimit), r)
  else
    match r.ckr with
    | none => (.ok (), r)
    | some ck =>
      if r.nr < stop then
        match r.dhr with
        | none => (.error (.panic "dhr set when ckr is"), { r with ckr := some (kdfCk C ck).1 })
        | some dhr =>
          let s := skipLoop C dhr (stop.toNat - r.nr.toNat) ck r.nr r.skipped
          (.ok (), trimSkipped { r with ckr := some s.1, nr := s.2.1, skipped := s.2.2 })
      else (.ok (), trimSkipped r)

/-- `dh_ratchet_step`, with the fresh secret `fresh`. -/
def dhRatchetStep (newDhr : PublicKey) (fresh : StaticSecret) (r : DoubleRatchet C.Key) :
    DoubleRatchet C.Key :=
  let recv := kdfRk C r.rk (C.diffieHellman r.dhs newDhr)
  let send := kdfRk C recv.1 (C.diffieHellman fresh newDhr)
  { r with pn := r.ns, ns := 0, nr := 0, dhr := some newDhr, rk := send.1, ckr := some recv.2,
           dhs := fresh, cks := some send.2 }

/-- Step 2 of `decrypt_inner`: a message under a new peer key closes the old receiving chain. -/
def switchChain (header : Header) (fresh : StaticSecret) (r : DoubleRatchet C.Key) :
    Outcome C.Key Unit :=
  if r.dhr = some header.dh then (.ok (), r)
  else
    match skipMessageKeys C header.pn r with
    | (.error e, r) => (.error e, r)
    | (.ok (), r) => (.ok (), dhRatchetStep C header.dh fresh r)

/-- Step 4 of `decrypt_inner`: the message key of the current position. -/
def takeMessageKey (r : DoubleRatchet C.Key) : Outcome C.Key C.Key :=
  match r.ckr with
  | none => (.error (.error .notInitialized), r)
  | some ckr => (.ok (kdfCk C ckr).2, { r with ckr := some (kdfCk C ckr).1, nr := r.nr + 1 })

/-- The `Result` of the AEAD as the outcome of a call. -/
def liftErr {α : Type} : Except RatchetError α → Except Abort α
  | .ok a => .ok a
  | .error e => .error (.error e)

/-- `decrypt_inner`. -/
def decryptInner (header : Header) (ciphertext ad : Bytes) (fresh : StaticSecret)
    (r : DoubleRatchet C.Key) : Outcome C.Key Bytes :=
  let fullAd := concatAd ad header.toBytes
  match r.skipped.swapRemove (header.dh, header.n) with
  | (some key, skipped) => (liftErr (aeadDecrypt C key ciphertext fullAd), { r with skipped })
  | (none, _) =>
    match switchChain C header fresh r with
    | (.error e, r) => (.error e, r)
    | (.ok (), r) =>
      match skipMessageKeys C header.n r with
      | (.error e, r) => (.error e, r)
      | (.ok (), r) =>
        match takeMessageKey C r with
        | (.error e, r) => (.error e, r)
        | (.ok key, r) => (liftErr (aeadDecrypt C key ciphertext fullAd), r)

def snapshot (r : DoubleRatchet K) : RatchetSnapshot K :=
  { dhs := r.dhs, dhr := r.dhr, rk := r.rk, cks := r.cks, ckr := r.ckr, ns := r.ns, nr := r.nr
    pn := r.pn, skipped := r.skipped }

def restore (snap : RatchetSnapshot K) (r : DoubleRatchet K) : DoubleRatchet K :=
  { r with dhs := snap.dhs, dhr := snap.dhr, rk := snap.rk, cks := snap.cks, ckr := snap.ckr,
           ns := snap.ns, nr := snap.nr, pn := snap.pn, skipped := snap.skipped }

/-- `decrypt`: on an error the snapshot is put back; a panic unwinds past that. -/
def decrypt (header : Header) (ciphertext ad : Bytes) (fresh : StaticSecret)
    (r : DoubleRatchet C.Key) : Outcome C.Key Bytes :=
  match decryptInner C header ciphertext ad fresh r with
  | (.ok pt, r') => (.ok pt, r')
  | (.error (.error e), r') => (.error (.error e), r'.restore r.snapshot)
  | (.error (.panic msg), r') => (.error (.panic msg), r')

end DoubleRatchet

end Arcium
