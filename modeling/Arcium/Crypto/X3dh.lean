import Arcium.Protocol.Checkpoint

/-!
# X3DH key agreement (`core-crypto/src/x3dh.rs`, `spk_id.rs`, `session_handle.rs`)

The initiator takes the responder's prekey bundle and derives a root key; the responder derives the
same one from the initiator's public keys and its own secrets. Signatures and the key derivation are
third-party code, and so part of `AppPlatform`.
-/

namespace Arcium

/-- The third-party functions the application uses. -/
structure AppPlatform extends Platform where
  /-- `SigningKey::verifying_key`. -/
  verifyingKey : Bytes32 → Bytes32
  /-- Whether `VerifyingKey::from_bytes` accepts these bytes. -/
  isVerifyingKey : Bytes32 → Bool
  sign : Bytes32 → Bytes → Signature
  verifyStrict : Bytes32 → Bytes → Signature → Bool
  /-- HKDF-SHA256 with info `X3DH/v1`, of 32 bytes `0xFF` and then these secrets. -/
  x3dhKdf : List Shared → Key

variable (P : AppPlatform)

/-- `PROTOCOL_VERSION`. -/
def protocolVersion : UInt8 := 0x01

/-- `CIPHER_SUITE`. -/
def cipherSuite : UInt8 := 0x01

/-- `spk_id`: the first 8 bytes of a digest of the signed prekey. -/
def spkId (signedPrekeyPk : PublicKey) : Bytes :=
  (P.sha256 ("arcium/x3dh-spk-id/v1".toUTF8.toList ++ signedPrekeyPk.val)).val.take 8

/-- `local_session_handle`. -/
def localSessionHandle (peer : Peer) : UInt64 :=
  ofLe64 ((P.sha256 ("arcium/local-session-handle/v1".toUTF8.toList ++ peer.val)).val.take 8)

structure PrekeyBundle where
  identityPk : PublicKey
  signingPk : Bytes32
  signedPrekeyPk : PublicKey
  signedPrekeySignature : Signature
  /-- The one-time prekey and its id, present together. -/
  oneTimePrekey : Option (UInt64 × PublicKey)
  deriving DecidableEq

/-- `signed_prekey_object_v1`: what the signature of a signed prekey covers. -/
def signedPrekeyObject (identityDhPk : PublicKey) (signingPk : Bytes32) (signedPrekeyPk : PublicKey) :
    Bytes :=
  "arcium/x3dh-spk/v1".toUTF8.toList ++
    [protocolVersion, cipherSuite] ++ identityDhPk.val ++ signingPk.val ++ signedPrekeyPk.val

/-- `verify_signed_prekey_v1`. -/
def verifySignedPrekey (bundle : PrekeyBundle) : Bool :=
  P.verifyStrict bundle.signingPk
    (signedPrekeyObject bundle.identityPk bundle.signingPk bundle.signedPrekeyPk)
    bundle.signedPrekeySignature

/-- `derive_root`. -/
def deriveRoot (dh1 dh2 dh3 : P.Shared) (dh4 : Option P.Shared) : P.Key :=
  P.x3dhKdf (dh1 :: dh2 :: dh3 :: dh4.toList)

/-- `AliceSession`. -/
structure AliceSession (K : Type) where
  rootKey : K
  ephemeralPk : PublicKey
  theirSignedPrekeyPk : PublicKey
  ad : Bytes

/-- `x3dh_initiate`, with the secret drawn for this handshake. `none` for `BadSignature`. -/
def x3dhInitiate (ourIdentitySk : StaticSecret) (ourIdentityPk : PublicKey) (bob : PrekeyBundle)
    (ephemeralSk : StaticSecret) : Option (AliceSession P.Key) :=
  if verifySignedPrekey P bob then
    some
      { rootKey := deriveRoot P
          (P.diffieHellman ourIdentitySk bob.signedPrekeyPk)
          (P.diffieHellman ephemeralSk bob.identityPk)
          (P.diffieHellman ephemeralSk bob.signedPrekeyPk)
          (bob.oneTimePrekey.map fun opk => P.diffieHellman ephemeralSk opk.2)
        ephemeralPk := P.publicKey ephemeralSk
        theirSignedPrekeyPk := bob.signedPrekeyPk
        ad := ourIdentityPk.val ++ bob.identityPk.val }
  else none

/-- `BobSession`. -/
structure BobSession (K : Type) where
  rootKey : K
  theirEphemeralPk : PublicKey
  ad : Bytes

/-- `x3dh_respond`. -/
def x3dhRespond (ourIdentitySk : StaticSecret) (ourIdentityPk : PublicKey)
    (ourSignedPrekeySk : StaticSecret) (ourOneTimePrekeySk : Option StaticSecret)
    (theirIdentityPk theirEphemeralPk : PublicKey) : BobSession P.Key where
  rootKey := deriveRoot P
    (P.diffieHellman ourSignedPrekeySk theirIdentityPk)
    (P.diffieHellman ourIdentitySk theirEphemeralPk)
    (P.diffieHellman ourSignedPrekeySk theirEphemeralPk)
    (ourOneTimePrekeySk.map fun opk => P.diffieHellman opk theirEphemeralPk)
  theirEphemeralPk
  ad := theirIdentityPk.val ++ ourIdentityPk.val

/-- Symbolic primitives of the application: a signature is the key and the digest of the message. -/
def symbolicApp : AppPlatform :=
  { symbolicPlatform with
    verifyingKey := id
    isVerifyingKey := fun _ => true
    sign := fun key msg => ⟨key.val ++ (symbolicPlatform.sha256 msg).val, by
      rw [List.length_append, key.2, (symbolicPlatform.sha256 msg).2]⟩
    verifyStrict := fun key msg signature =>
      signature.val = key.val ++ (symbolicPlatform.sha256 msg).val
    x3dhKdf := fun secrets => secrets.foldl SymKey.rootOf (.root 0) }

end Arcium
