import Arcium.Storage.Records
import Arcium.Crypto.Symbolic

/-!
# Session checkpoints (`core-protocol/src/checkpoint.rs`, `core-crypto/src/ratchet/checkpoint.rs`)

A session is stored as a `SessionRecord`: its ratchet, and the identities and the role it is bound
to. `encodeParts` refuses what `decodeSessionCheckpoint` would refuse, so what is written can be
read. Here a record is its content; its bytes, with the errors about magic, version and lengths, are
in `Arcium/Protocol/RatchetRecord.lean` and `Arcium/Protocol/SessionBytes.lean`.
-/

namespace Arcium

/-- The third-party functions the protocol uses. -/
structure Platform extends Crypto where
  /-- `Sha256::digest` of an encoded session record. -/
  recordDigest : SessionRecord Key → Bytes32
  sha256 : Bytes → Bytes32

/-- `Session`. -/
structure Session (K : Type) where
  ratchet : DoubleRatchet K
  ad : Bytes
  peerIdentityPk : Peer

inductive CheckpointError where
  | truncated (actual : Nat)
  | oversized (actual : Nat)
  | unsupportedVersion (version : UInt8)
  | lengthMismatch (expected actual : Nat)
  | unknownFlags (flags : UInt8)
  | unexpectedCapacity (n : Nat)
  | tooManySkippedKeys (n : Nat)
  | duplicateSkippedKey
  | absentFieldNotZero (field : String)
  | inconsistentState (rule : String)
  | counterExhausted (field : String)
  deriving DecidableEq, Repr

inductive SessionCheckpointError where
  | truncated (actual : Nat)
  | oversized (actual : Nat)
  | badMagic
  | unsupportedVersion (version : UInt8)
  | unknownRole (role : UInt8)
  | ourIdentityMismatch
  | peerIdentityMismatch
  | adMismatch
  | lengthMismatch (expected actual : Nat)
  | ratchet (e : CheckpointError)
  deriving DecidableEq, Repr

structure SessionBinding where
  ourIdentityPk : Bytes32
  peerIdentityPk : Peer
  deriving DecidableEq

/-- `expected_ad`. -/
def SessionRole.expectedAd (role : SessionRole) (our peer : Bytes32) : Bytes :=
  match role with
  | .initiator => our.val ++ peer.val
  | .responder => peer.val ++ our.val

/-- `MAX_SKIPPED_KEYS`. -/
def maxSkippedKeys : Nat := 2000

/-- `MAX_RESUMABLE_NR`. -/
def maxResumableNr : UInt32 := 0xFFFFFFFF - maxSkip - 1

/-- `u32::try_from(n).unwrap_or(u32::MAX)`. -/
def u32OrMax (n : Nat) : Nat := min n (2 ^ 32 - 1)

/-- `check_state`. -/
def checkState (hasDhr hasCks hasCkr : Bool) (ns nr pn : UInt32) (skipped : Nat) :
    Except CheckpointError Unit := do
  match hasDhr, hasCks, hasCkr with
  | false, false, false =>
    if ns ≠ 0 then
      throw (.inconsistentState "messages counted as sent before a sending chain exists")
  | true, true, _ => pure ()
  | _, _, _ => throw (.inconsistentState "impossible combination of peer key and chain keys")
  if !hasCkr ∧ (nr ≠ 0 ∨ pn ≠ 0 ∨ skipped ≠ 0) then
    throw (.inconsistentState "receive-side counters or skipped keys without a receiving chain")
  if maxSkippedKeys < skipped then throw (.tooManySkippedKeys (u32OrMax skipped))
  if ns = 0xFFFFFFFF then throw (.counterExhausted "ns")
  if maxResumableNr < nr then throw (.counterExhausted "nr")

variable {K : Type}

/-- `to_checkpoint`, and the checks of `from_checkpoint`. -/
def DoubleRatchet.toCheckpoint (r : DoubleRatchet K) : Except CheckpointError (DoubleRatchet K) := do
  if r.maxSkipped ≠ maxSkippedKeys then throw (.unexpectedCapacity (u32OrMax r.maxSkipped))
  checkState r.dhr.isSome r.cks.isSome r.ckr.isSome r.ns r.nr r.pn r.skipped.len
  return r

/-- `encode_parts`. -/
def encodeParts (ratchet : DoubleRatchet K) (ad : Bytes) (peer : Peer) (role : SessionRole)
    (our : Bytes32) (generation : UInt64) : Except SessionCheckpointError (SessionRecord K) := do
  if ad ≠ role.expectedAd our peer then throw .adMismatch
  match ratchet.toCheckpoint with
  | .ok ratchet => return { role, generation, our, peer, ad, ratchet }
  | .error e => throw (.ratchet e)

/-- `encode_session_checkpoint`. -/
def encodeSessionCheckpoint (session : Session K) (role : SessionRole) (our : Bytes32)
    (generation : UInt64) : Except SessionCheckpointError (SessionRecord K) :=
  encodeParts session.ratchet session.ad session.peerIdentityPk role our generation

/-- `RestoredSession`. -/
structure RestoredSession (K : Type) where
  session : Session K
  role : SessionRole
  generation : UInt64

/-- `decode_session_checkpoint`. -/
def decodeSessionCheckpoint (record : SessionRecord K) (expected : SessionBinding) :
    Except SessionCheckpointError (RestoredSession K) := do
  if record.our ≠ expected.ourIdentityPk then throw .ourIdentityMismatch
  if record.peer ≠ expected.peerIdentityPk then throw .peerIdentityMismatch
  if record.ad ≠ record.role.expectedAd record.our record.peer then throw .adMismatch
  match record.ratchet.toCheckpoint with
  | .ok ratchet =>
    return { session := { ratchet, ad := record.ad, peerIdentityPk := record.peer }
             role := record.role, generation := record.generation }
  | .error e => throw (.ratchet e)

/-! ## What is stored can be read -/

namespace DoubleRatchet

/-- What `check_state` guarantees of a stored ratchet. -/
structure Resumable (r : DoubleRatchet K) : Prop where
  capacity : r.maxSkipped = 2000
  dhr_of_ckr : r.ckr.isSome → r.dhr.isSome
  cks_of_dhr : r.dhr.isSome → r.cks.isSome
  dhr_of_cks : r.cks.isSome → r.dhr.isSome
  no_recv : r.ckr = none → r.nr = 0 ∧ r.pn = 0 ∧ r.skipped.len = 0
  no_send : r.cks = none → r.ns = 0
  skipped : r.skipped.len ≤ 2000
  ns : r.ns ≠ 0xFFFFFFFF
  nr : r.nr ≤ maxResumableNr

theorem toCheckpoint_eq {r r' : DoubleRatchet K} (h : r.toCheckpoint = .ok r') : r' = r := by
  unfold toCheckpoint at h
  simp only [bind, Except.bind, pure, Except.pure, throw, throwThe, MonadExceptOf.throw] at h
  split at h
  · cases h
  · split at h
    · cases h
    · exact (Except.ok.inj h).symm

theorem toCheckpoint_resumable {r r' : DoubleRatchet K} (h : r.toCheckpoint = .ok r') :
    r.Resumable := by
  unfold toCheckpoint checkState at h
  simp only [bind, Except.bind, pure, Except.pure, throw, throwThe, MonadExceptOf.throw] at h
  obtain ⟨dhs, dhr, rk, cks, ckr, ns, nr, pn, skipped, maxSkipped⟩ := r
  constructor <;> cases dhr <;> cases cks <;> cases ckr <;> simp_all [maxSkippedKeys] <;>
    split_ifs at h <;> simp_all

theorem toCheckpoint_of_resumable {r : DoubleRatchet K} (h : r.Resumable) :
    r.toCheckpoint = .ok r := by
  obtain ⟨h1, h2, h3, h4, h5, h6, h7, h8, h9⟩ := h
  unfold toCheckpoint checkState
  simp only [bind, Except.bind, pure, Except.pure, throw, throwThe, MonadExceptOf.throw]
  obtain ⟨dhs, dhr, rk, cks, ckr, ns, nr, pn, skipped, maxSkipped⟩ := r
  cases dhr <;> cases cks <;> cases ckr <;> simp_all [maxSkippedKeys]
  rw [if_neg (Nat.not_lt.mpr h7), if_neg (UInt32.not_lt.mpr h9)]

end DoubleRatchet

namespace SessionRecord

/-- A record that can be read for our identity and the peer it is stored under. -/
structure Bound (rec : SessionRecord K) (our : Bytes32) (peer : Peer) : Prop where
  ours : rec.our = our
  theirs : rec.peer = peer
  ad : rec.ad = rec.role.expectedAd our peer
  ratchet : rec.ratchet.Resumable

/-- The session a record holds. -/
def session (rec : SessionRecord K) : Session K :=
  { ratchet := rec.ratchet, ad := rec.ad, peerIdentityPk := rec.peer }

end SessionRecord

theorem encodeParts_ok {ratchet : DoubleRatchet K} {ad : Bytes} {peer : Peer} {role : SessionRole}
    {our : Bytes32} {generation : UInt64} {rec : SessionRecord K}
    (h : encodeParts ratchet ad peer role our generation = .ok rec) :
    rec = { role, generation, our, peer, ad, ratchet } ∧ rec.Bound our peer := by
  unfold encodeParts at h
  simp only [bind, Except.bind, pure, Except.pure, throw, throwThe, MonadExceptOf.throw] at h
  split at h
  · cases h
  · next had =>
    split at h
    · next r hr =>
      obtain rfl := DoubleRatchet.toCheckpoint_eq hr
      obtain rfl := Except.ok.inj h
      exact ⟨rfl, rfl, rfl, not_not.mp had, DoubleRatchet.toCheckpoint_resumable hr⟩
    · cases h

theorem decodeSessionCheckpoint_ok {rec : SessionRecord K} {expected : SessionBinding}
    {restored : RestoredSession K} (h : decodeSessionCheckpoint rec expected = .ok restored) :
    restored = { session := rec.session, role := rec.role, generation := rec.generation } ∧
      rec.Bound expected.ourIdentityPk expected.peerIdentityPk := by
  unfold decodeSessionCheckpoint at h
  simp only [bind, Except.bind, pure, Except.pure, throw, throwThe, MonadExceptOf.throw] at h
  split at h
  · cases h
  · next ho =>
    split at h
    · cases h
    · next hp =>
      split at h
      · cases h
      · next ha =>
        split at h
        · next r hr =>
          obtain rfl := DoubleRatchet.toCheckpoint_eq hr
          obtain rfl := Except.ok.inj h
          simp only [ne_eq, not_not] at ho hp ha
          exact ⟨rfl, ho, hp, by rw [ha, ho, hp], DoubleRatchet.toCheckpoint_resumable hr⟩
        · cases h

theorem SessionRecord.Bound.decode {rec : SessionRecord K} {our : Bytes32} {peer : Peer}
    (h : rec.Bound our peer) : decodeSessionCheckpoint rec ⟨our, peer⟩ =
      .ok { session := rec.session, role := rec.role, generation := rec.generation } := by
  obtain ⟨h1, h2, h3, h4⟩ := h
  subst h1 h2
  unfold decodeSessionCheckpoint
  simp [pure, Except.pure, h3, DoubleRatchet.toCheckpoint_of_resumable h4, SessionRecord.session]

/-- The symbolic primitives, with checksums for SHA-256. -/
def symbolicPlatform : Platform :=
  { symbolic with
    recordDigest := fun rec => fill (UInt8.ofNat rec.generation.toNat)
    sha256 := fun bytes => fill (bytes.foldl (fun a b => a + b) 0) }

end Arcium
