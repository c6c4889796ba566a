import Arcium.Protocol.RatchetRecord

/-!
# The bytes of a session checkpoint (`core-protocol/src/checkpoint.rs`)

`SESSION_CHECKPOINT_V1`: a header of 149 bytes with the identities, the role and the associated data,
and the ratchet's record. `encodeSessionBytes` is `encode_session_checkpoint` and
`decodeSessionBytes` is `decode_session_checkpoint`, on the bytes of the records of
`Arcium/Protocol/Checkpoint.lean`.

`session_bytes_canonical`: a record is accepted for the binding it was written for and for no other,
and nothing is accepted but what is written. So a digest that does not collide tells sessions apart,
which is what a commit relies on when it compares its predecessor's digest.
-/

namespace Arcium

open Codec

/-- `MAGIC`: `ARCSESS`. -/
def sessionMagic : Bytes := [0x41, 0x52, 0x43, 0x53, 0x45, 0x53, 0x53]

/-- `SESSION_CHECKPOINT_VERSION`. -/
def sessionCheckpointVersion : UInt8 := 1

/-- `AD_LEN`. -/
def adLen : Nat := 64

/-- `HEADER_LEN`. -/
def headerLen : Nat := 7 + 1 + 1 + 8 + 32 + 32 + adLen + 4

/-- `SESSION_CHECKPOINT_MAX_LEN`. -/
def sessionCheckpointMaxLen : Nat := headerLen + ratchetCheckpointMaxLen

namespace SessionRole

def toByte : SessionRole → UInt8
  | initiator => 0
  | responder => 1

def fromByte (b : UInt8) : Option SessionRole :=
  if b = 0 then some initiator else if b = 1 then some responder else none

theorem fromByte_toByte (role : SessionRole) : fromByte role.toByte = some role := by
  cases role <;> rfl

theorem toByte_of_fromByte {b : UInt8} {role : SessionRole} (h : fromByte b = some role) :
    role.toByte = b := by
  unfold fromByte at h
  split_ifs at h with h0 h1
  · cases h; exact h0.symm
  · cases h; exact h1.symm

theorem expectedAd_length (role : SessionRole) (our peer : Bytes32) :
    (role.expectedAd our peer).length = adLen := by
  cases role <;> simp [expectedAd, our.property, peer.property, adLen]

end SessionRole

/-- The bytes of a record. -/
def SessionRecord.layout (rec : SessionRecord Bytes32) : Bytes :=
  sessionMagic ++
  (byte.enc sessionCheckpointVersion ++
  (byte.enc rec.role.toByte ++
  (u64.enc rec.generation ++
  (bytes32.enc rec.our ++
  (bytes32.enc rec.peer ++
  (rec.ad ++
  (u32.enc (UInt32.ofNat rec.ratchet.layout.length) ++
  rec.ratchet.layout)))))))

/-- `encode_session_checkpoint`. -/
def encodeSessionBytes (session : Session Bytes32) (role : SessionRole) (our : Bytes32)
    (generation : UInt64) : Except SessionCheckpointError Bytes := do
  let record ← encodeSessionCheckpoint session role our generation
  return record.layout

/-- `decode_session_checkpoint`. -/
def decodeSessionBytes (record : Bytes) (expected : SessionBinding) :
    Except SessionCheckpointError (RestoredSession Bytes32) := do
  if sessionCheckpointMaxLen < record.length then throw (.oversized record.length)
  if record.length < headerLen then throw (.truncated record.length)
  if slice record 0 7 ≠ sessionMagic then throw .badMagic
  let version := byte.read record 7
  if version ≠ sessionCheckpointVersion then throw (.unsupportedVersion version)
  match SessionRole.fromByte (byte.read record 8) with
  | none => throw (.unknownRole (byte.read record 8))
  | some role =>
    let generation := u64.read record 9
    let our := bytes32.read record 17
    let peer := bytes32.read record 49
    if our ≠ expected.ourIdentityPk then throw .ourIdentityMismatch
    if peer ≠ expected.peerIdentityPk then throw .peerIdentityMismatch
    let ad := slice record 81 adLen
    if ad ≠ role.expectedAd our peer then throw .adMismatch
    let expectedLen := headerLen + (u32.read record 145).toNat
    if record.length ≠ expectedLen then throw (.lengthMismatch expectedLen record.length)
    match DoubleRatchet.fromRecord (record.drop headerLen) with
    | .ok ratchet =>
      return { session := { ratchet, ad, peerIdentityPk := peer }, role, generation }
    | .error e => throw (.ratchet e)

/-! ## What stands where -/

/-- A record is its header and the bytes after it. -/
theorem header_fields {record : Bytes} (h : headerLen ≤ record.length) :
    slice record 0 7 ++ (byte.enc (byte.read record 7) ++ (byte.enc (byte.read record 8) ++
    (u64.enc (u64.read record 9) ++ (bytes32.enc (bytes32.read record 17) ++
    (bytes32.enc (bytes32.read record 49) ++ (slice record 81 adLen ++
    (u32.enc (u32.read record 145) ++ record.drop headerLen))))))) = record := by
  have hl : ∀ next, next ≤ 149 → next ≤ record.length := fun next hn => Nat.le_trans hn h
  rw [u32.enc_read_append (show 145 + u32.width = headerLen from rfl) h,
    slice_append_drop record (show 81 + adLen = 145 from rfl),
    bytes32.enc_read_append (show 49 + bytes32.width = 81 from rfl) (hl _ (by decide)),
    bytes32.enc_read_append (show 17 + bytes32.width = 49 from rfl) (hl _ (by decide)),
    u64.enc_read_append (show 9 + u64.width = 17 from rfl) (hl _ (by decide)),
    byte.enc_read_append (show 8 + byte.width = 9 from rfl) (hl _ (by decide)),
    byte.enc_read_append (show 7 + byte.width = 8 from rfl) (hl _ (by decide)),
    slice_append_drop record (show 0 + 7 = 7 from rfl), List.drop_zero]

/-- What stands where in the bytes of a record. -/
theorem SessionRecord.layout_reads {rec : SessionRecord Bytes32} (had : rec.ad.length = adLen) :
    slice rec.layout 0 7 = sessionMagic ∧ byte.read rec.layout 7 = sessionCheckpointVersion ∧
    byte.read rec.layout 8 = rec.role.toByte ∧ u64.read rec.layout 9 = rec.generation ∧
    bytes32.read rec.layout 17 = rec.our ∧ bytes32.read rec.layout 49 = rec.peer ∧
    slice rec.layout 81 adLen = rec.ad ∧
    u32.read rec.layout 145 = UInt32.ofNat rec.ratchet.layout.length ∧
    rec.layout.drop headerLen = rec.ratchet.layout := by
  have hlayout : rec.layout = (raw 7).enc ⟨sessionMagic, rfl⟩ ++
      (byte.enc sessionCheckpointVersion ++ (byte.enc rec.role.toByte ++ (u64.enc rec.generation ++
      (bytes32.enc rec.our ++ (bytes32.enc rec.peer ++ ((raw adLen).enc ⟨rec.ad, had⟩ ++
      (u32.enc (UInt32.ofNat rec.ratchet.layout.length) ++ rec.ratchet.layout))))))) := rfl
  rw [hlayout]
  unfold headerLen adLen
  refine ⟨?_, ?_, ?_, ?_, ?_, ?_, ?_, ?_, ?_⟩ <;>
    simp (disch := decide) only [read_past, slice_past, drop_past, byte_width, bytes32_width,
      u32_width, u64_width, raw_width, Nat.reduceSub, Nat.reduceAdd, read_here, slice_here,
      List.drop_zero]

theorem SessionRecord.layout_length {rec : SessionRecord Bytes32} (had : rec.ad.length = adLen) :
    rec.layout.length = headerLen + rec.ratchet.layout.length := by
  unfold layout
  simp only [List.length_append, Codec.enc_length, byte_width, bytes32_width, u32_width, u64_width,
    had, headerLen, sessionMagic, List.length_cons, List.length_nil]
  omega

/-! ## What is accepted was written -/

/-- What `decode_session_checkpoint` checks and reads. -/
structure SessionReads (record : Bytes) (rec : SessionRecord Bytes32) : Prop where
  length : record.length = headerLen + (u32.read record 145).toNat
  length_le : record.length ≤ sessionCheckpointMaxLen
  magic : slice record 0 7 = sessionMagic
  version : byte.read record 7 = sessionCheckpointVersion
  role : SessionRole.fromByte (byte.read record 8) = some rec.role
  generation : u64.read record 9 = rec.generation
  our : bytes32.read record 17 = rec.our
  peer : bytes32.read record 49 = rec.peer
  ad : slice record 81 adLen = rec.ad
  expected : rec.ad = rec.role.expectedAd rec.our rec.peer
  ratchet : DoubleRatchet.fromRecord (record.drop headerLen) = .ok rec.ratchet

theorem decodeSessionBytes_reads {record : Bytes} {expected : SessionBinding}
    {restored : RestoredSession Bytes32} (h : decodeSessionBytes record expected = .ok restored) :
    ∃ rec, SessionReads record rec ∧ expected = ⟨rec.our, rec.peer⟩ ∧
      restored = { session := rec.session, role := rec.role, generation := rec.generation } := by
  unfold decodeSessionBytes at h
  simp only [bind, Except.bind, pure, Except.pure, throw, throwThe, MonadExceptOf.throw] at h
  cases hrole : SessionRole.fromByte (byte.read record 8) with
  | none =>
    rw [hrole] at h
    split_ifs at h
  | some role =>
    rw [hrole] at h
    dsimp only at h
    split_ifs at h with h1 h2 h3 h4 h5 h6 h7 h8
    split at h
    · next ratchet hr =>
      cases h
      simp only [ne_eq, not_not] at h3 h4 h5 h6 h7 h8
      refine ⟨⟨role, u64.read record 9, bytes32.read record 17, bytes32.read record 49,
        slice record 81 adLen, ratchet⟩, ⟨h8, Nat.not_lt.mp h1, h3, h4, hrole, rfl, rfl, rfl, rfl, h7,
        hr⟩, ?_, rfl⟩
      show expected = ⟨bytes32.read record 17, bytes32.read record 49⟩
      rw [h5, h6]
    · cases h

theorem SessionReads.decode {record : Bytes} {rec : SessionRecord Bytes32}
    (h : SessionReads record rec) (expected : SessionBinding) :
    decodeSessionBytes record expected =
      if rec.our ≠ expected.ourIdentityPk then .error .ourIdentityMismatch
      else if rec.peer ≠ expected.peerIdentityPk then .error .peerIdentityMismatch
      else .ok { session := rec.session, role := rec.role, generation := rec.generation } := by
  have hmin : ¬ record.length < headerLen := by
    rw [h.length]
    exact Nat.not_lt.mpr (Nat.le_add_right _ _)
  unfold decodeSessionBytes
  simp only [bind, Except.bind, pure, Except.pure, throw, throwThe, MonadExceptOf.throw,
    if_neg (Nat.not_lt.mpr h.length_le), if_neg hmin, h.magic, h.version, h.role, h.generation, h.our,
    h.peer, h.ad, if_neg (not_not.mpr h.expected), if_neg (not_not.mpr h.length), h.ratchet, ne_eq,
    not_true_eq_false, if_false]
  rfl

/-- The record that was read has these bytes. -/
theorem SessionReads.layout {record : Bytes} {rec : SessionRecord Bytes32}
    (h : SessionReads record rec) : rec.layout = record := by
  have hl : headerLen ≤ record.length := by
    rw [h.length]
    exact Nat.le_add_right _ _
  have hrec := DoubleRatchet.toRecord_fromRecord h.ratchet
  have hinner := (DoubleRatchet.toRecord_ok hrec).2
  have hlen : u32.read record 145 = UInt32.ofNat rec.ratchet.layout.length := by
    rw [← hinner, List.length_drop, h.length, Nat.add_sub_cancel_left, UInt32.ofNat_toNat]
  have hfields := header_fields hl
  rw [h.magic, h.version, ← SessionRole.toByte_of_fromByte h.role, h.generation, h.our, h.peer, h.ad,
    hlen, hinner] at hfields
  exact hfields

/-! ## What was written is accepted -/

theorem encodeSessionBytes_ok {session : Session Bytes32} {role : SessionRole} {our : Bytes32}
    {generation : UInt64} {record : Bytes}
    (h : encodeSessionBytes session role our generation = .ok record) :
    ∃ rec, encodeSessionCheckpoint session role our generation = .ok rec ∧ record = rec.layout := by
  unfold encodeSessionBytes at h
  simp only [bind, Except.bind, pure, Except.pure] at h
  split at h
  · cases h
  · next rec hrec => exact ⟨rec, hrec, (Except.ok.inj h).symm⟩

theorem SessionRecord.Bound.reads {rec : SessionRecord Bytes32} {our : Bytes32} {peer : Peer}
    (h : rec.Bound our peer) : SessionReads rec.layout rec := by
  obtain ⟨rfl, rfl, had, hr⟩ := h
  have hadLen : rec.ad.length = adLen := by
    rw [had]
    exact SessionRole.expectedAd_length _ _ _
  obtain ⟨h0, h7, h8, h9, h17, h49, h81, h145, hrest⟩ := SessionRecord.layout_reads hadLen
  have hlen := SessionRecord.layout_length hadLen
  have hinner : rec.ratchet.layout.length ≤ ratchetCheckpointMaxLen := by
    rw [DoubleRatchet.layout_length]
    exact Nat.add_le_add_left (Nat.mul_le_mul_left _ hr.skipped) _
  have hcount : (u32.read rec.layout 145).toNat = rec.ratchet.layout.length := by
    rw [h145, UInt32.toNat_ofNat', Nat.mod_eq_of_lt]
    exact Nat.lt_of_le_of_lt hinner (by decide)
  refine ⟨?_, ?_, h0, h7, ?_, h9, h17, h49, h81, had, ?_⟩
  · rw [hlen, hcount]
  · rw [hlen]
    exact Nat.add_le_add_left hinner _
  · rw [h8]
    exact SessionRole.fromByte_toByte _
  · rw [hrest]
    exact (DoubleRatchet.layout_is_read (DoubleRatchet.toCheckpoint_of_resumable hr)).fromRecord

theorem SessionRecord.Bound.decodeBytes {rec : SessionRecord Bytes32} {our : Bytes32} {peer : Peer}
    (h : rec.Bound our peer) : decodeSessionBytes rec.layout ⟨our, peer⟩ =
      .ok { session := rec.session, role := rec.role, generation := rec.generation } := by
  rw [h.reads.decode, h.ours, h.theirs, if_neg (not_not.mpr rfl), if_neg (not_not.mpr rfl)]

/-- What is accepted for a binding can be written again, and gives the same bytes. -/
theorem encodeSessionBytes_decode {record : Bytes} {expected : SessionBinding}
    {restored : RestoredSession Bytes32} (h : decodeSessionBytes record expected = .ok restored) :
    encodeSessionBytes restored.session restored.role expected.ourIdentityPk restored.generation =
      .ok record := by
  obtain ⟨rec, hr, rfl, rfl⟩ := decodeSessionBytes_reads h
  have hc := (DoubleRatchet.toRecord_ok (DoubleRatchet.toRecord_fromRecord hr.ratchet)).1
  have hlayout := hr.layout
  have had := hr.expected
  unfold encodeSessionBytes encodeSessionCheckpoint encodeParts
  simp only [bind, Except.bind, pure, Except.pure, throw, throwThe, MonadExceptOf.throw,
    SessionRecord.session, if_neg (not_not.mpr had), hc]
  rw [← hlayout]

/-- **Session checkpoints are canonical and bound**: a record is accepted for the identities it was
written for, and for no others; what is accepted is bound by its associated data, and was written so;
and where SHA-256 does not collide, equal digests mean equal bindings and sessions. -/
theorem session_bytes_canonical :
    (∀ (session : Session Bytes32) role our generation record,
      encodeSessionBytes session role our generation = .ok record →
      decodeSessionBytes record ⟨our, session.peerIdentityPk⟩ = .ok { session, role, generation } ∧
      ∀ binding ≠ (⟨our, session.peerIdentityPk⟩ : SessionBinding),
        decodeSessionBytes record binding = .error .ourIdentityMismatch ∨
        decodeSessionBytes record binding = .error .peerIdentityMismatch) ∧
    (∀ record binding restored, decodeSessionBytes record binding = .ok restored →
      restored.session.ad = restored.role.expectedAd binding.ourIdentityPk binding.peerIdentityPk ∧
      restored.session.peerIdentityPk = binding.peerIdentityPk ∧
      encodeSessionBytes restored.session restored.role binding.ourIdentityPk restored.generation =
        .ok record) ∧
    ∀ (sha256 : Bytes → Bytes32) record record' binding binding' restored restored',
      decodeSessionBytes record binding = .ok restored →
      decodeSessionBytes record' binding' = .ok restored' →
      (sha256 record = sha256 record' → record = record') →
      (sha256 record = sha256 record' ↔ binding = binding' ∧ restored = restored') := by
  refine ⟨fun session role our generation record h => ?_, fun record binding restored h => ?_,
    fun sha256 record record' binding binding' restored restored' h h' hcf => ⟨fun hs => ?_, ?_⟩⟩
  · obtain ⟨rec, hrec, rfl⟩ := encodeSessionBytes_ok h
    obtain ⟨rfl, hb⟩ := encodeParts_ok hrec
    constructor
    · exact hb.decodeBytes
    · intro binding hne
      rw [hb.reads.decode]
      by_cases ho : our = binding.ourIdentityPk
      · refine .inr ?_
        rw [if_neg (not_not.mpr ho), if_pos]
        intro hp
        apply hne
        rw [ho, show session.peerIdentityPk = binding.peerIdentityPk from hp]
      · exact .inl (if_pos ho)
  · obtain ⟨rec, hr, rfl, rfl⟩ := decodeSessionBytes_reads h
    exact ⟨hr.expected, rfl, encodeSessionBytes_decode h⟩
  · obtain rfl := hcf hs
    obtain ⟨rec, hr, rfl, rfl⟩ := decodeSessionBytes_reads h
    obtain ⟨rec', hr', rfl, rfl⟩ := decodeSessionBytes_reads h'
    rw [hr.decode] at h'
    split_ifs at h' with ho hp
    simp only [ne_eq, not_not] at ho hp
    exact ⟨by rw [ho, hp], Except.ok.inj h'⟩
  · rintro ⟨rfl, rfl⟩
    have he := encodeSessionBytes_decode h
    rw [encodeSessionBytes_decode h'] at he
    rw [Except.ok.inj he]

/-- A session of a fresh initiator. -/
def freshSession : Session Bytes32 where
  ratchet := { dhs := fill 1, dhr := some (fill 2), rk := fill 3, cks := some (fill 4), ckr := none
               ns := 0, nr := 0, pn := 0, skipped := .empty, maxSkipped := 2000 }
  ad := SessionRole.initiator.expectedAd (fill 5) (fill 6)
  peerIdentityPk := fill 6

/-- Its record. -/
def freshRecord : SessionRecord Bytes32 where
  role := .initiator
  generation := 0
  our := fill 5
  peer := fill 6
  ad := freshSession.ad
  ratchet := freshSession.ratchet

theorem session_bytes_fresh : decodeSessionBytes freshRecord.layout ⟨fill 5, fill 6⟩ =
    .ok { session := freshSession, role := .initiator, generation := 0 } := by
  have hc : freshSession.ratchet.toCheckpoint = .ok freshSession.ratchet := rfl
  have hb : freshRecord.Bound (fill 5) (fill 6) :=
    ⟨rfl, rfl, rfl, DoubleRatchet.toCheckpoint_resumable hc⟩
  exact (session_bytes_canonical.1 freshSession .initiator (fill 5) 0 _
    (encodeSessionBytes_decode hb.decodeBytes)).1

end Arcium
