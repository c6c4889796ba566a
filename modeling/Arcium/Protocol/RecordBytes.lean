import Arcium.Protocol.Messenger
import Arcium.Base.Codec

/-!
# The bytes of the messenger's records (`core-protocol/src/messaging/records.rs`)

Each record begins with a magic of seven bytes and a version. A decoder reads the fixed fields at
their offsets and checks the lengths that it finds there against the length of the record, so that it
accepts what the encoder writes and nothing else (`handle_canonical` and its like). The magic tells the
records of one kind from those of another (`RecordKind.Accepts.unique`).
-/

namespace Arcium

namespace Messenger

open Codec

/-! ## The header -/

/-- The magic of a record: `&[u8; 7]`. -/
abbrev Magic := { b : Bytes // b.length = 7 }

/-- `HANDLE_MAGIC`: `ARCHNDL`. -/
def handleMagic : Magic := ⟨[0x41, 0x52, 0x43, 0x48, 0x4E, 0x44, 0x4C], rfl⟩

/-- `PROVISIONAL_MAGIC`: `ARCHSIN`. -/
def provisionalMagic : Magic := ⟨[0x41, 0x52, 0x43, 0x48, 0x53, 0x49, 0x4E], rfl⟩

/-- `OUTBOX_MAGIC`: `ARCOUTB`. -/
def outboxMagic : Magic := ⟨[0x41, 0x52, 0x43, 0x4F, 0x55, 0x54, 0x42], rfl⟩

/-- `INBOX_MAGIC`: `ARCINBX`. -/
def inboxMagic : Magic := ⟨[0x41, 0x52, 0x43, 0x49, 0x4E, 0x42, 0x58], rfl⟩

/-- `SEEN_MAGIC`: `ARCSEEN`. -/
def seenMagic : Magic := ⟨[0x41, 0x52, 0x43, 0x53, 0x45, 0x45, 0x4E], rfl⟩

/-- `SENDID_MAGIC`: `ARCSNDI`. -/
def sendidMagic : Magic := ⟨[0x41, 0x52, 0x43, 0x53, 0x4E, 0x44, 0x49], rfl⟩

/-- `ABANDONED_MAGIC`: `ARCSNDX`. -/
def abandonedMagic : Magic := ⟨[0x41, 0x52, 0x43, 0x53, 0x4E, 0x44, 0x58], rfl⟩

/-- `RECORD_VERSION`. -/
def recordVersion : UInt8 := 1

/-- The header, and the rest. -/
def withHeader (magic : Magic) (rest : Bytes) : Bytes :=
  (raw 7).enc magic ++ (byte.enc recordVersion ++ rest)

/-- What every decoder checks first, of a record that is long enough. -/
def hasHeader (magic : Magic) (bytes : Bytes) : Bool :=
  bytes.take 7 == magic.val && byte.read bytes 7 == recordVersion

theorem hasHeader_iff {magic : Magic} {bytes : Bytes} (h : 8 ≤ bytes.length) :
    hasHeader magic bytes = true ↔ bytes = withHeader magic (bytes.drop 8) := by
  rw [hasHeader, Bool.and_eq_true, beq_iff_eq, beq_iff_eq]
  constructor
  · rintro ⟨hmagic, hversion⟩
    have hbytes := slice_append_drop bytes (show 0 + 7 = 7 from rfl)
    rw [List.drop_zero, ← byte.enc_read_append (show 7 + byte.width = 8 from rfl) h, hversion] at hbytes
    have hslice : slice bytes 0 7 = magic.val := hmagic
    rw [hslice] at hbytes
    exact hbytes.symm
  · intro hbytes
    rw [hbytes]
    refine ⟨List.take_left' magic.2, ?_⟩
    rw [withHeader, read_past byte (raw 7) magic _ (by decide)]
    exact byte.read_here recordVersion _

/-- A record that passes the check of its header. -/
theorem eq_withHeader {magic : Magic} {bytes : Bytes} (h : ¬ (!hasHeader magic bytes) = true)
    (hlen : 8 ≤ bytes.length) : bytes = withHeader magic (bytes.drop 8) :=
  (hasHeader_iff hlen).mp (by simpa using h)

theorem withHeader_length (magic : Magic) (rest : Bytes) :
    (withHeader magic rest).length = 8 + rest.length := by
  simp only [withHeader, List.length_append, Codec.enc_length, raw_width, byte_width]
  omega

theorem withHeader_drop (magic : Magic) (rest : Bytes) {off : Nat} (h : 8 ≤ off) :
    (withHeader magic rest).drop off = rest.drop (off - 8) := by
  rw [withHeader, (raw 7).drop_past magic _ (by simp only [raw_width]; omega),
    byte.drop_past _ _ (by simp only [raw_width, byte_width]; omega)]
  simp only [raw_width, byte_width, Nat.sub_sub, Nat.reduceAdd]

theorem withHeader_read {α : Type} (F : Codec α) (magic : Magic) (rest : Bytes) {off : Nat}
    (h : 8 ≤ off) : F.read (withHeader magic rest) off = F.read rest (off - 8) := by
  rw [Codec.read, Codec.read, slice, slice, withHeader_drop magic rest h]

theorem withHeader_hasHeader (magic : Magic) (rest : Bytes) :
    hasHeader magic (withHeader magic rest) = true := by
  have hlen := withHeader_length magic rest
  rw [hasHeader_iff (by omega), withHeader_drop magic rest (Nat.le_refl 8), Nat.sub_self, List.drop_zero]

/-! ## Records of one id -/

/-- `encode_handle`. -/
def encodeHandle (peer : Peer) : Bytes := withHeader handleMagic peer.val

/-- `decode_handle`. -/
def decodeHandle (bytes : Bytes) : Except MessagingError Peer :=
  if bytes.length ≠ 40 ∨ !hasHeader handleMagic bytes then .error (.invalidRecord "handle")
  else .ok (bytes32.read bytes 8)

/-- `encode_id_record`. -/
def encodeIdRecord (magic : Magic) (id : MessageId) : Bytes := withHeader magic id.val

/-- `decode_id_record`. -/
def decodeIdRecord (magic : Magic) (bytes : Bytes) (what : String) : Except MessagingError MessageId :=
  if bytes.length ≠ 40 ∨ !hasHeader magic bytes then .error (.invalidRecord what)
  else .ok (bytes32.read bytes 8)

theorem map_ok {ε α β : Type} {x : Except ε α} {f : α → β} {b : β} (h : x.map f = .ok b) :
    ∃ a, x = .ok a ∧ f a = b := by
  cases x with
  | ok a => exact ⟨a, rfl, Except.ok.inj h⟩
  | error e => cases h

theorem idRecord_canonical (magic : Magic) (what : String) :
    Canonical (fun _ => True) (encodeIdRecord magic)
      (fun bytes id => decodeIdRecord magic bytes what = .ok id) := by
  intro bytes id
  unfold decodeIdRecord encodeIdRecord
  dsimp only
  constructor
  · intro h
    split at h
    · cases h
    · next hok =>
      obtain ⟨hlen, hheader⟩ := not_or.mp hok
      have hlen := not_not.mp hlen
      have hheader := eq_withHeader hheader (by omega)
      have hid := bytes32.enc_read_append (show 8 + bytes32.width = 40 from rfl) (Nat.le_of_eq hlen.symm)
      rw [List.drop_of_length_le (Nat.le_of_eq hlen), List.append_nil, Except.ok.inj h] at hid
      refine ⟨trivial, hheader.trans (congrArg _ hid.symm)⟩
  · rintro ⟨-, rfl⟩
    have hlen : (withHeader magic id.val).length = 40 := by rw [withHeader_length, id.2]
    rw [if_neg (by simp [hlen, withHeader_hasHeader]), withHeader_read bytes32 magic _ (Nat.le_refl 8)]
    have hid := bytes32.read_here id []
    rw [List.append_nil] at hid
    exact congrArg _ hid

theorem handle_canonical :
    Canonical (fun _ => True) encodeHandle (fun bytes peer => decodeHandle bytes = .ok peer) :=
  idRecord_canonical handleMagic "handle"

/-! ## Handshakes -/

/-- The bytes of a received handshake. -/
def provisionalLayout (p : ProvisionalHandshake) : Bytes :=
  withHeader provisionalMagic
    (bytes32.enc p.peerIdentityPk ++ (u16.enc (UInt16.ofNat p.handshake.length) ++ p.handshake))

/-- `encode_provisional`. -/
def encodeProvisional (p : ProvisionalHandshake) : Except MessagingError Bytes := do
  let p ← checkProvisional p
  return provisionalLayout p

/-- `decode_provisional`. -/
def decodeProvisional (bytes : Bytes) : Except MessagingError ProvisionalHandshake :=
  if bytes.length < 42 ∨ !hasHeader provisionalMagic bytes then
    .error (.invalidRecord "provisional handshake")
  else
    let len := (u16.read bytes 40).toNat
    if len = 0 ∨ maxProvisionalHandshakeLen < len ∨ bytes.length ≠ 42 + len then
      .error (.invalidRecord "provisional handshake")
    else .ok { peerIdentityPk := bytes32.read bytes 8, handshake := bytes.drop 42 }

theorem encodeProvisional_ok (p : ProvisionalHandshake) (bytes : Bytes) :
    encodeProvisional p = .ok bytes ↔
      (1 ≤ p.handshake.length ∧ p.handshake.length ≤ maxProvisionalHandshakeLen) ∧
        bytes = provisionalLayout p := by
  unfold encodeProvisional checkProvisional
  split
  · next hbad =>
    refine ⟨fun h => (by cases h), ?_⟩
    rintro ⟨⟨hpos, hmax⟩, -⟩
    rcases hbad with hempty | hlarge
    · rw [List.isEmpty_iff.mp hempty] at hpos
      cases hpos
    · omega
  · next hok =>
    obtain ⟨hne, hmax⟩ := not_or.mp hok
    have hpos : 1 ≤ p.handshake.length :=
      List.length_pos_iff.mpr fun he => hne (List.isEmpty_iff.mpr he)
    refine ⟨fun h => ⟨⟨hpos, Nat.not_lt.mp hmax⟩, (Except.ok.inj h).symm⟩, ?_⟩
    rintro ⟨-, rfl⟩
    rfl

theorem provisional_canonical :
    Canonical (fun p => 1 ≤ p.handshake.length ∧ p.handshake.length ≤ maxProvisionalHandshakeLen)
      provisionalLayout (fun bytes p => decodeProvisional bytes = .ok p) := by
  intro bytes p
  unfold decodeProvisional provisionalLayout maxProvisionalHandshakeLen
  dsimp only
  constructor
  · intro h
    split at h
    · cases h
    · next hok =>
      obtain ⟨hmin, hheader⟩ := not_or.mp hok
      split at h
      · cases h
      · next hlen =>
        obtain ⟨hpos, hmax, hlen⟩ : ¬ (u16.read bytes 40).toNat = 0 ∧
            ¬ 1024 < (u16.read bytes 40).toNat ∧ bytes.length = 42 + (u16.read bytes 40).toNat := by
          simpa only [not_or, not_not] using hlen
        have hheader := eq_withHeader hheader (by omega)
        have hbytes : bytes.drop 8 = bytes32.enc (bytes32.read bytes 8) ++
            (u16.enc (u16.read bytes 40) ++ bytes.drop 42) := by
          rw [u16.enc_read_append (show 40 + u16.width = 42 from rfl) (by omega),
            bytes32.enc_read_append (show 8 + bytes32.width = 40 from rfl) (by omega)]
        have hcount : (bytes.drop 42).length = (u16.read bytes 40).toNat := by
          rw [List.length_drop]
          omega
        obtain rfl := Except.ok.inj h
        refine ⟨by dsimp only; omega, ?_⟩
        dsimp only
        rw [hcount, UInt16.ofNat_toNat, ← hbytes]
        exact hheader
  · rintro ⟨⟨hpos, hmax⟩, rfl⟩
    have hcount : (UInt16.ofNat p.handshake.length).toNat = p.handshake.length := by
      rw [UInt16.toNat_ofNat', Nat.mod_eq_of_lt (by omega)]
    simp (disch := decide) only [withHeader_read, withHeader_drop, withHeader_length,
      withHeader_hasHeader, read_past, drop_past, read_here, List.length_append, Codec.enc_length,
      bytes32_width, u16_width, Nat.reduceSub, List.drop_zero, hcount]
    rw [if_neg (by simp; omega), if_neg (by omega)]

/-! ## Messages -/

/-- `encode_outbox`. -/
def encodeOutboxBytes (m : OutgoingMessage) : Bytes :=
  withHeader outboxMagic (u64.enc m.generation ++ (bytes32.enc m.messageId ++
    (byte.enc (UInt8.ofNat m.clientMessageId.length) ++ (m.clientMessageId ++
    (u32.enc (UInt32.ofNat m.wire.length) ++ m.wire)))))

/-- `decode_outbox`. -/
def decodeOutboxBytes (P : Platform) (bytes : Bytes) : Except MessagingError OutgoingMessage :=
  if bytes.length < 53 ∨ !hasHeader outboxMagic bytes then .error (.invalidRecord "outbox")
  else
    let generation := u64.read bytes 8
    let messageId := bytes32.read bytes 16
    let clientLen := (byte.read bytes 48).toNat
    let rest := bytes.drop 49
    if clientLen = 0 ∨ maxClientMessageIdLen < clientLen ∨ rest.length < clientLen + 4 then
      .error (.invalidRecord "outbox")
    else
      let clientMessageId := rest.take clientLen
      let rest := rest.drop clientLen
      let wireLen := (u32.read rest 0).toNat
      let wire := rest.drop 4
      if wire.length ≠ wireLen ∨ Messenger.messageId P wire ≠ messageId then
        .error (.invalidRecord "outbox")
      else .ok { messageId, clientMessageId, generation, wire }

/-- What a sender commits: the id is of the wire, and the lengths fit in their fields. -/
structure OutboxFits (P : Platform) (m : OutgoingMessage) : Prop where
  client : 1 ≤ m.clientMessageId.length ∧ m.clientMessageId.length ≤ maxClientMessageIdLen
  wire : m.wire.length < 2 ^ 32
  id : messageId P m.wire = m.messageId

theorem outbox_canonical (P : Platform) :
    Canonical (OutboxFits P) encodeOutboxBytes (fun bytes m => decodeOutboxBytes P bytes = .ok m) := by
  intro bytes m
  unfold decodeOutboxBytes encodeOutboxBytes
  dsimp only
  constructor
  · intro h
    split at h
    · cases h
    · next hok =>
      obtain ⟨hmin, hheader⟩ := not_or.mp hok
      split at h
      · cases h
      · next hlen =>
        obtain ⟨hpos, hmax, hlen⟩ : ¬ (byte.read bytes 48).toNat = 0 ∧
            ¬ maxClientMessageIdLen < (byte.read bytes 48).toNat ∧
            ¬ (bytes.drop 49).length < (byte.read bytes 48).toNat + 4 := by
          simpa only [not_or] using hlen
        split at h
        · cases h
        · next hwire =>
          obtain ⟨hwire, hid⟩ := not_or.mp hwire
          have hwire := not_not.mp hwire
          have hheader := eq_withHeader hheader (by omega)
          have hbytes : bytes.drop 8 = u64.enc (u64.read bytes 8) ++
              (bytes32.enc (bytes32.read bytes 16) ++ (byte.enc (byte.read bytes 48) ++ bytes.drop 49)) := by
            rw [byte.enc_read_append (show 48 + byte.width = 49 from rfl) (by omega),
              bytes32.enc_read_append (show 16 + bytes32.width = 48 from rfl) (by omega),
              u64.enc_read_append (show 8 + u64.width = 16 from rfl) (by omega)]
          generalize bytes.drop 49 = rest at *
          generalize hk : byte.read bytes 48 = k at *
          have hclient : (rest.take k.toNat).length = k.toNat := List.length_take_of_le (by omega)
          have hrest : rest = rest.take k.toNat ++ (u32.enc (u32.read (rest.drop k.toNat) 0) ++
              (rest.drop k.toNat).drop 4) := by
            rw [u32.enc_read_append (show 0 + u32.width = 4 from rfl)
              (by rw [List.length_drop]; omega), List.drop_zero, List.take_append_drop]
          obtain rfl := Except.ok.inj h
          refine ⟨⟨by dsimp only; omega, ?_, not_not.mp hid⟩, ?_⟩
          · dsimp only
            rw [hwire]
            exact (u32.read (rest.drop k.toNat) 0).toNat_lt
          · dsimp only
            rw [hclient, UInt8.ofNat_toNat, hwire, UInt32.ofNat_toNat, ← hrest, ← hbytes]
            exact hheader
  · rintro ⟨hfits, rfl⟩
    obtain ⟨⟨hpos, hmax⟩, hwire, hid⟩ := hfits
    have hclient : (UInt8.ofNat m.clientMessageId.length).toNat = m.clientMessageId.length := by
      rw [UInt8.toNat_ofNat', Nat.mod_eq_of_lt (Nat.lt_of_le_of_lt hmax (by decide))]
    have hcount : (UInt32.ofNat m.wire.length).toNat = m.wire.length := by
      rw [UInt32.toNat_ofNat', Nat.mod_eq_of_lt hwire]
    simp (disch := decide) only [withHeader_read, withHeader_drop, withHeader_length,
      withHeader_hasHeader, read_past, drop_past, read_here, List.length_append, Codec.enc_length,
      bytes32_width, u32_width, u64_width, byte_width, Nat.reduceSub, List.drop_zero, hclient, hcount,
      List.take_left, List.drop_left, hid]
    rw [if_neg (by simp; omega), if_neg (by omega), if_neg (by simp)]

/-- `encode_inbox`. -/
def encodeInboxBytes (m : IncomingMessage) : Bytes :=
  withHeader inboxMagic (u64.enc m.generation ++ (bytes32.enc m.messageId ++
    (u32.enc (UInt32.ofNat m.plaintext.length) ++ m.plaintext)))

/-- `decode_inbox`. -/
def decodeInboxBytes (bytes : Bytes) : Except MessagingError IncomingMessage :=
  if bytes.length < 52 ∨ !hasHeader inboxMagic bytes then .error (.invalidRecord "inbox")
  else
    let len := (u32.read bytes 48).toNat
    if bytes.length ≠ 52 + len then .error (.invalidRecord "inbox")
    else
      .ok { messageId := bytes32.read bytes 16, generation := u64.read bytes 8
            plaintext := bytes.drop 52 }

theorem inbox_canonical :
    Canonical (fun m => m.plaintext.length < 2 ^ 32) encodeInboxBytes
      (fun bytes m => decodeInboxBytes bytes = .ok m) := by
  intro bytes m
  unfold decodeInboxBytes encodeInboxBytes
  dsimp only
  constructor
  · intro h
    split at h
    · cases h
    · next hok =>
      obtain ⟨hmin, hheader⟩ := not_or.mp hok
      split at h
      · cases h
      · next hlen =>
        have hlen := not_not.mp hlen
        have hheader := eq_withHeader hheader (by omega)
        have hbytes : bytes.drop 8 = u64.enc (u64.read bytes 8) ++
            (bytes32.enc (bytes32.read bytes 16) ++ (u32.enc (u32.read bytes 48) ++ bytes.drop 52)) := by
          rw [u32.enc_read_append (show 48 + u32.width = 52 from rfl) (by omega),
            bytes32.enc_read_append (show 16 + bytes32.width = 48 from rfl) (by omega),
            u64.enc_read_append (show 8 + u64.width = 16 from rfl) (by omega)]
        have hcount : (bytes.drop 52).length = (u32.read bytes 48).toNat := by
          rw [List.length_drop]
          omega
        obtain rfl := Except.ok.inj h
        refine ⟨hcount ▸ (u32.read bytes 48).toNat_lt, ?_⟩
        dsimp only
        rw [hcount, UInt32.ofNat_toNat, ← hbytes]
        exact hheader
  · rintro ⟨hmax, rfl⟩
    have hcount : (UInt32.ofNat m.plaintext.length).toNat = m.plaintext.length := by
      rw [UInt32.toNat_ofNat', Nat.mod_eq_of_lt hmax]
    simp (disch := decide) only [withHeader_read, withHeader_drop, withHeader_length,
      withHeader_hasHeader, read_past, drop_past, read_here, List.length_append, Codec.enc_length,
      bytes32_width, u32_width, u64_width, Nat.reduceSub, List.drop_zero, hcount]
    rw [if_neg (by simp; omega), if_neg (by omega)]

/-! ## What a send became -/

/-- The bytes of a send record. -/
def encodeSendRecord : SendRecord → Bytes
  | .sent id => encodeIdRecord sendidMagic id
  | .abandoned id => encodeIdRecord abandonedMagic id

/-- The first part of `read_prior_send`, on the bytes of the record. -/
def decodeSendRecord (bytes : Bytes) : Except MessagingError SendRecord :=
  if bytes.take 7 = abandonedMagic.val then
    (decodeIdRecord abandonedMagic bytes "sendid").map .abandoned
  else (decodeIdRecord sendidMagic bytes "sendid").map .sent

theorem sendRecord_canonical :
    Canonical (fun _ => True) encodeSendRecord (fun bytes r => decodeSendRecord bytes = .ok r) := by
  have hmagic : ∀ (magic : Magic) (id : MessageId), (encodeIdRecord magic id).take 7 = magic.val :=
    fun magic id => List.take_left' magic.2
  intro bytes r
  unfold decodeSendRecord encodeSendRecord
  dsimp only
  constructor
  · intro h
    split at h
    · obtain ⟨id, hid, rfl⟩ := map_ok h
      exact ⟨trivial, ((idRecord_canonical _ _ _ _).mp hid).2⟩
    · obtain ⟨id, hid, rfl⟩ := map_ok h
      exact ⟨trivial, ((idRecord_canonical _ _ _ _).mp hid).2⟩
  · rintro ⟨-, rfl⟩
    cases r with
    | sent id =>
      dsimp only
      rw [hmagic, if_neg (by decide), (idRecord_canonical _ _ _ id).mpr ⟨trivial, rfl⟩]
      rfl
    | abandoned id =>
      dsimp only
      rw [hmagic, if_pos rfl, (idRecord_canonical _ _ _ id).mpr ⟨trivial, rfl⟩]
      rfl

/-! ## Kinds of records -/

/-- The records that begin with a magic. -/
inductive RecordKind where
  | handle
  | provisional
  | outbox
  | inbox
  | seen
  | sendid
  | abandoned
  deriving DecidableEq

namespace RecordKind

def magic : RecordKind → Magic
  | handle => handleMagic
  | provisional => provisionalMagic
  | outbox => outboxMagic
  | inbox => inboxMagic
  | seen => seenMagic
  | sendid => sendidMagic
  | abandoned => abandonedMagic

/-- The decoder of the kind takes the bytes. -/
def Accepts (P : Platform) (bytes : Bytes) : RecordKind → Prop
  | handle => ∃ peer, decodeHandle bytes = .ok peer
  | provisional => ∃ p, decodeProvisional bytes = .ok p
  | outbox => ∃ m, decodeOutboxBytes P bytes = .ok m
  | inbox => ∃ m, decodeInboxBytes bytes = .ok m
  | seen => ∃ id, decodeIdRecord seenMagic bytes "seen" = .ok id
  | sendid => ∃ id, decodeIdRecord sendidMagic bytes "sendid" = .ok id
  | abandoned => ∃ id, decodeIdRecord abandonedMagic bytes "sendid" = .ok id

/-- What a decoder takes begins with its magic. -/
theorem Accepts.take {P : Platform} {bytes : Bytes} {kind : RecordKind} (h : Accepts P bytes kind) :
    bytes.take 7 = kind.magic.val := by
  have hhead : ∀ (magic : Magic) (rest : Bytes), (withHeader magic rest).take 7 = magic.val :=
    fun magic rest => List.take_left' magic.2
  cases kind with
  | handle =>
    obtain ⟨peer, h⟩ := h
    obtain ⟨-, rfl⟩ := (handle_canonical _ _).mp h
    exact hhead _ _
  | provisional =>
    obtain ⟨p, h⟩ := h
    obtain ⟨-, rfl⟩ := (provisional_canonical _ _).mp h
    exact hhead _ _
  | outbox =>
    obtain ⟨m, h⟩ := h
    obtain ⟨-, rfl⟩ := (outbox_canonical P _ _).mp h
    exact hhead _ _
  | inbox =>
    obtain ⟨m, h⟩ := h
    obtain ⟨-, rfl⟩ := (inbox_canonical _ _).mp h
    exact hhead _ _
  | seen =>
    obtain ⟨id, h⟩ := h
    obtain ⟨-, rfl⟩ := (idRecord_canonical _ _ _ _).mp h
    exact hhead _ _
  | sendid =>
    obtain ⟨id, h⟩ := h
    obtain ⟨-, rfl⟩ := (idRecord_canonical _ _ _ _).mp h
    exact hhead _ _
  | abandoned =>
    obtain ⟨id, h⟩ := h
    obtain ⟨-, rfl⟩ := (idRecord_canonical _ _ _ _).mp h
    exact hhead _ _

/-- Bytes are a record of one kind. -/
theorem Accepts.unique {P : Platform} {bytes : Bytes} {kind kind' : RecordKind}
    (h : Accepts P bytes kind) (h' : Accepts P bytes kind') : kind = kind' := by
  have hmagic := h.take.symm.trans h'.take
  revert hmagic
  cases kind <;> cases kind' <;> decide

end RecordKind

end Messenger

end Arcium
