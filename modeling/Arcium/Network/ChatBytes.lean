import Arcium.Base.Reader
import Arcium.Storage.Encrypted
import Arcium.Protocol.RecordBytes
import Arcium.Network.Wire
import Arcium.Mobile.Formats

/-!
# The bytes of a conversation's records (`mobile-ffi/src/network/chat.rs`)

An entry and the meta record have fixed fields, and then fields that begin with their length. Its
position is not part of an entry: the key has it.

`records_canonical`: the records of the messenger and of the chat, envelopes and payloads have one
encoding each, and no decoder takes another's record.
-/

namespace Arcium

open Codec

theorem asBytes_of_fromUtf8 {b : Bytes} {s : String} (h : fromUtf8 b = some s) : asBytes s = b := by
  unfold fromUtf8 String.fromUTF8? at h
  split at h
  · rw [← Option.some.inj h]
    exact List.toList_toArray
  · cases h

namespace ChatEntryState

/-- `code`. -/
def code : ChatEntryState → UInt8
  | queued => 0
  | pending => 1
  | transmitted => 2
  | delivered => 3
  | notDelivered => 4
  | received => 5

/-- `from_code`. -/
def fromCode (code : UInt8) : Option ChatEntryState :=
  if code = 0 then some queued
  else if code = 1 then some pending
  else if code = 2 then some transmitted
  else if code = 3 then some delivered
  else if code = 4 then some notDelivered
  else if code = 5 then some received
  else none

theorem fromCode_eq {c : UInt8} {state : ChatEntryState} :
    fromCode c = some state ↔ c = state.code := by
  constructor
  · intro h
    unfold fromCode at h
    split_ifs at h with h0 h1 h2 h3 h4 h5
    all_goals
      obtain rfl := Option.some.inj h
      assumption
  · rintro rfl
    cases state <;> rfl

end ChatEntryState

namespace Chat

/-- `corrupt`. -/
def corrupt (what : String) : CoreError := .storage s!"corrupt chat {what} record"

/-! ## Entries -/

/-- `ENTRY_VERSION`. -/
def entryVersion : UInt8 := 1

/-- `Entry::encode`. -/
def encodeEntry (e : Entry) : Bytes :=
  byte.enc entryVersion ++ (byte.enc (if e.outgoing then 1 else 0) ++ (byte.enc e.state.code ++
    (u64.enc e.atMs ++ ((byte.enc (UInt8.ofNat e.appId.length) ++ e.appId) ++
    ((byte.enc (UInt8.ofNat e.messageId.length) ++ e.messageId) ++ e.text)))))

/-- `field`, a closure of `Entry::decode`. -/
def entryField : Reader CoreError Bytes := Reader.sized (corrupt "entry") Counter.u8

/-- `Entry::decode`. -/
def decodeEntry (seq : Nat) (bytes : Bytes) : Except CoreError Entry :=
  if bytes.length < 13 ∨ byte.read bytes 0 ≠ entryVersion ∨ 1 < byte.read bytes 1 then
    .error (corrupt "entry")
  else
    match ChatEntryState.fromCode (byte.read bytes 2) with
    | none => .error (corrupt "entry")
    | some state =>
      Reader.parse (do
        let appId ← entryField
        let messageId ← entryField
        let text ← Reader.rest
        return ({ seq, outgoing := byte.read bytes 1 == 1, state, atMs := u64.read bytes 3, appId
                  messageId, text } : Entry)) (bytes.drop 11)

theorem entryField_ok {b a r : Bytes} : entryField b = .ok (a, r) ↔
    a.length < 256 ∧ b = (byte.enc (UInt8.ofNat a.length) ++ a) ++ r := Reader.sized_exact b a r

/-- A byte that is 0 or 1. -/
theorem flag_of_le {b : UInt8} (h : ¬ 1 < b) : (if (b == 1) = true then (1 : UInt8) else 0) = b := by
  have hle : b.toNat ≤ 1 := UInt8.le_iff_toNat_le.mp (UInt8.not_lt.mp h)
  by_cases h1 : b = 1
  · rw [h1]
    rfl
  · have h0 : b = 0 := by
      apply UInt8.toNat_inj.mp
      have hne : b.toNat ≠ 1 := fun he => h1 (UInt8.toNat_inj.mp he)
      show b.toNat = 0
      omega
    rw [h0]
    rfl

theorem entry_canonical (seq : Nat) :
    Canonical (fun e => e.seq = seq ∧ e.appId.length < 256 ∧ e.messageId.length < 256) encodeEntry
      (fun bytes e => decodeEntry seq bytes = .ok e) := by
  intro bytes e
  unfold decodeEntry encodeEntry
  dsimp only
  constructor
  · intro h
    split at h
    · cases h
    · next hok =>
      obtain ⟨hmin, hversion, hflag⟩ : ¬ bytes.length < 13 ∧ byte.read bytes 0 = entryVersion ∧
          ¬ 1 < byte.read bytes 1 := by simpa only [not_or, not_not] using hok
      split at h
      · cases h
      · next state hstate =>
        simp only [Reader.parse_ok, Reader.bind_ok, Reader.pure_ok, Reader.rest_ok, entryField_ok] at h
        obtain ⟨_, appId, _, ⟨happ, hdrop⟩, messageId, _, ⟨hid, rfl⟩, text, _, ⟨rfl, rfl⟩, rfl, rfl⟩ := h
        refine ⟨⟨rfl, happ, hid⟩, ?_⟩
        dsimp only
        rw [← hdrop, flag_of_le hflag, ← ChatEntryState.fromCode_eq.mp hstate, ← hversion,
          u64.enc_read_append (show 3 + u64.width = 11 from rfl) (by omega),
          byte.enc_read_append (show 2 + byte.width = 3 from rfl) (by omega),
          byte.enc_read_append (show 1 + byte.width = 2 from rfl) (by omega),
          byte.enc_read_append (show 0 + byte.width = 1 from rfl) (by omega), List.drop_zero]
  · rintro ⟨⟨rfl, happ, hid⟩, rfl⟩
    simp (disch := decide) only [read_past, drop_past, read_here, byte_width, u64_width, Nat.reduceSub,
      List.drop_zero]
    have hflag : ∀ o : Bool, ¬ 1 < (if o then 1 else 0 : UInt8) ∧ ((if o then 1 else 0 : UInt8) == 1) = o := by
      decide
    obtain ⟨hle, houtgoing⟩ := hflag e.outgoing
    rw [if_neg (by simp [hle, byte, u64, be64]; omega), ChatEntryState.fromCode_eq.mpr rfl]
    simp only [Reader.parse_ok, Reader.bind_ok, Reader.pure_ok, Reader.rest_ok, entryField_ok, houtgoing]
    exact ⟨[], e.appId, _, ⟨happ, rfl⟩, e.messageId, _, ⟨hid, rfl⟩, e.text, [], ⟨rfl, rfl⟩, rfl, rfl⟩

/-! ## The meta record -/

/-- `META_VERSION`. -/
def metaVersion : UInt8 := 1

/-- The bytes of a name or a note. -/
def encodeString (s : String) : Bytes :=
  u16.enc (UInt16.ofNat (asBytes s).length) ++ asBytes s

/-- `Meta::encode`. -/
def encodeMeta (m : ChatMeta) : Bytes :=
  byte.enc metaVersion ++ (u64.enc (UInt64.ofNat m.lastSeq) ++ (u64.enc (UInt64.ofNat m.seenSeq) ++
    (byte.enc m.flags ++ (encodeString m.name ++ encodeString m.note))))

/-- `string`, a closure of `Meta::decode`. -/
def metaString : Reader CoreError String := do
  let bytes ← Reader.sized (corrupt "meta") Counter.u16
  match fromUtf8 bytes with
  | some s => return s
  | none => throw (corrupt "meta")

/-- `Meta::decode`. -/
def decodeMeta (bytes : Bytes) : Except CoreError ChatMeta :=
  if bytes.length < 18 ∨ byte.read bytes 0 ≠ metaVersion then .error (corrupt "meta")
  else
    Reader.parse (do
      let name ← metaString
      let note ← metaString
      Reader.finish (corrupt "meta")
      return ({ lastSeq := (u64.read bytes 1).toNat, seenSeq := (u64.read bytes 9).toNat
                flags := byte.read bytes 17, name, note } : ChatMeta)) (bytes.drop 18)

theorem metaString_exact : metaString.Exact (fun s => (asBytes s).length < 2 ^ 16) encodeString := by
  intro b s r
  unfold metaString
  rw [Reader.bind_ok]
  constructor
  · rintro ⟨bytes, r', hbytes, h⟩
    obtain ⟨hlen, rfl⟩ := (Reader.sized_exact _ _ _).mp hbytes
    cases hs : fromUtf8 bytes with
    | some s' =>
      rw [hs] at h
      obtain ⟨rfl, rfl⟩ := Reader.pure_ok.mp h
      dsimp only
      rw [encodeString, asBytes_of_fromUtf8 hs]
      exact ⟨hlen, rfl⟩
    | none =>
      rw [hs] at h
      exact (Reader.throw_ok.mp h).elim
  · rintro ⟨hlen, rfl⟩
    refine ⟨asBytes s, r, (Reader.sized_exact _ _ _).mpr ⟨hlen, rfl⟩, ?_⟩
    rw [fromUtf8_asBytes]
    exact Reader.pure_ok.mpr ⟨rfl, rfl⟩

/-- The positions are 64-bit numbers, and the lengths of the strings fit in two bytes. -/
structure MetaFits (m : ChatMeta) : Prop where
  lastSeq : m.lastSeq < 2 ^ 64
  seenSeq : m.seenSeq < 2 ^ 64
  name : (asBytes m.name).length < 2 ^ 16
  note : (asBytes m.note).length < 2 ^ 16

theorem meta_canonical :
    Canonical MetaFits encodeMeta (fun bytes m => decodeMeta bytes = .ok m) := by
  intro bytes m
  unfold decodeMeta encodeMeta
  dsimp only
  constructor
  · intro h
    split at h
    · cases h
    · next hok =>
      obtain ⟨hmin, hversion⟩ := not_or.mp hok
      simp only [Reader.parse_ok, Reader.bind_ok, Reader.pure_ok, Reader.finish_ok,
        metaString_exact _ _ _] at h
      obtain ⟨_, name, _, ⟨hname, hdrop⟩, note, _, ⟨hnote, rfl⟩, _, _, ⟨rfl, rfl⟩, rfl, rfl⟩ := h
      refine ⟨⟨(u64.read bytes 1).toNat_lt, (u64.read bytes 9).toNat_lt, hname, hnote⟩, ?_⟩
      dsimp only
      rw [List.append_nil] at hdrop
      rw [← hdrop, UInt64.ofNat_toNat, UInt64.ofNat_toNat, ← not_not.mp hversion,
        byte.enc_read_append (show 17 + byte.width = 18 from rfl) (by omega),
        u64.enc_read_append (show 9 + u64.width = 17 from rfl) (by omega),
        u64.enc_read_append (show 1 + u64.width = 9 from rfl) (by omega),
        byte.enc_read_append (show 0 + byte.width = 1 from rfl) (by omega), List.drop_zero]
  · rintro ⟨⟨hlast, hseen, hname, hnote⟩, rfl⟩
    have hlast : (UInt64.ofNat m.lastSeq).toNat = m.lastSeq := by
      rw [UInt64.toNat_ofNat', Nat.mod_eq_of_lt hlast]
    have hseen : (UInt64.ofNat m.seenSeq).toNat = m.seenSeq := by
      rw [UInt64.toNat_ofNat', Nat.mod_eq_of_lt hseen]
    simp (disch := decide) only [read_past, drop_past, read_here, byte_width, u64_width, Nat.reduceSub,
      List.drop_zero, hlast, hseen]
    rw [if_neg (by simp [byte, u64, be64])]
    simp only [Reader.parse_ok, Reader.bind_ok, Reader.pure_ok, Reader.finish_ok,
      metaString_exact _ _ _]
    exact ⟨[], m.name, _, ⟨hname, rfl⟩, m.note, [], ⟨hnote, (List.append_nil _).symm⟩, (), [],
      ⟨rfl, rfl⟩, rfl, rfl⟩

end Chat

/-! ## All of them -/

/-- Every record, envelope and payload has one encoding, and is of one kind. -/
structure RecordsCanonical (P : Platform) : Prop where
  handle : Canonical (fun _ => True) Messenger.encodeHandle
    (fun bytes peer => Messenger.decodeHandle bytes = .ok peer)
  provisional : Canonical
    (fun p => 1 ≤ p.handshake.length ∧ p.handshake.length ≤ Messenger.maxProvisionalHandshakeLen)
    Messenger.provisionalLayout (fun bytes p => Messenger.decodeProvisional bytes = .ok p)
  /-- The encoder of a handshake refuses what its decoder would. -/
  writes : ∀ p bytes, Messenger.encodeProvisional p = .ok bytes ↔
    (1 ≤ p.handshake.length ∧ p.handshake.length ≤ Messenger.maxProvisionalHandshakeLen) ∧
      bytes = Messenger.provisionalLayout p
  outbox : Canonical (Messenger.OutboxFits P) Messenger.encodeOutboxBytes
    (fun bytes m => Messenger.decodeOutboxBytes P bytes = .ok m)
  inbox : Canonical (fun m => m.plaintext.length < 2 ^ 32) Messenger.encodeInboxBytes
    (fun bytes m => Messenger.decodeInboxBytes bytes = .ok m)
  id : ∀ magic what, Canonical (fun _ => True) (Messenger.encodeIdRecord magic)
    (fun bytes id => Messenger.decodeIdRecord magic bytes what = .ok id)
  sent : Canonical (fun _ => True) Messenger.encodeSendRecord
    (fun bytes r => Messenger.decodeSendRecord bytes = .ok r)
  entry : ∀ seq, Canonical
    (fun e => e.seq = seq ∧ e.appId.length < 256 ∧ e.messageId.length < 256) Chat.encodeEntry
    (fun bytes e => Chat.decodeEntry seq bytes = .ok e)
  chatMeta : Canonical Chat.MetaFits Chat.encodeMeta (fun bytes m => Chat.decodeMeta bytes = .ok m)
  envelope : Canonical (fun _ => True) Envelope.encode (fun bytes e => Envelope.decode bytes = some e)
  payload : Canonical Payload.Valid Payload.encode (fun bytes p => Payload.decode bytes = some p)
  kinds : ∀ bytes kind kind', Messenger.RecordKind.Accepts P bytes kind →
    Messenger.RecordKind.Accepts P bytes kind' → kind = kind'

/-- **Records are canonical**: what was written is read, what is read was written, and no record is
taken for one of another kind. -/
theorem records_canonical (P : Platform) : RecordsCanonical P where
  handle := Messenger.handle_canonical
  provisional := Messenger.provisional_canonical
  writes := Messenger.encodeProvisional_ok
  outbox := Messenger.outbox_canonical P
  inbox := Messenger.inbox_canonical
  id := Messenger.idRecord_canonical
  sent := Messenger.sendRecord_canonical
  entry := Chat.entry_canonical
  chatMeta := Chat.meta_canonical
  envelope := Envelope.canonical
  payload := Payload.canonical
  kinds _ _ _ := Messenger.RecordKind.Accepts.unique

end Arcium
