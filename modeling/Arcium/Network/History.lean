import Arcium.Mobile.Core

/-!
# The records of a conversation (`mobile-ffi/src/network/chat.rs`)

One entry per logical message, and what a conversation keeps beside its entries. Every change is one
transaction that reads what it depends on.
-/

namespace Arcium

open Conc

namespace Chat

variable {P : AppPlatform}

/-- `FLAG_CONFLICT`: both devices started a session with each other; ours is unconfirmed. -/
def flagConflict : UInt8 := 1

/-- `FLAG_IDENTITY_MISMATCH`: the peer's bundle names keys other than its pinned card. -/
def flagIdentityMismatch : UInt8 := 2

/-- `FLAG_ACCEPT_ONLY`: do not start a session, wait for the peer's. -/
def flagAcceptOnly : UInt8 := 4

/-- `FLAG_HANDSHAKE_REFUSED`. -/
def flagHandshakeRefused : UInt8 := 8

/-- `invalid`. -/
def invalid (msg : String) : CoreError := .invalidArgument msg

/-- What holds of every record beside a conversation: its texts fit their fields, and nothing is seen
that is not there. -/
structure Short (m : ChatMeta) : Prop where
  seen : m.seenSeq ≤ m.lastSeq
  name : m.name.utf8ByteSize < 2 ^ 16
  note : m.note.utf8ByteSize < 2 ^ 16

theorem short_default : Short {} := ⟨Nat.le_refl _, by decide, by decide⟩

theorem Short.withFlags {m : ChatMeta} {flags : UInt8} (h : Short m) : Short { m with flags } :=
  ⟨h.seen, h.name, h.note⟩

theorem Short.withNote {m : ChatMeta} {note : String} (h : Short m)
    (hn : note.utf8ByteSize < 2 ^ 16) : Short { m with note } := ⟨h.seen, h.name, hn⟩

theorem Short.withName {m : ChatMeta} {name : String} (h : Short m)
    (hn : name.utf8ByteSize < 2 ^ 16) : Short { m with name } := ⟨h.seen, hn, h.note⟩

/-- `meta`. -/
def metaOf (peer : Peer) : Core P ChatMeta := do
  match ← find CoreError.ofStorage (.chatMeta peer) with
  | some (m : ChatMeta) => return m
  | none => return {}

/-- The meta record inside a transaction. -/
def getMeta (read : (k : Key) → Except StorageError (Row P.Key k)) (peer : Peer) :
    Except CoreError ChatMeta := do
  match ← Core.getOpt read (.chatMeta peer) with
  | some (m : ChatMeta) => return m
  | none => return {}

/-- The transaction of `update_meta`. -/
def updateMetaTx (peer : Peer) (f : ChatMeta → ChatMeta)
    (read : (k : Key) → Except StorageError (Row P.Key k)) :
    Except CoreError (Unit × List (Change P.Key)) := do
  let before ← getMeta read peer
  if f before ≠ before then return ((), [⟨.chatMeta peer, some (f before)⟩]) else return ((), [])

/-- `update_meta`. -/
def updateMeta (peer : Peer) (f : ChatMeta → ChatMeta) : Core P Unit :=
  tx Core.storeErrors (updateMetaTx peer f)

/-- `set_flag`. -/
def setFlag (peer : Peer) (flag : UInt8) : Core P Unit :=
  updateMeta peer fun m => { m with flags := m.flags ||| flag }

/-- `m.flags &= !flags`. -/
def clearFlags (flags : UInt8) (m : ChatMeta) : ChatMeta :=
  { m with flags := m.flags &&& ~~~flags }

/-- `entry`. -/
def entry (peer : Peer) (seq : Nat) : Core P Entry := Core.get (.chatEntry peer seq)

/-- The entries under `seqs`, each read on its own. -/
def readEntries (peer : Peer) : List Nat → Core P (List Entry)
  | [] => return []
  | seq :: seqs => do
    let e ← entry peer seq
    return e :: (← readEntries peer seqs)

/-- `entries`. -/
def entries (peer : Peer) : Core P (List Entry) := do
  let out ← readEntries peer (← keysUnder CoreError.ofStorage fun rows => rows.chatSeqs peer)
  return out.mergeSort fun a b => a.seq ≤ b.seq

/-- The steps forward of an entry. -/
def forward : ChatEntryState → ChatEntryState → Bool
  | .queued, .pending | .queued, .transmitted | .queued, .delivered | .queued, .notDelivered => true
  | .pending, .transmitted | .pending, .delivered | .pending, .notDelivered => true
  | .transmitted, .delivered | .transmitted, .notDelivered => true
  | _, _ => false

/-- The entry moved forward to `state`, with its message id if it had none. `none` if nothing
changes. -/
def advanced (e : Entry) (state : ChatEntryState) (messageId : Option MessageId) : Option Entry :=
  let id := if e.messageId.isEmpty then messageId else none
  if !forward e.state state && id.isNone then none
  else
    some { e with
      state := if forward e.state state then state else e.state
      messageId := match id with
        | some id => id.val
        | none => e.messageId }

/-- The transaction of `advance`. -/
def advanceTx (peer : Peer) (seq : Nat) (state : ChatEntryState) (messageId : Option MessageId)
    (read : (k : Key) → Except StorageError (Row P.Key k)) :
    Except CoreError (Unit × List (Change P.Key)) :=
  match read (.chatEntry peer seq) with
  | .error e => .error (.ofStorage e)
  | .ok (e : Entry) =>
    match advanced e state messageId with
    | some e' => .ok ((), [⟨.chatEntry peer seq, some e'⟩])
    | none => .ok ((), [])

/-- `advance`. -/
def advance (peer : Peer) (seq : Nat) (state : ChatEntryState) (messageId : Option MessageId) :
    Core P Unit := tx Core.storeErrors (advanceTx peer seq state messageId)

/-- The transaction of `record_incoming`. -/
def recordIncomingTx (peer : Peer) (messageId : MessageId) (text : Bytes) (now : UInt64)
    (read : (k : Key) → Except StorageError (Row P.Key k)) :
    Except CoreError (Unit × List (Change P.Key)) := do
  if (← Core.getOpt read (.chatIn peer messageId.val)).isSome then return ((), [])
  let m ← getMeta read peer
  let seq := m.lastSeq + 1
  let e : Entry :=
    { seq, outgoing := false, state := .received, atMs := now, appId := []
      messageId := messageId.val, text }
  return ((), [⟨.chatEntry peer seq, some e⟩, ⟨.chatIn peer messageId.val, some seq⟩,
    ⟨.chatMeta peer, some { m with lastSeq := seq }⟩])

/-- `record_incoming`. -/
def recordIncoming (peer : Peer) (messageId : MessageId) (text : Bytes) : Core P Unit := do
  let now ← draw Choice.now
  tx Core.storeErrors (recordIncomingTx peer messageId text now)

/-- The transaction of `claim_for_send_text`. -/
def claimForSendTextTx (peer : Peer) (appId : Bytes)
    (read : (k : Key) → Except StorageError (Row P.Key k)) :
    Except CoreError (Unit × List (Change P.Key)) := do
  if (← Core.getOpt read (.chatOut peer appId)).isSome then
    throw (invalid "app id already used by the chat history")
  if (← Core.getOpt read (.chatRaw peer appId)).isNone then
    return ((), [⟨.chatRaw peer appId, some ()⟩])
  else return ((), [])

/-- `claim_for_send_text`. -/
def claimForSendText (peer : Peer) (appId : Bytes) : Core P Unit :=
  tx Core.storeErrors (claimForSendTextTx peer appId)

/-- The transaction of `chat_send`: the entry under `appId`, recorded now unless it is there. -/
def queueTx (peer : Peer) (appId text : Bytes) (sentRaw : Bool) (now : UInt64)
    (read : (k : Key) → Except StorageError (Row P.Key k)) :
    Except CoreError (Nat × List (Change P.Key)) := do
  match ← Core.getOpt read (.chatOut peer appId) with
  | some (seq : Nat) => return (seq, [])
  | none =>
    if sentRaw || (← Core.getOpt read (.chatRaw peer appId)).isSome then
      throw (invalid "app id already used by send_text")
    let m ← getMeta read peer
    let seq := m.lastSeq + 1
    let e : Entry :=
      { seq, outgoing := true, state := .queued, atMs := now, appId, messageId := [], text }
    return (seq, [⟨.chatEntry peer seq, some e⟩, ⟨.chatOut peer appId, some seq⟩,
      ⟨.chatMeta peer, some { m with lastSeq := seq }⟩])

end Chat

end Arcium
