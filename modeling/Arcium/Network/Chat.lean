import Arcium.Network.Messenger

/-!
# Conversations (`mobile-ffi/src/network/chat.rs`)

What the application shows and keeps of a conversation. `refresh` brings the history up to date with
the inbox and the outbox; `resolve_session_conflict` gives up a session that the peer does not
accept; `sync_conversations` is a round for every conversation.
-/

namespace Arcium

open Conc

namespace Chat

open Round (core)
open Network

variable {P : AppPlatform}

/-- `MAX_NAME_LEN`. -/
def maxNameLen : Nat := 128

/-- `MAX_TEXT_LEN`. -/
def maxTextLen : Nat := 16 * 1024

/-- `char::is_whitespace`: the Unicode property `White_Space`. -/
def isWhitespace (c : Char) : Bool :=
  (9 ≤ c.toNat && c.toNat ≤ 13) || (0x2000 ≤ c.toNat && c.toNat ≤ 0x200A) ||
    [0x20, 0x85, 0xA0, 0x1680, 0x2028, 0x2029, 0x202F, 0x205F, 0x3000].contains c.toNat

/-- `str::trim`. -/
def trim (s : String) : String :=
  String.ofList ((s.toList.dropWhile isWhitespace).reverse.dropWhile isWhitespace).reverse

/-- `checked_name`. -/
def checkedName (name : String) : Except CoreError String :=
  let name := trim name
  if name.isEmpty ∨ maxNameLen < name.utf8ByteSize then
    .error (invalid "contact name must be 1 to 128 bytes")
  else .ok name

/-- `add_named_contact`. -/
def addNamedContact (card : Bytes) (name : String) : Core P Peer := do
  let name ← Core.lift (checkedName name)
  let peer ← Core.addContact card
  updateMeta peer fun m => { m with name }
  return peer

/-- `rename_contact`. -/
def renameContact (peer : Peer) (name : String) : Core P Unit := do
  let name ← Core.lift (checkedName name)
  let _ ← requireContact peer
  updateMeta peer fun m => { m with name }

/-- `mark_seen`. -/
def markSeen (peer : Peer) : Core P Unit := do
  let _ ← requireContact peer
  updateMeta peer fun m => { m with seenSeq := m.lastSeq }

/-! ## Refreshing -/

/-- `Refresh`. -/
structure Refresh where
  committed : Nat := 0
  waiting : Nat := 0

/-- The received texts: into the history, then marked read. -/
def recordTexts (peer : Peer) : List (MessageId × Bytes) → Core P Unit
  | [] => return
  | (id, text) :: rest => do
    recordIncoming peer id text
    let _ ← markRead peer id.val
    recordTexts peer rest

/-- What the state of a sent text is for its entry. -/
def entryState : TextState → ChatEntryState
  | .pending => .pending
  | .delivered => .delivered
  | .abandoned => .notDelivered

/-- What the send record says about an entry that left the outbox. -/
def settledState (e : Entry) : Option SendOutcome → Option ChatEntryState
  | some (.alreadyAcknowledged id) => if id.val = e.messageId then some .delivered else none
  | some (.abandoned id) => if id.val = e.messageId then some .notDelivered else none
  | _ => none

/-- An outgoing entry whose message is committed. `pending` are the ids in the outbox. -/
def settleEntry (i : Nat) (peer : Peer) (pending : List MessageId) (e : Entry) : Core P Unit := do
  if !pending.any fun id => id.val == e.messageId then
    match settledState e (← Core.priorSend peer (ClientId.text e.appId)) with
    | some state => advance peer e.seq state none
    | none => pure ()
  else if e.state = .pending then
    if ← wasSent i e.messageId then advance peer e.seq .transmitted none

/-- One outgoing entry. -/
def refreshEntry (i : Nat) (peer : Peer) (canSend : Bool) (pending : List MessageId) (e : Entry)
    (r : Refresh) : Core P Refresh := do
  match e.state with
  | .queued =>
    if canSend then
      let sent ← sendCommittedText i peer e.appId e.text
      advance peer e.seq (entryState sent.state) (some sent.messageId)
      return { r with committed := r.committed + 1 }
    else return { r with waiting := r.waiting + 1 }
  | .pending | .transmitted =>
    settleEntry i peer pending e
    return r
  | _ => return r

/-- The outgoing entries, in order. -/
def refreshEntries (i : Nat) (peer : Peer) (canSend : Bool) (pending : List MessageId) :
    List Entry → Refresh → Core P Refresh
  | [], r => return r
  | e :: es, r => do
    if e.outgoing then
      refreshEntries i peer canSend pending es (← refreshEntry i peer canSend pending e r)
    else refreshEntries i peer canSend pending es r

/-- `refresh`. -/
def refresh (i : Nat) (peer : Peer) : Core P Refresh := do
  let handle := localSessionHandle P peer
  let hasSession ← Core.hasSession handle
  if hasSession then recordTexts peer (← pendingTexts peer)
  let pending ← if hasSession then Core.pendingOutgoing handle else pure []
  -- A responder session that an older build stored cannot encrypt yet.
  let legacy ← if hasSession then Core.isLegacyUnconfirmed handle else pure false
  refreshEntries i peer (hasSession && !legacy) (pending.map OutgoingMessage.messageId) (← entries peer) {}

/-- `chat_entries`. -/
def chatEntries (i : Nat) (peer : Peer) : Core P (List Entry) := do
  let _ ← requireContact peer
  let _ ← refresh i peer
  entries peer

/-- `chat_send`. -/
def chatSend (i : Nat) (peer : Peer) (appId text : Bytes) : Core P Entry := do
  let _ ← requireContact peer
  if appId.isEmpty ∨ 63 < appId.length then throw (invalid "app id must be 1 to 63 bytes")
  if text.isEmpty ∨ maxTextLen < text.length then throw (invalid "text must be 1 to 16384 bytes")
  let sentRaw := (← Core.priorSend peer (ClientId.text appId)).isSome
  let now ← draw Choice.now
  let seq ← tx Core.storeErrors (queueTx peer appId text sentRaw now)
  let _ ← refresh i peer
  entry peer seq

/-! ## Conflicts -/

/-- The texts committed to a session that is given up. -/
def giveUpEntries (peer : Peer) : List Entry → Core P Unit
  | [] => return
  | e :: es => do
    if e.outgoing && (e.state == .pending || e.state == .transmitted) then
      advance peer e.seq .notDelivered none
    giveUpEntries peer es

/-- Their outbox records. -/
def abandonAll (handle : UInt64) : List OutgoingMessage → Core P Unit
  | [] => return
  | m :: ms => do
    let _ ← Core.abandonOutgoing handle m.messageId.val
    abandonAll handle ms

/-- What is left to do for a conflict once our session is gone. -/
def awaitPeer (peer : Peer) : Core P Unit :=
  updateMeta peer fun m =>
    { clearFlags flagConflict { m with flags := m.flags ||| flagAcceptOnly } with note := "" }

/-- `resolve_session_conflict`. -/
def resolveSessionConflict (i : Nat) (peer : Peer) : Core P Unit := do
  let _ ← requireContact peer
  let m ← metaOf peer
  if m.flags &&& flagConflict = 0 then throw (invalid "no session conflict with this contact")
  if (← Core.ourIdentityPk).val ≤ peer.val then
    throw (invalid "the contact's device resolves this conflict")
  let handle := localSessionHandle P peer
  if !(← Core.hasSession handle) then awaitPeer peer
  else if ← confirmed handle then updateMeta peer (clearFlags flagConflict)
  else
    updateMeta peer fun m => { m with flags := m.flags ||| flagAcceptOnly }
    giveUpEntries peer (← entries peer)
    abandonAll handle (← Core.pendingOutgoing handle)
    Core.removeSession i handle
    awaitPeer peer

/-! ## Rounds -/

/-- `merge`. -/
def merge (into r : SyncReport) : SyncReport where
  published := into.published + r.published
  fetched := into.fetched + r.fetched
  accepted := into.accepted + r.accepted
  duplicates := into.duplicates + r.duplicates
  sessionsAccepted := into.sessionsAccepted + r.sessionsAccepted
  delivered := into.delivered + r.delivered
  dropped := into.dropped + r.dropped
  deferred := into.deferred + r.deferred
  errors := into.errors ++ r.errors

/-- `merge(report, self.sync())`. -/
def syncInto (i : Nat) : Round P Unit := do
  let r ← core (Op.attempt (sync i))
  Round.tally fun report => merge report r

/-- `refresh` of every conversation; how many texts it committed. -/
def refreshAll (i : Nat) : List Peer → Round P Nat
  | [] => return 0
  | peer :: peers => do
    let r ← core (refresh i peer)
    return r.committed + (← refreshAll i peers)

/-- A session with a contact that has queued texts and none yet. Whether it was started. -/
def startQueued (i : Nat) (peer : Peer) : Round P Bool := do
  match ← Round.attempt (startSession i peer) with
  | .ok () =>
    core (updateMeta peer fun m => { clearFlags flagIdentityMismatch m with note := "" })
    return true
  | .error .peerBundleUnavailable =>
    core (updateMeta peer fun m => { m with
      note := "the contact's keys are not on the relay yet: they have to open the app while connected" })
    return false
  | .error .peerIdentityMismatch =>
    core (updateMeta peer fun m => { m with flags := m.flags ||| flagIdentityMismatch })
    return false
  | .error (.sessionAlreadyExists _) => return false
  | .error e =>
    Round.failed e.text
    return false

/-- One conversation after the sync. Whether a session was started for it. -/
def startOne (i : Nat) (peer : Peer) : Round P Bool := do
  let r ← core (refresh i peer)
  let handle := localSessionHandle P peer
  if ← core (Core.hasSession handle) then
    let peersSession ← core (confirmed handle)
    core (updateMeta peer fun m =>
      let m := clearFlags (flagIdentityMismatch ||| flagHandshakeRefused) m
      let m := if peersSession then clearFlags (flagConflict ||| flagAcceptOnly) m else m
      { m with note := "" })
    return false
  if r.waiting = 0 then return false
  if (← core (metaOf peer)).flags &&& flagAcceptOnly ≠ 0 then return false
  startQueued i peer

/-- The conversations after the sync. -/
def startAll (i : Nat) : List Peer → Round P Bool
  | [] => return false
  | peer :: peers => do
    let started ← startOne i peer
    return started || (← startAll i peers)

/-- `sync_conversations_round`. -/
def syncConversationsRound (i : Nat) : Round P Unit := do
  let peers ← core Core.contacts
  let _ ← refreshAll i peers
  syncInto i
  let started ← startAll i peers
  let committed ← refreshAll i peers
  if started || 0 < committed then
    syncInto i
    let _ ← refreshAll i peers

/-- `sync_conversations`. -/
def syncConversations (i : Nat) : Prog Choice (Device P.Key Memory) SyncReport :=
  reportOf (syncConversationsRound i)

end Chat

end Arcium
