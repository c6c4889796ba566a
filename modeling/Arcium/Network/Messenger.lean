import Arcium.Network.History

/-!
# The network layer (`mobile-ffi/src/network.rs`)

`NetworkMessenger` moves what the messenger has committed: it publishes stored bytes through the
relay and feeds received bytes to the core. `i` is the instance that runs, and its core. Every
request to the relay is one action; the answer is whatever the relay says.

A round writes a report, which it keeps when it fails: `Round` is a program of the core with a
`SyncReport` as its state.
-/

namespace Arcium

open Conc

/-- `SyncReport`. -/
structure SyncReport where
  published : Nat := 0
  fetched : Nat := 0
  accepted : Nat := 0
  duplicates : Nat := 0
  sessionsAccepted : Nat := 0
  delivered : Nat := 0
  dropped : Nat := 0
  deferred : Nat := 0
  errors : List String := []
  deriving DecidableEq, Repr

/-- A part of a round. -/
abbrev Round (P : AppPlatform) (α : Type) :=
  ExceptT CoreError (StateT SyncReport (Prog Choice (Device P.Key Memory))) α

namespace Round

variable {P : AppPlatform} {α : Type}

/-- An operation of the core, in a round. -/
def core (x : Core P α) : Round P α :=
  ExceptT.mk fun report => x.run.bind fun r => .ret (r, report)

/-- Count in the report. -/
def tally (f : SyncReport → SyncReport) : Round P Unit :=
  ExceptT.mk fun report => .ret (.ok (), f report)

/-- Count a failure. -/
def failed (msg : String) : Round P Unit :=
  tally fun r => { r with errors := r.errors ++ [msg] }

/-- Count an envelope that is not used. -/
def dropped : Round P Unit := tally fun r => { r with dropped := r.dropped + 1 }

/-- Run `x` and hand over its result, error or not. A panic goes on. -/
def attempt (x : Core P α) : Round P (Except CoreError α) := do
  match ← core (Op.attempt x.run) with
  | .error (.panic msg) => throw (.panic msg)
  | r => return r

end Round

/-- `TextState`. -/
inductive TextState where
  | pending
  | delivered
  | abandoned
  deriving DecidableEq, Repr

/-- `SentText`. -/
structure SentText where
  messageId : MessageId
  state : TextState
  deriving DecidableEq

/-- `Fate`, with the verdict behind a deletion, which no program reads. -/
inductive Fate where
  | delete (verdict : Verdict)
  | keep
  deriving DecidableEq

/-- `Pass`: which envelopes a pass over the mailbox processes. -/
inductive Pass where
  | handshakes
  | messages
  deriving DecidableEq, Repr

/-- `MAX_FETCH`. -/
def maxFetch : UInt16 := 256

/-- `MIN_PAGE`: the fewest envelopes of a page that has another after it. -/
def minPage : Nat := ((1 <<< 20) - 3) / (12 + 64 * 1024)

/-- `MAX_SCAN_ENVELOPES`. -/
def maxScanEnvelopes : Nat := 4096

/-- `MAX_SCAN_PAGES`. -/
def maxScanPages : Nat := (maxScanEnvelopes + minPage - 1) / minPage

/-- `transient`: after these errors the same input may succeed later. -/
def transient : CoreError → Bool
  | .storage _ | .sessionConflict _ | .commitOutcomeUnknown _ _ | .repeatableOutcomeUnknown _
  | .sessionUnresolved _ _ => true
  | _ => false

namespace Network

open Round (core)

variable {P : AppPlatform}

/-- A request, and what the relay answers to it. -/
def request {α : Type} (r : Request) (view : Answer → α) : Core P α :=
  ask r fun a =>
    match a.fault with
    | some msg => .error (.network msg)
    | none => .ok (view a)

/-- `connect`. -/
def connect : Core P Unit := request .connect fun _ => ()

/-- `require_contact`. -/
def requireContact (peer : Peer) : Core P Card := do
  match ← Core.pinned peer with
  | some card => return card
  | none => throw .unknownContact

/-- `put_bundle`. -/
def putBundle : Core P Unit := do
  if (← find CoreError.ofStorage .prekeys).isNone then Core.establishPrekeys
  let bundle ← Core.exportPrekeyBundle
  let our ← Core.ourIdentityPk
  request (.putBundle our bundle) fun _ => ()

/-- `publish_prekeys`. -/
def publishPrekeys : Core P Unit := do
  connect
  putBundle

/-- `start_session`. -/
def startSession (i : Nat) (peer : Peer) : Core P Unit := do
  let card ← requireContact peer
  let handle := localSessionHandle P peer
  if ← Core.hasSession handle then throw (.sessionAlreadyExists handle)
  connect
  match ← request (.getBundle peer) Answer.bundle with
  | none => throw .peerBundleUnavailable
  | some bundle =>
    let parsed ← Core.lift (unpackPrekeyBundle P bundle)
    if parsed.identityPk ≠ card.dhPk ∨ parsed.signingPk ≠ card.signingPk then
      throw .peerIdentityMismatch
    let _ ← Core.establishSessionInitiator i handle bundle
    let _ ← Core.sendCommitted i handle ClientId.opener Payload.opener.encode

/-- What `send_committed` says about a text. -/
def sentText : SendOutcome → SentText
  | .sent m | .alreadyPending m => ⟨m.messageId, .pending⟩
  | .alreadyAcknowledged id => ⟨id, .delivered⟩
  | .abandoned id => ⟨id, .abandoned⟩

/-- `send_committed_text`. -/
def sendCommittedText (i : Nat) (peer : Peer) (clientMessageId text : Bytes) : Core P SentText := do
  let _ ← requireContact peer
  return sentText (← Core.sendCommitted i (localSessionHandle P peer)
    (ClientId.text clientMessageId) (Payload.text text).encode)

/-- `send_text`. -/
def sendText (i : Nat) (peer : Peer) (clientMessageId text : Bytes) : Core P SentText := do
  let _ ← requireContact peer
  if clientMessageId.isEmpty ∨ 63 < clientMessageId.length then throw .invalidClientMessageId
  Chat.claimForSendText peer clientMessageId
  sendCommittedText i peer clientMessageId text

/-- The texts among accepted messages. -/
def textsOf (ms : List IncomingMessage) : List (MessageId × Bytes) :=
  ms.filterMap fun m =>
    match Payload.decode m.plaintext with
    | some (.text text) => some (m.messageId, text)
    | _ => none

/-- `pending_texts`. -/
def pendingTexts (peer : Peer) : Core P (List (MessageId × Bytes)) := do
  return textsOf (← Core.pendingCommitted (localSessionHandle P peer))

/-- `mark_read`. -/
def markRead (peer : Peer) (messageId : Bytes) : Core P Bool :=
  Core.acknowledgeIncoming (localSessionHandle P peer) messageId

/-- `undelivered`. -/
def undelivered (peer : Peer) : Core P (List MessageId) := do
  let pending ← Core.pendingOutgoing (localSessionHandle P peer)
  return (pending.filter fun m => m.clientMessageId.head? == some ClientId.textByte).map
    OutgoingMessage.messageId

/-- The contacts among `peers` that have a session, with its handle. -/
def withSession : List Peer → Core P (List (Peer × UInt64))
  | [] => return []
  | peer :: peers => do
    let handle := localSessionHandle P peer
    let found ← Core.hasSession handle
    let rest ← withSession peers
    return if found then (peer, handle) :: rest else rest

/-- `sessions`. -/
def sessions : Core P (List (Peer × UInt64)) := do withSession (← Core.contacts)

/-- `confirmed`. -/
def confirmed (handle : UInt64) : Core P Bool := do
  let our ← Core.ourIdentityPk
  Core.messenger handle (Messenger.hasReceived our handle)

/-- `was_sent`. -/
def wasSent (i : Nat) (id : Bytes) : Core P Bool :=
  if h : id.length = 32 then remembered i fun m => m.lastSent ⟨id, h⟩ else return false

/-- `due`. -/
def due (i : Nat) (key : Bytes32) : Core P Bool := do
  if ← remembered i fun m => m.lastSent key then draw Choice.elapsed else return true

/-- `mark_sent`. -/
def markSent (i : Nat) (key : Bytes32) : Core P Unit :=
  remember i fun m => { m with lastSent := Function.update m.lastSent key true }

/-! ## Publishing -/

/-- Send one envelope and count it. -/
def sendEnvelope (i : Nat) (peer : Peer) (key : Bytes32) (env : Envelope) : Round P Unit := do
  core (request (.send peer env.encode) fun _ => ())
  core (markSent i key)
  Round.tally fun r => { r with published := r.published + 1 }

/-- The handshake of an unconfirmed session, if it is due. -/
def publishHandshake (i : Nat) (our peer : Peer) (handle : UInt64) : Round P Unit := do
  if !(← core (confirmed handle)) then
    match ← core (Core.initiatorHandshake handle) with
    | none => return
    | some hs =>
      if ← core (due i (P.sha256 hs)) then sendEnvelope i peer (P.sha256 hs) (.handshake our hs)

/-- One pending message, if it is due. A receipt leaves the outbox once the relay has it. -/
def publishMessage (i : Nat) (our peer : Peer) (handle : UInt64) (m : OutgoingMessage) :
    Round P Unit := do
  if ← core (due i m.messageId) then
    sendEnvelope i peer m.messageId (.message our m.wire)
    if m.clientMessageId.head? = some ClientId.receiptByte then
      let _ ← core (Core.acknowledgeOutgoing handle m.messageId.val)

/-- The pending messages of one session, in order. -/
def publishMessages (i : Nat) (our peer : Peer) (handle : UInt64) :
    List OutgoingMessage → Round P Unit
  | [] => return
  | m :: ms => do
    publishMessage i our peer handle m
    publishMessages i our peer handle ms

/-- The rounds of the loop of `publish_pending`. -/
def publishSessions (i : Nat) (our : Peer) : List (Peer × UInt64) → Round P Unit
  | [] => return
  | (peer, handle) :: rest => do
    publishHandshake i our peer handle
    let pending ← core (Core.pendingOutgoing handle)
    publishMessages i our peer handle pending
    publishSessions i our rest

/-- `publish_pending`. -/
def publishPending (i : Nat) (sessions : List (Peer × UInt64)) : Round P Unit := do
  let our ← core Core.ourIdentityPk
  publishSessions i our sessions

/-! ## Accepted messages -/

/-- `receipt`. -/
def receipt (i : Nat) (handle : UInt64) (id : MessageId) (round : UInt64) : Core P SendOutcome :=
  Core.sendCommitted i handle (ClientId.receipt id round) (Payload.receipt [id]).encode

/-- `receipt_again`. -/
def receiptAgain (i : Nat) (handle : UInt64) (id : MessageId) : Core P Unit := do
  match ← receipt i handle id 0 with
  | .alreadyAcknowledged _ =>
    let now ← draw Choice.now
    let _ ← receipt i handle id (now / 60000 + 1)
  | _ => return

/-- The messages a receipt names leave the outbox. -/
def acknowledgeAll (handle : UInt64) : List MessageId → Round P Unit
  | [] => return
  | acked :: ids => do
    if ← core (Core.acknowledgeOutgoing handle acked.val) then
      Round.tally fun r => { r with delivered := r.delivered + 1 }
    acknowledgeAll handle ids

/-- `settle`. -/
def settle (i : Nat) (handle : UInt64) (id : MessageId) (plaintext : Bytes) : Round P Unit := do
  match Payload.decode plaintext with
  | some (.text _) =>
    let _ ← core (receipt i handle id 0)
  | some .opener =>
    let _ ← core (receipt i handle id 0)
    let _ ← core (Core.acknowledgeIncoming handle id.val)
  | some (.receipt ids) =>
    acknowledgeAll handle ids
    let _ ← core (Core.acknowledgeIncoming handle id.val)
  | none =>
    Round.dropped
    Round.failed "unknown payload type discarded"
    let _ ← core (Core.acknowledgeIncoming handle id.val)

/-- The rounds of the loop of `settle_inbox`. -/
def settleAll (i : Nat) (handle : UInt64) : List IncomingMessage → Round P Unit
  | [] => return
  | m :: ms => do
    settle i handle m.messageId m.plaintext
    settleAll i handle ms

/-- `settle_inbox`. -/
def settleInbox (i : Nat) (handle : UInt64) : Round P Unit := do
  let pending ← core (Core.pendingCommitted handle)
  settleAll i handle pending

/-! ## Processing -/

/-- A handshake that is refused for good. -/
def refuseHandshake (sender : Peer) (e : CoreError) (verdict : Verdict) : Round P Fate := do
  core (Chat.setFlag sender Chat.flagHandshakeRefused)
  Round.dropped
  Round.failed s!"handshake refused: {e.text}"
  return .delete verdict

/-- A handshake from a peer with whom there is no session, or one that can be retired. -/
def answerHandshake (i : Nat) (sender : Peer) (handshake : Bytes) (legacy : Bool) : Round P Fate := do
  match ← Round.attempt (Core.establishSessionResponder i (localSessionHandle P sender) handshake) with
  | .ok () => return .delete .recorded
  | .error e =>
    if transient e then
      Round.failed e.text
      return .keep
    else if legacy then
      Round.dropped
      return .delete .refused
    else refuseHandshake sender e .refused

/-- The handshake branch of `process`. -/
def processHandshake (i : Nat) (sender : Peer) (handshake : Bytes) : Round P Fate := do
  let handle := localSessionHandle P sender
  if handshake.length ≠ initiatorHandshakeLen ∨ take32 (handshake.drop 4) ≠ some sender then
    Round.dropped
    return .delete .malformed
  let hasSession ← core (Core.hasSession handle)
  let legacy ← if hasSession then core (Core.isLegacyUnconfirmed handle) else pure false
  if hasSession && !legacy then
    -- Both sides initiated, if ours is an unconfirmed start of our own.
    if (← core (Core.initiatorHandshake handle)).isSome then
      if !(← core (confirmed handle)) then core (Chat.setFlag sender Chat.flagConflict)
    Round.dropped
    return .delete .held
  answerHandshake i sender handshake legacy

/-- The message branch of `process`. -/
def processMessage (i : Nat) (sender : Peer) (wire : Bytes) : Round P Fate := do
  let handle := localSessionHandle P sender
  let first := !(← core (Core.hasSession handle))
  match ← Round.attempt (Core.receiveCommitted i handle wire) with
  | .ok (.accepted m) =>
    Round.tally fun r => { r with
      accepted := r.accepted + 1
      sessionsAccepted := if first then r.sessionsAccepted + 1 else r.sessionsAccepted }
    settle i handle m.messageId m.plaintext
    return .delete .accepted
  | .ok (.duplicate id _) =>
    Round.tally fun r => { r with duplicates := r.duplicates + 1 }
    core (receiptAgain i handle id)
    return .delete .duplicate
  | .error (.noSession _) => return .keep
  | .error (.crypto _) =>
    Round.dropped
    return .delete .undecryptable
  | .error .staleSignedPrekey => refuseHandshake sender .staleSignedPrekey .unanswerable
  | .error (.oneTimePrekeyUnavailable id) =>
    refuseHandshake sender (.oneTimePrekeyUnavailable id) .unanswerable
  | .error .oneTimePrekeyRequired => refuseHandshake sender .oneTimePrekeyRequired .unanswerable
  | .error (.sessionUnresolved _ _) =>
    let _ ← core (Core.recoverSession i handle)
    return .keep
  | .error e =>
    Round.failed e.text
    return .keep

/-- `process`. -/
def process (i : Nat) (env : Envelope) : Round P Fate := do
  match ← core (Core.pinned env.sender) with
  | none =>
    Round.dropped
    return .delete .unpinned
  | some _ =>
    match env with
    | .handshake sender handshake => processHandshake i sender handshake
    | .message sender wire => processMessage i sender wire

/-! ## Scanning -/

/-- Where a pass stands: the last number it reached, how many envelopes it saw, and those to delete,
each with its bytes and the verdict on it. -/
structure Scan where
  after : UInt64 := 0
  seen : Nat := 0
  delete : List (UInt64 × Bytes × Verdict) := []

/-- Whether `pass` processes this envelope. -/
def Pass.selects (pass : Pass) : Option Envelope → Bool
  | some (.handshake _ _) => pass == .handshakes
  | _ => pass == .messages

/-- Note the fate of an envelope. -/
def noteFate (seq : UInt64) (bytes : Bytes) (s : Scan) : Fate → Round P Scan
  | .delete verdict => return { s with delete := s.delete ++ [(seq, bytes, verdict)] }
  | .keep => do
    Round.tally fun r => { r with deferred := r.deferred + 1 }
    return s

/-- The fate of an envelope that the pass selects. -/
def fateOf (i : Nat) : Option Envelope → Round P Fate
  | none => do
    Round.dropped
    return .delete .malformed
  | some env => process i env

/-- Process one envelope of the mailbox, if `pass` selects it. -/
def scanEnvelope (i : Nat) (pass : Pass) (seq : UInt64) (bytes : Bytes) (s : Scan) :
    Round P Scan := do
  let s := { s with after := seq, seen := s.seen + 1 }
  if pass = .handshakes then Round.tally fun r => { r with fetched := r.fetched + 1 }
  let env := Envelope.decode bytes
  if !Pass.selects pass env then return s
  noteFate seq bytes s (← fateOf i env)

/-- The envelopes of one page; `true` to end the pass. -/
def scanItems (i : Nat) (pass : Pass) (until_ : UInt64) :
    List (UInt64 × Bytes) → Scan → Round P (Scan × Bool)
  | [], s => return (s, false)
  | (seq, bytes) :: items, s => do
    if seq ≤ s.after then throw (.network "relay returned envelopes out of order")
    if until_ < seq then return (s, true)
    let s ← scanEnvelope i pass seq bytes s
    if s.seen = maxScanEnvelopes ∨ seq = until_ then return (s, true)
    scanItems i pass until_ items s

/-- At most this many pages. -/
def scanPages (i : Nat) (our : Peer) (pass : Pass) (until_ : UInt64) : Nat → Scan → Round P Scan
  | 0, s => return s
  | pages + 1, s => do
    let items ← core (request (.fetchAfter our s.after maxFetch) Answer.items)
    if maxFetch.toNat < items.length then
      throw (.network "relay returned more envelopes than asked for")
    if items.isEmpty then return s
    let (s, ended) ← scanItems i pass until_ items s
    if ended || items.length < minPage then return s
    scanPages i our pass until_ pages s

/-- `scan`: one pass over the mailbox. -/
def scan (i : Nat) (our : Peer) (pass : Pass) (until_ : UInt64) : Round P (Option UInt64) := do
  let s ← scanPages i our pass until_ maxScanPages {}
  if !s.delete.isEmpty then core (request (.delete our s.delete) fun _ => ())
  return if 0 < s.after then some s.after else none

/-! ## Rounds -/

/-- The inbox of each session. -/
def settleSessions (i : Nat) : List (Peer × UInt64) → Round P Unit
  | [] => return
  | (_, handle) :: rest => do
    settleInbox i handle
    settleSessions i rest

/-- `sync_round`. -/
def syncRound (i : Nat) : Round P Unit := do
  let before ← core sessions
  settleSessions i before
  core connect
  core putBundle
  publishPending i before
  let our ← core Core.ourIdentityPk
  match ← scan i our .handshakes 0xFFFFFFFFFFFFFFFF with
  | some reached =>
    let _ ← scan i our .messages reached
  | none => pure ()
  let after ← core sessions
  publishPending i after

/-- The report of a round, with its error if it failed. -/
def reportOf (x : Round P Unit) : Prog Choice (Device P.Key Memory) SyncReport :=
  (x.run.run {}).bind fun
    | (.ok _, report) => .ret report
    | (.error e, report) => .ret { report with errors := report.errors ++ [e.text] }

/-- `sync`. -/
def sync (i : Nat) : Prog Choice (Device P.Key Memory) SyncReport := reportOf (syncRound i)

end Network

end Arcium
