import Arcium.Protocol.Durable

/-!
# Durable messaging (`core-protocol/src/messaging.rs`, `messaging/*.rs`)

`Messenger`: sessions addressed by a local handle, sends through an outbox, receives through an
inbox. Every operation is a program over the store: each read outside a transaction and each
transaction is one action, so that other instances can act in between, exactly where they can in the
source. `i` is the instance that runs; its memory is the set of its unresolved sessions.

An operation that starts by finding the peer of its handle is cut there in two (`sendPeer` and
`sendAs`, `receivePeer` and `receiveAs`), so that `naming` can tell for which peer it ran; so is
`recover`, after the mark it finds.
-/

namespace Arcium

open Conc

/-! ## Types (`messaging/types.rs`) -/

/-- `SendOutcome`. -/
inductive SendOutcome where
  | sent (m : OutgoingMessage)
  | alreadyPending (m : OutgoingMessage)
  | alreadyAcknowledged (messageId : MessageId)
  | abandoned (messageId : MessageId)
  deriving DecidableEq

/-- `Received`. -/
inductive Received where
  | accepted (m : IncomingMessage)
  | duplicate (messageId : MessageId) (undelivered : Option IncomingMessage)
  deriving DecidableEq

/-- `NewSession`. -/
structure NewSession (K : Type) where
  handle : UInt64
  session : Session K
  role : SessionRole
  initialOutbound : Option Bytes
  extra : List (SideWrite K)

/-- `FirstContact`. -/
structure FirstContact (K : Type) where
  handle : UInt64
  session : Session K
  provisional : ProvisionalHandshake
  extra : List (SideWrite K)

/-- `ValidatedRecord`. -/
structure ValidatedRecord (K : Type) where
  key : Key
  value : Row K key

/-- `Recovery`. -/
structure Recovery where
  attemptedGeneration : UInt64
  storedGeneration : UInt64
  artifactCommitted : Bool

inductive MessagingError where
  | noSession (handle : UInt64)
  | alreadyExists (handle : UInt64)
  | handleCollision (handle : UInt64)
  | missingSession (handle : UInt64)
  | invalidSession (e : SessionCheckpointError)
  | invalidRecord (what : String)
  | inconsistentStore (what : String)
  | malformedMessage
  | ratchet (e : RatchetError)
  | checkpoint (e : SessionCheckpointError)
  | generationExhausted
  | conflict (c : Conflict)
  | extraConflict (index : Nat) (conflict : Conflict)
  | sideWrite (e : SideWriteError)
  | store (e : StorageError)
  | notCommitted (e : StorageError)
  | repeatableOutcomeUnknown (e : StorageError)
  | outcomeUnknown (attemptedGeneration : UInt64) (error : StorageError)
  | unresolved (attemptedGeneration : UInt64)
  | unknownMessage
  | invalidClientMessageId
  | sessionEstablished
  | pendingOutgoing (count : Nat)
  | sessionNotRetirable (reason : String)
  /-- The call unwound, with nothing written. -/
  | panic (msg : String)
  deriving DecidableEq, Repr

/-- `Unresolved`. -/
structure Unresolved where
  attemptedGeneration : UInt64
  artifactKeys : List Key
  createsSession : Bool
  stagedOnLegacy : Option Peer
  deriving DecidableEq

/-- The memory of one `Messenger`, and of the `NetworkMessenger` over it. -/
structure Memory where
  unresolved : UInt64 → Option Unresolved := fun _ => none
  /-- `last_sent`: what the relay has accepted. -/
  lastSent : Bytes32 → Bool := fun _ => false

/-- An operation of a `Messenger`. -/
abbrev Do (P : Platform) (α : Type) := Run P.Key Memory MessagingError α

/-- Run `x` and then `f`, keeping what `x` returned. -/
def naming {ε σ err α β : Type} (x : Op ε σ err α) (f : α → Op ε σ err β) :
    Prog ε σ (Option α × Except err β) :=
  x.run.bind fun
    | .ok a => (f a).run.bind fun r => .ret (some a, r)
    | .error e => .ret (none, .error e)

namespace Messenger

variable (P : Platform)

/-! ## Records (`messaging/records.rs`) -/

/-- `MAX_CLIENT_MESSAGE_ID_LEN`. -/
def maxClientMessageIdLen : Nat := 64

/-- `MAX_PROVISIONAL_HANDSHAKE_LEN`. -/
def maxProvisionalHandshakeLen : Nat := 1024

/-- `MESSAGE_ID_DOMAIN`. -/
def messageIdDomain : Bytes := "ARCIUM-MESSAGE-ID-V1".toUTF8.toList

/-- `message_id`. -/
def messageId (wire : Bytes) : MessageId := P.sha256 (messageIdDomain ++ wire)

/-- The checks of `encode_provisional` and `decode_provisional`. -/
def checkProvisional (p : ProvisionalHandshake) : Except MessagingError ProvisionalHandshake :=
  if p.handshake.isEmpty ∨ maxProvisionalHandshakeLen < p.handshake.length then
    .error (.invalidRecord "provisional handshake")
  else .ok p

/-- The checks of `decode_outbox`. -/
def decodeOutbox (m : OutgoingMessage) : Except MessagingError OutgoingMessage :=
  if m.clientMessageId.isEmpty ∨ maxClientMessageIdLen < m.clientMessageId.length ∨
      messageId P m.wire ≠ m.messageId then .error (.invalidRecord "outbox")
  else .ok m

/-- The header and the ciphertext of a wire. -/
def splitWire (wire : Bytes) : Except MessagingError (Header × Bytes) :=
  if wire.length < headerSize then .error .malformedMessage
  else
    match Header.fromBytes (wire.take headerSize) with
    | .ok header => .ok (header, wire.drop headerSize)
    | .error _ => .error .malformedMessage

/-! ## Helpers (`messaging/helpers.rs`) -/

/-- `stage_error`. -/
def stageError : StageError → MessagingError
  | .ratchet e => .ratchet e
  | .checkpoint e => .checkpoint e
  | .generationExhausted => .generationExhausted
  | .unresolved _ | .conflicted => .inconsistentStore "unexpected stage state"
  | .panic msg => .panic msg

variable {P}

/-- A `Result` of a pure step. -/
def lift {ε α : Type} (toErr : ε → MessagingError) : Except ε α → Do P α
  | .ok a => pure a
  | .error e => throw (toErr e)

/-- The result of a check. -/
def checked {α : Type} : Except MessagingError α → Do P α := lift fun e => e

/-- The errors of a transaction that is not a session transition (`commit_repeatable`). -/
def repeatable : TxErrors MessagingError :=
  ⟨.notCommitted, .notCommitted, .repeatableOutcomeUnknown⟩

/-- A read inside a transaction, a missing record as `none`. -/
def txFind (read : (k : Key) → Except StorageError (Row P.Key k)) (k : Key) :
    Except MessagingError (Option (Row P.Key k)) :=
  match read k with
  | .ok v => .ok (some v)
  | .error .notFound => .ok none
  | .error e => .error (.store e)

/-- `classify_taken`. -/
def classifyTaken (handle : UInt64) (peer : Peer) : Do P MessagingError := do
  match ← find MessagingError.store (.handle handle) with
  | some (p : Peer) => return if p = peer then .alreadyExists handle else .handleCollision handle
  | none => return .alreadyExists handle

/-- `read_duplicate`. -/
def readDuplicate (peer : Peer) (id : MessageId) : Do P (Option Received) := do
  match ← find MessagingError.store (.inbox peer id) with
  | some (m : IncomingMessage) =>
    if m.messageId ≠ id then throw (.invalidRecord "inbox")
    return some (.duplicate id (some m))
  | none =>
    match ← find MessagingError.store (.seen peer id) with
    | some (seen : MessageId) =>
      if seen ≠ id then throw (.invalidRecord "seen")
      return some (.duplicate id none)
    | none => return none

/-- What the transaction of `read_prior_send` reads. -/
def priorSendTx (peer : Peer) (clientId : Bytes)
    (read : (k : Key) → Except StorageError (Row P.Key k)) :
    Except MessagingError (Option SendOutcome) := do
  match ← txFind read (.sendid peer clientId) with
  | none => return none
  | some (.abandoned id) => return some (.abandoned id)
  | some (.sent id) =>
    match ← txFind read (.outbox peer id) with
    | some m => return some (.alreadyPending (← decodeOutbox P m))
    | none => return some (.alreadyAcknowledged id)

/-- `read_prior_send`. -/
def readPriorSend (peer : Peer) (clientId : Bytes) : Do P (Option SendOutcome) :=
  tx ⟨.store, .store, .store⟩ fun read => do return (← priorSendTx peer clientId read, [])

/-! ## Internals (`messaging.rs`) -/

/-- `require_resolved`. -/
def requireResolved (i : Nat) (handle : UInt64) : Do P Unit := do
  match ← remembered i fun m => m.unresolved handle with
  | some u => throw (.unresolved u.attemptedGeneration)
  | none => return

/-- `self.unresolved.insert`. -/
def markUnresolved (i : Nat) (handle : UInt64) (u : Unresolved) : Do P Unit :=
  remember i fun m => { m with unresolved := Function.update m.unresolved handle (some u) }

/-- `self.unresolved.remove`. -/
def clearUnresolved (i : Nat) (handle : UInt64) : Do P Unit :=
  remember i fun m => { m with unresolved := Function.update m.unresolved handle none }

/-- `peer_of`. -/
def peerOf (handle : UInt64) : Do P (Option Peer) := find MessagingError.store (.handle handle)

/-- `require_peer`. -/
def requirePeer (handle : UInt64) : Do P Peer := do
  match ← peerOf handle with
  | some peer => return peer
  | none => throw (.noSession handle)

/-- `load`, once the peer of the handle is known. -/
def loadFor (our : Bytes32) (handle : UInt64) (peer : Peer) : Do P (DurableSession P.Key) := do
  match ← Op.attempt (DurableSession.load P ⟨our, peer⟩).run with
  | .ok (some session) => return session
  | .ok none => throw (.missingSession handle)
  | .error (.invalid e) => throw (.invalidSession e)
  | .error (.store e) => throw (.store e)
  | .error _ => throw (.inconsistentStore "unexpected load result")

/-- `load`. -/
def load (our : Bytes32) (handle : UInt64) : Do P (DurableSession P.Key × Peer) := do
  let peer ← requirePeer handle
  return (← loadFor our handle peer, peer)

/-- `commit_error`. -/
def commitError {α : Type} (i : Nat) (handle : UInt64) (attemptedGeneration : UInt64)
    (artifactKeys : List Key) (stagedOnLegacy : Option Peer) : CommitError → Do P α
  | .outcomeUnknown error => do
    markUnresolved i handle
      { attemptedGeneration, artifactKeys, createsSession := false, stagedOnLegacy }
    throw (.outcomeUnknown attemptedGeneration error)
  | .conflict c => throw (.conflict c)
  | .sideConflict _ c => throw (.conflict c)
  | .notCommitted e => throw (.notCommitted e)
  | .sideWrite e => throw (.sideWrite e)
  | .unresolved _ | .conflicted | .staleTransition =>
    throw (.inconsistentStore "unexpected commit state")

/-! ## Sessions -/

/-- The side writes of a new session, `extra` aside. -/
def createSide (handle : UInt64) (peer : Peer) (initialOutbound : Option Bytes) :
    Except SideWriteError (List (SideWrite P.Key)) := do
  let registered ← SideWrite.insert (.handle handle) peer
  match initialOutbound with
  | some bytes => return [registered, ← SideWrite.insert (.handshake peer) bytes]
  | none => return [registered]

/-- `create_session`. -/
def createSession (i : Nat) (our : Bytes32) (new : NewSession P.Key) : Do P Unit := do
  let peer := new.session.peerIdentityPk
  let side ← lift .sideWrite (createSide new.handle peer new.initialOutbound)
  match ← Op.attempt
      (DurableSession.createWith P new.session new.role our (side ++ new.extra)).run with
  | .ok _ => clearUnresolved i new.handle
  | .error .alreadyExists | .error (.sideConflict 0 _) => throw (← classifyTaken new.handle peer)
  | .error (.sideConflict (index + 1) conflict) =>
    if index + 1 < side.length then
      throw (.inconsistentStore "initial outbound record exists without a session")
    else throw (.extraConflict (index + 1 - side.length) conflict)
  | .error (.invalid e) => throw (.invalidSession e)
  | .error (.store e) => throw (.store e)
  | .error (.notCommitted e) => throw (.notCommitted e)
  | .error (.outcomeUnknown error) =>
    markUnresolved i new.handle
      { attemptedGeneration := 0, artifactKeys := [.handle new.handle], createsSession := true
        stagedOnLegacy := none }
    throw (.outcomeUnknown 0 error)
  | .error (.sideWrite e) => throw (.sideWrite e)
  | .error .staleTransition => throw (.inconsistentStore "unexpected creation state")

/-- A record of the transaction of `retire_legacy` that must still be the one that was read. -/
def txRequire (read : (k : Key) → Except StorageError (Row P.Key k)) (k : Key)
    (same : Row P.Key k → Bool) : Except MessagingError Unit :=
  match read k with
  | .ok v => if same v then .ok () else .error (.conflict .recordChanged)
  | .error .notFound | .error .decryption => .error (.conflict .recordChanged)
  | .error e => .error (.store e)

/-- A record of that transaction that must not be there. -/
def txAbsent (read : (k : Key) → Except StorageError (Row P.Key k)) (k : Key) (reason : String) :
    Except MessagingError Unit :=
  match read k with
  | .error .notFound => .ok ()
  | .ok _ | .error .decryption => .error (.sessionNotRetirable reason)
  | .error e => .error (.store e)

/-- The transaction of `retire_legacy`. -/
def retireTx (session : DurableSession P.Key) (handle : UInt64) (peer : Peer)
    (provisional : ProvisionalHandshake) (validated : ValidatedRecord P.Key)
    (read : (k : Key) → Except StorageError (Row P.Key k)) :
    Except MessagingError (Unit × List (Change P.Key)) := do
  txRequire read (.session peer) fun record => session.holdsRecord P record
  txRequire read (.handle handle) fun (p : Peer) => decide (p = peer)
  txAbsent read (.handshake peer) "an initiator handshake is stored"
  txAbsent read (.provisional handle) "a provisional handshake is already recorded"
  txRequire read validated.key fun value => decide (value = validated.value)
  return ((), [⟨.session peer, none⟩, ⟨.handle handle, none⟩, ⟨.provisional handle, some provisional⟩])

/-- `retire_legacy`. -/
def retireLegacy (i : Nat) (our : Bytes32) (handle : UInt64) (provisional : ProvisionalHandshake)
    (validated : ValidatedRecord P.Key) : Do P Unit := do
  requireResolved i handle
  if validated.key.isSession then throw (.invalidRecord "validated record key")
  match ← Op.attempt (load our handle).run with
  | .error (.missingSession _) | .error (.invalidSession _) => throw (.alreadyExists handle)
  | .error e => throw e
  | .ok (session, peer) =>
    if !session.isLegacyUnconfirmed then throw (.alreadyExists handle)
    if !(← keysUnder .store fun rows => rows.idsOf (Rows.outboxId peer)).isEmpty then
      throw (.sessionNotRetirable "pending outgoing messages")
    if !(← keysUnder .store fun rows => rows.idsOf (Rows.inboxId peer)).isEmpty then
      throw (.sessionNotRetirable "pending incoming messages")
    tx repeatable (retireTx session handle peer provisional validated)

/-- The transaction of `record_provisional_handshake`; `true` to go on with `retire_legacy`. -/
def provisionalTx (handle : UInt64) (record : ProvisionalHandshake)
    (read : (k : Key) → Except StorageError (Row P.Key k)) :
    Except MessagingError (Bool × List (Change P.Key)) := do
  match ← txFind read (.handle handle) with
  | some (p : Peer) =>
    if p = record.peerIdentityPk then return (true, []) else throw (.handleCollision handle)
  | none =>
    match read (.session record.peerIdentityPk) with
    | .ok _ | .error .decryption => throw (.alreadyExists handle)
    | .error .notFound =>
      match read (.provisional handle) with
      | .ok (stored : ProvisionalHandshake) =>
        if stored = record then return (false, [])
        else return (false, [⟨.provisional handle, some record⟩])
      | .error .notFound | .error .decryption =>
        return (false, [⟨.provisional handle, some record⟩])
      | .error e => throw (.store e)
    | .error e => throw (.store e)

/-- `record_provisional_handshake`. -/
def recordProvisionalHandshake (i : Nat) (our : Bytes32) (handle : UInt64)
    (provisional : ProvisionalHandshake) (validated : ValidatedRecord P.Key) : Do P Unit := do
  let record ← checked (checkProvisional provisional)
  if ← tx repeatable (provisionalTx handle record) then
    retireLegacy i our handle record validated

/-- `provisional_handshake`. -/
def provisionalHandshake (handle : UInt64) : Do P (Option ProvisionalHandshake) := do
  match ← find MessagingError.store (.provisional handle) with
  | some p => return some (← checked (checkProvisional p))
  | none => return none

/-- `has_received`. -/
def hasReceived (our : Bytes32) (handle : UInt64) : Do P Bool := do
  return (← load our handle).1.hasReceived

/-- `is_legacy_unconfirmed`. -/
def isLegacyUnconfirmed (our : Bytes32) (handle : UInt64) : Do P Bool := do
  match ← Op.attempt (load our handle).run with
  | .ok (session, _) => return session.isLegacyUnconfirmed
  | .error (.noSession _) | .error (.missingSession _) | .error (.invalidSession _) => return false
  | .error e => throw e

/-- `initial_outbound`. -/
def initialOutbound (handle : UInt64) : Do P (Option Bytes) := do
  let peer ← requirePeer handle
  find MessagingError.store (.handshake peer)

/-! ## Sending -/

/-- The wire of a header and a ciphertext. -/
def wireOf (out : Header × Bytes) : Bytes := out.1.toBytes ++ out.2

/-- The first part of `send`: its checks, and the peer of the handle. -/
def sendPeer (i : Nat) (handle : UInt64) (clientId : Bytes) : Do P Peer := do
  if clientId.isEmpty ∨ maxClientMessageIdLen < clientId.length then
    throw .invalidClientMessageId
  requireResolved i handle
  requirePeer handle

/-- The rest of `send`. It loads the session by the handle again. -/
def sendAs (i : Nat) (our : Bytes32) (handle : UInt64) (clientId plaintext : Bytes) (peer : Peer) :
    Do P SendOutcome := do
  match ← readPriorSend peer clientId with
  | some prior => return prior
  | none =>
    let (session, _) ← load our handle
    let nonce ← draw Choice.nonce
    let staged ← lift stageError (session.stageEncrypt P plaintext nonce)
    let wire := wireOf staged.output
    let id := messageId P wire
    let m : OutgoingMessage :=
      { messageId := id, clientMessageId := clientId, generation := staged.generation, wire }
    let outbox ← lift .sideWrite (SideWrite.insert (.outbox peer id) m)
    let index ← lift .sideWrite (SideWrite.insert (.sendid peer clientId) (.sent id))
    match ← session.commitWith P staged [outbox, index] with
    | (.ok _, _) => return .sent m
    | (.error e, _) => commitError i handle staged.generation [.sendid peer clientId] none e

/-- `send`. -/
def send (i : Nat) (our : Bytes32) (handle : UInt64) (clientId plaintext : Bytes) :
    Do P SendOutcome := do sendAs i our handle clientId plaintext (← sendPeer i handle clientId)

/-- `prior_send`. -/
def priorSend (peer : Peer) (clientId : Bytes) : Do P (Option SendOutcome) :=
  readPriorSend peer clientId

/-- The records under `ids`, each read on its own. -/
def readEach {α : Type} (read : MessageId → Do P α) : List MessageId → Do P (List α)
  | [] => return []
  | id :: ids => do
    let m ← read id
    return m :: (← readEach read ids)

/-- One record of a listing. It can be gone by now. -/
def readListed (k : Key) : Do P (Row P.Key k) := do
  match ← find MessagingError.store k with
  | some v => return v
  | none => throw (.store .notFound)

/-- `pending_outgoing`, for the peer of the handle. -/
def pendingOutgoingFor (peer : Peer) : Do P (List OutgoingMessage) := do
  let ids ← keysUnder .store fun rows => rows.idsOf (Rows.outboxId peer)
  let out ← readEach (fun id => do checked (decodeOutbox P (← readListed (.outbox peer id)))) ids
  return out.mergeSort fun a b => a.generation ≤ b.generation

/-- `pending_outgoing`. -/
def pendingOutgoing (handle : UInt64) : Do P (List OutgoingMessage) := do
  pendingOutgoingFor (← requirePeer handle)

/-- The transaction of `acknowledge_outgoing`. -/
def acknowledgeOutgoingTx (peer : Peer) (id : MessageId)
    (read : (k : Key) → Except StorageError (Row P.Key k)) :
    Except MessagingError (Bool × List (Change P.Key)) := do
  match ← txFind read (.outbox peer id) with
  | some _ => return (true, [⟨.outbox peer id, none⟩])
  | none => return (false, [])

/-- `acknowledge_outgoing`, for the peer of the handle. -/
def acknowledgeOutgoingFor (id : MessageId) (peer : Peer) : Do P Bool :=
  tx repeatable (acknowledgeOutgoingTx peer id)

/-- `acknowledge_outgoing`. -/
def acknowledgeOutgoing (handle : UInt64) (id : MessageId) : Do P Bool := do
  acknowledgeOutgoingFor id (← requirePeer handle)

/-! ## Receiving -/

/-- The first part of `receive`: its checks, and the peer of the handle. -/
def receivePeer (i : Nat) (handle : UInt64) (wire : Bytes) : Do P (Peer × Header × Bytes) := do
  requireResolved i handle
  let (header, ciphertext) ← checked (splitWire wire)
  return (← requirePeer handle, header, ciphertext)

/-- The rest of `receive`. -/
def receiveAs (i : Nat) (our : Bytes32) (handle : UInt64) (wire : Bytes) :
    Peer × Header × Bytes → Do P Received
  | (peer, header, ciphertext) => do
    let id := messageId P wire
    let session ← loadFor our handle peer
    match ← readDuplicate peer id with
    | some duplicate => return duplicate
    | none =>
      let fresh ← draw Choice.secret
      let staged ← lift stageError (session.stageDecrypt P header ciphertext fresh)
      let m : IncomingMessage :=
        { messageId := id, generation := staged.generation, plaintext := staged.output }
      let stagedOnLegacy := if session.isLegacyUnconfirmed then some peer else none
      let inbox ← lift .sideWrite (SideWrite.insert (.inbox peer id) m)
      let unseen ← lift .sideWrite (SideWrite.requireAbsent (.seen peer id))
      match ← session.commitWith P staged [inbox, unseen] with
      | (.ok _, _) => return .accepted m
      | (.error (.sideConflict _ .recordExists), _) =>
        match ← readDuplicate peer id with
        | some duplicate => return duplicate
        | none => throw (.inconsistentStore "inbox record vanished")
      | (.error e, _) =>
        commitError i handle staged.generation [.inbox peer id, .seen peer id] stagedOnLegacy e

/-- `receive`. -/
def receive (i : Nat) (our : Bytes32) (handle : UInt64) (wire : Bytes) : Do P Received := do
  receiveAs i our handle wire (← receivePeer i handle wire)

/-- The side writes of a first message, `extra` aside. -/
def firstSide (handle : UInt64) (peer : Peer) (provisional : ProvisionalHandshake)
    (m : IncomingMessage) : Except SideWriteError (List (SideWrite P.Key)) := do
  return [← SideWrite.insert (.handle handle) peer, ← SideWrite.remove (.provisional handle) provisional,
    ← SideWrite.insert (.inbox peer m.messageId) m, ← SideWrite.requireAbsent (.seen peer m.messageId)]

/-- What `accept_first_message` makes of a session or a handle that is taken by now. -/
def takenFirst (handle : UInt64) (peer : Peer) : Do P (Option Received) := do
  match ← classifyTaken handle peer with
  | .alreadyExists h =>
    if (← peerOf handle) = some peer then return none
    else throw (.alreadyExists h)
  | refused => throw refused

/-- The first part of `accept_first_message`: the promotion. `none` if the peer has a session under
this handle by now. -/
def promoteFirst (i : Nat) (our : Bytes32) (first : FirstContact P.Key) (wire : Bytes) :
    Do P (Option Received) := do
  let handle := first.handle
  requireResolved i handle
  let peer := first.session.peerIdentityPk
  if first.provisional.peerIdentityPk ≠ peer then
    throw (.inconsistentStore "provisional handshake names another peer")
  let (header, ciphertext) ← checked (splitWire wire)
  let id := messageId P wire
  let candidate ← lift .checkpoint (ProvisionalSession.new P first.session .responder our)
  let fresh ← draw Choice.secret
  let staged ← lift stageError (candidate.stageFirstDecrypt P header ciphertext fresh)
  let m : IncomingMessage :=
    { messageId := id, generation := staged.generation, plaintext := staged.output }
  let provisional ← checked (checkProvisional first.provisional)
  let side ← lift .sideWrite (firstSide handle peer provisional m)
  match ← Op.attempt (candidate.promoteWith P staged (side ++ first.extra)).run with
  | .ok _ => return some (.accepted m)
  | .error .alreadyExists | .error (.sideConflict 0 _) => takenFirst handle peer
  | .error (.sideConflict (index + 1) conflict) =>
    if index + 1 < side.length then throw (.conflict conflict)
    else throw (.extraConflict (index + 1 - side.length) conflict)
  | .error (.outcomeUnknown error) =>
    markUnresolved i handle
      { attemptedGeneration := staged.generation, artifactKeys := [.inbox peer id, .seen peer id]
        createsSession := true, stagedOnLegacy := none }
    throw (.outcomeUnknown staged.generation error)
  | .error (.notCommitted e) => throw (.notCommitted e)
  | .error (.sideWrite e) => throw (.sideWrite e)
  | .error (.store e) => throw (.store e)
  | .error (.invalid e) => throw (.checkpoint e)
  | .error .staleTransition => throw (.inconsistentStore "unexpected promotion state")

/-- `accept_first_message`. -/
def acceptFirstMessage (i : Nat) (our : Bytes32) (first : FirstContact P.Key) (wire : Bytes) :
    Do P Received := do
  match ← promoteFirst i our first wire with
  | some received => return received
  | none => receive i our first.handle wire

/-- `pending_incoming`, for the peer of the handle. -/
def pendingIncomingFor (peer : Peer) : Do P (List IncomingMessage) := do
  let ids ← keysUnder .store fun rows => rows.idsOf (Rows.inboxId peer)
  let out : List IncomingMessage ← readEach (fun id => readListed (.inbox peer id)) ids
  return out.mergeSort fun a b => a.generation ≤ b.generation

/-- `pending_incoming`. -/
def pendingIncoming (handle : UInt64) : Do P (List IncomingMessage) := do
  pendingIncomingFor (← requirePeer handle)

/-- The transaction of `acknowledge_incoming`. -/
def acknowledgeIncomingTx (peer : Peer) (id : MessageId)
    (read : (k : Key) → Except StorageError (Row P.Key k)) :
    Except MessagingError (Bool × List (Change P.Key)) := do
  match ← txFind read (.inbox peer id) with
  | some (m : IncomingMessage) =>
    if m.messageId ≠ id then throw (.invalidRecord "inbox")
    return (true, [⟨.inbox peer id, none⟩, ⟨.seen peer id, some id⟩])
  | none =>
    match ← txFind read (.seen peer id) with
    | some _ => return (false, [])
    | none => throw .unknownMessage

/-- `acknowledge_incoming`, for the peer of the handle. -/
def acknowledgeIncomingFor (id : MessageId) (peer : Peer) : Do P Bool :=
  tx repeatable (acknowledgeIncomingTx peer id)

/-- `acknowledge_incoming`. -/
def acknowledgeIncoming (handle : UInt64) (id : MessageId) : Do P Bool := do
  acknowledgeIncomingFor id (← requirePeer handle)

/-! ## Recovery and removal -/

/-- Whether any of `keys` exists, each read on its own. -/
def anyStored : List Key → Do P Bool
  | [] => return false
  | key :: keys => do
    let found := (← find MessagingError.store key).isSome
    return (← anyStored keys) || found

/-- The reads of `retired_since` that must find nothing. -/
def allAbsent (read : (k : Key) → Except StorageError (Row P.Key k)) :
    List Key → Except MessagingError Bool
  | [] => return true
  | key :: keys =>
    match read key with
    | .error .notFound => allAbsent read keys
    | .ok _ | .error .decryption => return false
    | .error e => throw (.store e)

/-- `retired_since`. -/
def retiredSince (handle : UInt64) (peer : Peer) (artifactKeys : List Key) : Do P Bool :=
  tx ⟨.store, .store, .store⟩ fun read => do
    if !(← allAbsent read (.session peer :: .handle handle :: artifactKeys)) then
      return (false, [])
    match read (.provisional handle) with
    | .ok (p : ProvisionalHandshake) =>
      return ((checkProvisional p).toBool && p.peerIdentityPk = peer, [])
    | .error .notFound | .error .decryption => return (false, [])
    | .error e => throw (.store e)

/-- The mark that `recover` finds. -/
def unresolvedAt (i : Nat) (handle : UInt64) : Do P (Option Unresolved) :=
  remembered i fun m => m.unresolved handle

/-- The rest of `recover`. -/
def recoverFrom (i : Nat) (our : Bytes32) (handle : UInt64) :
    Option Unresolved → Do P (Option Recovery)
  | none => return none
  | some u => do
    let gone : Recovery :=
      { attemptedGeneration := u.attemptedGeneration, storedGeneration := 0
        artifactCommitted := false }
    let artifactCommitted ← anyStored u.artifactKeys
    match ← Op.attempt (load our handle).run with
    | .ok (session, _) =>
      clearUnresolved i handle
      return some { gone with storedGeneration := session.generation, artifactCommitted }
    | .error (.noSession h) =>
      if u.createsSession then
        clearUnresolved i handle
        return some gone
      match u.stagedOnLegacy with
      | none => throw (.noSession h)
      | some peer =>
        if !(← retiredSince handle peer u.artifactKeys) then throw (.noSession h)
        clearUnresolved i handle
        return some gone
    | .error e => throw e

/-- `recover`. -/
def recover (i : Nat) (our : Bytes32) (handle : UInt64) : Do P (Option Recovery) := do
  recoverFrom i our handle (← unresolvedAt i handle)

/-- The transaction of `abandon_outgoing`. -/
def abandonOutgoingTx (peer : Peer) (id : MessageId)
    (read : (k : Key) → Except StorageError (Row P.Key k)) :
    Except MessagingError (Bool × List (Change P.Key)) := do
  match ← txFind read (.outbox peer id) with
  | none => return (false, [])
  | some m =>
    let m ← decodeOutbox P m
    return (true, [⟨.outbox peer id, none⟩, ⟨.sendid peer m.clientMessageId, some (.abandoned id)⟩])

/-- `abandon_outgoing`, for the peer of the handle. -/
def abandonOutgoingFor (id : MessageId) (peer : Peer) : Do P Bool :=
  tx repeatable (abandonOutgoingTx peer id)

/-- `abandon_outgoing`. -/
def abandonOutgoing (handle : UInt64) (id : MessageId) : Do P Bool := do
  abandonOutgoingFor id (← requirePeer handle)

/-- The transaction of `remove_session`. -/
def removeSessionTx (session : DurableSession P.Key) (handle : UInt64) (peer : Peer)
    (read : (k : Key) → Except StorageError (Row P.Key k)) :
    Except MessagingError (Unit × List (Change P.Key)) := do
  match ← txFind read (.session peer) with
  | some record => if !session.holdsRecord P record then throw (.conflict .recordChanged)
  | none => throw (.conflict .recordChanged)
  return ((), [⟨.session peer, none⟩, ⟨.handle handle, none⟩, ⟨.handshake peer, none⟩])

/-- `remove_session`. -/
def removeSession (i : Nat) (our : Bytes32) (handle : UInt64) : Do P Unit := do
  requireResolved i handle
  let (session, peer) ← load our handle
  if session.hasReceived then throw .sessionEstablished
  let pending ← keysUnder .store fun rows => (rows.idsOf (Rows.outboxId peer)).length
  if 0 < pending then throw (.pendingOutgoing pending)
  tx repeatable (removeSessionTx session handle peer)

end Messenger

end Arcium
