import Arcium.Mobile.Formats
import Arcium.Network.Wire

/-!
# The core (`mobile-ffi/src/lib.rs`, `messaging_api.rs`, `contacts.rs`)

`ArciumCore`: the identity and the prekeys of this device, X3DH, pinned contacts, and the messenger
under them. `i` is the instance that runs. A function of the source that locks the store more than
once is that many actions or more, so that another instance can act in between.

A mutex is never poisoned here: no modelled call panics while it holds one.
-/

namespace Arcium

open Conc

/-- An operation of the core. -/
abbrev Core (P : AppPlatform) (α : Type) := Run P.Key Memory CoreError α

namespace Core

variable {P : AppPlatform}

/-- A `Result` of a pure step. -/
def lift {α : Type} : Except CoreError α → Core P α
  | .ok a => pure a
  | .error e => throw e

/-- An operation of the messenger on `sessionId`. -/
def messenger {α : Type} (sessionId : UInt64) (x : Do P.toPlatform α) : Core P α :=
  Op.mapError (CoreError.messaging sessionId) x.run

/-- The errors of a transaction of the core itself. -/
def storeErrors : TxErrors CoreError := ⟨.ofStorage, .ofStorage, .ofStorage⟩

/-- `store.get`, where a missing record is an error. -/
def get (k : Key) : Core P (Row P.Key k) := do
  match ← find CoreError.ofStorage k with
  | some v => return v
  | none => throw (.ofStorage .notFound)

/-- A read inside a transaction, a missing record as `none` (`get_opt`). -/
def getOpt (read : (k : Key) → Except StorageError (Row P.Key k)) (k : Key) :
    Except CoreError (Option (Row P.Key k)) :=
  match read k with
  | .ok v => .ok (some v)
  | .error .notFound => .ok none
  | .error e => .error (.ofStorage e)

/-! ## Identity -/

/-- What `identity_from_record` makes of a read that fails. -/
def identityFault : StorageError → CoreError
  | .decryption => .identityUnreadable "the record does not decrypt"
  | e => .ofStorage e

/-- `load_identity`. -/
def loadIdentity : Core P (Option Identity) := find identityFault .identity

/-- `require_identity`. -/
def requireIdentity : Core P Identity := do
  match ← loadIdentity with
  | some identity => return identity
  | none => throw (.invalidKey "no identity saved — call save_identity first")

variable (P) in
/-- The public X25519 key of an identity. -/
def dhPublicKey (identity : Identity) : PublicKey := P.publicKey identity.dhKey

/-- `our_identity_pk`. -/
def ourIdentityPk : Core P PublicKey := do return dhPublicKey P (← requireIdentity)

/-- `save_identity`. -/
def saveIdentity (identity : Identity) : Core P Unit :=
  tx storeErrors fun read =>
    match read .identity with
    | .ok _ => .error .identityAlreadyExists
    | .error .notFound => .ok ((), [⟨.identity, some identity⟩])
    | .error e => .error (identityFault e)

/-! ## Prekeys -/

/-- `new_one_time_prekey`. -/
def newOneTimePrekey : Core P (UInt64 × StaticSecret) := do
  return (← draw Choice.id, ← draw Choice.secret)

variable (P) in
/-- The bundle that a prekey record publishes. -/
def bundleOf (identity : Identity) (record : PrekeyRecord) : PrekeyBundle where
  identityPk := dhPublicKey P identity
  signingPk := P.verifyingKey identity.signingKey
  signedPrekeyPk := P.publicKey record.signedPrekeySk
  signedPrekeySignature := record.signature
  oneTimePrekey := record.opk.map fun opk => (opk.1, P.publicKey opk.2)

/-- `establish_prekeys`. -/
def establishPrekeys : Core P Unit := do
  let identity ← requireIdentity
  let signedPrekeySk ← draw Choice.secret
  let object := signedPrekeyObject (dhPublicKey P identity) (P.verifyingKey identity.signingKey)
    (P.publicKey signedPrekeySk)
  let opk ← newOneTimePrekey
  let record : PrekeyRecord :=
    { signedPrekeySk, signature := P.sign identity.signingKey object, opk := some opk }
  tx storeErrors fun _ => .ok ((), [⟨.prekeys, some record⟩])

/-- `export_prekey_bundle`. -/
def exportPrekeyBundle : Core P Bytes := do
  let identity ← requireIdentity
  let record : PrekeyRecord ← get .prekeys
  return packPrekeyBundle (bundleOf P identity record)

/-! ## Sessions -/

/-- The new session of an initiator, from a bundle that `x3dhInitiate` accepted. -/
def initiatorSession (sessionId : UInt64) (our : PublicKey) (bundle : PrekeyBundle)
    (alice : AliceSession P.Key) (dhs : StaticSecret) : NewSession P.Key :=
  { handle := sessionId
    session :=
      { ratchet := DoubleRatchet.initAlice P.toCrypto alice.rootKey alice.theirSignedPrekeyPk dhs
        ad := alice.ad, peerIdentityPk := bundle.identityPk }
    role := .initiator
    initialOutbound := some (packInitiatorHandshake
      { identityPk := our, ephemeralPk := alice.ephemeralPk
        spkId := spkId P bundle.signedPrekeyPk, opkId := bundle.oneTimePrekey.map Prod.fst })
    extra := [] }

/-- `establish_session_initiator`. -/
def establishSessionInitiator (i : Nat) (sessionId : UInt64) (peerBundle : Bytes) :
    Core P Bytes := do
  let identity ← requireIdentity
  let bundle ← lift (unpackPrekeyBundle P peerBundle)
  let our := dhPublicKey P identity
  let ephemeralSk ← draw Choice.secret
  match x3dhInitiate P identity.dhKey our bundle ephemeralSk with
  | none => throw .badSignedPrekeySignature
  | some alice =>
    let dhs ← draw Choice.secret
    let new := initiatorSession sessionId our bundle alice dhs
    messenger sessionId (Messenger.createSession i our new)
    return new.initialOutbound.getD []

variable (P) in
/-- `check_answerable`. -/
def checkAnswerable (record : PrekeyRecord) (handshake : InitiatorHandshake) :
    Except CoreError Unit :=
  if spkId P (P.publicKey record.signedPrekeySk) ≠ handshake.spkId then .error .staleSignedPrekey
  else
    match record.opk.map Prod.fst, handshake.opkId with
    | some held, some named =>
      if held = named then .ok () else .error (.oneTimePrekeyUnavailable named)
    | none, some named => .error (.oneTimePrekeyUnavailable named)
    | some _, none => .error .oneTimePrekeyRequired
    | none, none => .ok ()

/-- `establish_session_responder`. -/
def establishSessionResponder (i : Nat) (sessionId : UInt64) (initiatorHandshake : Bytes) :
    Core P Unit := do
  let identity ← requireIdentity
  let handshake ← lift (unpackInitiatorHandshake initiatorHandshake)
  let record : PrekeyRecord ← get .prekeys
  lift (checkAnswerable P record handshake)
  messenger sessionId (Messenger.recordProvisionalHandshake i (dhPublicKey P identity) sessionId
    { peerIdentityPk := handshake.identityPk, handshake := initiatorHandshake }
    ⟨.prekeys, record⟩)

variable (P) in
/-- The session that answers `handshake` from the prekeys of `record`. -/
def responderSession (identity : Identity) (record : PrekeyRecord) (handshake : InitiatorHandshake) :
    Session P.Key :=
  let bob := x3dhRespond P identity.dhKey (dhPublicKey P identity) record.signedPrekeySk
    (record.opk.map Prod.snd) handshake.identityPk handshake.ephemeralPk
  { ratchet := DoubleRatchet.initBob P.toCrypto bob.rootKey record.signedPrekeySk
    ad := bob.ad, peerIdentityPk := handshake.identityPk }

/-- The prekey record rotated past the one-time prekey that is used. -/
def rotated (record : PrekeyRecord) (opk : UInt64 × StaticSecret) : PrekeyRecord :=
  { record with opk := some opk }

/-- The write that consumes the one-time prekey of `record`, if it has one. -/
def consume (record : PrekeyRecord) : Core P (List (SideWrite P.Key)) := do
  match record.opk with
  | none => return []
  | some _ =>
    let opk ← newOneTimePrekey
    match SideWrite.replace .prekeys record (rotated record opk) with
    | .ok w => return [w]
    | .error _ => throw (.storage "prekey record key is reserved")

/-- `accept_first_message`. -/
def acceptFirstMessage (i : Nat) (identity : Identity) (sessionId : UInt64)
    (provisional : ProvisionalHandshake) (wire : Bytes) : Core P Received := do
  let our := dhPublicKey P identity
  let handshake ← lift (unpackInitiatorHandshake provisional.handshake)
  if handshake.identityPk ≠ provisional.peerIdentityPk then
    throw (.invalidSessionState sessionId "provisional handshake does not match its peer")
  let record : PrekeyRecord ← get .prekeys
  match checkAnswerable P record handshake with
  | .error refused =>
    match ← messenger sessionId (Messenger.peerOf sessionId) with
    | some _ => messenger sessionId (Messenger.receive i our sessionId wire)
    | none => throw refused
  | .ok () =>
    let extra ← consume record
    let first : FirstContact P.Key :=
      { handle := sessionId, session := responderSession P identity record handshake, provisional
        extra }
    match ← Op.attempt (Messenger.acceptFirstMessage i our first wire).run with
    | .ok received => return received
    | .error (.extraConflict _ _) =>
      throw (.oneTimePrekeyUnavailable (handshake.opkId.getD 0))
    | .error e => throw (.messaging sessionId e)

/-- `is_legacy_unconfirmed`. -/
def isLegacyUnconfirmed (sessionId : UInt64) : Core P Bool := do
  let our ← ourIdentityPk
  messenger sessionId (Messenger.isLegacyUnconfirmed our sessionId)

/-! ## Messages (`messaging_api.rs`) -/

/-- `send_committed`. -/
def sendCommitted (i : Nat) (sessionId : UInt64) (clientMessageId plaintext : Bytes) :
    Core P SendOutcome := do
  let our ← ourIdentityPk
  messenger sessionId (Messenger.send i our sessionId clientMessageId plaintext)

/-- `prior_send`. -/
def priorSend (peer : Peer) (clientMessageId : Bytes) : Core P (Option SendOutcome) :=
  messenger (localSessionHandle P peer) (Messenger.priorSend peer clientMessageId)

/-- `receive_committed`. -/
def receiveCommitted (i : Nat) (sessionId : UInt64) (message : Bytes) : Core P Received := do
  let identity ← requireIdentity
  match ← messenger sessionId (Messenger.peerOf sessionId) with
  | some _ => messenger sessionId (Messenger.receive i (dhPublicKey P identity) sessionId message)
  | none =>
    match ← messenger sessionId (Messenger.provisionalHandshake sessionId) with
    | some p => acceptFirstMessage i identity sessionId p message
    | none => messenger sessionId (Messenger.receive i (dhPublicKey P identity) sessionId message)

/-- `pending_committed`, and `pending_incoming`. -/
def pendingCommitted (sessionId : UInt64) : Core P (List IncomingMessage) :=
  messenger sessionId (Messenger.pendingIncoming sessionId)

/-- `message_id_arg`. -/
def messageIdArg (sessionId : UInt64) (id : Bytes) : Except CoreError MessageId :=
  if h : id.length = 32 then .ok ⟨id, h⟩ else .error (.unknownMessage sessionId)

/-- `acknowledge_outgoing`. -/
def acknowledgeOutgoing (sessionId : UInt64) (messageId : Bytes) : Core P Bool := do
  let id ← lift (messageIdArg sessionId messageId)
  messenger sessionId (Messenger.acknowledgeOutgoing sessionId id)

/-- `abandon_outgoing`. -/
def abandonOutgoing (sessionId : UInt64) (messageId : Bytes) : Core P Bool := do
  let id ← lift (messageIdArg sessionId messageId)
  messenger sessionId (Messenger.abandonOutgoing sessionId id)

/-- `initiator_handshake`. -/
def initiatorHandshake (sessionId : UInt64) : Core P (Option Bytes) :=
  messenger sessionId (Messenger.initialOutbound sessionId)

/-- `has_session`. -/
def hasSession (sessionId : UInt64) : Core P Bool := do
  return (← messenger sessionId (Messenger.peerOf sessionId)).isSome

/-- `send_message`: the caller's own messages, under an id the network layer does not use. -/
def sendMessage (i : Nat) (sessionId : UInt64) (clientMessageId plaintext : Bytes) :
    Core P SendOutcome := do
  if ClientId.isReserved clientMessageId then throw .invalidClientMessageId
  sendCommitted i sessionId clientMessageId plaintext

/-- `remove_session`. -/
def removeSession (i : Nat) (sessionId : UInt64) : Core P Unit := do
  let our ← ourIdentityPk
  messenger sessionId (Messenger.removeSession i our sessionId)

/-- `pending_outgoing`. -/
def pendingOutgoing (sessionId : UInt64) : Core P (List OutgoingMessage) :=
  messenger sessionId (Messenger.pendingOutgoing sessionId)

/-- `acknowledge_incoming`. -/
def acknowledgeIncoming (sessionId : UInt64) (messageId : Bytes) : Core P Bool := do
  let id ← lift (messageIdArg sessionId messageId)
  messenger sessionId (Messenger.acknowledgeIncoming sessionId id)

/-- `recover_session`. -/
def recoverSession (i : Nat) (sessionId : UInt64) : Core P (Option Recovery) := do
  let our ← ourIdentityPk
  messenger sessionId (Messenger.recover i our sessionId)

/-! ## Contacts (`contacts.rs`) -/

/-- `Card::decode`. -/
def decodeCard (bytes : Bytes) : Except CoreError Card := do
  if bytes.length ≠ 65 then throw (.invalidContactCard "expected 65 bytes")
  if bytes.getD 0 0 ≠ 0x01 then throw (.invalidContactCard "unsupported card version")
  return { dhPk := ← takeN 32 (bytes.drop 1), signingPk := ← takeN 32 (bytes.drop 33) }

/-- `pinned`. -/
def pinned (peer : Peer) : Core P (Option Card) := find CoreError.ofStorage (.contact peer)

/-- `contact_card`. -/
def contactCard : Core P Bytes := do
  let identity ← requireIdentity
  return 0x01 :: ((dhPublicKey P identity).val ++ (P.verifyingKey identity.signingKey).val)

/-- `add_contact`. -/
def addContact (card : Bytes) : Core P Peer := do
  let parsed ← lift (decodeCard card)
  if parsed.dhPk = (← ourIdentityPk) then throw (.invalidContactCard "this is our own card")
  tx storeErrors fun read => do
    match ← getOpt read (.contact parsed.dhPk) with
    | some (existing : Card) =>
      if existing = parsed then return (parsed.dhPk, []) else throw .contactIdentityChanged
    | none => return (parsed.dhPk, [⟨.contact parsed.dhPk, some parsed⟩])

/-- The cards under `keys`, each read on its own. -/
def readCards : List Peer → Core P (List Peer)
  | [] => return []
  | p :: ps => do
    let card : Card ← get (.contact p)
    return card.dhPk :: (← readCards ps)

/-- `contacts`. -/
def contacts : Core P (List Peer) := do
  readCards (← keysUnder CoreError.ofStorage fun rows => rows.contacts)

end Core

end Arcium
