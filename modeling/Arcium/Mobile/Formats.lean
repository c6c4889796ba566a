import Arcium.Crypto.X3dh
import Arcium.Protocol.Messenger

/-!
# Errors and wire formats of the core (`mobile-ffi/src/lib.rs`)

`CoreError` is what the interface reports, with its texts. `PREKEY_BUNDLE_V1` (204 bytes),
`INITIATOR_HANDSHAKE_V1` (84 bytes) and the stored `PERSISTED_PREKEY_RECORD_V2` (138 bytes) are
fixed-width: a field is at a fixed offset, an absent one-time prekey is zero bytes, and a parser
refuses everything else.
-/

namespace Arcium

/-! ## Errors -/

def hexDigit (n : UInt8) : Char := "0123456789abcdef".toList.getD n.toNat '0'

/-- The format `#04x` of a byte. -/
def hexByte (b : UInt8) : String := "0x".push (hexDigit (b / 16)) |>.push (hexDigit (b % 16))

/-- `StorageError`'s text. What the database engine adds to it is left out. -/
def StorageError.text : StorageError → String
  | .db => "database error"
  | .decryption => "decryption failed (wrong key or corrupted data)"
  | .notFound => "key not found"
  | .transactionStateInvalid => "transaction state invalid"

def RatchetError.text : RatchetError → String
  | .decryption => "AEAD decryption failed"
  | .skipLimit => "skip limit (1000) exceeded in receive chain"
  | .invalidHeader => "malformed header"
  | .notInitialized => "chain not yet initialized; bob must receive first message before sending"

def CheckpointError.text : CheckpointError → String
  | .truncated actual => s!"ratchet checkpoint is {actual} bytes; at least 182 required"
  | .oversized actual => s!"ratchet checkpoint is {actual} bytes; limit is 136182"
  | .unsupportedVersion v => s!"unsupported ratchet checkpoint version {v}"
  | .lengthMismatch expected actual =>
    s!"ratchet checkpoint length {actual} does not match {expected} implied by its skipped-key count"
  | .unknownFlags flags => s!"ratchet checkpoint has unknown presence flags {hexByte flags}"
  | .unexpectedCapacity n =>
    s!"ratchet checkpoint max_skipped {n} does not match this implementation"
  | .tooManySkippedKeys n => s!"ratchet checkpoint holds {n} skipped keys; limit is 2000"
  | .duplicateSkippedKey => "ratchet checkpoint lists the same skipped key twice"
  | .absentFieldNotZero field => s!"ratchet checkpoint field {field} is marked absent but not zero"
  | .inconsistentState rule => s!"ratchet state violates a structural rule: {rule}"
  | .counterExhausted field =>
    s!"ratchet counter {field} is exhausted; the state cannot be resumed safely"

def SessionCheckpointError.text : SessionCheckpointError → String
  | .truncated actual => s!"session checkpoint is {actual} bytes; at least 149 required"
  | .oversized actual => s!"session checkpoint is {actual} bytes; limit is 136331"
  | .badMagic => "not a session checkpoint"
  | .unsupportedVersion v => s!"unsupported session checkpoint version {v}"
  | .unknownRole r => s!"unknown session role {r}"
  | .ourIdentityMismatch => "session checkpoint belongs to another local identity"
  | .peerIdentityMismatch => "session checkpoint belongs to another peer"
  | .adMismatch => "session associated data does not match its role and identities"
  | .lengthMismatch expected actual =>
    s!"session checkpoint length {actual} does not match {expected} implied by its header"
  | .ratchet e => "invalid ratchet state: " ++ e.text

/-- `CoreError`. -/
inductive CoreError where
  | storage (msg : String)
  | invalidKey (msg : String)
  | handshake (msg : String)
  | noSession (sessionId : UInt64)
  | sessionAlreadyExists (sessionId : UInt64)
  | sessionIdCollision (sessionId : UInt64)
  | crypto (msg : String)
  | invalidPrekeyBundle (msg : String)
  | invalidHandshake (msg : String)
  | unsupportedProtocolVersion (version suite : UInt8)
  | badSignedPrekeySignature
  | oneTimePrekeyUnavailable (opkId : UInt64)
  | oneTimePrekeyRequired
  | staleSignedPrekey
  | sessionConflict (sessionId : UInt64)
  | commitOutcomeUnknown (sessionId attemptedGeneration : UInt64)
  | sessionUnresolved (sessionId attemptedGeneration : UInt64)
  | invalidSessionState (sessionId : UInt64) (msg : String)
  | unknownMessage (sessionId : UInt64)
  | invalidClientMessageId
  | sessionEstablished (sessionId : UInt64)
  | pendingOutgoing (sessionId : UInt64) (count : Nat)
  | repeatableOutcomeUnknown (sessionId : UInt64)
  | network (msg : String)
  | invalidContactCard (msg : String)
  | contactIdentityChanged
  | unknownContact
  | peerBundleUnavailable
  | peerIdentityMismatch
  | invalidArgument (msg : String)
  | identityUnreadable (msg : String)
  | identityAlreadyExists
  /-- The call unwound. -/
  | panic (msg : String)
  deriving DecidableEq, Repr

namespace CoreError

/-- `to_string`. -/
def text : CoreError → String
  | storage msg => "storage error: " ++ msg
  | invalidKey msg => "invalid master key: " ++ msg
  | handshake msg => "handshake error: " ++ msg
  | noSession id => s!"no session for id {id}"
  | sessionAlreadyExists id => s!"session {id} already established with this peer"
  | sessionIdCollision id => s!"session id {id} is already held by a different peer"
  | crypto msg => "ratchet error: " ++ msg
  | invalidPrekeyBundle msg => "invalid prekey bundle: " ++ msg
  | invalidHandshake msg => "invalid handshake: " ++ msg
  | unsupportedProtocolVersion version suite =>
    s!"unsupported protocol version {version} / cipher suite {suite}"
  | badSignedPrekeySignature => "signed prekey signature is not valid for this bundle"
  | oneTimePrekeyUnavailable id => s!"one-time prekey {id} is not available"
  | oneTimePrekeyRequired => "this handshake must use the currently published one-time prekey"
  | staleSignedPrekey => "signed prekey is stale"
  | sessionConflict id =>
    s!"session {id} was advanced by another instance; nothing was written"
  | commitOutcomeUnknown id generation =>
    s!"commit outcome unknown for session {id} (generation {generation})"
  | sessionUnresolved id generation =>
    s!"session {id} is unresolved (generation {generation}); call recover_session"
  | invalidSessionState id msg => s!"stored state for session {id} is invalid: " ++ msg
  | unknownMessage id => s!"unknown message for session {id}"
  | invalidClientMessageId => "client message id must be 1 to 64 bytes and not reserved"
  | sessionEstablished id => s!"session {id} is established and cannot be removed"
  | pendingOutgoing id count => s!"session {id} has {count} pending outgoing messages"
  | repeatableOutcomeUnknown id =>
    s!"outcome unknown for an operation on session {id}; repeat it"
  | network msg => "network: " ++ msg
  | invalidContactCard msg => "invalid contact card: " ++ msg
  | contactIdentityChanged => "a different card is already pinned for this identity"
  | unknownContact => "unknown contact"
  | peerBundleUnavailable => "the peer has no published prekey bundle"
  | peerIdentityMismatch => "the published bundle does not match the pinned contact card"
  | invalidArgument msg => "invalid argument: " ++ msg
  | identityUnreadable msg => "the stored identity cannot be read: " ++ msg
  | identityAlreadyExists => "an identity is already stored"
  | panic msg => msg

/-- `From<StorageError>`. -/
def ofStorage (e : StorageError) : CoreError := storage e.text

/-- `CoreError::messaging`: a failure of the messenger on `sessionId`. -/
def messaging (sessionId : UInt64) : MessagingError → CoreError
  | .noSession _ => noSession sessionId
  | .alreadyExists _ | .sessionNotRetirable _ => sessionAlreadyExists sessionId
  | .handleCollision _ => sessionIdCollision sessionId
  | .missingSession _ =>
    invalidSessionState sessionId "handle is registered but its session record is missing"
  | .invalidSession e => invalidSessionState sessionId e.text
  | .invalidRecord what => invalidSessionState sessionId s!"corrupt {what} record"
  | .inconsistentStore what => invalidSessionState sessionId what
  | .malformedMessage => crypto "malformed message"
  | .ratchet e => crypto e.text
  | .checkpoint e => crypto e.text
  | .generationExhausted => crypto "session generation exhausted"
  | .conflict _ => sessionConflict sessionId
  | .extraConflict _ _ | .sideWrite _ => storage "conflicting write"
  | .store e | .notCommitted e => ofStorage e
  | .repeatableOutcomeUnknown _ => repeatableOutcomeUnknown sessionId
  | .outcomeUnknown generation _ => commitOutcomeUnknown sessionId generation
  | .unresolved generation => sessionUnresolved sessionId generation
  | .unknownMessage => unknownMessage sessionId
  | .invalidClientMessageId => invalidClientMessageId
  | .sessionEstablished => sessionEstablished sessionId
  | .pendingOutgoing count => pendingOutgoing sessionId count
  | .panic msg => panic msg

end CoreError

/-! ## Headers of the formats -/

/-- `FLAG_OTP`: a one-time prekey is present, or was used. -/
def flagOtp : UInt8 := 1

/-- `check_flags`: whether a one-time prekey is there. Unknown bits are refused. -/
def checkFlags (flags : UInt8) (refuse : String → CoreError) : Except CoreError Bool :=
  if flags &&& ~~~flagOtp ≠ 0 then .error (refuse s!"unknown flag bits set: {hexByte flags}")
  else .ok (flags &&& flagOtp ≠ 0)

/-- `check_version_and_suite`. -/
def checkVersionAndSuite (version suite : UInt8) : Except CoreError Unit :=
  if version ≠ protocolVersion ∨ suite ≠ cipherSuite then
    .error (.unsupportedProtocolVersion version suite)
  else .ok ()

/-- `bytes_to_pubkey` of the 32 bytes at `offset`. -/
def pubkeyAt (bytes : Bytes) (offset : Nat) : Except CoreError PublicKey :=
  match take32 (bytes.drop offset) with
  | some pk => .ok pk
  | none => .error (.handshake "expected a 32-byte public key")

/-- `bytes[from..to].try_into().expect("checked length")`. -/
def takeN (n : Nat) (bytes : Bytes) : Except CoreError { b : Bytes // b.length = n } :=
  if h : (bytes.take n).length = n then .ok ⟨bytes.take n, h⟩ else .error (.panic "checked length")

/-! ## `PREKEY_BUNDLE_V1` -/

/-- `PREKEY_BUNDLE_V1_LEN`. -/
def prekeyBundleLen : Nat := 204

/-- `pack_prekey_bundle`. -/
def packPrekeyBundle (bundle : PrekeyBundle) : Bytes :=
  [protocolVersion, cipherSuite, if bundle.oneTimePrekey.isSome then flagOtp else 0, 0] ++
    bundle.identityPk.val ++ bundle.signingPk.val ++ bundle.signedPrekeyPk.val ++
    bundle.signedPrekeySignature.val ++
    match bundle.oneTimePrekey with
    | some (id, pk) => be64 id ++ pk.val
    | none => List.replicate 40 0

/-- The one-time prekey of a bundle. -/
def unpackOneTimePrekey (bytes : Bytes) : Bool → Except CoreError (Option (UInt64 × PublicKey))
  | true => do return some (ofBe64 ((bytes.drop 164).take 8), ← pubkeyAt bytes 172)
  | false =>
    if (bytes.drop 164).any (· ≠ 0) then
      .error (.invalidPrekeyBundle "one-time prekey absent but its bytes are not zero")
    else .ok none

/-- `unpack_prekey_bundle`. -/
def unpackPrekeyBundle (P : AppPlatform) (bytes : Bytes) : Except CoreError PrekeyBundle := do
  if bytes.length ≠ prekeyBundleLen then
    throw (.invalidPrekeyBundle s!"expected {prekeyBundleLen} bytes, got {bytes.length}")
  checkVersionAndSuite (bytes.getD 0 0) (bytes.getD 1 0)
  let hasOtp ← checkFlags (bytes.getD 2 0) .invalidPrekeyBundle
  if bytes.getD 3 0 ≠ 0 then
    throw (.invalidPrekeyBundle s!"reserved byte must be zero, got {hexByte (bytes.getD 3 0)}")
  let identityPk ← pubkeyAt bytes 4
  let signingPk ← takeN 32 (bytes.drop 36)
  if !P.isVerifyingKey signingPk then throw (.invalidPrekeyBundle "invalid signing public key")
  let signedPrekeyPk ← pubkeyAt bytes 68
  let signedPrekeySignature ← takeN 64 (bytes.drop 100)
  let oneTimePrekey ← unpackOneTimePrekey bytes hasOtp
  return { identityPk, signingPk, signedPrekeyPk, signedPrekeySignature, oneTimePrekey }

/-! ## `INITIATOR_HANDSHAKE_V1` -/

/-- `INITIATOR_HANDSHAKE_V1_LEN`. -/
def initiatorHandshakeLen : Nat := 84

/-- `InitiatorHandshakeV1`. -/
structure InitiatorHandshake where
  identityPk : PublicKey
  ephemeralPk : PublicKey
  spkId : Bytes
  opkId : Option UInt64
  deriving DecidableEq

/-- `pack_initiator_handshake`. -/
def packInitiatorHandshake (h : InitiatorHandshake) : Bytes :=
  [protocolVersion, cipherSuite, if h.opkId.isSome then flagOtp else 0, 0] ++
    h.identityPk.val ++ h.ephemeralPk.val ++ h.spkId ++
    match h.opkId with
    | some id => be64 id
    | none => List.replicate 8 0

/-- The id of the one-time prekey a handshake names. -/
def unpackOpkId (bytes : Bytes) : Bool → Except CoreError (Option UInt64)
  | true => .ok (some (ofBe64 ((bytes.drop 76).take 8)))
  | false =>
    if (bytes.drop 76).any (· ≠ 0) then
      .error (.invalidHandshake "one-time prekey not used but its id is not zero")
    else .ok none

/-- `unpack_initiator_handshake`. -/
def unpackInitiatorHandshake (bytes : Bytes) : Except CoreError InitiatorHandshake := do
  if bytes.length ≠ initiatorHandshakeLen then
    throw (.invalidHandshake s!"expected {initiatorHandshakeLen} bytes, got {bytes.length}")
  checkVersionAndSuite (bytes.getD 0 0) (bytes.getD 1 0)
  let usedOtp ← checkFlags (bytes.getD 2 0) .invalidHandshake
  if bytes.getD 3 0 ≠ 0 then
    throw (.invalidHandshake s!"reserved byte must be zero, got {hexByte (bytes.getD 3 0)}")
  let identityPk ← pubkeyAt bytes 4
  let ephemeralPk ← pubkeyAt bytes 36
  let spkId ← takeN 8 (bytes.drop 68)
  let opkId ← unpackOpkId bytes usedOtp
  return { identityPk, ephemeralPk, spkId := spkId.val, opkId }

/-! ## `PERSISTED_PREKEY_RECORD_V2` -/

/-- `PREKEY_RECORD_V2_LEN`. -/
def prekeyRecordLen : Nat := 138

/-- `RECORD_VERSION` of the prekey record. -/
def prekeyRecordVersion : UInt8 := 0x01

/-- `pack_prekeys`. -/
def packPrekeys (record : PrekeyRecord) : Bytes :=
  prekeyRecordVersion :: (record.signedPrekeySk.val ++ record.signature.val ++
    match record.opk with
    | some (id, sk) => flagOtp :: (be64 id ++ sk.val)
    | none => List.replicate 41 0)

/-- The one-time prekey of a record. -/
def unpackStoredOpk (bytes : Bytes) : Bool → Except CoreError (Option (UInt64 × StaticSecret))
  | true => do return some (ofBe64 ((bytes.drop 98).take 8), ← takeN 32 (bytes.drop 106))
  | false =>
    if (bytes.drop 98).any (· ≠ 0) then
      .error (.storage "corrupt prekey record: one-time prekey absent but its bytes are not zero")
    else .ok none

/-- `unpack_prekeys`. -/
def unpackPrekeys (bytes : Bytes) : Except CoreError PrekeyRecord := do
  if bytes.length ≠ prekeyRecordLen then
    throw (.storage
      s!"corrupt prekey record: {bytes.length} bytes, expected {prekeyRecordLen}")
  if bytes.getD 0 0 ≠ prekeyRecordVersion then
    throw (.storage s!"unknown prekey record version {hexByte (bytes.getD 0 0)}")
  let signedPrekeySk ← takeN 32 (bytes.drop 1)
  let signature ← takeN 64 (bytes.drop 33)
  let flags := bytes.getD 97 0
  if flags &&& ~~~flagOtp ≠ 0 then
    throw (.storage s!"corrupt prekey record: unknown flag bits {hexByte flags}")
  let opk ← unpackStoredOpk bytes (flags &&& flagOtp ≠ 0)
  return { signedPrekeySk, signature, opk }

end Arcium
