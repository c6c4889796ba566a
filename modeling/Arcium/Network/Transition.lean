import Arcium.Network.Chat
import Arcium.Protocol.Recovery

/-!
# What the application can do to the store

Each transaction of the core, of the network layer and of the chat layer, as a relation between the
database before and the records after: what it wrote, what held when it committed, and why it was
made. A transaction of the messenger is one of `Messenger.Trans`, here with its reason: which call
of the interface, and which message, led to it.

* `Step start call`: the transactions of one call.
* `Trans scope`: those of every call that `scope` allows, after the store it starts with.

Every invariant of a device is proved from `Trans` alone.
-/

namespace Arcium

open Conc

namespace Network

/-- The calls of the public interface, with the instance `i` that makes them where it matters. -/
inductive Call where
  | saveIdentity (identity : Identity)
  | establishPrekeys
  | exportPrekeyBundle
  | establishSessionInitiator (i : Nat) (sessionId : UInt64) (peerBundle : Bytes)
  | establishSessionResponder (i : Nat) (sessionId : UInt64) (initiatorHandshake : Bytes)
  | initiatorHandshake (sessionId : UInt64)
  | hasSession (sessionId : UInt64)
  | sendMessage (i : Nat) (sessionId : UInt64) (clientMessageId plaintext : Bytes)
  | removeSession (i : Nat) (sessionId : UInt64)
  | pendingOutgoing (sessionId : UInt64)
  | receiveMessage (i : Nat) (sessionId : UInt64) (message : Bytes)
  | pendingIncoming (sessionId : UInt64)
  | acknowledgeIncoming (sessionId : UInt64) (messageId : Bytes)
  | recoverSession (i : Nat) (sessionId : UInt64)
  | contactCard
  | addContact (card : Bytes)
  | contacts
  | publishPrekeys
  | startSession (i : Nat) (peer : Peer)
  | sendText (i : Nat) (peer : Peer) (clientMessageId text : Bytes)
  | receivedTexts (peer : Peer)
  | markRead (peer : Peer) (messageId : Bytes)
  | undelivered (peer : Peer)
  | sync (i : Nat)
  | addNamedContact (card : Bytes) (name : String)
  | renameContact (peer : Peer) (name : String)
  | chatEntries (i : Nat) (peer : Peer)
  | chatSend (i : Nat) (peer : Peer) (appId text : Bytes)
  | markSeen (peer : Peer)
  | resolveSessionConflict (i : Nat) (peer : Peer)
  | syncConversations (i : Nat)

namespace Call

/-- The calls that make a round with the relay. -/
def Syncs : Call → Prop
  | sync _ | syncConversations _ => True
  | _ => False

/-- The calls that bring the history of `peer` up to date. -/
def Refreshes (peer : Peer) : Call → Prop
  | chatEntries _ p | chatSend _ p _ _ => p = peer
  | syncConversations _ => True
  | _ => False

/-- The calls that start a session with `peer`. -/
def Starts (peer : Peer) : Call → Prop
  | startSession _ p => p = peer
  | syncConversations _ => True
  | _ => False

/-- The calls that can store new prekeys. -/
def EstablishesPrekeys : Call → Prop
  | establishPrekeys | publishPrekeys => True
  | call => call.Syncs

/-- The calls that change what is kept beside the entries of `peer`. -/
def Describes (peer : Peer) : Call → Prop
  | renameContact p _ | markSeen p | resolveSessionConflict _ p => p = peer
  | addNamedContact _ _ => True
  | call => call.Syncs

/-- The calls that hand this handshake to the core. -/
def Responds (handle : UInt64) (bytes : Bytes) : Call → Prop
  | establishSessionResponder _ h b => h = handle ∧ b = bytes
  | call => call.Syncs

/-- The calls that hand this message to the core. -/
def Receives (handle : UInt64) (wire : Bytes) : Call → Prop
  | receiveMessage _ h w => h = handle ∧ w = wire
  | call => call.Syncs

end Call

variable {P : AppPlatform}

/-- `our` is the public key of an identity that was stored. -/
def Ours (db : Db P.Key) (our : Bytes32) : Prop :=
  ∃ identity : Identity, db.Ever .identity identity ∧ Core.dhPublicKey P identity = our

theorem Ours.mono {db db' : Db P.Key} {our : Bytes32} (h : Ours db our) (hle : db.Le db') :
    Ours db' our := by
  obtain ⟨identity, he, ho⟩ := h
  exact ⟨identity, he.mono hle, ho⟩

/-- The handle was registered for `peer` at some time. -/
def Named (db : Db P.Key) (handle : UInt64) (peer : Peer) : Prop :=
  ∃ db₀ : Db P.Key, db₀.Le db ∧ db₀.rows.lookup (.handle handle) = some peer

theorem Named.mono {db db' : Db P.Key} {handle : UInt64} {peer : Peer} (h : Named db handle peer)
    (hle : db.Le db') : Named db' handle peer := by
  obtain ⟨db₀, h₀, hn⟩ := h
  exact ⟨db₀, h₀.trans hle, hn⟩

/-! ## Reasons -/

/-- Why a text is sent under `appId`. -/
inductive TextWhy (call : Call) (db : Db P.Key) (peer : Peer) (appId text : Bytes) : Prop
  /-- `send_text` took the id. -/
  | claimed (i : Nat) (called : call = .sendText i peer appId text)
      (h : db.Ever (.chatRaw peer appId) ())
  /-- The history has it. -/
  | queued (called : call.Refreshes peer) (seq : Nat) (e : Entry) (h : db.Ever (.chatEntry peer seq) e) (outgoing : e.outgoing = true)
      (app : e.appId = appId) (same : e.text = text)

/-- What is sent under a client id. -/
inductive SendWhy (call : Call) (db : Db P.Key) (handle : UInt64) :
    (clientId plaintext : Bytes) → Prop
  /-- `send_message`. -/
  | raw (i : Nat) (clientId plaintext : Bytes)
      (called : call = .sendMessage i handle clientId plaintext)
      (free : ClientId.isReserved clientId = false) : SendWhy call db handle clientId plaintext
  | text (peer : Peer) (appId text : Bytes) (own : handle = localSessionHandle P peer)
      (why : TextWhy call db peer appId text) :
      SendWhy call db handle (ClientId.text appId) (Payload.text text).encode
  | receipt (id : MessageId) (round : UInt64) (called : call.Syncs) :
      SendWhy call db handle (ClientId.receipt id round) (Payload.receipt [id]).encode
  | opener (peer : Peer) (own : handle = localSessionHandle P peer) (called : call.Starts peer) :
      SendWhy call db handle ClientId.opener Payload.opener.encode

/-- `m` was accepted from the peer of the handle. -/
def AcceptedFrom (db : Db P.Key) (handle : UInt64) (m : IncomingMessage) : Prop :=
  ∃ peer id, Named db handle peer ∧ db.Ever (.inbox peer id) m

theorem AcceptedFrom.mono {db db' : Db P.Key} {handle : UInt64} {m : IncomingMessage}
    (h : AcceptedFrom db handle m) (hle : db.Le db') : AcceptedFrom db' handle m := by
  obtain ⟨peer, id, hn, he⟩ := h
  exact ⟨peer, id, hn.mono hle, he.mono hle⟩

/-- Why a message leaves the outbox as delivered. -/
inductive AckOutWhy (db : Db P.Key) (handle : UInt64) (id : MessageId) : Prop
  /-- It is a receipt, and the relay has it. -/
  | relayed (peer : Peer) (key : MessageId) (m : OutgoingMessage) (named : Named db handle peer)
      (sent : db.Ever (.outbox peer key) m) (same : m.messageId = id)
      (receipt : m.clientMessageId.head? = some ClientId.receiptByte)
  /-- The peer's receipt names it. -/
  | confirmed (m : IncomingMessage) (ids : List MessageId) (accepted : AcceptedFrom db handle m)
      (payload : Payload.decode m.plaintext = some (.receipt ids)) (mem : id ∈ ids)

/-- A receipt for `id` was committed on the session of the handle. -/
def ReceiptCommitted (db : Db P.Key) (handle : UInt64) (id : MessageId) : Prop :=
  ∃ peer r, Named db handle peer ∧ db.Ever (.sendid peer (ClientId.receipt id 0)) r

theorem ReceiptCommitted.mono {db db' : Db P.Key} {handle : UInt64} {id : MessageId}
    (h : ReceiptCommitted db handle id) (hle : db.Le db') : ReceiptCommitted db' handle id := by
  obtain ⟨peer, r, hn, he⟩ := h
  exact ⟨peer, r, hn.mono hle, he.mono hle⟩

/-- The message `id` was not in the outbox of the session of the handle, since `db₀`. -/
def OutOfOutbox (db : Db P.Key) (handle : UInt64) (id : MessageId) : Prop :=
  ∃ peer, Named db handle peer ∧ ∃ db₀ : Db P.Key, db₀.Le db ∧ db₀.rows.lookup (.outbox peer id) = none

theorem OutOfOutbox.mono {db db' : Db P.Key} {handle : UInt64} {id : MessageId}
    (h : OutOfOutbox db handle id) (hle : db.Le db') : OutOfOutbox db' handle id := by
  obtain ⟨peer, hn, db₀, h₀, ho⟩ := h
  exact ⟨peer, hn.mono hle, db₀, h₀.trans hle, ho⟩

/-- Why an accepted message leaves the inbox. -/
inductive AckInWhy (call : Call) (db : Db P.Key) (handle : UInt64) (id : MessageId) : Prop
  /-- The application said so. -/
  | raw (called : call = .acknowledgeIncoming handle id.val ∨
      ∃ peer, handle = localSessionHandle P peer ∧ call = .markRead peer id.val)
  | opener (called : call.Syncs) (m : IncomingMessage) (accepted : AcceptedFrom db handle m) (same : m.messageId = id)
      (payload : Payload.decode m.plaintext = some .opener) (receipt : ReceiptCommitted db handle id)
  | receipt (called : call.Syncs) (m : IncomingMessage) (ids : List MessageId)
      (accepted : AcceptedFrom db handle m) (same : m.messageId = id)
      (payload : Payload.decode m.plaintext = some (.receipt ids)) (applied : ∀ acked ∈ ids, OutOfOutbox db handle acked)
  | unknown (called : call.Syncs) (m : IncomingMessage) (accepted : AcceptedFrom db handle m)
      (same : m.messageId = id) (payload : Payload.decode m.plaintext = none)
  /-- It is a text, and the history has it. -/
  | recorded (peer : Peer) (called : call.Refreshes peer) (m : IncomingMessage) (text : Bytes)
      (own : handle = localSessionHandle P peer) (accepted : AcceptedFrom db handle m) (same : m.messageId = id)
      (payload : Payload.decode m.plaintext = some (.text text))
      (history : ∃ seq : Nat, db.Ever (.chatIn peer id.val) seq)

/-- The identity keys of the bundle are those of the card pinned for `peer`. -/
def Matches (db : Db P.Key) (peer : Peer) (bundle : PrekeyBundle) : Prop :=
  ∃ card : Card, db.Ever (.contact peer) card ∧ bundle.identityPk = card.dhPk ∧
    bundle.signingPk = card.signingPk

theorem Matches.mono {db db' : Db P.Key} {peer : Peer} {bundle : PrekeyBundle}
    (h : Matches db peer bundle) (hle : db.Le db') : Matches db' peer bundle := by
  obtain ⟨card, he, hid, hsk⟩ := h
  exact ⟨card, he.mono hle, hid, hsk⟩

/-- `resolve_session_conflict` gives up the session with `peer`. -/
structure GivesUp (call : Call) (db : Db P.Key) (peer : Peer) : Prop where
  called : ∃ i, call = .resolveSessionConflict i peer
  flagged : ∃ m : ChatMeta, db.Ever (.chatMeta peer) m ∧ m.flags &&& Chat.flagConflict ≠ 0
  greater : ∃ our, Ours db our ∧ ¬ our.val ≤ peer.val

theorem GivesUp.mono {call : Call} {db db' : Db P.Key} {peer : Peer} (h : GivesUp call db peer)
    (hle : db.Le db') : GivesUp call db' peer := by
  obtain ⟨hc, ⟨m, he, hm⟩, our, ho, hg⟩ := h
  exact ⟨hc, ⟨m, he.mono hle, hm⟩, our, ho.mono hle, hg⟩

/-! ## Transactions of the core -/

/-- `save_identity` commits. -/
structure IdentityTx (identity : Identity) (db : Db P.Key) (rows : Rows P.Key) : Prop where
  none : db.rows.lookup .identity = none
  eq : rows = db.rows.applyAll [⟨.identity, some identity⟩]

variable (P) in
/-- The record that `establish_prekeys` stores. -/
def prekeyRecord (identity : Identity) (signedPrekeySk : StaticSecret) (opk : UInt64 × StaticSecret) :
    PrekeyRecord where
  signedPrekeySk
  signature := P.sign identity.signingKey (signedPrekeyObject (Core.dhPublicKey P identity)
    (P.verifyingKey identity.signingKey) (P.publicKey signedPrekeySk))
  opk := some opk

/-- `establish_prekeys` commits. -/
structure PrekeysTx (identity : Identity) (signedPrekeySk : StaticSecret)
    (opk : UInt64 × StaticSecret) (db : Db P.Key) (rows : Rows P.Key) : Prop where
  stored : db.Ever .identity identity
  eq : rows = db.rows.applyAll [⟨.prekeys, some (prekeyRecord P identity signedPrekeySk opk)⟩]

/-- `add_contact` commits. -/
structure ContactTx (card : Card) (db : Db P.Key) (rows : Rows P.Key) : Prop where
  none : db.rows.lookup (.contact card.dhPk) = none
  notOurs : ∃ our, Ours db our ∧ card.dhPk ≠ our
  eq : rows = db.rows.applyAll [⟨.contact card.dhPk, some card⟩]

/-- `establish_session_initiator` commits. -/
structure InitiateTx (identity : Identity) (handle : UInt64) (peerBundle : Bytes)
    (bundle : PrekeyBundle) (ephemeralSk dhs : StaticSecret) (alice : AliceSession P.Key)
    (db : Db P.Key) (rows : Rows P.Key) : Prop where
  stored : db.Ever .identity identity
  parsed : unpackPrekeyBundle P peerBundle = .ok bundle
  agreed : x3dhInitiate P identity.dhKey (Core.dhPublicKey P identity) bundle ephemeralSk = some alice
  create : Messenger.CreateTx (Core.dhPublicKey P identity)
    (Core.initiatorSession handle (Core.dhPublicKey P identity) bundle alice dhs) db rows

/-- `establish_session_responder` answers `handshake` from the prekeys in `record`. -/
structure Answers (identity : Identity) (bytes : Bytes) (handshake : InitiatorHandshake)
    (record : PrekeyRecord) (db : Db P.Key) : Prop where
  stored : db.Ever .identity identity
  parsed : unpackInitiatorHandshake bytes = .ok handshake
  answerable : Core.checkAnswerable P record handshake = .ok ()
  prekeys : db.Ever .prekeys record

theorem Answers.mono {identity : Identity} {bytes : Bytes} {handshake : InitiatorHandshake}
    {record : PrekeyRecord} {db db' : Db P.Key} (h : Answers identity bytes handshake record db)
    (hle : db.Le db') : Answers identity bytes handshake record db' :=
  ⟨h.stored.mono hle, h.parsed, h.answerable, h.prekeys.mono hle⟩

/-- The record of a handshake. -/
def provisionalOf (handshake : InitiatorHandshake) (bytes : Bytes) : ProvisionalHandshake :=
  { peerIdentityPk := handshake.identityPk, handshake := bytes }

/-- `establish_session_responder` commits: it records the handshake, or retires a session of an
older build for it, whose handle named this peer after `start`. -/
inductive RespondTx (start : Db P.Key) (identity : Identity) (handle : UInt64) (bytes : Bytes)
    (handshake : InitiatorHandshake) (record : PrekeyRecord) (db : Db P.Key) (rows : Rows P.Key) :
    Prop
  | recorded (h : Messenger.ProvisionalTx (P := P.toPlatform) handle (provisionalOf handshake bytes)
      db rows)
  | retired (peer : Peer) (old : SessionRecord P.Key)
      (named : ∃ db₀ : Db P.Key, start.Le db₀ ∧ db₀.Le db ∧
        db₀.rows.lookup (.handle handle) = some handshake.identityPk)
      (h : Messenger.RetireTx (Core.dhPublicKey P identity) handle (provisionalOf handshake bytes)
        ⟨.prekeys, record⟩ db peer old rows)

/-- The write that consumes the one-time prekey of `record`, and puts `fresh` in its place. -/
def consumed (record : PrekeyRecord) (fresh : UInt64 × StaticSecret) : List (SideWrite P.Key) :=
  match record.opk with
  | none => []
  | some _ => [⟨.prekeys, .exactly record, .put (Core.rotated record fresh), rfl⟩]

/-- What `accept_first_message` hands to the messenger. -/
def firstContact (identity : Identity) (handle : UInt64) (provisional : ProvisionalHandshake)
    (handshake : InitiatorHandshake) (record : PrekeyRecord) (fresh : UInt64 × StaticSecret) :
    FirstContact P.Key where
  handle
  session := Core.responderSession P identity record handshake
  provisional
  extra := consumed record fresh

/-- `accept_first_message` commits. -/
structure FirstTx (identity : Identity) (handle : UInt64) (wire : Bytes)
    (provisional : ProvisionalHandshake) (handshake : InitiatorHandshake) (record : PrekeyRecord)
    (fresh : UInt64 × StaticSecret) (new : SessionRecord P.Key) (m : IncomingMessage)
    (db : Db P.Key) (rows : Rows P.Key) : Prop where
  answers : Answers identity provisional.handshake handshake record db
  promote : Messenger.PromoteTx (Core.dhPublicKey P identity)
    (firstContact identity handle provisional handshake record fresh) wire db new m rows

/-- A session that an older build stored when a handshake arrived. -/
structure LegacyTx (our : Bytes32) (handle : UInt64) (rec : SessionRecord P.Key) (db : Db P.Key)
    (rows : Rows P.Key) : Prop where
  unconfirmed : Messenger.LegacyUnconfirmed rec
  bound : rec.Bound our rec.peer
  noSession : db.rows.lookup (.session rec.peer) = none
  noHandle : db.rows.lookup (.handle handle) = none
  eq : rows = db.rows.applyAll [⟨.session rec.peer, some rec⟩, ⟨.handle handle, some rec.peer⟩]

/-! ## Transactions of the history -/

/-- Why an entry moves to `state`. -/
inductive AdvanceWhy (call : Call) (db : Db P.Key) (peer : Peer) (seq : Nat) :
    ChatEntryState → Option MessageId → Prop
  /-- `send_text` reported `sent` for it. -/
  | sent (called : call.Refreshes peer) (key : Nat) (e : Entry) (s : SentText)
      (stored : db.Ever (.chatEntry peer key) e) (same : e.seq = seq) (outgoing : e.outgoing = true)
      (outcome : ∃ q o, Named db (localSessionHandle P peer) q ∧ s = sentText o ∧
        ((∃ m, o = .sent m ∧ db.Ever (.outbox q m.messageId) m ∧
            m.clientMessageId = ClientId.text e.appId) ∨
          ∃ db₀ : Db P.Key, db₀.Le db ∧
            Messenger.PriorAt (P := P.toPlatform) db₀.rows q (ClientId.text e.appId) o)) :
      AdvanceWhy call db peer seq (Chat.entryState s.state) (some s.messageId)
  /-- It left the outbox, and its send record says why. -/
  | settled (called : call.Refreshes peer) (key : Nat) (e : Entry) (o : SendOutcome)
      (state : ChatEntryState) (stored : db.Ever (.chatEntry peer key) e) (same : e.seq = seq)
      (outcome : ∃ db₀ : Db P.Key, db₀.Le db ∧
        Messenger.PriorAt (P := P.toPlatform) db₀.rows peer (ClientId.text e.appId) o)
      (h : Chat.settledState e (some o) = some state) : AdvanceWhy call db peer seq state none
  | transmitted (called : call.Refreshes peer) : AdvanceWhy call db peer seq .transmitted none
  | givenUp (h : GivesUp call db peer) : AdvanceWhy call db peer seq .notDelivered none

/-- The meta record of a conversation. -/
def metaAt (rows : Rows P.Key) (peer : Peer) : ChatMeta :=
  let stored : Option ChatMeta := rows.lookup (Key.chatMeta peer)
  stored.getD {}

/-- A transaction of the history. -/
inductive ChatTx (call : Call) (db : Db P.Key) (rows : Rows P.Key) : Prop
  /-- `update_meta`: the counter of the entries stays. -/
  | described (peer : Peer) (called : call.Describes peer) (f : ChatMeta → ChatMeta)
      (keeps : ∀ m, (f m).lastSeq = m.lastSeq) (short : ∀ m, Chat.Short m → Chat.Short (f m))
      (eq : rows = db.rows.applyAll [⟨.chatMeta peer, some (f (metaAt db.rows peer))⟩])
  /-- `advance`. -/
  | advanced (peer : Peer) (seq : Nat) (state : ChatEntryState) (messageId : Option MessageId)
      (e e' : Entry) (stored : db.rows.lookup (.chatEntry peer seq) = some e)
      (h : Chat.advanced e state messageId = some e')
      (why : AdvanceWhy call db peer seq state messageId)
      (eq : rows = db.rows.applyAll [⟨.chatEntry peer seq, some e'⟩])
  /-- `record_incoming`. -/
  | received (peer : Peer) (called : call.Refreshes peer) (m : IncomingMessage) (text : Bytes)
      (now : UInt64) (accepted : AcceptedFrom db (localSessionHandle P peer) m)
      (payload : Payload.decode m.plaintext = some (.text text))
      (noIndex : db.rows.lookup (.chatIn peer m.messageId.val) = none)
      (eq : rows = db.rows.applyAll
        [⟨.chatEntry peer ((metaAt db.rows peer).lastSeq + 1), some
            { seq := (metaAt db.rows peer).lastSeq + 1, outgoing := false, state := .received
              atMs := now, appId := [], messageId := m.messageId.val, text }⟩,
          ⟨.chatIn peer m.messageId.val, some ((metaAt db.rows peer).lastSeq + 1)⟩,
          ⟨.chatMeta peer, some { metaAt db.rows peer with
            lastSeq := (metaAt db.rows peer).lastSeq + 1 }⟩])
  /-- `claim_for_send_text`. -/
  | claimed (i : Nat) (peer : Peer) (appId text : Bytes) (called : call = .sendText i peer appId text)
      (noEntry : db.rows.lookup (.chatOut peer appId) = none)
      (eq : rows = db.rows.applyAll [⟨.chatRaw peer appId, some ()⟩])
  /-- `chat_send` records its entry. -/
  | queued (i : Nat) (peer : Peer) (appId text : Bytes) (now : UInt64)
      (called : call = .chatSend i peer appId text) (validId : appId.length ≤ 63)
      (noEntry : db.rows.lookup (.chatOut peer appId) = none)
      (noClaim : db.rows.lookup (.chatRaw peer appId) = none)
      (eq : rows = db.rows.applyAll
        [⟨.chatEntry peer ((metaAt db.rows peer).lastSeq + 1), some
            { seq := (metaAt db.rows peer).lastSeq + 1, outgoing := true, state := .queued
              atMs := now, appId, messageId := [], text }⟩,
          ⟨.chatOut peer appId, some ((metaAt db.rows peer).lastSeq + 1)⟩,
          ⟨.chatMeta peer, some { metaAt db.rows peer with
            lastSeq := (metaAt db.rows peer).lastSeq + 1 }⟩])

/-! ## Verdicts on envelopes -/

/-- At some time from `since` to `db`, `Q` held of the records. -/
def Within (since db : Db P.Key) (Q : Rows P.Key → Prop) : Prop :=
  ∃ db₁ : Db P.Key, since.Le db₁ ∧ db₁.Le db ∧ Q db₁.rows

theorem Within.mono {since since' db db' : Db P.Key} {Q : Rows P.Key → Prop}
    (h : Within since db Q) (hs : since'.Le since) (hle : db.Le db') : Within since' db' Q := by
  obtain ⟨db₁, h1, h2, h3⟩ := h
  exact ⟨db₁, hs.trans h1, h2.trans hle, h3⟩

/-- The session of `old` does not take `wire`. -/
def SessionRefuses (old : SessionRecord P.Key) (wire : Bytes) : Prop :=
  ∃ header ciphertext fresh e, Messenger.splitWire wire = .ok (header, ciphertext) ∧
    (DurableSession.ofRecord P.toPlatform old).stageDecrypt P.toPlatform header ciphertext fresh =
      .error e

/-- No session of this identity can be made of `session` that takes `wire` first. -/
def CandidateRefuses (our : Bytes32) (session : Session P.Key) (wire : Bytes) : Prop :=
  (∃ e, ProvisionalSession.new P.toPlatform session .responder our = .error e) ∨
    ∃ candidate header ciphertext fresh e,
      ProvisionalSession.new P.toPlatform session .responder our = .ok candidate ∧
      Messenger.splitWire wire = .ok (header, ciphertext) ∧
      candidate.stageFirstDecrypt P.toPlatform header ciphertext fresh = .error e

/-- The handshake that is recorded under a handle, and the prekeys for it. -/
structure Recorded (since db : Db P.Key) (handle : UInt64) (provisional : ProvisionalHandshake)
    (handshake : InitiatorHandshake) (record : PrekeyRecord) : Prop where
  stored : Within since db fun rows => rows.lookup (.provisional handle) = some provisional
  parsed : unpackInitiatorHandshake provisional.handshake = .ok handshake
  prekeys : Within since db fun rows => rows.lookup .prekeys = some record

theorem Recorded.mono {since since' db db' : Db P.Key} {handle : UInt64}
    {provisional : ProvisionalHandshake} {handshake : InitiatorHandshake} {record : PrekeyRecord}
    (h : Recorded since db handle provisional handshake record) (hs : since'.Le since)
    (hle : db.Le db') : Recorded since' db' handle provisional handshake record :=
  ⟨h.stored.mono hs hle, h.parsed, h.prekeys.mono hs hle⟩

/-- What the handle has, from `since` to `db`, does not take `wire`. -/
inductive Undecryptable (since db : Db P.Key) (handle : UInt64) (wire : Bytes) : Prop
  | malformed (e : MessagingError) (h : Messenger.splitWire wire = .error e)
  | session (peer : Peer) (old : SessionRecord P.Key)
      (named : Within since db fun rows => rows.lookup (.handle handle) = some peer)
      (stored : Within since db fun rows => rows.lookup (.session peer) = some old)
      (refuses : SessionRefuses old wire)
  | first (identity : Identity) (provisional : ProvisionalHandshake)
      (handshake : InitiatorHandshake) (record : PrekeyRecord) (own : db.Ever .identity identity)
      (recorded : Recorded since db handle provisional handshake record)
      (refuses : CandidateRefuses (Core.dhPublicKey P identity)
        (Core.responderSession P identity record handshake) wire)

theorem Undecryptable.mono {since since' db db' : Db P.Key} {handle : UInt64} {wire : Bytes}
    (h : Undecryptable since db handle wire) (hs : since'.Le since) (hle : db.Le db') :
    Undecryptable since' db' handle wire := by
  cases h with
  | malformed e h => exact .malformed e h
  | session peer old named stored refuses =>
    exact .session peer old (named.mono hs hle) (stored.mono hs hle) refuses
  | first identity provisional handshake record own recorded refuses =>
    exact .first identity provisional handshake record (own.mono hle) (recorded.mono hs hle) refuses

/-- The handshake recorded under the handle names prekeys that are not ours any more, or lost them
before its message could be committed. -/
inductive Unanswerable (since db : Db P.Key) (handle : UInt64) : Prop
  | refused (provisional : ProvisionalHandshake) (handshake : InitiatorHandshake)
      (record : PrekeyRecord) (e : CoreError)
      (recorded : Recorded since db handle provisional handshake record)
      (refused : Core.checkAnswerable P record handshake = .error e)
  | lost (provisional : ProvisionalHandshake) (handshake : InitiatorHandshake)
      (record : PrekeyRecord) (recorded : Recorded since db handle provisional handshake record)
      (answerable : Core.checkAnswerable P record handshake = .ok ())

theorem Unanswerable.mono {since since' db db' : Db P.Key} {handle : UInt64}
    (h : Unanswerable since db handle) (hs : since'.Le since) (hle : db.Le db') :
    Unanswerable since' db' handle := by
  cases h with
  | refused p hsk record e recorded refused => exact .refused p hsk record e (recorded.mono hs hle) refused
  | lost p hsk record recorded answerable => exact .lost p hsk record (recorded.mono hs hle) answerable

/-- The errors for a handshake that cannot be answered. -/
def Answerless : CoreError → Prop
  | .staleSignedPrekey | .oneTimePrekeyUnavailable _ | .oneTimePrekeyRequired => True
  | _ => False

/-- What is left to do for an accepted message was done. -/
def Settled (db : Db P.Key) (handle : UInt64) (m : IncomingMessage) : Prop :=
  match Payload.decode m.plaintext with
  | some (.text _) | some .opener => ReceiptCommitted db handle m.messageId
  | some (.receipt ids) => ∀ acked ∈ ids, OutOfOutbox db handle acked
  | none => True

theorem Settled.mono {db db' : Db P.Key} {handle : UInt64} {m : IncomingMessage}
    (h : Settled db handle m) (hle : db.Le db') : Settled db' handle m := by
  unfold Settled at h ⊢
  split at h
  · exact h.mono hle
  · exact h.mono hle
  · exact fun acked ha => (h acked ha).mono hle
  · trivial

/-- What a verdict on the envelope `bytes` rests on, from `since` to `db`. -/
inductive Justified (since db : Db P.Key) (bytes : Bytes) : Verdict → Prop
  | malformed (h : Envelope.decode bytes = none) : Justified since db bytes .malformed
  | misnamed (sender : Peer) (body : Bytes) (h : Envelope.decode bytes = some (.handshake sender body))
      (bad : body.length ≠ initiatorHandshakeLen ∨ take32 (body.drop 4) ≠ some sender) :
      Justified since db bytes .malformed
  | unpinned (env : Envelope) (h : Envelope.decode bytes = some env)
      (unknown : Within since db fun rows => rows.lookup (.contact env.sender) = none) :
      Justified since db bytes .unpinned
  | held (sender : Peer) (body : Bytes) (h : Envelope.decode bytes = some (.handshake sender body))
      (named : Within since db fun rows =>
        (rows.lookup (.handle (localSessionHandle P sender))).isSome) : Justified since db bytes .held
  | recorded (sender : Peer) (body : Bytes) (handshake : InitiatorHandshake)
      (h : Envelope.decode bytes = some (.handshake sender body))
      (parsed : unpackInitiatorHandshake body = .ok handshake)
      (stored : Within since db fun rows => rows.lookup (.provisional (localSessionHandle P sender)) =
        some (provisionalOf handshake body)) : Justified since db bytes .recorded
  | refused (sender : Peer) (body : Bytes) (i : Nat) (e : CoreError)
      (h : Envelope.decode bytes = some (.handshake sender body))
      (ended : Ended since db (Core.establishSessionResponder i (localSessionHandle P sender) body :
        Core P Unit) (.error e))
      (final : transient e = false) : Justified since db bytes .refused
  | accepted (sender : Peer) (wire : Bytes) (m : IncomingMessage)
      (h : Envelope.decode bytes = some (.message sender wire))
      (accepted : AcceptedFrom db (localSessionHandle P sender) m)
      (same : m.messageId = Messenger.messageId P.toPlatform wire)
      (settled : Settled db (localSessionHandle P sender) m) : Justified since db bytes .accepted
  | duplicate (sender : Peer) (wire : Bytes) (peer : Peer)
      (h : Envelope.decode bytes = some (.message sender wire))
      (named : Named db (localSessionHandle P sender) peer)
      (accepted : ∃ db₀ : Db P.Key, db₀.Le db ∧ Messenger.Accepted (P := P.toPlatform) db₀.rows peer
        (Messenger.messageId P.toPlatform wire))
      (receipt : ReceiptCommitted db (localSessionHandle P sender)
        (Messenger.messageId P.toPlatform wire)) : Justified since db bytes .duplicate
  | undecryptable (sender : Peer) (wire : Bytes)
      (h : Envelope.decode bytes = some (.message sender wire))
      (u : Undecryptable since db (localSessionHandle P sender) wire) :
      Justified since db bytes .undecryptable
  | unanswerable (sender : Peer) (wire : Bytes) (i : Nat) (e : CoreError)
      (h : Envelope.decode bytes = some (.message sender wire))
      (u : Unanswerable since db (localSessionHandle P sender))
      (ended : Ended since db (Core.receiveCommitted i (localSessionHandle P sender) wire :
        Core P Received) (.error e))
      (final : Answerless e) : Justified since db bytes .unanswerable

theorem Justified.mono {since since' db db' : Db P.Key} {bytes : Bytes} {v : Verdict}
    (h : Justified since db bytes v) (hs : since'.Le since) (hle : db.Le db') :
    Justified since' db' bytes v := by
  cases h with
  | malformed h => exact .malformed h
  | misnamed sender body h bad => exact .misnamed sender body h bad
  | unpinned env h unknown => exact .unpinned env h (unknown.mono hs hle)
  | held sender body h named => exact .held sender body h (named.mono hs hle)
  | recorded sender body handshake h parsed stored =>
    exact .recorded sender body handshake h parsed (stored.mono hs hle)
  | refused sender body i e h ended final => exact .refused sender body i e h (ended.mono hs hle) final
  | accepted sender wire m h accepted same settled =>
    exact .accepted sender wire m h (accepted.mono hle) same (settled.mono hle)
  | duplicate sender wire peer h named accepted receipt =>
    obtain ⟨db₀, h₀, ha⟩ := accepted
    exact .duplicate sender wire peer h (named.mono hle) ⟨db₀, h₀.trans hle, ha⟩ (receipt.mono hle)
  | undecryptable sender wire h u => exact .undecryptable sender wire h (u.mono hs hle)
  | unanswerable sender wire i e h u ended final =>
    exact .unanswerable sender wire i e h (u.mono hs hle) (ended.mono hs hle) final

/-- What the application asks the relay, in a call that began at `since`: it asks to delete only on
a verdict. -/
def Asks (since db : Db P.Key) : Request × Answer → Prop
  | (.delete _ items, _) => ∀ x ∈ items, Justified since db x.2.1 x.2.2
  | _ => True

/-! ## All transactions -/

/-- The transactions of a call on the database of a device that started with the store `start`, those
of `establish_prekeys` apart. -/
inductive Work (start : Db P.Key) (call : Call) (db : Db P.Key) (rows : Rows P.Key) : Prop
  | identity (identity : Identity) (called : call = .saveIdentity identity)
      (h : IdentityTx identity db rows)
  | contact (card : Card) (called : ∃ bytes, call = .addContact bytes ∨ ∃ name, call = .addNamedContact bytes name)
      (h : ContactTx card db rows)
  | initiate (identity : Identity) (handle : UInt64) (peerBundle : Bytes) (bundle : PrekeyBundle)
      (ephemeralSk dhs : StaticSecret) (alice : AliceSession P.Key)
      (called : (∃ i, call = .establishSessionInitiator i handle peerBundle) ∨
        ∃ peer, handle = localSessionHandle P peer ∧ bundle.identityPk = peer ∧
          Matches db peer bundle ∧ call.Starts peer)
      (h : InitiateTx identity handle peerBundle bundle ephemeralSk dhs alice db rows)
  | respond (identity : Identity) (handle : UInt64) (bytes : Bytes) (handshake : InitiatorHandshake)
      (record : PrekeyRecord) (called : call.Responds handle bytes)
      (own : call.Syncs → handle = localSessionHandle P handshake.identityPk)
      (answers : Answers identity bytes handshake record db)
      (h : RespondTx start identity handle bytes handshake record db rows)
  | first (identity : Identity) (handle : UInt64) (wire : Bytes) (provisional : ProvisionalHandshake)
      (handshake : InitiatorHandshake) (record : PrekeyRecord) (fresh : UInt64 × StaticSecret)
      (new : SessionRecord P.Key) (m : IncomingMessage) (called : call.Receives handle wire)
      (h : FirstTx identity handle wire provisional handshake record fresh new m db rows)
  | send (our : Bytes32) (ours : Ours db our) (handle : UInt64) (clientId plaintext : Bytes)
      (peer q : Peer) (old new : SessionRecord P.Key) (m : OutgoingMessage)
      (why : SendWhy call db handle clientId plaintext)
      (h : Messenger.SendTx (P := P.toPlatform) our handle clientId plaintext db peer q old new m rows)
  | receive (our : Bytes32) (ours : Ours db our) (handle : UInt64) (wire : Bytes) (peer : Peer)
      (old new : SessionRecord P.Key) (m : IncomingMessage) (called : call.Receives handle wire)
      (h : Messenger.ReceiveTx (P := P.toPlatform) our handle wire db peer old new m rows)
  | ackOut (handle : UInt64) (id : MessageId) (peer : Peer) (called : call.Syncs)
      (why : AckOutWhy db handle id)
      (h : Messenger.AckOutTx (P := P.toPlatform) handle id db peer rows)
  | ackIn (handle : UInt64) (id : MessageId) (peer : Peer) (why : AckInWhy call db handle id)
      (h : Messenger.AckInTx (P := P.toPlatform) handle id db peer rows)
  | abandon (handle : UInt64) (id : MessageId) (peer : Peer) (m : OutgoingMessage) (contact : Peer)
      (own : handle = localSessionHandle P contact) (why : GivesUp call db contact)
      (h : Messenger.AbandonTx (P := P.toPlatform) handle id db peer m rows)
  | remove (our : Bytes32) (ours : Ours db our) (handle : UInt64) (peer : Peer)
      (old : SessionRecord P.Key)
      (why : (∃ i, call = .removeSession i handle) ∨
        ∃ contact, handle = localSessionHandle P contact ∧ GivesUp call db contact)
      (h : Messenger.RemoveTx (P := P.toPlatform) our handle db peer old rows)
  | chat (h : ChatTx call db rows)

/-- Every transaction of a call. -/
inductive Step (start : Db P.Key) (call : Call) (db : Db P.Key) (rows : Rows P.Key) : Prop
  | work (h : Work start call db rows)
  | prekeys (called : call.EstablishesPrekeys) (identity : Identity) (signedPrekeySk : StaticSecret)
      (opk : UInt64 × StaticSecret) (h : PrekeysTx identity signedPrekeySk opk db rows)

/-- Which runs are considered: the calls that are made, and the store they start with. -/
structure Scope (P : AppPlatform) where
  calls : Call → Prop := fun _ => True
  start : Db P.Key := Db.empty

/-- Every transaction on the database of a device. -/
inductive Trans (scope : Scope P) (db : Db P.Key) (rows : Rows P.Key) : Prop
  | call (call : Call) (allowed : scope.calls call) (h : Step scope.start call db rows)
  /-- An older build stored a session when a handshake arrived, before the start. -/
  | legacy (before : (db.push rows).Le scope.start) (our : Bytes32) (ours : Ours db our)
      (handle : UInt64) (rec : SessionRecord P.Key) (h : LegacyTx our handle rec db rows)

end Network

end Arcium
