import Arcium.Protocol.Messenger

/-!
# What the messenger can do to the store

Each transaction of the `Messenger` that writes, as a relation between the database before and the
records after: what held when it committed, and what it wrote. `Tx our call` are the transactions of
one call; `Trans our` those of all calls, and the writes of the rest of the application, which stay
away from the messenger's records. Every invariant is proved from `Trans` alone.
-/

namespace Arcium

open Conc

namespace Messenger

variable {P : Platform} (our : Bytes32)

/-- The calls of the public interface, with the instance `i` that makes them where it matters. -/
inductive Call (K : Type) where
  | createSession (i : Nat) (new : NewSession K)
  | recordProvisionalHandshake (i : Nat) (handle : UInt64) (provisional : ProvisionalHandshake)
      (validated : ValidatedRecord K)
  | provisionalHandshake (handle : UInt64)
  | acceptFirstMessage (i : Nat) (first : FirstContact K) (wire : Bytes)
  | peerOf (handle : UInt64)
  | hasReceived (handle : UInt64)
  | isLegacyUnconfirmed (handle : UInt64)
  | initialOutbound (handle : UInt64)
  | send (i : Nat) (handle : UInt64) (clientId plaintext : Bytes)
  | receive (i : Nat) (handle : UInt64) (wire : Bytes)
  | pendingOutgoing (handle : UInt64)
  | priorSend (peer : Peer) (clientId : Bytes)
  | acknowledgeOutgoing (handle : UInt64) (id : MessageId)
  | pendingIncoming (handle : UInt64)
  | acknowledgeIncoming (handle : UInt64) (id : MessageId)
  | recover (i : Nat) (handle : UInt64)
  | abandonOutgoing (handle : UInt64) (id : MessageId)
  | removeSession (i : Nat) (handle : UInt64)

/-- Side writes that leave the messenger's own records alone. -/
def AppOnly {K : Type} (extra : List (SideWrite K)) : Prop := ∀ w ∈ extra, w.key.isMessenger = false

theorem appOnly_nil {K : Type} : AppOnly ([] : List (SideWrite K)) := by simp [AppOnly]

/-- The callers' promise: their extra records are not the messenger's. -/
def Call.Allowed {K : Type} : Call K → Prop
  | .createSession _ new => AppOnly new.extra
  | .acceptFirstMessage _ first _ => AppOnly first.extra
  | _ => True

/-- What a side write requires of the stored records. -/
def Required {K : Type} (w : SideWrite K) (rows : Rows K) : Prop :=
  match w.expect with
  | .absent => rows.lookup w.key = none
  | .exactly want => rows.lookup w.key = some want

/-- What side writes change. -/
def sideChanges {K : Type} (side : List (SideWrite K)) : List (Change K) :=
  side.filterMap fun w => w.toWrite.change

/-- The handle named `peer` at some time, and after that the record of `peer` was `old`. -/
structure Loaded (db : Db P.Key) (handle : UInt64) (peer : Peer) (old : SessionRecord P.Key) :
    Prop where
  read : ∃ db₀ db₁ : Db P.Key, db₀.Le db₁ ∧ db₁.Le db ∧
    db₀.rows.lookup (.handle handle) = some peer ∧ db₁.rows.lookup (.session peer) = some old
  bound : old.Bound our peer

variable {our} in
theorem Loaded.mono {db db' : Db P.Key} {handle : UInt64} {peer : Peer}
    {old : SessionRecord P.Key} (h : Loaded our db handle peer old) (hle : db.Le db') :
    Loaded our db' handle peer old := by
  obtain ⟨⟨db₀, db₁, h1, h2, h3, h4⟩, hb⟩ := h
  exact ⟨⟨db₀, db₁, h1, h2.trans hle, h3, h4⟩, hb⟩

variable {our} in
theorem Loaded.ever {db : Db P.Key} {handle : UInt64} {peer : Peer} {old : SessionRecord P.Key}
    (h : Loaded our db handle peer old) : db.Ever (.session peer) old := by
  obtain ⟨⟨db₀, db₁, -, h2, -, h4⟩, -⟩ := h
  exact (Db.ever_now h4).mono h2

/-- The store holds a record of `peer` that cannot be told from `old`. -/
def Unchanged (db : Db P.Key) (peer : Peer) (old : SessionRecord P.Key) : Prop :=
  ∃ found : SessionRecord P.Key, db.rows.lookup (.session peer) = some found ∧
    P.recordDigest found = P.recordDigest old

/-- `new` follows `old` by one ratchet operation. -/
structure Follows (peer : Peer) (old new : SessionRecord P.Key) : Prop where
  room : old.generation ≠ 0xFFFFFFFFFFFFFFFF
  eq : new = { old with generation := old.generation + 1, ratchet := new.ratchet }
  bound : new.Bound our peer

/-- `encrypt` on the ratchet of `old` gives `out` and the ratchet of `new`. -/
def Encrypts (old new : SessionRecord P.Key) (plaintext : Bytes) (nonce : Nonce)
    (out : Header × Bytes) : Prop :=
  DoubleRatchet.encrypt P.toCrypto plaintext old.ad nonce old.ratchet = (.ok out, new.ratchet)

/-- `decrypt` of `wire` on the ratchet of `old` gives `plaintext` and the ratchet of `new`. -/
def Decrypts (old new : SessionRecord P.Key) (wire : Bytes) (fresh : StaticSecret)
    (plaintext : Bytes) : Prop :=
  ∃ header ciphertext, splitWire wire = .ok (header, ciphertext) ∧
    DoubleRatchet.decrypt P.toCrypto header ciphertext old.ad fresh old.ratchet =
      (.ok plaintext, new.ratchet)

/-! ## The transactions -/

/-- The record `create_session` stores. -/
def newRecord (new : NewSession P.Key) : SessionRecord P.Key :=
  { role := new.role, generation := 0, our, peer := new.session.peerIdentityPk
    ad := new.session.ad, ratchet := new.session.ratchet }

/-- What `create_session` writes. -/
def createChanges (new : NewSession P.Key) : List (Change P.Key) :=
  ⟨.session new.session.peerIdentityPk, some (newRecord our new)⟩ ::
    ⟨.handle new.handle, some new.session.peerIdentityPk⟩ ::
    (new.initialOutbound.toList.map fun b => ⟨.handshake new.session.peerIdentityPk, some b⟩) ++
    sideChanges new.extra

/-- `create_session` commits. -/
structure CreateTx (new : NewSession P.Key) (db : Db P.Key) (rows : Rows P.Key) : Prop where
  bound : (newRecord our new).Bound our new.session.peerIdentityPk
  noSession : db.rows.lookup (.session new.session.peerIdentityPk) = none
  noHandle : db.rows.lookup (.handle new.handle) = none
  noHandshake : new.initialOutbound.isSome →
    db.rows.lookup (.handshake new.session.peerIdentityPk) = none
  extra : AppOnly new.extra
  eq : rows = db.rows.applyAll (createChanges our new)

/-- What `send` writes: the session of `q` advances, the message is put under `peer`. -/
def sendChanges (peer q : Peer) (new : SessionRecord P.Key) (m : OutgoingMessage) :
    List (Change P.Key) :=
  [⟨.session q, some new⟩, ⟨.outbox peer m.messageId, some m⟩,
    ⟨.sendid peer m.clientMessageId, some (.sent m.messageId)⟩]

/-- `send` commits. `peer` is what its handle named at first, `q` what it named when the session was
loaded. -/
structure SendTx (handle : UInt64) (clientId plaintext : Bytes) (db : Db P.Key) (peer q : Peer)
    (old new : SessionRecord P.Key) (m : OutgoingMessage) (rows : Rows P.Key) : Prop where
  named : ∃ db₀ : Db P.Key, db₀.Le db ∧ db₀.rows.lookup (.handle handle) = some peer
  loaded : Loaded our db handle q old
  unchanged : Unchanged db q old
  follows : Follows our q old new
  encrypts : ∃ nonce out, Encrypts old new plaintext nonce out ∧ m.wire = wireOf out
  message : m = { messageId := messageId P m.wire, clientMessageId := clientId
                  generation := new.generation, wire := m.wire }
  validId : clientId ≠ [] ∧ clientId.length ≤ maxClientMessageIdLen
  noOutbox : db.rows.lookup (.outbox peer m.messageId) = none
  noSendid : db.rows.lookup (.sendid peer clientId) = none
  eq : rows = db.rows.applyAll (sendChanges peer q new m)

/-- What `receive` writes. -/
def receiveChanges (peer : Peer) (new : SessionRecord P.Key) (m : IncomingMessage) :
    List (Change P.Key) := [⟨.session peer, some new⟩, ⟨.inbox peer m.messageId, some m⟩]

/-- `receive` commits. -/
structure ReceiveTx (handle : UInt64) (wire : Bytes) (db : Db P.Key) (peer : Peer)
    (old new : SessionRecord P.Key) (m : IncomingMessage) (rows : Rows P.Key) : Prop where
  loaded : Loaded our db handle peer old
  unchanged : Unchanged db peer old
  follows : Follows our peer old new
  decrypts : ∃ fresh, Decrypts old new wire fresh m.plaintext
  message : m = { messageId := messageId P wire, generation := new.generation
                  plaintext := m.plaintext }
  noInbox : db.rows.lookup (.inbox peer m.messageId) = none
  noSeen : db.rows.lookup (.seen peer m.messageId) = none
  eq : rows = db.rows.applyAll (receiveChanges peer new m)

/-- The unconfirmed session a first message is decrypted on. -/
def candidateRecord (first : FirstContact P.Key) : SessionRecord P.Key :=
  { role := .responder, generation := 0, our, peer := first.session.peerIdentityPk
    ad := first.session.ad, ratchet := first.session.ratchet }

/-- What `accept_first_message` writes. -/
def promoteChanges (first : FirstContact P.Key) (new : SessionRecord P.Key) (m : IncomingMessage) :
    List (Change P.Key) :=
  ⟨.session first.session.peerIdentityPk, some new⟩ ::
    ⟨.handle first.handle, some first.session.peerIdentityPk⟩ ::
    ⟨.provisional first.handle, none⟩ ::
    ⟨.inbox first.session.peerIdentityPk m.messageId, some m⟩ :: sideChanges first.extra

/-- `accept_first_message` commits. -/
structure PromoteTx (first : FirstContact P.Key) (wire : Bytes) (db : Db P.Key)
    (new : SessionRecord P.Key) (m : IncomingMessage) (rows : Rows P.Key) : Prop where
  candidate : (candidateRecord our first).Bound our first.session.peerIdentityPk
  follows : Follows our first.session.peerIdentityPk (candidateRecord our first) new
  decrypts : ∃ fresh, Decrypts (candidateRecord our first) new wire fresh m.plaintext
  message : m = { messageId := messageId P wire, generation := new.generation
                  plaintext := m.plaintext }
  noSession : db.rows.lookup (.session first.session.peerIdentityPk) = none
  noHandle : db.rows.lookup (.handle first.handle) = none
  provisional : db.rows.lookup (.provisional first.handle) = some first.provisional
  names : first.provisional.peerIdentityPk = first.session.peerIdentityPk
  noInbox : db.rows.lookup (.inbox first.session.peerIdentityPk m.messageId) = none
  noSeen : db.rows.lookup (.seen first.session.peerIdentityPk m.messageId) = none
  extra : AppOnly first.extra
  required : ∀ w ∈ first.extra, Required w db.rows
  eq : rows = db.rows.applyAll (promoteChanges first new m)

/-- `record_provisional_handshake` commits, with no session there. -/
structure ProvisionalTx (handle : UInt64) (record : ProvisionalHandshake) (db : Db P.Key)
    (rows : Rows P.Key) : Prop where
  decodes : checkProvisional record = .ok record
  noHandle : db.rows.lookup (.handle handle) = none
  noSession : db.rows.lookup (.session record.peerIdentityPk) = none
  eq : rows = db.rows.applyAll [⟨.provisional handle, some record⟩]

/-- The record is of a legacy unconfirmed responder session. -/
def LegacyUnconfirmed (rec : SessionRecord P.Key) : Prop :=
  rec.role = .responder ∧ rec.generation = 0 ∧ rec.ratchet.isInitialResponderState = true

/-- `retire_legacy` commits. -/
structure RetireTx (handle : UInt64) (record : ProvisionalHandshake)
    (validated : ValidatedRecord P.Key) (db : Db P.Key) (peer : Peer) (old : SessionRecord P.Key)
    (rows : Rows P.Key) : Prop where
  decodes : checkProvisional record = .ok record
  loaded : Loaded our db handle peer old
  unchanged : Unchanged db peer old
  legacy : LegacyUnconfirmed old
  idle : ∃ db₁ db₂ : Db P.Key, Loaded our db₁ handle peer old ∧ db₁.Le db₂ ∧ db₂.Le db ∧
    db₁.rows.idsOf (Rows.outboxId peer) = [] ∧ db₂.rows.idsOf (Rows.inboxId peer) = []
  registered : db.rows.lookup (.handle handle) = some peer
  noHandshake : db.rows.lookup (.handshake peer) = none
  noProvisional : db.rows.lookup (.provisional handle) = none
  validated : db.rows.lookup validated.key = some validated.value
  eq : rows = db.rows.applyAll [⟨.session peer, none⟩, ⟨.handle handle, none⟩,
    ⟨.provisional handle, some record⟩]

/-- `acknowledge_outgoing` commits. -/
structure AckOutTx (handle : UInt64) (id : MessageId) (db : Db P.Key) (peer : Peer)
    (rows : Rows P.Key) : Prop where
  named : ∃ db₀ : Db P.Key, db₀.Le db ∧ db₀.rows.lookup (.handle handle) = some peer
  stored : (db.rows.lookup (.outbox peer id)).isSome
  eq : rows = db.rows.applyAll [⟨.outbox peer id, none⟩]

/-- `abandon_outgoing` commits. -/
structure AbandonTx (handle : UInt64) (id : MessageId) (db : Db P.Key) (peer : Peer)
    (m : OutgoingMessage) (rows : Rows P.Key) : Prop where
  named : ∃ db₀ : Db P.Key, db₀.Le db ∧ db₀.rows.lookup (.handle handle) = some peer
  stored : db.rows.lookup (.outbox peer id) = some m
  eq : rows = db.rows.applyAll [⟨.outbox peer id, none⟩,
    ⟨.sendid peer m.clientMessageId, some (.abandoned id)⟩]

/-- `acknowledge_incoming` commits. -/
structure AckInTx (handle : UInt64) (id : MessageId) (db : Db P.Key) (peer : Peer)
    (rows : Rows P.Key) : Prop where
  named : ∃ db₀ : Db P.Key, db₀.Le db ∧ db₀.rows.lookup (.handle handle) = some peer
  stored : ∃ m : IncomingMessage, db.rows.lookup (.inbox peer id) = some m ∧ m.messageId = id
  eq : rows = db.rows.applyAll [⟨.inbox peer id, none⟩, ⟨.seen peer id, some id⟩]

/-- `remove_session` commits. -/
structure RemoveTx (handle : UInt64) (db : Db P.Key) (peer : Peer) (old : SessionRecord P.Key)
    (rows : Rows P.Key) : Prop where
  loaded : Loaded our db handle peer old
  unchanged : Unchanged db peer old
  unconfirmed : old.ratchet.hasReceivingChain = false
  idle : ∃ db₁ : Db P.Key, Loaded our db₁ handle peer old ∧ db₁.Le db ∧
    db₁.rows.idsOf (Rows.outboxId peer) = []
  eq : rows = db.rows.applyAll [⟨.session peer, none⟩, ⟨.handle handle, none⟩,
    ⟨.handshake peer, none⟩]

/-- The rest of the application writes records of its own. -/
def AppTx (db : Db P.Key) (rows : Rows P.Key) : Prop :=
  ∀ k : Key, k.isMessenger = true → rows.lookup k = db.rows.lookup k

/-- The transactions of a call. -/
def Tx : Call P.Key → Db P.Key → Rows P.Key → Prop
  | .createSession _ new => CreateTx our new
  | .recordProvisionalHandshake _ handle provisional validated => fun db rows =>
    ProvisionalTx handle provisional db rows ∨
      ∃ peer old, RetireTx our handle provisional validated db peer old rows
  | .acceptFirstMessage _ first wire => fun db rows =>
    (∃ new m, PromoteTx our first wire db new m rows) ∨
      ∃ peer old new m, ReceiveTx our first.handle wire db peer old new m rows
  | .send _ handle clientId plaintext => fun db rows =>
    ∃ peer q old new m, SendTx our handle clientId plaintext db peer q old new m rows
  | .receive _ handle wire => fun db rows =>
    ∃ peer old new m, ReceiveTx our handle wire db peer old new m rows
  | .acknowledgeOutgoing handle id => fun db rows => ∃ peer, AckOutTx handle id db peer rows
  | .acknowledgeIncoming handle id => fun db rows => ∃ peer, AckInTx handle id db peer rows
  | .abandonOutgoing handle id => fun db rows => ∃ peer m, AbandonTx handle id db peer m rows
  | .removeSession _ handle => fun db rows => ∃ peer old, RemoveTx our handle db peer old rows
  | _ => fun _ _ => False

/-- Every transaction on the database. -/
inductive Trans (db : Db P.Key) (rows : Rows P.Key) : Prop
  | create (new : NewSession P.Key) (h : CreateTx our new db rows)
  | provisional (handle : UInt64) (record : ProvisionalHandshake)
      (h : ProvisionalTx handle record db rows)
  | retire (handle : UInt64) (record : ProvisionalHandshake) (validated : ValidatedRecord P.Key)
      (peer : Peer) (old : SessionRecord P.Key) (h : RetireTx our handle record validated db peer old rows)
  | promote (first : FirstContact P.Key) (wire : Bytes) (new : SessionRecord P.Key)
      (m : IncomingMessage) (h : PromoteTx our first wire db new m rows)
  | send (handle : UInt64) (clientId plaintext : Bytes) (peer q : Peer)
      (old new : SessionRecord P.Key) (m : OutgoingMessage)
      (h : SendTx our handle clientId plaintext db peer q old new m rows)
  | receive (handle : UInt64) (wire : Bytes) (peer : Peer) (old new : SessionRecord P.Key)
      (m : IncomingMessage) (h : ReceiveTx our handle wire db peer old new m rows)
  | ackOut (handle : UInt64) (id : MessageId) (peer : Peer) (h : AckOutTx handle id db peer rows)
  | ackIn (handle : UInt64) (id : MessageId) (peer : Peer) (h : AckInTx handle id db peer rows)
  | abandon (handle : UInt64) (id : MessageId) (peer : Peer) (m : OutgoingMessage)
      (h : AbandonTx handle id db peer m rows)
  | remove (handle : UInt64) (peer : Peer) (old : SessionRecord P.Key)
      (h : RemoveTx our handle db peer old rows)
  | app (h : AppTx db rows)

theorem Tx.trans {call : Call P.Key} {db : Db P.Key} {rows : Rows P.Key}
    (h : Tx our call db rows) : Trans our db rows := by
  cases call with
  | createSession i new => exact .create _ h
  | recordProvisionalHandshake i handle provisional validated =>
    rcases h with h | ⟨peer, old, h⟩
    · exact .provisional _ _ h
    · exact .retire _ _ _ _ _ h
  | acceptFirstMessage i first wire =>
    rcases h with ⟨new, m, h⟩ | ⟨peer, old, new, m, h⟩
    · exact .promote _ _ _ _ h
    · exact .receive _ _ _ _ _ _ h
  | send i handle clientId plaintext =>
    obtain ⟨peer, q, old, new, m, h⟩ := h
    exact .send _ _ _ _ _ _ _ _ h
  | receive i handle wire =>
    obtain ⟨peer, old, new, m, h⟩ := h
    exact .receive _ _ _ _ _ _ h
  | acknowledgeOutgoing handle id =>
    obtain ⟨peer, h⟩ := h
    exact .ackOut _ _ _ h
  | acknowledgeIncoming handle id =>
    obtain ⟨peer, h⟩ := h
    exact .ackIn _ _ _ h
  | abandonOutgoing handle id =>
    obtain ⟨peer, m, h⟩ := h
    exact .abandon _ _ _ _ h
  | removeSession i handle =>
    obtain ⟨peer, old, h⟩ := h
    exact .remove _ _ _ h
  | _ => exact h.elim

end Messenger

end Arcium
