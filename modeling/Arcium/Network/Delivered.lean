import Arcium.Network.ChatInv
import Arcium.Protocol.Decisions
import Arcium.Protocol.SendStatus

/-!
# Delivered entries were acknowledged

A message leaves the outbox when the peer's receipt names it, when it is a receipt itself and the
relay took it, or when it is given up (`Work.takesOut`). The send record of a text tells the last
from the others, and its client id the second from the first. So a text reads acknowledged only if a
receipt of its peer names it (`acknowledged_receipt`), and `advance` moves an entry to `delivered` only
on such a reading.

* `HandlesApart`: each session is under the handle of its peer, and no two peers share one.
* `delivered_sound`: both, in every reachable configuration.
-/

namespace Arcium

open Conc

namespace Network

variable {P : AppPlatform} {scope : Scope P} {call : Call} {start db db' : Db P.Key}
  {rows : Rows P.Key} {peer : Peer}

/-! ## Handles -/

/-- `peer` was pinned, or a session was stored with it. -/
def Known (db : Db P.Key) (peer : Peer) : Prop :=
  (∃ card : Card, db.Ever (.contact peer) card) ∨ ∃ handle, Named db handle peer

theorem Known.mono (h : Known db peer) (hle : db.Le db') : Known db' peer := by
  rcases h with ⟨card, h⟩ | ⟨handle, h⟩
  · exact .inl ⟨card, h.mono hle⟩
  · exact .inr ⟨handle, h.mono hle⟩

/-- Sessions are stored under `local_session_handle` of their peers, which tells these apart. -/
structure HandlesApart (db : Db P.Key) : Prop where
  own : ∀ handle peer, Named db handle peer → handle = localSessionHandle P peer
  injective : ∀ p q, Known db p → Known db q → localSessionHandle P p = localSessionHandle P q → p = q

/-- A handle names one peer. -/
theorem HandlesApart.unique (h : HandlesApart db) {handle : UInt64} {p q : Peer}
    (hp : Named db handle p) (hq : Named db handle q) : p = q :=
  h.injective p q (.inr ⟨handle, hp⟩) (.inr ⟨handle, hq⟩)
    ((h.own handle p hp).symm.trans (h.own handle q hq))

/-- The handle of a known peer names that peer. -/
theorem HandlesApart.names (h : HandlesApart db) {q : Peer} (hk : Known db peer)
    (hq : Named db (localSessionHandle P peer) q) : q = peer :=
  h.injective q peer (.inr ⟨_, hq⟩) hk (h.own _ q hq).symm

/-- The peers that are known. -/
def knownView {K : Type} : (k : Key) → Row K k → Option Peer
  | .contact p, _ => some p
  | .handle _, p => some p
  | _, _ => none

/-- The handles with their peers. -/
def handleView {K : Type} : (k : Key) → Row K k → Option (UInt64 × Peer)
  | .handle handle, p => some (handle, p)
  | _, _ => none

theorem named_iff {handle : UInt64} : Named db handle peer ↔ db.Ever (.handle handle) peer := by
  constructor
  · rintro ⟨db₀, hle, hl⟩
    exact (Db.ever_now hl).mono hle
  · exact Db.Ever.at

theorem mem_known : peer ∈ db.select knownView ↔ Known db peer := by
  simp only [Db.mem_select, Known, named_iff]
  constructor
  · rintro ⟨k, v, hl, hv⟩
    cases k <;> cases hv
    · exact .inr ⟨_, hl⟩
    · exact .inl ⟨_, hl⟩
  · rintro (⟨card, h⟩ | ⟨handle, h⟩)
    · exact ⟨_, _, h, rfl⟩
    · exact ⟨_, _, h, rfl⟩

theorem mem_handles {handle : UInt64} :
    (handle, peer) ∈ db.select handleView ↔ Named db handle peer := by
  rw [Db.mem_select, named_iff]
  constructor
  · rintro ⟨k, v, hl, hv⟩
    cases k <;> cases hv
    exact hl
  · exact fun h => ⟨_, _, h, rfl⟩

theorem handlesApart_iff : HandlesApart db ↔
    (∀ x ∈ db.select handleView, x.1 = localSessionHandle P x.2) ∧
    ∀ p ∈ db.select knownView, ∀ q ∈ db.select knownView,
      localSessionHandle P p = localSessionHandle P q → p = q := by
  simp only [mem_known, Prod.forall, mem_handles]
  exact ⟨fun h => ⟨h.own, fun p hp q hq => h.injective p q hp hq⟩,
    fun h => ⟨h.1, fun p q hp hq => h.2 p hp q hq⟩⟩

instance : Decidable (HandlesApart db) := decidable_of_iff' _ handlesApart_iff

/-! ## Leaving the outbox -/

/-- What takes a message out of the outbox. -/
theorem Work.takesOut {id : MessageId} (h : Work start call db rows)
    (ho : Messenger.TakesOut (P := P.toPlatform) db rows peer id) :
    (∃ handle, AckOutWhy db handle id ∧ Messenger.AckOutTx (P := P.toPlatform) handle id db peer rows) ∨
      ∃ handle m contact, handle = localSessionHandle P contact ∧ GivesUp call db contact ∧
        Messenger.AbandonTx (P := P.toPlatform) handle id db peer m rows := by
  obtain ⟨hs, hn⟩ := ho
  have kept : rows.lookup (.outbox peer id) = db.rows.lookup (.outbox peer id) → False := by
    intro hk
    rw [← hk, hn] at hs
    cases hs
  have other : ∀ {cs : List (Change P.Key)}, rows = db.rows.applyAll cs →
      (∀ c ∈ cs, Key.outbox peer id ≠ c.key) → False := fun heq hcs =>
    kept (heq ▸ Rows.lookup_applyAll_ne _ hcs)
  cases h with
  | identity identity called h => exact (other h.eq (by simp)).elim
  | contact card called h => exact (other h.eq (by simp)).elim
  | initiate identity handle peerBundle bundle ephemeralSk dhs alice called h =>
    refine (other h.create.eq ?_).elim
    simp [Messenger.createChanges, Core.initiatorSession, Messenger.sideChanges]
  | respond identity handle bytes handshake record called own answers h =>
    cases h with
    | recorded h => exact (other h.eq (by simp)).elim
    | retired peer old named h => exact (other h.eq (by simp)).elim
  | first identity handle wire provisional handshake record fresh new m called h =>
    refine (other h.promote.eq fun c hc => ?_).elim
    rcases FirstTx.mem_changes hc with rfl | rfl | rfl | rfl | rfl <;> simp
  | send our ours handle clientId plaintext p q old new m why h =>
    -- The message that a send stores is there after it.
    by_cases hk : Key.outbox peer id = .outbox p m.messageId
    · cases hk
      have hm : rows.lookup (.outbox peer m.messageId) = some m := by
        rw [h.eq, Messenger.sendChanges, Rows.applyAll_cons]
        exact Rows.lookup_applyAll_head (k := .outbox peer m.messageId) _ (some m) (by simp)
      rw [hn] at hm
      cases hm
    · exact (other h.eq (by simpa [Messenger.sendChanges] using hk)).elim
  | receive our ours handle wire p old new m called h =>
    exact (other h.eq (by simp [Messenger.receiveChanges])).elim
  | ackOut handle i p called why h =>
    by_cases hk : Key.outbox peer id = .outbox p i
    · cases hk
      exact .inl ⟨handle, why, h⟩
    · exact (other h.eq (by simpa using hk)).elim
  | ackIn handle i p why h => exact (other h.eq (by simp)).elim
  | abandon handle i p m contact own why h =>
    by_cases hk : Key.outbox peer id = .outbox p i
    · cases hk
      exact .inr ⟨handle, m, contact, own, why, h⟩
    · exact (other h.eq (by simpa using hk)).elim
  | remove our ours handle p old why h => exact (other h.eq (by simp)).elim
  | chat h => exact (kept (h.app _ rfl)).elim

theorem Trans.takesOut {id : MessageId} (h : Trans scope db rows)
    (ho : Messenger.TakesOut (P := P.toPlatform) db rows peer id) :
    (∃ handle, AckOutWhy db handle id ∧ Messenger.AckOutTx (P := P.toPlatform) handle id db peer rows) ∨
      ∃ call handle m contact, handle = localSessionHandle P contact ∧ GivesUp call db contact ∧
        Messenger.AbandonTx (P := P.toPlatform) handle id db peer m rows := by
  obtain ⟨hs, hn⟩ := ho
  have kept : rows.lookup (.outbox peer id) = db.rows.lookup (.outbox peer id) → False := by
    intro hk
    rw [← hk, hn] at hs
    cases hs
  cases h with
  | legacy _ our _ handle rec h =>
    refine (kept ?_).elim
    rw [h.eq, Rows.lookup_applyAll_ne _ (by simp)]
  | call call _ h =>
    cases h with
    | work h => exact (h.takesOut ⟨hs, hn⟩).imp_right fun h => ⟨call, h⟩
    | prekeys called identity sk opk h =>
      refine (kept ?_).elim
      rw [h.eq, Rows.lookup_applyAll_ne _ (by simp)]

/-! ## Receipts -/

/-- A receipt that names the message `id` was accepted on the session with `peer`. -/
def ReceiptFrom (our : Bytes32) (db : Db P.Key) (peer : Peer) (id : Bytes) : Prop :=
  ∃ m ids, Messenger.AcceptedIn (P := P.toPlatform) our db peer m ∧
    Payload.decode m.plaintext = some (.receipt ids) ∧ ∃ acked ∈ ids, acked.val = id

variable {our : Bytes32}

theorem ReceiptFrom.mono {id : Bytes} (h : ReceiptFrom our db peer id) (hle : db.Le db') :
    ReceiptFrom our db' peer id := by
  obtain ⟨m, ids, ⟨db₀, rows₀, h₀, ha⟩, h⟩ := h
  exact ⟨m, ids, ⟨db₀, rows₀, h₀.trans hle, ha⟩, h⟩

/-- What the theorems below are about: a history of the device with identity key `our`. -/
structure Told (scope : Scope P) (our : Bytes32) (db : Db P.Key) : Prop where
  valid : db.Valid (Trans scope)
  ours : ∀ o, Ours db o → o = our
  digests : Messenger.CollisionFree (P := P.toPlatform) db
  keys : Messenger.FreshKeys (P := P.toPlatform) db
  handles : HandlesApart db

theorem HandlesApart.mono (h : HandlesApart db') (hle : db.Le db') : HandlesApart db where
  own handle peer hn := h.own handle peer (hn.mono hle)
  injective p q hp hq := h.injective p q (hp.mono hle) (hq.mono hle)

theorem Told.mono (h : Told scope our db') (hle : db.Le db') : Told scope our db where
  valid := h.valid.le hle
  ours o ho := h.ours o (ho.mono hle)
  digests := h.digests.mono hle
  keys := h.keys.mono hle
  handles := h.handles.mono hle

theorem Told.messenger (h : Told scope our db) :
    db.Valid (Messenger.Trans (P := P.toPlatform) our) := valid_messenger h.valid h.ours

/-- A text that a receipt took out of the outbox: the receipt is from its peer, and names it. -/
theorem Told.acknowledged (h : Told scope our (db.push rows)) {handle : UInt64} {appId : Bytes}
    {m : OutgoingMessage} (stored : db.rows.lookup (.outbox peer m.messageId) = some m)
    (client : m.clientMessageId = ClientId.text appId)
    (ha : Messenger.AckOutTx (P := P.toPlatform) handle m.messageId db peer rows) :
    ReceiptFrom our db peer m.messageId.val := by
  have hle := Db.le_push db rows
  obtain ⟨-, ht⟩ := h.valid.of_push
  have h := h.mono hle
  have hout : Messenger.TakesOut (P := P.toPlatform) db rows peer m.messageId := by
    refine ⟨by rw [stored]; rfl, ?_⟩
    rw [ha.eq]
    exact Rows.lookup_applyAll_head _ none (by simp)
  rcases ht.takesOut hout with ⟨handle', why, ha'⟩ | ⟨call, handle', m', contact, -, -, hab⟩
  · cases why with
    | relayed q key m' named sent same receipt =>
      -- A message has one client id, and that of a text is not that of a receipt.
      have hok := Messenger.messagesOk h.messenger
      obtain rfl : m'.messageId = key := (hok.outbox_id q key m' sent).1
      rw [same] at sent
      obtain ⟨-, rfl⟩ := Messenger.outbox_unique h.messenger h.digests h.keys (Db.ever_now stored) sent
      exact absurd client.symm (ClientId.text_ne_receipt receipt)
    | confirmed r ids accepted payload mem =>
      obtain ⟨q, key, hn, he⟩ := accepted
      obtain rfl := h.handles.unique hn ha'.named
      exact ⟨r, ids, Messenger.acceptedIn_of_ever h.messenger he, payload, m.messageId, mem, rfl⟩
  · -- What is given up reads abandoned.
    have hs := ha.status (Messenger.messagesOk h.messenger) stored
    obtain rfl := Option.some.inj (hab.stored.symm.trans stored)
    rw [Messenger.statusAt_abandoned (hab.messages.snd rfl)] at hs
    cases hs

/-- **A text that reads acknowledged** was named by a receipt of its peer. -/
theorem Told.acknowledged_receipt (h : Told scope our db) {appId : Bytes}
    (hs : Messenger.statusAt (P := P.toPlatform) db.rows peer (ClientId.text appId) = .acknowledged) :
    ∃ id, db.rows.lookup (.sendid peer (ClientId.text appId)) = some (.sent id) ∧
      ReceiptFrom our db peer id.val := by
  obtain ⟨db₀, rows₀, handle, m, hle, stored, client, ha⟩ :=
    (Messenger.acknowledged_iff h.messenger h.digests h.keys peer _).mp hs
  have hle₀ := (Db.le_push db₀ rows₀).trans hle
  refine ⟨m.messageId, ?_, ((h.mono hle).acknowledged stored client ha).mono hle₀⟩
  obtain ⟨r, hr, hid⟩ := (Messenger.messagesOk h.messenger).ever_sendid peer _ m
    ((Db.ever_now stored).mono hle₀)
  rw [client] at hr
  cases r with
  | sent id => rw [hr, ← hid]; rfl
  | abandoned id =>
    rw [Messenger.statusAt_abandoned hr] at hs
    cases hs

/-! ## Entries -/

/-- `advance` stores the id that it is given if the entry has none. -/
theorem advanced_id {e e' : Entry} {state : ChatEntryState} {id : MessageId}
    (h : Chat.advanced e state (some id) = some e') (hn : e.messageId = []) : e'.messageId = id.val := by
  unfold Chat.advanced at h
  rw [hn] at h
  simp only [List.isEmpty_nil, if_pos, Option.isNone_some, Bool.and_false, Bool.false_eq_true,
    if_false, Option.some.injEq] at h
  rw [← h]

/-- What `advance` leaves as delivered was so, or is told to be. -/
theorem advanced_delivered {e e' : Entry} {state : ChatEntryState} {id : Option MessageId}
    (h : Chat.advanced e state id = some e') (hd : e'.state = .delivered) :
    e.state = .delivered ∨ state = .delivered := by
  rw [(Conversation.advanced_eq h).1] at hd
  dsimp only at hd
  split at hd
  · exact .inr hd
  · exact .inl hd

/-- An entry becomes delivered when its text reads acknowledged. -/
theorem AdvanceWhy.delivered (hv : db.Valid (Trans scope))
    (hp : ∀ q, Named db (localSessionHandle P peer) q → q = peer) {seq : Nat}
    {state : ChatEntryState} {messageId : Option MessageId} {e : Entry}
    (stored : (conversation db.rows peer).log.entries seq = some e) (hs : state = .delivered)
    (h : AdvanceWhy call db peer seq state messageId) :
    ∃ db₀ : Db P.Key, db₀.Le db ∧ ∃ id, Messenger.PriorAt (P := P.toPlatform) db₀.rows peer
      (ClientId.text e.appId) (.alreadyAcknowledged id) ∧
        (messageId = some id ∧ e.outgoing = true ∨ e.messageId = id.val) := by
  -- The copy that the caller decided on is an older state of this entry.
  have older : ∀ {key : Nat} {e₀ : Entry}, db.Ever (.chatEntry peer key) e₀ → e₀.seq = seq →
      Conversation.Leads e₀ e := by
    intro key e₀ he same
    obtain ⟨db₀, hle, h₀⟩ := he.at
    obtain rfl : key = seq := ((conversation_ok (hv.le hle) peer).own key e₀ h₀).symm.trans same
    obtain ⟨e₁, h₁, hl⟩ := entries_lead hv hle h₀
    obtain rfl := Option.some.inj (h₁.symm.trans stored)
    exact hl
  cases h with
  | sent called key e₀ s stored₀ same outgoing outcome =>
    obtain ⟨q, o, hn, rfl, ho⟩ := outcome
    obtain rfl := hp q hn
    have hl := older stored₀ same
    rw [hl.appId]
    rcases ho with ⟨m, rfl, -⟩ | ⟨db₀, hle, ho⟩
    · cases hs
    · cases ho with
      | pending id m sent outbox wire => cases hs
      | abandoned id abandoned => cases hs
      | acknowledged id sent outbox =>
        exact ⟨db₀, hle, id, .acknowledged id sent outbox, .inl ⟨rfl, hl.outgoing.trans outgoing⟩⟩
  | settled called key e₀ o state stored₀ same outcome hstate =>
    obtain ⟨db₀, hle, ho⟩ := outcome
    have hl := older stored₀ same
    subst hs
    cases o with
    | alreadyAcknowledged id =>
      have hid : id.val = e₀.messageId := by
        by_contra hne
        simp [Chat.settledState, hne] at hstate
      have hne : e₀.messageId ≠ [] := hid ▸ messageId_ne_nil id
      exact ⟨db₀, hle, id, hl.appId ▸ ho, .inr ((hl.messageId hne).trans hid.symm)⟩
    | abandoned id =>
      simp only [Chat.settledState] at hstate
      split at hstate <;> cases hstate
    | _ => cases hstate
  | transmitted => cases hs
  | givenUp => cases hs

/-- **An entry that is delivered** was named by a receipt of its peer. -/
theorem Told.delivered (h : Told scope our db)
    (hp : ∀ q, Named db (localSessionHandle P peer) q → q = peer) {seq : Nat} {e : Entry}
    (he : (conversation db.rows peer).log.entries seq = some e) (hd : e.state = .delivered) :
    ReceiptFrom our db peer e.messageId := by
  have hv := h.valid
  induction hv generalizing e with
  | empty => cases he
  | @push db rows hv ht ih =>
    have hle := Db.le_push db rows
    have h' := h.mono hle
    have hp' : ∀ q, Named db (localSessionHandle P peer) q → q = peer := fun q hq => hp q (hq.mono hle)
    have before : ∀ {e : Entry}, (conversation db.rows peer).log.entries seq = some e →
        e.state = .delivered → ReceiptFrom our db peer e.messageId := fun he hd => ih h' hp' he hd
    rw [Db.push_rows] at he
    rcases ht.conversation peer with heq | ⟨call, -, hc⟩
    · exact (before (heq ▸ he) hd).mono hle
    generalize hconv : conversation rows peer = c at he hc
    cases hc with
    | advanced n state messageId e₀ e' stored hadv why =>
      rcases NumberedLog.set_entries_cases he with ⟨rfl, rfl⟩ | ⟨-, he⟩
      · rcases advanced_delivered hadv hd with hd₀ | hs
        · -- A delivered entry has its message id.
          have hr := before stored hd₀
          obtain ⟨m, ids, -, -, acked, -, hid⟩ := id hr
          have hne : e₀.messageId ≠ [] := hid ▸ messageId_ne_nil acked
          rw [(Conversation.leads_of_advanced hadv).messageId hne]
          exact hr.mono hle
        · obtain ⟨db₀, hle₀, id, hprior, hid⟩ := why.delivered hv hp' stored hs
          have hstatus := hprior.status
          obtain ⟨id', hsent, hr⟩ := (h'.mono hle₀).acknowledged_receipt hstatus
          cases hprior with
          | acknowledged id sent outbox =>
            obtain rfl := SendRecord.sent.inj (Option.some.inj (hsent.symm.trans sent))
            suffices e.messageId = id'.val from this ▸ (hr.mono (hle₀.trans hle))
            have kept := (Conversation.leads_of_advanced hadv).messageId
            rcases hid with ⟨rfl, hout⟩ | hid
            · by_cases hn : e₀.messageId = []
              · exact advanced_id hadv hn
              · obtain ⟨q, r, hq, hr', hrid⟩ := linked hv stored hout hn
                obtain rfl := hp' q hq
                obtain ⟨r', hr₁, hid'⟩ := sendid_kept hv hle₀ sent
                obtain rfl := Option.some.inj (hr'.symm.trans hr₁)
                rw [kept hn, ← hrid, hid']
                rfl
            · exact (kept (hid ▸ messageId_ne_nil id')).trans hid
      · exact (before he hd).mono hle
    | received called m text now accepted payload noIndex =>
      rcases NumberedLog.append_entries_cases he with ⟨-, rfl⟩ | ⟨-, he⟩
      · cases hd
      · exact (before he hd).mono hle
    | claimed i appId text called noEntry => exact (before he hd).mono hle
    | queued i appId text now called noEntry noClaim =>
      rcases NumberedLog.append_entries_cases he with ⟨-, rfl⟩ | ⟨-, he⟩
      · cases hd
      · exact (before he hd).mono hle

/-- What is known of the texts to `peer` that count as delivered. -/
structure DeliveredSound (our : Bytes32) (db : Db P.Key) (peer : Peer) : Prop where
  entries : ∀ seq e, (conversation db.rows peer).log.entries seq = some e → e.state = .delivered →
    ReceiptFrom our db peer e.messageId
  sends : ∀ appId, Messenger.statusAt (P := P.toPlatform) db.rows peer (ClientId.text appId) =
    .acknowledged → ∃ id, db.rows.lookup (.sendid peer (ClientId.text appId)) = some (.sent id) ∧
      ReceiptFrom our db peer id.val

/-- **Delivered is sound**: what counts as delivered was named by a receipt that the peer's session
authenticated. -/
theorem delivered_sound {c : DeviceConfig P} (h : Reachable scope c)
    (hcf : Messenger.CollisionFree (P := P.toPlatform) c.shared.db)
    (hf : Messenger.FreshKeys (P := P.toPlatform) c.shared.db) (hh : HandlesApart c.shared.db) :
    ∃ our, (∀ o, Ours c.shared.db o → o = our) ∧
      ∀ peer, Known c.shared.db peer → DeliveredSound our c.shared.db peer := by
  obtain ⟨our, hour, -⟩ := exists_our h.valid
  have ht : Told scope our c.shared.db := ⟨h.valid, hour, hcf, hf, hh⟩
  exact ⟨our, hour, fun peer hk =>
    ⟨fun _ _ he hd => ht.delivered (fun _ hq => hh.names hk hq) he hd,
      fun _ hs => ht.acknowledged_receipt hs⟩⟩

/-! ## A text that a receipt names -/

namespace TextRun

def own : Identity := ⟨fill 1, fill 2⟩

def other : Identity := ⟨fill 3, fill 4⟩

def card : Bytes := 0x01 :: ((fill 3).val ++ (fill 4).val)

/-- The prekeys of the peer. -/
def record : PrekeyRecord := prekeyRecord symbolicApp other (fill 101) (2, fill 103)

def bundle : Bytes := packPrekeyBundle (Core.bundleOf symbolicApp other record)

def anything : Scope symbolicApp where
  calls _ := True

/-- What is drawn, with the answers of the relay. -/
def draws (relay : Answer) : List Choice :=
  (List.range 150).map fun n => { secret := fill (UInt8.ofNat (60 + n)), id := UInt64.ofNat n, relay }

/-- A session is started, and a text is sent on it. -/
def sent : Option (DeviceConfig symbolicApp) :=
  (system symbolicApp anything.calls).runCalls (draws {}) (Config.init ⟨anything.start, fun _ => {}, []⟩)
    [.saveIdentity own, .addContact card,
      .establishSessionInitiator 0 (localSessionHandle symbolicApp (fill 3)) bundle,
      .chatSend 0 (fill 3) [7] [8]]

/-- What the peer answers: it reads the text, and names it in a receipt. -/
def reply (c : DeviceConfig symbolicApp) : Option Bytes := do
  let bytes : Option Bytes := c.shared.db.rows.lookup (Key.handshake (fill 3))
  let handshake ← (unpackInitiatorHandshake (← bytes)).toOption
  let m ← (Db.selectAt c.shared.db.rows Db.outboxView).head?
  let (header, ciphertext) ← (Messenger.splitWire m.wire).toOption
  let session := Core.responderSession symbolicApp other record handshake
  let read := session.ratchet.decrypt symbolicApp.toCrypto header ciphertext session.ad (fill 50)
  let out ← (DoubleRatchet.encrypt symbolicApp.toCrypto (Payload.receipt [m.messageId]).encode
    session.ad zeroNonce read.2).1.toOption
  return (Envelope.message (fill 3) (Messenger.wireOf out)).encode

/-- The answer arrives. -/
def run : Option (DeviceConfig symbolicApp) :=
  sent.bind fun c => (reply c).bind fun envelope =>
    (system symbolicApp anything.calls).runCalls (draws { items := [(1, envelope)] }) c
      [.sync 0, .chatEntries 0 (fill 3)]

theorem reachable_sent {c : DeviceConfig symbolicApp} (h : sent = some c) : Reachable anything c :=
  ⟨.empty, System.Reach.runCalls .refl (fun _ => rfl) (fun _ _ => trivial) h⟩

theorem reachable {c : DeviceConfig symbolicApp} (h : run = some c) : Reachable anything c := by
  unfold run at h
  obtain ⟨c₁, h₁, h⟩ := Option.bind_eq_some_iff.mp h
  obtain ⟨envelope, -, h⟩ := Option.bind_eq_some_iff.mp h
  have hr := reachable_sent h₁
  have hidle := System.runCalls_threads _ h₁
  exact ⟨.empty, System.Reach.runCalls hr.run (fun i => congrFun hidle i) (fun _ _ => trivial) h⟩

/-- What is assumed holds of this run, and its text is delivered. -/
theorem run_facts : run.map (fun c => decide (
    Messenger.CollisionFree (P := symbolicApp.toPlatform) c.shared.db ∧
    Messenger.FreshIn (P := symbolicApp.toPlatform) c.shared.db.all ∧ HandlesApart c.shared.db ∧
    ((conversation c.shared.db.rows (fill 3)).log.entries 1).map Entry.state = some .delivered)) =
      some true := by decide +kernel

end TextRun

theorem delivered_sound_text : ∃ c : DeviceConfig symbolicApp, Reachable TextRun.anything c ∧
    (∃ e, (conversation c.shared.db.rows (fill 3)).log.entries 1 = some e ∧ e.state = .delivered) ∧
    ∃ our, (∀ o, Ours c.shared.db o → o = our) ∧
      ∀ peer, Known c.shared.db peer → DeliveredSound our c.shared.db peer := by
  obtain ⟨c, hc, hfacts⟩ := Option.map_eq_some_iff.mp TextRun.run_facts
  obtain ⟨hcf, hf, hh, he⟩ := of_decide_eq_true hfacts
  have hr := TextRun.reachable hc
  exact ⟨c, hr, Option.map_eq_some_iff.mp he,
    delivered_sound hr hcf (Messenger.freshKeys_of hf) hh⟩

end Network

end Arcium
