import Arcium.Base.Codec
import Arcium.Crypto.Delivery
import Arcium.Protocol.NoFork

/-!
# The two ends of a conversation

Two devices whose sessions with each other come from one key agreement. The transactions of both, in
any order, are a run of the two ratchets of `Net` and of an active network between them.

* `Agreement`: what the devices agreed on, and whom each of them talks to.
* `EndStep`: what a transaction of one device is for the two ratchets, and what is assumed of it: a
  session begins once, from the agreement; a secret is fresh; the AEAD opens what was sealed.
* `Joined`: the histories of both devices, with the ratchets.
* `Joined.follows`: the stored sessions are these ratchets, what the network delivered is in the
  inboxes, and what was sealed was sent.
-/

namespace Arcium

open Function (update)

/-- What two devices agreed on, and whom each of them talks to. -/
structure Agreement (P : Platform) where
  peer : Party → Peer
  rootKey : P.Key
  /-- Alice's first DH secret. -/
  aliceSk : StaticSecret
  /-- Bob's signed prekey. -/
  bobSk : StaticSecret
  ad : Bytes
  apart : P.publicKey aliceSk ≠ P.publicKey bobSk

namespace Net

variable {C : Crypto}

/-- What is assumed when `p` decrypts: its secret is fresh, and the AEAD opens only what was
sealed. -/
structure Fair (net : Net C) (p : Party) (header : Header) (ct ad : Bytes) (fresh : StaticSecret) :
    Prop where
  drawn : net.Fresh fresh
  unforged : ∀ key, (net.ratchet p).messageKey C header fresh = some key →
    net.Unforged key ct (concatAd ad header.toBytes)

theorem encrypt_of_ok {net : Net C} {p : Party} {pt ad : Bytes} {nonce : Nonce}
    {out : Header × Bytes} {r' : DoubleRatchet C.Key}
    (h : (net.ratchet p).encrypt C pt ad nonce = (.ok out, r')) :
    ∃ chain, net.encrypt p pt ad nonce =
      { net with
        ratchet := update net.ratchet p r'
        sent := update net.sent p ({ key := (kdfCk C chain).2, header := out.1, ad, plaintext := pt,
                                     ciphertext := out.2, chain } :: net.sent p) } := by
  obtain ⟨chain, hc, -, -, -⟩ := DoubleRatchet.encrypt_ok h
  refine ⟨chain, ?_⟩
  unfold encrypt
  rw [hc, h]

/-- What was sealed for an honest message opens as that message. -/
theorem unforged_of_sent {net : Net C} {sk : C.Key} {a b : StaticSecret} {guard : UInt32 → Prop}
    (hA : AeadCorrect C) (hr : Reach sk a b guard net) {q : Party} {e : Encryption C.Key}
    (he : e ∈ net.sent q) :
    net.Unforged e.key e.ciphertext (concatAd e.ad e.header.toBytes) := by
  intro pt hpt
  obtain ⟨nonce, hseal⟩ := hr.sealed q e he
  obtain rfl := Except.ok.inj ((hA.decrypt hseal).symm.trans hpt)
  exact ⟨q, e, he, rfl, rfl, rfl, rfl⟩

end Net

theorem Header.toBytes_of_fromBytes {b : Bytes} {header : Header}
    (h : Header.fromBytes b = .ok header) : header.toBytes = b.take headerSize := by
  unfold Header.fromBytes at h
  split at h
  · next dh p0 p1 p2 p3 n0 n1 n2 n3 rest hdh hdrop =>
    cases h
    have hb := take32_some hdh
    rw [hdrop] at hb
    rw [hb, headerSize, List.take_append, List.take_of_length_le (by simp [dh.property])]
    simp [Header.toBytes, Codec.be32_ofBe32, dh.property]
  · cases h

namespace Messenger

variable {P : Platform}

theorem wireOf_of_splitWire {wire : Bytes} {out : Header × Bytes} (h : splitWire wire = .ok out) :
    wireOf out = wire := by
  unfold splitWire at h
  split at h
  · cases h
  · next hlen =>
    split at h
    · next header hh =>
      cases h
      have ht := Header.toBytes_of_fromBytes hh
      rw [List.take_take, Nat.min_self] at ht
      rw [wireOf, ht]
      exact List.take_append_drop headerSize wire
    · cases h

end Messenger

/-- The id of a message. -/
def Message.id {P : Platform} (m : Message P.Key) : MessageId :=
  Messenger.messageId P (Messenger.wireOf (m.header, m.ciphertext))

namespace Agreement

variable {P : Platform} (A : Agreement P)

/-- The identity of the device of `p`. -/
def our (p : Party) : Bytes32 := A.peer p.other

/-- The ratchets before anything is sent. -/
def start : Net P.toCrypto := Net.start P.toCrypto A.rootKey A.aliceSk A.bobSk

/-- `rec` is the end of `p`, as the ratchets of `net` are. -/
structure Holds (net : Net P.toCrypto) (p : Party) (rec : SessionRecord P.Key) : Prop where
  ratchet : rec.ratchet = net.ratchet p
  ad : rec.ad = A.ad

end Agreement

namespace Messenger

variable {P : Platform} (A : Agreement P)

/-- What a transaction of the device of `p` is for the two ratchets (module doc). -/
inductive EndStep (p : Party) (net : Net P.toCrypto) (db : Db P.Key) (rows : Rows P.Key) :
    Net P.toCrypto → Prop
  | elsewhere (same : rows.lookup (.session (A.peer p)) = db.rows.lookup (.session (A.peer p))) :
      EndStep p net db rows net
  /-- The session is stored before its first message. -/
  | begun (new : SessionRecord P.Key) (once : ∀ rec, ¬ db.Ever (.session (A.peer p)) rec)
      (after : rows.lookup (.session (A.peer p)) = some new) (generation : new.generation = 0)
      (begins : A.Holds A.start p new) : EndStep p net db rows net
  /-- The session is stored with its first message. -/
  | answered (first : FirstContact P.Key) (wire : Bytes) (new : SessionRecord P.Key)
      (m : IncomingMessage) (h : PromoteTx (A.our p) first wire db new m rows)
      (peer : first.session.peerIdentityPk = A.peer p)
      (once : ∀ rec, ¬ db.Ever (.session (A.peer p)) rec)
      (begins : A.Holds A.start p (candidateRecord (A.our p) first)) (header : Header)
      (ct : Bytes) (fresh : StaticSecret) (split : splitWire wire = .ok (header, ct))
      (opens : (candidateRecord (A.our p) first).ratchet.decrypt P.toCrypto header ct A.ad fresh =
        (.ok m.plaintext, new.ratchet))
      (fair : net.Fair p header ct A.ad fresh) :
      EndStep p net db rows (net.decrypt p header ct A.ad fresh)
  | sent (handle : UInt64) (clientId plaintext : Bytes) (dest : Peer) (old new : SessionRecord P.Key)
      (m : OutgoingMessage)
      (h : SendTx (A.our p) handle clientId plaintext db dest (A.peer p) old new m rows)
      (nonce : Nonce) (out : Header × Bytes) (seals : Encrypts old new plaintext nonce out)
      (wire : m.wire = wireOf out) : EndStep p net db rows (net.encrypt p plaintext A.ad nonce)
  | received (handle : UInt64) (wire : Bytes) (old new : SessionRecord P.Key) (m : IncomingMessage)
      (h : ReceiveTx (A.our p) handle wire db (A.peer p) old new m rows) (header : Header)
      (ct : Bytes) (fresh : StaticSecret) (split : splitWire wire = .ok (header, ct))
      (opens : old.ratchet.decrypt P.toCrypto header ct A.ad fresh = (.ok m.plaintext, new.ratchet))
      (fair : net.Fair p header ct A.ad fresh) :
      EndStep p net db rows (net.decrypt p header ct A.ad fresh)
  | ended (after : rows.lookup (.session (A.peer p)) = none) : EndStep p net db rows net

/-- The histories of both devices, with the two ratchets. -/
inductive Joined : (Party → Db P.Key) → Net P.toCrypto → Prop
  | start : Joined (fun _ => .empty) A.start
  | step {dbs : Party → Db P.Key} {net net' : Net P.toCrypto} (p : Party) (rows : Rows P.Key) :
      Joined dbs net → Trans (A.our p) (dbs p) rows → EndStep A p net (dbs p) rows net' →
      Joined (update dbs p ((dbs p).push rows)) net'

/-! ## One step -/

variable {A : Agreement P} {p : Party} {net net' : Net P.toCrypto} {db : Db P.Key} {rows : Rows P.Key}

/-- A send on the session of `p` made `e`. -/
def SentAs (A : Agreement P) (p : Party) (db : Db P.Key) (e : Encryption P.Key) : Prop :=
  ∃ db₀ rows handle clientId dest old new m, (Db.push db₀ rows).Le db ∧
    SendTx (A.our p) handle clientId e.plaintext db₀ dest (A.peer p) old new m rows ∧
    m.wire = wireOf (e.header, e.ciphertext) ∧ e.ad = A.ad

theorem SentAs.mono {db' : Db P.Key} {e : Encryption P.Key} (h : SentAs A p db e) (hle : db.Le db') :
    SentAs A p db' e := by
  obtain ⟨db₀, rows, handle, clientId, dest, old, new, m, h₀, h⟩ := h
  exact ⟨db₀, rows, handle, clientId, dest, old, new, m, h₀.trans hle, h⟩

/-- The device of `p` and its end of the ratchets. -/
structure EndOk (A : Agreement P) (p : Party) (db : Db P.Key) (net : Net P.toCrypto) : Prop where
  live : ∀ rec : SessionRecord P.Key, db.rows.lookup (.session (A.peer p)) = some rec →
    A.Holds net p rec
  unbegun : (∀ rec, ¬ db.Ever (.session (A.peer p)) rec) → net.ratchet p = A.start.ratchet p
  sent : ∀ e ∈ net.sent p, SentAs A p db e
  accepted : ∀ e ∈ net.accepted p, ∃ m : IncomingMessage, db.Ever (.inbox (A.peer p) e.id) m ∧
    m.plaintext = e.plaintext
  inbox : ∀ id (m : IncomingMessage), db.Ever (.inbox (A.peer p) id) m →
    ∃ e ∈ net.accepted p, e.id = id ∧ m.plaintext = e.plaintext

theorem ReceiveTx.lookup_session {our : Bytes32} {handle : UInt64} {wire : Bytes} {peer : Peer}
    {old new : SessionRecord P.Key} {m : IncomingMessage}
    (h : ReceiveTx our handle wire db peer old new m rows) :
    rows.lookup (.session peer) = some new := by
  rw [h.eq]
  exact Rows.lookup_applyAll_head _ _ (by simp)

theorem SendTx.lookup_session {our : Bytes32} {handle : UInt64} {clientId plaintext : Bytes}
    {dest peer : Peer} {old new : SessionRecord P.Key} {m : OutgoingMessage}
    (h : SendTx our handle clientId plaintext db dest peer old new m rows) :
    rows.lookup (.session peer) = some new := by
  rw [h.eq]
  exact Rows.lookup_applyAll_head _ _ (by simp)

theorem PromoteTx.lookup_session {our : Bytes32} {first : FirstContact P.Key} {wire : Bytes}
    {new : SessionRecord P.Key} {m : IncomingMessage}
    (h : PromoteTx our first wire db new m rows) :
    rows.lookup (.session first.session.peerIdentityPk) = some new := by
  rw [h.eq, lookup_promoteChanges new m h.extra _ rfl]
  exact Rows.lookup_applyAll_head _ _ (by simp)

/-- A transaction sends one message, of one session. -/
theorem SendTx.same {our our' : Bytes32} {handle handle' : UInt64} {clientId clientId' pt pt' : Bytes}
    {dest peer peer' : Peer} {old new old' new' : SessionRecord P.Key} {m : OutgoingMessage}
    (hcf : CollisionFree db) (hA : AeadCorrect P.toCrypto)
    (h : SendTx our handle clientId pt db dest peer old new m rows)
    (h' : SendTx our' handle' clientId' pt' db dest peer' old' new' m rows) :
    clientId' = clientId ∧ pt' = pt := by
  have hold := h.unchanged.eq hcf h.loaded.ever
  have hold' := h'.unchanged.eq hcf h'.loaded.ever
  -- The session that changes is the one that sends.
  obtain rfl : peer' = peer := by
    by_contra hne
    have hkept : rows.lookup (.session peer) = db.rows.lookup (.session peer) := by
      rw [h'.eq, Rows.lookup_applyAll_ne _ (by simpa [sendChanges] using Ne.symm hne)]
    rw [h.lookup_session, hold] at hkept
    have hgen : new.generation = old.generation + 1 := by rw [h.follows.eq]
    rw [Option.some.inj hkept] at hgen
    have hroom := h.follows.room
    grind
  obtain rfl := Option.some.inj (hold.symm.trans hold')
  obtain ⟨nonce, out, hs, hw⟩ := h.encrypts
  obtain ⟨nonce', out', hs', hw'⟩ := h'.encrypts
  obtain rfl : out = out' := by
    have hsplit := splitWire_wireOf out'
    rw [← hw', hw, splitWire_wireOf] at hsplit
    exact Except.ok.inj hsplit
  obtain ⟨ck, hc, -, -, hseal⟩ := DoubleRatchet.encrypt_ok hs
  obtain ⟨ck', hc', -, -, hseal'⟩ := DoubleRatchet.encrypt_ok hs'
  obtain rfl := Option.some.inj (hc.symm.trans hc')
  have hid : m.clientMessageId = clientId := by rw [h.message]
  have hid' : m.clientMessageId = clientId' := by rw [h'.message]
  exact ⟨hid'.symm.trans hid, Except.ok.inj ((hA.decrypt hseal').symm.trans (hA.decrypt hseal))⟩

/-- A transaction that accepts a message changes the session. -/
theorem AcceptTx.session_changes {our : Bytes32} {peer : Peer} {m : IncomingMessage}
    (hcf : CollisionFree db) (h : AcceptTx our db peer m rows) :
    ∃ new : SessionRecord P.Key, rows.lookup (.session peer) = some new ∧ new.generation ≠ 0 ∧
      db.rows.lookup (.session peer) ≠ some new := by
  cases h with
  | receive handle wire old new h =>
    have hroom := h.follows.room
    have hgen : new.generation = old.generation + 1 := by rw [h.follows.eq]
    refine ⟨new, h.lookup_session, by grind, ?_⟩
    rw [h.unchanged.eq hcf h.loaded.ever]
    rintro ⟨rfl⟩
    grind
  | promote first wire new h hp =>
    subst hp
    refine ⟨new, h.lookup_session, ?_, by rw [h.noSession]; exact nofun⟩
    rw [h.follows.eq]
    show (0 : UInt64) + 1 ≠ 0
    decide

/-- What a transaction adds to the inbox of the peer. -/
structure Adds (A : Agreement P) (p : Party) (db : Db P.Key) (rows : Rows P.Key)
    (m : IncomingMessage) : Prop where
  added : rows.lookup (.inbox (A.peer p) m.messageId) = some m
  only : ∀ id m', rows.lookup (.inbox (A.peer p) id) = some m' →
    db.rows.lookup (.inbox (A.peer p) id) = some m' ∨ id = m.messageId ∧ m' = m

/-- A step that neither encrypts nor decrypts. -/
theorem EndOk.quiet (h : EndOk A p db net)
    (hlive : ∀ rec : SessionRecord P.Key, rows.lookup (.session (A.peer p)) = some rec →
      A.Holds net p rec)
    (hin : ∀ id m, rows.lookup (.inbox (A.peer p) id) = some m →
      db.rows.lookup (.inbox (A.peer p) id) = some m) : EndOk A p (db.push rows) net where
  live := hlive
  unbegun hn := h.unbegun fun rec he => hn rec (he.mono (Db.le_push _ _))
  sent e he := (h.sent e he).mono (Db.le_push _ _)
  accepted e he := by
    obtain ⟨m, hm, hp⟩ := h.accepted e he
    exact ⟨m, hm.mono (Db.le_push _ _), hp⟩
  inbox id m hm := by
    rcases Db.ever_push.mp hm with hm | hm
    · exact h.inbox id m (Db.ever_now (hin id m hm))
    · exact h.inbox id m hm

/-- A step that decrypts a message on the record `old`. -/
theorem EndOk.read (h : EndOk A p db net) {old new : SessionRecord P.Key} {wire : Bytes}
    {m : IncomingMessage} {header : Header} {ct : Bytes} {fresh : StaticSecret}
    (hold : A.Holds net p old) (had : new.ad = old.ad)
    (after : rows.lookup (.session (A.peer p)) = some new) (hadds : Adds A p db rows m)
    (hid : m.messageId = messageId P wire) (split : splitWire wire = .ok (header, ct))
    (opens : old.ratchet.decrypt P.toCrypto header ct A.ad fresh = (.ok m.plaintext, new.ratchet)) :
    EndOk A p (db.push rows) (net.decrypt p header ct A.ad fresh) := by
  rw [hold.ratchet] at opens
  obtain ⟨key, hkey, -⟩ := DoubleRatchet.decrypt_ok_key opens
  rw [Net.decrypt_of_ok hkey opens]
  have hle := Db.le_push db rows
  have hnew : ∀ {e : Message P.Key}, e = ⟨key, header, A.ad, m.plaintext, ct⟩ →
      e.id = m.messageId := by
    rintro e rfl
    rw [hid, Message.id, wireOf_of_splitWire split]
  constructor
  · intro rec hrec
    obtain rfl := Option.some.inj (hrec.symm.trans after)
    exact ⟨by simp, had.trans hold.ad⟩
  · intro hn
    exact absurd (Db.ever_now after) (hn new)
  · exact fun e he => (h.sent e he).mono hle
  · intro e he
    simp only [Function.update_self] at he
    rcases List.mem_cons.mp he with rfl | he
    · exact ⟨m, Db.ever_now (by rw [hnew rfl]; exact hadds.added), rfl⟩
    · obtain ⟨m', hm', hp⟩ := h.accepted e he
      exact ⟨m', hm'.mono hle, hp⟩
  · intro id m' hm'
    simp only [Function.update_self]
    have before : db.Ever (.inbox (A.peer p) id) m' → ∃ e ∈
        (⟨key, header, A.ad, m.plaintext, ct⟩ :: net.accepted p : List (Message P.Key)),
          e.id = id ∧ m'.plaintext = e.plaintext := by
      intro he
      obtain ⟨e, he, h1, h2⟩ := h.inbox id m' he
      exact ⟨e, List.mem_cons_of_mem _ he, h1, h2⟩
    rcases Db.ever_push.mp hm' with hm' | hm'
    · rcases hadds.only id m' hm' with hm' | ⟨rfl, rfl⟩
      · exact before (Db.ever_now hm')
      · exact ⟨_, List.mem_cons_self, hnew rfl, rfl⟩
    · exact before hm'

theorem adds_of_receive {handle : UInt64} {wire : Bytes} {old new : SessionRecord P.Key}
    {m : IncomingMessage} (h : ReceiveTx (A.our p) handle wire db (A.peer p) old new m rows) :
    Adds A p db rows m where
  added := by
    rw [h.eq]
    exact Rows.lookup_applyAll_head (db.rows.apply ⟨.session (A.peer p), some new⟩) _ nofun
  only id m' hm := by
    rw [h.eq] at hm
    rcases Rows.lookup_applyAll_some hm with hm | hm
    · simp only [receiveChanges, List.mem_cons, List.not_mem_nil, or_false] at hm
      rcases hm with hm | hm <;> cases hm
      exact .inr ⟨rfl, rfl⟩
    · exact .inl hm

theorem adds_of_promote {first : FirstContact P.Key} {wire : Bytes} {new : SessionRecord P.Key}
    {m : IncomingMessage} (h : PromoteTx (A.our p) first wire db new m rows)
    (hp : first.session.peerIdentityPk = A.peer p) : Adds A p db rows m := by
  have hl := fun id => lookup_promoteChanges new m h.extra (.inbox (A.peer p) id) rfl db.rows
  rw [← h.eq, hp] at hl
  constructor
  · rw [hl, Rows.applyAll_cons, Rows.applyAll_cons, Rows.applyAll_cons]
    exact Rows.lookup_applyAll_head _ _ nofun
  · intro id m' hm
    rw [hl] at hm
    rcases Rows.lookup_applyAll_some hm with hm | hm
    · simp only [List.mem_cons, List.not_mem_nil, or_false] at hm
      rcases hm with hm | hm | hm | hm <;> cases hm
      exact .inr ⟨rfl, rfl⟩
    · exact .inl hm

/-- A transaction that leaves the session alone, or stores it at generation 0, or ends it, accepts no
message of the peer. -/
theorem inbox_same (ht : Trans (A.our p) db rows) (hcf : CollisionFree db)
    (hs : ∀ new : SessionRecord P.Key, rows.lookup (.session (A.peer p)) = some new →
      new.generation ≠ 0 → db.rows.lookup (.session (A.peer p)) = some new) (id : MessageId)
    (m : IncomingMessage) (hm : rows.lookup (.inbox (A.peer p) id) = some m) :
    db.rows.lookup (.inbox (A.peer p) id) = some m := by
  rcases ht.messages.inbox_new hm with hm | ⟨-, -, -, -, ha⟩
  · exact hm
  · obtain ⟨new, hnew, hgen, hne⟩ := ha.session_changes hcf
    exact absurd (hs new hnew hgen) hne

/-- **One step** of the device of `p`. -/
theorem EndOk.step (h : EndOk A p db net) (ht : Trans (A.our p) db rows) (hcf : CollisionFree db)
    (hs : EndStep A p net db rows net') : EndOk A p (db.push rows) net' := by
  cases hs with
  | elsewhere same =>
    refine h.quiet (fun rec hrec => h.live rec (same.symm.trans hrec)) ?_
    exact inbox_same ht hcf fun new hnew _ => same.symm.trans hnew
  | begun new once after generation begins =>
    refine h.quiet (fun rec hrec => ?_) (inbox_same ht hcf fun rec hrec hgen => ?_)
    · obtain rfl := Option.some.inj (hrec.symm.trans after)
      exact ⟨begins.ratchet.trans (h.unbegun once).symm, begins.ad⟩
    · obtain rfl := Option.some.inj (hrec.symm.trans after)
      exact absurd generation hgen
  | answered first wire new m tx peer once begins header ct fresh split opens fair =>
    refine h.read ⟨begins.ratchet.trans (h.unbegun once).symm, begins.ad⟩ ?_ ?_
      (adds_of_promote tx peer) ?_ split opens
    · rw [tx.follows.eq]
    · rw [← peer]
      exact tx.lookup_session
    · rw [tx.message]
  | sent handle clientId plaintext dest old new m tx nonce out seals wire =>
    have hold := h.live old (tx.unchanged.eq hcf tx.loaded.ever)
    have seals' := seals
    rw [Encrypts, hold.ad, hold.ratchet] at seals'
    obtain ⟨chain, heq⟩ := Net.encrypt_of_ok seals'
    have hle := Db.le_push db rows
    rw [heq]
    constructor
    · intro rec hrec
      obtain rfl := Option.some.inj (hrec.symm.trans tx.lookup_session)
      refine ⟨by simp, ?_⟩
      rw [tx.follows.eq]
      exact hold.ad
    · intro hn
      exact absurd (Db.ever_now tx.lookup_session) (hn new)
    · intro e he
      simp only [Function.update_self] at he
      rcases List.mem_cons.mp he with rfl | he
      · exact ⟨db, rows, handle, clientId, dest, old, new, m, Db.Le.refl _, tx, wire, rfl⟩
      · exact (h.sent e he).mono hle
    · intro e he
      obtain ⟨m', hm', hp⟩ := h.accepted e he
      exact ⟨m', hm'.mono hle, hp⟩
    · intro id m' hm'
      rcases Db.ever_push.mp hm' with hm' | hm'
      · rw [tx.eq, Rows.lookup_applyAll_ne _ (by simp [sendChanges])] at hm'
        exact h.inbox id m' (Db.ever_now hm')
      · exact h.inbox id m' hm'
  | received handle wire old new m tx header ct fresh split opens fair =>
    refine h.read (h.live old (tx.unchanged.eq hcf tx.loaded.ever)) ?_ tx.lookup_session
      (adds_of_receive tx) ?_ split opens
    · rw [tx.follows.eq]
    · rw [tx.message]
  | ended after =>
    refine h.quiet (fun rec hrec => ?_) (inbox_same ht hcf fun rec hrec _ => ?_)
    · rw [after] at hrec
      cases hrec
    · rw [after] at hrec
      cases hrec

/-- What an end sees of the ratchets. -/
structure SameEnd (q : Party) (net net' : Net P.toCrypto) : Prop where
  ratchet : net'.ratchet q = net.ratchet q
  sent : net'.sent q = net.sent q
  accepted : net'.accepted q = net.accepted q

theorem EndOk.same (h : EndOk A p db net) (hs : SameEnd p net net') : EndOk A p db net' where
  live rec hrec := ⟨(h.live rec hrec).ratchet.trans hs.ratchet.symm, (h.live rec hrec).ad⟩
  unbegun hn := hs.ratchet.trans (h.unbegun hn)
  sent := by rw [hs.sent]; exact h.sent
  accepted := by rw [hs.accepted]; exact h.accepted
  inbox := by rw [hs.accepted]; exact h.inbox

theorem sameEnd_encrypt {q : Party} (hq : q ≠ p) (pt ad : Bytes) (nonce : Nonce) :
    SameEnd q net (net.encrypt p pt ad nonce) := by
  unfold Net.encrypt
  split <;> constructor <;> simp [hq]

theorem sameEnd_decrypt {q : Party} (hq : q ≠ p) (header : Header) (ct ad : Bytes)
    (fresh : StaticSecret) : SameEnd q net (net.decrypt p header ct ad fresh) := by
  unfold Net.decrypt
  dsimp only
  split <;> constructor <;> simp [hq]

/-- A step of one device is nothing to the other end. -/
theorem EndStep.other (hs : EndStep A p net db rows net') {q : Party} (hq : q ≠ p) :
    SameEnd q net net' := by
  cases hs with
  | answered => exact sameEnd_decrypt hq _ _ _ _
  | sent => exact sameEnd_encrypt hq _ _ _
  | received => exact sameEnd_decrypt hq _ _ _ _
  | _ => exact ⟨rfl, rfl, rfl⟩

/-- The ratchets are those of a run, and each device holds its end of them. -/
structure EndsOk (A : Agreement P) (dbs : Party → Db P.Key) (net : Net P.toCrypto) : Prop where
  reach : Net.Reach A.rootKey A.aliceSk A.bobSk (· ≠ 0xFFFFFFFF) net
  ends : ∀ p, EndOk A p (dbs p) net

/-- **Two devices follow two ratchets**: the transactions of both, in any order, are a run of the
ratchets and of the network between them. -/
theorem Joined.follows {dbs : Party → Db P.Key} (h : Joined A dbs net)
    (hcf : ∀ p, CollisionFree (dbs p)) : EndsOk A dbs net := by
  induction h with
  | start =>
    refine ⟨.start A.apart, fun p =>
      ⟨fun _ => nofun, fun _ => rfl, fun _ => nofun, fun _ => nofun, ?_⟩⟩
    exact fun _ _ hm => (Db.not_ever_empty hm).elim
  | @step dbs net net' p rows hj ht hs ih =>
    have hcf' : ∀ q, CollisionFree (dbs q) := fun q => by
      by_cases hq : q = p
      · subst hq
        have h := hcf q
        rw [Function.update_self] at h
        exact h.mono (Db.le_push _ _)
      · have h := hcf q
        rwa [Function.update_of_ne hq] at h
    obtain ⟨hr, hends⟩ := ih hcf'
    constructor
    · cases hs with
      | answered first wire new m tx peer once begins header ct fresh split opens fair =>
        exact .decrypt p header ct A.ad fresh hr fair.drawn fair.unforged
      | received handle wire old new m tx header ct fresh split opens fair =>
        exact .decrypt p header ct A.ad fresh hr fair.drawn fair.unforged
      | sent handle clientId plaintext dest old new m tx nonce out seals wire =>
        have hold := (hends p).live old (tx.unchanged.eq (hcf' p) tx.loaded.ever)
        exact .encrypt p plaintext A.ad nonce hr (hold.ratchet ▸ tx.loaded.bound.ratchet.ns)
      | _ => exact hr
    · intro q
      by_cases hq : q = p
      · subst hq
        rw [Function.update_self]
        exact (hends q).step ht (hcf' q) hs
      · rw [Function.update_of_ne hq]
        exact (hends q).same (hs.other hq)

/-! ## What the two devices deliver -/

/-- **What was received was sent**: every message in the inbox of a device from its peer was sent by
the peer's device to it, and was not changed. -/
theorem Joined.received_sent {dbs : Party → Db P.Key} (h : Joined A dbs net)
    (hcf : ∀ p, CollisionFree (dbs p)) (hI : Ideal P.toCrypto A.rootKey) (p : Party)
    {id : MessageId} {m : IncomingMessage} (hm : (dbs p).Ever (.inbox (A.peer p) id) m) :
    ∃ e : Encryption P.Key, SentAs A p.other (dbs p.other) e ∧ e.id = id ∧
      e.plaintext = m.plaintext := by
  obtain ⟨hr, hends⟩ := h.follows hcf
  obtain ⟨e, he, hid, hp⟩ := (hends p).inbox id m hm
  obtain ⟨s, hs, rfl⟩ := hr.accepted_sent hI p e he
  exact ⟨s, (hends p.other).sent s hs, hid, hp.symm⟩

/-- **What was sent can be received**: the stored session of a device opens every message of its peer
that it has not received, unless a skip limit stands between or its key was evicted. -/
theorem Joined.sent_opens {dbs : Party → Db P.Key} (h : Joined A dbs net)
    (hcf : ∀ p, CollisionFree (dbs p)) (hI : Ideal P.toCrypto A.rootKey)
    (hA : AeadCorrect P.toCrypto) (p : Party) {rec : SessionRecord P.Key}
    (hrec : (dbs p).rows.lookup (.session (A.peer p)) = some rec) {e : Encryption P.Key}
    (he : e ∈ net.sent p.other) (hnew : ∀ m, ¬ (dbs p).Ever (.inbox (A.peer p) e.id) m) :
    (net.Deliverable p e.toMessage ∨ net.SkipExceeded p e.header ∨ e.key ∈ net.evicted p) ∧
      (net.Deliverable p e.toMessage → ∀ fresh, ∃ r',
        rec.ratchet.decrypt P.toCrypto e.header e.ciphertext rec.ad fresh =
          (.ok e.plaintext, r')) := by
  obtain ⟨hr, hends⟩ := h.follows hcf
  have hna : e.toMessage ∉ net.accepted p := fun ha => by
    obtain ⟨m, hm, -⟩ := (hends p).accepted _ ha
    exact hnew m hm
  obtain ⟨hdel, hcases⟩ := hr.sent_delivers hI hA p e he hna
  obtain ⟨-, -, -, -, -, -, -, -, -, -, -, had⟩ := (hends p.other).sent e he
  have hold := (hends p).live rec hrec
  rw [hold.ratchet, hold.ad, ← had]
  exact ⟨hcases, hdel⟩

end Messenger

end Arcium
