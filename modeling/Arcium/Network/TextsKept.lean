import Arcium.Network.Delivered

/-!
# Accepted texts reach the history

An accepted message leaves the inbox when the application says so, or when its work is done: a receipt
was applied, an opener was answered, a text was recorded (`AckInWhy`). Where the application leaves
acknowledging to the chat layer, a text can only go the last way.

* `inbox_unique`: one message is ever accepted under an id.
* `Trans.takesIn`: what takes a message out of the inbox.
* `texts_kept`: each accepted text is in the inbox, or in the history as it was sent, once.
-/

namespace Arcium

open Conc

namespace Messenger

variable {P : Platform} {our : Bytes32} {db : Db P.Key}

theorem accepted_of_ever (h : db.Valid (Trans our)) {p : Peer} {id : MessageId} {m : IncomingMessage}
    (he : db.Ever (.inbox p id) m) : Accepted db.rows p id := by
  obtain ⟨db₀, hle, h₀⟩ := he.at
  exact accepted_stable h hle (.inl (by rw [h₀]; rfl))

/-- One message is ever accepted under an id. -/
theorem inbox_unique (h : db.Valid (Trans our)) {p : Peer} {id : MessageId} {m m' : IncomingMessage}
    (he : db.Ever (.inbox p id) m) (he' : db.Ever (.inbox p id) m') : m = m' := by
  induction h generalizing m m' with
  | empty => exact (Db.not_ever_empty he).elim
  | @push db rows hv ht ih =>
    -- A message that is new was not accepted before.
    have fresh : ∀ {m m' : IncomingMessage}, rows.lookup (.inbox p id) = some m →
        db.Ever (.inbox p id) m' → m = m' := by
      intro m m' hm he'
      rcases ht.messages.inbox_new hm with h₀ | ⟨-, hi, hs, -⟩
      · exact ih (Db.ever_now h₀) he'
      · rcases accepted_of_ever hv he' with h | h
        · rw [hi] at h; cases h
        · rw [hs] at h; cases h
    rcases Db.ever_push.mp he with hm | hm <;> rcases Db.ever_push.mp he' with hm' | hm'
    · exact Option.some.inj (hm.symm.trans hm')
    · exact fresh hm hm'
    · exact (fresh hm' hm).symm
    · exact ih hm hm'

theorem inbox_id_of_ever (h : db.Valid (Trans our)) {p : Peer} {id : MessageId} {m : IncomingMessage}
    (he : db.Ever (.inbox p id) m) : m.messageId = id := by
  obtain ⟨db₀, hle, h₀⟩ := he.at
  exact (messagesOk (h.le hle)).inbox_id p id m h₀

end Messenger

namespace Network

variable {P : AppPlatform} {scope : Scope P} {call : Call} {start db db' : Db P.Key}
  {rows : Rows P.Key} {peer : Peer}

/-- The calls by which the application takes a message out of the inbox itself. -/
def Call.Acknowledges : Call → Prop
  | .acknowledgeIncoming _ _ | .markRead _ _ => True
  | _ => False

/-! ## Leaving the inbox -/

/-- What takes a message out of the inbox. -/
theorem Work.takesIn {id : MessageId} (h : Work start call db rows)
    (hs : (db.rows.lookup (.inbox peer id)).isSome) (hn : rows.lookup (.inbox peer id) = none) :
    ∃ handle, AckInWhy call db handle id ∧
      Messenger.AckInTx (P := P.toPlatform) handle id db peer rows := by
  have kept : rows.lookup (.inbox peer id) = db.rows.lookup (.inbox peer id) → False := by
    intro hk
    rw [← hk, hn] at hs
    cases hs
  have other : ∀ {cs : List (Change P.Key)}, rows = db.rows.applyAll cs →
      (∀ c ∈ cs, Key.inbox peer id ≠ c.key) → False := fun heq hcs =>
    kept (heq ▸ Rows.lookup_applyAll_ne _ hcs)
  -- A message that a step accepts was not there before it.
  have accepts : ∀ {p : Peer} {i : MessageId}, db.rows.lookup (.inbox p i) = none →
      Key.inbox peer id ≠ .inbox p i := by
    intro p i hi hk
    cases hk
    rw [hi] at hs
    cases hs
  cases h with
  | identity identity called h => exact (other h.eq (by simp)).elim
  | contact card called h => exact (other h.eq (by simp)).elim
  | initiate identity handle peerBundle bundle ephemeralSk dhs alice called h =>
    refine (other h.create.eq ?_).elim
    simp [Messenger.createChanges, Core.initiatorSession, Messenger.sideChanges]
  | respond identity handle bytes handshake record called own answers h =>
    cases h with
    | recorded h => exact (other h.eq (by simp)).elim
    | retired peer old named h => exact (other h.eq (by simp)).elim
  | first identity handle wire provisional handshake record fresh new m called h =>
    refine (other h.promote.eq fun c hc => ?_).elim
    rcases FirstTx.mem_changes hc with rfl | rfl | rfl | rfl | rfl
    · simp
    · simp
    · simp
    · exact accepts h.promote.noInbox
    · simp
  | send our ours handle clientId plaintext p q old new m why h =>
    exact (other h.eq (by simp [Messenger.sendChanges])).elim
  | receive our ours handle wire p old new m called h =>
    have hne := accepts h.noInbox
    exact (other h.eq (by simpa [Messenger.receiveChanges] using hne)).elim
  | ackOut handle i p called why h => exact (other h.eq (by simp)).elim
  | ackIn handle i p why h =>
    by_cases hk : Key.inbox peer id = .inbox p i
    · cases hk
      exact ⟨handle, why, h⟩
    · exact (other h.eq (by simpa using hk)).elim
  | abandon handle i p m contact own why h => exact (other h.eq (by simp)).elim
  | remove our ours handle p old why h => exact (other h.eq (by simp)).elim
  | chat h => exact (kept (h.app _ rfl)).elim

theorem Trans.takesIn {id : MessageId} (h : Trans scope db rows)
    (hs : (db.rows.lookup (.inbox peer id)).isSome) (hn : rows.lookup (.inbox peer id) = none) :
    ∃ call handle, scope.calls call ∧ AckInWhy call db handle id ∧
      Messenger.AckInTx (P := P.toPlatform) handle id db peer rows := by
  have kept : rows.lookup (.inbox peer id) = db.rows.lookup (.inbox peer id) → False := by
    intro hk
    rw [← hk, hn] at hs
    cases hs
  cases h with
  | legacy _ our _ handle rec h =>
    refine (kept ?_).elim
    rw [h.eq, Rows.lookup_applyAll_ne _ (by simp)]
  | call call hc h =>
    cases h with
    | work h =>
      obtain ⟨handle, hw⟩ := h.takesIn hs hn
      exact ⟨call, handle, hc, hw⟩
    | prekeys called identity sk opk h =>
      refine (kept ?_).elim
      rw [h.eq, Rows.lookup_applyAll_ne _ (by simp)]

/-! ## What the history has -/

/-- A conversation with `peer` is kept, or `peer` is known. -/
def Present (db : Db P.Key) (peer : Peer) : Prop :=
  Known db peer ∨ ∃ id seq, db.Ever (.chatIn peer id) seq

theorem Present.mono (h : Present db peer) (hle : db.Le db') : Present db' peer := by
  rcases h with h | ⟨id, seq, h⟩
  · exact .inl (h.mono hle)
  · exact .inr ⟨id, seq, h.mono hle⟩

/-- Sessions are stored under `local_session_handle` of their peers, which tells apart all peers that
the device keeps records of. -/
structure HandlesTell (db : Db P.Key) : Prop where
  own : ∀ handle peer, Named db handle peer → handle = localSessionHandle P peer
  injective : ∀ p q, Present db p → Present db q →
    localSessionHandle P p = localSessionHandle P q → p = q

theorem HandlesTell.mono (h : HandlesTell db') (hle : db.Le db') : HandlesTell db where
  own handle peer hn := h.own handle peer (hn.mono hle)
  injective p q hp hq := h.injective p q (hp.mono hle) (hq.mono hle)

/-- The peers that a text was recorded from. -/
def textView {K : Type} : (k : Key) → Row K k → Option Peer
  | .chatIn p _, _ => some p
  | _, _ => none

theorem mem_texts : peer ∈ db.select textView ↔ ∃ id seq, db.Ever (.chatIn peer id) seq := by
  rw [Db.mem_select]
  constructor
  · rintro ⟨k, v, hl, hv⟩
    cases k <;> cases hv
    exact ⟨_, _, hl⟩
  · rintro ⟨id, seq, h⟩
    exact ⟨_, _, h, rfl⟩

theorem mem_present : peer ∈ db.select knownView ++ db.select textView ↔ Present db peer := by
  rw [List.mem_append, mem_known, mem_texts, Present]

theorem handlesTell_iff : HandlesTell db ↔
    (∀ x ∈ db.select handleView, x.1 = localSessionHandle P x.2) ∧
    ∀ p ∈ db.select knownView ++ db.select textView,
      ∀ q ∈ db.select knownView ++ db.select textView,
        localSessionHandle P p = localSessionHandle P q → p = q := by
  simp only [mem_present, Prod.forall, mem_handles]
  exact ⟨fun h => ⟨h.own, fun p hp q hq => h.injective p q hp hq⟩,
    fun h => ⟨h.1, fun p q hp hq => h.2 p hp q hq⟩⟩

instance : Decidable (HandlesTell db) := decidable_of_iff' _ handlesTell_iff

/-- What was accepted on the session of a peer is in the inbox of that peer. -/
theorem HandlesTell.accepted (h : HandlesTell db) (hp : Present db peer) {m : IncomingMessage}
    (ha : AcceptedFrom db (localSessionHandle P peer) m) : ∃ id, db.Ever (.inbox peer id) m := by
  obtain ⟨q, id, hn, he⟩ := ha
  obtain rfl := h.injective q peer (.inl (.inr ⟨_, hn⟩)) hp (h.own _ q hn).symm
  exact ⟨id, he⟩

/-- `e` records the text of `m`. -/
structure Records (e : Entry) (m : IncomingMessage) : Prop where
  incoming : e.outgoing = false
  state : e.state = .received
  id : e.messageId = m.messageId.val
  text : Payload.decode m.plaintext = some (.text e.text)

/-- An entry that records a text keeps recording it. -/
theorem Records.leads {e e' : Entry} {m : IncomingMessage} (h : Records e m)
    (hl : Conversation.Leads e e') : Records e' m where
  incoming := hl.outgoing.trans h.incoming
  state := by
    rcases hl.state with hs | hs
    · exact hs.trans h.state
    · rw [h.state] at hs
      cases hs
  id := by
    have hne : e.messageId ≠ [] := h.id ▸ messageId_ne_nil _
    exact (hl.messageId hne).trans h.id
  text := hl.text ▸ h.text

/-- An entry that came in records a text that was accepted. -/
theorem incoming_records (hv : db.Valid (Trans scope)) (hh : HandlesTell db) {seq : Nat} {e : Entry}
    (he : (conversation db.rows peer).log.entries seq = some e) (ho : e.outgoing = false) :
    ∃ id m, db.Ever (.inbox peer id) m ∧ Records e m := by
  induction hv generalizing e with
  | empty => cases he
  | @push db rows hv ht ih =>
    have hle := Db.le_push db rows
    have before : ∀ {e : Entry}, (conversation db.rows peer).log.entries seq = some e →
        e.outgoing = false → ∃ id m, (db.push rows).Ever (.inbox peer id) m ∧ Records e m := by
      intro e he ho
      obtain ⟨id, m, hm, hr⟩ := ih (hh.mono hle) he ho
      exact ⟨id, m, hm.mono hle, hr⟩
    rw [Db.push_rows] at he
    rcases ht.conversation peer with heq | ⟨call, -, hc⟩
    · exact before (heq ▸ he) ho
    generalize hconv : conversation rows peer = c at he hc
    cases hc with
    | advanced n state messageId e₀ e' stored hadv why =>
      have hl := Conversation.leads_of_advanced hadv
      rcases NumberedLog.set_entries_cases he with ⟨rfl, rfl⟩ | ⟨-, he⟩
      · obtain ⟨id, m, hm, hr⟩ := before stored (hl.outgoing ▸ ho)
        exact ⟨id, m, hm, hr.leads hl⟩
      · exact before he ho
    | received called m text now accepted payload noIndex =>
      rcases NumberedLog.append_entries_cases he with ⟨-, rfl⟩ | ⟨-, he⟩
      · -- the new entry is in the index, so its peer is one that the device keeps records of
        have hindex : rows.lookup (.chatIn peer m.messageId.val) =
            some ((conversation db.rows peer).log.last + 1) := by
          show (conversation rows peer).received m.messageId.val = _
          rw [hconv, Conversation.record_received, if_pos rfl]
        have hpresent : Present (db.push rows) peer := .inr ⟨_, _, Db.ever_now hindex⟩
        obtain ⟨id, hm⟩ := hh.accepted hpresent (accepted.mono hle)
        exact ⟨id, m, hm, rfl, rfl, rfl, payload⟩
      · exact before he ho
    | claimed i appId text called noEntry => exact before he ho
    | queued i appId text now called noEntry noClaim =>
      rcases NumberedLog.append_entries_cases he with ⟨-, rfl⟩ | ⟨-, he⟩
      · cases ho
      · exact before he ho

/-- What the index of received texts names records the text that was accepted under the id. -/
theorem indexed_records (hv : db.Valid (Trans scope)) (hh : HandlesTell db) {id : MessageId}
    {m : IncomingMessage} (hm : db.Ever (.inbox peer id) m) {seq : Nat}
    (hi : db.Ever (.chatIn peer id.val) seq) :
    ∃ e, (conversation db.rows peer).log.entries seq = some e ∧ Records e m := by
  obtain ⟨db₀, hle, h₀⟩ := hi.at
  have hv₀ := hv.le hle
  obtain ⟨e, he, hk⟩ := ((conversation_ok hv₀ peer).received id.val seq).mp h₀
  have ho : e.outgoing = false := by
    unfold Conversation.inKey at hk
    split at hk
    · cases hk
    · next h => exact Bool.eq_false_iff.mpr h
  have hid : e.messageId = id.val := by
    rw [Conversation.inKey, ho] at hk
    exact Option.some.inj hk
  obtain ⟨id', m', hm', hr⟩ := incoming_records hv₀ (hh.mono hle) he ho
  obtain ⟨our, -, hmv⟩ := exists_our hv
  obtain rfl : id' = id := by
    rw [← Messenger.inbox_id_of_ever hmv (hm'.mono hle)]
    exact Subtype.ext (hr.id.symm.trans hid)
  obtain rfl := Messenger.inbox_unique hmv hm (hm'.mono hle)
  obtain ⟨e', he', hl⟩ := entries_lead hv hle he
  exact ⟨e', he', hr.leads hl⟩

/-- What is known of the texts that were accepted from `peer`. -/
structure TextsKept (db : Db P.Key) (peer : Peer) : Prop where
  /-- An accepted text waits in the inbox, or the history records it. -/
  kept : ∀ id m text, db.Ever (.inbox peer id) m → Payload.decode m.plaintext = some (.text text) →
    db.rows.lookup (.inbox peer id) = some m ∨
      ∃ seq e, (conversation db.rows peer).log.entries seq = some e ∧ Records e m
  /-- The history records a text once. -/
  once : ∀ seq seq' e e' m, (conversation db.rows peer).log.entries seq = some e →
    (conversation db.rows peer).log.entries seq' = some e' → Records e m → Records e' m → seq = seq'
  /-- It records nothing else as received. -/
  genuine : ∀ seq e, (conversation db.rows peer).log.entries seq = some e → e.outgoing = false →
    ∃ id m, db.Ever (.inbox peer id) m ∧ Records e m

/-- A text leaves the inbox for the history. -/
theorem AckInWhy.recorded_text (hv : db.Valid (Trans scope)) (hh : HandlesTell db)
    (hcall : ¬ call.Acknowledges) {handle : UInt64} {id : MessageId} (h : AckInWhy call db handle id)
    (hn : Named db handle peer) {m : IncomingMessage} {text : Bytes}
    (hm : db.Ever (.inbox peer id) m) (hp : Payload.decode m.plaintext = some (.text text)) :
    ∃ seq, db.Ever (.chatIn peer id.val) seq := by
  obtain ⟨our, -, hmv⟩ := exists_our hv
  obtain rfl := hh.own handle peer hn
  -- what was accepted under this id on this session is `m`
  have same : ∀ {m' : IncomingMessage}, AcceptedFrom db (localSessionHandle P peer) m' →
      m'.messageId = id → m' = m := by
    intro m' ha hid
    obtain ⟨id', hm'⟩ := hh.accepted (.inl (.inr ⟨_, hn⟩)) ha
    obtain rfl : id' = id := (Messenger.inbox_id_of_ever hmv hm').symm.trans hid
    exact Messenger.inbox_unique hmv hm' hm
  cases h with
  | raw called =>
    rcases called with rfl | ⟨q, -, rfl⟩
    · exact (hcall trivial).elim
    · exact (hcall trivial).elim
  | opener called m' accepted hid payload receipt =>
    rw [same accepted hid, hp] at payload
    cases payload
  | receipt called m' ids accepted hid payload applied =>
    rw [same accepted hid, hp] at payload
    cases payload
  | unknown called m' accepted hid payload =>
    rw [same accepted hid, hp] at payload
    cases payload
  | recorded contact called m' text' own accepted hid payload history =>
    obtain ⟨seq, hi⟩ := history
    obtain rfl := hh.injective peer contact (.inl (.inr ⟨_, hn⟩)) (.inr ⟨_, _, hi⟩) own
    exact ⟨seq, hi⟩

/-- A text that was accepted waits in the inbox, or the history records it. -/
theorem text_kept (hv : db.Valid (Trans scope))
    (hcalls : ∀ call, scope.calls call → ¬ call.Acknowledges) (hh : HandlesTell db) {id : MessageId}
    {m : IncomingMessage} {text : Bytes} (hm : db.Ever (.inbox peer id) m)
    (hp : Payload.decode m.plaintext = some (.text text)) :
    db.rows.lookup (.inbox peer id) = some m ∨
      ∃ seq e, (conversation db.rows peer).log.entries seq = some e ∧ Records e m := by
  induction hv with
  | empty => exact (Db.not_ever_empty hm).elim
  | @push db rows hv ht ih =>
    have hle := Db.le_push db rows
    rcases Db.ever_push.mp hm with hnow | hm₀
    · exact .inl hnow
    rcases ih (hh.mono hle) hm₀ with hin | ⟨seq, e, he, hr⟩
    · cases hi : rows.lookup (.inbox peer id) with
      | some m' =>
        obtain ⟨our, -, hmv⟩ := exists_our (hv.push ht)
        have hm' : (db.push rows).Ever (.inbox peer id) m' := Db.ever_now hi
        obtain rfl := Messenger.inbox_unique hmv hm' hm
        exact .inl hi
      | none =>
        obtain ⟨call, handle, hc, why, hack⟩ := ht.takesIn (by rw [hin]; rfl) hi
        obtain ⟨seq, hchat⟩ := why.recorded_text hv (hh.mono hle) (hcalls call hc) hack.named hm₀ hp
        obtain ⟨e, he, hr⟩ := indexed_records (hv.push ht) hh hm (hchat.mono hle)
        exact .inr ⟨seq, e, he, hr⟩
    · obtain ⟨e', he', hl⟩ := entries_lead (hv.push ht) hle he
      exact .inr ⟨seq, e', he', hr.leads hl⟩

/-- **No accepted text is lost.** Where the application leaves acknowledging to the chat layer, each
text that was ever accepted from a peer waits in the inbox or is recorded in the history with its id
and its bytes; it is recorded once, and nothing that was not accepted is recorded as received. -/
theorem texts_kept {c : DeviceConfig P} (h : Reachable scope c)
    (hcalls : ∀ call, scope.calls call → ¬ call.Acknowledges) (hh : HandlesTell c.shared.db)
    (peer : Peer) : TextsKept c.shared.db peer := by
  have hv := h.valid
  refine ⟨fun id m text => text_kept hv hcalls hh, fun seq seq' e e' m he he' hr hr' => ?_,
    fun seq e he ho => incoming_records hv hh he ho⟩
  have key : ∀ {e : Entry}, Records e m → Conversation.inKey e = some m.messageId.val := by
    intro e hr
    rw [Conversation.inKey, hr.incoming, hr.id]
    rfl
  exact (conversation_ok hv peer).received.key_unique he he' (key hr) (key hr')

/-! ## A text that is recorded -/

namespace KeptRun

/-- The application leaves acknowledging to the chat layer. -/
def chatOnly : Scope symbolicApp where
  calls call := ¬ call.Acknowledges

/-- A session is started, and a text that the history does not keep is sent on it. -/
def sent : Option (DeviceConfig symbolicApp) :=
  (system symbolicApp chatOnly.calls).runCalls (TextRun.draws {})
    (Config.init ⟨chatOnly.start, fun _ => {}, []⟩)
    [.saveIdentity TextRun.own, .addContact TextRun.card,
      .establishSessionInitiator 0 (localSessionHandle symbolicApp (fill 3)) TextRun.bundle,
      .sendText 0 (fill 3) [7] [8]]

/-- The peer reads the text, and answers it with one. -/
def reply (c : DeviceConfig symbolicApp) : Option Bytes := do
  let bytes : Option Bytes := c.shared.db.rows.lookup (Key.handshake (fill 3))
  let handshake ← (unpackInitiatorHandshake (← bytes)).toOption
  let m ← (Db.selectAt c.shared.db.rows Db.outboxView).head?
  let (header, ciphertext) ← (Messenger.splitWire m.wire).toOption
  let session := Core.responderSession symbolicApp TextRun.other TextRun.record handshake
  let read := session.ratchet.decrypt symbolicApp.toCrypto header ciphertext session.ad (fill 50)
  let out ← (DoubleRatchet.encrypt symbolicApp.toCrypto (Payload.text [9]).encode
    session.ad zeroNonce read.2).1.toOption
  return Messenger.wireOf out

/-- The answer arrives, and the history is read. -/
def run : Option (DeviceConfig symbolicApp) :=
  sent.bind fun c => (reply c).bind fun wire =>
    (system symbolicApp chatOnly.calls).runCalls (TextRun.draws {}) c
      [.receiveMessage 0 (localSessionHandle symbolicApp (fill 3)) wire, .chatEntries 0 (fill 3)]

theorem reachable {c : DeviceConfig symbolicApp} (h : run = some c) : Reachable chatOnly c := by
  unfold run at h
  obtain ⟨c₁, h₁, h⟩ := Option.bind_eq_some_iff.mp h
  obtain ⟨wire, -, h⟩ := Option.bind_eq_some_iff.mp h
  have hr : Reachable chatOnly c₁ := by
    refine ⟨.empty, ?_⟩
    refine System.Reach.runCalls .refl (fun _ => rfl) (fun call hc => ?_) h₁
    simp only [List.mem_cons, List.not_mem_nil, or_false] at hc
    rcases hc with rfl | rfl | rfl | rfl <;> exact id
  refine ⟨.empty, System.Reach.runCalls hr.run (congrFun (System.runCalls_threads _ h₁)) ?_ h⟩
  intro call hc
  rcases List.mem_pair.mp hc with rfl | rfl <;> exact id

/-- The first entry of the history. -/
def received (c : DeviceConfig symbolicApp) : Option (Bytes × ChatEntryState) :=
  ((conversation c.shared.db.rows (fill 3)).log.entries 1).map fun e => (e.text, e.state)

theorem run_facts : run.map (fun c => decide (HandlesTell c.shared.db ∧
    received c = some ([9], .received))) = some true := by decide +kernel

end KeptRun

theorem texts_kept_text : ∃ c : DeviceConfig symbolicApp, Reachable KeptRun.chatOnly c ∧
    KeptRun.received c = some ([9], .received) ∧ TextsKept c.shared.db (fill 3) := by
  obtain ⟨c, hc, hfacts⟩ := Option.map_eq_some_iff.mp KeptRun.run_facts
  obtain ⟨hh, he⟩ := of_decide_eq_true hfacts
  have hr := KeptRun.reachable hc
  exact ⟨c, hr, he, texts_kept hr (fun _ h => h) hh (fill 3)⟩

end Network

end Arcium
