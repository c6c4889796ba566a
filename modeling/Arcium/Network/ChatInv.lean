import Arcium.Base.NumberedLog
import Arcium.Network.System

/-!
# The records of a conversation

`Conversation`: the entries as a numbered log, whose counter is in the meta record; the indexes
`chat-o` and `chat-i` by app id and by message id; and the ids that `send_text` claimed. Every
operation reads and writes in one transaction what these rest on, so they always fit together
(`Conversation.Ok`), and an entry is only moved forward (`Leads`), also by a call that decided on an
older copy of it.

* `ConversationStep`: what the transactions of a call do to a conversation.
* `conversation_ok`, `entries_lead`: what holds in every reachable state.
* `chat_kept`: the same of the rows themselves.
-/

namespace Arcium

open Conc

open Function (update)

/-! ## Conversations -/

structure Conversation where
  log : NumberedLog Entry
  /-- `chat-o`. -/
  sent : Bytes → Option Nat
  /-- `chat-i`. -/
  received : Bytes → Option Nat
  /-- `chat-r`. -/
  claims : Bytes → Option Unit

namespace Conversation

variable {c : Conversation} {e e' : Entry} {seq : Nat} {appId id : Bytes}

/-- `chat_send` records `e`. -/
def queue (c : Conversation) (e : Entry) : Conversation :=
  { c with log := c.log.append e, sent := update c.sent e.appId (some (c.log.last + 1)) }

/-- `record_incoming` records `e`. -/
def record (c : Conversation) (e : Entry) : Conversation :=
  { c with log := c.log.append e, received := update c.received e.messageId (some (c.log.last + 1)) }

/-- `advance` stores `e`. -/
def advance (c : Conversation) (seq : Nat) (e : Entry) : Conversation :=
  { c with log := c.log.set seq e }

/-- `claim_for_send_text`. -/
def claim (c : Conversation) (appId : Bytes) : Conversation :=
  { c with claims := update c.claims appId (some ()) }

theorem queue_sent (c : Conversation) (e : Entry) (appId : Bytes) : (c.queue e).sent appId =
    if appId = e.appId then some (c.log.last + 1) else c.sent appId := Function.update_apply ..

theorem record_received (c : Conversation) (e : Entry) (id : Bytes) : (c.record e).received id =
    if id = e.messageId then some (c.log.last + 1) else c.received id := Function.update_apply ..

theorem claim_claims (c : Conversation) (appId x : Bytes) : (c.claim appId).claims x =
    if x = appId then some () else c.claims x := Function.update_apply ..

/-- What `chat-o` finds an entry by. -/
def outKey (e : Entry) : Option Bytes := if e.outgoing then some e.appId else none

/-- What `chat-i` finds an entry by. -/
def inKey (e : Entry) : Option Bytes := if e.outgoing then none else some e.messageId

/-- The records of a conversation fit together. -/
structure Ok (c : Conversation) : Prop where
  dense : c.log.Dense
  own : ∀ seq e, c.log.entries seq = some e → e.seq = seq
  named : ∀ seq e, c.log.entries seq = some e → e.outgoing = false → e.messageId ≠ []
  sent : c.log.Indexes outKey c.sent
  received : c.log.Indexes inKey c.received
  /-- `chat_send` and `send_text` never both have an app id. -/
  exclusive : ∀ appId, c.sent appId = none ∨ c.claims appId = none

/-- Nothing was said. -/
theorem ok_new (he : ∀ seq, c.log.entries seq = none) (hl : c.log.last = 0)
    (hs : ∀ appId, c.sent appId = none) (hr : ∀ id, c.received id = none) : c.Ok where
  dense n := by
    rw [he, hl]
    simp only [Option.isSome_none, Bool.false_eq_true, false_iff]
    omega
  own seq e h := by rw [he] at h; cases h
  named seq e h := by rw [he] at h; cases h
  sent appId n := by simp [hs, he]
  received id n := by simp [hr, he]
  exclusive appId := .inl (hs appId)

theorem Ok.own_append (h : c.Ok) (hs : e.seq = c.log.last + 1) {e' : Entry}
    (he : (c.log.append e).entries seq = some e') : e'.seq = seq := by
  rcases NumberedLog.append_entries_cases he with ⟨rfl, rfl⟩ | ⟨-, he⟩
  · exact hs
  · exact h.own _ _ he

theorem Ok.named_append (h : c.Ok) (hn : e.outgoing = false → e.messageId ≠ []) {e' : Entry}
    (he : (c.log.append e).entries seq = some e') : e'.outgoing = false → e'.messageId ≠ [] := by
  rcases NumberedLog.append_entries_cases he with ⟨-, rfl⟩ | ⟨-, he⟩
  · exact hn
  · exact h.named _ _ he

theorem Ok.queue (h : c.Ok) (hs : e.seq = c.log.last + 1) (ho : e.outgoing = true)
    (noEntry : c.sent e.appId = none) (noClaim : c.claims e.appId = none) : (c.queue e).Ok where
  dense := h.dense.append e
  own _ _ he := h.own_append hs he
  named _ _ he := h.named_append (by simp [ho]) he
  sent := h.sent.append h.dense (by simp [outKey, ho]) noEntry
  received := h.received.append_other h.dense (by simp [inKey, ho])
  exclusive appId := by
    by_cases ha : appId = e.appId
    · exact .inr (ha ▸ noClaim)
    · exact (h.exclusive appId).imp_left fun hn => (Function.update_of_ne ha ..).trans hn

theorem Ok.record (h : c.Ok) (hs : e.seq = c.log.last + 1) (ho : e.outgoing = false)
    (hn : e.messageId ≠ []) (noIndex : c.received e.messageId = none) : (c.record e).Ok where
  dense := h.dense.append e
  own _ _ he := h.own_append hs he
  named _ _ he := h.named_append (fun _ => hn) he
  sent := h.sent.append_other h.dense (by simp [outKey, ho])
  received := h.received.append h.dense (by simp [inKey, ho]) noIndex
  exclusive := h.exclusive

theorem Ok.claim (h : c.Ok) (noEntry : c.sent appId = none) : (c.claim appId).Ok where
  dense := h.dense
  own := h.own
  named := h.named
  sent := h.sent
  received := h.received
  exclusive appId' := by
    by_cases ha : appId' = appId
    · exact .inl (ha ▸ noEntry)
    · exact (h.exclusive appId').imp_right fun hn => (Function.update_of_ne ha ..).trans hn

/-! ## Entries over time -/

/-- `e'` is `e` later. -/
structure Leads (e e' : Entry) : Prop where
  seq : e'.seq = e.seq
  outgoing : e'.outgoing = e.outgoing
  atMs : e'.atMs = e.atMs
  appId : e'.appId = e.appId
  text : e'.text = e.text
  /-- A message id stays. -/
  messageId : e.messageId ≠ [] → e'.messageId = e.messageId
  state : e'.state = e.state ∨ Chat.forward e.state e'.state = true

theorem forward_trans {a b c : ChatEntryState} (h : Chat.forward a b = true)
    (h' : Chat.forward b c = true) : Chat.forward a c = true := by
  revert a b c
  intro a b c
  cases a <;> cases b <;> cases c <;> simp [Chat.forward]

theorem Leads.refl (e : Entry) : Leads e e := ⟨rfl, rfl, rfl, rfl, rfl, fun _ => rfl, .inl rfl⟩

theorem Leads.trans {e'' : Entry} (h : Leads e e') (h' : Leads e' e'') : Leads e e'' where
  seq := h'.seq.trans h.seq
  outgoing := h'.outgoing.trans h.outgoing
  atMs := h'.atMs.trans h.atMs
  appId := h'.appId.trans h.appId
  text := h'.text.trans h.text
  messageId hn := by
    have heq := h.messageId hn
    exact (h'.messageId (heq ▸ hn)).trans heq
  state := by
    rcases h.state with hs | hs <;> rcases h'.state with hs' | hs'
    · exact .inl (hs'.trans hs)
    · exact .inr (hs ▸ hs')
    · exact .inr (hs' ▸ hs)
    · exact .inr (forward_trans hs hs')

/-- What `advance` stores. -/
theorem advanced_eq {state : ChatEntryState} {messageId : Option MessageId}
    (h : Chat.advanced e state messageId = some e') :
    e' = { e with
      state := if Chat.forward e.state state then state else e.state
      messageId := e'.messageId } ∧
    (e'.messageId = e.messageId ∨
      e.messageId = [] ∧ ∃ id, messageId = some id ∧ e'.messageId = id.val) := by
  unfold Chat.advanced at h
  dsimp only at h
  by_cases he : e.messageId.isEmpty = true
  · rw [if_pos he] at h
    split at h
    · cases h
    obtain rfl := Option.some.inj h
    cases messageId with
    | none => exact ⟨rfl, .inl rfl⟩
    | some id => exact ⟨rfl, .inr ⟨by simpa using he, id, rfl, rfl⟩⟩
  · rw [if_neg he] at h
    split at h
    · cases h
    obtain rfl := Option.some.inj h
    exact ⟨rfl, .inl rfl⟩

/-- `advance` moves an entry forward. -/
theorem leads_of_advanced {state : ChatEntryState} {messageId : Option MessageId}
    (h : Chat.advanced e state messageId = some e') : Leads e e' := by
  obtain ⟨heq, hid⟩ := advanced_eq h
  rw [heq]
  refine ⟨rfl, rfl, rfl, rfl, rfl, fun hn => ?_, ?_⟩
  · rcases hid with hid | ⟨he, -⟩
    · exact hid
    · exact absurd he hn
  · dsimp only
    split
    · exact .inr ‹_›
    · exact .inl rfl

theorem Ok.advance {state : ChatEntryState} {messageId : Option MessageId} (h : c.Ok)
    (stored : c.log.entries seq = some e) (hadv : Chat.advanced e state messageId = some e') : (c.advance seq e').Ok := by
  have hl := leads_of_advanced hadv
  have named := h.named _ _ stored
  refine ⟨h.dense.set (by rw [stored]; rfl) e', fun n e₁ he => ?_, fun n e₁ he ho => ?_,
    h.sent.set stored ?_, h.received.set stored ?_, h.exclusive⟩
  · rcases NumberedLog.set_entries_cases he with ⟨rfl, rfl⟩ | ⟨-, he⟩
    · exact hl.seq.trans (h.own _ _ stored)
    · exact h.own _ _ he
  · rcases NumberedLog.set_entries_cases he with ⟨rfl, rfl⟩ | ⟨-, he⟩
    · have hn := named (hl.outgoing ▸ ho)
      rw [hl.messageId hn]
      exact hn
    · exact h.named _ _ he ho
  · unfold outKey
    rw [hl.outgoing, hl.appId]
  · unfold inKey
    rw [hl.outgoing]
    cases ho : e.outgoing with
    | true => rfl
    | false => rw [hl.messageId (named ho)]

end Conversation

namespace Network

variable {P : AppPlatform} {scope : Scope P} {call : Call} {db : Db P.Key} {rows : Rows P.Key}

/-! ## Conversations in the database -/

/-- The conversation with `peer`. -/
def conversation (rows : Rows P.Key) (peer : Peer) : Conversation where
  log :=
    { entries := fun seq => rows.lookup (Key.chatEntry peer seq)
      last := (metaAt rows peer).lastSeq }
  sent appId := rows.lookup (Key.chatOut peer appId)
  received id := rows.lookup (Key.chatIn peer id)
  claims appId := rows.lookup (Key.chatRaw peer appId)

/-- The conversation that a record belongs to. -/
def chatPeer : Key → Option Peer
  | .chatMeta p | .chatEntry p _ | .chatOut p _ | .chatRaw p _ | .chatIn p _ => some p
  | _ => none

theorem conversation_congr {rows' : Rows P.Key} {peer : Peer}
    (h : ∀ k, chatPeer k = some peer → rows'.lookup k = rows.lookup k) :
    conversation rows' peer = conversation rows peer := by
  unfold conversation metaAt
  rw [h (.chatMeta peer) rfl, funext fun seq => h (.chatEntry peer seq) rfl,
    funext fun appId => h (.chatOut peer appId) rfl, funext fun id => h (.chatIn peer id) rfl,
    funext fun appId => h (.chatRaw peer appId) rfl]

/-- A transaction that writes no record of a conversation leaves it as it is. -/
theorem conversation_same {cs : List (Change P.Key)} {peer : Peer} (heq : rows = db.rows.applyAll cs)
    (h : ∀ c ∈ cs, chatPeer c.key ≠ some peer) :
    conversation rows peer = conversation db.rows peer :=
  conversation_congr fun k hk => by
    rw [heq, Rows.lookup_applyAll_ne]
    rintro c hc rfl
    exact h c hc hk

/-- What a transaction of `call` does to the conversation with `peer`, if it changes it. -/
inductive ConversationStep (call : Call) (db : Db P.Key) (peer : Peer) : Conversation → Prop
  | advanced (seq : Nat) (state : ChatEntryState) (messageId : Option MessageId) (e e' : Entry)
      (stored : (conversation db.rows peer).log.entries seq = some e)
      (h : Chat.advanced e state messageId = some e')
      (why : AdvanceWhy call db peer seq state messageId) :
      ConversationStep call db peer ((conversation db.rows peer).advance seq e')
  | received (called : call.Refreshes peer) (m : IncomingMessage) (text : Bytes) (now : UInt64)
      (accepted : AcceptedFrom db (localSessionHandle P peer) m)
      (payload : Payload.decode m.plaintext = some (.text text))
      (noIndex : (conversation db.rows peer).received m.messageId.val = none) :
      ConversationStep call db peer ((conversation db.rows peer).record
        { seq := (conversation db.rows peer).log.last + 1, outgoing := false, state := .received
          atMs := now, appId := [], messageId := m.messageId.val, text })
  | claimed (i : Nat) (appId text : Bytes) (called : call = .sendText i peer appId text)
      (noEntry : (conversation db.rows peer).sent appId = none) :
      ConversationStep call db peer ((conversation db.rows peer).claim appId)
  | queued (i : Nat) (appId text : Bytes) (now : UInt64) (called : call = .chatSend i peer appId text)
      (noEntry : (conversation db.rows peer).sent appId = none)
      (noClaim : (conversation db.rows peer).claims appId = none) :
      ConversationStep call db peer ((conversation db.rows peer).queue
        { seq := (conversation db.rows peer).log.last + 1, outgoing := true, state := .queued
          atMs := now, appId, messageId := [], text })

theorem conversation_eq {peer : Peer} {c : Conversation}
    (hl : (metaAt rows peer).lastSeq = c.log.last)
    (he : ∀ seq, rows.lookup (.chatEntry peer seq) = c.log.entries seq)
    (hs : ∀ appId, rows.lookup (.chatOut peer appId) = c.sent appId)
    (hr : ∀ id, rows.lookup (.chatIn peer id) = c.received id)
    (hc : ∀ appId, rows.lookup (.chatRaw peer appId) = c.claims appId) :
    conversation rows peer = c := by
  unfold conversation
  rw [hl, funext he, funext hs, funext hr, funext hc]

theorem lookup_entry_update {peer : Peer} {n : Nat} {e : Entry}
    (hn : rows.lookup (.chatEntry peer n) = some e)
    (hne : ∀ seq, seq ≠ n → rows.lookup (.chatEntry peer seq) = db.rows.lookup (.chatEntry peer seq))
    (seq : Nat) : rows.lookup (.chatEntry peer seq) =
      update (conversation db.rows peer).log.entries n (some e) seq := by
  by_cases h : seq = n
  · rw [h, Function.update_self]
    exact hn
  · rw [Function.update_of_ne h]
    exact hne seq h

/-- Other conversations stay. -/
theorem ChatTx.steps (h : ChatTx call db rows) (peer : Peer) :
    conversation rows peer = conversation db.rows peer ∨
      ConversationStep call db peer (conversation rows peer) := by
  -- A transaction of the conversation with `p` is about `p` only.
  have other : ∀ {p : Peer} {cs : List (Change P.Key)}, p ≠ peer → rows = db.rows.applyAll cs →
      (∀ c ∈ cs, chatPeer c.key = some p) → conversation rows peer = conversation db.rows peer := by
    intro p cs hp heq hcs
    exact conversation_same heq fun c hc h => hp (Option.some.inj ((hcs c hc).symm.trans h))
  cases h with
  | described p called f keeps short eq =>
    by_cases hp : p = peer
    · subst hp
      refine .inl (conversation_eq ?_ ?_ ?_ ?_ ?_)
      · have hm : rows.lookup (.chatMeta p) = some (f (metaAt db.rows p)) := by
          rw [eq]
          exact Rows.lookup_applyAll_head _ _ (by simp)
        simp only [metaAt, hm, Option.getD_some]
        exact keeps _
      all_goals
        intro x
        rw [eq, Rows.lookup_applyAll_ne _ (by simp)]
        rfl
    · exact .inl (other hp eq (by simp [chatPeer]))
  | advanced p seq state messageId e e' stored h why eq =>
    by_cases hp : p = peer
    · subst hp
      right
      have hconv : conversation rows p = (conversation db.rows p).advance seq e' := by
        refine conversation_eq ?_ (fun n => lookup_entry_update ?_ (fun n hn => ?_) n) ?_ ?_ ?_
        · unfold metaAt
          rw [eq, Rows.lookup_applyAll_ne _ (by simp)]
          rfl
        · rw [eq]
          exact Rows.lookup_applyAll_head _ _ (by simp)
        · rw [eq, Rows.lookup_applyAll_ne _ (by simpa using hn)]
        all_goals
          intro x
          rw [eq, Rows.lookup_applyAll_ne _ (by simp)]
          rfl
      rw [hconv]
      exact .advanced seq state messageId e e' stored h why
    · exact .inl (other hp eq (by simp [chatPeer]))
  | received p called m text now accepted payload noIndex eq =>
    by_cases hp : p = peer
    · subst hp
      right
      have hconv : conversation rows p = (conversation db.rows p).record
          { seq := (conversation db.rows p).log.last + 1, outgoing := false, state := .received
            atMs := now, appId := [], messageId := m.messageId.val, text } := by
        refine conversation_eq ?_ (fun n => lookup_entry_update ?_ (fun n hn => ?_) n) (fun x => ?_)
          (fun id => ?_) fun x => ?_
        · unfold metaAt
          rw [eq, Rows.applyAll_cons, Rows.applyAll_cons, Rows.lookup_applyAll_head _ _ (by simp)]
          rfl
        · rw [eq]
          exact Rows.lookup_applyAll_head _ _ (by simp)
        · have hn' : n ≠ (metaAt db.rows p).lastSeq + 1 := hn
          rw [eq, Rows.lookup_applyAll_ne _ (by simpa using hn')]
        · rw [eq, Rows.lookup_applyAll_ne _ (by simp)]
          rfl
        · by_cases hid : id = m.messageId.val
          · rw [hid, eq, Rows.applyAll_cons, Rows.lookup_applyAll_head _ _ (by simp),
              Conversation.record_received, if_pos rfl]
            rfl
          · rw [eq, Rows.lookup_applyAll_ne _ (by simpa using hid), Conversation.record_received,
              if_neg hid]
            rfl
        · rw [eq, Rows.lookup_applyAll_ne _ (by simp)]
          rfl
      rw [hconv]
      exact .received called m text now accepted payload noIndex
    · exact .inl (other hp eq (by simp [chatPeer]))
  | claimed i p appId text called noEntry eq =>
    by_cases hp : p = peer
    · subst hp
      right
      have hconv : conversation rows p = (conversation db.rows p).claim appId := by
        refine conversation_eq ?_ (fun n => ?_) (fun x => ?_) (fun x => ?_) fun x => ?_
        · unfold metaAt
          rw [eq, Rows.lookup_applyAll_ne _ (by simp)]
          rfl
        iterate 3
          · rw [eq, Rows.lookup_applyAll_ne _ (by simp)]
            rfl
        · by_cases hx : x = appId
          · rw [hx, eq, Rows.lookup_applyAll_head _ _ (by simp), Conversation.claim_claims, if_pos rfl]
            rfl
          · rw [eq, Rows.lookup_applyAll_ne _ (by simpa using hx), Conversation.claim_claims, if_neg hx]
            rfl
      rw [hconv]
      exact .claimed i appId text called noEntry
    · exact .inl (other hp eq (by simp [chatPeer]))
  | queued i p appId text now called validId noEntry noClaim eq =>
    by_cases hp : p = peer
    · subst hp
      right
      have hconv : conversation rows p = (conversation db.rows p).queue
          { seq := (conversation db.rows p).log.last + 1, outgoing := true, state := .queued
            atMs := now, appId, messageId := [], text } := by
        refine conversation_eq ?_ (fun n => lookup_entry_update ?_ (fun n hn => ?_) n) (fun x => ?_)
          (fun x => ?_) fun x => ?_
        · unfold metaAt
          rw [eq, Rows.applyAll_cons, Rows.applyAll_cons, Rows.lookup_applyAll_head _ _ (by simp)]
          rfl
        · rw [eq]
          exact Rows.lookup_applyAll_head _ _ (by simp)
        · have hn' : n ≠ (metaAt db.rows p).lastSeq + 1 := hn
          rw [eq, Rows.lookup_applyAll_ne _ (by simpa using hn')]
        · by_cases hx : x = appId
          · rw [hx, eq, Rows.applyAll_cons, Rows.lookup_applyAll_head _ _ (by simp),
              Conversation.queue_sent, if_pos rfl]
            rfl
          · rw [eq, Rows.lookup_applyAll_ne _ (by simpa using hx), Conversation.queue_sent, if_neg hx]
            rfl
        iterate 2
          · rw [eq, Rows.lookup_applyAll_ne _ (by simp)]
            rfl
      rw [hconv]
      exact .queued i appId text now called noEntry noClaim
    · exact .inl (other hp eq (by simp [chatPeer]))

theorem isMessenger_of_chatPeer {k : Key} {peer : Peer} (h : chatPeer k = some peer) :
    k.isMessenger = false := by
  cases k <;> first | rfl | cases h

theorem Trans.conversation (h : Trans scope db rows) (peer : Peer) :
    conversation rows peer = conversation db.rows peer ∨
      ∃ call, scope.calls call ∧ ConversationStep call db peer (conversation rows peer) := by
  cases h with
  | legacy _ our _ handle rec h =>
    exact .inl (conversation_congr fun k hk => h.app (isMessenger_of_chatPeer hk))
  | call call hc h =>
    cases h.app with
    | same h => exact .inl (conversation_congr fun k hk => h k (isMessenger_of_chatPeer hk))
    | identity _ h => exact .inl (conversation_same h.eq (by simp [chatPeer]))
    | prekeys _ _ _ _ h => exact .inl (conversation_same h.eq (by simp [chatPeer]))
    | contact _ h => exact .inl (conversation_same h.eq (by simp [chatPeer]))
    | consumed _ _ _ _ _ _ _ _ _ _ _ _ _ after =>
      refine .inl (conversation_congr fun k hk => ?_)
      rw [after k (isMessenger_of_chatPeer hk), Rows.lookup_applyAll_ne]
      simp only [List.mem_singleton, forall_eq]
      rintro rfl
      cases hk
    | chat h => exact (h.steps peer).imp_right fun h => ⟨call, hc, h⟩

/-! ## What holds in every state -/

theorem messageId_ne_nil (id : MessageId) : id.val ≠ [] := by
  intro h
  have hlen := id.property
  rw [h] at hlen
  cases hlen

theorem ConversationStep.ok {peer : Peer} {c : Conversation} (h : ConversationStep call db peer c)
    (hok : (conversation db.rows peer).Ok) : c.Ok := by
  cases h with
  | advanced seq state messageId e e' stored h why => exact hok.advance stored h
  | received called m text now accepted payload noIndex =>
    exact hok.record rfl rfl (messageId_ne_nil _) noIndex
  | claimed i appId text called noEntry => exact hok.claim noEntry
  | queued i appId text now called noEntry noClaim => exact hok.queue rfl rfl noEntry noClaim

/-- An entry is there later, moved forward. -/
theorem ConversationStep.leads {peer : Peer} {c : Conversation} (h : ConversationStep call db peer c)
    (hok : (conversation db.rows peer).Ok) {seq : Nat} {e : Entry}
    (he : (conversation db.rows peer).log.entries seq = some e) :
    ∃ e', c.log.entries seq = some e' ∧ Conversation.Leads e e' := by
  have hne : seq ≠ (conversation db.rows peer).log.last + 1 := by
    rintro rfl
    rw [hok.dense.next] at he
    cases he
  cases h with
  | advanced n state messageId e₀ e' stored h why =>
    by_cases hs : seq = n
    · subst hs
      obtain rfl := Option.some.inj (he.symm.trans stored)
      exact ⟨e', NumberedLog.set_entries_self .., Conversation.leads_of_advanced h⟩
    · exact ⟨e, (NumberedLog.set_entries_ne _ hs).trans he, .refl e⟩
  | received called m text now accepted payload noIndex =>
    exact ⟨e, (NumberedLog.append_entries_ne _ hne).trans he, .refl e⟩
  | claimed i appId text called noEntry => exact ⟨e, he, .refl e⟩
  | queued i appId text now called noEntry noClaim =>
    exact ⟨e, (NumberedLog.append_entries_ne _ hne).trans he, .refl e⟩

theorem conversation_ok (hv : db.Valid (Trans scope)) (peer : Peer) :
    (conversation db.rows peer).Ok := by
  induction hv with
  | empty => exact Conversation.ok_new (fun _ => rfl) rfl (fun _ => rfl) fun _ => rfl
  | push hv ht ih =>
    rcases ht.conversation peer with heq | ⟨call, -, h⟩
    · exact heq ▸ ih
    · exact h.ok ih

/-- An entry is there ever after, moved forward. -/
theorem entries_lead (hv : db.Valid (Trans scope)) {db₀ : Db P.Key} (hle : db₀.Le db) {peer : Peer}
    {seq : Nat} {e : Entry} (he : (conversation db₀.rows peer).log.entries seq = some e) :
    ∃ e', (conversation db.rows peer).log.entries seq = some e' ∧ Conversation.Leads e e' := by
  refine hv.stable (P := fun db => ∃ e', (conversation db.rows peer).log.entries seq = some e' ∧
    Conversation.Leads e e') (fun db₁ rows₁ hv₁ ht h => ?_) hle ⟨e, he, .refl e⟩
  obtain ⟨e', he', hl⟩ := h
  rw [Db.push_rows]
  rcases ht.conversation peer with heq | ⟨call, -, hc⟩
  · exact ⟨e', heq ▸ he', hl⟩
  · obtain ⟨e'', he'', hl'⟩ := hc.leads (conversation_ok hv₁ peer) he'
    exact ⟨e'', he'', hl.trans hl'⟩

/-! ## Message ids -/

/-- The send record under which the text of `e` was sent on the session of the handle names `e`'s
message id. -/
def Linked (db : Db P.Key) (peer : Peer) (e : Entry) : Prop :=
  ∃ q r, Named db (localSessionHandle P peer) q ∧
    db.rows.lookup (.sendid q (ClientId.text e.appId)) = some r ∧ r.id.val = e.messageId

theorem sendid_kept (hv : db.Valid (Trans scope)) {db₀ : Db P.Key} (hle : db₀.Le db) {q : Peer}
    {cid : Bytes} {r : SendRecord} (hr : db₀.rows.lookup (.sendid q cid) = some r) :
    ∃ r', db.rows.lookup (.sendid q cid) = some r' ∧ r'.id = r.id := by
  obtain ⟨our, -, hm⟩ := exists_our hv
  exact Messenger.sendid_stable hm hle hr

theorem Linked.mono (hv : db.Valid (Trans scope)) {db₀ : Db P.Key} (hle : db₀.Le db) {peer : Peer}
    {e : Entry} (h : Linked db₀ peer e) : Linked db peer e := by
  obtain ⟨q, r, hn, hr, hid⟩ := h
  obtain ⟨r', hr', hid'⟩ := sendid_kept hv hle hr
  exact ⟨q, r', hn.mono hle, hr', hid'.symm ▸ hid⟩

/-- The id that `send_text` reported for an entry is the one in its send record. -/
theorem AdvanceWhy.linked (hv : db.Valid (Trans scope)) {peer : Peer} {seq : Nat}
    {state : ChatEntryState} {id : MessageId} {e : Entry}
    (stored : (conversation db.rows peer).log.entries seq = some e)
    (h : AdvanceWhy call db peer seq state (some id)) :
    ∃ q r, Named db (localSessionHandle P peer) q ∧
      db.rows.lookup (.sendid q (ClientId.text e.appId)) = some r ∧ r.id = id := by
  cases h with
  | sent called key e₀ s stored₀ same outgoing outcome =>
    -- The copy that the caller decided on is an older state of this entry.
    obtain ⟨db₀, hle, h₀⟩ := stored₀.at
    have hkey := (conversation_ok (hv.le hle) peer).own key e₀ h₀
    obtain rfl : key = seq := hkey.symm.trans same
    obtain ⟨e₁, h₁, hl⟩ := entries_lead hv hle h₀
    obtain rfl := Option.some.inj (h₁.symm.trans stored)
    obtain ⟨q, o, hn, rfl, ho⟩ := outcome
    rw [hl.appId]
    refine ⟨q, ?_⟩
    rcases ho with ⟨m, rfl, hm, hc⟩ | ⟨db₁, hle₁, ho⟩
    · obtain ⟨our, -, hmv⟩ := exists_our hv
      obtain ⟨r, hr, hid⟩ := (Messenger.messagesOk hmv).ever_sendid q _ m hm
      exact ⟨r, hn, hc ▸ hr, hid⟩
    · cases ho with
      | pending id m sent outbox wire =>
        obtain ⟨our, -, hmv⟩ := exists_our (hv.le hle₁)
        obtain ⟨rfl, -⟩ := (Messenger.messagesOk hmv).outbox_id q id m (Db.ever_now outbox)
        obtain ⟨r, hr, hid⟩ := sendid_kept hv hle₁ sent
        exact ⟨r, hn, hr, hid⟩
      | acknowledged id sent outbox =>
        obtain ⟨r, hr, hid⟩ := sendid_kept hv hle₁ sent
        exact ⟨r, hn, hr, hid⟩
      | abandoned id abandoned =>
        obtain ⟨r, hr, hid⟩ := sendid_kept hv hle₁ abandoned
        exact ⟨r, hn, hr, hid⟩

theorem linked (hv : db.Valid (Trans scope)) {peer : Peer} {seq : Nat} {e : Entry}
    (he : (conversation db.rows peer).log.entries seq = some e) (ho : e.outgoing = true)
    (hid : e.messageId ≠ []) : Linked db peer e := by
  induction hv generalizing e with
  | empty => cases he
  | @push db rows hv ht ih =>
    have hv' := hv.push ht
    have hle := Db.le_push db rows
    rw [Db.push_rows] at he
    rcases ht.conversation peer with heq | ⟨call, -, hc⟩
    · rw [heq] at he
      exact (ih he ho hid).mono hv' hle
    · generalize hconv : conversation rows peer = c at he hc
      cases hc with
      | advanced n state messageId e₀ e' stored h why =>
        rcases NumberedLog.set_entries_cases he with ⟨rfl, rfl⟩ | ⟨-, he⟩
        · obtain ⟨heq, hmid⟩ := Conversation.advanced_eq h
          have happ : e.appId = e₀.appId := by rw [heq]
          rcases hmid with hmid | ⟨-, id, rfl, hmid⟩
          · have hout : e.outgoing = e₀.outgoing := by rw [heq]
            obtain ⟨q, r, hn, hr, hq⟩ := (ih stored (hout ▸ ho) (hmid ▸ hid)).mono hv' hle
            exact ⟨q, r, hn, happ ▸ hr, hq.trans hmid.symm⟩
          · obtain ⟨q, r, hn, hr, hq⟩ := why.linked hv stored
            obtain ⟨r', hr', hid'⟩ := sendid_kept hv' hle hr
            exact ⟨q, r', hn.mono hle, happ ▸ hr', by rw [hid', hq, hmid]⟩
        · exact (ih he ho hid).mono hv' hle
      | received called m text now accepted payload noIndex =>
        rcases NumberedLog.append_entries_cases he with ⟨-, rfl⟩ | ⟨-, he⟩
        · cases ho
        · exact (ih he ho hid).mono hv' hle
      | claimed i appId text called noEntry => exact (ih he ho hid).mono hv' hle
      | queued i appId text now called noEntry noClaim =>
        rcases NumberedLog.append_entries_cases he with ⟨-, rfl⟩ | ⟨-, he⟩
        · exact absurd rfl hid
        · exact (ih he ho hid).mono hv' hle

/-- What holds of the conversation with `peer` in every state. -/
structure ChatKeeps (db : Db P.Key) (peer : Peer) : Prop where
  ok : (conversation db.rows peer).Ok
  /-- Entries stay, and only move forward. -/
  kept : ∀ db₀ : Db P.Key, db₀.Le db → ∀ seq e, (conversation db₀.rows peer).log.entries seq = some e →
    ∃ e', (conversation db.rows peer).log.entries seq = some e' ∧ Conversation.Leads e e'
  linked : ∀ seq e, (conversation db.rows peer).log.entries seq = some e → e.outgoing = true →
    e.messageId ≠ [] → Linked db peer e

/-- **The records of a conversation fit together** in every reachable state, and what is said is not
changed later. -/
theorem chat_kept {c : DeviceConfig P} (h : Reachable scope c) (peer : Peer) :
    ChatKeeps c.shared.db peer where
  ok := conversation_ok h.valid peer
  kept _ hle _ _ he := entries_lead h.valid hle he
  linked _ _ he ho hid := linked h.valid he ho hid

/-! ## A text that waits for a session -/

namespace OneText

/-- The card of a peer. -/
def card : Bytes := 0x01 :: ((fill 3).val ++ (fill 4).val)

def anything : Scope symbolicApp where
  calls _ := True

/-- An identity, a contact and a text to it. -/
def run : Option (DeviceConfig symbolicApp) :=
  (system symbolicApp anything.calls).runCalls (List.replicate 24 {})
    (Config.init ⟨anything.start, fun _ => {}, []⟩)
    [.saveIdentity ⟨fill 1, fill 2⟩, .addContact card, .chatSend 0 (fill 3) [7] [8]]

def texts (c : DeviceConfig symbolicApp) : Option Entry :=
  (conversation c.shared.db.rows (fill 3)).log.entries 1

theorem texts_run : run.map texts = some (some
    { seq := 1, outgoing := true, state := .queued, atMs := 0, appId := [7], messageId := []
      text := [8] }) := by decide +kernel

theorem reachable {c : DeviceConfig symbolicApp} (h : run = some c) : Reachable anything c :=
  ⟨.empty, System.Reach.runCalls .refl (fun _ => rfl) (fun _ _ => trivial) h⟩

end OneText

theorem chat_kept_text : ∃ c : DeviceConfig symbolicApp, Reachable OneText.anything c ∧
    (OneText.texts c).isSome ∧ ChatKeeps c.shared.db (fill 3) := by
  obtain ⟨c, hc, htexts⟩ := Option.map_eq_some_iff.mp OneText.texts_run
  exact ⟨c, OneText.reachable hc, by rw [htexts]; rfl, chat_kept (OneText.reachable hc) (fill 3)⟩

end Network

end Arcium
