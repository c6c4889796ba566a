import Arcium.Protocol.Obligations
import Mathlib.Logic.Relation

/-!
# What became of a logical message

The status of a logical message is not stored: `read_prior_send` derives it from the send record and
the presence of the outbox record, read in one transaction. `StatusStep` lists what one transaction
can do to it, and `Status.Next` are the arrows that are left:

    new → pending → acknowledged
                  → abandoned

`send_status`: every report is the status at a time during its call, statuses move along the arrows
only, and the two ends are exclusive.
-/

namespace Arcium

open Conc

namespace Messenger

variable {P : Platform} {our : Bytes32} {db db' : Db P.Key} {rows : Rows P.Key}

/-- What `prior_send` reports of a logical message. -/
inductive Status where
  /-- `None`. -/
  | new
  | pending
  | acknowledged
  | abandoned
  deriving DecidableEq, Repr

/-- The arrows. -/
inductive Status.Next : Status → Status → Prop
  | sent : Next new pending
  | acknowledged : Next pending acknowledged
  | abandoned : Next pending abandoned

/-- Any number of arrows. -/
abbrev Status.Leads : Status → Status → Prop := Relation.ReflTransGen Status.Next

theorem Status.Leads.of_acknowledged {s : Status} (h : Leads .acknowledged s) : s = .acknowledged := by
  cases h.cases_head with
  | inl h => exact h.symm
  | inr h =>
    obtain ⟨_, hn, -⟩ := h
    cases hn

theorem Status.Leads.of_abandoned {s : Status} (h : Leads .abandoned s) : s = .abandoned := by
  cases h.cases_head with
  | inl h => exact h.symm
  | inr h =>
    obtain ⟨_, hn, -⟩ := h
    cases hn

/-- The status that an answer reports. -/
def statusOf : Option SendOutcome → Status
  | none => .new
  | some (.sent _) | some (.alreadyPending _) => .pending
  | some (.alreadyAcknowledged _) => .acknowledged
  | some (.abandoned _) => .abandoned

/-- The status that a send record and the outbox say. -/
def statusFrom (record : Option SendRecord) (inOutbox : MessageId → Bool) : Status :=
  match record with
  | none => .new
  | some (.abandoned _) => .abandoned
  | some (.sent id) => if inOutbox id then .pending else .acknowledged

/-- The status of the logical message `clientId` to `p`. -/
def statusAt (rows : Rows P.Key) (p : Peer) (clientId : Bytes) : Status :=
  statusFrom (rows.lookup (Key.sendid p clientId)) fun id =>
    (rows.lookup (Key.outbox p id)).isSome

section StatusAt

variable {p : Peer} {cid : Bytes} {id : MessageId}

theorem statusAt_new (h : rows.lookup (.sendid p cid) = none) : statusAt rows p cid = .new := by
  unfold statusAt
  rw [h]
  rfl

theorem statusAt_abandoned (h : rows.lookup (.sendid p cid) = some (.abandoned id)) :
    statusAt rows p cid = .abandoned := by
  unfold statusAt
  rw [h]
  rfl

theorem statusAt_pending {m : OutgoingMessage} (hs : rows.lookup (.sendid p cid) = some (.sent id))
    (ho : rows.lookup (.outbox p id) = some m) : statusAt rows p cid = .pending := by
  unfold statusAt
  rw [hs]
  simp only [statusFrom, ho]
  rfl

theorem statusAt_acknowledged (hs : rows.lookup (.sendid p cid) = some (.sent id))
    (ho : rows.lookup (.outbox p id) = none) : statusAt rows p cid = .acknowledged := by
  unfold statusAt
  rw [hs]
  simp only [statusFrom, ho]
  rfl

/-- The status depends on the send record and on whether its message is in the outbox. -/
theorem statusAt_congr {rows' : Rows P.Key}
    (hs : rows'.lookup (.sendid p cid) = rows.lookup (.sendid p cid))
    (ho : ∀ id, rows.lookup (.sendid p cid) = some (.sent id) →
      rows'.lookup (.outbox p id) = rows.lookup (.outbox p id)) :
    statusAt rows' p cid = statusAt rows p cid := by
  unfold statusAt
  rw [hs]
  cases hr : rows.lookup (.sendid p cid) with
  | none => rfl
  | some r =>
    cases r with
    | abandoned id => rfl
    | sent id => simp only [statusFrom, ho id hr]

end StatusAt

theorem PriorAt.status {p : Peer} {cid : Bytes} {o : SendOutcome} (h : PriorAt rows p cid o) :
    statusAt rows p cid = statusOf (some o) := by
  cases h with
  | pending id m sent outbox wire => exact statusAt_pending sent outbox
  | acknowledged id sent outbox => exact statusAt_acknowledged sent outbox
  | abandoned id h => exact statusAt_abandoned h

/-! ## One message, one id -/

/-- A send record names a message that was stored for it. -/
theorem ever_of_sendid (h : db.Valid (Trans our)) {p : Peer} {cid : Bytes} {r : SendRecord}
    (hr : db.rows.lookup (.sendid p cid) = some r) :
    ∃ m : OutgoingMessage, db.Ever (.outbox p r.id) m ∧ m.clientMessageId = cid := by
  induction h with
  | empty => cases hr
  | @push db rows hv ht ih =>
    have kept : rows.lookup (.sendid p cid) = db.rows.lookup (.sendid p cid) →
        ∃ m : OutgoingMessage, (db.push rows).Ever (.outbox p r.id) m ∧ m.clientMessageId = cid := by
      intro hk
      obtain ⟨m, hm, hc⟩ := ih (hk.symm.trans hr)
      exact ⟨m, hm.mono (Db.le_push _ _), hc⟩
    cases ht.messages with
    | same after => exact kept (after.ne rfl (by simp))
    | accepted peer m₀ noInbox noSeen after => exact kept (after.ne rfl (by simp))
    | acknowledgedOut peer i after => exact kept (after.ne rfl (by simp))
    | acknowledgedIn peer i m₀ stored after => exact kept (after.ne rfl (by simp))
    | sent peer m₀ wire noOutbox noSendid after =>
      by_cases hk : Key.sendid p cid = .sendid peer m₀.clientMessageId
      · cases hk
        obtain rfl := Option.some.inj (hr.symm.trans (after.snd rfl))
        exact ⟨m₀, Db.ever_push.mpr (.inl (after.head rfl (by simp))), rfl⟩
      · exact kept (after.ne rfl (by simpa using hk))
    | abandoned peer i m₀ stored after =>
      by_cases hk : Key.sendid p cid = .sendid peer m₀.clientMessageId
      · cases hk
        obtain rfl := Option.some.inj (hr.symm.trans (after.snd rfl))
        exact ⟨m₀, Db.ever_push.mpr (.inr (Db.ever_now stored)), rfl⟩
      · exact kept (after.ne rfl (by simpa using hk))

/-- An id is the id of one message, for one peer. -/
theorem outbox_unique (h : db.Valid (Trans our)) (hcf : CollisionFree db) (hf : FreshKeys db)
    {p p' : Peer} {id : MessageId} {m m' : OutgoingMessage} (hm : db.Ever (.outbox p id) m)
    (hm' : db.Ever (.outbox p' id) m') : p = p' ∧ m = m' := by
  obtain ⟨db₀, rows₀, handle, cid, pt, q, old, new, -, hs⟩ := sentIn_of_ever h hm
  obtain ⟨header, hh, -, -⟩ := hs.position
  have hw : m.wire = m'.wire := hcf.wires p p' id id m m' hm hm'
    (((messagesOk h).outbox_id p id m hm).2.trans ((messagesOk h).outbox_id p' id m' hm').2.symm)
  have hh' : HasHeader m' header := by
    obtain ⟨ciphertext, hc⟩ := hh
    exact ⟨ciphertext, hw ▸ hc⟩
  exact (chainsOk h hcf hf).unique p p' id id m m' header header hm hm' hh hh' rfl rfl

/-- Of two logical messages to one peer, each has an id of its own. -/
theorem sendid_unique (h : db.Valid (Trans our)) (hcf : CollisionFree db) (hf : FreshKeys db)
    {p : Peer} {cid : Bytes} {r : SendRecord} {m : OutgoingMessage}
    (hr : db.rows.lookup (.sendid p cid) = some r) (hm : db.Ever (.outbox p r.id) m) :
    m.clientMessageId = cid := by
  obtain ⟨m', hm', hc⟩ := ever_of_sendid h hr
  rw [(outbox_unique h hcf hf hm hm').2]
  exact hc

/-! ## Steps -/

/-- What a transaction does to the status of one logical message. -/
inductive StatusStep (our : Bytes32) (db : Db P.Key) (rows : Rows P.Key) (p : Peer) (cid : Bytes) :
    Prop
  | same (h : statusAt rows p cid = statusAt db.rows p cid)
  | sent (handle : UInt64) (plaintext : Bytes) (q : Peer) (old new : SessionRecord P.Key)
      (m : OutgoingMessage) (h : SendTx our handle cid plaintext db p q old new m rows)
      (before : statusAt db.rows p cid = .new) (after : statusAt rows p cid = .pending)
  | acknowledged (handle : UInt64) (m : OutgoingMessage) (client : m.clientMessageId = cid)
      (stored : db.rows.lookup (.outbox p m.messageId) = some m)
      (h : AckOutTx handle m.messageId db p rows)
      (before : statusAt db.rows p cid = .pending) (after : statusAt rows p cid = .acknowledged)
  | abandoned (handle : UInt64) (m : OutgoingMessage) (client : m.clientMessageId = cid)
      (stored : db.rows.lookup (.outbox p m.messageId) = some m)
      (h : AbandonTx handle m.messageId db p m rows)
      (before : statusAt db.rows p cid = .pending) (after : statusAt rows p cid = .abandoned)

theorem StatusStep.leads {p : Peer} {cid : Bytes} (h : StatusStep our db rows p cid) :
    (statusAt db.rows p cid).Leads (statusAt rows p cid) := by
  cases h with
  | same h => rw [h]
  | sent handle plaintext q old new m h before after =>
    rw [before, after]
    exact .single .sent
  | acknowledged handle m client stored h before after =>
    rw [before, after]
    exact .single .acknowledged
  | abandoned handle m client stored h before after =>
    rw [before, after]
    exact .single .abandoned

/-- A transaction that leaves the send record and the outbox alone leaves the status alone. -/
theorem MessagesAfter.status {cs : List (Change P.Key)} (h : MessagesAfter db rows cs) {p : Peer}
    {cid : Bytes} (hs : ∀ c ∈ cs, Key.sendid p cid ≠ c.key)
    (ho : ∀ id, db.rows.lookup (.sendid p cid) = some (.sent id) → ∀ c ∈ cs, Key.outbox p id ≠ c.key) :
    StatusStep our db rows p cid :=
  .same (statusAt_congr (h.ne rfl hs) fun id hid => h.ne rfl (ho id hid))

theorem Trans.status (ht : Trans our db rows) (hv : db.Valid (Trans our))
    (hcf : CollisionFree (db.push rows)) (hf : FreshKeys (db.push rows)) (p : Peer) (cid : Bytes) :
    StatusStep our db rows p cid := by
  have hok := messagesOk hv
  have hle := Db.le_push db rows
  cases ht.messages with
  | same after => exact after.status (by simp) (by simp)
  | accepted peer m₀ noInbox noSeen after => exact after.status (by simp) (by simp)
  | acknowledgedIn peer i m₀ stored after => exact after.status (by simp) (by simp)
  | sent peer m₀ wire noOutbox noSendid after tx =>
    by_cases hk : p = peer ∧ cid = m₀.clientMessageId
    · obtain ⟨rfl, rfl⟩ := hk
      obtain ⟨handle, c, plaintext, q, old, new, hs⟩ := tx
      have hc : m₀.clientMessageId = c := by rw [hs.message]
      subst hc
      exact .sent handle plaintext q old new m₀ hs (statusAt_new noSendid)
        (statusAt_pending (after.snd rfl) (after.head rfl (by simp)))
    · refine after.status (by simpa using hk) fun id hid => ?_
      -- The id of a message that was sent before is not the id of the new one.
      suffices ¬ (p = peer ∧ id = m₀.messageId) by simpa using this
      rintro ⟨rfl, rfl⟩
      have hm : (db.push rows).Ever (.outbox p m₀.messageId) m₀ :=
        Db.ever_push.mpr (.inl (after.head rfl (by simp)))
      obtain ⟨m, hm', hc⟩ := ever_of_sendid hv hid
      rw [(outbox_unique (hv.push ht) hcf hf (hm'.mono hle) hm).2] at hc
      exact hk ⟨rfl, hc.symm⟩
  | acknowledgedOut peer i after tx =>
    by_cases hk : p = peer ∧ db.rows.lookup (.sendid p cid) = some (.sent i)
    · obtain ⟨rfl, hs⟩ := hk
      obtain ⟨handle, ha⟩ := tx
      obtain ⟨m, hm⟩ : ∃ m : OutgoingMessage, db.rows.lookup (.outbox p i) = some m :=
        Option.isSome_iff_exists.mp ha.stored
      have hc := sendid_unique hv (hcf.mono hle) (hf.mono hle) hs (Db.ever_now hm)
      obtain ⟨rfl, -⟩ := hok.outbox_id p i m (Db.ever_now hm)
      exact .acknowledged handle m hc hm ha (statusAt_pending hs hm)
        (statusAt_acknowledged ((after.ne rfl (by simp)).trans hs) (after.head rfl (by simp)))
    · refine after.status (by simp) fun id hid => ?_
      suffices ¬ (p = peer ∧ id = i) by simpa using this
      rintro ⟨rfl, rfl⟩
      exact hk ⟨rfl, hid⟩
  | abandoned peer i m₀ stored after tx =>
    obtain ⟨rfl, -⟩ := hok.outbox_id peer i m₀ (Db.ever_now stored)
    by_cases hk : p = peer ∧ cid = m₀.clientMessageId
    · obtain ⟨rfl, rfl⟩ := hk
      obtain ⟨handle, ha⟩ := tx
      exact .abandoned handle m₀ rfl stored ha
        (statusAt_pending (hok.outbox_sendid p _ m₀ stored) stored) (statusAt_abandoned (after.snd rfl))
    · refine after.status (by simpa using hk) fun id hid => ?_
      suffices ¬ (p = peer ∧ id = m₀.messageId) by simpa using this
      rintro ⟨rfl, rfl⟩
      have hc := sendid_unique hv (hcf.mono hle) (hf.mono hle) hid (Db.ever_now stored)
      exact hk ⟨rfl, hc.symm⟩

/-- From any state to any later one. -/
theorem statusAt_leads (h : db'.Valid (Trans our)) (hcf : CollisionFree db') (hf : FreshKeys db')
    (hle : db.Le db') (p : Peer) (cid : Bytes) :
    (statusAt db.rows p cid).Leads (statusAt db'.rows p cid) := by
  induction h with
  | empty =>
    rw [Db.le_empty hle]
  | @push db₁ rows hv ht ih =>
    rcases Db.le_push_cases hle with rfl | hle
    · exact .refl
    · have hle' := Db.le_push db₁ rows
      exact (ih (hcf.mono hle') (hf.mono hle') hle).trans (ht.status hv hcf hf p cid).leads

/-! ## The two ends -/

/-- The transaction takes the message `id` of `p` out of the outbox. -/
def TakesOut (db : Db P.Key) (rows : Rows P.Key) (p : Peer) (id : MessageId) : Prop :=
  (db.rows.lookup (.outbox p id)).isSome ∧ rows.lookup (.outbox p id) = none

/-- An acknowledgement took the logical message out of the outbox. -/
def AckedIn (db : Db P.Key) (p : Peer) (cid : Bytes) : Prop :=
  ∃ db₀ rows handle m, (Db.push db₀ rows).Le db ∧ db₀.rows.lookup (.outbox p m.messageId) = some m ∧
    m.clientMessageId = cid ∧ AckOutTx handle m.messageId db₀ p rows

/-- It was abandoned. -/
def AbandonedIn (db : Db P.Key) (p : Peer) (cid : Bytes) : Prop :=
  ∃ db₀ rows handle m, (Db.push db₀ rows).Le db ∧ db₀.rows.lookup (.outbox p m.messageId) = some m ∧
    m.clientMessageId = cid ∧ AbandonTx handle m.messageId db₀ p m rows

theorem AckedIn.mono {p : Peer} {cid : Bytes} (h : AckedIn db p cid) (hle : db.Le db') :
    AckedIn db' p cid := by
  obtain ⟨db₀, rows, handle, m, h₀, hs⟩ := h
  exact ⟨db₀, rows, handle, m, h₀.trans hle, hs⟩

theorem AbandonedIn.mono {p : Peer} {cid : Bytes} (h : AbandonedIn db p cid) (hle : db.Le db') :
    AbandonedIn db' p cid := by
  obtain ⟨db₀, rows, handle, m, h₀, hs⟩ := h
  exact ⟨db₀, rows, handle, m, h₀.trans hle, hs⟩

theorem AckOutTx.messages {handle : UInt64} {id : MessageId} {p : Peer}
    (h : AckOutTx handle id db p rows) : MessagesAfter db rows [⟨.outbox p id, none⟩] :=
  messagesAfter_of_eq h.eq

theorem AbandonTx.messages {handle : UInt64} {id : MessageId} {p : Peer} {m : OutgoingMessage}
    (h : AbandonTx handle id db p m rows) : MessagesAfter db rows [⟨.outbox p id, none⟩,
      ⟨.sendid p m.clientMessageId, some (.abandoned id)⟩] :=
  messagesAfter_of_eq h.eq

theorem AckOutTx.status {handle : UInt64} {p : Peer} {m : OutgoingMessage}
    (h : AckOutTx handle m.messageId db p rows) (hok : MessagesOk db)
    (hm : db.rows.lookup (.outbox p m.messageId) = some m) :
    statusAt rows p m.clientMessageId = .acknowledged :=
  statusAt_acknowledged ((h.messages.ne rfl (by simp)).trans (hok.outbox_sendid p _ m hm))
    (h.messages.head rfl (by simp))

theorem acknowledged_iff (h : db.Valid (Trans our)) (hcf : CollisionFree db) (hf : FreshKeys db)
    (p : Peer) (cid : Bytes) : statusAt db.rows p cid = .acknowledged ↔ AckedIn db p cid := by
  constructor
  · intro hs
    induction h with
    | empty => cases hs
    | @push db rows hv ht ih =>
      have hle := Db.le_push db rows
      rw [Db.push_rows] at hs
      cases ht.status hv hcf hf p cid with
      | same h => exact (ih (hcf.mono hle) (hf.mono hle) (h.symm.trans hs)).mono hle
      | sent handle plaintext q old new m h before after => cases hs.symm.trans after
      | acknowledged handle m client stored h before after =>
        exact ⟨db, rows, handle, m, Db.Le.refl _, stored, client, h⟩
      | abandoned handle m client stored h before after => cases hs.symm.trans after
  · rintro ⟨db₀, rows, handle, m, hle, hm, rfl, ha⟩
    have hok := messagesOk (h.le ((Db.le_push _ _).trans hle))
    have hl := statusAt_leads h hcf hf hle p m.clientMessageId
    rw [Db.push_rows, ha.status hok hm] at hl
    exact hl.of_acknowledged

theorem abandoned_iff (h : db.Valid (Trans our)) (hcf : CollisionFree db) (hf : FreshKeys db)
    (p : Peer) (cid : Bytes) : statusAt db.rows p cid = .abandoned ↔ AbandonedIn db p cid := by
  constructor
  · intro hs
    induction h with
    | empty => cases hs
    | @push db rows hv ht ih =>
      have hle := Db.le_push db rows
      rw [Db.push_rows] at hs
      cases ht.status hv hcf hf p cid with
      | same h => exact (ih (hcf.mono hle) (hf.mono hle) (h.symm.trans hs)).mono hle
      | sent handle plaintext q old new m h before after => cases hs.symm.trans after
      | acknowledged handle m client stored h before after => cases hs.symm.trans after
      | abandoned handle m client stored h before after =>
        exact ⟨db, rows, handle, m, Db.Le.refl _, stored, client, h⟩
  · rintro ⟨db₀, rows, handle, m, hle, hm, rfl, ha⟩
    have hl := statusAt_leads h hcf hf hle p m.clientMessageId
    rw [Db.push_rows, statusAt_abandoned (ha.messages.snd rfl)] at hl
    exact hl.of_abandoned

/-- A message that left the outbox does not come back. -/
theorem outbox_gone (h : db'.Valid (Trans our)) (hcf : CollisionFree db') (hf : FreshKeys db')
    (hle : db.Le db') {p : Peer} {id : MessageId} {m : OutgoingMessage}
    (hm : db.Ever (.outbox p id) m) (hn : db.rows.lookup (.outbox p id) = none) :
    db'.rows.lookup (.outbox p id) = none := by
  by_contra hne
  obtain ⟨m', hm'⟩ := Option.ne_none_iff_exists'.mp hne
  obtain ⟨-, rfl⟩ := outbox_unique h hcf hf (hm.mono hle) (Db.ever_now hm')
  obtain ⟨db₁, rows₁, handle, cid, pt, q, old, new, h1, h2, hs⟩ := sent_since h hle hn hm'
  obtain ⟨r, hr, -⟩ := (messagesOk (h.le ((Db.le_push _ _).trans h2))).ever_sendid p id m (hm.mono h1)
  have hc : m.clientMessageId = cid := by rw [hs.message]
  rw [hc, hs.noSendid] at hr
  cases hr

/-- A message leaves the outbox once. -/
theorem takesOut_once (h : db.Valid (Trans our)) (hcf : CollisionFree db) (hf : FreshKeys db)
    {db₀ db₁ : Db P.Key} {rows₀ rows₁ : Rows P.Key} {p : Peer} {id : MessageId}
    (h₀ : (db₀.push rows₀).Le db) (h₁ : (db₁.push rows₁).Le db) (ht₀ : TakesOut db₀ rows₀ p id)
    (ht₁ : TakesOut db₁ rows₁ p id) : db₀ = db₁ ∧ rows₀ = rows₁ := by
  -- After the first, there is nothing left for the second.
  have after : ∀ {a b : Db P.Key} {ra rb : Rows P.Key}, (b.push rb).Le db → TakesOut a ra p id →
      TakesOut b rb p id → ¬ (a.push ra).Le b := by
    intro a b ra rb hb hta htb hle
    obtain ⟨m, hm⟩ := Option.isSome_iff_exists.mp hta.1
    have hb' := (Db.le_push b rb).trans hb
    have hg := outbox_gone (h.le hb') (hcf.mono hb') (hf.mono hb') hle
      ((Db.ever_now hm).mono (Db.le_push a ra)) hta.2
    have hs := htb.1
    rw [hg] at hs
    cases hs
  rcases Db.le_total h₀ h₁ with hle | hle
  · rcases Db.le_push_cases hle with heq | hle
    · exact Db.push_inj heq
    · exact absurd hle (after h₁ ht₀ ht₁)
  · rcases Db.le_push_cases hle with heq | hle
    · exact Db.push_inj heq.symm
    · exact absurd hle (after h₀ ht₁ ht₀)

/-- What takes a message out of the outbox: an acknowledgement or an abandonment. -/
theorem Trans.takesOut (ht : Trans our db rows) {p : Peer} {id : MessageId}
    (h : TakesOut db rows p id) :
    (∃ handle, AckOutTx handle id db p rows) ∨ ∃ handle m, AbandonTx handle id db p m rows := by
  obtain ⟨hs, hn⟩ := h
  have kept : rows.lookup (.outbox p id) = db.rows.lookup (.outbox p id) → False := by
    intro hk
    rw [← hk, hn] at hs
    cases hs
  cases ht.messages with
  | same after => exact (kept (after.ne rfl (by simp))).elim
  | accepted peer m₀ noInbox noSeen after => exact (kept (after.ne rfl (by simp))).elim
  | acknowledgedIn peer i m₀ stored after => exact (kept (after.ne rfl (by simp))).elim
  | sent peer m₀ wire noOutbox noSendid after =>
    by_cases hk : Key.outbox p id = .outbox peer m₀.messageId
    · cases hk
      cases hn.symm.trans (after.head rfl (by simp))
    · exact (kept (after.ne rfl (by simpa using hk))).elim
  | acknowledgedOut peer i after tx =>
    by_cases hk : Key.outbox p id = .outbox peer i
    · cases hk
      exact .inl tx
    · exact (kept (after.ne rfl (by simpa using hk))).elim
  | abandoned peer i m₀ stored after tx =>
    by_cases hk : Key.outbox p id = .outbox peer i
    · cases hk
      obtain ⟨handle, h⟩ := tx
      exact .inr ⟨handle, m₀, h⟩
    · exact (kept (after.ne rfl (by simpa using hk))).elim

/-- No transaction is both. -/
theorem AckOutTx.not_abandonTx {handle handle' : UInt64} {id : MessageId} {p : Peer}
    {m : OutgoingMessage} (hok : MessagesOk db) (h : AckOutTx handle id db p rows) :
    ¬ AbandonTx handle' id db p m rows := by
  intro h'
  have hs := (h.messages.ne rfl (by simp)).trans (hok.outbox_sendid p id m h'.stored)
  cases hs.symm.trans (h'.messages.snd rfl)

/-! ## Reports -/

/-- The call returned this status of the logical message. -/
inductive Reports (d : Done (Device P.Key Memory) (Call P.Key) Res) (p : Peer) (cid : Bytes) :
    Status → Prop
  | prior (o : Option SendOutcome) (call : d.call = .priorSend p cid) (res : d.res = .prior (.ok o)) :
      Reports d p cid (statusOf o)
  | send (i : Nat) (handle : UInt64) (plaintext : Bytes) (o : SendOutcome)
      (call : d.call = .send i handle cid plaintext) (res : d.res = .sent (some p) (.ok o)) :
      Reports d p cid (statusOf (some o))

theorem PriorResult.status {p : Peer} {cid : Bytes} {o : Option SendOutcome}
    (h : PriorResult rows p cid (.ok o)) : statusAt rows p cid = statusOf o := by
  cases h with
  | prior o h => exact h.status
  | none h => exact statusAt_new h

theorem SendTx.status {handle : UInt64} {cid plaintext : Bytes} {p q : Peer}
    {old new : SessionRecord P.Key} {m : OutgoingMessage}
    (h : SendTx our handle cid plaintext db p q old new m rows) : statusAt rows p cid = .pending := by
  have hc : m.clientMessageId = cid := by rw [h.message]
  have ha := messagesAfter_of_eq h.eq
  exact hc ▸ statusAt_pending (ha.snd rfl) (ha.head rfl (by simp))

theorem SendPost.status {handle : UInt64} {cid plaintext : Bytes} {p : Peer} {o : SendOutcome}
    {tr tr' : Trace P.Key} (h : SendPost our handle cid plaintext p tr db (.ok o) tr' db') :
    ∃ db₁ : Db P.Key, db.Le db₁ ∧ db₁.Le db' ∧ statusAt db₁.rows p cid = statusOf (some o) := by
  cases h with
  | prior looked db₁ le le' o h hr =>
    cases hr
    exact ⟨db₁, le, le', h.status⟩
  | unread looked db₁ le le' e h hr => cases hr
  | refused looked db₁ le le' new e hr => cases hr
  | wrote db₁ rows q old new m le step le' hr =>
    rcases hr with hr | ⟨e, hr⟩
    · cases hr
      exact ⟨db₁.push rows, le.trans (Db.le_push _ _), le', step.status⟩
    · cases hr

variable {c : Conf P}

/-- A report is the status at a time during its call. -/
theorem Reports.read (h : Reachable our c) {d : Done (Device P.Key Memory) (Call P.Key) Res}
    (hd : d ∈ c.done) {p : Peer} {cid : Bytes} {s : Status} (hr : Reports d p cid s) :
    ∃ db : Db P.Key, d.start.db.Le db ∧ db.Le c.shared.db ∧ statusAt db.rows p cid = s := by
  obtain ⟨-, s', -, hle, hs⟩ := h.holds.returned d hd
  have hpost := hs.post
  cases hr with
  | prior o call res =>
    rw [call, res] at hpost
    obtain ⟨r, he, hl, hp⟩ := hpost
    cases he
    exact ⟨s'.db, hl.le, hle, hp.status⟩
  | send i handle plaintext o call res =>
    rw [call, res] at hpost
    rcases hpost with ⟨e, he, -⟩ | ⟨p', r, tr₁, db₁, he, hl, hp⟩
    · cases he
    · cases he
      obtain ⟨db₂, h1, h2, h3⟩ := hp.status
      exact ⟨db₂, hl.le.trans h1, h2.trans hle, h3⟩

/-- Only these calls take a message out of the outbox. -/
theorem Tx.takesOut {call : Call P.Key} (ht : Tx our call db rows) {p : Peer} {id : MessageId}
    (h : TakesOut db rows p id) :
    ∃ handle, call = .acknowledgeOutgoing handle id ∨ call = .abandonOutgoing handle id := by
  obtain ⟨hs, hn⟩ := h
  have kept : rows.lookup (.outbox p id) = db.rows.lookup (.outbox p id) → False := by
    intro hk
    rw [← hk, hn] at hs
    cases hs
  have other : ∀ {cs : List (Change P.Key)}, rows = db.rows.applyAll cs →
      (∀ c ∈ cs, Key.outbox p id ≠ c.key) → False := fun he hc =>
    kept (he ▸ Rows.lookup_applyAll_ne _ hc)
  cases call with
  | createSession i new =>
    refine (kept ?_).elim
    rw [ht.eq, lookup_createChanges our ht.extra _ rfl, Rows.applyAll_cons, Rows.applyAll_cons,
      lookup_handshakes (by simp), Rows.lookup_apply_ne _ (by simp), Rows.lookup_apply_ne _ (by simp)]
  | recordProvisionalHandshake i handle provisional validated =>
    rcases ht with ht | ⟨peer, old, ht⟩
    · exact (other ht.eq (by simp)).elim
    · exact (other ht.eq (by simp)).elim
  | acceptFirstMessage i first wire =>
    rcases ht with ⟨new, m, ht⟩ | ⟨peer, old, new, m, ht⟩
    · refine (kept ?_).elim
      rw [ht.eq, lookup_promoteChanges new m ht.extra _ rfl]
      exact Rows.lookup_applyAll_ne _ (by simp)
    · exact (other ht.eq (by simp [receiveChanges])).elim
  | send i handle clientId plaintext =>
    obtain ⟨peer, q, old, new, m, ht⟩ := ht
    have ha := messagesAfter_of_eq ht.eq
    by_cases hk : Key.outbox p id = .outbox peer m.messageId
    · cases hk
      cases hn.symm.trans (ha.head rfl (by simp))
    · exact (other ht.eq (by simpa [sendChanges] using hk)).elim
  | receive i handle wire =>
    obtain ⟨peer, old, new, m, ht⟩ := ht
    exact (other ht.eq (by simp [receiveChanges])).elim
  | acknowledgeOutgoing handle id' =>
    obtain ⟨peer, ht⟩ := ht
    refine ⟨handle, .inl ?_⟩
    by_contra hne
    exact other ht.eq (by simpa using fun _ h => hne (by rw [h]))
  | acknowledgeIncoming handle id' =>
    obtain ⟨peer, ht⟩ := ht
    exact (other ht.eq (by simp)).elim
  | abandonOutgoing handle id' =>
    obtain ⟨peer, m, ht⟩ := ht
    refine ⟨handle, .inr ?_⟩
    by_contra hne
    exact other ht.eq (by simpa using fun _ h => hne (by rw [h]))
  | removeSession i handle =>
    obtain ⟨peer, old, ht⟩ := ht
    exact (other ht.eq (by simp)).elim
  | _ => exact ht.elim

/-- The status of a logical message moves along the arrows, with exclusive ends. -/
structure LinearStatus (our : Bytes32) (c : Conf P) : Prop where
  /-- Every report is the status at a time during its call. -/
  reports : ∀ d ∈ c.done, ∀ p cid s, Reports d p cid s →
    ∃ db : Db P.Key, d.start.db.Le db ∧ db.Le c.shared.db ∧ statusAt db.rows p cid = s
  /-- A transaction leaves it alone, or takes one arrow. -/
  moves : ∀ db rows, (Db.push db rows).Le c.shared.db → ∀ p cid,
    statusAt rows p cid = statusAt db.rows p cid ∨
      (statusAt db.rows p cid).Next (statusAt rows p cid)
  /-- A report never goes back behind one that was returned before its call started. -/
  ordered : ∀ c₀ : Conf P, Reachable our c₀ → ∀ d ∈ c₀.done, ∀ d' ∈ c.done,
    c₀.shared.db.Le d'.start.db → ∀ p cid s s', Reports d p cid s → Reports d' p cid s' → s.Leads s'
  /-- A message leaves the outbox once, -/
  once : ∀ db rows db' rows' p id, (Db.push db rows).Le c.shared.db →
    (Db.push db' rows').Le c.shared.db → TakesOut db rows p id → TakesOut db' rows' p id →
      db = db' ∧ rows = rows'
  /-- by an acknowledgement or an abandonment and never by both, -/
  exclusive : ∀ db rows, (Db.push db rows).Le c.shared.db → ∀ p id, TakesOut db rows p id →
    Xor (∃ handle, AckOutTx handle id db p rows) (∃ handle m, AbandonTx handle id db p m rows)
  /-- and in no other call. -/
  calls : ∀ call db rows, Did c call db (db.push rows) → ∀ p id, TakesOut db rows p id →
    ∃ handle, call = .acknowledgeOutgoing handle id ∨ call = .abandonOutgoing handle id
  acknowledged : ∀ db : Db P.Key, db.Le c.shared.db → ∀ p cid,
    (statusAt db.rows p cid = .acknowledged ↔ AckedIn db p cid)
  abandoned : ∀ db : Db P.Key, db.Le c.shared.db → ∀ p cid,
    (statusAt db.rows p cid = .abandoned ↔ AbandonedIn db p cid)

/-- **The status of a logical message is linearizable**, in every reachable configuration: each
transaction moves it along one arrow at most, each report is the status at some time during its call,
and a message leaves the outbox once, acknowledged or abandoned. -/
theorem send_status (h : Reachable our c) (hcf : CollisionFree c.shared.db)
    (hf : FreshKeys c.shared.db) : LinearStatus our c where
  reports d hd p cid s hr := hr.read h hd
  moves db rows hle p cid := by
    obtain ⟨hv, ht⟩ := h.step hle
    cases ht.status hv (hcf.mono hle) (hf.mono hle) p cid with
    | same h => exact .inl h
    | sent handle plaintext q old new m h before after => exact .inr (before ▸ after ▸ .sent)
    | acknowledged handle m client stored h before after =>
      exact .inr (before ▸ after ▸ .acknowledged)
    | abandoned handle m client stored h before after => exact .inr (before ▸ after ▸ .abandoned)
  ordered c₀ h₀ d hd d' hd' hle p cid s s' hr hr' := by
    obtain ⟨db, -, h1, rfl⟩ := hr.read h₀ hd
    obtain ⟨db', h2, h3, rfl⟩ := hr'.read h hd'
    exact statusAt_leads (h.valid.le h3) (hcf.mono h3) (hf.mono h3) (h1.trans (hle.trans h2)) p cid
  once db rows db' rows' p id hle hle' ht ht' := takesOut_once h.valid hcf hf hle hle' ht ht'
  exclusive db rows hle p id hto := by
    obtain ⟨hv, ht⟩ := h.step hle
    rcases ht.takesOut hto with ⟨handle, ha⟩ | ⟨handle, m, hb⟩
    · refine .inl ⟨⟨handle, ha⟩, ?_⟩
      rintro ⟨handle', m, hb⟩
      exact ha.not_abandonTx (messagesOk hv) hb
    · refine .inr ⟨⟨handle, m, hb⟩, ?_⟩
      rintro ⟨handle', ha⟩
      exact ha.not_abandonTx (messagesOk hv) hb
  calls call db rows hd p id hto := by
    obtain ⟨hm, -⟩ := hd.moves h
    rcases hm with heq | ⟨rows', ht, heq⟩
    · have hr : rows = db.rows := congrArg Db.rows heq
      obtain ⟨hs, hn⟩ := hto
      rw [← hr, hn] at hs
      cases hs
    · obtain ⟨-, rfl⟩ := Db.push_inj heq
      exact ht.takesOut hto
  acknowledged db hle p cid := acknowledged_iff (h.valid.le hle) (hcf.mono hle) (hf.mono hle) p cid
  abandoned db hle p cid := abandoned_iff (h.valid.le hle) (hcf.mono hle) (hf.mono hle) p cid

/-! A run: a message is sent and acknowledged, and its status is asked for before and after each. -/

/-- A transaction that stores no session and no message adds nothing to tell apart. -/
theorem CollisionFree.push (h : CollisionFree db)
    (hs : ∀ p (rec : SessionRecord P.Key), rows.lookup (.session p) = some rec →
      db.rows.lookup (.session p) = some rec)
    (ho : ∀ p id (m : OutgoingMessage), rows.lookup (.outbox p id) = some m →
      db.rows.lookup (.outbox p id) = some m) : CollisionFree (db.push rows) := by
  have session : ∀ {p : Peer} {rec : SessionRecord P.Key}, (db.push rows).Ever (.session p) rec →
      db.Ever (.session p) rec := fun he =>
    (Db.ever_push.mp he).elim (fun he => Db.ever_now (hs _ _ he)) id
  have outbox : ∀ {p : Peer} {id : MessageId} {m : OutgoingMessage},
      (db.push rows).Ever (.outbox p id) m → db.Ever (.outbox p id) m := fun he =>
    (Db.ever_push.mp he).elim (fun he => Db.ever_now (ho _ _ _ he)) fun he => he
  exact ⟨fun p rec rec' h1 h2 => h.records p rec rec' (session h1) (session h2),
    fun p q id id' m m' h1 h2 => h.wires p q id id' m m' (outbox h1) (outbox h2)⟩

/-- A transaction that stores no session starts no chain. -/
theorem FreshKeys.push (h : FreshKeys db)
    (hs : ∀ p (rec : SessionRecord P.Key), rows.lookup (.session p) = some rec →
      db.rows.lookup (.session p) = some rec) : FreshKeys (db.push rows) := by
  intro db₀ rows₀ hle p new key hn hkey hstart q rec he
  rcases Db.le_push_cases hle with heq | hle
  · obtain ⟨rfl, rfl⟩ := Db.push_inj heq
    exact absurd rfl (hstart new (hs p new hn))
  · exact h db₀ rows₀ hle p new key hn hkey hstart q rec he

namespace OneAck

open OneSend (ours peer new message)

def taken : List (Change symbolicPlatform.Key) := [⟨.outbox peer message.messageId, none⟩]

def run : Option (Conf symbolicPlatform) :=
  (system symbolicPlatform ours).runCalls (List.replicate 9 {})
    (Config.init (Device.fresh symbolicPlatform))
    [.createSession 0 new, .priorSend peer [1], .send 0 7 [1] [7], .priorSend peer [1],
      .acknowledgeOutgoing 7 message.messageId, .priorSend peer [1]]

/-- The status that a result reports. -/
def reported : Res → Option Status
  | .prior (.ok o) => some (statusOf o)
  | .sent _ (.ok o) => some (statusOf (some o))
  | _ => none

theorem run_facts : ∃ c, run = some c ∧ Reachable ours c ∧
    c.shared.db = Db.after (taken :: OneSend.writes) ∧
    c.done.filterMap (fun d => reported d.res) = [.acknowledged, .pending, .pending, .new] := by
  have hs : run.isSome = true := by decide +kernel
  have hdb : run.map (fun c => c.shared.db.entries) =
      some (Db.after (taken :: OneSend.writes)).entries := by decide +kernel
  have hw : run.map (fun c => c.done.filterMap fun d => reported d.res) =
      some [.acknowledged, .pending, .pending, .new] := by decide +kernel
  obtain ⟨c, hc⟩ := Option.isSome_iff_exists.mp hs
  rw [hc] at hdb hw
  refine ⟨c, hc, ?_, Db.entries_inj (Option.some.inj hdb), Option.some.inj hw⟩
  refine System.Reach.runCalls .refl (fun _ => rfl) (fun call hcall => ?_) hc
  simp only [List.mem_cons, List.not_mem_nil, or_false] at hcall
  rcases hcall with rfl | rfl | rfl | rfl | rfl | rfl
  · exact appOnly_nil
  all_goals trivial

theorem lookup_taken {k : Key} {v : Row symbolicPlatform.Key k}
    (h : ((Db.after OneSend.writes).rows.applyAll taken).lookup k = some v) :
    (Db.after OneSend.writes).rows.lookup k = some v := by
  rcases Rows.lookup_applyAll_some h with h | h
  · cases List.mem_singleton.mp h
  · exact h

theorem collisionFree : CollisionFree (Db.after (taken :: OneSend.writes)) :=
  OneSend.collisionFree.push (fun _ _ => lookup_taken) fun _ _ _ => lookup_taken

theorem freshKeys : FreshKeys (Db.after (taken :: OneSend.writes)) :=
  OneSend.freshKeys.push fun _ _ => lookup_taken

end OneAck

/-- In the run the reports are `None`, pending twice, and acknowledged. -/
theorem send_status_oneAck : ∃ c : Conf symbolicPlatform, Reachable OneSend.ours c ∧
    c.done.filterMap (fun d => OneAck.reported d.res) = [.acknowledged, .pending, .pending, .new] ∧
    LinearStatus OneSend.ours c := by
  obtain ⟨c, -, hr, hdb, hw⟩ := OneAck.run_facts
  exact ⟨c, hr, hw, send_status hr (hdb ▸ OneAck.collisionFree) (hdb ▸ OneAck.freshKeys)⟩

end Messenger

end Arcium
