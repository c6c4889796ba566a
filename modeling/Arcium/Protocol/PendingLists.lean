import Arcium.Protocol.SendStatus

/-!
# The pending lists

`pending_outgoing` and `pending_incoming` list the ids of a peer, read each record, and sort by the
generation in it. The generation of a stored message is at most that of the peer's session
(`OutboxNumbered`, `InboxNumbered`), so the next message gets a higher one, and the order of the
generations is the order of the commits. Generations start again with a new session, when nothing of
the old one is left.

As in `Obligations` this is for the runs in which a handle is not given to a second peer; else a
message can be stored for one peer with the generation of another (`pending_out_of_order`).
-/

namespace Arcium

open Conc

/-! ## Listings -/

/-- The operation, run alone on a store that does not fail, returns a value with `Q`. -/
def Returns {K M err α : Type} (x : Run K M err α) (s : Device K M) (Q : α → Prop) : Prop :=
  (∃ r s', Prog.Alone Choice.Calm x.run s r s') ∧
    ∀ r s', Prog.Alone Choice.Calm x.run s r s' → ∃ a, r = .ok a ∧ Q a

theorem Returns.of_alone {K M err α : Type} {x : Run K M err α} {s : Device K M} {Q : α → Prop}
    (h : ∀ r s', Prog.Alone Choice.Calm x.run s r s' → ∃ a, r = .ok a ∧ Q a) : Returns x s Q :=
  ⟨Prog.Alone.total ⟨_, Choice.calm_default⟩ _ _, h⟩

namespace Rows

variable {K : Type} {rows : Rows K} {idOf : Key → Option MessageId} {key : MessageId → Key}

/-- A listing lists what is stored. -/
theorem mem_idsOf (hk : ∀ k id, idOf k = some id ↔ k = key id) {id : MessageId} :
    id ∈ rows.idsOf idOf ↔ (rows.lookup (key id)).isSome := by
  unfold idsOf
  rw [List.mem_mergeSort, List.mem_filterMap, AList.lookup_isSome, AList.mem_keys]
  constructor
  · rintro ⟨k, hm, h⟩
    rwa [(hk k id).mp h] at hm
  · exact fun h => ⟨_, h, (hk _ id).mpr rfl⟩

/-- A listing lists each id once. -/
theorem nodup_idsOf (hk : ∀ k id, idOf k = some id ↔ k = key id) : (rows.idsOf idOf).Nodup := by
  unfold idsOf
  rw [(List.mergeSort_perm _ _).nodup_iff]
  refine List.Nodup.filterMap (fun k k' id h h' => ?_) rows.keys_nodup
  rw [(hk k id).mp h, (hk k' id).mp h']

theorem outboxId_iff (p : Peer) (k : Key) (id : MessageId) :
    outboxId p k = some id ↔ k = .outbox p id := by
  cases k with
  | outbox q i => by_cases hq : q = p <;> simp [outboxId, hq]
  | _ => simp [outboxId]

theorem inboxId_iff (p : Peer) (k : Key) (id : MessageId) :
    inboxId p k = some id ↔ k = .inbox p id := by
  cases k with
  | inbox q i => by_cases hq : q = p <;> simp [inboxId, hq]
  | _ => simp [inboxId]

end Rows

namespace Messenger

variable {P : Platform} {our : Bytes32} {db db' : Db P.Key} {rows : Rows P.Key}

theorem readListed_alone {k : Key} {s s' : Device P.Key Memory} {v : Row P.Key k}
    {r : Except MessagingError (Row P.Key k)} (hv : s.db.rows.lookup k = some v)
    (h : Prog.Alone Choice.Calm (readListed (P := P) k).run s r s') : s' = s ∧ r = .ok v := by
  rcases Run.alone_bind h with ⟨a, s₁, h1, h2⟩ | ⟨e, h1, -⟩
  · obtain ⟨rfl, ha⟩ := find_alone h1
    rw [hv] at ha
    cases ha
    cases h2 with
    | ret => exact ⟨rfl, rfl⟩
  · obtain ⟨-, he⟩ := find_alone h1
    cases he

theorem readEach_alone {α : Type} {read : MessageId → Do P α} {V : MessageId → α → Prop}
    {s : Device P.Key Memory} {ids : List MessageId}
    (hr : ∀ id ∈ ids, ∀ r s', Prog.Alone Choice.Calm (read id).run s r s' →
      s' = s ∧ ∃ a, r = .ok a ∧ V id a)
    {r : Except MessagingError (List α)} {s' : Device P.Key Memory}
    (h : Prog.Alone Choice.Calm (readEach read ids).run s r s') :
    s' = s ∧ ∃ out, r = .ok out ∧ List.Forall₂ V ids out := by
  induction ids generalizing r s' with
  | nil =>
    cases h with
    | ret => exact ⟨rfl, [], rfl, .nil⟩
  | cons id ids ih =>
    rcases Run.alone_bind h with ⟨a, s₁, h1, h2⟩ | ⟨e, h1, -⟩
    · obtain ⟨rfl, _, ha, hv⟩ := hr id List.mem_cons_self _ _ h1
      cases ha
      rcases Run.alone_bind h2 with ⟨as, s₂, h3, h4⟩ | ⟨e, h3, -⟩
      · obtain ⟨rfl, _, has, hvs⟩ := ih (fun id hid => hr id (List.mem_cons_of_mem _ hid)) h3
        cases has
        cases h4 with
        | ret => exact ⟨rfl, _, rfl, .cons hv hvs⟩
      · obtain ⟨-, _, he, -⟩ := ih (fun id hid => hr id (List.mem_cons_of_mem _ hid)) h3
        cases he
    · obtain ⟨-, _, he, -⟩ := hr id List.mem_cons_self _ _ h1
      cases he

/-- What was read under a list of ids, if each record names its id. -/
theorem mem_of_listing {α : Type} {V : MessageId → α → Prop} {idOf : α → MessageId}
    (hid : ∀ id a, V id a → idOf a = id) (hu : ∀ id a b, V id a → V id b → a = b)
    {ids : List MessageId} {out : List α} (h : List.Forall₂ V ids out) (a : α) :
    a ∈ out ↔ idOf a ∈ ids ∧ V (idOf a) a := by
  induction h with
  | nil => simp
  | @cons id b ids out hv hvs ih =>
    rw [List.mem_cons, List.mem_cons, ih]
    constructor
    · rintro (rfl | ⟨hm, ha⟩)
      · obtain rfl := hid id a hv
        exact ⟨.inl rfl, hv⟩
      · exact ⟨.inr hm, ha⟩
    · rintro ⟨hm | hm, ha⟩
      · exact .inl (hu id a b (hm ▸ ha) hv)
      · exact .inr ⟨hm, ha⟩

theorem nodup_of_listing {α : Type} {V : MessageId → α → Prop} {idOf : α → MessageId}
    (hid : ∀ id a, V id a → idOf a = id) {ids : List MessageId} {out : List α}
    (h : List.Forall₂ V ids out) (hn : ids.Nodup) : out.Nodup := by
  have hmap : out.map idOf = ids := by
    induction h with
    | nil => rfl
    | cons hv hvs ih => rw [List.map_cons, hid _ _ hv, ih (List.nodup_cons.mp hn).2]
  exact List.Nodup.of_map idOf (hmap ▸ hn)

theorem requirePeer_alone {handle : UInt64} {p : Peer} {s s' : Device P.Key Memory}
    {r : Except MessagingError Peer} (hp : s.db.rows.lookup (.handle handle) = some p)
    (h : Prog.Alone Choice.Calm (requirePeer (P := P) handle).run s r s') : s' = s ∧ r = .ok p := by
  rcases Run.alone_bind h with ⟨a, s₁, h1, h2⟩ | ⟨e, h1, -⟩
  · obtain ⟨rfl, ha⟩ := find_alone h1
    rw [hp] at ha
    cases ha
    cases h2 with
    | ret => exact ⟨rfl, rfl⟩
  · obtain ⟨-, he⟩ := find_alone h1
    cases he

/-- A list sorted by numbers that are all different is strictly increasing. -/
theorem pairwise_mergeSort_lt {α : Type} (gen : α → UInt64) {l : List α} (hn : l.Nodup)
    (hinj : ∀ a ∈ l, ∀ b ∈ l, gen a = gen b → a = b) :
    (l.mergeSort fun a b => gen a ≤ gen b).Pairwise fun a b => gen a < gen b := by
  have hsorted : (l.mergeSort fun a b => gen a ≤ gen b).Pairwise
      fun a b => decide (gen a ≤ gen b) = true := by
    refine List.pairwise_mergeSort (fun a b c h1 h2 => ?_) (fun a b => ?_) l
    · simp only [decide_eq_true_eq] at *
      exact UInt64.le_trans h1 h2
    · simp only [Bool.or_eq_true, decide_eq_true_eq]
      exact UInt64.le_total _ _
  have hnodup := (List.mergeSort_perm l fun a b => decide (gen a ≤ gen b)).nodup_iff.mpr hn
  refine List.Pairwise.imp_of_mem (fun {a b} ha hb h => ?_) (hsorted.and hnodup)
  obtain ⟨hle, hne⟩ := h
  rw [List.mem_mergeSort] at ha hb
  simp only [decide_eq_true_eq] at hle
  exact UInt64.lt_of_le_of_ne hle fun heq => hne (hinj a ha b hb heq)

/-! ## Generations -/

theorem Follows.lt {p : Peer} {old new : SessionRecord P.Key} (h : Follows our p old new) :
    old.generation < new.generation := by
  have hroom := h.room
  rw [h.eq]
  show old.generation < old.generation + 1
  grind

/-- A pending message is not ahead of the session of its peer. -/
def OutboxNumbered (rows : Rows P.Key) : Prop :=
  ∀ (p : Peer) (id : MessageId) (m : OutgoingMessage), rows.lookup (.outbox p id) = some m →
    ∃ rec : SessionRecord P.Key, rows.lookup (.session p) = some rec ∧ m.generation ≤ rec.generation

theorem OutboxNumbered.push (ho : OutboxNumbered db.rows) (ht : Trans our db rows)
    (hv : db.Valid (Trans our)) (hcf : CollisionFree db) (hf : FreshKeys db)
    (hone : OnePeerPerHandle db) : OutboxNumbered rows := by
  intro p id m hm
  rcases ht.messages.outbox hm with hm₀ | ⟨-, -, -, -, handle, cid, pt, q, old, new, hs⟩
  · obtain ⟨rec, hrec, hgen⟩ := ho p id m hm₀
    cases ht.session p with
    | same h => exact ⟨rec, h.trans hrec, hgen⟩
    | created new before => rw [before] at hrec; cases hrec
    | promoted first wire new m' h hp before => rw [before] at hrec; cases hrec
    | sent handle clientId plaintext dest old new m' h after =>
      obtain rfl := Option.some.inj (hrec.symm.trans (h.unchanged.eq hcf h.loaded.ever))
      exact ⟨new, after, UInt64.le_trans hgen (UInt64.le_of_lt h.follows.lt)⟩
    | received handle wire old new m' h after =>
      obtain rfl := Option.some.inj (hrec.symm.trans (h.unchanged.eq hcf h.loaded.ever))
      exact ⟨new, after, UInt64.le_trans hgen (UInt64.le_of_lt h.follows.lt)⟩
    | ended old ever unchanged unconfirmed after tx =>
      rw [tx.idle_outbox hv hcf hf (outboxOwed hv hcf hf hone) id] at hm₀
      cases hm₀
  · obtain rfl := hs.straight hone
    refine ⟨new, ?_, ?_⟩
    · rw [hs.eq]
      exact Rows.lookup_applyAll_head _ _ (by simp)
    · exact UInt64.le_of_eq (congrArg OutgoingMessage.generation hs.message)

theorem outboxNumbered (h : db.Valid (Trans our)) (hcf : CollisionFree db) (hf : FreshKeys db)
    (hone : OnePeerPerHandle db) : OutboxNumbered db.rows := by
  induction h with
  | empty => exact fun _ _ _ h => nomatch h
  | push hv ht ih =>
    have hcf' := hcf.mono (Db.le_push _ _)
    have hf' := hf.mono (Db.le_push _ _)
    have hone' := hone.mono (Db.le_push _ _)
    exact (ih hcf' hf' hone').push ht hv hcf' hf' hone'

/-- An accepted message is not ahead of the session of its peer. -/
def InboxNumbered (rows : Rows P.Key) : Prop :=
  ∀ (p : Peer) (id : MessageId) (m : IncomingMessage), rows.lookup (.inbox p id) = some m →
    ∃ rec : SessionRecord P.Key, rows.lookup (.session p) = some rec ∧ m.generation ≤ rec.generation

theorem AcceptTx.numbered {p : Peer} {m : IncomingMessage} (h : AcceptTx our db p m rows) :
    ∃ rec : SessionRecord P.Key, rows.lookup (.session p) = some rec ∧
      m.generation = rec.generation := by
  cases h with
  | receive handle wire old new h =>
    refine ⟨new, ?_, ?_⟩
    · rw [h.eq]
      exact Rows.lookup_applyAll_head _ _ (by simp)
    · rw [h.message]
  | promote first wire new h hp =>
    subst hp
    refine ⟨new, ?_, ?_⟩
    · rw [h.eq, lookup_promoteChanges new m h.extra _ rfl]
      exact Rows.lookup_applyAll_head _ _ (by simp)
    · rw [h.message]

theorem InboxNumbered.push (hi : InboxNumbered db.rows) (ht : Trans our db rows)
    (hv : db.Valid (Trans our)) (hcf : CollisionFree db) : InboxNumbered rows := by
  intro p id m hm
  rcases ht.messages.inbox_new hm with hm₀ | ⟨-, -, -, -, ha⟩
  · obtain ⟨rec, hrec, hgen⟩ := hi p id m hm₀
    cases ht.session p with
    | same h => exact ⟨rec, h.trans hrec, hgen⟩
    | created new before => rw [before] at hrec; cases hrec
    | promoted first wire new m' h hp before => rw [before] at hrec; cases hrec
    | sent handle clientId plaintext dest old new m' h after =>
      obtain rfl := Option.some.inj (hrec.symm.trans (h.unchanged.eq hcf h.loaded.ever))
      exact ⟨new, after, UInt64.le_trans hgen (UInt64.le_of_lt h.follows.lt)⟩
    | received handle wire old new m' h after =>
      obtain rfl := Option.some.inj (hrec.symm.trans (h.unchanged.eq hcf h.loaded.ever))
      exact ⟨new, after, UInt64.le_trans hgen (UInt64.le_of_lt h.follows.lt)⟩
    | ended old ever unchanged unconfirmed after tx =>
      -- A session on which a message was accepted is not ended.
      obtain ⟨rec', hrec', hc⟩ := accepted_confirmed hv hcf (.inl (by rw [hm₀]; rfl) : Accepted _ p id)
      obtain rfl := Option.some.inj (hrec'.symm.trans (unchanged.eq hcf ever))
      rw [unconfirmed] at hc
      cases hc
  · obtain ⟨rec, hrec, hgen⟩ := ha.numbered
    exact ⟨rec, hrec, hgen ▸ UInt64.le_refl _⟩

theorem inboxNumbered (h : db.Valid (Trans our)) (hcf : CollisionFree db) : InboxNumbered db.rows := by
  induction h with
  | empty => exact fun _ _ _ h => nomatch h
  | push hv ht ih =>
    have hcf' := hcf.mono (Db.le_push _ _)
    exact (ih hcf').push ht hv hcf'

/-! ## The order of the commits -/

/-- The transaction is a send that stored `m` for `p`. -/
def Stores (our : Bytes32) (db : Db P.Key) (rows : Rows P.Key) (p : Peer) (m : OutgoingMessage) :
    Prop :=
  ∃ handle clientId plaintext q old new, SendTx our handle clientId plaintext db p q old new m rows

theorem Stores.outbox {p : Peer} {m : OutgoingMessage} (h : Stores our db rows p m) :
    rows.lookup (.outbox p m.messageId) = some m := by
  obtain ⟨handle, cid, pt, q, old, new, hs⟩ := h
  exact (messagesAfter_of_eq hs.eq).head rfl (by simp)

theorem Stores.unique {p : Peer} {m m' : OutgoingMessage} (h : Stores our db rows p m)
    (h' : Stores our db rows p m') : m = m' := by
  have hm' := h'.outbox
  obtain ⟨handle, cid, pt, q, old, new, hs⟩ := h
  obtain ⟨_, _, _, _, _, _, hs'⟩ := h'
  rcases hs.outbox hm' with ho | ⟨-, rfl⟩
  · rw [hs'.noOutbox] at ho
    cases ho
  · rfl

theorem AcceptTx.unique {p : Peer} {m m' : IncomingMessage} (h : AcceptTx our db p m rows)
    (h' : AcceptTx our db p m' rows) : m = m' := by
  have hm' := h'.waiting.1
  by_cases hk : Key.inbox p m'.messageId = .inbox p m.messageId
  · rw [(Key.inbox.inj hk).2] at hm'
    exact Option.some.inj (h.waiting.1.symm.trans hm')
  · rw [h.messages.ne rfl (by simpa using hk)] at hm'
    exact absurd (.inl (by rw [hm']; rfl)) h'.unaccepted

/-- Of two pending messages of one peer, the one that was sent first has the lower generation. -/
theorem sent_first {db₀ db₁ : Db P.Key} {rows₀ rows₁ : Rows P.Key} {p : Peer}
    {m m' : OutgoingMessage} (hv : db.Valid (Trans our)) (hcf : CollisionFree db)
    (hf : FreshKeys db) (hone : OnePeerPerHandle db) (h₀ : (db₀.push rows₀).Le db₁)
    (h₁ : (db₁.push rows₁).Le db) (hs₀ : Stores our db₀ rows₀ p m)
    (hs₁ : Stores our db₁ rows₁ p m') (hm : db.rows.lookup (.outbox p m.messageId) = some m) :
    m.generation < m'.generation := by
  have hle : db₁.Le db := (Db.le_push _ _).trans h₁
  have hm₁ : db₁.rows.lookup (.outbox p m.messageId) = some m := by
    cases hn : db₁.rows.lookup (.outbox p m.messageId) with
    | none =>
      have he : db₁.Ever (.outbox p m.messageId) m := (Db.ever_now hs₀.outbox).mono h₀
      rw [outbox_gone hv hcf hf hle he hn] at hm
      cases hm
    | some m₂ =>
      have he : db.Ever (.outbox p m.messageId) m₂ := (Db.ever_now hn).mono hle
      exact congrArg some (outbox_unique hv hcf hf he (Db.ever_now hm)).2
  obtain ⟨handle, cid, pt, q, old, new, hs⟩ := hs₁
  obtain rfl := hs.straight (hone.mono hle)
  obtain ⟨rec, hrec, hgen⟩ := outboxNumbered (hv.le hle) (hcf.mono hle) (hf.mono hle)
    (hone.mono hle) p _ m hm₁
  obtain rfl := Option.some.inj (hrec.symm.trans (hs.unchanged.eq (hcf.mono hle) hs.loaded.ever))
  rw [hs.message]
  exact UInt64.lt_of_le_of_lt hgen hs.follows.lt

/-- Of two waiting messages of one peer, the one that was accepted first has the lower
generation. -/
theorem accepted_first {db₀ db₁ : Db P.Key} {rows₀ rows₁ : Rows P.Key} {p : Peer}
    {m m' : IncomingMessage} (hv : db.Valid (Trans our)) (hcf : CollisionFree db)
    (h₀ : (db₀.push rows₀).Le db₁) (h₁ : (db₁.push rows₁).Le db) (ha₀ : AcceptTx our db₀ p m rows₀)
    (ha₁ : AcceptTx our db₁ p m' rows₁) (hm : db.rows.lookup (.inbox p m.messageId) = some m) :
    m.generation < m'.generation := by
  have hle : db₁.Le db := (Db.le_push _ _).trans h₁
  have hm₁ : db₁.rows.lookup (.inbox p m.messageId) = some m := by
    have hw₀ : Waiting (db₀.push rows₀).rows p m := ha₀.waiting
    rcases kept_of_valid (hv.le hle) hw₀ h₀ with hw | ⟨hh, -⟩
    · exact hw.1
    · have hs := seen_stable hv hle hh.2
      rw [(messagesOk hv).exclusive p m.messageId (by rw [hm]; rfl)] at hs
      cases hs
  obtain ⟨rec, hrec, hgen⟩ := inboxNumbered (hv.le hle) (hcf.mono hle) p _ m hm₁
  cases ha₁ with
  | receive handle wire old new h =>
    obtain rfl := Option.some.inj (hrec.symm.trans (h.unchanged.eq (hcf.mono hle) h.loaded.ever))
    rw [h.message]
    exact UInt64.lt_of_le_of_lt hgen h.follows.lt
  | promote first wire new h hp =>
    subst hp
    rw [h.noSession] at hrec
    cases hrec

/-! ## The lists -/

/-- Every commit that made `a` was before every commit that made `b`. -/
def MadeBefore {α : Type} (Made : Db P.Key → Rows P.Key → α → Prop) (db : Db P.Key) (a b : α) : Prop :=
  ∀ db₀ rows₀ db₁ rows₁, (Db.push db₀ rows₀).Le db → (Db.push db₁ rows₁).Le db →
    Made db₀ rows₀ a → Made db₁ rows₁ b → (db₀.push rows₀).Le db₁

/-- `m` was sent to `p` before `m'` was. -/
def SentBefore (our : Bytes32) (db : Db P.Key) (p : Peer) : OutgoingMessage → OutgoingMessage → Prop :=
  MadeBefore (fun db rows m => Stores our db rows p m) db

/-- `m` of `p` was accepted before `m'` was. -/
def AcceptedBefore (our : Bytes32) (db : Db P.Key) (p : Peer) : IncomingMessage → IncomingMessage → Prop :=
  MadeBefore (fun db rows m => AcceptTx our db p m rows) db

/-- The message `id` of `p` was acknowledged by the application. -/
def ReadIn (db : Db P.Key) (p : Peer) (id : MessageId) : Prop :=
  ∃ db₀ rows handle, (Db.push db₀ rows).Le db ∧ AckInTx handle id db₀ p rows

/-- What was sent to `p` and neither acknowledged nor abandoned, each once, in the order of the
sends. -/
structure ExactOutgoing (our : Bytes32) (db : Db P.Key) (p : Peer) (ms : List OutgoingMessage) :
    Prop where
  mem : ∀ m, m ∈ ms ↔ SentIn our db p m ∧ ¬ AckedIn db p m.clientMessageId ∧
    ¬ AbandonedIn db p m.clientMessageId
  nodup : ms.Nodup
  increasing : ms.Pairwise fun m m' => m.generation < m'.generation
  ordered : ms.Pairwise (SentBefore our db p)

/-- What was accepted from `p` and not acknowledged, each once, in the order of acceptance. -/
structure ExactIncoming (our : Bytes32) (db : Db P.Key) (p : Peer) (ms : List IncomingMessage) :
    Prop where
  mem : ∀ m, m ∈ ms ↔ AcceptedIn our db p m ∧ ¬ ReadIn db p m.messageId
  nodup : ms.Nodup
  increasing : ms.Pairwise fun m m' => m.generation < m'.generation
  ordered : ms.Pairwise (AcceptedBefore our db p)

theorem outbox_iff (h : db.Valid (Trans our)) (hcf : CollisionFree db) (hf : FreshKeys db)
    (p : Peer) (m : OutgoingMessage) :
    db.rows.lookup (.outbox p m.messageId) = some m ↔ SentIn our db p m ∧
      ¬ AckedIn db p m.clientMessageId ∧ ¬ AbandonedIn db p m.clientMessageId := by
  have hok := messagesOk h
  rw [← acknowledged_iff h hcf hf, ← abandoned_iff h hcf hf]
  constructor
  · intro hm
    have hs := statusAt_pending (hok.outbox_sendid p _ m hm) hm
    rw [hs]
    exact ⟨sentIn_of_ever h (Db.ever_now hm), nofun, nofun⟩
  · rintro ⟨⟨db₀, rows₀, handle, cid, pt, q, old, new, hle, hs⟩, hna, hnb⟩
    have hever : db.Ever (.outbox p m.messageId) m :=
      (Db.ever_now (Stores.outbox ⟨handle, cid, pt, q, old, new, hs⟩)).mono hle
    obtain ⟨r, hr, hid⟩ := hok.ever_sendid p _ m hever
    cases r with
    | abandoned id => exact absurd (statusAt_abandoned hr) hnb
    | sent id =>
      obtain rfl : id = m.messageId := hid
      cases hm : db.rows.lookup (.outbox p m.messageId) with
      | none => exact absurd (statusAt_acknowledged hr hm) hna
      | some m' => exact congrArg some (outbox_unique h hcf hf (Db.ever_now hm) hever).2

theorem inbox_iff (h : db.Valid (Trans our)) (p : Peer) (m : IncomingMessage) :
    db.rows.lookup (.inbox p m.messageId) = some m ↔
      AcceptedIn our db p m ∧ ¬ ReadIn db p m.messageId := by
  constructor
  · intro hm
    refine ⟨acceptedIn_of_ever h (Db.ever_now hm), ?_⟩
    rintro ⟨db₀, rows₀, handle, hle, ha⟩
    have hseen : rows₀.lookup (.seen p m.messageId) = some m.messageId :=
      (messagesAfter_of_eq ha.eq).snd rfl
    have hs := seen_stable h hle hseen
    rw [(messagesOk h).exclusive p m.messageId (by rw [hm]; rfl)] at hs
    cases hs
  · rintro ⟨⟨db₀, rows₀, hle, ha⟩, hn⟩
    have hw₀ : Waiting (db₀.push rows₀).rows p m := ha.waiting
    rcases kept_of_valid h hw₀ hle with hw | ⟨-, hr⟩
    · exact hw.1
    · obtain ⟨db₁, rows₁, handle, -, hle₁, ha₁⟩ := hr
      exact absurd ⟨db₁, rows₁, handle, hle₁, ha₁⟩ hn

/-- Of two different commits of one history, one is before the other. -/
theorem before_of_le {db₀ db₁ : Db P.Key} {rows₀ rows₁ : Rows P.Key}
    (h₀ : (db₀.push rows₀).Le db) (h₁ : (db₁.push rows₁).Le db)
    (hne : db₀.push rows₀ ≠ db₁.push rows₁) :
    (db₀.push rows₀).Le db₁ ∨ (db₁.push rows₁).Le db₀ := by
  rcases Db.le_total h₀ h₁ with hle | hle
  · rcases Db.le_push_cases hle with heq | hle
    · exact absurd heq hne
    · exact .inl hle
  · rcases Db.le_push_cases hle with heq | hle
    · exact absurd heq.symm hne
    · exact .inr hle

/-- A list in which the number of a message tells which was made first, sorted by the number. -/
theorem sorted_of_made {α : Type} (Made : Db P.Key → Rows P.Key → α → Prop) (gen : α → UInt64)
    {out : List α} (hn : out.Nodup)
    (hmade : ∀ a ∈ out, ∃ db₀ rows₀, (Db.push db₀ rows₀).Le db ∧ Made db₀ rows₀ a)
    (hunique : ∀ db₀ rows₀ a b, Made db₀ rows₀ a → Made db₀ rows₀ b → a = b)
    (hfirst : ∀ db₀ rows₀ db₁ rows₁, ∀ a ∈ out, ∀ b, (Db.push db₀ rows₀).Le db₁ →
      (Db.push db₁ rows₁).Le db → Made db₀ rows₀ a → Made db₁ rows₁ b → gen a < gen b) :
    (out.mergeSort fun a b => gen a ≤ gen b).Nodup ∧
      (out.mergeSort fun a b => gen a ≤ gen b).Pairwise (fun a b => gen a < gen b) ∧
      (out.mergeSort fun a b => gen a ≤ gen b).Pairwise (MadeBefore Made db) := by
  have hinj : ∀ a ∈ out, ∀ b ∈ out, gen a = gen b → a = b := by
    intro a ha b hb hgen
    obtain ⟨db₀, rows₀, h₀, hm₀⟩ := hmade a ha
    obtain ⟨db₁, rows₁, h₁, hm₁⟩ := hmade b hb
    by_cases heq : db₀.push rows₀ = db₁.push rows₁
    · obtain ⟨rfl, rfl⟩ := Db.push_inj heq
      exact hunique _ _ a b hm₀ hm₁
    · rcases before_of_le h₀ h₁ heq with hle | hle
      · exact absurd hgen (UInt64.ne_of_lt (hfirst _ _ _ _ a ha b hle h₁ hm₀ hm₁))
      · exact absurd hgen.symm (UInt64.ne_of_lt (hfirst _ _ _ _ b hb a hle h₀ hm₁ hm₀))
  have hlt := pairwise_mergeSort_lt gen hn hinj
  refine ⟨(List.mergeSort_perm _ _).nodup_iff.mpr hn, hlt, hlt.imp_of_mem fun {a b} ha hb hab => ?_⟩
  intro db₀ rows₀ db₁ rows₁ h₀ h₁ hm₀ hm₁
  have hne : db₀.push rows₀ ≠ db₁.push rows₁ := by
    intro heq
    obtain ⟨rfl, rfl⟩ := Db.push_inj heq
    obtain rfl := hunique _ _ a b hm₀ hm₁
    exact UInt64.lt_irrefl _ hab
  rcases before_of_le h₀ h₁ hne with hle | hle
  · exact hle
  · have hgt := hfirst _ _ _ _ b (List.mem_mergeSort.mp hb) a hle h₀ hm₁ hm₀
    exact absurd hab (UInt64.lt_asymm hgt)

theorem pendingOutgoing_alone (hv : db.Valid (Trans our)) {handle : UInt64} {p : Peer}
    {s s' : Device P.Key Memory} {r : Except MessagingError (List OutgoingMessage)} (hs : s.db = db)
    (hp : db.rows.lookup (.handle handle) = some p)
    (h : Prog.Alone Choice.Calm (pendingOutgoing (P := P) handle).run s r s') :
    ∃ out : List OutgoingMessage, r = .ok (out.mergeSort fun a b => a.generation ≤ b.generation) ∧
      out.Nodup ∧ ∀ m, m ∈ out ↔ db.rows.lookup (.outbox p m.messageId) = some m := by
  subst hs
  have hok := messagesOk hv
  have hkey := Rows.outboxId_iff p
  rcases Run.alone_bind h with ⟨a, s₁, h1, h2⟩ | ⟨e, h1, -⟩
  swap
  · cases (requirePeer_alone hp h1).2
  obtain ⟨rfl, ha⟩ := requirePeer_alone hp h1
  cases ha
  rcases Run.alone_bind h2 with ⟨ids, s₂, h3, h4⟩ | ⟨e, h3, -⟩
  swap
  · cases (keysUnder_alone h3).2
  obtain ⟨rfl, hids⟩ := keysUnder_alone h3
  obtain rfl := Except.ok.inj hids
  -- Every listed record is there, and decodes to itself.
  have hread : ∀ id ∈ s₂.db.rows.idsOf (Rows.outboxId p), ∀ (r : Except MessagingError OutgoingMessage) s',
      Prog.Alone Choice.Calm (readListed (P := P) (.outbox p id) >>= fun m =>
        checked (decodeOutbox P m)).run s₂ r s' →
        s' = s₂ ∧ ∃ m, r = .ok m ∧ s₂.db.rows.lookup (.outbox p id) = some m := by
    intro id hid r s' h
    obtain ⟨m, hm⟩ := Option.isSome_iff_exists.mp ((Rows.mem_idsOf hkey).mp hid)
    rcases Run.alone_bind h with ⟨a, s₃, h5, h6⟩ | ⟨e, h5, -⟩
    · obtain ⟨rfl, ha⟩ := readListed_alone hm h5
      cases ha
      rw [(sentIn_of_ever hv (Db.ever_now hm)).decode] at h6
      cases h6 with
      | ret => exact ⟨rfl, m, rfl, hm⟩
    · cases (readListed_alone hm h5).2
  rcases Run.alone_bind h4 with ⟨out, s₃, h5, h6⟩ | ⟨e, h5, -⟩
  swap
  · obtain ⟨-, _, he, -⟩ := readEach_alone hread h5
    cases he
  obtain ⟨rfl, _, he, hout⟩ := readEach_alone hread h5
  cases he
  have hid : ∀ id (m : OutgoingMessage), s₃.db.rows.lookup (.outbox p id) = some m →
      m.messageId = id := fun id m hm => (hok.outbox_id p id m (Db.ever_now hm)).1
  have hu : ∀ id (m m' : OutgoingMessage), s₃.db.rows.lookup (.outbox p id) = some m →
      s₃.db.rows.lookup (.outbox p id) = some m' → m = m' :=
    fun id m m' hm hm' => Option.some.inj (hm.symm.trans hm')
  cases h6 with
  | ret =>
    refine ⟨out, rfl, nodup_of_listing hid hout (Rows.nodup_idsOf hkey), fun m => ?_⟩
    rw [mem_of_listing hid hu hout, Rows.mem_idsOf hkey]
    exact ⟨fun h => h.2, fun h => ⟨by rw [h]; rfl, h⟩⟩

theorem pendingIncoming_alone (hv : db.Valid (Trans our)) {handle : UInt64} {p : Peer}
    {s s' : Device P.Key Memory} {r : Except MessagingError (List IncomingMessage)} (hs : s.db = db)
    (hp : db.rows.lookup (.handle handle) = some p)
    (h : Prog.Alone Choice.Calm (pendingIncoming (P := P) handle).run s r s') :
    ∃ out : List IncomingMessage, r = .ok (out.mergeSort fun a b => a.generation ≤ b.generation) ∧
      out.Nodup ∧ ∀ m, m ∈ out ↔ db.rows.lookup (.inbox p m.messageId) = some m := by
  subst hs
  have hok := messagesOk hv
  have hkey := Rows.inboxId_iff p
  rcases Run.alone_bind h with ⟨a, s₁, h1, h2⟩ | ⟨e, h1, -⟩
  swap
  · cases (requirePeer_alone hp h1).2
  obtain ⟨rfl, ha⟩ := requirePeer_alone hp h1
  cases ha
  rcases Run.alone_bind h2 with ⟨ids, s₂, h3, h4⟩ | ⟨e, h3, -⟩
  swap
  · cases (keysUnder_alone h3).2
  obtain ⟨rfl, hids⟩ := keysUnder_alone h3
  obtain rfl := Except.ok.inj hids
  have hread : ∀ id ∈ s₂.db.rows.idsOf (Rows.inboxId p), ∀ (r : Except MessagingError IncomingMessage) s',
      Prog.Alone Choice.Calm (readListed (P := P) (.inbox p id)).run s₂ r s' →
        s' = s₂ ∧ ∃ m, r = .ok m ∧ s₂.db.rows.lookup (.inbox p id) = some m := by
    intro id hid r s' h
    obtain ⟨m, hm⟩ := Option.isSome_iff_exists.mp ((Rows.mem_idsOf hkey).mp hid)
    obtain ⟨rfl, hr⟩ := readListed_alone hm h
    exact ⟨rfl, m, hr, hm⟩
  rcases Run.alone_bind h4 with ⟨out, s₃, h5, h6⟩ | ⟨e, h5, -⟩
  swap
  · obtain ⟨-, _, he, -⟩ := readEach_alone hread h5
    cases he
  obtain ⟨rfl, _, he, hout⟩ := readEach_alone hread h5
  cases he
  have hid : ∀ id (m : IncomingMessage), s₃.db.rows.lookup (.inbox p id) = some m →
      m.messageId = id := fun id m hm => hok.inbox_id p id m hm
  have hu : ∀ id (m m' : IncomingMessage), s₃.db.rows.lookup (.inbox p id) = some m →
      s₃.db.rows.lookup (.inbox p id) = some m' → m = m' :=
    fun id m m' hm hm' => Option.some.inj (hm.symm.trans hm')
  cases h6 with
  | ret =>
    refine ⟨out, rfl, nodup_of_listing hid hout (Rows.nodup_idsOf hkey), fun m => ?_⟩
    rw [mem_of_listing hid hu hout, Rows.mem_idsOf hkey]
    exact ⟨fun h => h.2, fun h => ⟨by rw [h]; rfl, h⟩⟩

/-- Both lists of every handle are exact and in order. -/
structure PendingExact (our : Bytes32) (c : Conf P) : Prop where
  outgoing : ∀ handle (p : Peer), c.shared.db.rows.lookup (.handle handle) = some p →
    Returns (pendingOutgoing (P := P) handle) c.shared (ExactOutgoing our c.shared.db p)
  incoming : ∀ handle (p : Peer), c.shared.db.rows.lookup (.handle handle) = some p →
    Returns (pendingIncoming (P := P) handle) c.shared (ExactIncoming our c.shared.db p)

variable {c : Conf P}

theorem pending_exact (h : Reachable our c) (hcf : CollisionFree c.shared.db)
    (hf : FreshKeys c.shared.db) (hone : OnePeerPerHandle c.shared.db) : PendingExact our c where
  outgoing handle p hp := by
    refine .of_alone fun r s' ha => ?_
    obtain ⟨out, rfl, hn, hmem⟩ := pendingOutgoing_alone h.valid rfl hp ha
    have hiff := fun m => (hmem m).trans (outbox_iff h.valid hcf hf p m)
    obtain ⟨h1, h2, h3⟩ := sorted_of_made (fun db rows m => Stores our db rows p m)
      OutgoingMessage.generation hn
      (fun m hm => by
        obtain ⟨⟨db₀, rows₀, handle₀, cid, pt, q, old, new, hle, hs⟩, -⟩ := (hiff m).mp hm
        exact ⟨db₀, rows₀, hle, handle₀, cid, pt, q, old, new, hs⟩)
      (fun _ _ _ _ hs hs' => hs.unique hs')
      fun _ _ _ _ m hm _ h₀ h₁ hs hs' => sent_first h.valid hcf hf hone h₀ h₁ hs hs' ((hmem m).mp hm)
    exact ⟨_, rfl, fun m => by rw [List.mem_mergeSort, hiff], h1, h2, h3⟩
  incoming handle p hp := by
    refine .of_alone fun r s' ha => ?_
    obtain ⟨out, rfl, hn, hmem⟩ := pendingIncoming_alone h.valid rfl hp ha
    have hiff := fun m => (hmem m).trans (inbox_iff h.valid p m)
    obtain ⟨h1, h2, h3⟩ := sorted_of_made (fun db rows m => AcceptTx our db p m rows)
      IncomingMessage.generation hn (fun m hm => ((hiff m).mp hm).1)
      (fun _ _ _ _ ha ha' => ha.unique ha')
      fun _ _ _ _ m hm _ h₀ h₁ ha ha' => accepted_first h.valid hcf h₀ h₁ ha ha' ((hmem m).mp hm)
    exact ⟨_, rfl, fun m => by rw [List.mem_mergeSort, hiff], h1, h2, h3⟩

/-- In the run of one send its message is the pending list. -/
theorem pending_exact_oneSend : ∃ c : Conf symbolicPlatform, Reachable OneSend.ours c ∧
    c.shared.db.rows.lookup (.outbox OneSend.peer OneSend.message.messageId) = some OneSend.message ∧
    PendingExact OneSend.ours c := by
  obtain ⟨c, -, hr, hdb, -⟩ := OneSend.run_facts
  have hone : OnePeerPerHandle (Db.after OneSend.writes) :=
    fun _ _ _ hp hq => (OneSend.ever_handle hp).2.trans (OneSend.ever_handle hq).2.symm
  refine ⟨c, hr, ?_, pending_exact hr (hdb ▸ OneSend.collisionFree) (hdb ▸ OneSend.freshKeys)
    (hdb ▸ hone)⟩
  rw [hdb]
  exact Rows.lookup_applyAll_head (k := .outbox OneSend.peer _)
    (Rows.apply _ ⟨.session OneSend.peer, some OneSend.advanced⟩) (some OneSend.message) (by simp)

/-! A run in which a handle is given to a second peer, as in `Obligations`: a send that found `alice`
under handle 7 stores its message for `alice` with the generation of `bob`, which is 1. Then a
message is sent to `alice` on her own session, and gets generation 1 too. -/

namespace HandleReuse

def crossed : List (System.Turn Choice (Call symbolicPlatform.Key)) :=
  .invoke 0 (.createSession 0 (new 7 alice (fill 1))) :: go 0 3 ++
  .invoke 1 (.send 1 7 [1] [7]) :: go 1 3 ++
  .invoke 0 (.removeSession 0 7) :: go 0 6 ++
  .invoke 0 (.createSession 0 (new 7 bob (fill 3))) :: go 0 3 ++
  .invoke 0 (.createSession 0 (new 9 alice (fill 5))) :: go 0 3 ++
  go 1 5 ++
  .invoke 0 (.send 0 9 [2] [8]) :: go 0 8

def crossing : Option (Conf symbolicPlatform) :=
  (system symbolicPlatform ours).play (Config.init (Device.fresh symbolicPlatform)) crossed

/-- The peer of handle 9. -/
def named (rows : Rows symbolicPlatform.Key) : Option Peer := rows.lookup (Key.handle 9)

/-- A pending message of `alice`. -/
def pendingOf (rows : Rows symbolicPlatform.Key) (id : MessageId) : Option OutgoingMessage :=
  rows.lookup (Key.outbox alice id)

/-- Handle 9 names `alice`, for whom two messages are pending, both with generation 1. -/
def twins (rows : Rows symbolicPlatform.Key) : Bool :=
  named rows == some alice &&
    match rows.keys.filterMap (Rows.outboxId alice) with
    | [a, b] => a != b && (pendingOf rows a).map OutgoingMessage.generation == some 1 &&
      (pendingOf rows b).map OutgoingMessage.generation == some 1
    | _ => false

theorem not_pendingExact {c : Conf symbolicPlatform} (hr : Reachable ours c)
    (ht : twins c.shared.db.rows = true) : ¬ PendingExact ours c := by
  intro h
  have hok := messagesOk hr.valid
  simp only [twins, Bool.and_eq_true, beq_iff_eq] at ht
  obtain ⟨hp, ht⟩ := ht
  split at ht
  · next a b hids =>
    simp only [Bool.and_eq_true, beq_iff_eq, bne_iff_ne, Option.map_eq_some_iff] at ht
    obtain ⟨⟨hne, m, hm, hgm⟩, m', hm', hgm'⟩ := ht
    obtain ⟨⟨r, s', ha⟩, hex⟩ := h.outgoing 9 alice hp
    obtain ⟨ms, rfl, hexact⟩ := hex r s' ha
    obtain ⟨out, hout, -, hmem⟩ := pendingOutgoing_alone hr.valid rfl hp ha
    obtain rfl := Except.ok.inj hout
    obtain ⟨rfl, -⟩ := hok.outbox_id alice a m (Db.ever_now hm)
    obtain ⟨rfl, -⟩ := hok.outbox_id alice b m' (Db.ever_now hm')
    -- A strictly increasing list holds each generation once.
    have hnodup : (out.mergeSort fun a b => a.generation ≤ b.generation).map
        OutgoingMessage.generation |>.Nodup :=
      List.pairwise_map.mpr (hexact.increasing.imp UInt64.ne_of_lt)
    have heq := List.inj_on_of_nodup_map hnodup (List.mem_mergeSort.mpr ((hmem m).mpr hm))
      (List.mem_mergeSort.mpr ((hmem m').mpr hm')) (hgm.trans hgm'.symm)
    exact hne (by rw [heq])
  · cases ht

end HandleReuse

/-- In that run the two pending messages of `alice` have the same generation. -/
theorem pending_out_of_order : ∃ c : Conf symbolicPlatform, Reachable HandleReuse.ours c ∧
    ¬ PendingExact HandleReuse.ours c := by
  have hs : HandleReuse.crossing.isSome = true := by decide +kernel
  have ht : HandleReuse.crossing.map (fun c => HandleReuse.twins c.shared.db.rows) = some true := by
    decide +kernel
  obtain ⟨c, hc⟩ := Option.isSome_iff_exists.mp hs
  rw [hc] at ht
  have hr : Reachable HandleReuse.ours c := by
    refine System.Reach.play .refl (fun i call hcall => ?_) hc
    -- None of the calls brings extra records.
    simp only [HandleReuse.crossed, HandleReuse.go, List.replicate, List.cons_append,
      List.nil_append, List.mem_cons, List.not_mem_nil, System.Turn.invoke.injEq, reduceCtorEq,
      false_or, or_false] at hcall
    rcases hcall with ⟨-, rfl⟩ | ⟨-, rfl⟩ | ⟨-, rfl⟩ | ⟨-, rfl⟩ | ⟨-, rfl⟩ | ⟨-, rfl⟩
    · exact appOnly_nil
    · trivial
    · trivial
    · exact appOnly_nil
    · exact appOnly_nil
    · trivial
  exact ⟨c, hr, HandleReuse.not_pendingExact hr (Option.some.inj ht)⟩

end Messenger

end Arcium
