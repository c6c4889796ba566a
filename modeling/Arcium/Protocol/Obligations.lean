import Arcium.Protocol.Guarantees

/-!
# What ends a session

`remove_session` and `retire_legacy` look for what the messenger still owes a peer before the
transaction that deletes its session, and the transaction checks only that the session record is the
one they loaded. That is enough if whatever adds an obligation also changes that record: `OutboxOwed`
says so of the outbox, over every history.

It is not enough if a handle is given to a second peer: then a `send` can store a message for the
peer it found first and advance the session of the other, and a removal can delete the handle of the
other. `keeps_obligations` is for the runs without that (`OnePeerPerHandle`).
-/

namespace Arcium

open Conc

namespace Messenger

variable {P : Platform} {our : Bytes32} {db db' : Db P.Key} {rows : Rows P.Key}

/-- No handle is ever registered for two peers. -/
def OnePeerPerHandle (db : Db P.Key) : Prop :=
  ∀ (handle : UInt64) (p q : Peer), db.Ever (.handle handle) p → db.Ever (.handle handle) q → p = q

theorem OnePeerPerHandle.mono (h : OnePeerPerHandle db') (hle : db.Le db') : OnePeerPerHandle db :=
  fun handle p q hp hq => h handle p q (hp.mono hle) (hq.mono hle)

/-- What a handle named at some time. -/
theorem Loaded.named {handle : UInt64} {peer : Peer} {old : SessionRecord P.Key}
    (h : Loaded our db handle peer old) : db.Ever (.handle handle) peer := by
  obtain ⟨⟨db₀, db₁, h1, h2, h3, -⟩, -⟩ := h
  exact (Db.ever_now h3).mono (h1.trans h2)

/-- A send stores its message for the peer whose session it advances. -/
theorem SendTx.straight {handle : UInt64} {clientId plaintext : Bytes} {p q : Peer}
    {old new : SessionRecord P.Key} {m : OutgoingMessage}
    (h : SendTx our handle clientId plaintext db p q old new m rows) (ho : OnePeerPerHandle db) :
    p = q := by
  obtain ⟨db₀, hle, h₀⟩ := h.named
  exact ho handle p q ((Db.ever_now h₀).mono hle) h.loaded.named

theorem SendTx.sendingKey {handle : UInt64} {clientId plaintext : Bytes} {p q : Peer}
    {old new : SessionRecord P.Key} {m : OutgoingMessage}
    (h : SendTx our handle clientId plaintext db p q old new m rows) :
    Messenger.sendingKey new = Messenger.sendingKey old ∧
      new.ratchet.hasReceivingChain = old.ratchet.hasReceivingChain := by
  obtain ⟨nonce, out, he, -⟩ := h.encrypts
  obtain ⟨ck, hck, -, hr, -⟩ := DoubleRatchet.encrypt_ok he
  refine ⟨?_, he.hasReceivingChain⟩
  simp [Messenger.sendingKey, hr, DoubleRatchet.advanceSend, hck, DoubleRatchet.ourDhPublic]

/-! ## The chain of a session only grows -/

/-- Of the records with one sending key, the stored one has the highest counter. -/
theorem ns_le_stored (h : db.Valid (Trans our)) (hcf : CollisionFree db) (hf : FreshKeys db)
    {q q' : Peer} {rec rec' : SessionRecord P.Key} {key : PublicKey} (he : db.Ever (.session q) rec)
    (hk : sendingKey rec = some key) (hr : db.rows.lookup (.session q') = some rec')
    (hk' : sendingKey rec' = some key) : rec.ratchet.ns ≤ rec'.ratchet.ns := by
  have hok := chainsOk h hcf hf
  induction h generalizing q' rec' with
  | empty => exact (Db.not_ever_empty he).elim
  | push hv ht ih =>
    have hcf' := hcf.mono (Db.le_push _ _)
    have hf' := hf.mono (Db.le_push _ _)
    rcases Db.ever_push.mp he with hn | he
    · obtain rfl := hok.apart q q' rec rec' key hn hr hk hk'
      obtain rfl := Option.some.inj (hn.symm.trans hr)
      exact UInt32.le_refl _
    · obtain ⟨old, ho, hko, hle⟩ := ht.key_before hcf' hf hr hk' ⟨q, rec, he, hk⟩
      exact UInt32.le_trans (ih hcf' hf' he ho hko (chainsOk hv hcf' hf')) hle

/-- A message that is pending now and was not then was sent in between. -/
theorem sent_since (h : db'.Valid (Trans our)) (hle : db.Le db') {p : Peer} {id : MessageId}
    {m : OutgoingMessage} (hn : db.rows.lookup (.outbox p id) = none)
    (hm : db'.rows.lookup (.outbox p id) = some m) :
    ∃ db₁ rows₁ handle clientId plaintext q old new, db.Le db₁ ∧ (Db.push db₁ rows₁).Le db' ∧
      SendTx our handle clientId plaintext db₁ p q old new m rows₁ := by
  induction h with
  | empty =>
    rw [Db.le_empty hle, hm] at hn
    cases hn
  | push hv ht ih =>
    rcases Db.le_push_cases hle with rfl | hle
    · rw [hm] at hn
      cases hn
    · rcases ht.messages.outbox hm with hm | ⟨-, -, -, -, handle, cid, pt, q, old, new, hs⟩
      · obtain ⟨db₁, rows₁, handle, cid, pt, q, old, new, h1, h2, h3⟩ := ih hle hm
        exact ⟨db₁, rows₁, handle, cid, pt, q, old, new, h1, h2.trans (Db.le_push _ _), h3⟩
      · exact ⟨_, _, handle, cid, pt, q, old, new, hle, Db.Le.refl _, hs⟩

/-! ## Pending messages -/

/-- The pending message `m` of `p` belongs to the session of `p`: until something is received on
it, `m` was sent on its chain. -/
def Owed (rows : Rows P.Key) (p : Peer) (m : OutgoingMessage) : Prop :=
  ∃ rec : SessionRecord P.Key, rows.lookup (.session p) = some rec ∧
    (rec.ratchet.hasReceivingChain = false →
      ∃ header, HasHeader m header ∧ sendingKey rec = some header.dh)

def OutboxOwed (rows : Rows P.Key) : Prop :=
  ∀ (p : Peer) (id : MessageId) (m : OutgoingMessage), rows.lookup (.outbox p id) = some m →
    Owed rows p m

/-- An empty listing lists everything. -/
theorem lookup_of_idsOf_nil {idOf : Key → Option MessageId} {k : Key} {id : MessageId}
    (hk : idOf k = some id) (h : rows.idsOf idOf = []) : rows.lookup k = none := by
  by_contra hn
  have hmem : k ∈ rows.keys := by
    rw [← AList.mem_keys, ← AList.lookup_isSome]
    exact Option.isSome_iff_ne_none.mpr hn
  have : id ∈ rows.idsOf idOf := List.mem_mergeSort.mpr (List.mem_filterMap.mpr ⟨k, hmem, hk⟩)
  rw [h] at this
  cases this

/-- A removal finds nothing pending: what was sent after it looked is on a later place of the
chain than the record it finds unchanged. -/
theorem RemoveTx.idle_outbox {handle : UInt64} {peer : Peer} {old : SessionRecord P.Key}
    (h : RemoveTx our handle db peer old rows) (hv : db.Valid (Trans our)) (hcf : CollisionFree db)
    (hf : FreshKeys db) (ho : OutboxOwed db.rows) (id : MessageId) :
    db.rows.lookup (.outbox peer id) = none := by
  by_contra hn
  obtain ⟨m, hm⟩ := Option.ne_none_iff_exists'.mp hn
  obtain ⟨db₁, hload, hle₁, hids⟩ := h.idle
  have hold := h.unchanged.eq hcf h.loaded.ever
  obtain ⟨rec, hrec, hkey⟩ := ho peer id m hm
  obtain rfl := Option.some.inj (hrec.symm.trans hold)
  obtain ⟨header, hh, hkey⟩ := hkey h.unconfirmed
  have hid : Rows.outboxId peer (.outbox peer id) = some id := by simp [Rows.outboxId]
  have hn₁ : db₁.rows.lookup (.outbox peer id) = none := lookup_of_idsOf_nil hid hids
  obtain ⟨db₂, rows₂, handle₂, cid, pt, q, o, n, hle₂, hle₃, hs⟩ := sent_since hv hle₁ hn₁ hm
  have hle₂' : db₂.Le db := (Db.le_push _ _).trans hle₃
  obtain ⟨header', hh', hkey', hns⟩ := hs.position
  obtain rfl := hh.unique hh'
  have hlow := ns_le_stored (hv.le hle₂') (hcf.mono hle₂') (hf.mono hle₂')
    (hload.ever.mono hle₂) hkey (hs.unchanged.eq (hcf.mono hle₂') hs.loaded.ever) hkey'
  have hhigh := (chainsOk hv hcf hf).below peer id m header peer rec (Db.ever_now hm) hh hold hkey
  rw [hns] at hhigh
  exact absurd hhigh (UInt32.not_lt.mpr hlow)

/-- A retirement finds nothing pending: a legacy session has never sent. -/
theorem RetireTx.idle_outbox {handle : UInt64} {record : ProvisionalHandshake}
    {validated : ValidatedRecord P.Key} {peer : Peer} {old : SessionRecord P.Key}
    (h : RetireTx our handle record validated db peer old rows) (hcf : CollisionFree db)
    (ho : OutboxOwed db.rows) (id : MessageId) : db.rows.lookup (.outbox peer id) = none := by
  by_contra hn
  obtain ⟨m, hm⟩ := Option.ne_none_iff_exists'.mp hn
  obtain ⟨rec, hrec, hkey⟩ := ho peer id m hm
  obtain rfl := Option.some.inj (hrec.symm.trans (h.unchanged.eq hcf h.loaded.ever))
  obtain ⟨header, -, hkey⟩ := hkey h.legacy.hasReceivingChain
  have hcks : rec.ratchet.cks = none := by
    have hi := h.legacy.2.2
    simp only [DoubleRatchet.isInitialResponderState, Bool.and_eq_true] at hi
    simpa using hi.1.1.1.1.1.2
  simp [sendingKey, hcks] at hkey

theorem EndTx.idle_outbox {peer : Peer} {old : SessionRecord P.Key} (h : EndTx our db peer old rows)
    (hv : db.Valid (Trans our)) (hcf : CollisionFree db) (hf : FreshKeys db)
    (ho : OutboxOwed db.rows) (id : MessageId) : db.rows.lookup (.outbox peer id) = none := by
  cases h with
  | remove handle h => exact h.idle_outbox hv hcf hf ho id
  | retire handle record validated h => exact h.idle_outbox hcf ho id

/-- One step keeps it. -/
theorem OutboxOwed.push (ho : OutboxOwed db.rows) (ht : Trans our db rows)
    (hv : db.Valid (Trans our)) (hcf : CollisionFree db) (hf : FreshKeys db)
    (hone : OnePeerPerHandle db) : OutboxOwed rows := by
  intro p id m hm
  rcases ht.messages.outbox hm with hm₀ | ⟨-, -, -, -, handle, cid, pt, q, old, new, hs⟩
  · obtain ⟨rec, hrec, hkey⟩ := ho p id m hm₀
    cases ht.session p with
    | same h => exact ⟨rec, h.trans hrec, hkey⟩
    | created new before => rw [before] at hrec; cases hrec
    | promoted first wire new m' h hp before => rw [before] at hrec; cases hrec
    | sent handle clientId plaintext dest old new m' h after =>
      obtain rfl := Option.some.inj (hrec.symm.trans (h.unchanged.eq hcf h.loaded.ever))
      obtain ⟨hk, hr⟩ := h.sendingKey
      exact ⟨new, after, fun hn => hk ▸ hkey (hr ▸ hn)⟩
    | received handle wire old new m' h after =>
      exact ⟨new, after, fun hn => nomatch h.received.symm.trans hn⟩
    | ended old ever unchanged unconfirmed after tx =>
      rw [tx.idle_outbox hv hcf hf ho id] at hm₀
      cases hm₀
  · obtain rfl := hs.straight hone
    obtain ⟨header, hh, hkey, -⟩ := hs.position
    refine ⟨new, ?_, fun _ => ⟨header, hh, hs.sendingKey.1.trans hkey⟩⟩
    rw [hs.eq]
    exact Rows.lookup_applyAll_head _ _ (by simp)

/-- Every history keeps it. -/
theorem outboxOwed (h : db.Valid (Trans our)) (hcf : CollisionFree db) (hf : FreshKeys db)
    (hone : OnePeerPerHandle db) : OutboxOwed db.rows := by
  induction h with
  | empty => exact fun _ _ _ h => nomatch h
  | push hv ht ih =>
    have hcf' := hcf.mono (Db.le_push _ _)
    have hf' := hf.mono (Db.le_push _ _)
    have hone' := hone.mono (Db.le_push _ _)
    exact (ih hcf' hf' hone').push ht hv hcf' hf' hone'

/-! ## Removal and retirement -/

/-- The step from `db` to `db'` was made by `call`. -/
def Did (c : Conf P) (call : Call P.Key) (db db' : Db P.Key) : Prop :=
  (∃ i t, c.threads i = some t ∧ t.call = call ∧ (db, db') ∈ dbs t.trace) ∨
    ∃ d ∈ c.done, d.call = call ∧ (db, db') ∈ dbs d.trace

/-- Under `handle` the session of `peer` was deleted: nothing was received on it, nothing was
pending, and only its own records changed. -/
structure Removed (handle : UInt64) (peer : Peer) (db db' : Db P.Key) : Prop where
  unconfirmed : ∃ rec : SessionRecord P.Key, db.rows.lookup (.session peer) = some rec ∧
    rec.ratchet.hasReceivingChain = false
  outbox : ∀ id, db.rows.lookup (.outbox peer id) = none
  registered : ∀ q : Peer, db.rows.lookup (.handle handle) = some q → q = peer
  deleted : ∀ k ∈ [Key.session peer, .handle handle, .handshake peer], db'.rows.lookup k = none
  frame : ∀ k ∉ [Key.session peer, .handle handle, .handshake peer],
    db'.rows.lookup k = db.rows.lookup k

/-- Under `handle` the legacy session of `peer` gave way to `provisional`. -/
structure Retired (handle : UInt64) (provisional : ProvisionalHandshake)
    (validated : ValidatedRecord P.Key) (peer : Peer) (db db' : Db P.Key) : Prop where
  legacy : ∃ rec : SessionRecord P.Key, db.rows.lookup (.session peer) = some rec ∧
    LegacyUnconfirmed rec
  outbox : ∀ id, db.rows.lookup (.outbox peer id) = none
  inbox : ∀ id, db.rows.lookup (.inbox peer id) = none
  registered : db.rows.lookup (.handle handle) = some peer
  noHandshake : db.rows.lookup (.handshake peer) = none
  noProvisional : db.rows.lookup (.provisional handle) = none
  checked : db.rows.lookup validated.key = some validated.value
  deleted : ∀ k ∈ [Key.session peer, .handle handle], db'.rows.lookup k = none
  recorded : db'.rows.lookup (.provisional handle) = some provisional
  frame : ∀ k ∉ [Key.session peer, .handle handle, .provisional handle],
    db'.rows.lookup k = db.rows.lookup k

/-- Under `handle` only `provisional` was recorded. -/
structure Recorded (handle : UInt64) (provisional : ProvisionalHandshake) (db db' : Db P.Key) :
    Prop where
  recorded : db'.rows.lookup (.provisional handle) = some provisional
  frame : ∀ k, k ≠ .provisional handle → db'.rows.lookup k = db.rows.lookup k

/-- The calls that may end a session. -/
def Call.MayEnd {K : Type} : Call K → Prop
  | .removeSession _ _ => True
  | .recordProvisionalHandshake _ _ _ _ => True
  | _ => False

/-- Removal and retirement destroy no obligation, and a refusal changes nothing. -/
structure KeepsObligations (c : Conf P) : Prop where
  removed : ∀ i handle db db', Did c (.removeSession i handle) db db' →
    db' = db ∨ ∃ peer, Removed handle peer db db'
  retired : ∀ i handle provisional validated db db',
    Did c (.recordProvisionalHandshake i handle provisional validated) db db' →
      db' = db ∨ Recorded handle provisional db db' ∨
        ∃ peer, Retired handle provisional validated peer db db'
  refused : ∀ d ∈ c.done, d.call.MayEnd → ∀ e, d.res = .done (.error e) →
    (∀ f, e ≠ .repeatableOutcomeUnknown f) → Quiet (dbs d.trace)

variable {c : Conf P}

/-- What a call did is a transaction of its own, in the history. -/
theorem Did.moves (h : Reachable our c) {call : Call P.Key} (hd : Did c call db db') :
    Moves (Tx our call) db db' ∧ db'.Le c.shared.db := by
  rcases hd with ⟨i, t, ht, rfl, hx⟩ | ⟨d, hd, rfl, hx⟩
  · obtain ⟨x, hxt, he⟩ := List.mem_map.mp hx
    cases he
    exact h.holds.acted i t ht x hxt
  · obtain ⟨x, hxt, he⟩ := List.mem_map.mp hx
    cases he
    exact h.holds.did d hd x hxt

theorem RemoveTx.removed {handle : UInt64} {peer : Peer} {old : SessionRecord P.Key}
    (h : RemoveTx our handle db peer old rows) (hv : db.Valid (Trans our)) (hcf : CollisionFree db)
    (hf : FreshKeys db) (hone : OnePeerPerHandle db) :
    Removed handle peer db (db.push rows) where
  unconfirmed := ⟨old, h.unchanged.eq hcf h.loaded.ever, h.unconfirmed⟩
  outbox := h.idle_outbox hv hcf hf (outboxOwed hv hcf hf hone)
  registered q hq := hone handle q peer (Db.ever_now hq) h.loaded.named
  deleted k hk := by
    rw [Db.push_rows, h.eq]
    simp only [List.mem_cons, List.not_mem_nil, or_false] at hk
    rcases hk with rfl | rfl | rfl
    · exact Rows.lookup_applyAll_head _ _ (by simp)
    · exact Rows.lookup_applyAll_head (db.rows.apply _) _ (by simp)
    · exact Rows.lookup_applyAll_head ((db.rows.apply _).apply _) _ (by simp)
  frame k hk := by
    rw [Db.push_rows, h.eq]
    exact Rows.lookup_applyAll_ne _ (by simpa using hk)

theorem RetireTx.retired {handle : UInt64} {provisional : ProvisionalHandshake}
    {validated : ValidatedRecord P.Key} {peer : Peer} {old : SessionRecord P.Key}
    (h : RetireTx our handle provisional validated db peer old rows) (hv : db.Valid (Trans our))
    (hcf : CollisionFree db) (hf : FreshKeys db) (hone : OnePeerPerHandle db) :
    Retired handle provisional validated peer db (db.push rows) where
  legacy := ⟨old, h.unchanged.eq hcf h.loaded.ever, h.legacy⟩
  outbox := h.idle_outbox hcf (outboxOwed hv hcf hf hone)
  inbox id := by
    by_contra hn
    -- A peer with an accepted message has a session that was received on.
    have ha : Accepted db.rows peer id := .inl (Option.isSome_iff_ne_none.mpr hn)
    obtain ⟨rec, hrec, hr⟩ := accepted_confirmed hv hcf ha
    obtain rfl := Option.some.inj (hrec.symm.trans (h.unchanged.eq hcf h.loaded.ever))
    rw [h.legacy.hasReceivingChain] at hr
    cases hr
  registered := h.registered
  noHandshake := h.noHandshake
  noProvisional := h.noProvisional
  checked := h.validated
  deleted k hk := by
    rw [Db.push_rows, h.eq]
    simp only [List.mem_cons, List.not_mem_nil, or_false] at hk
    rcases hk with rfl | rfl
    · exact Rows.lookup_applyAll_head _ _ (by simp)
    · exact Rows.lookup_applyAll_head (db.rows.apply _) _ (by simp)
  recorded := by
    rw [Db.push_rows, h.eq]
    exact Rows.lookup_applyAll_head ((db.rows.apply _).apply _) _ (by simp)
  frame k hk := by
    rw [Db.push_rows, h.eq]
    exact Rows.lookup_applyAll_ne _ (by simpa using hk)

theorem ProvisionalTx.recorded {handle : UInt64} {provisional : ProvisionalHandshake}
    (h : ProvisionalTx handle provisional db rows) :
    Recorded handle provisional db (db.push rows) where
  recorded := by
    rw [Db.push_rows, h.eq]
    exact Rows.lookup_applyAll_head _ _ (by simp)
  frame k hk := by
    rw [Db.push_rows, h.eq]
    exact Rows.lookup_applyAll_ne _ (by simpa using hk)

/-- In every run in which no handle is registered for two peers. -/
theorem keeps_obligations (h : Reachable our c) (hcf : CollisionFree c.shared.db)
    (hf : FreshKeys c.shared.db) (hone : OnePeerPerHandle c.shared.db) : KeepsObligations c where
  removed i handle db db' hd := by
    obtain ⟨hm, hle⟩ := hd.moves h
    rcases hm with hm | ⟨rows, ⟨peer, old, ht⟩, rfl⟩
    · exact .inl hm
    · have hle' := (Db.le_push _ _).trans hle
      exact .inr ⟨peer, ht.removed (h.valid.le hle') (hcf.mono hle') (hf.mono hle') (hone.mono hle')⟩
  retired i handle provisional validated db db' hd := by
    obtain ⟨hm, hle⟩ := hd.moves h
    rcases hm with hm | ⟨rows, ht | ⟨peer, old, ht⟩, rfl⟩
    · exact .inl hm
    · exact .inr (.inl ht.recorded)
    · have hle' := (Db.le_push _ _).trans hle
      exact .inr (.inr ⟨peer,
        ht.retired (h.valid.le hle') (hcf.mono hle') (hf.mono hle') (hone.mono hle')⟩)
  refused d hd hcall e he hne := by
    obtain ⟨-, s, -, -, hs⟩ := h.holds.returned d hd
    have hpost := hs.post
    cases hc : d.call with
    | removeSession i handle =>
      rw [hc] at hpost
      obtain ⟨r, hr, hq⟩ := hpost
      cases hr.symm.trans he
      exact hq e rfl hne quiet_nil
    | recordProvisionalHandshake i handle provisional validated =>
      rw [hc] at hpost
      obtain ⟨r, hr, hq⟩ := hpost
      cases hr.symm.trans he
      exact hq e rfl hne quiet_nil
    | _ => rw [hc] at hcall; exact hcall.elim

/-! Two runs: a session is created and removed; and one in which a handle changes its peer. -/

namespace HandleReuse

def ours : Bytes32 := fill 10

def alice : Peer := fill 20

def bob : Peer := fill 30

/-- An initiator session with `peer` under `handle`. -/
def new (handle : UInt64) (peer : Peer) (secret : StaticSecret) : NewSession symbolicPlatform.Key :=
  { handle
    session :=
      { ratchet := .initAlice symbolic (.root 0) (fill 2) secret
        ad := ours.val ++ peer.val
        peerIdentityPk := peer }
    role := .initiator
    initialOutbound := none
    extra := [] }

/-- What the first run writes. -/
def writes : List (List (Change symbolicPlatform.Key)) :=
  [[⟨.session alice, none⟩, ⟨.handle 7, none⟩, ⟨.handshake alice, none⟩],
    createChanges ours (new 7 alice (fill 1))]

def run : Option (Conf symbolicPlatform) :=
  (system symbolicPlatform ours).runCalls (List.replicate 9 {})
    (Config.init (Device.fresh symbolicPlatform))
    [.createSession 0 (new 7 alice (fill 1)), .removeSession 0 7]

theorem run_facts : ∃ c, run = some c ∧ Reachable ours c ∧ c.shared.db = Db.after writes := by
  have hs : run.isSome = true := by decide +kernel
  have hdb : run.map (fun c => c.shared.db.entries) = some (Db.after writes).entries := by
    decide +kernel
  obtain ⟨c, hc⟩ := Option.isSome_iff_exists.mp hs
  rw [hc] at hdb
  refine ⟨c, hc, ?_, Db.entries_inj (Option.some.inj hdb)⟩
  refine System.Reach.runCalls .refl (fun _ => rfl) (fun call hcall => ?_) hc
  simp only [List.mem_cons, List.not_mem_nil, or_false] at hcall
  rcases hcall with rfl | rfl
  · exact appOnly_nil
  · trivial

/-- The only records ever stored are those of the creation. -/
theorem ever_created {k : Key} {v : Row symbolicPlatform.Key k} (h : (Db.after writes).Ever k v) :
    (⟨k, some v⟩ : Change symbolicPlatform.Key) =
        ⟨.session alice, some (newRecord ours (new 7 alice (fill 1)))⟩ ∨
      (⟨k, some v⟩ : Change symbolicPlatform.Key) = ⟨.handle 7, some alice⟩ := by
  have h := Db.ever_after h
  simp only [writes, createChanges, new, sideChanges, List.flatten_cons, List.flatten_nil,
    Option.toList_none, List.map_nil, List.filterMap_nil, List.append_nil, List.mem_append,
    List.mem_cons, List.not_mem_nil, or_false] at h
  rcases h with (h | h | h) | (h | h)
  · cases h
  · cases h
  · cases h
  · exact .inl h
  · exact .inr h

theorem collisionFree : CollisionFree (Db.after writes) where
  records p rec rec' h h' _ := by
    rcases ever_created h with h | h <;> cases h
    rcases ever_created h' with h' | h' <;> cases h'
    rfl
  wires p q id id' m m' h := by rcases ever_created h with h | h <;> cases h

theorem onePeerPerHandle : OnePeerPerHandle (Db.after writes) := by
  intro handle p q h h'
  rcases ever_created h with h | h <;> cases h
  rcases ever_created h' with h' | h' <;> cases h'
  rfl

theorem freshKeys : FreshKeys (Db.after writes) := by
  intro db₀ rows hle p rec key hr hkey hs q rec' he
  rcases Db.le_push_cases hle with heq | hle
  · -- After the removal there is no session.
    obtain ⟨rfl, rfl⟩ := Db.push_inj heq
    rcases ever_created (Db.ever_push.mpr (.inl hr)) with h | h <;> cases h
    cases hr.symm.trans (Rows.lookup_applyAll_head _ _ (by simp))
  · rcases Db.le_push_cases hle with heq | hle
    · obtain ⟨rfl, -⟩ := Db.push_inj heq
      exact (Db.not_ever_empty he).elim
    · cases Db.le_empty hle

/-- Thread `i` takes `n` turns. -/
def go (i n : Nat) : List (System.Turn Choice (Call symbolicPlatform.Key)) :=
  List.replicate n (.advance i {})

/-- A send finds that handle 7 names `alice`, then the handle is given to `bob`. `alice` gets
handle 9, and a removal finds nothing pending under it. The send commits: it advances the session of
`bob` and stores its message for `alice`. Then the removal commits. -/
def schedule : List (System.Turn Choice (Call symbolicPlatform.Key)) :=
  .invoke 0 (.createSession 0 (new 7 alice (fill 1))) :: go 0 3 ++
  .invoke 1 (.send 1 7 [1] [7]) :: go 1 3 ++
  .invoke 0 (.removeSession 0 7) :: go 0 6 ++
  .invoke 0 (.createSession 0 (new 7 bob (fill 3))) :: go 0 3 ++
  .invoke 0 (.createSession 0 (new 9 alice (fill 5))) :: go 0 3 ++
  go 1 3 ++
  .invoke 2 (.removeSession 2 9) :: go 2 4 ++
  go 1 1 ++ go 2 2

def raced : Option (Conf symbolicPlatform) :=
  (system symbolicPlatform ours).play (Config.init (Device.fresh symbolicPlatform)) schedule

/-- The call removed the session of `alice` under handle 9 while a message to `alice` was pending. -/
def dropsPending (d : Done (Device symbolicPlatform.Key Memory) (Call symbolicPlatform.Key) Res) :
    Bool :=
  match d.call, dbs d.trace with
  | .removeSession _ handle, (db, db') :: _ => handle == 9 &&
    (db.rows.lookup (.session alice)).isSome && (db'.rows.lookup (.session alice)).isNone &&
    db.rows.keys.any fun
      | .outbox p id => p == alice && (db.rows.lookup (.outbox alice id)).isSome
      | _ => false
  | _, _ => false

theorem not_keepsObligations {c : Conf symbolicPlatform} (h : c.done.any dropsPending = true) :
    ¬ KeepsObligations c := by
  intro hk
  obtain ⟨d, hd, hdrop⟩ := List.any_eq_true.mp h
  unfold dropsPending at hdrop
  split at hdrop
  · next i handle db db' tr hcall htr =>
    simp only [Bool.and_eq_true, beq_iff_eq, List.any_eq_true] at hdrop
    obtain ⟨⟨⟨rfl, hs⟩, hs'⟩, k, -, hp⟩ := hdrop
    have hdid : Did c (.removeSession i 9) db db' :=
      .inr ⟨d, hd, hcall, htr ▸ List.mem_cons_self⟩
    rw [Option.isNone_iff_eq_none] at hs'
    rcases hk.removed i 9 db db' hdid with rfl | ⟨peer, hr⟩
    · rw [hs'] at hs
      cases hs
    · have hpeer : Key.session alice ∈ [Key.session peer, .handle 9, .handshake peer] := by
        by_contra hn
        rw [← hr.frame _ hn, hs'] at hs
        cases hs
      obtain rfl : alice = peer := by simpa using hpeer
      split at hp
      · next p id =>
        simp only [Bool.and_eq_true] at hp
        rw [hr.outbox id] at hp
        cases hp.2
      · cases hp
  · cases hdrop

end HandleReuse

/-- In the first run the session was removed, with nothing owed. -/
theorem keeps_obligations_removal : ∃ c : Conf symbolicPlatform, Reachable HandleReuse.ours c ∧
    c.shared.db = Db.after HandleReuse.writes ∧ KeepsObligations c := by
  obtain ⟨c, -, hr, hdb⟩ := HandleReuse.run_facts
  exact ⟨c, hr, hdb, keeps_obligations hr (hdb ▸ HandleReuse.collisionFree)
    (hdb ▸ HandleReuse.freshKeys) (hdb ▸ HandleReuse.onePeerPerHandle)⟩

/-- In the second run a session is removed although a message to its peer is pending. -/
theorem removal_drops_pending : ∃ c : Conf symbolicPlatform, Reachable HandleReuse.ours c ∧
    ¬ KeepsObligations c := by
  have hs : HandleReuse.raced.isSome = true := by decide +kernel
  have hd : HandleReuse.raced.map (fun c => c.done.any HandleReuse.dropsPending) = some true := by
    decide +kernel
  obtain ⟨c, hc⟩ := Option.isSome_iff_exists.mp hs
  rw [hc] at hd
  refine ⟨c, System.Reach.play .refl (fun i call hcall => ?_) hc,
    HandleReuse.not_keepsObligations (Option.some.inj hd)⟩
  -- None of the calls brings extra records.
  simp only [HandleReuse.schedule, HandleReuse.go, List.replicate, List.cons_append,
    List.nil_append, List.mem_cons, List.not_mem_nil, System.Turn.invoke.injEq, reduceCtorEq,
    false_or, or_false] at hcall
  rcases hcall with ⟨-, rfl⟩ | ⟨-, rfl⟩ | ⟨-, rfl⟩ | ⟨-, rfl⟩ | ⟨-, rfl⟩ | ⟨-, rfl⟩
  · exact appOnly_nil
  · trivial
  · trivial
  · exact appOnly_nil
  · exact appOnly_nil
  · trivial

end Messenger

end Arcium
