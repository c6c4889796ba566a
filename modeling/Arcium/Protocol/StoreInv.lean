import Arcium.Protocol.PendingLists
import Arcium.Protocol.Recovery

/-!
# The records of the messenger fit together

`StoreOk`: handles and sessions name each other, whatever belongs to a session has one, and every
record decodes. `PairChange` lists what one transaction does to handles, sessions and stored
handshakes: nothing, or a session is opened under a handle, or closed.

`remove_session` deletes the handle it was given and the session of the peer that the handle named
when it looked. If by then the peer has a session under another handle, or the handle names another
peer, that leaves a handle without a session. `storeOk` is for the runs without that
(`StablePairs`).
-/

namespace Arcium

open Conc

namespace Messenger

variable {P : Platform} {our : Bytes32} {db db' : Db P.Key} {rows : Rows P.Key}

/-- No handle is ever registered for two peers, and no peer under two handles. -/
structure StablePairs (db : Db P.Key) : Prop where
  peer : OnePeerPerHandle db
  handle : ∀ (h h' : UInt64) (p : Peer), db.Ever (.handle h) p → db.Ever (.handle h') p → h = h'

theorem StablePairs.mono (h : StablePairs db') (hle : db.Le db') : StablePairs db where
  peer := h.peer.mono hle
  handle a b p ha hb := h.handle a b p (ha.mono hle) (hb.mono hle)

/-- How a transaction changes handles, sessions and the handshakes of initiators. -/
inductive PairChange (db : Db P.Key) (rows : Rows P.Key) : Prop
  | same (handles : ∀ h, rows.lookup (.handle h) = db.rows.lookup (.handle h))
      (sessions : ∀ p, (rows.lookup (.session p)).isSome ↔ (db.rows.lookup (.session p)).isSome)
      (handshakes : ∀ p, rows.lookup (.handshake p) = db.rows.lookup (.handshake p))
  | opened (handle : UInt64) (peer : Peer)
      (noSession : db.rows.lookup (.session peer) = none)
      (noHandle : db.rows.lookup (.handle handle) = none)
      (registered : rows.lookup (.handle handle) = some peer)
      (handles : ∀ h, h ≠ handle → rows.lookup (.handle h) = db.rows.lookup (.handle h))
      (stored : (rows.lookup (.session peer)).isSome)
      (sessions : ∀ p, p ≠ peer → rows.lookup (.session p) = db.rows.lookup (.session p))
      (handshakes : ∀ p, p ≠ peer → rows.lookup (.handshake p) = db.rows.lookup (.handshake p))
  | closed (handle : UInt64) (peer : Peer) (named : db.Ever (.handle handle) peer)
      (deleted : rows.lookup (.handle handle) = none)
      (handles : ∀ h, h ≠ handle → rows.lookup (.handle h) = db.rows.lookup (.handle h))
      (ended : rows.lookup (.session peer) = none)
      (sessions : ∀ p, p ≠ peer → rows.lookup (.session p) = db.rows.lookup (.session p))
      (noHandshake : rows.lookup (.handshake peer) = none)
      (handshakes : ∀ p, p ≠ peer → rows.lookup (.handshake p) = db.rows.lookup (.handshake p))

/-- A transaction that writes other records. -/
theorem PairChange.of_eq {cs : List (Change P.Key)} (h : rows = db.rows.applyAll cs)
    (hh : ∀ a, ∀ c ∈ cs, Key.handle a ≠ c.key) (hs : ∀ p, ∀ c ∈ cs, Key.session p ≠ c.key)
    (ho : ∀ p, ∀ c ∈ cs, Key.handshake p ≠ c.key) : PairChange db rows := by
  subst h
  refine .same (fun a => ?_) (fun p => ?_) fun p => ?_
  · exact Rows.lookup_applyAll_ne _ (hh a)
  · rw [Rows.lookup_applyAll_ne _ (hs p)]
  · exact Rows.lookup_applyAll_ne _ (ho p)

/-- A transaction that advances the session of `q`. -/
theorem PairChange.advanced {q : Peer} {new : SessionRecord P.Key} {cs : List (Change P.Key)}
    (h : rows = db.rows.applyAll (⟨.session q, some new⟩ :: cs))
    (hq : (db.rows.lookup (.session q)).isSome) (hh : ∀ a, ∀ c ∈ cs, Key.handle a ≠ c.key)
    (hs : ∀ p, ∀ c ∈ cs, Key.session p ≠ c.key) (ho : ∀ p, ∀ c ∈ cs, Key.handshake p ≠ c.key) :
    PairChange db rows := by
  subst h
  refine .same (fun a => ?_) (fun p => ?_) fun p => ?_
  · exact Rows.lookup_applyAll_ne _ (by simpa using hh a)
  · by_cases hp : p = q
    · subst hp
      rw [Rows.lookup_applyAll_head _ _ (hs p)]
      exact ⟨fun _ => hq, fun _ => rfl⟩
    · rw [Rows.lookup_applyAll_ne _ (by simpa [hp] using hs p)]
  · exact Rows.lookup_applyAll_ne _ (by simpa using ho p)

theorem Unchanged.stored {p : Peer} {old : SessionRecord P.Key} (h : Unchanged db p old) :
    (db.rows.lookup (.session p)).isSome := by
  obtain ⟨found, hf, -⟩ := h
  rw [hf]
  rfl

theorem CreateTx.pairs {new : NewSession P.Key} (h : CreateTx our new db rows) :
    PairChange db rows := by
  have hl := fun k hk => lookup_createChanges our h.extra k hk db.rows
  rw [← h.eq] at hl
  refine .opened new.handle new.session.peerIdentityPk h.noSession h.noHandle ?_ (fun a ha => ?_)
    ?_ (fun p hp => ?_) fun p hp => ?_
  · rw [hl _ rfl, Rows.applyAll_cons, Rows.applyAll_cons, lookup_handshakes (by simp)]
    exact Rows.lookup_apply_self _ _ _
  · rw [hl _ rfl, Rows.applyAll_cons, Rows.applyAll_cons, lookup_handshakes (by simp),
      Rows.lookup_apply_ne _ (by simpa using ha), Rows.lookup_apply_ne _ (by simp)]
  · rw [hl _ rfl, Rows.applyAll_cons, Rows.applyAll_cons, lookup_handshakes (by simp),
      Rows.lookup_apply_ne _ (by simp), Rows.lookup_apply_self]
    rfl
  · rw [hl _ rfl, Rows.applyAll_cons, Rows.applyAll_cons, lookup_handshakes (by simp),
      Rows.lookup_apply_ne _ (by simp), Rows.lookup_apply_ne _ (by simpa using hp)]
  · rw [hl _ rfl, Rows.applyAll_cons, Rows.applyAll_cons, lookup_handshakes (by simpa using hp),
      Rows.lookup_apply_ne _ (by simp), Rows.lookup_apply_ne _ (by simp)]

theorem PromoteTx.pairs {first : FirstContact P.Key} {wire : Bytes} {new : SessionRecord P.Key}
    {m : IncomingMessage} (h : PromoteTx our first wire db new m rows) : PairChange db rows := by
  have hl := fun k hk => lookup_promoteChanges new m h.extra k hk db.rows
  rw [← h.eq] at hl
  refine .opened first.handle first.session.peerIdentityPk h.noSession h.noHandle ?_
    (fun a ha => ?_) ?_ (fun p hp => ?_) fun p hp => ?_
  · rw [hl _ rfl, Rows.applyAll_cons]
    exact Rows.lookup_applyAll_head _ _ (by simp)
  · rw [hl _ rfl]
    exact Rows.lookup_applyAll_ne _ (by simp [ha])
  · rw [hl _ rfl, Rows.lookup_applyAll_head _ _ (by simp)]
    rfl
  · rw [hl _ rfl]
    exact Rows.lookup_applyAll_ne _ (by simp [hp])
  · rw [hl _ rfl]
    exact Rows.lookup_applyAll_ne _ (by simp)

theorem RemoveTx.pairs {handle : UInt64} {peer : Peer} {old : SessionRecord P.Key}
    (h : RemoveTx our handle db peer old rows) : PairChange db rows := by
  refine .closed handle peer h.loaded.named ?_ (fun a ha => ?_) ?_ (fun p hp => ?_) ?_ fun p hp => ?_
  all_goals rw [h.eq]
  · exact Rows.lookup_applyAll_head (db.rows.apply _) _ (by simp)
  · exact Rows.lookup_applyAll_ne _ (by simp [ha])
  · exact Rows.lookup_applyAll_head _ _ (by simp)
  · exact Rows.lookup_applyAll_ne _ (by simp [hp])
  · exact Rows.lookup_applyAll_head ((db.rows.apply _).apply _) _ (by simp)
  · exact Rows.lookup_applyAll_ne _ (by simp [hp])

theorem RetireTx.pairs {handle : UInt64} {record : ProvisionalHandshake}
    {validated : ValidatedRecord P.Key} {peer : Peer} {old : SessionRecord P.Key}
    (h : RetireTx our handle record validated db peer old rows) : PairChange db rows := by
  refine .closed handle peer h.loaded.named ?_ (fun a ha => ?_) ?_ (fun p hp => ?_) ?_ fun p hp => ?_
  all_goals rw [h.eq]
  · exact Rows.lookup_applyAll_head (db.rows.apply _) _ (by simp)
  · exact Rows.lookup_applyAll_ne _ (by simp [ha])
  · exact Rows.lookup_applyAll_head _ _ (by simp)
  · exact Rows.lookup_applyAll_ne _ (by simp [hp])
  · rw [Rows.lookup_applyAll_ne _ (by simp)]
    exact h.noHandshake
  · exact Rows.lookup_applyAll_ne _ (by simp)

theorem Trans.pairs (ht : Trans our db rows) : PairChange db rows := by
  cases ht with
  | create new h => exact h.pairs
  | provisional handle record h => exact .of_eq h.eq (by simp) (by simp) (by simp)
  | retire handle record validated p old h => exact h.pairs
  | promote first wire new m h => exact h.pairs
  | send handle clientId plaintext dest q old new m h =>
    exact .advanced h.eq h.unchanged.stored (by simp) (by simp) (by simp)
  | receive handle wire p old new m h =>
    exact .advanced h.eq h.unchanged.stored (by simp) (by simp) (by simp)
  | ackOut handle id p h => exact .of_eq h.eq (by simp) (by simp) (by simp)
  | ackIn handle id p h => exact .of_eq h.eq (by simp) (by simp) (by simp)
  | abandon handle id p m h => exact .of_eq h.eq (by simp) (by simp) (by simp)
  | remove handle p old h => exact h.pairs
  | app h => exact .same (fun _ => h _ rfl) (fun _ => by rw [h _ rfl]) fun _ => h _ rfl

/-! ## Handles and sessions -/

/-- Handles and sessions name each other, and a stored handshake has a session. -/
structure Paired (rows : Rows P.Key) : Prop where
  handle : ∀ (h : UInt64) (p : Peer), rows.lookup (.handle h) = some p →
    (rows.lookup (.session p)).isSome
  session : ∀ p, (rows.lookup (.session p)).isSome →
    ∃ h : UInt64, rows.lookup (.handle h) = some p
  handshake : ∀ p, (rows.lookup (.handshake p)).isSome → (rows.lookup (.session p)).isSome

theorem Paired.push (hp : Paired db.rows) (hs : StablePairs db) (hc : PairChange db rows) :
    Paired rows := by
  cases hc with
  | same handles sessions handshakes =>
    refine ⟨fun h p hh => ?_, fun p hp' => ?_, fun p hh => ?_⟩
    · exact (sessions p).mpr (hp.handle h p ((handles h).symm.trans hh))
    · obtain ⟨h, hh⟩ := hp.session p ((sessions p).mp hp')
      exact ⟨h, (handles h).trans hh⟩
    · exact (sessions p).mpr (hp.handshake p (handshakes p ▸ hh))
  | opened handle peer noSession noHandle registered handles stored sessions handshakes =>
    refine ⟨fun h p hh => ?_, fun p hp' => ?_, fun p hh => ?_⟩
    · by_cases hpe : p = peer
      · exact hpe ▸ stored
      · rw [sessions p hpe]
        by_cases hha : h = handle
        · subst hha
          exact absurd (Option.some.inj (hh.symm.trans registered)) hpe
        · exact hp.handle h p ((handles h hha).symm.trans hh)
    · by_cases hpe : p = peer
      · exact ⟨handle, hpe ▸ registered⟩
      · rw [sessions p hpe] at hp'
        obtain ⟨h, hh⟩ := hp.session p hp'
        have hha : h ≠ handle := by
          rintro rfl
          rw [noHandle] at hh
          cases hh
        exact ⟨h, (handles h hha).trans hh⟩
    · by_cases hpe : p = peer
      · exact hpe ▸ stored
      · rw [sessions p hpe]
        exact hp.handshake p (handshakes p hpe ▸ hh)
  | closed handle peer named deleted handles ended sessions noHandshake handshakes =>
    refine ⟨fun h p hh => ?_, fun p hp' => ?_, fun p hh => ?_⟩
    · have hha : h ≠ handle := by
        rintro rfl
        rw [deleted] at hh
        cases hh
      have hh₀ : db.rows.lookup (.handle h) = some p := (handles h hha).symm.trans hh
      have hpe : p ≠ peer := by
        rintro rfl
        exact hha (hs.handle h handle p (Db.ever_now hh₀) named)
      rw [sessions p hpe]
      exact hp.handle h p hh₀
    · have hpe : p ≠ peer := by
        rintro rfl
        rw [ended] at hp'
        cases hp'
      rw [sessions p hpe] at hp'
      obtain ⟨h, hh⟩ := hp.session p hp'
      have hha : h ≠ handle := by
        rintro rfl
        exact hpe (hs.peer h p peer (Db.ever_now hh) named)
      exact ⟨h, (handles h hha).trans hh⟩
    · have hpe : p ≠ peer := by
        rintro rfl
        rw [noHandshake] at hh
        cases hh
      rw [sessions p hpe]
      exact hp.handshake p (handshakes p hpe ▸ hh)

theorem paired (h : db.Valid (Trans our)) (hs : StablePairs db) : Paired db.rows := by
  induction h with
  | empty => exact ⟨fun _ _ h => (nomatch h), fun _ h => (nomatch h), fun _ h => (nomatch h)⟩
  | push hv ht ih =>
    have hs' := hs.mono (Db.le_push _ _)
    exact (ih hs').push hs' ht.pairs

/-! ## Provisional handshakes -/

/-- A recorded handshake decodes. -/
theorem provisional_decodes (h : db.Valid (Trans our)) {handle : UInt64}
    {record : ProvisionalHandshake} (hr : db.rows.lookup (.provisional handle) = some record) :
    checkProvisional record = .ok record := by
  induction h with
  | empty => cases hr
  | @push db rows hv ht ih =>
    rw [Db.push_rows] at hr
    have kept : rows.lookup (.provisional handle) = db.rows.lookup (.provisional handle) →
        checkProvisional record = .ok record := fun hk => ih (hk.symm.trans hr)
    have other : ∀ {cs : List (Change P.Key)}, rows = db.rows.applyAll cs →
        (∀ c ∈ cs, Key.provisional handle ≠ c.key) → checkProvisional record = .ok record :=
      fun he hc => kept (he ▸ Rows.lookup_applyAll_ne _ hc)
    cases ht with
    | create new h =>
      refine kept ?_
      rw [h.eq, lookup_createChanges our h.extra _ rfl, Rows.applyAll_cons, Rows.applyAll_cons,
        lookup_handshakes (by simp), Rows.lookup_apply_ne _ (by simp), Rows.lookup_apply_ne _ (by simp)]
    | provisional a record' h =>
      rw [h.eq] at hr
      rcases Rows.lookup_applyAll_some hr with hm | hm
      · cases List.mem_singleton.mp hm
        exact h.decodes
      · exact ih hm
    | retire a record' validated p old h =>
      rw [h.eq] at hr
      rcases Rows.lookup_applyAll_some hr with hm | hm
      · simp only [List.mem_cons, List.not_mem_nil, or_false] at hm
        rcases hm with hm | hm | hm <;> cases hm
        exact h.decodes
      · exact ih hm
    | promote first wire new m h =>
      rw [h.eq, lookup_promoteChanges new m h.extra _ rfl] at hr
      rcases Rows.lookup_applyAll_some hr with hm | hm
      · simp only [List.mem_cons, List.not_mem_nil, or_false] at hm
        rcases hm with hm | hm | hm | hm <;> cases hm
      · exact ih hm
    | send a clientId plaintext dest q old new m h => exact other h.eq (by simp [sendChanges])
    | receive a wire p old new m h => exact other h.eq (by simp [receiveChanges])
    | ackOut a id p h => exact other h.eq (by simp)
    | ackIn a id p h => exact other h.eq (by simp)
    | abandon a id p m h => exact other h.eq (by simp)
    | remove a p old h => exact other h.eq (by simp)
    | app h => exact kept (h _ rfl)

/-! ## The invariant -/

/-- The records of the messenger fit together, and each decodes. -/
structure StoreOk (our : Bytes32) (rows : Rows P.Key) : Prop where
  handle : ∀ (h : UInt64) (p : Peer), rows.lookup (.handle h) = some p →
    (rows.lookup (.session p)).isSome
  session : ∀ p, (rows.lookup (.session p)).isSome →
    ∃! h : UInt64, rows.lookup (.handle h) = some p
  handshake : ∀ p, (rows.lookup (.handshake p)).isSome → (rows.lookup (.session p)).isSome
  outbox : ∀ p id, (rows.lookup (.outbox p id)).isSome → (rows.lookup (.session p)).isSome
  inbox : ∀ p id, (rows.lookup (.inbox p id)).isSome → (rows.lookup (.session p)).isSome
  sendid : ∀ p id (m : OutgoingMessage), rows.lookup (.outbox p id) = some m →
    m.messageId = id ∧ ∃ r : SendRecord, rows.lookup (.sendid p m.clientMessageId) = some r ∧ r.id = id
  exclusive : ∀ p id, ¬ ((rows.lookup (.inbox p id)).isSome ∧ (rows.lookup (.seen p id)).isSome)
  decodesSession : ∀ p (rec : SessionRecord P.Key), rows.lookup (.session p) = some rec →
    ∃ s, DurableSession.fromRecord P rec ⟨our, p⟩ = .ok s
  decodesOutbox : ∀ p id (m : OutgoingMessage), rows.lookup (.outbox p id) = some m →
    decodeOutbox P m = .ok m
  decodesInbox : ∀ p id (m : IncomingMessage), rows.lookup (.inbox p id) = some m → m.messageId = id
  decodesSeen : ∀ p id (x : MessageId), rows.lookup (.seen p id) = some x → x = id
  decodesProvisional : ∀ h (record : ProvisionalHandshake), rows.lookup (.provisional h) = some record →
    checkProvisional record = .ok record

theorem storeOk (h : db.Valid (Trans our)) (hcf : CollisionFree db) (hf : FreshKeys db)
    (hs : StablePairs db) : StoreOk our db.rows := by
  have hok := messagesOk h
  have hp := paired h hs
  exact
    { handle := hp.handle
      session := fun p hps => by
        obtain ⟨a, ha⟩ := hp.session p hps
        exact ⟨a, ha, fun b hb => hs.handle b a p (Db.ever_now hb) (Db.ever_now ha)⟩
      handshake := hp.handshake
      outbox := fun p id ho => by
        obtain ⟨m, hm⟩ := Option.isSome_iff_exists.mp ho
        obtain ⟨rec, hrec, -⟩ := outboxOwed h hcf hf hs.peer p id m hm
        rw [hrec]
        rfl
      inbox := fun p id hi => by
        obtain ⟨rec, hrec, -⟩ := accepted_confirmed h hcf (.inl hi)
        rw [hrec]
        rfl
      sendid := fun p id m hm =>
        ⟨(hok.outbox_id p id m (Db.ever_now hm)).1, _, hok.outbox_sendid p id m hm, rfl⟩
      exclusive := fun p id => by
        rintro ⟨hi, hse⟩
        rw [hok.exclusive p id hi] at hse
        cases hse
      decodesSession := fun p rec hrec =>
        ⟨_, DurableSession.fromRecord_of_bound (ever_bound h (Db.ever_now hrec))⟩
      decodesOutbox := fun p id m hm => (sentIn_of_ever h (Db.ever_now hm)).decode
      decodesInbox := hok.inbox_id
      decodesSeen := hok.seen_id
      decodesProvisional := fun a record hr => provisional_decodes h hr }

end Messenger

end Arcium
