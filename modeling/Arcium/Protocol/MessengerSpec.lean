import Arcium.Protocol.DurableSpec
import Arcium.Protocol.Transition

/-!
# The triples of the messenger's operations

For each operation, which of the transactions of `Transition` it can commit, and what its result
says about the database. `I` is any invariant of the environment.
-/

namespace Arcium

open Conc

namespace Messenger

variable {P : Platform} {our : Bytes32} {I : Db P.Key → Prop}
  {A : Db P.Key → Request × Answer → Prop} {T : Db P.Key → Rows P.Key → Prop}
  {tr : Trace P.Key} {db : Db P.Key}

/-- A step that was checked: its error is passed on. -/
theorem lift_sat {ε α β : Type} {toErr : ε → MessagingError} {x : Except ε α} {f : α → Do P β}
    {Q : Except MessagingError β → Trace P.Key → Db P.Key → Prop}
    (ho : ∀ a, x = .ok a → Sat I A T Q (f a) tr db)
    (he : ∀ e, x = .error e → Q (.error (toErr e)) tr db) :
    Sat I A T Q (lift toErr x >>= f) tr db := by
  cases x with
  | ok a => exact Sat.bind (Sat.pure (ho a rfl))
  | error e => exact Sat.bind (Sat.throw (he e rfl))

/-! ## Reads -/

/-- A read-only program: it writes nothing, and `R` relates its result to the database it ends in. -/
def LookPost {α : Type} (tr : Trace P.Key) (db : Db P.Key)
    (R : Except MessagingError α → Db P.Key → Prop) :
    Except MessagingError α → Trace P.Key → Db P.Key → Prop :=
  fun r tr' db' => Looked tr db tr' db' ∧ R r db'

theorem requireResolved_sat (i : Nat) (handle : UInt64) :
    Sat I A T (LookPost tr db fun _ _ => True) (requireResolved i handle) tr db := by
  refine Sat.bind (Sat.remembered fun db₁ hle _ u => ?_)
  cases u with
  | none => exact Sat.pure ⟨.step hle, trivial⟩
  | some u => exact Sat.throw ⟨.step hle, trivial⟩

theorem peerOf_sat (handle : UInt64) :
    Sat I A T (LookPost tr db fun r db' => ∀ p, r = .ok p → db'.rows.lookup (.handle handle) = p)
      (peerOf handle) tr db :=
  Sat.find (fun _ hle _ => ⟨.step hle, fun _ hp => Except.ok.inj hp⟩)
    fun _ hle _ _ _ => ⟨.step hle, nofun⟩

theorem requirePeer_sat (handle : UInt64) :
    Sat I A T (LookPost tr db fun r db' => ∀ p, r = .ok p → db'.rows.lookup (.handle handle) = some p)
      (requirePeer handle) tr db := by
  refine Sat.seq (peerOf_sat handle) (fun e tr₁ db₁ h => ⟨h.1, nofun⟩) fun p tr₁ db₁ h => ?_
  cases p with
  | none => exact Sat.throw ⟨h.1, nofun⟩
  | some p => exact Sat.pure ⟨h.1, fun _ hp => Except.ok.inj hp ▸ h.2 _ rfl⟩

/-- What `loadFor` returns. -/
inductive LoadResult (our : Bytes32) (handle : UInt64) (peer : Peer) (db : Db P.Key) :
    Except MessagingError (DurableSession P.Key) → Prop
  | loaded (old : SessionRecord P.Key) (found : db.rows.lookup (.session peer) = some old)
      (bound : old.Bound our peer) : LoadResult our handle peer db (.ok (.ofRecord P old))
  | missing (none : db.rows.lookup (.session peer) = none) :
      LoadResult our handle peer db (.error (.missingSession handle))
  | invalid (old : SessionRecord P.Key) (found : db.rows.lookup (.session peer) = some old)
      (unbound : ¬ old.Bound our peer) (e : SessionCheckpointError) :
      LoadResult our handle peer db (.error (.invalidSession e))
  | fault (f : StorageError) : LoadResult our handle peer db (.error (.store f))

theorem loadFor_sat (handle : UInt64) (peer : Peer) :
    Sat I A T (LookPost tr db fun r db' => LoadResult our handle peer db' r)
      (loadFor our handle peer) tr db := by
  refine Sat.bind (Sat.attempt (Sat.bind (Sat.find (fun db₁ hle _ => ?_) fun db₁ hle _ f _ => ?_)))
  · cases hl : db₁.rows.lookup (.session peer) with
    | none => exact Sat.pure (Sat.throw ⟨.step hle, .missing hl⟩)
    | some old =>
      simp only [After]
      cases hr : DurableSession.fromRecord P old ⟨our, peer⟩ with
      | ok s =>
        obtain ⟨rfl, hb⟩ := DurableSession.fromRecord_ok hr
        exact Sat.pure (Sat.pure ⟨.step hle, .loaded old hl hb⟩)
      | error e =>
        refine Sat.throw (Sat.throw ⟨.step hle, .invalid old hl (fun hb => ?_) e⟩)
        rw [DurableSession.fromRecord_of_bound hb] at hr
        cases hr
  · exact Sat.throw ⟨.step hle, .fault f⟩

theorem load_sat (our : Bytes32) (handle : UInt64) :
    Sat I A T (LookPost tr db fun r db' => ∀ s p, r = .ok (s, p) →
        ∃ old, s = .ofRecord P old ∧ Loaded our db' handle p old) (load our handle) tr db := by
  refine Sat.seq (requirePeer_sat handle) (fun e tr₁ db₁ h => ⟨h.1, nofun⟩) fun p tr₁ db₁ h => ?_
  refine Sat.seq (loadFor_sat handle p) (fun e tr₂ db₂ h' => ⟨h.1.trans h'.1, nofun⟩)
    fun s tr₂ db₂ h' => Sat.pure ⟨h.1.trans h'.1, ?_⟩
  rintro _ _ ⟨⟩
  obtain ⟨hl, hr⟩ := h'
  cases hr with
  | loaded old hf hb => exact ⟨old, rfl, ⟨db₁, db₂, hl.le, Db.Le.refl _, h.2 _ rfl, hf⟩, hb⟩

/-- What `readDuplicate` returns. -/
inductive DuplicateResult (peer : Peer) (id : MessageId) (db db' : Db P.Key) :
    Except MessagingError (Option Received) → Prop
  | undelivered (m : IncomingMessage) (db₁ : Db P.Key) (le : db.Le db₁) (le' : db₁.Le db')
      (inbox : db₁.rows.lookup (.inbox peer id) = some m) (hid : m.messageId = id) :
      DuplicateResult peer id db db' (.ok (some (.duplicate id (some m))))
  | delivered (db₁ : Db P.Key) (le : db.Le db₁) (le' : db₁.Le db')
      (inbox : db₁.rows.lookup (.inbox peer id) = none)
      (seen : db'.rows.lookup (.seen peer id) = some id) :
      DuplicateResult peer id db db' (.ok (some (.duplicate id none)))
  | new (db₁ : Db P.Key) (le : db.Le db₁) (le' : db₁.Le db')
      (inbox : db₁.rows.lookup (.inbox peer id) = none)
      (seen : db'.rows.lookup (.seen peer id) = none) : DuplicateResult peer id db db' (.ok none)
  | badInbox (m : IncomingMessage) (inbox : db'.rows.lookup (.inbox peer id) = some m)
      (hid : m.messageId ≠ id) : DuplicateResult peer id db db' (.error (.invalidRecord "inbox"))
  | badSeen (x : MessageId) (seen : db'.rows.lookup (.seen peer id) = some x) (hid : x ≠ id) :
      DuplicateResult peer id db db' (.error (.invalidRecord "seen"))
  | fault (f : StorageError) : DuplicateResult peer id db db' (.error (.store f))

theorem readDuplicate_sat (peer : Peer) (id : MessageId) :
    Sat I A T (LookPost tr db fun r db' => DuplicateResult peer id db db' r)
      (readDuplicate peer id) tr db := by
  refine Sat.bind (Sat.find (fun db₁ hle _ => ?_) fun db₁ hle _ f _ => ⟨.step hle, .fault f⟩)
  cases hl : db₁.rows.lookup (.inbox peer id) with
  | some m =>
    by_cases hid : IncomingMessage.messageId m = id
    · simp only [After, hid, ne_eq, not_true_eq_false, if_false]
      exact Sat.pure ⟨.step hle, .undelivered m db₁ hle (Db.Le.refl _) hl hid⟩
    · simp only [After, ne_eq, hid, not_false_eq_true, if_true]
      exact Sat.throw ⟨.step hle, .badInbox m hl hid⟩
  | none =>
    refine Sat.bind (Sat.find (fun db₂ hle₂ _ => ?_) fun db₂ hle₂ _ f _ =>
      ⟨.trans (.step hle) (.step hle₂), .fault f⟩)
    cases hs : db₂.rows.lookup (.seen peer id) with
    | some x =>
      change MessageId at x
      by_cases hid : x = id
      · simp only [After, hid, ne_eq, not_true_eq_false, if_false]
        exact Sat.pure ⟨.trans (.step hle) (.step hle₂), .delivered db₁ hle hle₂ hl (hid ▸ hs)⟩
      · simp only [After, hid, ne_eq, not_false_eq_true, if_true]
        exact Sat.throw ⟨.trans (.step hle) (.step hle₂), .badSeen x hs hid⟩
    | none => exact Sat.pure ⟨.trans (.step hle) (.step hle₂), .new db₁ hle hle₂ hl hs⟩

theorem txFind_ok {rows : Rows P.Key} {read : (k : Key) → Except StorageError (Row P.Key k)}
    (hr : Reads rows read) {k : Key} {v : Option (Row P.Key k)} (h : txFind read k = .ok v) :
    rows.lookup k = v := by
  unfold txFind at h
  split at h
  · next v hv => rw [hr.found _ _ hv, Except.ok.inj h]
  · next hv => rw [hr.missing _ hv, Except.ok.inj h]
  · cases h

theorem txFind_error {read : (k : Key) → Except StorageError (Row P.Key k)} {k : Key}
    {e : MessagingError} (h : txFind read k = .error e) : ∃ f, e = .store f := by
  unfold txFind at h
  split at h
  · cases h
  · cases h
  · exact ⟨_, (Except.error.inj h).symm⟩

theorem decodeOutbox_ok {m m' : OutgoingMessage} (h : decodeOutbox P m = .ok m') :
    m' = m ∧ messageId P m.wire = m.messageId := by
  unfold decodeOutbox at h
  split_ifs at h with hc
  push Not at hc
  exact ⟨(Except.ok.inj h).symm, hc.2.2⟩

/-- What an earlier `send` of the same logical message left in `rows`. -/
inductive PriorAt (rows : Rows P.Key) (peer : Peer) (clientId : Bytes) : SendOutcome → Prop
  | pending (id : MessageId) (m : OutgoingMessage)
      (sent : rows.lookup (.sendid peer clientId) = some (.sent id))
      (outbox : rows.lookup (.outbox peer id) = some m) (wire : messageId P m.wire = m.messageId) :
      PriorAt rows peer clientId (.alreadyPending m)
  | acknowledged (id : MessageId) (sent : rows.lookup (.sendid peer clientId) = some (.sent id))
      (outbox : rows.lookup (.outbox peer id) = none) :
      PriorAt rows peer clientId (.alreadyAcknowledged id)
  | abandoned (id : MessageId)
      (abandoned : rows.lookup (.sendid peer clientId) = some (.abandoned id)) :
      PriorAt rows peer clientId (.abandoned id)

/-- What `readPriorSend` returns. -/
inductive PriorResult (rows : Rows P.Key) (peer : Peer) (clientId : Bytes) :
    Except MessagingError (Option SendOutcome) → Prop
  | prior (o : SendOutcome) (h : PriorAt rows peer clientId o) :
      PriorResult rows peer clientId (.ok (some o))
  | none (h : rows.lookup (.sendid peer clientId) = none) : PriorResult rows peer clientId (.ok none)
  | badOutbox (id : MessageId) (m : OutgoingMessage)
      (outbox : rows.lookup (.outbox peer id) = some m) (e : MessagingError)
      (bad : decodeOutbox P m = .error e) : PriorResult rows peer clientId (.error e)
  | fault (f : StorageError) : PriorResult rows peer clientId (.error (.store f))

theorem priorSendTx_result {rows : Rows P.Key}
    {read : (k : Key) → Except StorageError (Row P.Key k)} (hr : Reads rows read) (peer : Peer)
    (clientId : Bytes) : PriorResult rows peer clientId (priorSendTx peer clientId read) := by
  cases h : txFind read (.sendid peer clientId) with
  | error e =>
    obtain ⟨f, rfl⟩ := txFind_error h
    simp only [priorSendTx, h]
    exact .fault f
  | ok v =>
    have hv := txFind_ok hr h
    match v with
    | none =>
      simp only [priorSendTx, h]
      exact .none hv
    | some (.abandoned id) =>
      simp only [priorSendTx, h]
      exact .prior _ (.abandoned id hv)
    | some (.sent id) =>
      cases h' : txFind read (.outbox peer id) with
      | error e =>
        obtain ⟨f, rfl⟩ := txFind_error h'
        simp only [priorSendTx, h]
        simp only [bind, Except.bind, h']
        exact .fault f
      | ok v =>
        have hv' := txFind_ok hr h'
        cases v with
        | none =>
          simp only [priorSendTx, h]
          simp only [bind, Except.bind, h']
          exact .prior _ (.acknowledged id hv hv')
        | some m =>
          simp only [priorSendTx, h]
          simp only [bind, Except.bind, h']
          cases hd : decodeOutbox P m with
          | error e => exact .badOutbox id m hv' e hd
          | ok m' =>
            obtain ⟨rfl, hw⟩ := decodeOutbox_ok hd
            exact .prior _ (.pending id m' hv hv' hw)

theorem readPriorSend_sat (peer : Peer) (clientId : Bytes) :
    Sat I A T (LookPost tr db fun r db' => PriorResult db'.rows peer clientId r)
      (readPriorSend peer clientId) tr db := by
  refine Sat.tx (fun db₁ hle _ read hr => ?_) fun db₁ hle _ f => ⟨.step hle, .fault f⟩
  have h := priorSendTx_result hr peer clientId
  simp only [bind, Except.bind, pure, Except.pure]
  cases hp : priorSendTx peer clientId read with
  | error e =>
    rw [hp] at h
    exact ⟨.step hle, h⟩
  | ok o =>
    rw [hp] at h
    exact ⟨.step hle, h⟩

/-! ## Sending -/

theorem SideWrite.insert_ok {key : Key} {v : Row P.Key key} {w : SideWrite P.Key}
    (h : SideWrite.insert key v = .ok w) : w.toWrite = ⟨key, .absent, .put v⟩ := by
  unfold SideWrite.insert SideWrite.new at h
  split at h
  · obtain rfl := Except.ok.inj h
    rfl
  · cases h

theorem SideWrite.requireAbsent_ok {key : Key} {w : SideWrite P.Key}
    (h : SideWrite.requireAbsent key = .ok w) : w.toWrite = ⟨key, .absent, .check⟩ := by
  unfold SideWrite.requireAbsent SideWrite.new at h
  split at h
  · obtain rfl := Except.ok.inj h
    rfl
  · cases h

/-- An unknown outcome is remembered and reported. -/
theorem markUnresolved_sat {α : Type} (i : Nat) (handle : UInt64) (u : Unresolved)
    (e : MessagingError) {Q : Except MessagingError α → Trace P.Key → Db P.Key → Prop}
    (h : ∀ db', db.Le db' → Q (.error e) ((db', db') :: tr) db') :
    Sat I A T Q (do markUnresolved i handle u; throw e : Do P α) tr db :=
  Sat.bind (Sat.remember fun db' hle _ => Sat.throw (h db' hle))

theorem commitError_sat {α : Type} (i : Nat) (handle generation : UInt64) (keys : List Key)
    (legacy : Option Peer) (e : CommitError) :
    Sat I A T (LookPost tr db fun r _ => ∃ e, r = .error e)
      (commitError i handle generation keys legacy e : Do P α) tr db := by
  cases e with
  | outcomeUnknown f => exact markUnresolved_sat _ _ _ _ fun db₁ hle => ⟨.step hle, _, rfl⟩
  | _ => exact Sat.throw ⟨.refl tr db, _, rfl⟩

/-- How `sendAs` ends. -/
inductive SendPost (our : Bytes32) (handle : UInt64) (clientId plaintext : Bytes) (peer : Peer)
    (tr : Trace P.Key) (db : Db P.Key) (r : Except MessagingError SendOutcome) (tr' : Trace P.Key)
    (db' : Db P.Key) : Prop
  | prior (looked : Looked tr db tr' db') (db₁ : Db P.Key) (le : db.Le db₁) (le' : db₁.Le db')
      (o : SendOutcome) (h : PriorAt db₁.rows peer clientId o) (hr : r = .ok o)
  | unread (looked : Looked tr db tr' db') (db₁ : Db P.Key) (le : db.Le db₁) (le' : db₁.Le db')
      (e : MessagingError) (h : PriorResult db₁.rows peer clientId (.error e)) (hr : r = .error e)
  | refused (looked : Looked tr db tr' db') (db₁ : Db P.Key) (le : db.Le db₁) (le' : db₁.Le db')
      (new : db₁.rows.lookup (.sendid peer clientId) = none) (e : MessagingError) (hr : r = .error e)
  | wrote (db₁ : Db P.Key) (rows : Rows P.Key) (q : Peer) (old new : SessionRecord P.Key)
      (m : OutgoingMessage) (le : db.Le db₁)
      (step : SendTx our handle clientId plaintext db₁ peer q old new m rows)
      (le' : (db₁.push rows).Le db') (hr : r = .ok (.sent m) ∨ ∃ e, r = .error e)

/-- What `send` has before it commits is what its transaction needs. -/
theorem sendTx_of_batch {handle : UInt64} {clientId plaintext : Bytes} {peer q : Peer}
    {old : SessionRecord P.Key} {nonce : Nonce}
    {staged : StagedTransition P.Key (Header × Bytes)} {m : OutgoingMessage}
    {outbox index : SideWrite P.Key} {db₁ : Db P.Key}
    (hnamed : ∃ db₀ : Db P.Key, db₀.Le db₁ ∧ db₀.rows.lookup (.handle handle) = some peer)
    (hid : clientId ≠ [] ∧ clientId.length ≤ maxClientMessageIdLen)
    (hload : Loaded our db₁ handle q old)
    (hst : (DurableSession.ofRecord P old).stageEncrypt P plaintext nonce = .ok staged)
    (hm : m = { messageId := messageId P (wireOf staged.output), clientMessageId := clientId
                generation := staged.generation, wire := wireOf staged.output })
    (hob : outbox.toWrite = ⟨.outbox peer m.messageId, .absent, .put m⟩)
    (hix : index.toWrite = ⟨.sendid peer clientId, .absent, .put (.sent m.messageId)⟩)
    (hb : BatchHolds q (.predecessor old.generation old.role ⟨our, q⟩ (P.recordDigest old))
      [outbox, index] db₁) :
    SendTx our handle clientId plaintext db₁ peer q old staged.record m
      (db₁.rows.applyAll (batchChanges q staged.record [outbox, index])) := by
  obtain ⟨hroom, hgen, -, hop, hrec, hbound⟩ := DurableSession.stage_ok hst
  obtain ⟨found, hf, -, -, -, hd⟩ := hb.session
  have h1 := hb.side outbox (by simp)
  have h2 := hb.side index (by simp)
  rw [hob] at h1
  rw [hix] at h2
  have c1 : outbox.toWrite.change = some ⟨.outbox peer m.messageId, some m⟩ := by rw [hob]; rfl
  have c2 : index.toWrite.change = some ⟨.sendid peer clientId, some (.sent m.messageId)⟩ := by
    rw [hix]; rfl
  have hours := hload.bound.ours
  have htheirs := hload.bound.theirs
  exact
    { named := hnamed
      loaded := hload
      unchanged := ⟨found, hf, hd⟩
      follows :=
        { room := hroom
          eq := by rw [hrec]; rfl
          bound := hours ▸ htheirs ▸ hbound }
      encrypts := ⟨nonce, staged.output, by rw [Encrypts, hrec]; exact hop, by rw [hm]⟩
      message := by rw [hm, hrec]; simp [hgen]
      validId := hid
      noOutbox := h1
      noSendid := h2
      eq := by
        simp only [batchChanges, sendChanges, List.filterMap_cons, c1, c2, List.filterMap_nil]
        rw [hm] }

theorem sendAs_sat {i : Nat} {handle : UInt64} {clientId plaintext : Bytes} {peer : Peer}
    (hnamed : ∃ db₀ : Db P.Key, db₀.Le db ∧ db₀.rows.lookup (.handle handle) = some peer)
    (hid : clientId ≠ [] ∧ clientId.length ≤ maxClientMessageIdLen) :
    Sat I A (fun db rows => ∃ peer q old new m,
        SendTx our handle clientId plaintext db peer q old new m rows)
      (SendPost our handle clientId plaintext peer tr db)
      (sendAs i our handle clientId plaintext peer) tr db := by
  refine Sat.seq (readPriorSend_sat peer clientId)
    (fun e tr₁ db₁ h => .unread h.1 db₁ h.1.le (Db.Le.refl _) e h.2 rfl) fun o tr₁ db₁ h => ?_
  obtain ⟨hl₁, hp⟩ := h
  cases hp with
  | prior o ho => exact Sat.pure (.prior hl₁ db₁ hl₁.le (Db.Le.refl _) o ho rfl)
  | none hno =>
    have refused : ∀ {r : Except MessagingError SendOutcome} {tr' : Trace P.Key} {db' : Db P.Key},
        Looked tr₁ db₁ tr' db' → (∃ e, r = .error e) →
          SendPost our handle clientId plaintext peer tr db r tr' db' := fun hl ⟨e, he⟩ =>
      .refused (hl₁.trans hl) db₁ hl₁.le hl.le hno e he
    refine Sat.seq (load_sat our handle) (fun e tr₂ db₂ h => refused h.1 ⟨e, rfl⟩)
      fun sq tr₂ db₂ h => ?_
    obtain ⟨s, q⟩ := sq
    obtain ⟨hl₂, h⟩ := h
    obtain ⟨old, rfl, hload⟩ := h _ _ rfl
    refine Sat.bind (Sat.draw fun db₃ hle₃ _ nonce => ?_)
    have hl₃ : Looked tr₁ db₁ ((db₃, db₃) :: tr₂) db₃ := hl₂.trans (.step hle₃)
    refine lift_sat (fun staged hst => ?_) fun e _ => refused hl₃ ⟨_, rfl⟩
    refine lift_sat (fun outbox hob => ?_) fun e he => nomatch he
    refine lift_sat (fun index hix => ?_) fun e he => nomatch he
    obtain rfl : old.peer = q := hload.bound.theirs
    obtain rfl : old.our = our := hload.bound.ours
    -- The transaction of this very message; which message it is comes back with the result.
    refine Sat.seq (Sat.weaken (DurableSession.commitWith_sat
      (T := fun db rows => SendTx old.our handle clientId plaintext db peer old.peer old
        staged.record _ rows) fun db₄ hle₄ _ hb => sendTx_of_batch ?_ hid
          (hload.mono (hle₃.trans hle₄)) hst rfl (SideWrite.insert_ok hob)
          (SideWrite.insert_ok hix) hb) fun db rows h => ⟨_, _, _, _, _, h⟩) ?_ ?_
    · obtain ⟨db₀, hle₀, h₀⟩ := hnamed
      exact ⟨db₀, hle₀.trans (hl₁.le.trans (hl₃.le.trans hle₄)), h₀⟩
    · intro e tr₄ db₄ h
      cases h with
      | written _ _ hr => rcases hr with ⟨_, hr⟩ | ⟨_, _, hr⟩ <;> cases hr
      | failed _ hr => obtain ⟨_, _, hr⟩ := hr; cases hr
    · intro r tr₄ db₄ h
      obtain ⟨r, s'⟩ := r
      cases h with
      | written le step hr =>
        rcases hr with ⟨_, hr⟩ | ⟨e, _, hr⟩
        · cases hr
          exact Sat.pure (.wrote _ _ _ _ _ _ (hl₁.le.trans (hl₃.le.trans le)) step (Db.Le.refl _) (.inl rfl))
        · cases hr
          exact (commitError_sat _ _ _ _ _ _).mono fun r tr₅ db₅ h =>
            .wrote _ _ _ _ _ _ (hl₁.le.trans (hl₃.le.trans le)) step h.1.le (.inr h.2)
      | failed hl₄ hr =>
        obtain ⟨e, _, hr⟩ := hr
        cases hr
        exact (commitError_sat _ _ _ _ _ _).mono fun r tr₅ db₅ h =>
          refused (hl₃.trans (hl₄.trans h.1)) h.2

/-- A transaction after the peer of the handle was found. -/
theorem requirePeer_tx_sat {α : Type} {handle : UInt64} {f : Peer → Do P α}
    (hf : ∀ (peer : Peer) (tr : Trace P.Key) (db : Db P.Key), db.rows.lookup (.handle handle) = some peer →
      ∃ Q, Sat I A T Q (f peer) tr db) :
    Sat I A T (fun _ _ _ => True) (requirePeer handle >>= f) tr db :=
  Sat.seq (requirePeer_sat handle) (fun _ _ _ _ => trivial) fun peer tr₁ db₁ h =>
    (hf peer tr₁ db₁ (h.2 peer rfl)).choose_spec.mono fun _ _ _ _ => trivial

/-- What the transaction of `acknowledge_outgoing` does. -/
theorem acknowledgeOutgoingTx_ok {rows : Rows P.Key}
    {read : (k : Key) → Except StorageError (Row P.Key k)} (hr : Reads rows read) {peer : Peer}
    {id : MessageId} {b : Bool} {cs : List (Change P.Key)}
    (h : acknowledgeOutgoingTx peer id read = .ok (b, cs)) :
    ((rows.lookup (.outbox peer id)).isSome ∧ cs = [⟨.outbox peer id, none⟩]) ∨
      (rows.lookup (.outbox peer id) = none ∧ cs = []) := by
  simp only [acknowledgeOutgoingTx, bind, Except.bind] at h
  split at h
  · cases h
  · next v hv =>
    have hl := txFind_ok hr hv
    cases v with
    | none =>
      obtain ⟨-, rfl⟩ := Prod.mk.inj (Except.ok.inj h)
      exact .inr ⟨hl, rfl⟩
    | some m =>
      obtain ⟨-, rfl⟩ := Prod.mk.inj (Except.ok.inj h)
      exact .inl ⟨by rw [hl]; rfl, rfl⟩

/-- Once `acknowledge_outgoing` returns, the message was out of the outbox. -/
theorem acknowledgeOutgoing_sat (handle : UInt64) (id : MessageId) :
    Sat I A (fun db rows => ∃ peer, AckOutTx handle id db peer rows)
      (fun r _ db' => ∀ b, r = .ok b → ∃ peer,
        (∃ db₀ : Db P.Key, db₀.Le db' ∧ db₀.rows.lookup (.handle handle) = some peer) ∧
        ∃ db₀ : Db P.Key, db₀.Le db' ∧ db₀.rows.lookup (.outbox peer id) = none)
      (acknowledgeOutgoing handle id : Do P Bool) tr db := by
  refine Sat.seq (requirePeer_sat handle) (fun _ _ _ _ => nofun) fun peer tr₁ db₁ h₁ => ?_
  have hn := h₁.2 peer rfl
  refine Sat.tx (fun db₂ hle _ read hr => ?_) fun _ _ _ _ => nofun
  match h : acknowledgeOutgoingTx peer id read with
  | .error e => exact nofun
  | .ok (b, cs) =>
    rcases acknowledgeOutgoingTx_ok hr h with ⟨hs, rfl⟩ | ⟨hs, rfl⟩
    · have hgone : (db₂.rows.applyAll [⟨.outbox peer id, none⟩]).lookup (.outbox peer id) = none :=
        Rows.lookup_applyAll_head _ _ (by simp)
      exact
        { step := ⟨peer, ⟨db₁, hle, hn⟩, hs, rfl⟩
          ok := fun _ _ => ⟨peer, ⟨db₁, hle.trans (Db.le_push _ _), hn⟩, _, Db.Le.refl _, hgone⟩
          unknownStored := fun f => nofun
          unknownLost := fun f => nofun
          writeFault := fun f => nofun }
    · exact fun _ _ => ⟨peer, ⟨db₁, hle, hn⟩, db₂, Db.Le.refl _, hs⟩

theorem abandonOutgoing_sat (handle : UInt64) (id : MessageId) :
    Sat I A (fun db rows => ∃ peer m, AbandonTx handle id db peer m rows) (fun _ _ _ => True)
      (abandonOutgoing handle id : Do P Bool) tr db := by
  refine requirePeer_tx_sat fun peer tr db hn =>
    ⟨_, Sat.tx_once fun db₁ read a cs hle _ hr h hne => ?_⟩
  simp only [abandonOutgoingTx, bind, Except.bind] at h
  split at h
  · cases h
  · next v hv =>
    have hl := txFind_ok hr hv
    cases v with
    | none => exact absurd (congrArg Prod.snd (Except.ok.inj h)).symm hne
    | some m =>
      simp only at h
      split at h
      · cases h
      · next m' hd =>
        obtain ⟨rfl, -⟩ := decodeOutbox_ok hd
        obtain rfl := (congrArg Prod.snd (Except.ok.inj h)).symm
        exact ⟨peer, m', ⟨db, hle, hn⟩, hl, rfl⟩

theorem acknowledgeIncoming_sat (handle : UInt64) (id : MessageId) :
    Sat I A (fun db rows => ∃ peer, AckInTx handle id db peer rows) (fun _ _ _ => True)
      (acknowledgeIncoming handle id : Do P Bool) tr db := by
  refine requirePeer_tx_sat fun peer tr db hn =>
    ⟨_, Sat.tx_once fun db₁ read a cs hle _ hr h hne => ?_⟩
  simp only [acknowledgeIncomingTx, bind, Except.bind] at h
  split at h
  · cases h
  · next v hv =>
    have hl := txFind_ok hr hv
    cases v with
    | some m =>
      by_cases hid : IncomingMessage.messageId m = id
      · simp only [hid, ne_eq, not_true_eq_false, if_false] at h
        obtain rfl := (congrArg Prod.snd (Except.ok.inj h)).symm
        exact ⟨peer, ⟨db, hle, hn⟩, ⟨m, hl, hid⟩, rfl⟩
      · simp only [hid, ne_eq, not_false_eq_true, if_true] at h
        cases h
    | none =>
      simp only at h
      split at h
      · cases h
      · split at h
        · exact absurd (congrArg Prod.snd (Except.ok.inj h)).symm hne
        · cases h

/-! ## Receiving -/

/-- How `receiveAs` ends. -/
inductive ReceivePost (our : Bytes32) (handle : UInt64) (wire : Bytes) (peer : Peer)
    (tr : Trace P.Key) (db : Db P.Key) (r : Except MessagingError Received) (tr' : Trace P.Key)
    (db' : Db P.Key) : Prop
  | unusable (looked : Looked tr db tr' db') (db₁ : Db P.Key) (le : db.Le db₁) (le' : db₁.Le db')
      (e : MessagingError) (h : LoadResult our handle peer db₁ (.error e)) (hr : r = .error e)
  | checked (looked : Looked tr db tr' db') (db₁ : Db P.Key) (le : db.Le db₁)
      (h : DuplicateResult peer (messageId P wire) db₁ db' (r.map some))
  | refused (looked : Looked tr db tr' db') (db₁ db₂ : Db P.Key) (le : db.Le db₁) (le' : db₂.Le db')
      (new : DuplicateResult peer (messageId P wire) db₁ db₂ (.ok none)) (e : MessagingError)
      (hr : r = .error e)
  | wrote (db₁ : Db P.Key) (rows : Rows P.Key) (old new : SessionRecord P.Key)
      (m : IncomingMessage) (le : db.Le db₁)
      (step : ReceiveTx our handle wire db₁ peer old new m rows) (le' : (db₁.push rows).Le db')
      (hr : r = .ok (.accepted m) ∨ ∃ e, r = .error e)

/-- What `receive` has before it commits is what its transaction needs. -/
theorem receiveTx_of_batch {handle : UInt64} {wire : Bytes} {peer : Peer} {header : Header}
    {ciphertext : Bytes} {old : SessionRecord P.Key} {fresh : StaticSecret}
    {staged : StagedTransition P.Key Bytes} {m : IncomingMessage} {inbox unseen : SideWrite P.Key}
    {db₁ : Db P.Key} (hw : splitWire wire = .ok (header, ciphertext))
    (hload : Loaded our db₁ handle peer old)
    (hst : (DurableSession.ofRecord P old).stageDecrypt P header ciphertext fresh = .ok staged)
    (hm : m = { messageId := messageId P wire, generation := staged.generation
                plaintext := staged.output })
    (hin : inbox.toWrite = ⟨.inbox peer m.messageId, .absent, .put m⟩)
    (hun : unseen.toWrite = ⟨.seen peer m.messageId, .absent, .check⟩)
    (hb : BatchHolds peer (.predecessor old.generation old.role ⟨our, peer⟩ (P.recordDigest old))
      [inbox, unseen] db₁) :
    ReceiveTx our handle wire db₁ peer old staged.record m
      (db₁.rows.applyAll (batchChanges peer staged.record [inbox, unseen])) := by
  obtain ⟨hroom, hgen, -, hop, hrec, hbound⟩ := DurableSession.stage_ok hst
  obtain ⟨found, hf, -, -, -, hd⟩ := hb.session
  have h1 := hb.side inbox (by simp)
  have h2 := hb.side unseen (by simp)
  rw [hin] at h1
  rw [hun] at h2
  have c1 : inbox.toWrite.change = some ⟨.inbox peer m.messageId, some m⟩ := by rw [hin]; rfl
  have c2 : unseen.toWrite.change = none := by rw [hun]; rfl
  have hours := hload.bound.ours
  have htheirs := hload.bound.theirs
  exact
    { loaded := hload
      unchanged := ⟨found, hf, hd⟩
      follows :=
        { room := hroom
          eq := by rw [hrec]; rfl
          bound := hours ▸ htheirs ▸ hbound }
      decrypts := ⟨fresh, header, ciphertext, hw, by rw [hrec, hm]; exact hop⟩
      message := by rw [hm, hrec]; simp [hgen]
      noInbox := h1
      noSeen := h2
      eq := by simp only [batchChanges, receiveChanges, List.filterMap_cons, c1, c2,
        List.filterMap_nil] }

theorem receiveAs_sat {i : Nat} {handle : UInt64} {wire : Bytes} {peer : Peer} {header : Header}
    {ciphertext : Bytes} (hw : splitWire wire = .ok (header, ciphertext))
    (hnamed : ∃ db₀ : Db P.Key, db₀.Le db ∧ db₀.rows.lookup (.handle handle) = some peer) :
    Sat I A (fun db rows => ∃ peer old new m, ReceiveTx our handle wire db peer old new m rows)
      (ReceivePost our handle wire peer tr db)
      (receiveAs i our handle wire (peer, header, ciphertext)) tr db := by
  refine Sat.seq (loadFor_sat handle peer)
    (fun e tr₁ db₁ h => .unusable h.1 db₁ h.1.le (Db.Le.refl _) e h.2 rfl) fun s tr₁ db₁ h => ?_
  obtain ⟨hl₁, hld⟩ := h
  cases hld with
  | loaded old hf hbd =>
  have hload : Loaded our db₁ handle peer old := by
    obtain ⟨db₀, hle₀, h₀⟩ := hnamed
    exact ⟨⟨db₀, db₁, hle₀.trans hl₁.le, Db.Le.refl _, h₀, hf⟩, hbd⟩
  refine Sat.seq (readDuplicate_sat peer _)
    (fun e tr₂ db₂ h => .checked (hl₁.trans h.1) db₁ hl₁.le h.2) fun d tr₂ db₂ h => ?_
  obtain ⟨hl₂, hd⟩ := h
  cases d with
  | some d => exact Sat.pure (.checked (hl₁.trans hl₂) db₁ hl₁.le hd)
  | none =>
    have refused : ∀ {r : Except MessagingError Received} {tr' : Trace P.Key} {db' : Db P.Key},
        Looked tr₂ db₂ tr' db' → (∃ e, r = .error e) →
          ReceivePost our handle wire peer tr db r tr' db' := fun hl ⟨e, he⟩ =>
      .refused ((hl₁.trans hl₂).trans hl) db₁ db₂ hl₁.le hl.le hd e he
    refine Sat.bind (Sat.draw fun db₃ hle₃ _ fresh => ?_)
    have hl₃ : Looked tr₂ db₂ ((db₃, db₃) :: tr₂) db₃ := .step hle₃
    have hle : db.Le db₃ := hl₁.le.trans (hl₂.le.trans hle₃)
    refine lift_sat (fun staged hst => ?_) fun e _ => refused hl₃ ⟨_, rfl⟩
    refine lift_sat (fun inbox hin => ?_) fun e he => nomatch he
    refine lift_sat (fun unseen hun => ?_) fun e he => nomatch he
    obtain rfl : old.peer = peer := hload.bound.theirs
    obtain rfl : old.our = our := hload.bound.ours
    refine Sat.seq (Sat.weaken (DurableSession.commitWith_sat
      (T := fun db rows => ReceiveTx old.our handle wire db old.peer old staged.record _ rows)
      fun db₄ hle₄ _ hb => receiveTx_of_batch hw
          (hload.mono (hl₂.le.trans (hle₃.trans hle₄))) hst rfl (SideWrite.insert_ok hin)
          (SideWrite.requireAbsent_ok hun) hb) fun db rows h => ⟨_, _, _, _, h⟩) ?_ ?_
    · intro e tr₄ db₄ h
      cases h with
      | written _ _ hr => rcases hr with ⟨_, hr⟩ | ⟨_, _, hr⟩ <;> cases hr
      | failed _ hr => obtain ⟨_, _, hr⟩ := hr; cases hr
    · intro r tr₄ db₄ h
      obtain ⟨r, s'⟩ := r
      cases r with
      | ok out =>
        cases h with
        | written le step hr =>
          exact Sat.pure (.wrote _ _ _ _ _ (hle.trans le) step (Db.Le.refl _) (.inl rfl))
        | failed _ hr => obtain ⟨_, _, hr⟩ := hr; cases hr
      | error e =>
        cases h with
        | written le step hr =>
          rcases hr with ⟨_, hr⟩ | ⟨_, _, hr⟩
          · cases hr
          · cases hr
            exact (commitError_sat _ _ _ _ _ _).mono fun r tr₅ db₅ h =>
              .wrote _ _ _ _ _ (hle.trans le) step h.1.le (.inr h.2)
        | failed hl₄ _ =>
          have hl := hl₃.trans hl₄
          split
          · next heq => cases heq
          · refine Sat.seq (readDuplicate_sat _ _)
              (fun e tr₅ db₅ h => refused (hl.trans h.1) ⟨e, rfl⟩) fun d tr₅ db₅ h => ?_
            cases d with
            | some d =>
              exact Sat.pure (.checked (((hl₁.trans hl₂).trans hl).trans h.1) db₄
                (hle.trans hl₄.le) h.2)
            | none => exact Sat.throw (refused (hl.trans h.1) ⟨_, rfl⟩)
          · exact (commitError_sat _ _ _ _ _ _).mono fun r tr₅ db₅ h => refused (hl.trans h.1) h.2

/-- The first part of `receive`. -/
theorem receivePeer_sat (i : Nat) (handle : UInt64) (wire : Bytes) :
    Sat I A T (LookPost tr db fun r db' => ∀ p header ciphertext, r = .ok (p, header, ciphertext) →
        splitWire wire = .ok (header, ciphertext) ∧ db'.rows.lookup (.handle handle) = some p)
      (receivePeer i handle wire : Do P _) tr db := by
  refine Sat.seq (requireResolved_sat i handle) (fun e _ _ h => ⟨h.1, nofun⟩) fun _ tr₁ db₁ h₁ => ?_
  refine lift_sat (fun hc hw => ?_) fun e _ => ⟨h₁.1, nofun⟩
  refine Sat.seq (requirePeer_sat handle) (fun e _ _ h => ⟨h₁.1.trans h.1, nofun⟩)
    fun p tr₂ db₂ h₂ => Sat.pure ⟨h₁.1.trans h₂.1, ?_⟩
  rintro _ _ _ ⟨⟩
  exact ⟨hw, h₂.2 p rfl⟩

/-- The first part of `send`. -/
theorem sendPeer_sat (i : Nat) (handle : UInt64) (clientId : Bytes) :
    Sat I A T (LookPost tr db fun r db' => ∀ p, r = .ok p →
        (clientId ≠ [] ∧ clientId.length ≤ maxClientMessageIdLen) ∧
          db'.rows.lookup (.handle handle) = some p)
      (sendPeer i handle clientId : Do P _) tr db := by
  unfold sendPeer
  split
  · exact Sat.bind (Sat.throw ⟨.refl tr db, nofun⟩)
  · next hid =>
    have hid : clientId ≠ [] ∧ clientId.length ≤ maxClientMessageIdLen := by simpa using hid
    refine Sat.seq (requireResolved_sat i handle) (fun e _ _ h => ⟨h.1, nofun⟩)
      fun _ tr₁ db₁ h₁ => ?_
    exact (requirePeer_sat handle).mono fun r tr₂ db₂ h₂ =>
      ⟨h₁.1.trans h₂.1, fun p hp => ⟨hid, h₂.2 p hp⟩⟩

end Messenger

end Arcium
