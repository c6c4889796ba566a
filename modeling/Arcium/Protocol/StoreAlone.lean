import Arcium.Protocol.StoreInv

/-!
# No operation that runs alone finds a session missing

`Finds x s`: run alone from `s`, whatever fails, `x` does not report `MissingSession`. Only `load`
reports it, for a handle whose peer has no session. In a store with `Paired` there is none, and no
operation writes before it loads.
-/

namespace Arcium

open Conc

namespace Messenger

variable {P : Platform} {our : Bytes32}

/-- The result does not report that a session is missing. -/
def Found {α : Type} (r : Except MessagingError α) : Prop := ∀ h, r ≠ .error (.missingSession h)

theorem Found.bind {α β : Type} {x : Except MessagingError α} {f : α → Except MessagingError β}
    (hx : Found x) (hf : ∀ a, Found (f a)) : Found (x >>= f) := by
  cases x with
  | ok a => exact hf a
  | error e => exact fun h he => hx h (by rw [Except.error.inj he])

/-- Run alone from `s`, `x` does not report that a session is missing. -/
def Finds {α : Type} (x : Do P α) (s : Device P.Key Memory) : Prop :=
  ∀ r s', Prog.Alone (fun _ => True) x.run s r s' → Found r

namespace Finds

variable {α β : Type} {s : Device P.Key Memory}

theorem pure {a : α} : Finds (Pure.pure a : Do P α) s := by
  intro r s' h
  cases h with
  | ret => exact nofun

theorem throw {e : MessagingError} (he : ∀ h, e ≠ .missingSession h) :
    Finds (MonadExcept.throw e : Do P α) s := by
  intro r s' h
  cases h with
  | ret => exact fun a ha => he a (Except.error.inj ha)

theorem bind {x : Do P α} {f : α → Do P β} (hx : Finds x s)
    (hf : ∀ a s', Prog.Alone (fun _ => True) x.run s (.ok a) s' → Finds (f a) s') :
    Finds (x >>= f) s := by
  intro r s' h
  rcases Run.alone_bind h with ⟨a, s₁, h1, h2⟩ | ⟨e, h1, rfl⟩
  · exact hf a s₁ h1 r s' h2
  · exact fun a ha => hx _ _ h1 a (congrArg _ (Except.error.inj ha))

/-- Whatever comes after an error. -/
theorem refuse {e : MessagingError} {f : α → Do P β} (he : ∀ h, e ≠ .missingSession h) :
    Finds (MonadExcept.throw e >>= f) s :=
  bind (throw he) fun a s' h => by cases h

theorem atomic {f : Choice → Device P.Key Memory → Device P.Key Memory × Except MessagingError α}
    (hf : ∀ e, Found (f e s).2) : Finds (ExceptT.mk (Prog.atomic f)) s := by
  intro r s' h
  obtain ⟨e, -, -, rfl⟩ := Prog.Alone.of_atomic h
  exact hf e

theorem attempt {x : Prog Choice (Device P.Key Memory) α} : Finds (Op.attempt x) s := by
  intro r s' h
  obtain ⟨a, s₁, -, h2⟩ := Prog.Alone.of_bind h
  cases h2 with
  | ret => exact nofun

theorem find {k : Key} : Finds (Arcium.find MessagingError.store k : Do P _) s := by
  refine atomic fun e h => ?_
  dsimp only
  split
  · exact nofun
  · exact nofun
  · exact nofun

theorem keysUnder {view : Rows P.Key → α} :
    Finds (Arcium.keysUnder MessagingError.store view : Do P α) s := by
  refine atomic fun e h => ?_
  dsimp only
  split
  · exact nofun
  · exact nofun

theorem tx {errs : TxErrors MessagingError}
    {body : ((k : Key) → Except StorageError (Row P.Key k)) →
      Except MessagingError (α × List (Change P.Key))}
    (hb : ∀ read, Found (body read))
    (he : ∀ f h, errs.onBegin f ≠ .missingSession h ∧ errs.onWrite f ≠ .missingSession h ∧
      errs.onCommit f ≠ .missingSession h) : Finds (Arcium.tx errs body : Do P α) s := by
  refine atomic fun e h => ?_
  dsimp only [txStep]
  split
  · exact fun hx => (he _ h).1 (Except.error.inj hx)
  · split
    · next x hx => exact fun ha => hb _ h (hx.trans (by rw [Except.error.inj ha]))
    · exact nofun
    · split
      · exact fun hx => (he _ h).2.1 (Except.error.inj hx)
      · split
        · exact nofun
        · exact fun hx => (he _ h).2.2 (Except.error.inj hx)
        · exact fun hx => (he _ h).2.2 (Except.error.inj hx)

theorem lift {ε : Type} {toErr : ε → MessagingError} {x : Except ε α}
    (he : ∀ e h, x = .error e → toErr e ≠ .missingSession h) :
    Finds (Messenger.lift toErr x : Do P α) s := by
  cases x with
  | ok a => exact pure
  | error e => exact throw fun h => he e h rfl

end Finds

/-! Each operation, from the reads on which it depends. -/

section Operations

variable {α : Type} {s : Device P.Key Memory}

theorem txFind_found (read : (k : Key) → Except StorageError (Row P.Key k)) (k : Key) :
    Found (txFind read k) := by
  intro h
  unfold txFind
  split
  · exact nofun
  · exact nofun
  · exact nofun

theorem decodeOutbox_found (m : OutgoingMessage) : Found (decodeOutbox P m) := by
  intro h
  unfold decodeOutbox
  split
  · exact nofun
  · exact nofun

theorem priorSendTx_found (peer : Peer) (clientId : Bytes)
    (read : (k : Key) → Except StorageError (Row P.Key k)) : Found (priorSendTx peer clientId read) := by
  refine (txFind_found read _).bind fun r => ?_
  split
  · exact nofun
  · exact nofun
  · refine (txFind_found read _).bind fun m => ?_
    split
    · exact (decodeOutbox_found _).bind fun _ => nofun
    · exact nofun

theorem readPriorSend_finds (peer : Peer) (clientId : Bytes) :
    Finds (readPriorSend (P := P) peer clientId) s :=
  .tx (fun read => (priorSendTx_found peer clientId read).bind fun _ => nofun)
    fun _ _ => ⟨nofun, nofun, nofun⟩

theorem requireResolved_finds (i : Nat) (handle : UInt64) :
    Finds (requireResolved (P := P) i handle) s := by
  refine .bind .attempt fun u s' _ => ?_
  cases u with
  | none => exact .pure
  | some u => exact .throw nofun

theorem requirePeer_finds (handle : UInt64) : Finds (requirePeer (P := P) handle) s := by
  refine .bind .find fun p s' _ => ?_
  cases p with
  | none => exact .throw nofun
  | some p => exact .pure

/-- A read-only program leaves the database as it is. -/
theorem LookPost.steady {C : Choice → Prop} {x : Do P α}
    {R : Except MessagingError α → Db P.Key → Prop} {s' : Device P.Key Memory}
    {r : Except MessagingError α}
    (h : Sat (fun _ => True) (fun _ _ => False) (fun _ _ => False) (LookPost [] s.db R) x [] s.db)
    (ha : Prog.Alone C x.run s r s') : s'.db = s.db ∧ R r s'.db := by
  obtain ⟨tr, ⟨hl, hr⟩, hs⟩ := h.alone ha
  exact ⟨hs (hl.quiet quiet_nil), hr⟩

/-- A session that is stored is found. -/
theorem loadFor_finds {handle : UInt64} {p : Peer} (hp : (s.db.rows.lookup (.session p)).isSome) :
    Finds (loadFor (P := P) our handle p) s := by
  intro r s' h
  obtain ⟨hs, hr⟩ := LookPost.steady (loadFor_sat handle p) h
  cases hr with
  | loaded old found bound => exact nofun
  | missing hn =>
    rw [hs] at hn
    rw [hn] at hp
    cases hp
  | invalid old found unbound e => exact nofun
  | fault f => exact nofun

theorem load_finds (hp : Paired s.db.rows) (handle : UInt64) :
    Finds (load (P := P) our handle) s := by
  refine .bind (requirePeer_finds handle) fun p s' h => ?_
  obtain ⟨hs, hn⟩ := LookPost.steady (requirePeer_sat handle) h
  have hp' := hp.handle handle p (hs ▸ hn p rfl)
  exact .bind (loadFor_finds (hs.symm ▸ hp')) fun _ _ _ => .pure

theorem commitError_finds (i : Nat) (handle generation : UInt64) (keys : List Key)
    (legacy : Option Peer) (e : CommitError) :
    Finds (commitError i handle generation keys legacy e : Do P α) s := by
  cases e with
  | outcomeUnknown f => exact .bind .attempt fun _ _ _ => .throw nofun
  | _ => exact .throw nofun

theorem commitWith_finds {β : Type} (session : DurableSession P.Key) (staged : StagedTransition P.Key β)
    (side : List (SideWrite P.Key)) :
    Finds (session.commitWith P staged side : Do P _) s := by
  unfold DurableSession.commitWith
  split
  · exact .pure
  · exact .pure
  · split
    · exact .pure
    · dsimp only
      split
      · exact .pure
      · refine .bind .attempt fun r _ _ => ?_
        split
        all_goals exact .pure

theorem readDuplicate_finds (peer : Peer) (id : MessageId) :
    Finds (readDuplicate (P := P) peer id) s := by
  refine .bind .find fun m _ _ => ?_
  split
  · split
    · exact .throw nofun
    · exact .pure
  · refine .bind .find fun seen _ _ => ?_
    split
    · split
      · exact .throw nofun
      · exact .pure
    · exact .pure

theorem stageError_found (e : StageError) (h : UInt64) : stageError e ≠ .missingSession h := by
  cases e <;> exact nofun

theorem sendAs_finds (hp : Paired s.db.rows) (i : Nat) (handle : UInt64) (clientId plaintext : Bytes)
    (peer : Peer) : Finds (sendAs (P := P) i our handle clientId plaintext peer) s := by
  refine .bind (readPriorSend_finds peer clientId) fun r s' h => ?_
  obtain ⟨hs, -⟩ := LookPost.steady (readPriorSend_sat peer clientId) h
  split
  · exact .pure
  · refine .bind (load_finds (hs.symm ▸ hp) handle) fun found _ _ => ?_
    refine .bind .attempt fun nonce _ _ => ?_
    refine .bind (.lift fun e h _ => stageError_found e h) fun staged _ _ => ?_
    refine .bind (.lift fun _ _ _ => nofun) fun outbox _ _ => ?_
    refine .bind (.lift fun _ _ _ => nofun) fun index _ _ => ?_
    refine .bind (commitWith_finds _ _ _) fun out _ _ => ?_
    split
    · exact .pure
    · exact commitError_finds _ _ _ _ _ _

theorem receiveAs_finds (i : Nat) (handle : UInt64) (wire : Bytes) {peer : Peer}
    (hp : (s.db.rows.lookup (.session peer)).isSome) (header : Header) (ciphertext : Bytes) :
    Finds (receiveAs (P := P) i our handle wire (peer, header, ciphertext)) s := by
  refine .bind (loadFor_finds hp) fun session _ _ => ?_
  refine .bind (readDuplicate_finds _ _) fun duplicate _ _ => ?_
  split
  · exact .pure
  · refine .bind .attempt fun fresh _ _ => ?_
    refine .bind (.lift fun e h _ => stageError_found e h) fun staged _ _ => ?_
    refine .bind (.lift fun _ _ _ => nofun) fun inbox _ _ => ?_
    refine .bind (.lift fun _ _ _ => nofun) fun unseen _ _ => ?_
    refine .bind (commitWith_finds _ _ _) fun out _ _ => ?_
    split
    · exact .pure
    · refine .bind (readDuplicate_finds _ _) fun duplicate _ _ => ?_
      split
      · exact .pure
      · exact .throw nofun
    · exact commitError_finds _ _ _ _ _ _

/-- What a program reported that was run for its result. -/
theorem attempt_alone {x : Prog Choice (Device P.Key Memory) α} {a : α} {s' : Device P.Key Memory}
    (h : Prog.Alone (fun _ => True) (Op.attempt x : Do P α).run s (.ok a) s') :
    Prog.Alone (fun _ => True) x s a s' := by
  obtain ⟨b, s₁, h1, h2⟩ := Prog.Alone.of_bind h
  cases h2 with
  | ret => exact h1

theorem classifyTaken_finds (handle : UInt64) (peer : Peer) :
    Finds (classifyTaken (P := P) handle peer) s := by
  refine .bind .find fun p _ _ => ?_
  split
  · exact .pure
  · exact .pure

/-- `classify_taken` answers with one of two errors. -/
theorem classifyTaken_alone {handle : UInt64} {peer : Peer} {e : MessagingError}
    {s' : Device P.Key Memory}
    (h : Prog.Alone (fun _ => True) (classifyTaken (P := P) handle peer).run s (.ok e) s') :
    e = .alreadyExists handle ∨ e = .handleCollision handle := by
  rcases Run.alone_bind h with ⟨p, s₁, -, h2⟩ | ⟨e', -, he⟩
  · cases p with
    | none =>
      cases h2 with
      | ret => exact .inl rfl
    | some q =>
      cases h2 with
      | ret =>
        by_cases hq : q = peer
        · exact .inl (if_pos hq)
        · exact .inr (if_neg hq)
  · cases he

theorem createSession_finds (i : Nat) (new : NewSession P.Key) :
    Finds (createSession i our new) s := by
  refine .bind (.lift fun _ _ _ => nofun) fun side _ _ => ?_
  refine .bind .attempt fun r _ _ => ?_
  have htaken : ∀ s, Finds (classifyTaken new.handle new.session.peerIdentityPk >>= throw : Do P Unit) s := by
    intro s
    refine .bind (classifyTaken_finds _ _) fun e _ he => ?_
    rcases classifyTaken_alone he with rfl | rfl
    · exact .throw nofun
    · exact .throw nofun
  split
  · exact .attempt
  · exact htaken _
  · exact htaken _
  · split
    · exact .throw nofun
    · exact .throw nofun
  · exact .throw nofun
  · exact .throw nofun
  · exact .throw nofun
  · exact .bind .attempt fun _ _ _ => .throw nofun
  · exact .throw nofun
  · exact .throw nofun

theorem checkProvisional_found (p : ProvisionalHandshake) : Found (checkProvisional p) := by
  intro h
  unfold checkProvisional
  split
  · exact nofun
  · exact nofun

theorem checked_finds {x : Except MessagingError α} (hx : Found x) : Finds (checked x : Do P α) s :=
  .lift fun _ h he hm => hx h (hm ▸ he)

theorem txRequire_found (read : (k : Key) → Except StorageError (Row P.Key k)) (k : Key)
    (same : Row P.Key k → Bool) : Found (txRequire read k same) := by
  intro h
  unfold txRequire
  split
  · split
    · exact nofun
    · exact nofun
  · exact nofun
  · exact nofun
  · exact nofun

theorem txAbsent_found (read : (k : Key) → Except StorageError (Row P.Key k)) (k : Key)
    (reason : String) : Found (txAbsent read k reason) := by
  intro h
  unfold txAbsent
  split
  · exact nofun
  · exact nofun
  · exact nofun
  · exact nofun

/-- `retire_legacy` makes a missing session `AlreadyExists`. -/
theorem retireLegacy_finds (i : Nat) (handle : UInt64) (provisional : ProvisionalHandshake)
    (validated : ValidatedRecord P.Key) : Finds (retireLegacy i our handle provisional validated) s := by
  refine .bind (requireResolved_finds i handle) fun _ _ _ => ?_
  dsimp only
  split
  · exact .refuse nofun
  refine .bind .attempt fun r _ _ => ?_
  split
  · exact .throw nofun
  · exact .throw nofun
  · next hm _ _ => exact .throw hm
  · split
    · exact .refuse nofun
    refine .bind .keysUnder fun ids _ _ => ?_
    split
    · exact .refuse nofun
    refine .bind .keysUnder fun ids _ _ => ?_
    split
    · exact .refuse nofun
    refine .tx (fun read => ?_) fun _ _ => ⟨nofun, nofun, nofun⟩
    exact (txRequire_found _ _ _).bind fun _ => (txRequire_found _ _ _).bind fun _ =>
      (txAbsent_found _ _ _).bind fun _ => (txAbsent_found _ _ _).bind fun _ =>
        (txRequire_found _ _ _).bind fun _ => nofun

theorem provisionalTx_found (handle : UInt64) (record : ProvisionalHandshake)
    (read : (k : Key) → Except StorageError (Row P.Key k)) :
    Found (provisionalTx handle record read) := by
  refine (txFind_found read _).bind fun p => ?_
  split
  · split
    · exact nofun
    · exact nofun
  · split
    · exact nofun
    · exact nofun
    · split
      · split
        · exact nofun
        · exact nofun
      · exact nofun
      · exact nofun
      · exact nofun
    · exact nofun

theorem recordProvisionalHandshake_finds (i : Nat) (handle : UInt64)
    (provisional : ProvisionalHandshake) (validated : ValidatedRecord P.Key) :
    Finds (recordProvisionalHandshake i our handle provisional validated) s := by
  refine .bind (checked_finds (checkProvisional_found _)) fun record _ _ => ?_
  refine .bind (.tx (provisionalTx_found handle record) fun _ _ => ⟨nofun, nofun, nofun⟩)
    fun go _ _ => ?_
  split
  · exact retireLegacy_finds i handle record validated
  · exact .pure

theorem splitWire_found (wire : Bytes) : Found (splitWire wire) := by
  intro h
  unfold splitWire
  split
  · exact nofun
  · split
    · exact nofun
    · exact nofun

theorem takenFirst_finds (handle : UInt64) (peer : Peer) :
    Finds (takenFirst (P := P) handle peer) s := by
  refine .bind (classifyTaken_finds _ _) fun e _ he => ?_
  rcases classifyTaken_alone he with rfl | rfl
  · refine .bind .find fun p _ _ => ?_
    split
    · exact .pure
    · exact .throw nofun
  · exact .throw nofun

theorem promoteFirst_finds (i : Nat) (first : FirstContact P.Key) (wire : Bytes) :
    Finds (promoteFirst i our first wire) s := by
  refine .bind (requireResolved_finds i _) fun _ _ _ => ?_
  dsimp only
  split
  · exact .refuse nofun
  refine .bind (checked_finds (splitWire_found _)) fun hc _ _ => ?_
  refine .bind (.lift fun _ _ _ => nofun) fun candidate _ _ => ?_
  refine .bind .attempt fun fresh _ _ => ?_
  refine .bind (.lift fun e h _ => stageError_found e h) fun staged _ _ => ?_
  refine .bind (checked_finds (checkProvisional_found _)) fun provisional _ _ => ?_
  refine .bind (.lift fun _ _ _ => nofun) fun side _ _ => ?_
  refine .bind .attempt fun r _ _ => ?_
  split
  · exact .pure
  · exact takenFirst_finds _ _
  · exact takenFirst_finds _ _
  · split
    · exact .throw nofun
    · exact .throw nofun
  · exact .bind .attempt fun _ _ _ => .throw nofun
  · exact .throw nofun
  · exact .throw nofun
  · exact .throw nofun
  · exact .throw nofun
  · exact .throw nofun

theorem readEach_finds {read : MessageId → Do P α} (hr : ∀ id s, Finds (read id) s)
    (ids : List MessageId) : Finds (readEach read ids) s := by
  induction ids generalizing s with
  | nil => exact .pure
  | cons id ids ih => exact .bind (hr id s) fun _ _ _ => .bind ih fun _ _ _ => .pure

theorem readListed_finds (k : Key) : Finds (readListed (P := P) k) s := by
  refine .bind .find fun v _ _ => ?_
  split
  · exact .pure
  · exact .throw nofun

theorem pendingOutgoing_finds (handle : UInt64) : Finds (pendingOutgoing (P := P) handle) s := by
  refine .bind (requirePeer_finds handle) fun peer _ _ => ?_
  refine .bind .keysUnder fun ids _ _ => ?_
  refine .bind (readEach_finds (fun id s => ?_) ids) fun _ _ _ => .pure
  exact .bind (readListed_finds _) fun m _ _ => checked_finds (decodeOutbox_found m)

theorem pendingIncoming_finds (handle : UInt64) : Finds (pendingIncoming (P := P) handle) s := by
  refine .bind (requirePeer_finds handle) fun peer _ _ => ?_
  refine .bind .keysUnder fun ids _ _ => ?_
  exact .bind (readEach_finds (fun id s => readListed_finds (.inbox peer id)) ids) fun _ _ _ => .pure

/-- An operation that finds the peer and runs one transaction. -/
theorem peerTx_finds {handle : UInt64}
    {body : Peer → ((k : Key) → Except StorageError (Row P.Key k)) →
      Except MessagingError (α × List (Change P.Key))} (hb : ∀ peer read, Found (body peer read)) :
    Finds (requirePeer handle >>= fun peer => tx repeatable (body peer) : Do P α) s :=
  .bind (requirePeer_finds handle) fun peer _ _ => .tx (hb peer) fun _ _ => ⟨nofun, nofun, nofun⟩

theorem acknowledgeOutgoing_finds (handle : UInt64) (id : MessageId) :
    Finds (acknowledgeOutgoing (P := P) handle id) s := by
  refine peerTx_finds fun peer read => (txFind_found read _).bind fun m => ?_
  split
  · exact nofun
  · exact nofun

theorem acknowledgeIncoming_finds (handle : UInt64) (id : MessageId) :
    Finds (acknowledgeIncoming (P := P) handle id) s := by
  refine peerTx_finds fun peer read => (txFind_found read _).bind fun m => ?_
  split
  · split
    · exact nofun
    · exact nofun
  · refine (txFind_found read _).bind fun seen => ?_
    split
    · exact nofun
    · exact nofun

theorem abandonOutgoing_finds (handle : UInt64) (id : MessageId) :
    Finds (abandonOutgoing (P := P) handle id) s := by
  refine peerTx_finds fun peer read => (txFind_found read _).bind fun m => ?_
  split
  · exact nofun
  · exact (decodeOutbox_found _).bind fun _ => nofun

theorem anyStored_finds (keys : List Key) : Finds (anyStored (P := P) keys) s := by
  induction keys generalizing s with
  | nil => exact .pure
  | cons key keys ih => exact .bind .find fun _ _ _ => .bind ih fun _ _ _ => .pure

theorem allAbsent_found (read : (k : Key) → Except StorageError (Row P.Key k)) (keys : List Key) :
    Found (allAbsent read keys) := by
  induction keys with
  | nil => exact nofun
  | cons key keys ih =>
    unfold allAbsent
    split
    · exact ih
    · exact nofun
    · exact nofun
    · exact nofun

theorem retiredSince_finds (handle : UInt64) (peer : Peer) (keys : List Key) :
    Finds (retiredSince (P := P) handle peer keys) s := by
  refine .tx (fun read => ?_) fun _ _ => ⟨nofun, nofun, nofun⟩
  refine (allAbsent_found read _).bind fun gone => ?_
  split
  · exact nofun
  · split
    · exact nofun
    · exact nofun
    · exact nofun
    · exact nofun

theorem removeSession_finds (hp : Paired s.db.rows) (i : Nat) (handle : UInt64) :
    Finds (removeSession (P := P) i our handle) s := by
  refine .bind (requireResolved_finds i handle) fun _ s' h => ?_
  obtain ⟨hs, -⟩ := LookPost.steady (requireResolved_sat i handle) h
  refine .bind (load_finds (hs.symm ▸ hp) handle) fun found _ _ => ?_
  dsimp only
  split
  · exact .refuse nofun
  refine .bind .keysUnder fun pending _ _ => ?_
  split
  · exact .refuse nofun
  refine .tx (fun read => (txFind_found read _).bind fun record => ?_) fun _ _ => ⟨nofun, nofun, nofun⟩
  split
  · split
    · exact nofun
    · exact nofun
  · exact nofun

theorem recoverFrom_finds (hp : Paired s.db.rows) (i : Nat) (handle : UInt64)
    (mark : Option Unresolved) : Finds (recoverFrom (P := P) i our handle mark) s := by
  cases mark with
  | none => exact .pure
  | some u =>
    refine .bind (anyStored_finds _) fun _ s' h => ?_
    obtain ⟨hs, -⟩ := LookPost.steady (anyStored_sat u.artifactKeys) h
    refine .bind .attempt fun r s'' hr => ?_
    have hfound := load_finds (hs.symm ▸ hp) handle _ _ (attempt_alone hr)
    split
    · exact .bind .attempt fun _ _ _ => .pure
    · split
      · exact .bind .attempt fun _ _ _ => .pure
      · split
        · exact .throw nofun
        · refine .bind (retiredSince_finds _ _ _) fun since _ _ => ?_
          split
          · exact .refuse nofun
          · exact .bind .attempt fun _ _ _ => .pure
    · exact .throw fun h he => hfound h (congrArg _ he)

theorem hasReceived_finds (hp : Paired s.db.rows) (handle : UInt64) :
    Finds (hasReceived (P := P) our handle) s :=
  .bind (load_finds hp handle) fun _ _ _ => .pure

theorem isLegacyUnconfirmed_finds (handle : UInt64) :
    Finds (isLegacyUnconfirmed (P := P) our handle) s := by
  refine .bind .attempt fun r _ _ => ?_
  split
  · exact .pure
  · exact .pure
  · exact .pure
  · exact .pure
  · next hm _ _ => exact .throw hm

theorem provisionalHandshake_finds (handle : UInt64) :
    Finds (provisionalHandshake (P := P) handle) s := by
  refine .bind .find fun p _ _ => ?_
  split
  · exact .bind (checked_finds (checkProvisional_found _)) fun _ _ _ => .pure
  · exact .pure

theorem sendPeer_finds (i : Nat) (handle : UInt64) (clientId : Bytes) :
    Finds (sendPeer (P := P) i handle clientId) s := by
  unfold sendPeer
  split
  · exact .refuse nofun
  · exact .bind (requireResolved_finds i handle) fun _ _ _ => requirePeer_finds handle

theorem receivePeer_finds (i : Nat) (handle : UInt64) (wire : Bytes) :
    Finds (receivePeer (P := P) i handle wire) s := by
  refine .bind (requireResolved_finds i handle) fun _ _ _ => ?_
  refine .bind (checked_finds (splitWire_found _)) fun hc _ _ => ?_
  exact .bind (requirePeer_finds handle) fun _ _ _ => .pure

end Operations

/-- The result of a call, without its value. -/
def Res.outcome : Res → Except MessagingError Unit
  | .done r => r
  | .flag r => r.map fun _ => ()
  | .peer r => r.map fun _ => ()
  | .provisional r => r.map fun _ => ()
  | .outbound r => r.map fun _ => ()
  | .sent _ r => r.map fun _ => ()
  | .prior r => r.map fun _ => ()
  | .received _ r => r.map fun _ => ()
  | .first _ r => r.map fun _ => ()
  | .outgoing r => r.map fun _ => ()
  | .incoming r => r.map fun _ => ()
  | .recovered _ r => r.map fun _ => ()

section Bodies

variable {α β : Type} {s s' : Device P.Key Memory} {C : Choice → Prop}

theorem Found.void {r : Except MessagingError α} (h : Found r) : Found (r.map fun _ => ()) := by
  cases r with
  | ok a => exact nofun
  | error e => exact fun a ha => h a (congrArg _ (Except.error.inj ha))

theorem returning_alone {Res : Type} {mk : α → Res} {p : Prog Choice (Device P.Key Memory) α}
    {res : Res} (h : Prog.Alone C (returning mk p) s res s') :
    ∃ r, Prog.Alone C p s r s' ∧ res = mk r := by
  obtain ⟨r, s₁, h1, h2⟩ := Prog.Alone.of_bind h
  cases h2 with
  | ret => exact ⟨r, h1, rfl⟩

/-- A call whose operation finds what it looks for. -/
theorem Finds.returning {x : Do P α} {mk : Except MessagingError α → Res} {res : Res} (h : Finds x s)
    (ha : Prog.Alone (fun _ => True) (Arcium.returning mk x.run) s res s')
    (hmk : ∀ r, Found r → Found (mk r).outcome) : Found res.outcome := by
  obtain ⟨r, hr, rfl⟩ := returning_alone ha
  exact hmk r (h r s' hr)

theorem Finds.naming {x : Do P α} {f : α → Do P β} {r : Option α × Except MessagingError β}
    (hx : Finds x s)
    (hf : ∀ a s', Prog.Alone (fun _ => True) x.run s (.ok a) s' → Finds (f a) s')
    (ha : Prog.Alone (fun _ => True) (Arcium.naming x f) s r s') : Found r.2 := by
  obtain ⟨r₁, s₁, h1, h2⟩ := Prog.Alone.of_bind ha
  cases r₁ with
  | ok a =>
    obtain ⟨r₂, s₂, h3, h4⟩ := Prog.Alone.of_bind h2
    cases h4 with
    | ret => exact hf a s₁ h1 r₂ _ h3
  | error e =>
    cases h2 with
    | ret => exact fun h he => hx _ _ h1 h (congrArg _ (Except.error.inj he))

/-- A receive, from the peer of its handle on. -/
theorem receive_finds (hp : Paired s.db.rows) (i : Nat) (handle : UInt64) (wire : Bytes)
    {r : Option (Peer × Header × Bytes) × Except MessagingError Received}
    (ha : Prog.Alone (fun _ => True)
      (Arcium.naming (receivePeer (P := P) i handle wire) (receiveAs i our handle wire)) s r s') :
    Found r.2 := by
  refine Finds.naming (receivePeer_finds i handle wire) (fun phc s₁ h => ?_) ha
  obtain ⟨p, header, ciphertext⟩ := phc
  obtain ⟨hs, hn⟩ := LookPost.steady (receivePeer_sat i handle wire) h
  have hp' := hp.handle handle p (hs ▸ (hn p header ciphertext rfl).2)
  exact receiveAs_finds i handle wire (hs.symm ▸ hp') header ciphertext

theorem acceptFirst_finds (hp : Paired s.db.rows) (i : Nat) (first : FirstContact P.Key)
    (hx : AppOnly first.extra) (wire : Bytes) {r : Option Peer × Except MessagingError Received}
    (ha : Prog.Alone (fun _ => True) (acceptFirstNamed i our first wire) s r s') : Found r.2 := by
  obtain ⟨r₁, s₁, h1, h2⟩ := Prog.Alone.of_bind ha
  have hfound := promoteFirst_finds i first wire r₁ s₁ h1
  match r₁ with
  | .ok (some received) =>
    cases h2 with
    | ret => exact nofun
  | .ok none =>
    -- Nothing was written if there is a session already.
    obtain ⟨tr, hpost, hs⟩ := (promoteFirst_sat (A := fun _ _ => False) i hx).alone h1
    cases hpost with
    | promoted db₁ rows new m le step le' hr => rcases hr with hr | ⟨e, hr⟩ <;> cases hr
    | refused looked e hr => cases hr
    | taken looked hr =>
      obtain ⟨r', h3, rfl⟩ := returning_alone h2
      exact receive_finds (hs (looked.quiet quiet_nil) ▸ hp) i first.handle wire h3
  | .error e =>
    cases h2 with
    | ret => exact fun h he => hfound h (congrArg _ (Except.error.inj he))

/-- A call that runs alone on a store whose handles have sessions does not report `MissingSession`. -/
theorem body_finds (hp : Paired s.db.rows) (call : Call P.Key) (hc : call.Allowed) {res : Res}
    (ha : Prog.Alone (fun _ => True) (body our call) s res s') : Found res.outcome := by
  cases call with
  | createSession i new => exact (createSession_finds i new).returning ha fun _ h => h
  | recordProvisionalHandshake i handle provisional validated =>
    exact (recordProvisionalHandshake_finds i handle provisional validated).returning ha fun _ h => h
  | provisionalHandshake handle =>
    exact (provisionalHandshake_finds handle).returning ha fun _ h => h.void
  | acceptFirstMessage i first wire =>
    obtain ⟨r, hr, rfl⟩ := returning_alone ha
    exact (acceptFirst_finds hp i first hc wire hr).void
  | peerOf handle => exact Finds.find.returning ha fun _ h => h.void
  | hasReceived handle => exact (hasReceived_finds hp handle).returning ha fun _ h => h.void
  | isLegacyUnconfirmed handle =>
    exact (isLegacyUnconfirmed_finds handle).returning ha fun _ h => h.void
  | initialOutbound handle =>
    have hfind : Finds (initialOutbound (P := P) handle) s :=
      .bind (requirePeer_finds handle) fun _ _ _ => .find
    exact hfind.returning ha fun _ h => h.void
  | send i handle clientId plaintext =>
    obtain ⟨r, hr, rfl⟩ := returning_alone ha
    refine Found.void (Finds.naming (sendPeer_finds i handle clientId) (fun p s₁ h => ?_) hr)
    obtain ⟨hs, -⟩ := LookPost.steady (sendPeer_sat i handle clientId) h
    exact sendAs_finds (hs.symm ▸ hp) i handle clientId plaintext p
  | receive i handle wire =>
    obtain ⟨r, hr, rfl⟩ := returning_alone ha
    exact (receive_finds hp i handle wire hr).void
  | pendingOutgoing handle => exact (pendingOutgoing_finds handle).returning ha fun _ h => h.void
  | priorSend peer clientId =>
    exact (readPriorSend_finds peer clientId).returning ha fun _ h => h.void
  | acknowledgeOutgoing handle id =>
    exact (acknowledgeOutgoing_finds handle id).returning ha fun _ h => h.void
  | pendingIncoming handle => exact (pendingIncoming_finds handle).returning ha fun _ h => h.void
  | acknowledgeIncoming handle id =>
    exact (acknowledgeIncoming_finds handle id).returning ha fun _ h => h.void
  | recover i handle =>
    obtain ⟨r, hr, rfl⟩ := returning_alone ha
    refine Found.void (Finds.naming .attempt (fun mark s₁ h => ?_) hr)
    obtain ⟨e, -, rfl, -⟩ := Prog.Alone.of_atomic (attempt_alone h)
    exact recoverFrom_finds hp i handle mark
  | abandonOutgoing handle id =>
    exact (abandonOutgoing_finds handle id).returning ha fun _ h => h.void
  | removeSession i handle => exact (removeSession_finds hp i handle).returning ha fun _ h => h

end Bodies

/-! ## The invariant of every run -/

/-- The records fit together, and no call that runs alone misses a session. -/
structure StoreInvariant (our : Bytes32) (c : Conf P) : Prop where
  records : StoreOk our c.shared.db.rows
  alone : ∀ call : Call P.Key, call.Allowed → ∀ res s',
    Prog.Alone (fun _ => True) (body our call) c.shared res s' → Found res.outcome

theorem store_invariant {c : Conf P} (h : Reachable our c) (hcf : CollisionFree c.shared.db)
    (hf : FreshKeys c.shared.db) (hs : StablePairs c.shared.db) : StoreInvariant our c where
  records := storeOk h.valid hcf hf hs
  alone call hc _ _ ha := body_finds (paired h.valid hs) call hc ha

/-- The run of one send has the invariant. -/
theorem store_invariant_oneSend : ∃ c : Conf symbolicPlatform, Reachable OneSend.ours c ∧
    c.shared.db.rows.lookup (.outbox OneSend.peer OneSend.message.messageId) = some OneSend.message ∧
    StoreInvariant OneSend.ours c := by
  obtain ⟨c, -, hr, hdb, -⟩ := OneSend.run_facts
  have hs : StablePairs (Db.after OneSend.writes) := by
    refine ⟨LostCommit.onePeerPerHandle, fun h h' p hh hh' => ?_⟩
    rw [(OneSend.ever_handle hh).1, (OneSend.ever_handle hh').1]
  refine ⟨c, hr, ?_, store_invariant hr (hdb ▸ OneSend.collisionFree) (hdb ▸ OneSend.freshKeys)
    (hdb ▸ hs)⟩
  rw [hdb]
  exact Rows.lookup_applyAll_head (k := .outbox OneSend.peer _)
    (Rows.apply _ ⟨.session OneSend.peer, some OneSend.advanced⟩) (some OneSend.message) (by simp)

/-! A removal finds that handle 7 names `carol`. Her session is removed by another call and created
again under handle 9. The removal goes on: it deletes the new session, and handle 7, which is gone. -/

namespace LostCommit

def removing : List (System.Turn Choice (Call symbolicPlatform.Key)) :=
  .invoke 0 (.createSession 0 (new 7 (fill 1))) :: go 0 3 {} ++
  .invoke 1 (.removeSession 1 7) :: go 1 2 {} ++
  .invoke 0 (.removeSession 0 7) :: go 0 6 {} ++
  .invoke 0 (.createSession 0 (new 9 (fill 3))) :: go 0 3 {} ++
  go 1 4 {}

def removed : Option (Conf symbolicPlatform) :=
  (system symbolicPlatform OneReceive.ours).play (Config.init (Device.fresh symbolicPlatform)) removing

/-- The peer of handle 9. -/
def ninth (rows : Rows symbolicPlatform.Key) : Option Peer := rows.lookup (Key.handle 9)

/-- Handle 9 names `carol`, who has no session. -/
def dangling (rows : Rows symbolicPlatform.Key) : Bool :=
  ninth rows == some carol && (rows.lookup (.session carol)).isNone

end LostCommit

/-- In that run handle 9 names a peer without a session. -/
theorem removal_leaves_handle : ∃ c : Conf symbolicPlatform, Reachable OneReceive.ours c ∧
    ¬ StoreInvariant OneReceive.ours c := by
  have hs : LostCommit.removed.isSome = true := by decide +kernel
  have hd : LostCommit.removed.map (fun c => LostCommit.dangling c.shared.db.rows) = some true := by
    decide +kernel
  obtain ⟨c, hc⟩ := Option.isSome_iff_exists.mp hs
  rw [hc] at hd
  refine ⟨c, System.Reach.play .refl (fun i call hcall => ?_) hc, fun h => ?_⟩
  · simp only [LostCommit.removing, LostCommit.go, List.replicate, List.cons_append,
      List.nil_append, List.mem_cons, List.not_mem_nil, System.Turn.invoke.injEq, reduceCtorEq,
      false_or, or_false] at hcall
    rcases hcall with ⟨-, rfl⟩ | ⟨-, rfl⟩ | ⟨-, rfl⟩ | ⟨-, rfl⟩
    · exact appOnly_nil
    · trivial
    · trivial
    · exact appOnly_nil
  · have hd := Option.some.inj hd
    simp only [LostCommit.dangling, Bool.and_eq_true, beq_iff_eq, Option.isNone_iff_eq_none] at hd
    have hsession := h.records.handle 9 LostCommit.carol hd.1
    rw [hd.2] at hsession
    cases hsession

end Messenger

end Arcium
