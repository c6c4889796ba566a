import Arcium.Protocol.Obligations

/-!
# Recovery after an unknown outcome

A `send`, `receive` or first message whose commit ends with an unknown outcome leaves a mark, and
`recover` reports on it. The mark of a call names the records its commit would have stored
(`Attempt.mark`, `body_marked`); these records are never taken back, so `recover` finds them if the
commit took effect (`recovers`). A first message also creates its session, and `recover` reports
that it failed when the handle names nobody: this is right as long as no handle is given to a second
peer (`OnePeerPerHandle`).
-/

namespace Arcium

open Conc

namespace Messenger

variable {P : Platform} {our : Bytes32} {db db' : Db P.Key} {rows : Rows P.Key}

/-- What a call was about to commit. -/
inductive Attempt where
  | send (peer : Peer) (clientId : Bytes)
  | receive (peer : Peer) (id : MessageId) (legacy : Option Peer)
  | promote (peer : Peer) (id : MessageId)

namespace Attempt

/-- The mark it leaves when the outcome is unknown. -/
def mark (generation : UInt64) : Attempt → Unresolved
  | send peer clientId => ⟨generation, [.sendid peer clientId], false, none⟩
  | receive peer id legacy => ⟨generation, [.inbox peer id, .seen peer id], false, legacy⟩
  | promote peer id => ⟨generation, [.inbox peer id, .seen peer id], true, none⟩

/-- It was committed under `handle`. -/
def TookEffect (our : Bytes32) (handle : UInt64) (db : Db P.Key) : Attempt → Prop
  | send peer clientId => ∃ db₀ rows plaintext q old new m, (Db.push db₀ rows).Le db ∧
    SendTx our handle clientId plaintext db₀ peer q old new m rows
  | receive peer id _ => ∃ db₀ rows wire old new m, (Db.push db₀ rows).Le db ∧
    ReceiveTx our handle wire db₀ peer old new m rows ∧ m.messageId = id
  | promote peer id => ∃ db₀ rows first wire new m, (Db.push db₀ rows).Le db ∧
    PromoteTx our first wire db₀ new m rows ∧ first.handle = handle ∧
    first.session.peerIdentityPk = peer ∧ m.messageId = id

/-- Its client id or its wire is recorded. -/
def Recorded (rows : Rows P.Key) : Attempt → Prop
  | send peer clientId => (rows.lookup (.sendid peer clientId)).isSome
  | receive peer id _ => Accepted rows peer id
  | promote peer id => Accepted rows peer id

theorem TookEffect.mono {handle : UInt64} {a : Attempt} (h : a.TookEffect our handle db)
    (hle : db.Le db') : a.TookEffect our handle db' := by
  cases a with
  | send peer clientId =>
    obtain ⟨db₀, rows, pt, q, old, new, m, h, hs⟩ := h
    exact ⟨db₀, rows, pt, q, old, new, m, h.trans hle, hs⟩
  | receive peer id legacy =>
    obtain ⟨db₀, rows, wire, old, new, m, h, hs⟩ := h
    exact ⟨db₀, rows, wire, old, new, m, h.trans hle, hs⟩
  | promote peer id =>
    obtain ⟨db₀, rows, first, wire, new, m, h, hs⟩ := h
    exact ⟨db₀, rows, first, wire, new, m, h.trans hle, hs⟩

end Attempt

/-! ## The mark of a call -/

/-- The call ended by marking one of the attempts `A`. -/
def Marked (i : Nat) (handle : UInt64) (A : Attempt → Prop) (generation : UInt64)
    (t : List (Device P.Key Memory × Device P.Key Memory)) (s : Device P.Key Memory) : Prop :=
  ∃ a, A a ∧ (∃ x rest, t = x :: rest ∧ x.2 = s) ∧
    (s.mem i).unresolved handle = some (a.mark generation)

/-- `p` leaves a mark if the outcome of its commit is unknown. -/
def Marks {α : Type} (i : Nat) (handle : UInt64) (A : Attempt → Prop) (p : Do P α) : Prop :=
  Prog.Always (fun r t s => ∀ generation f, r = .error (.outcomeUnknown generation f) →
    Marked i handle A generation t s) p.run

/-- `p` reports no unknown outcome. -/
def Sure {α : Type} (p : Do P α) : Prop :=
  Prog.Always (fun r _ _ => ∀ generation f, r ≠ .error (.outcomeUnknown generation f)) p.run

/-- An error that is no unknown outcome. -/
def Plain (e : MessagingError) : Prop := ∀ generation f, e ≠ .outcomeUnknown generation f

section Rules

variable {α β : Type} {i : Nat} {handle : UInt64} {A : Attempt → Prop}

theorem Sure.pure (a : α) : Sure (pure a : Do P α) := fun _ _ _ _ => nofun

theorem Sure.throw {e : MessagingError} (he : Plain e) : Sure (throw e : Do P α) :=
  fun _ _ generation f h => he generation f (Except.error.inj h)

/-- A single action. -/
theorem Sure.atomic {f : Choice → Device P.Key Memory → Device P.Key Memory × Except MessagingError α}
    (h : ∀ e s x, (f e s).2 = .error x → Plain x) : Sure (ExceptT.mk (Prog.atomic f) : Do P α) :=
  fun _ _ s _ _ e => ⟨trivial, fun generation f hr => h e s _ hr generation f rfl⟩

theorem Sure.attempt {γ : Type} (p : Prog Choice (Device P.Key Memory) γ) :
    Sure (Op.attempt p : Do P γ) :=
  Prog.Always.bind fun _ _ _ _ _ => nofun

theorem Sure.find {k : Key} : Sure (find MessagingError.store k : Do P _) :=
  .atomic fun e s x h => by
    dsimp only at h
    split at h
    · cases h
    · cases h
    · cases h
      exact fun _ _ => nofun

theorem Sure.tx {errs : TxErrors MessagingError}
    {body : ((k : Key) → Except StorageError (Row P.Key k)) →
      Except MessagingError (α × List (Change P.Key))}
    (hb : ∀ f, Plain (errs.onBegin f)) (hw : ∀ f, Plain (errs.onWrite f))
    (hc : ∀ f, Plain (errs.onCommit f)) (h : ∀ read e, body read = .error e → Plain e) :
    Sure (tx errs body : Do P α) :=
  .atomic fun e s x hx => by
    dsimp only [txStep] at hx
    split at hx
    · cases hx
      exact hb _
    · split at hx
      · next he => cases hx; exact h _ _ he
      · cases hx
      · split at hx
        · cases hx
          exact hw _
        · split at hx
          · cases hx
          · cases hx
            exact hc _
          · cases hx
            exact hc _

/-- What is left to do after `x`, whatever `x` returns. -/
theorem always_seq {x : Do P α} {f : α → Do P β}
    {Q : Except MessagingError β → List (Device P.Key Memory × Device P.Key Memory) →
      Device P.Key Memory → Prop} (hx : Sure x)
    (he : ∀ e t s, Plain e → Q (.error e) t s) (hf : ∀ a, Prog.Always Q (f a).run) :
    Prog.Always Q (x >>= f).run := by
  intro t s
  refine Op.wp_bind ((hx t s).mono (fun _ _ h => h) fun r t s hr => ?_)
  cases r with
  | ok a => exact hf a t s
  | error e => exact he e t s fun generation f h => hr generation f (h ▸ rfl)

theorem Sure.bind {x : Do P α} {f : α → Do P β} (hx : Sure x) (hf : ∀ a, Sure (f a)) :
    Sure (x >>= f) :=
  always_seq hx (fun _ _ _ he generation f h => he generation f (Except.error.inj h)) hf

theorem Marks.bind {x : Do P α} {f : α → Do P β} (hx : Sure x)
    (hf : ∀ a, Marks i handle A (f a)) : Marks i handle A (x >>= f) :=
  always_seq hx (fun _ _ _ he generation f h => absurd (Except.error.inj h) (he generation f)) hf

theorem Marks.throw_bind {e : MessagingError} {f : α → Do P β} (he : Plain e) :
    Marks i handle A (throw e >>= f) :=
  fun _ _ generation f h => absurd (Except.error.inj h) (he generation f)

theorem Sure.marks {p : Do P α} (h : Sure p) : Marks i handle A p := fun t s =>
  (h t s).mono (fun _ _ hg => hg) fun _ _ _ hr generation f he => absurd he (hr generation f)

/-- The mark itself. -/
theorem Marks.mark {a : Attempt} (ha : A a) (generation : UInt64) (f : StorageError) :
    Marks i handle A (do
      markUnresolved i handle (a.mark generation)
      throw (.outcomeUnknown generation f) : Do P α) := by
  intro t s s' _ _ e
  refine ⟨trivial, fun generation' f' h => ?_⟩
  cases h
  exact ⟨a, ha, ⟨_, _, rfl, rfl⟩, by simp⟩

/-- `p` returns values with `V`, and reports no unknown outcome. -/
def Yields (V : α → Prop) (p : Do P α) : Prop :=
  Prog.Always (fun r _ _ => (∀ a, r = .ok a → V a) ∧
    ∀ generation f, r ≠ .error (.outcomeUnknown generation f)) p.run

theorem Yields.pure {V : α → Prop} {a : α} (h : V a) : Yields V (pure a : Do P α) :=
  fun _ _ => ⟨fun _ ha => Except.ok.inj ha ▸ h, fun _ _ => nofun⟩

theorem Yields.bind {V : β → Prop} {x : Do P α} {f : α → Do P β} (hx : Sure x)
    (hf : ∀ a, Yields V (f a)) : Yields V (x >>= f) :=
  always_seq hx (fun _ _ _ he => ⟨nofun, fun generation f h => he generation f (Except.error.inj h)⟩)
    hf

theorem Marks.bind_yields {V : α → Prop} {x : Do P α} {f : α → Do P β} (hx : Yields V x)
    (hf : ∀ a, V a → Marks i handle A (f a)) : Marks i handle A (x >>= f) := by
  intro t s
  refine Op.wp_bind ((hx t s).mono (fun _ _ h => h) fun r t s hr => ?_)
  cases r with
  | ok a => exact hf a (hr.1 a rfl) t s
  | error e => exact fun generation f h => (hr.2 generation f (by cases h; rfl)).elim

theorem Sure.lift {ε : Type} {toErr : ε → MessagingError} {x : Except ε α}
    (h : ∀ e, x = .error e → Plain (toErr e)) : Sure (lift toErr x : Do P α) := by
  cases x with
  | ok a => exact .pure a
  | error e => exact .throw (h e rfl)

end Rules

/-! ## The operations -/

theorem plain_store (f : StorageError) : Plain (.store f) := fun _ _ => nofun

theorem requireResolved_sure (i : Nat) (handle : UInt64) : Sure (requireResolved i handle : Do P _) :=
  .bind (.attempt _) fun u => by
    cases u with
    | none => exact .pure ()
    | some u => exact .throw fun _ _ => nofun

theorem requirePeer_sure (handle : UInt64) : Sure (requirePeer handle : Do P _) :=
  .bind .find fun p => by
    cases p with
    | none => exact .throw fun _ _ => nofun
    | some p => exact .pure p

theorem loadFor_sure (handle : UInt64) (peer : Peer) : Sure (loadFor our handle peer : Do P _) :=
  .bind (.attempt _) fun r => by
    split
    · exact .pure _
    all_goals exact .throw fun _ _ => nofun

theorem load_sure (handle : UInt64) : Sure (load our handle : Do P _) :=
  .bind (requirePeer_sure handle) fun p => .bind (loadFor_sure handle p) fun _ => .pure _

theorem readDuplicate_sure (peer : Peer) (id : MessageId) : Sure (readDuplicate peer id : Do P _) :=
  .bind .find fun m => by
    cases m with
    | some m =>
      dsimp only
      split
      · exact .bind (.throw fun _ _ => nofun) fun _ => .pure _
      · exact .pure _
    | none =>
      refine .bind .find fun x => ?_
      cases x with
      | some x =>
        dsimp only
        split
        · exact .bind (.throw fun _ _ => nofun) fun _ => .pure _
        · exact .pure _
      | none => exact .pure _

theorem plain_of_txFind {read : (k : Key) → Except StorageError (Row P.Key k)} {k : Key}
    {e : MessagingError} (h : txFind read k = .error e) : Plain e := by
  obtain ⟨f, rfl⟩ := txFind_error h
  exact plain_store f

theorem plain_of_decodeOutbox {m : OutgoingMessage} {e : MessagingError}
    (h : decodeOutbox P m = .error e) : Plain e := by
  unfold decodeOutbox at h
  split at h
  · cases h
    exact fun _ _ => nofun
  · cases h

theorem priorSendTx_plain {peer : Peer} {clientId : Bytes}
    {read : (k : Key) → Except StorageError (Row P.Key k)} {e : MessagingError}
    (h : priorSendTx peer clientId read = .error e) : Plain e := by
  simp only [priorSendTx, bind, Except.bind, pure, Except.pure] at h
  split at h
  · next hf => cases h; exact plain_of_txFind hf
  · split at h
    · cases h
    · cases h
    · split at h
      · next hf => cases h; exact plain_of_txFind hf
      · split at h
        · split at h
          · next hd => cases h; exact plain_of_decodeOutbox hd
          · cases h
        · cases h

theorem readPriorSend_sure (peer : Peer) (clientId : Bytes) :
    Sure (readPriorSend peer clientId : Do P _) :=
  .tx plain_store plain_store plain_store fun read e h => by
    simp only [bind, Except.bind, pure, Except.pure] at h
    split at h
    · next hp => cases h; exact priorSendTx_plain hp
    · cases h

theorem stageError_plain (e : StageError) : Plain (stageError e) := by
  cases e <;> exact fun _ _ => nofun

theorem plain_of_splitWire {wire : Bytes} {e : MessagingError} (h : splitWire wire = .error e) :
    Plain e := by
  unfold splitWire at h
  split at h
  · cases h
    exact fun _ _ => nofun
  · split at h
    · cases h
    · cases h
      exact fun _ _ => nofun

theorem plain_of_checkProvisional {p : ProvisionalHandshake} {e : MessagingError}
    (h : checkProvisional p = .error e) : Plain e := by
  unfold checkProvisional at h
  split at h
  · cases h
    exact fun _ _ => nofun
  · cases h

theorem commitWith_sure {α : Type} (s : DurableSession P.Key) (staged : StagedTransition P.Key α)
    (side : List (SideWrite P.Key)) : Sure (s.commitWith P staged side : Do P _) := by
  unfold DurableSession.commitWith
  split
  · exact .pure _
  · exact .pure _
  · split
    · exact .pure _
    · dsimp only
      split
      · exact .pure _
      · refine .bind (.attempt _) fun r => ?_
        split <;> exact .pure _

/-- A failed commit leaves the mark of its attempt. -/
theorem commitError_marks {α : Type} {i : Nat} {handle : UInt64} {A : Attempt → Prop} {a : Attempt}
    (ha : A a) {generation : UInt64} {keys : List Key} {legacy : Option Peer}
    (hm : a.mark generation = ⟨generation, keys, false, legacy⟩) (e : CommitError) :
    Marks i handle A (commitError i handle generation keys legacy e : Do P α) := by
  cases e with
  | outcomeUnknown f =>
    show Marks i handle A (do
      markUnresolved i handle ⟨generation, keys, false, legacy⟩
      throw (.outcomeUnknown generation f))
    rw [← hm]
    exact .mark ha generation f
  | _ => exact (Sure.throw (by intro _ _ h; cases h)).marks

theorem sendPeer_sure (i : Nat) (handle : UInt64) (clientId : Bytes) :
    Sure (sendPeer i handle clientId : Do P _) := by
  unfold sendPeer
  split
  · exact .bind (.throw fun _ _ => nofun) fun _ =>
      .bind (requireResolved_sure i handle) fun _ => requirePeer_sure handle
  · exact .bind (requireResolved_sure i handle) fun _ => requirePeer_sure handle

theorem sendAs_marks (i : Nat) (handle : UInt64) (clientId plaintext : Bytes) (peer : Peer) :
    Marks i handle (· = .send peer clientId)
      (sendAs i our handle clientId plaintext peer : Do P _) := by
  refine .bind (readPriorSend_sure peer clientId) fun prior => ?_
  cases prior with
  | some o => exact (Sure.pure o).marks
  | none =>
    refine .bind (load_sure handle) fun sq => .bind (.attempt _) fun nonce => ?_
    refine .bind (.lift fun e _ => stageError_plain e) fun staged => ?_
    refine .bind (.lift fun e _ _ _ => nofun) fun outbox => ?_
    refine .bind (.lift fun e _ _ _ => nofun) fun index => ?_
    refine .bind (commitWith_sure _ _ _) fun r => ?_
    obtain ⟨r, s'⟩ := r
    cases r with
    | ok out => exact (Sure.pure _).marks
    | error e => 
      exact commitError_marks (A := (· = .send peer clientId)) (a := .send peer clientId) rfl rfl e

theorem receivePeer_sure (i : Nat) (handle : UInt64) (wire : Bytes) :
    Sure (receivePeer i handle wire : Do P _) :=
  .bind (requireResolved_sure i handle) fun _ => .bind (.lift fun _ => plain_of_splitWire) fun _ =>
    .bind (requirePeer_sure handle) fun _ => .pure _

/-- The receiving of `wire` from some peer. -/
def Receives (P : Platform) (peer : Peer) (wire : Bytes) (a : Attempt) : Prop :=
  ∃ legacy, a = .receive peer (messageId P wire) legacy

theorem receiveAs_marks (i : Nat) (handle : UInt64) (wire : Bytes) (phc : Peer × Header × Bytes) :
    Marks i handle (Receives P phc.1 wire) (receiveAs i our handle wire phc : Do P _) := by
  obtain ⟨peer, header, ciphertext⟩ := phc
  refine .bind (loadFor_sure handle peer) fun session => .bind (readDuplicate_sure peer _) fun d => ?_
  cases d with
  | some d => exact (Sure.pure d).marks
  | none =>
    refine .bind (.attempt _) fun fresh => .bind (.lift fun e _ => stageError_plain e) fun staged => ?_
    refine .bind (.lift fun e _ _ _ => nofun) fun inbox => ?_
    refine .bind (.lift fun e _ _ _ => nofun) fun unseen => ?_
    refine .bind (commitWith_sure _ _ _) fun r => ?_
    obtain ⟨r, s'⟩ := r
    cases r with
    | ok out => exact (Sure.pure _).marks
    | error e =>
      split
      · next h => cases h
      · refine .bind (readDuplicate_sure peer _) fun d => ?_
        cases d with
        | some d => exact (Sure.pure d).marks
        | none => exact (Sure.throw (by intro _ _ h; cases h)).marks
      · exact commitError_marks ⟨_, rfl⟩ rfl _

theorem classifyTaken_yields (handle : UInt64) (peer : Peer) :
    Yields Plain (classifyTaken handle peer : Do P _) :=
  .bind .find fun o => by
    cases o with
    | none => exact .pure (by intro _ _ h; cases h)
    | some p =>
      dsimp only
      split
      · exact .pure (by intro _ _ h; cases h)
      · exact .pure (by intro _ _ h; cases h)

theorem promoteFirst_marks (i : Nat) (first : FirstContact P.Key) (wire : Bytes) :
    Marks i first.handle (· = .promote first.session.peerIdentityPk (messageId P wire))
      (promoteFirst i our first wire : Do P _) := by
  have taken : Marks i first.handle (· = .promote first.session.peerIdentityPk (messageId P wire))
      (takenFirst first.handle first.session.peerIdentityPk : Do P _) := by
    refine .bind_yields (classifyTaken_yields _ _) fun e he => ?_
    split
    · refine .bind .find fun p => ?_
      split
      · exact (Sure.pure none).marks
      · exact (Sure.throw (by intro _ _ h; cases h)).marks
    · exact (Sure.throw he).marks
  refine .bind (requireResolved_sure i first.handle) fun _ => ?_
  dsimp only
  split
  · exact .throw_bind (by intro _ _ h; cases h)
  · refine .bind (.lift fun _ => plain_of_splitWire) fun hc => ?_
    refine .bind (.lift fun e _ _ _ => nofun) fun candidate => .bind (.attempt _) fun fresh => ?_
    refine .bind (.lift fun e _ => stageError_plain e) fun staged => ?_
    refine .bind (.lift fun _ => plain_of_checkProvisional) fun provisional => ?_
    refine .bind (.lift fun e _ _ _ => nofun) fun side => .bind (.attempt _) fun r => ?_
    match r with
    | .ok _ => exact (Sure.pure _).marks
    | .error .alreadyExists => exact taken
    | .error (.sideConflict 0 _) => exact taken
    | .error (.sideConflict (index + 1) conflict) =>
      dsimp only
      split <;> exact (Sure.throw (by intro _ _ h; cases h)).marks
    | .error (.outcomeUnknown f) =>
      exact Marks.mark (A := (· = .promote first.session.peerIdentityPk (messageId P wire)))
        (a := .promote first.session.peerIdentityPk (messageId P wire)) rfl _ f
    | .error (.notCommitted e) => exact (Sure.throw (by intro _ _ h; cases h)).marks
    | .error (.sideWrite e) => exact (Sure.throw (by intro _ _ h; cases h)).marks
    | .error (.store e) => exact (Sure.throw (by intro _ _ h; cases h)).marks
    | .error (.invalid e) => exact (Sure.throw (by intro _ _ h; cases h)).marks
    | .error .staleTransition => exact (Sure.throw (by intro _ _ h; cases h)).marks

/-! ## Every call -/

/-- The generation of a commit with an unknown outcome. -/
def unknownGeneration {α : Type} : Except MessagingError α → Option UInt64
  | .error (.outcomeUnknown generation _) => some generation
  | _ => none

theorem unknownGeneration_some {α : Type} {r : Except MessagingError α} {generation : UInt64}
    (h : unknownGeneration r = some generation) : ∃ f, r = .error (.outcomeUnknown generation f) := by
  unfold unknownGeneration at h
  split at h
  · cases h
    exact ⟨_, rfl⟩
  · cases h

/-- The generation of the send, receive or first message whose outcome is unknown. -/
def Res.unknown : Res → Option UInt64
  | .sent _ r => unknownGeneration r
  | .received _ r => unknownGeneration r
  | .first _ r => unknownGeneration r
  | _ => none

/-- The instance and the handle of a call that may leave a mark. -/
def Call.marks : Call P.Key → Option (Nat × UInt64)
  | .send i handle _ _ => some (i, handle)
  | .receive i handle _ => some (i, handle)
  | .acceptFirstMessage i first _ => some (i, first.handle)
  | _ => none

/-- What a call attempted, as its result tells. -/
def Attempts : Call P.Key → Res → Attempt → Prop
  | .send _ _ clientId _, .sent (some p) _, a => a = .send p clientId
  | .receive _ _ wire, .received (some p) _, a => Receives P p wire a
  | .acceptFirstMessage _ first wire, .first none _, a =>
    a = .promote first.session.peerIdentityPk (messageId P wire)
  | .acceptFirstMessage _ _ wire, .first (some p) _, a => Receives P p wire a
  | _, _, _ => False

/-- A call with an unknown outcome leaves the mark of its attempt. -/
def CallMarks (call : Call P.Key) (res : Res)
    (t : List (Device P.Key Memory × Device P.Key Memory)) (s : Device P.Key Memory) : Prop :=
  ∀ i handle generation, call.marks = some (i, handle) → res.unknown = some generation →
    Marked i handle (Attempts call res) generation t s

/-- `naming`, in every environment. -/
theorem naming_always {α β : Type} {x : Do P α} {f : α → Do P β}
    {Q : Option α × Except MessagingError β → List (Device P.Key Memory × Device P.Key Memory) →
      Device P.Key Memory → Prop} (hx : Sure x) (he : ∀ e t s, Plain e → Q (none, .error e) t s)
    (hf : ∀ a, Prog.Always (fun r => Q (some a, r)) (f a).run) : Prog.Always Q (naming x f) := by
  intro t s
  refine Prog.WP.bind ((hx t s).mono (fun _ _ h => h) fun r t s hr => ?_)
  cases r with
  | ok a => exact Prog.WP.bind (hf a t s)
  | error e => exact he e t s fun generation f h => hr generation f (h ▸ rfl)

theorem returning_always {α : Type} {mk : α → Res} {p : Prog Choice (Device P.Key Memory) α}
    {Q : Res → List (Device P.Key Memory × Device P.Key Memory) → Device P.Key Memory → Prop}
    (h : Prog.Always (fun a => Q (mk a)) p) : Prog.Always Q (returning mk p) :=
  fun t s => Prog.WP.bind (h t s)

theorem send_marked (i : Nat) (handle : UInt64) (clientId plaintext : Bytes) :
    Prog.Always (CallMarks (.send i handle clientId plaintext))
      (body our (.send i handle clientId plaintext) : Prog Choice (Device P.Key Memory) Res) := by
  refine returning_always (naming_always (sendPeer_sure i handle clientId)
    (fun e t s he i' handle' generation hc h => ?_)
    fun p t s => (sendAs_marks i handle clientId plaintext p t s).mono (fun _ _ h => h)
      fun r t s hr i' handle' generation hc h => ?_)
  · obtain ⟨f, hr⟩ := unknownGeneration_some h
    exact absurd (Except.error.inj hr) (he generation f)
  · obtain ⟨f, rfl⟩ := unknownGeneration_some h
    cases hc
    exact hr generation f rfl

/-- The receiving part of a call, on the handle it was given. -/
theorem receive_always (i : Nat) (handle : UInt64) (wire : Bytes)
    {Q : Option Peer → Except MessagingError Received →
      List (Device P.Key Memory × Device P.Key Memory) → Device P.Key Memory → Prop}
    (he : ∀ e t s, Plain e → Q none (.error e) t s)
    (hf : ∀ p r t s, (∀ g f, r = .error (.outcomeUnknown g f) →
      Marked i handle (Receives P p wire) g t s) → Q (some p) r t s) :
    Prog.Always (fun r => Q (r.1.map fun x => x.1) r.2)
      (naming (receivePeer i handle wire) (receiveAs i our handle wire)) :=
  naming_always (receivePeer_sure i handle wire) he fun phc t s =>
    (receiveAs_marks i handle wire phc t s).mono (fun _ _ h => h) fun r t s hr => hf phc.1 r t s hr

theorem receive_marked (i : Nat) (handle : UInt64) (wire : Bytes) :
    Prog.Always (CallMarks (.receive i handle wire))
      (body our (.receive i handle wire) : Prog Choice (Device P.Key Memory) Res) := by
  refine returning_always (receive_always i handle wire (Q := fun p r =>
    CallMarks (.receive i handle wire) (.received p r)) 
    (fun e t s he i' handle' generation hc h => ?_) fun p r t s hr i' handle' generation hc h => ?_)
  · obtain ⟨f, hr⟩ := unknownGeneration_some h
    exact absurd (Except.error.inj hr) (he generation f)
  · obtain ⟨f, rfl⟩ := unknownGeneration_some h
    cases hc
    exact hr generation f rfl

theorem first_marked (i : Nat) (first : FirstContact P.Key) (wire : Bytes) :
    Prog.Always (CallMarks (.acceptFirstMessage i first wire))
      (body our (.acceptFirstMessage i first wire)) := by
  refine returning_always fun t s => Prog.WP.bind ((promoteFirst_marks i first wire t s).mono
    (fun _ _ h => h) fun r t s hr => ?_)
  match r with
  | .ok (some d) =>
    intro i' handle' generation hc h
    cases h
  | .error e =>
    intro i' handle' generation hc h
    obtain ⟨f, he⟩ := unknownGeneration_some h
    cases hc
    cases he
    exact hr generation f rfl
  | .ok none =>
    refine Prog.WP.bind (receive_always i first.handle wire (Q := fun p r =>
      CallMarks (.acceptFirstMessage i first wire) (.first p r))
      (fun e t s he i' handle' generation hc h => ?_)
      (fun p r t s hr i' handle' generation hc h => ?_) t s)
    · obtain ⟨f, hr⟩ := unknownGeneration_some h
      exact absurd (Except.error.inj hr) (he generation f)
    · obtain ⟨f, rfl⟩ := unknownGeneration_some h
      cases hc
      exact hr generation f rfl

theorem body_marked (call : Call P.Key) : Prog.Always (CallMarks call) (body our call) := by
  have silent : ∀ {call : Call P.Key}, call.marks = none →
      ∀ p : Prog Choice (Device P.Key Memory) Res, Prog.Always (CallMarks call) p := fun h =>
    .of_forall fun _ _ _ _ _ _ h' => nomatch h.symm.trans h'
  cases call with
  | send i handle clientId plaintext => exact send_marked i handle clientId plaintext
  | receive i handle wire => exact receive_marked i handle wire
  | acceptFirstMessage i first wire => exact first_marked i first wire
  | _ => exact silent rfl _

/-- `contract`, with the marks. -/
def markingContract (P : Platform) (our : Bytes32) : Contract (system P our) :=
  { contract P our with
    Q := fun call s res t s' => (contract P our).Q call s res t s' ∧ CallMarks call res t s'
    triple := fun call s hc hI => ((contract P our).triple call s hc hI).and_always
      (body_marked call) }

theorem Reachable.marking {c : Conf P} (h : Reachable our c) : (markingContract P our).Holds c :=
  Contract.sound (show (markingContract P our).I (Device.fresh P) from Db.Valid.empty) h

/-! ## What recovery says -/

/-- A send record is never taken back. -/
theorem Attempt.recorded_stable (h : db'.Valid (Trans our)) (hle : db.Le db') {a : Attempt}
    (ha : a.Recorded db.rows) : a.Recorded db'.rows := by
  cases a with
  | send peer clientId =>
    obtain ⟨r, hr⟩ := Option.isSome_iff_exists.mp ha
    obtain ⟨r', hr', -⟩ := sendid_stable h hle hr
    exact Option.isSome_iff_exists.mpr ⟨r', hr'⟩
  | receive peer id legacy => exact accepted_stable h hle ha
  | promote peer id => exact accepted_stable h hle ha

/-- What took effect is recorded. -/
theorem Attempt.TookEffect.recorded (h : db.Valid (Trans our)) {handle : UInt64} {a : Attempt}
    (ha : a.TookEffect our handle db) : a.Recorded db.rows := by
  cases a with
  | send peer clientId =>
    obtain ⟨db₀, rows, pt, q, old, new, m, hle, hs⟩ := ha
    refine Attempt.recorded_stable (a := .send peer clientId) h hle ?_
    have hk := (messagesAfter_of_eq hs.eq).snd rfl
    rw [hs.message] at hk
    exact Option.isSome_iff_exists.mpr ⟨_, hk⟩
  | receive peer id legacy =>
    obtain ⟨db₀, rows, wire, old, new, m, hle, hs, rfl⟩ := ha
    exact accepted_stable h hle (.inl (by rw [Db.push_rows, (AcceptTx.receive _ _ _ _ hs).waiting.1]; rfl))
  | promote peer id =>
    obtain ⟨db₀, rows, first, wire, new, m, hle, hs, -, rfl, rfl⟩ := ha
    exact accepted_stable h hle
      (.inl (by rw [Db.push_rows, (AcceptTx.promote _ _ _ hs rfl).waiting.1]; rfl))

/-- A handle that names a peer with a confirmed session keeps naming it. -/
theorem Trans.keeps_handle (ht : Trans our db rows) (hcf : CollisionFree db)
    (hone : OnePeerPerHandle db) {handle : UInt64} {p : Peer}
    (hh : db.rows.lookup (.handle handle) = some p) (hc : Confirmed db.rows p) :
    rows.lookup (.handle handle) = some p := by
  -- Who deletes the handle loaded it for `p`, and found the session unconfirmed.
  have kept : ∀ {h' : UInt64} {q : Peer} {old : SessionRecord P.Key}, Loaded our db h' q old →
      Unchanged db q old → old.ratchet.hasReceivingChain = false → handle ≠ h' := by
    rintro h' q old hl hu hr rfl
    obtain rfl := hone handle q p hl.named (Db.ever_now hh)
    obtain ⟨rec, hrec, hr'⟩ := hc
    obtain rfl := Option.some.inj (hrec.symm.trans (hu.eq hcf hl.ever))
    rw [hr] at hr'
    cases hr'
  cases ht with
  | create new h =>
    have hne : handle ≠ new.handle := by
      rintro rfl
      cases h.noHandle.symm.trans hh
    rw [h.eq, lookup_createChanges our h.extra _ rfl, Rows.applyAll_cons, Rows.applyAll_cons,
      lookup_handshakes (by simp), Rows.lookup_apply_ne _ (by simpa using hne),
      Rows.lookup_apply_ne _ (by simp)]
    exact hh
  | promote first wire new m h =>
    have hne : handle ≠ first.handle := by
      rintro rfl
      cases h.noHandle.symm.trans hh
    rw [h.eq, lookup_promoteChanges new m h.extra _ rfl]
    exact (Rows.lookup_applyAll_ne _ (by simpa using hne)).trans hh
  | provisional h' record h =>
    rw [h.eq]
    exact (Rows.lookup_applyAll_ne _ (by simp)).trans hh
  | retire h' record validated q old h =>
    have hne := kept h.loaded h.unchanged h.legacy.hasReceivingChain
    rw [h.eq]
    exact (Rows.lookup_applyAll_ne _ (by simpa using hne)).trans hh
  | send h' clientId plaintext dest q old new m h =>
    rw [h.eq]
    exact (Rows.lookup_applyAll_ne _ (by simp [sendChanges])).trans hh
  | receive h' wire q old new m h =>
    rw [h.eq]
    exact (Rows.lookup_applyAll_ne _ (by simp [receiveChanges])).trans hh
  | ackOut h' id q h =>
    rw [h.eq]
    exact (Rows.lookup_applyAll_ne _ (by simp)).trans hh
  | ackIn h' id q h =>
    rw [h.eq]
    exact (Rows.lookup_applyAll_ne _ (by simp)).trans hh
  | abandon h' id q m h =>
    rw [h.eq]
    exact (Rows.lookup_applyAll_ne _ (by simp)).trans hh
  | remove h' q old h =>
    have hne := kept h.loaded h.unchanged h.unconfirmed
    rw [h.eq]
    exact (Rows.lookup_applyAll_ne _ (by simpa using hne)).trans hh
  | app h => exact (h _ rfl).trans hh

/-- The handle of a promoted session stays registered. -/
theorem PromoteTx.handle_stable {first : FirstContact P.Key} {wire : Bytes}
    {new : SessionRecord P.Key} {m : IncomingMessage} (hp : PromoteTx our first wire db new m rows)
    (h : db'.Valid (Trans our)) (hcf : CollisionFree db') (hone : OnePeerPerHandle db')
    (hle : (db.push rows).Le db') :
    db'.rows.lookup (.handle first.handle) = some first.session.peerIdentityPk := by
  suffices db'.rows.lookup (.handle first.handle) = some first.session.peerIdentityPk ∧
      Confirmed db'.rows first.session.peerIdentityPk from this.1
  have hconf : Confirmed (db.push rows).rows first.session.peerIdentityPk :=
    (AcceptTx.promote _ _ _ hp rfl).confirmed
  induction h with
  | empty => cases Db.le_empty hle
  | push hv ht ih =>
    have hcf' := hcf.mono (Db.le_push _ _)
    have hone' := hone.mono (Db.le_push _ _)
    rcases Db.le_push_cases hle with heq | hle
    · obtain ⟨rfl, rfl⟩ := Db.push_inj heq
      refine ⟨?_, hconf⟩
      rw [Db.push_rows, hp.eq, lookup_promoteChanges new m hp.extra _ rfl]
      exact Rows.lookup_applyAll_head (db.rows.apply _) _ (by simp)
    · obtain ⟨hh, hc⟩ := ih hcf' hone' hle
      exact ⟨ht.keeps_handle hcf' hone' hh hc, (ht.session _).keeps_confirmed hcf' hc⟩

/-- What is recorded is found, however the reads interleave with others. -/
theorem Attempt.Recorded.not_missing (h : db'.Valid (Trans our)) {a : Attempt} {generation : UInt64}
    (ha : a.Recorded db.rows) : ¬ MissingInTurn (a.mark generation).artifactKeys db db' := by
  have accepted : ∀ {peer : Peer} {id : MessageId}, Accepted db.rows peer id →
      ¬ MissingInTurn [.inbox peer id, .seen peer id] db db' := by
    rintro peer id ha ⟨db₁, h1, hin, db₂, h2, hseen, hle⟩
    rcases accepted_stable (h.le (h2.trans hle)) h1 ha with ha | ha
    · rw [hin] at ha
      cases ha
    · obtain ⟨x, hx⟩ := Option.isSome_iff_exists.mp ha
      rw [seen_stable (h.le hle) h2 hx] at hseen
      cases hseen
  cases a with
  | send peer clientId =>
    rintro ⟨db₁, h1, hn, hle⟩
    have := Attempt.recorded_stable (a := .send peer clientId) (h.le hle) h1 ha
    rw [Attempt.Recorded, hn] at this
    cases this
  | receive peer id legacy => exact accepted ha
  | promote peer id => exact accepted ha

theorem FoundOne.recorded (h : db'.Valid (Trans our)) {a : Attempt} {generation : UInt64}
    (hf : FoundOne (a.mark generation).artifactKeys db db') : a.Recorded db'.rows := by
  obtain ⟨k, hk, db₁, -, hle, hs⟩ := hf
  refine Attempt.recorded_stable h hle ?_
  cases a with
  | send peer clientId =>
    obtain rfl := List.mem_singleton.mp hk
    exact hs
  | receive peer id legacy =>
    simp only [Attempt.mark, List.mem_cons, List.not_mem_nil, or_false] at hk
    rcases hk with rfl | rfl
    · exact .inl hs
    · exact .inr hs
  | promote peer id =>
    simp only [Attempt.mark, List.mem_cons, List.not_mem_nil, or_false] at hk
    rcases hk with rfl | rfl
    · exact .inl hs
    · exact .inr hs

/-- One read that finds none of the records shows that nothing took effect. -/
theorem RetiredSince.not_recorded {handle : UInt64} {peer : Peer} {a : Attempt} {generation : UInt64}
    (hr : RetiredSince handle peer (a.mark generation).artifactKeys rows) : ¬ a.Recorded rows := by
  have none : ∀ k ∈ (a.mark generation).artifactKeys, ¬ (rows.lookup k).isSome := by
    intro k hk hs
    rw [hr.keys k hk] at hs
    cases hs
  cases a with
  | send p clientId => exact none _ List.mem_cons_self
  | receive p id legacy =>
    rintro (hs | hs)
    · exact none (.inbox p id) List.mem_cons_self hs
    · exact none (.seen p id) (List.mem_cons_of_mem _ List.mem_cons_self) hs
  | promote p id =>
    rintro (hs | hs)
    · exact none (.inbox p id) List.mem_cons_self hs
    · exact none (.seen p id) (List.mem_cons_of_mem _ List.mem_cons_self) hs

/-- A report that denies a commit is right. -/
theorem RecoverPost.denied {handle generation : UInt64} {a : Attempt} {rep : Recovery}
    (hp : RecoverPost handle (a.mark generation) db db' rep) (h : db'.Valid (Trans our))
    (hcf : CollisionFree db') (hone : OnePeerPerHandle db') (hle : db.Le db')
    (hrep : rep.artifactCommitted = false) : ¬ a.TookEffect our handle db := by
  intro ha
  have hrec := ha.recorded (h.le hle)
  cases hp with
  | found committed hf =>
    rw [committed] at hrep
    cases hrep
  | missing committed hm => exact hrec.not_missing h hm
  | created committed creates db₁ le le' gone =>
    cases a with
    | send peer clientId => cases creates
    | receive peer id legacy => cases creates
    | promote peer id =>
      obtain ⟨db₀, rows, first, wire, new, m, hle₀, hs, rfl, -, -⟩ := ha
      have hh := hs.handle_stable (h.le le') (hcf.mono le') (hone.mono le') (hle₀.trans le)
      rw [hh] at gone
      cases gone
  | retired committed peer creates legacy db₁ le le' hr =>
    exact hr.not_recorded (Attempt.recorded_stable (h.le le') le hrec)

/-- A report that confirms a commit is right. -/
theorem RecoverPost.confirmed {handle generation : UInt64} {a : Attempt} {rep : Recovery}
    (hp : RecoverPost handle (a.mark generation) db db' rep) (h : db'.Valid (Trans our))
    (hrep : rep.artifactCommitted = true) : a.Recorded db'.rows := by
  cases hp with
  | found committed hf => exact hf.recorded h
  | missing committed hm => rw [committed] at hrep; cases hrep
  | created committed => rw [committed] at hrep; cases hrep
  | retired committed => rw [committed] at hrep; cases hrep

/-- Recovery never denies a commit that happened.

`marked`: a call whose commit had an unknown outcome leaves the mark of its attempt, which took
effect if the call wrote anything. `denied`, `confirmed`: what the reports on such a mark say. -/
structure Recovers (our : Bytes32) (c : Conf P) : Prop where
  marked : ∀ d ∈ c.done, ∀ i handle generation, d.call.marks = some (i, handle) →
    d.res.unknown = some generation → ∃ a x rest, Attempts d.call d.res a ∧ d.trace = x :: rest ∧
      (x.2.mem i).unresolved handle = some (a.mark generation) ∧
      (¬ Quiet (dbs d.trace) → a.TookEffect our handle x.2.db)
  denied : ∀ d ∈ c.done, ∀ i handle a generation rep, d.call = .recover i handle →
    d.res = .recovered (some (Attempt.mark generation a)) (.ok (some rep)) →
    rep.artifactCommitted = false → ¬ a.TookEffect our handle d.start.db
  confirmed : ∀ d ∈ c.done, ∀ i handle a generation rep, d.call = .recover i handle →
    d.res = .recovered (some (Attempt.mark generation a)) (.ok (some rep)) →
    rep.artifactCommitted = true → a.Recorded c.shared.db.rows

variable {c : Conf P}

/-- What a call with an unknown outcome attempted took effect if the call wrote. -/
theorem CallPost.tookEffect {call : Call P.Key} {res : Res} {tr : Trace P.Key} {i : Nat}
    {handle generation : UInt64} {a : Attempt} (hp : CallPost our call db res tr db')
    (hc : call.marks = some (i, handle)) (hr : res.unknown = some generation)
    (ha : Attempts call res a) (hw : ¬ Quiet tr) : a.TookEffect our handle db' := by
  have receives : ∀ {handle : UInt64} {wire : Bytes} {p : Peer} {tr₁ : Trace P.Key}
      {db₁ : Db P.Key} {r : Except MessagingError Received}, Looked [] db tr₁ db₁ →
      ReceivePost our handle wire p tr₁ db₁ r tr db' → Receives P p wire a →
      a.TookEffect our handle db' := by
    rintro handle wire p tr₁ db₁ r hl h ⟨legacy, rfl⟩
    cases h with
    | unusable looked => exact absurd ((hl.trans looked).quiet quiet_nil) hw
    | checked looked => exact absurd ((hl.trans looked).quiet quiet_nil) hw
    | refused looked => exact absurd ((hl.trans looked).quiet quiet_nil) hw
    | wrote db₂ rows old new m le step le' hr =>
      exact ⟨db₂, rows, wire, old, new, m, le', step, congrArg IncomingMessage.messageId step.message⟩
  cases call with
  | send i' handle' clientId plaintext =>
    cases hc
    rcases hp with ⟨e, rfl, hq⟩ | ⟨p, r, tr₁, db₁, rfl, hl, h⟩
    · exact absurd hq hw
    · obtain rfl : a = .send p clientId := ha
      cases h with
      | prior looked => exact absurd ((hl.trans looked).quiet quiet_nil) hw
      | unread looked => exact absurd ((hl.trans looked).quiet quiet_nil) hw
      | refused looked => exact absurd ((hl.trans looked).quiet quiet_nil) hw
      | wrote db₂ rows q old new m le step le' =>
        exact ⟨db₂, rows, plaintext, q, old, new, m, le', step⟩
  | receive i' handle' wire =>
    cases hc
    rcases hp with ⟨e, rfl, hq⟩ | ⟨p, r, tr₁, db₁, rfl, hl, h⟩
    · exact absurd hq hw
    · exact receives hl h ha
  | acceptFirstMessage i' first wire =>
    cases hc
    obtain ⟨p, r, rfl, h⟩ := hp
    cases h with
    | promoted hp db₁ rows new m le step le' =>
      subst hp
      obtain rfl : a = .promote _ _ := ha
      exact ⟨db₁, rows, first, wire, new, m, le', step, rfl, rfl,
        congrArg IncomingMessage.messageId step.message⟩
    | received peer hp tr₁ db₁ looked h =>
      subst hp
      exact receives looked h ha
    | refused looked => exact absurd (looked.quiet quiet_nil) hw
  | _ => cases hc

/-- In every run in which no handle is registered for two peers. -/
theorem recovers (h : Reachable our c) (hcf : CollisionFree c.shared.db)
    (hone : OnePeerPerHandle c.shared.db) : Recovers our c where
  marked d hd i handle generation hc hr := by
    obtain ⟨-, s, -, -, hs, hm⟩ := h.marking.returned d hd
    obtain ⟨a, ha, ⟨x, rest, ht, rfl⟩, hmark⟩ := hm i handle generation hc hr
    exact ⟨a, x, rest, ha, ht, hmark, hs.post.tookEffect hc hr ha⟩
  denied d hd i handle a generation rep hc hr hrep := by
    obtain ⟨-, s, hle, hle', hs⟩ := h.holds.returned d hd
    have hpost := hs.post
    rw [hc] at hpost
    obtain ⟨mark, r, he, hp⟩ := hpost
    cases hr.symm.trans he
    exact (hp _ rep rfl rfl).denied (h.valid.le hle') (hcf.mono hle') (hone.mono hle') hle hrep
  confirmed d hd i handle a generation rep hc hr hrep := by
    obtain ⟨-, s, -, hle', hs⟩ := h.holds.returned d hd
    have hpost := hs.post
    rw [hc] at hpost
    obtain ⟨mark, r, he, hp⟩ := hpost
    cases hr.symm.trans he
    exact Attempt.recorded_stable h.valid hle' ((hp _ rep rfl rfl).confirmed (h.valid.le hle') hrep)

/-! Two runs: a send whose commit is reported lost and took effect; and a first message whose handle
is deleted by a removal that found another peer under it. -/

namespace LostCommit

/-- A commit that takes effect, and is reported as failed. -/
def lost : Choice := { commit := .unknown .db true, secret := fill 4 }

/-- Thread `i` takes `n` turns. -/
def go (i n : Nat) (e : Choice) : List (System.Turn Choice (Call symbolicPlatform.Key)) :=
  List.replicate n (.advance i e)

/-- A session is created, a message is sent on it with a lost commit, and `recover` is called. -/
def sending : List (System.Turn Choice (Call symbolicPlatform.Key)) :=
  .invoke 0 (.createSession 0 OneSend.new) :: go 0 3 {} ++
  .invoke 0 (.send 0 7 [1] [7]) :: go 0 9 lost ++
  .invoke 0 (.recover 0 7) :: go 0 6 {}

def sent : Option (Conf symbolicPlatform) :=
  (system symbolicPlatform OneSend.ours).play (Config.init (Device.fresh symbolicPlatform)) sending

/-- What the recovery that returned last reports. -/
def reported (c : Conf symbolicPlatform) : Option Bool :=
  c.done.head?.bind fun d =>
    match d.res with
    | .recovered (some _) (.ok (some rep)) => some rep.artifactCommitted
    | _ => none

theorem sent_facts : ∃ c, sent = some c ∧ Reachable OneSend.ours c ∧
    c.shared.db = Db.after OneSend.writes ∧ reported c = some true := by
  have hs : sent.isSome = true := by decide +kernel
  have hdb : sent.map (fun c => c.shared.db.entries) = some (Db.after OneSend.writes).entries := by
    decide +kernel
  have hr : sent.map reported = some (some true) := by decide +kernel
  obtain ⟨c, hc⟩ := Option.isSome_iff_exists.mp hs
  rw [hc] at hdb hr
  refine ⟨c, hc, ?_, Db.entries_inj (Option.some.inj hdb), Option.some.inj hr⟩
  refine System.Reach.play .refl (fun i call hcall => ?_) hc
  simp only [sending, go, List.replicate, List.cons_append, List.nil_append, List.mem_cons,
    List.not_mem_nil, System.Turn.invoke.injEq, reduceCtorEq, false_or, or_false] at hcall
  rcases hcall with ⟨-, rfl⟩ | ⟨-, rfl⟩ | ⟨-, rfl⟩
  · exact appOnly_nil
  · trivial
  · trivial

theorem onePeerPerHandle : OnePeerPerHandle (Db.after OneSend.writes) :=
  fun _ _ _ hp hq => (OneSend.ever_handle hp).2.trans (OneSend.ever_handle hq).2.symm

def carol : Peer := fill 30

/-- An initiator session with `carol`. -/
def new (handle : UInt64) (secret : StaticSecret) : NewSession symbolicPlatform.Key :=
  { handle
    session :=
      { ratchet := .initAlice symbolic (.root 0) (fill 2) secret
        ad := OneReceive.ours.val ++ carol.val
        peerIdentityPk := carol }
    role := .initiator
    initialOutbound := none
    extra := [] }

def first : FirstContact symbolicPlatform.Key := { OneReceive.first with handle := 7 }

/-- A removal finds that handle 7 names `carol`. Then her session is removed by another call and
created again under handle 9, and a first message of the other peer is accepted under handle 7, with
a lost commit. The removal goes on: it deletes the new session of `carol`, and handle 7. -/
def promoting : List (System.Turn Choice (Call symbolicPlatform.Key)) :=
  .invoke 0 (.createSession 0 (new 7 (fill 1))) :: go 0 3 {} ++
  .invoke 1 (.removeSession 1 7) :: go 1 2 {} ++
  .invoke 0 (.removeSession 0 7) :: go 0 6 {} ++
  .invoke 0 (.createSession 0 (new 9 (fill 3))) :: go 0 3 {} ++
  .invoke 0 (.recordProvisionalHandshake 0 7 OneReceive.handshake ⟨.handle 9, carol⟩) :: go 0 2 {} ++
  .invoke 2 (.acceptFirstMessage 2 first OneSend.wire) :: go 2 5 lost ++
  go 1 4 {} ++
  .invoke 2 (.recover 2 7) :: go 2 6 {}

def promoted : Option (Conf symbolicPlatform) :=
  (system symbolicPlatform OneReceive.ours).play (Config.init (Device.fresh symbolicPlatform)) promoting

/-- `d` denies the commit of `d'`, which wrote before `d` started. -/
def denies (d d' : Done (Device symbolicPlatform.Key Memory) (Call symbolicPlatform.Key) Res) : Bool :=
  match d.call, d.res, d'.call, d'.res, d'.trace with
  | .recover _ handle, .recovered (some u) (.ok (some rep)), .acceptFirstMessage _ first wire,
      .first none (.error (.outcomeUnknown generation _)), x :: _ =>
    !rep.artifactCommitted && handle == first.handle &&
    u == (Attempt.promote first.session.peerIdentityPk (messageId symbolicPlatform wire)).mark generation &&
    (dbs d'.trace).any (fun y => y.2.entries != y.1.entries) &&
    x.2.db.entries.isSuffixOf d.start.db.entries
  | _, _, _, _, _ => false

theorem not_recovers {our : Bytes32} {c : Conf symbolicPlatform}
    (h : c.done.any (fun d => c.done.any (denies d)) = true) : ¬ Recovers our c := by
  intro hk
  obtain ⟨d, hd, h⟩ := List.any_eq_true.mp h
  obtain ⟨d', hd', h⟩ := List.any_eq_true.mp h
  unfold denies at h
  split at h
  · next i handle u rep i' first wire generation f x rest hcall hres hcall' hres' htr =>
    simp only [Bool.and_eq_true, Bool.not_eq_true', beq_iff_eq, List.any_eq_true,
      List.isSuffixOf_iff_suffix] at h
    obtain ⟨⟨⟨⟨hrep, rfl⟩, rfl⟩, y, hy, hne⟩, hle⟩ := h
    obtain ⟨a, x', rest', ha, htr', -, hw⟩ := hk.marked d' hd' i' first.handle generation
      (by rw [hcall']; rfl) (by rw [hres']; rfl)
    rw [hcall', hres'] at ha
    obtain rfl : a = _ := ha
    obtain ⟨rfl, -⟩ := List.cons.inj (htr.symm.trans htr')
    have heff := hw fun hq => by
      rw [hq y hy] at hne
      simp at hne
    exact hk.denied d hd i first.handle _ generation rep hcall hres hrep
      (heff.mono (Db.le_of_entries hle))
  · cases h

end LostCommit

/-- In the first run the lost commit is found. -/
theorem recovers_lostSend : ∃ c : Conf symbolicPlatform, Reachable OneSend.ours c ∧
    LostCommit.reported c = some true ∧ Recovers OneSend.ours c := by
  obtain ⟨c, -, hr, hdb, hrep⟩ := LostCommit.sent_facts
  exact ⟨c, hr, hrep,
    recovers hr (hdb ▸ OneSend.collisionFree) (hdb ▸ LostCommit.onePeerPerHandle)⟩

/-- In the second run `recover` denies a commit that happened. -/
theorem recovery_denies_promotion : ∃ c : Conf symbolicPlatform, Reachable OneReceive.ours c ∧
    ¬ Recovers OneReceive.ours c := by
  have hs : LostCommit.promoted.isSome = true := by decide +kernel
  have hd : LostCommit.promoted.map (fun c => c.done.any fun d => c.done.any (LostCommit.denies d)) =
      some true := by decide +kernel
  obtain ⟨c, hc⟩ := Option.isSome_iff_exists.mp hs
  rw [hc] at hd
  refine ⟨c, System.Reach.play .refl (fun i call hcall => ?_) hc,
    LostCommit.not_recovers (Option.some.inj hd)⟩
  simp only [LostCommit.promoting, LostCommit.go, List.replicate, List.cons_append, List.nil_append,
    List.mem_cons, List.not_mem_nil, System.Turn.invoke.injEq, reduceCtorEq, false_or,
    or_false] at hcall
  rcases hcall with ⟨-, rfl⟩ | ⟨-, rfl⟩ | ⟨-, rfl⟩ | ⟨-, rfl⟩ | ⟨-, rfl⟩ | ⟨-, rfl⟩ | ⟨-, rfl⟩
  · exact appOnly_nil
  · trivial
  · trivial
  · exact appOnly_nil
  · trivial
  · exact appOnly_nil
  · trivial

end Messenger

end Arcium
