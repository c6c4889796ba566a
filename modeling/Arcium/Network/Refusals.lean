import Arcium.Network.CoreSpec

/-!
# What a refused message was refused for

`receive` fails for many reasons. Two kinds of failure end a message for good: what the handle has
does not take it (`CoreError::Crypto`), and its handshake cannot be answered any more. For both, the
error says what was in the store when the message was looked at (`ReceiveFails`).
-/

namespace Arcium

open Conc

namespace Network

variable {P : AppPlatform} {I : Db P.Key → Prop} {A : Db P.Key → Request × Answer → Prop}
  {T : Db P.Key → Rows P.Key → Prop} {db : Db P.Key} {α β : Type}

/-! ## The messenger -/

/-- The errors of the messenger that the core reports as `Crypto`. -/
def Refusal : MessagingError → Prop
  | .malformedMessage | .ratchet _ | .checkpoint _ | .generationExhausted => True
  | _ => False

/-- No error of this result is a refusal. -/
def Takes (r : Except MessagingError α) : Prop := ∀ e, r = .error e → ¬ Refusal e

/-- Every write is allowed. -/
abbrev Anything : Db P.Key → Rows P.Key → Prop := fun _ _ => True

theorem find_takes (k : Key) :
    Meets I A Anything (fun r _ => Takes r) (find MessagingError.store k : Do P.toPlatform _) db :=
  .find (fun _ _ _ => nofun) fun _ _ _ f _ e he h => by cases he; exact h

theorem requireResolved_takes (i : Nat) (handle : UInt64) :
    Meets I A Anything (fun r _ => Takes r)
      (Messenger.requireResolved i handle : Do P.toPlatform _) db := by
  refine Meets.seq (R := fun r _ => Takes r) (.remembered fun _ _ _ _ => nofun)
    (fun _ _ _ h e he => h e (by cases he; rfl)) fun u _ _ _ => ?_
  cases u with
  | none => exact .pure nofun
  | some u => exact .throw fun e he h => by cases he; exact h

theorem requirePeer_takes (handle : UInt64) :
    Meets I A Anything (fun r db' => Takes r ∧ ∀ p, r = .ok p → db'.rows.lookup (.handle handle) = some p)
      (Messenger.requirePeer handle : Do P.toPlatform _) db := by
  refine Meets.seq (R := fun r db' => Takes r ∧ ∀ o, r = .ok o → db'.rows.lookup (.handle handle) = o)
    (.find (fun _ _ _ => ⟨nofun, fun _ h => Except.ok.inj h⟩)
      fun _ _ _ f _ => ⟨fun e he h => by cases he; exact h, nofun⟩)
    (fun _ _ _ h => ⟨fun e he => h.1 e (by cases he; rfl), nofun⟩) fun o db' _ h => ?_
  cases o with
  | none => exact .throw ⟨fun e he h => by cases he; exact h, nofun⟩
  | some p => exact .pure ⟨nofun, fun q hq => Except.ok.inj hq ▸ h.2 _ rfl⟩

theorem readDuplicate_takes (peer : Peer) (msg : MessageId) :
    Meets I A Anything (fun r _ => Takes r)
      (Messenger.readDuplicate peer msg : Do P.toPlatform _) db := by
  refine Meets.of_sat (fun _ => Messenger.readDuplicate_sat peer msg) fun _ r _ _ h e he => ?_
  subst he
  cases h.2 with
  | badInbox => exact id
  | badSeen => exact id
  | fault => exact id

theorem commitError_takes (i : Nat) (handle generation : UInt64) (keys : List Key)
    (legacy : Option Peer) (e : CommitError) :
    Meets I A Anything (fun r _ => Takes r)
      (Messenger.commitError i handle generation keys legacy e : Do P.toPlatform α) db := by
  cases e with
  | outcomeUnknown f =>
    exact Meets.seq (R := fun r _ => r = .ok ()) (.remember fun _ _ _ => rfl) (fun _ _ _ h => nomatch h)
      fun _ _ _ _ => .throw fun e he => by cases he; exact id
  | _ => exact .throw fun e he => by cases he; exact id

/-- A commit hands over its error as a value. -/
theorem commitWith_takes (s : DurableSession P.Key) (staged : StagedTransition P.Key α)
    (side : List (SideWrite P.Key)) :
    Meets I A Anything (fun r _ => Takes r)
      (s.commitWith P.toPlatform staged side : Do P.toPlatform _) db := by
  refine Meets.of_sat (fun _ => DurableSession.commitWith_sat fun _ _ _ _ => trivial)
    fun _ r _ _ h e he => ?_
  subst he
  cases h with
  | written _ _ hr => rcases hr with ⟨_, hr⟩ | ⟨_, _, hr⟩ <;> cases hr
  | failed _ hr => obtain ⟨_, _, hr⟩ := hr; cases hr

/-- What a refusal of `receiveAs` says. -/
theorem receiveAs_refuses (i : Nat) {our : Bytes32} {handle : UInt64} {wire : Bytes} {peer : Peer}
    {header : Header} {ciphertext : Bytes} (hw : Messenger.splitWire wire = .ok (header, ciphertext)) :
    Meets I A Anything (fun r db' => ∀ e, r = .error e → Refusal e → ∃ old,
        Within db db' (fun rows => rows.lookup (.session peer) = some old) ∧ SessionRefuses old wire)
      (Messenger.receiveAs i our handle wire (peer, header, ciphertext) : Do P.toPlatform _) db := by
  have plain : ∀ {r : Except MessagingError Received} {db' : Db P.Key}, Takes r →
      ∀ e, r = .error e → Refusal e → ∃ old,
        Within db db' (fun rows => rows.lookup (.session peer) = some old) ∧ SessionRefuses old wire :=
    fun h e he hr => (h e he hr).elim
  refine Meets.seq (Meets.of_sat (R := fun r db' => Messenger.LoadResult our handle peer db' r)
    (fun _ => Messenger.loadFor_sat handle peer) fun _ _ _ _ h => h.2) (fun e db₁ _ h => plain ?_)
    fun s db₁ h₁ h => ?_
  · intro e' he
    cases he
    cases h with
    | missing => exact id
    | invalid => exact id
    | fault => exact id
  · cases h with
    | loaded old hf hb =>
    refine Meets.seq (R := fun r _ => Takes r) (readDuplicate_takes peer _)
      (fun e db₂ _ h => plain fun e' he => h e' (by cases he; rfl)) fun d db₂ h₂ _ => ?_
    cases d with
    | some d => exact .pure (plain nofun)
    | none =>
      refine Meets.seq (R := fun r _ => Takes r) (.draw fun _ _ _ _ => nofun)
        (fun e db₃ _ h => plain fun e' he => h e' (by cases he; rfl)) fun fresh db₃ h₃ _ => ?_
      cases hst : (DurableSession.ofRecord P.toPlatform old).stageDecrypt P.toPlatform header ciphertext fresh with
      | error x =>
        refine fun tr => Messenger.lift_sat (fun _ h => nomatch h) fun _ _ e he hr => ?_
        exact ⟨old, ⟨db₁, h₁, h₂.trans h₃, hf⟩, header, ciphertext, fresh, x, hw, hst⟩
      | ok staged =>
      refine fun tr => Messenger.lift_sat (fun _ h => ?_) fun _ h => nomatch h
      obtain rfl := Except.ok.inj h
      refine Messenger.lift_sat (fun inbox _ => ?_) fun _ h => nomatch h
      refine Messenger.lift_sat (fun unseen _ => ?_) fun _ h => nomatch h
      refine Meets.seq (R := fun r _ => Takes r) (commitWith_takes _ _ _)
        (fun e _ _ h => plain fun e' he => h e' (by cases he; rfl)) (fun r db₄ _ _ => ?_) tr
      obtain ⟨r, s'⟩ := r
      split
      · exact .pure (plain nofun)
      · refine Meets.seq (R := fun r _ => Takes r) (readDuplicate_takes peer _)
          (fun e _ _ h => plain fun e' he => h e' (by cases he; rfl)) fun d db₅ _ _ => ?_
        cases d with
        | some d => exact .pure (plain nofun)
        | none => exact .throw (plain fun e he => by cases he; exact id)
      · exact (commitError_takes _ _ _ _ _ _).mono fun r db₅ _ h => plain h

/-- The first part of `receive` refuses only what is no message. -/
theorem receivePeer_refuses (i : Nat) (handle : UInt64) (wire : Bytes) :
    Meets I A Anything (fun r db' =>
        (∀ e, r = .error e → Refusal e → ∃ x, Messenger.splitWire wire = .error x) ∧
          ∀ p header ciphertext, r = .ok (p, header, ciphertext) →
            Messenger.splitWire wire = .ok (header, ciphertext) ∧
              db'.rows.lookup (.handle handle) = some p)
      (Messenger.receivePeer i handle wire : Do P.toPlatform _) db := by
  refine Meets.seq (requireResolved_takes i handle) (fun e _ _ h => ⟨fun e' he hr => ?_, nofun⟩)
    fun _ db₁ _ _ => ?_
  · cases he
    exact (h e rfl hr).elim
  refine fun tr => Messenger.lift_sat (fun hc hw => ?_) fun x hx => ⟨fun _ _ _ => ⟨x, hx⟩, nofun⟩
  refine Meets.seq (requirePeer_takes handle) (fun e _ _ h => ⟨fun e' he hr => ?_, nofun⟩)
    (fun p db₂ _ hp => .pure ⟨nofun, fun p' header ciphertext h => ?_⟩) tr
  · cases he
    exact (h.1 e rfl hr).elim
  · cases h
    exact ⟨hw, hp.2 _ rfl⟩

/-- What a refusal of `receive` says. -/
theorem receive_refuses (i : Nat) (our : Bytes32) (handle : UInt64) (wire : Bytes) :
    Meets I A Anything (fun r db' => ∀ e, r = .error e → Refusal e → Undecryptable db db' handle wire)
      (Messenger.receive i our handle wire : Do P.toPlatform _) db := by
  refine Meets.seq (receivePeer_refuses i handle wire) (fun e _ _ h e' he hr => ?_)
    fun x db₁ h₁ h => ?_
  · cases he
    obtain ⟨x, hx⟩ := h.1 e rfl hr
    exact .malformed x hx
  · obtain ⟨peer, header, ciphertext⟩ := x
    obtain ⟨hw, hp⟩ := h.2 _ _ _ rfl
    refine (receiveAs_refuses i hw).mono fun r db₂ h₂ h e he hr => ?_
    obtain ⟨old, hs, hn⟩ := h e he hr
    exact .session peer old ⟨db₁, h₁, h₂, hp⟩ (hs.mono h₁ (Db.Le.refl _)) hn

/-- The promotion of a candidate hands over the failure of its write. -/
theorem promoteWith_fails (s : ProvisionalSession P.Key) (staged : StagedTransition P.Key Bytes)
    (side : List (SideWrite P.Key)) :
    Meets I A Anything (fun r _ => ∀ x, r ≠ .error (.invalid x))
      (s.promoteWith P.toPlatform staged side : Run P.Key Memory _ _) db := by
  unfold ProvisionalSession.promoteWith
  split
  · exact .throw nofun
  split
  · exact .throw nofun
  next writes hw =>
  refine Meets.seq (R := fun r _ => ∀ x, r ≠ .error (.invalid x)) (.mapError ?_)
    (fun e _ _ h x hx => h x (by cases hx; rfl)) fun _ _ _ _ => .pure nofun
  refine Meets.of_sat (fun _ => writeConditional_sat hw fun _ _ _ _ => trivial) fun _ r _ _ _ x hx => ?_
  cases r with
  | ok a => cases hx
  | error f => rcases f with ⟨_ | index, c⟩ | f | f <;> cases hx

theorem classifyTaken_takes (handle : UInt64) (peer : Peer) :
    Meets I A Anything (fun r _ => Takes r ∧ ∀ e, r = .ok e → ¬ Refusal e)
      (Messenger.classifyTaken handle peer : Do P.toPlatform _) db := by
  refine Meets.seq (find_takes _) (fun e _ _ h => ⟨fun e' he => h e' (by cases he; rfl), nofun⟩)
    fun o _ _ _ => ?_
  cases o with
  | none => exact .pure ⟨nofun, fun e he h => by cases he; exact h⟩
  | some p =>
    refine .pure ⟨nofun, fun e he h => ?_⟩
    cases he
    split at h <;> exact h

theorem checkProvisional_takes {p : ProvisionalHandshake} {e : MessagingError}
    (h : Messenger.checkProvisional p = .error e) : ¬ Refusal e := by
  unfold Messenger.checkProvisional at h
  split at h
  · obtain rfl := Except.error.inj h
    exact id
  · cases h

/-- A first message whose peer has a session by now. -/
theorem taken_takes (handle : UInt64) (peer : Peer) :
    Meets I A Anything (fun r _ => Takes r) (Messenger.takenFirst handle peer : Do P.toPlatform _)
      db := by
  refine Meets.seq (classifyTaken_takes handle peer)
    (fun e _ _ h e' he => h.1 e' (by cases he; rfl)) fun e db₁ _ h => ?_
  split
  · refine Meets.seq (R := fun r _ => Takes r) (find_takes (.handle handle))
      (fun e _ _ h e' he => h e' (by cases he; rfl)) fun o db₂ _ _ => ?_
    split
    · exact .pure nofun
    · exact .throw fun e he => by cases he; exact id
  · exact .throw fun e he => by cases he; exact h.2 _ rfl

/-- What a refusal of `accept_first_message` says, as far as it promotes. -/
theorem promoteFirst_refuses (i : Nat) (our : Bytes32) (first : FirstContact P.Key) (wire : Bytes) :
    Meets I A Anything (fun r _ => ∀ e, r = .error e → Refusal e →
        (∃ x, Messenger.splitWire wire = .error x) ∨ CandidateRefuses our first.session wire)
      (Messenger.promoteFirst i our first wire : Do P.toPlatform _) db := by
  have plain : ∀ {α : Type} {r : Except MessagingError α}, Takes r →
      ∀ e, r = .error e → Refusal e →
        (∃ x, Messenger.splitWire wire = .error x) ∨ CandidateRefuses our first.session wire :=
    fun h e he hr => (h e he hr).elim
  refine Meets.seq (requireResolved_takes i _)
    (fun e _ _ h => plain fun e' he => h e' (by cases he; rfl)) fun _ db₁ _ _ => ?_
  dsimp only
  split
  · exact fun _ => Sat.bind (Sat.throw (plain fun e he => by cases he; exact id))
  refine fun tr => Messenger.lift_sat (fun hc hw => ?_) fun x hx _ _ _ => .inl ⟨x, hx⟩
  refine Messenger.lift_sat (fun candidate hn => ?_) fun x hx _ _ _ => .inr (.inl ⟨x, hx⟩)
  refine Meets.seq (R := fun r _ => Takes r) (.draw fun _ _ _ _ => nofun)
    (fun e _ _ h => plain fun e' he => h e' (by cases he; rfl)) (fun fresh db₂ _ _ => ?_) tr
  refine fun tr => Messenger.lift_sat (fun staged _ => ?_) fun x hx _ _ _ =>
    .inr (.inr ⟨candidate, hc.1, hc.2, fresh, x, hn, hw, hx⟩)
  refine Messenger.lift_sat (fun provisional _ => ?_) fun x hx => plain fun e he => ?_
  · refine Messenger.lift_sat (fun side _ => ?_) fun x hx => plain fun e he => by cases he; exact id
    refine Meets.seq (R := fun r _ => ∃ x, r = .ok x ∧ ∀ e, x ≠ .error (.invalid e))
      (.attempt (promoteWith_fails _ _ _) fun r _ _ h => ⟨r, rfl, h⟩)
      (fun _ _ _ h => nomatch h.choose_spec.1) (fun r db₃ _ h => ?_) tr
    obtain ⟨x, hx, h⟩ := h
    obtain rfl := Except.ok.inj hx
    match r with
    | .ok _ => exact .pure (plain nofun)
    | .error .alreadyExists => exact (taken_takes _ _).mono fun r _ _ h => plain h
    | .error (.sideConflict 0 _) => exact (taken_takes _ _).mono fun r _ _ h => plain h
    | .error (.sideConflict (index + 1) conflict) =>
      dsimp only
      split
      · exact .throw (plain fun e he => by cases he; exact id)
      · exact .throw (plain fun e he => by cases he; exact id)
    | .error (.outcomeUnknown f) =>
      exact Meets.seq (R := fun r _ => r = .ok ()) (.remember fun _ _ _ => rfl)
        (fun _ _ _ h => nomatch h) fun _ _ _ _ => .throw (plain fun e he => by cases he; exact id)
    | .error (.invalid e) => exact absurd rfl (h e)
    | .error (.store e) => exact .throw (plain fun e he => by cases he; exact id)
    | .error (.notCommitted e) => exact .throw (plain fun e he => by cases he; exact id)
    | .error (.sideWrite e) => exact .throw (plain fun e he => by cases he; exact id)
    | .error .staleTransition => exact .throw (plain fun e he => by cases he; exact id)
  · obtain rfl := Except.error.inj he
    exact checkProvisional_takes hx

/-! ## The core -/

/-- What the failures of `receive` say that end a message for good. -/
structure ReceiveFails (since db : Db P.Key) (handle : UInt64) (wire : Bytes)
    (r : Except CoreError Received) : Prop where
  undecryptable : ∀ msg, r = .error (.crypto msg) → Undecryptable since db handle wire
  unanswerable : ∀ e, r = .error e → Answerless e → Unanswerable since db handle

theorem ReceiveFails.ok {since : Db P.Key} {handle : UInt64} {wire : Bytes} {d : Received} :
    ReceiveFails since db handle wire (.ok d) := ⟨nofun, nofun⟩

/-- An error after which a message is tried again. -/
structure Minor (e : CoreError) : Prop where
  crypto : ∀ msg, e ≠ .crypto msg
  answer : ¬ Answerless e

/-- Every error of this result is one after which a message is tried again. -/
def MinorOnly (r : Except CoreError α) : Prop := ∀ e, r = .error e → Minor e

theorem MinorOnly.error {e : CoreError} (h : MinorOnly (.error e : Except CoreError α)) :
    MinorOnly (.error e : Except CoreError β) := fun _ he => Except.error.inj he ▸ h e rfl

theorem Minor.fails {since : Db P.Key} {handle : UInt64} {wire : Bytes} {e : CoreError}
    (h : Minor e) : ReceiveFails since db handle wire (.error e) :=
  ⟨fun msg hm => absurd (Except.error.inj hm) (h.crypto msg),
    fun _ he ha => absurd (Except.error.inj he ▸ ha) h.answer⟩

theorem messaging_crypto {sessionId : UInt64} {e : MessagingError} {msg : String}
    (h : CoreError.messaging sessionId e = .crypto msg) : Refusal e := by
  cases e <;> trivial

theorem messaging_answerless {sessionId : UInt64} {e : MessagingError} :
    ¬ Answerless (CoreError.messaging sessionId e) := by
  cases e <;> exact id

theorem ReceiveFails.messaging {since : Db P.Key} {handle : UInt64} {wire : Bytes}
    {r : Except MessagingError Received}
    (h : ∀ e, r = .error e → Refusal e → Undecryptable since db handle wire) :
    ReceiveFails since db handle wire (r.mapError (CoreError.messaging handle)) := by
  cases r with
  | ok d => exact .ok
  | error e =>
    exact ⟨fun msg hm => h e rfl (messaging_crypto (Except.error.inj hm)), fun e' he ha =>
      absurd (Except.error.inj he ▸ ha) messaging_answerless⟩

theorem ReceiveFails.mono {since since' db' : Db P.Key} {handle : UInt64} {wire : Bytes}
    {r : Except CoreError Received} (h : ReceiveFails since db handle wire r) (hs : since'.Le since)
    (hle : db.Le db') : ReceiveFails since' db' handle wire r :=
  ⟨fun msg hm => (h.undecryptable msg hm).mono hs hle,
    fun e he ha => (h.unanswerable e he ha).mono hs hle⟩

theorem messaging_minor {handle : UInt64} {r : Except MessagingError α} (h : Takes r) :
    MinorOnly (r.mapError (CoreError.messaging handle)) := by
  intro e he
  cases r with
  | ok a => cases he
  | error x =>
    obtain rfl := Except.error.inj he
    exact ⟨fun msg hm => h x rfl (messaging_crypto hm), messaging_answerless⟩

theorem peerOf_minor (handle : UInt64) :
    Meets I A Anything (fun r _ => MinorOnly r)
      (Core.messenger handle (Messenger.peerOf handle) : Core P _) db :=
  messenger_meets ((find_takes (.handle handle)).mono fun _ _ _ h => messaging_minor h)

theorem checkAnswerable_error {record : PrekeyRecord} {handshake : InitiatorHandshake} {e : CoreError}
    (h : Core.checkAnswerable P record handshake = .error e) : ∀ msg, e ≠ .crypto msg := by
  rintro msg rfl
  unfold Core.checkAnswerable at h
  split at h
  · cases h
  · split at h
    · split at h <;> cases h
    · cases h
    · cases h
    · cases h

theorem receive_fails (i : Nat) (our : Bytes32) (handle : UInt64) (wire : Bytes) :
    Meets I A Anything (fun r db' => ReceiveFails db db' handle wire r)
      (Core.messenger handle (Messenger.receive i our handle wire) : Core P _) db :=
  messenger_meets ((receive_refuses i our handle wire).mono fun _ _ _ h => .messaging h)

theorem get_meets (k : Key) {R : Except CoreError (Row P.Key k) → Db P.Key → Prop}
    (hv : ∀ db' v, db.Le db' → db'.rows.lookup k = some v → R (.ok v) db')
    (hf : ∀ db' f, R (.error (.ofStorage f)) db') : Meets I A T R (Core.get k : Core P _) db := by
  refine Meets.seq (R := fun r db' => (∀ o, r = .ok o → db.Le db' ∧ db'.rows.lookup k = o) ∧
      ∀ e, r = .error e → ∃ f, e = .ofStorage f)
    (.find (fun db' hle _ => ⟨fun o ho => ⟨hle, Except.ok.inj ho⟩, nofun⟩)
      fun _ _ _ f _ => ⟨nofun, fun e he => ⟨f, (Except.error.inj he).symm⟩⟩) (fun e db' _ h => ?_)
    fun o db' _ h => ?_
  · obtain ⟨f, rfl⟩ := h.2 e rfl
    exact hf db' f
  · obtain ⟨hle, ho⟩ := h.1 o rfl
    cases o with
    | some v => exact .pure (hv db' v hle ho)
    | none => exact .throw (hf db' _)

theorem MinorOnly.bind {x : Except CoreError α} {f : α → Except CoreError β} (hx : MinorOnly x)
    (hf : ∀ a, MinorOnly (f a)) : MinorOnly (x >>= f) := by
  cases x with
  | ok a => exact hf a
  | error e => exact hx.error

theorem MinorOnly.ite {c : Prop} [Decidable c] {e : CoreError} {x : Except CoreError α}
    (he : Minor e) (hx : MinorOnly x) : MinorOnly (if c then .error e else x) := by
  split
  · exact fun _ h => Except.error.inj h ▸ he
  · exact hx

theorem pubkeyAt_minor (bytes : Bytes) (offset : Nat) : MinorOnly (pubkeyAt bytes offset) := by
  unfold pubkeyAt
  split
  · exact nofun
  · exact fun _ h => Except.error.inj h ▸ ⟨nofun, id⟩

theorem takeN_minor (n : Nat) (bytes : Bytes) : MinorOnly (takeN n bytes) := by
  unfold takeN
  split
  · exact nofun
  · exact fun _ h => Except.error.inj h ▸ ⟨nofun, id⟩

theorem unpackOpkId_minor (bytes : Bytes) (used : Bool) : MinorOnly (unpackOpkId bytes used) := by
  cases used with
  | true => exact nofun
  | false => exact .ite ⟨nofun, id⟩ nofun

/-- A handshake that is not one fails as such. -/
theorem unpackInitiatorHandshake_minor (bytes : Bytes) :
    MinorOnly (unpackInitiatorHandshake bytes) := by
  unfold unpackInitiatorHandshake
  dsimp only
  split
  · exact fun _ h => Except.error.inj h ▸ ⟨nofun, id⟩
  refine MinorOnly.bind (.ite ⟨nofun, id⟩ nofun) fun _ => ?_
  refine MinorOnly.bind (.ite ⟨nofun, id⟩ nofun) fun _ => ?_
  split
  · exact fun _ h => Except.error.inj h ▸ ⟨nofun, id⟩
  exact (pubkeyAt_minor _ _).bind fun _ => (pubkeyAt_minor _ _).bind fun _ =>
    (takeN_minor _ _).bind fun _ => (unpackOpkId_minor _ _).bind fun _ => nofun

theorem consume_minor (record : PrekeyRecord) :
    Meets I A T (fun r _ => MinorOnly r) (Core.consume record : Core P _) db := by
  unfold Core.consume
  split
  · exact .pure nofun
  · refine Meets.seq (R := fun r _ => MinorOnly r) ?_ (fun _ _ _ h => h.error) fun _ _ _ _ => .pure nofun
    refine Meets.seq (R := fun r _ => MinorOnly r) (.draw fun _ _ _ _ => nofun)
      (fun _ _ _ h => h.error) fun _ _ _ _ => ?_
    exact Meets.seq (R := fun r _ => MinorOnly r) (.draw fun _ _ _ _ => nofun)
      (fun _ _ _ h => h.error) fun _ _ _ _ => .pure nofun

theorem acceptFirstMessage_fails (i : Nat) {identity : Identity} {handle : UInt64}
    {provisional : ProvisionalHandshake} {wire : Bytes} {since : Db P.Key} (hs : since.Le db)
    (hi : db.Ever .identity identity)
    (hp : Within since db fun rows => rows.lookup (.provisional handle) = some provisional) :
    Meets I A Anything (fun r db' => ReceiveFails since db' handle wire r)
      (Core.acceptFirstMessage i identity handle provisional wire : Core P _) db := by
  refine lift_seq (fun handshake hh => ?_) fun e he =>
    (unpackInitiatorHandshake_minor _ e he).fails
  dsimp only
  split
  · exact fun _ => Sat.bind (Sat.throw (Minor.fails ⟨nofun, id⟩))
  refine (get_meets .prekeys (R := fun r db' => MinorOnly r ∧ ∀ record, r = .ok record →
      Recorded since db' handle provisional handshake record)
    (fun db' v hle hv => ⟨nofun, fun w hw => ?_⟩) fun db' f => ⟨fun e he => ?_, nofun⟩).seq
    (fun e _ _ h => (h.1 e rfl).fails) fun record db₁ h₁ h => ?_
  · obtain rfl := Except.ok.inj hw
    exact ⟨hp.mono (Db.Le.refl _) hle, hh, db', hs.trans hle, Db.Le.refl _, hv⟩
  · obtain rfl := Except.error.inj he
    exact ⟨nofun, id⟩
  have recorded := h.2 record rfl
  split
  · next refused hr =>
    refine (peerOf_minor handle).seq (fun e _ _ h => (h e rfl).fails) fun o db₂ h₂ _ => ?_
    cases o with
    | some p =>
      exact (receive_fails i _ handle wire).mono fun r _ _ h =>
        h.mono (hs.trans (h₁.trans h₂)) (Db.Le.refl _)
    | none =>
      refine .throw ⟨fun msg hm => ?_, fun e he ha => ?_⟩
      · obtain rfl := Except.error.inj hm
        exact (checkAnswerable_error hr msg rfl).elim
      · exact .refused provisional handshake record refused (recorded.mono (Db.Le.refl _) h₂) hr
  · next hans =>
    refine (consume_minor record).seq (fun e _ _ h => (h e rfl).fails) fun extra db₂ h₂ _ => ?_
    refine Meets.seq (R := fun r db' => ∃ r', r = .ok r' ∧
        ∀ e, r' = .error e → Refusal e → Undecryptable since db' handle wire)
      (.attempt (Meets.seq (promoteFirst_refuses i _ _ wire) (fun e db₃ h₃ h e' he hr => ?_)
        fun o db₃ h₃ _ => ?_) fun r _ _ h => ⟨r, rfl, h⟩) (fun _ _ _ h => nomatch h.choose_spec.1)
      fun r db₄ h₄ h => ?_
    · obtain rfl := Except.error.inj he
      rcases h e rfl hr with ⟨x, hx⟩ | h
      · exact .malformed x hx
      · exact .first identity provisional handshake record (hi.mono (h₁.trans (h₂.trans h₃)))
          (recorded.mono (Db.Le.refl _) (h₂.trans h₃)) h
    · cases o with
      | some d => exact .pure nofun
      | none =>
        exact (receive_refuses i _ handle wire).mono fun r _ _ h e he hr =>
          (h e he hr).mono (hs.trans (h₁.trans (h₂.trans h₃))) (Db.Le.refl _)
    · obtain ⟨r', hr, h⟩ := h
      obtain rfl := Except.ok.inj hr
      split
      · exact .pure .ok
      · refine .throw ⟨nofun, fun _ _ _ => ?_⟩
        exact .lost provisional handshake record (recorded.mono (Db.Le.refl _) (h₂.trans h₄)) hans
      · next e _ => exact .throw (ReceiveFails.messaging (r := .error e) fun x hx hr => h x hx hr)

theorem provisionalHandshake_minor (handle : UInt64) :
    Meets I A Anything (fun r db' => MinorOnly r ∧ ∀ p, r = .ok (some p) →
        db'.rows.lookup (.provisional handle) = some p)
      (Core.messenger handle (Messenger.provisionalHandshake handle) : Core P _) db := by
  refine messenger_meets ((Meets.and (R := fun r _ => Takes r) ?_ (.of_sat (T := Anything) (A := A)
    (fun _ => Messenger.provisionalHandshake_sat handle) fun _ _ _ _ h => h.2)).mono
    fun r _ _ h => ⟨messaging_minor h.1, fun p hp => ?_⟩)
  · refine Meets.seq (find_takes _) (fun e _ _ h e' he => h e' (by cases he; rfl)) fun o _ _ _ => ?_
    cases o with
    | none => exact .pure nofun
    | some p =>
      refine fun tr => Messenger.lift_sat (fun _ _ => Sat.pure nofun) fun x hx e he => ?_
      obtain rfl := Except.error.inj he
      exact checkProvisional_takes hx
  · cases r with
    | ok a =>
      obtain rfl := Except.ok.inj hp
      exact h.2 p rfl
    | error x => cases hp

theorem requireIdentity_minor :
    Meets I A T (fun r db' => MinorOnly r ∧ ∀ identity, r = .ok identity → db'.Ever .identity identity)
      (Core.requireIdentity : Core P _) db := by
  refine Meets.seq (R := fun r db' => MinorOnly r ∧ ∀ identity, r = .ok (some identity) →
      db'.Ever .identity identity)
    (.find (fun db' _ _ => ⟨nofun, fun identity h => Db.ever_now (Except.ok.inj h)⟩)
      fun _ _ _ f _ => ⟨fun e he => ?_, nofun⟩) (fun e _ _ h => ⟨h.1.error, nofun⟩) fun o _ _ h => ?_
  · obtain rfl := Except.error.inj he
    cases f <;> exact ⟨nofun, id⟩
  · cases o with
    | some identity => exact .pure ⟨nofun, fun _ he => Except.ok.inj he ▸ h.2 identity rfl⟩
    | none =>
      exact .throw ⟨fun e he => Except.error.inj he ▸ ⟨nofun, id⟩, nofun⟩

theorem receiveCommitted_fails (i : Nat) (handle : UInt64) (wire : Bytes) :
    Meets I A Anything (fun r db' => ReceiveFails db db' handle wire r)
      (Core.receiveCommitted i handle wire : Core P _) db := by
  refine requireIdentity_minor.seq (fun e _ _ h => (h.1 e rfl).fails) fun identity db₁ h₁ hi => ?_
  refine (peerOf_minor handle).seq (fun e _ _ h => (h e rfl).fails) fun o db₂ h₂ _ => ?_
  cases o with
  | some p =>
    exact (receive_fails i _ handle wire).mono fun r _ _ h => h.mono (h₁.trans h₂) (Db.Le.refl _)
  | none =>
    refine (provisionalHandshake_minor handle).seq (fun e _ _ h => (h.1 e rfl).fails)
      fun o db₃ h₃ hp => ?_
    have hle := h₁.trans (h₂.trans h₃)
    cases o with
    | some p =>
      exact acceptFirstMessage_fails i hle ((hi.2 identity rfl).mono (h₂.trans h₃))
        ⟨db₃, hle, Db.Le.refl _, hp.2 p rfl⟩
    | none =>
      exact (receive_fails i _ handle wire).mono fun r _ _ h => h.mono hle (Db.Le.refl _)

end Network

end Arcium
