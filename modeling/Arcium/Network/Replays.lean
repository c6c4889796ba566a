import Arcium.Network.Delivered
import Arcium.Network.Refusals
import Arcium.Protocol.Alone

/-!
# A message that comes again

The plaintext of an accepted message is erased with its inbox record, so `receipt_again` does not know
whether a message that comes again was a text or a receipt: it answers both. What a replay leaves
unchanged is said by the receipt for the message, not by the message:

* `Answered`: the message was accepted, and a receipt for it was committed that is still in the
  outbox, was given up, or has its successor of the current minute.
* `replay_unchanged`: processing a message again changes no record as long as it is answered.
* `replay_answered`: a receipt that comes again is answered with a receipt.
-/

namespace Arcium

open Conc

/-! ## What a program does to the database when it runs alone -/

section Solo

variable {K M err α : Type} {C : Choice → Prop} {s : Device K M}

/-- A program that writes nothing. -/
theorem Solo.of_meets {R : Except err α → Db K → Prop} {p : Run K M err α}
    (h : Meets (· = s.db) (fun _ _ => True) (fun _ _ => False) R p s.db) :
    Solo C p s fun r s' => s'.db = s.db ∧ R r s.db := Solo.of_quiet (h [])

end Solo

namespace Messenger

variable {P : Platform} {C : Choice → Prop} {s : Device P.Key Memory} {peer : Peer}
  {handle : UInt64} {our : Bytes32}

theorem receivePeer_solo (i : Nat) (wire : Bytes)
    (hp : s.db.rows.lookup (.handle handle) = some peer) :
    Solo C (receivePeer i handle wire : Do P _) s fun r s' =>
      s'.db = s.db ∧ ∀ x, r = .ok x → x.1 = peer := by
  refine (solo_of_look (receivePeer_sat i handle wire)).mono fun r s' h => ⟨h.1, fun x hx => ?_⟩
  exact Option.some.inj ((h.2 _ _ _ hx).2.symm.trans hp)

theorem receiveAs_solo (i : Nat) {wire : Bytes} {header : Header} {ciphertext : Bytes}
    (ha : Accepted s.db.rows peer (messageId P wire)) :
    Solo C (receiveAs i our handle wire (peer, header, ciphertext) : Do P _) s fun r s' =>
      s'.db = s.db ∧ ∀ d, r = .ok d → ∃ u, d = .duplicate (messageId P wire) u := by
  refine Solo.seq (solo_of_look (loadFor_sat handle peer)) (fun e s' h => ⟨h.1, nofun⟩)
    fun session s₁ h₁ => ?_
  refine Solo.seq (solo_of_look (readDuplicate_sat peer (messageId P wire)))
    (fun e s' h => ⟨h.1.trans h₁.1, nofun⟩) fun d s₂ h₂ => ?_
  have hdb := h₂.1.trans h₁.1
  have duplicate : ∀ u, Solo C (pure (Received.duplicate (messageId P wire) u) : Do P _) s₂
      fun r s' => s'.db = s.db ∧ ∀ d, r = .ok d → ∃ u, d = Received.duplicate (messageId P wire) u :=
    fun u =>
    .pure ⟨hdb, fun _ hd => ⟨u, (Except.ok.inj hd).symm⟩⟩
  cases h₂.2 with
  | undelivered m db₁ le le' inbox hid => exact duplicate _
  | delivered db₁ le le' inbox seen => exact duplicate _
  | new db₁ le le' inbox seen =>
    obtain rfl := le.antisymm le'
    rw [h₁.1] at inbox seen
    rcases ha with ha | ha
    · rw [inbox] at ha
      cases ha
    · rw [seen] at ha
      cases ha

/-- **A message that was accepted** is a duplicate. -/
theorem receive_solo (i : Nat) {wire : Bytes} (hp : s.db.rows.lookup (.handle handle) = some peer)
    (ha : Accepted s.db.rows peer (messageId P wire)) :
    Solo C (receive i our handle wire : Do P _) s fun r s' =>
      s'.db = s.db ∧ ∀ d, r = .ok d → ∃ u, d = .duplicate (messageId P wire) u := by
  refine Solo.seq (receivePeer_solo i wire hp) (fun e s' h => ⟨h.1, nofun⟩) fun x s₁ h₁ => ?_
  obtain ⟨q, header, ciphertext⟩ := x
  obtain rfl := h₁.2 _ rfl
  refine (receiveAs_solo i (by rw [h₁.1]; exact ha)).mono fun r s' h => ⟨h.1.trans h₁.1, h.2⟩

/-- What a send leaves of the database: a logical message that was sent is not sent again. -/
structure SendLeaves (db : Db P.Key) (peer : Peer) (clientId : Bytes) {err : Type}
    (r : Except err SendOutcome) (s' : Device P.Key Memory) : Prop where
  again : statusAt db.rows peer clientId ≠ .new → s'.db = db
  said : ∀ o, r = .ok o → (s'.db = db ∧ statusAt db.rows peer clientId = statusOf (some o)) ∨
    (s'.db ≠ db ∧ ∃ m, o = .sent m)

theorem SendLeaves.error {db : Db P.Key} {clientId : Bytes} {err : Type} {e : err}
    {s' : Device P.Key Memory} (h : s'.db = db) : SendLeaves db peer clientId (.error e) s' :=
  ⟨fun _ => h, nofun⟩

theorem SendLeaves.mapError {db : Db P.Key} {clientId : Bytes} {err err' : Type} {g : err → err'}
    {r : Except err SendOutcome} {s' : Device P.Key Memory} (h : SendLeaves db peer clientId r s') :
    SendLeaves db peer clientId (r.mapError g) s' := by
  refine ⟨h.again, fun o ho => ?_⟩
  cases r with
  | ok o' => exact h.said o (congrArg _ (Except.ok.inj ho))
  | error e => cases ho

theorem statusOf_ne_new (o : SendOutcome) : statusOf (some o) ≠ .new := by
  cases o <;> nofun

theorem sendAs_leaves (i : Nat) {clientId plaintext : Bytes}
    (hn : ∃ db₀ : Db P.Key, db₀.Le s.db ∧ db₀.rows.lookup (.handle handle) = some peer)
    (hid : clientId ≠ [] ∧ clientId.length ≤ maxClientMessageIdLen) :
    Solo C (sendAs i our handle clientId plaintext peer : Do P _) s
      (SendLeaves s.db peer clientId) := by
  intro r s' ha
  obtain ⟨_, h, hquiet⟩ := Sat.alone (A := fun _ _ => True) (sendAs_sat hn hid) ha
  refine ⟨fun hs => ?_, fun o ho => ?_⟩
  · refine (Solo.seq (S := fun _ s' => s'.db = s.db) (solo_of_look (readPriorSend_sat peer clientId))
      (fun e s' h => h.1) fun o s₁ h₁ => ?_) r s' ha
    cases h₁.2 with
    | prior o h => exact .pure h₁.1
    | none h => exact (hs (statusAt_new h)).elim
  · subst ho
    cases h with
    | prior looked db₁ le le' o h hr =>
      cases hr
      have hdb := hquiet (looked.quiet quiet_nil)
      rw [hdb] at le'
      exact .inl ⟨hdb, (le.antisymm le') ▸ h.status⟩
    | unread looked db₁ le le' e h hr => cases hr
    | refused looked db₁ le le' new e hr => cases hr
    | wrote db₁ rows q old new m le step le' hr =>
      refine .inr ⟨fun hdb => Db.not_push_le ((hdb ▸ le').trans le), m, ?_⟩
      rcases hr with hr | ⟨e, hr⟩
      · exact Except.ok.inj hr
      · cases hr

theorem send_leaves (i : Nat) {clientId plaintext : Bytes}
    (hp : s.db.rows.lookup (.handle handle) = some peer) :
    Solo C (send i our handle clientId plaintext : Do P _) s
      (SendLeaves s.db peer clientId) := by
  refine Solo.seq (solo_of_look (sendPeer_sat i handle clientId)) (fun e s' h => .error h.1)
    fun q s₁ h₁ => ?_
  obtain ⟨hid, hq⟩ := h₁.2 q rfl
  obtain rfl : q = peer := Option.some.inj (hq.symm.trans hp)
  rw [← h₁.1]
  exact sendAs_leaves i ⟨s₁.db, Db.Le.refl _, h₁.1 ▸ hp⟩ hid

end Messenger

/-! ## The core -/

namespace Network

variable {P : AppPlatform} {C : Choice → Prop} {s : Device P.Key Memory} {peer sender : Peer}
  {handle : UInt64}

theorem messenger_solo {α : Type} {x : Do P.toPlatform α}
    {Q : Except CoreError α → Device P.Key Memory → Prop}
    (h : Solo C x s fun r s' => Q (r.mapError (CoreError.messaging handle)) s') :
    Solo C (Core.messenger handle x) s Q := Solo.mapError h

theorem sendCommitted_leaves (i : Nat) {clientId plaintext : Bytes}
    (hp : s.db.rows.lookup (.handle handle) = some peer) :
    Solo C (Core.sendCommitted i handle clientId plaintext : Core P _) s
      (Messenger.SendLeaves (P := P.toPlatform) s.db peer clientId) := by
  refine Solo.seq (Solo.of_meets ourIdentityPk_gives) (fun e s' h => .error h.1) fun our s₁ h₁ => ?_
  rw [← h₁.1] at hp ⊢
  exact messenger_solo ((Messenger.send_leaves i hp).mono fun _ _ h => h.mapError)

theorem receiveCommitted_solo (i : Nat) {wire : Bytes}
    (hp : s.db.rows.lookup (.handle handle) = some peer)
    (ha : Messenger.Accepted (P := P.toPlatform) s.db.rows peer
      (Messenger.messageId P.toPlatform wire)) :
    Solo C (Core.receiveCommitted i handle wire : Core P _) s fun r s' =>
      s'.db = s.db ∧
      (∀ d, r = .ok d → ∃ u, d = .duplicate (Messenger.messageId P.toPlatform wire) u) ∧
      ∀ e, r = .error e → ¬ Answerless e := by
  refine Solo.seq (Solo.of_meets requireIdentity_minor)
    (fun e s' h => ⟨h.1, nofun, fun e' he => (h.2.1 e' (by cases he; rfl)).answer⟩)
    fun identity s₁ h₁ => ?_
  refine Solo.seq (messenger_solo (Q := fun r s' => s'.db = s.db ∧
      (∀ o, r = .ok o → o = some peer) ∧ ∀ e, r = .error e → ¬ Answerless e) ?_)
    (fun e s' h => ⟨h.1, nofun, fun e' he => h.2.2 e' (by cases he; rfl)⟩) fun o s₂ h₂ => ?_
  · refine (Messenger.solo_of_look (Messenger.peerOf_sat handle)).mono
      fun r s' h => ⟨h.1.trans h₁.1, fun o ho => ?_, fun e he => ?_⟩
    · cases r with
      | ok o' =>
        obtain rfl := Except.ok.inj ho
        exact (h.2 _ rfl).symm.trans (h₁.1 ▸ hp)
      | error x => cases ho
    · cases r with
      | ok o' => cases he
      | error x => exact Except.error.inj he ▸ messaging_answerless
  · obtain rfl := h₂.2.1 o rfl
    rw [← h₂.1] at hp ha
    refine messenger_solo ((Messenger.receive_solo i hp ha).mono fun r s' h =>
      ⟨h.1.trans h₂.1, fun d hd => ?_, fun e he => ?_⟩)
    · cases r with
      | ok d' => exact h.2 _ (congrArg _ (Except.ok.inj hd))
      | error x => cases hd
    · cases r with
      | ok d' => cases he
      | error x => exact Except.error.inj he ▸ messaging_answerless

/-! ## The receipt -/

/-- The clock reads this minute. -/
def InMinute (minute : UInt64) (e : Choice) : Prop := e.now / 60000 = minute

/-- The receipts that are due in this minute for a message of `peer` were committed: the first, and
the one of the minute if the first left the outbox. -/
structure Answered (rows : Rows P.Key) (peer : Peer) (id : MessageId) (minute : UInt64) : Prop where
  first : Messenger.statusAt (P := P.toPlatform) rows peer (ClientId.receipt id 0) ≠ .new
  next : Messenger.statusAt (P := P.toPlatform) rows peer (ClientId.receipt id 0) = .acknowledged →
    Messenger.statusAt (P := P.toPlatform) rows peer (ClientId.receipt id (minute + 1)) ≠ .new

theorem Answered.of_pending {rows : Rows P.Key} {id : MessageId} {minute : UInt64}
    (h : Messenger.statusAt (P := P.toPlatform) rows peer (ClientId.receipt id 0) = .pending) :
    Answered rows peer id minute := by
  refine ⟨?_, fun ha => ?_⟩
  · rw [h]
    decide
  · rw [h] at ha
    cases ha

/-- What a program leaves of the database that answers a message. -/
structure AnswerLeaves {α : Type} (done : α → Prop) (db : Db P.Key) (peer : Peer) (id : MessageId)
    (minute : UInt64) (r : Except CoreError α) (s' : Device P.Key Memory) : Prop where
  again : Answered db.rows peer id minute → s'.db = db
  answered : ∀ a, r = .ok a → done a → s'.db = db → Answered db.rows peer id minute

theorem receiptAgain_leaves (i : Nat) {id : MessageId} {minute : UInt64}
    (hp : s.db.rows.lookup (.handle handle) = some peer) :
    Solo (InMinute minute) (receiptAgain i handle id : Core P _) s
      (AnswerLeaves (fun _ => True) s.db peer id minute) := by
  refine Solo.seq (sendCommitted_leaves i hp)
    (fun e s' h => ⟨fun ha => h.again ha.first, nofun⟩) fun o s₁ h₁ => ?_
  have stands : (∀ id', o ≠ .alreadyAcknowledged id') →
      AnswerLeaves (fun _ => True) s.db peer id minute (.ok ()) s₁ := by
    intro hne
    refine ⟨fun ha => h₁.again ha.first, fun _ _ _ hdb => ?_⟩
    rcases h₁.said o rfl with ⟨-, hs⟩ | ⟨h, -⟩
    · refine ⟨hs ▸ Messenger.statusOf_ne_new o, fun h => ?_⟩
      rw [hs] at h
      cases o with
      | alreadyAcknowledged id' => exact (hne id' rfl).elim
      | _ => cases h
    · exact (h hdb).elim
  cases o with
  | alreadyAcknowledged id' =>
    -- The receipt left the outbox: the one of the minute is sent, if it was not yet.
    rcases h₁.said _ rfl with ⟨hdb, hs⟩ | ⟨-, m, h⟩
    · refine Solo.seq (Q := fun r s' => s'.db = s.db ∧ ∀ now, r = .ok now → now / 60000 = minute)
        (Solo.look fun e he => ⟨hdb, fun now hn => Except.ok.inj hn ▸ he⟩)
        (fun e s' h => ⟨fun _ => h.1, nofun⟩) fun now s₂ h₂ => ?_
      obtain rfl := h₂.2 now rfl
      rw [← h₂.1] at hp
      refine Solo.seq (sendCommitted_leaves i hp) (fun e s' h => ?_) fun o s₃ h₃ => ?_
      · rw [h₂.1] at h
        exact ⟨fun ha => h.again (ha.next hs), nofun⟩
      · rw [h₂.1] at h₃
        refine .pure ⟨fun ha => h₃.again (ha.next hs), fun _ _ _ hdb => ⟨?_, fun _ => ?_⟩⟩
        · rw [hs]
          exact Messenger.statusOf_ne_new _
        · rcases h₃.said o rfl with ⟨-, hs'⟩ | ⟨h, -⟩
          · rw [hs']
            exact Messenger.statusOf_ne_new o
          · exact (h hdb).elim
    · cases h
  | sent m => exact .pure (stands nofun)
  | alreadyPending m => exact .pure (stands nofun)
  | abandoned id' => exact .pure (stands nofun)

/-! ## The round -/

/-- `Solo` of a part of a round, whatever its report says. -/
def SoloRound {α : Type} (C : Choice → Prop) (x : Round P α) (s : Device P.Key Memory)
    (Q : Except CoreError α → Device P.Key Memory → Prop) : Prop :=
  ∀ report r s', Prog.Alone C (x.run.run report) s r s' → Q r.1 s'

namespace SoloRound

variable {α β : Type} {Q : Except CoreError α → Device P.Key Memory → Prop}
  {S : Except CoreError β → Device P.Key Memory → Prop} {x : Round P α}

theorem pure {a : α} (h : Q (.ok a) s) : SoloRound C (pure a : Round P α) s Q := by
  intro report r s' ha
  cases ha with
  | ret => exact h

theorem throw {e : CoreError} (h : Q (.error e) s) : SoloRound C (throw e : Round P α) s Q := by
  intro report r s' ha
  cases ha with
  | ret => exact h

theorem tally {g : SyncReport → SyncReport} {Q : Except CoreError Unit → Device P.Key Memory → Prop}
    (h : Q (.ok ()) s) : SoloRound C (Round.tally g : Round P Unit) s Q := by
  intro report r s' ha
  cases ha with
  | ret => exact h

theorem core {p : Core P α} (h : Solo C p s Q) : SoloRound C (Round.core p) s Q := by
  intro report r s' ha
  obtain ⟨r₁, s₁, h1, h2⟩ := Prog.Alone.of_bind ha
  cases h2 with
  | ret => exact h _ _ h1

theorem seq {f : α → Round P β} (hx : SoloRound C x s Q)
    (he : ∀ e s', Q (.error e) s' → S (.error e) s')
    (hf : ∀ a s', Q (.ok a) s' → SoloRound C (f a) s' S) : SoloRound C (x >>= f) s S := by
  intro report r s' ha
  obtain ⟨⟨r₁, report₁⟩, s₁, h1, h2⟩ := Prog.Alone.of_bind ha
  cases r₁ with
  | ok a => exact hf a s₁ (hx _ _ _ h1) _ r s' h2
  | error e =>
    cases h2 with
    | ret => exact he e _ (hx _ _ _ h1)

theorem attempt {p : Core P α}
    {S : Except CoreError (Except CoreError α) → Device P.Key Memory → Prop} (h : Solo C p s Q)
    (hS : ∀ r s', Q r s' → S (.ok r) s')
    (hp : ∀ msg s', Q (.error (.panic msg)) s' → S (.error (.panic msg)) s') :
    SoloRound C (Round.attempt p) s S := by
  refine seq (Q := fun r s' => ∃ r', r = .ok r' ∧ Q r' s')
    (core (Solo.attempt (h.mono fun r s' hq => ⟨r, rfl, hq⟩))) ?_ ?_
  · rintro e s' ⟨_, h, -⟩
    cases h
  · rintro r s' ⟨r', h, hq⟩
    obtain rfl := Except.ok.inj h
    split
    · exact .throw (hp _ _ hq)
    · exact .pure (hS _ _ hq)

end SoloRound

theorem AnswerLeaves.other {db : Db P.Key} {id : MessageId} {minute : UInt64} {fate : Fate}
    {s' : Device P.Key Memory} (h : s'.db = db) (hne : fate ≠ .delete .duplicate) :
    AnswerLeaves (· = Fate.delete .duplicate) db peer id minute (.ok fate) s' :=
  ⟨fun _ => h, fun _ hf hd => (hne ((Except.ok.inj hf).trans hd)).elim⟩

theorem AnswerLeaves.failed {α : Type} {done : α → Prop} {db : Db P.Key} {id : MessageId}
    {minute : UInt64} {e : CoreError} {s' : Device P.Key Memory} (h : s'.db = db) :
    AnswerLeaves done db peer id minute (.error e) s' := ⟨fun _ => h, nofun⟩

/-- What processing a message leaves of the database that was accepted from `peer`. -/
theorem process_leaves (i : Nat) {wire : Bytes} {minute : UInt64}
    (hp : s.db.rows.lookup (.handle (localSessionHandle P sender)) = some peer)
    (ha : Messenger.Accepted (P := P.toPlatform) s.db.rows peer
      (Messenger.messageId P.toPlatform wire)) :
    SoloRound (InMinute minute) (process i (.message sender wire) : Round P Fate) s
      (AnswerLeaves (· = Fate.delete .duplicate) s.db peer (Messenger.messageId P.toPlatform wire)
        minute) := by
  have tallied : ∀ {s₁ : Device P.Key Memory} (f : SyncReport → SyncReport) (fate : Fate),
      s₁.db = s.db → fate ≠ .delete .duplicate →
      SoloRound (InMinute minute) (do Round.tally f; return fate : Round P Fate) s₁
        (AnswerLeaves (· = Fate.delete .duplicate) s.db peer
          (Messenger.messageId P.toPlatform wire) minute) :=
    fun f fate h hne => SoloRound.seq (Q := fun _ s' => s'.db = s.db) (.tally h) (fun _ _ => .failed)
      fun _ _ h => .pure (.other h hne)
  refine SoloRound.seq (Q := fun _ s' => s'.db = s.db)
    (.core ((Solo.of_meets (pinned_runs sender)).mono fun _ _ h => h.1)) (fun _ _ => .failed)
    fun card s₁ h₁ => ?_
  cases card with
  | none => exact tallied _ _ h₁ nofun
  | some card =>
  refine SoloRound.seq (Q := fun _ s' => s'.db = s.db)
    (.core ((Solo.of_meets (hasSession_runs _)).mono fun _ _ h => h.1.trans h₁)) (fun _ _ => .failed)
    fun found s₂ h₂ => ?_
  rw [← h₂] at hp ha
  refine SoloRound.seq (Q := fun r s' => s'.db = s.db ∧ ∀ r', r = .ok r' →
      (∀ d, r' = .ok d → ∃ u, d = .duplicate (Messenger.messageId P.toPlatform wire) u) ∧
      ∀ e, r' = .error e → ¬ Answerless e)
    (.attempt (receiveCommitted_solo i hp ha)
      (fun r s' h => ⟨h.1.trans h₂, fun r' hr => Except.ok.inj hr ▸ h.2⟩)
      fun _ _ h => ⟨h.1.trans h₂, nofun⟩) (fun e s' h => .failed h.1) fun r s₃ h₃ => ?_
  obtain ⟨hdb, h₃⟩ := h₃
  obtain ⟨hd, he⟩ := h₃ r rfl
  rw [h₂] at hp
  cases r with
  | ok d =>
    obtain ⟨u, rfl⟩ := hd d rfl
    refine SoloRound.seq (Q := fun _ s' => s'.db = s.db) (.tally hdb) (fun _ _ => .failed)
      fun _ s₄ h₄ => ?_
    rw [← h₄] at hp
    refine SoloRound.seq (.core (receiptAgain_leaves i hp)) (fun e s' h => ?_) fun _ s₅ h₅ => ?_
    · rw [h₄] at h
      exact ⟨h.again, nofun⟩
    · rw [h₄] at h₅
      exact .pure ⟨h₅.again, fun _ _ _ => h₅.answered () rfl trivial⟩
  | error e =>
    cases e with
    | noSession => exact .pure (.other hdb nofun)
    | crypto => exact tallied _ _ hdb nofun
    | staleSignedPrekey => exact (he _ rfl trivial).elim
    | oneTimePrekeyUnavailable => exact (he _ rfl trivial).elim
    | oneTimePrekeyRequired => exact (he _ rfl trivial).elim
    | sessionUnresolved =>
      exact SoloRound.seq (Q := fun _ s' => s'.db = s.db)
        (.core ((Solo.of_meets (recoverSession_runs i _)).mono fun _ _ h => h.1.trans hdb))
        (fun _ _ => .failed) fun _ _ h => .pure (.other h nofun)
    | _ => exact tallied _ _ hdb nofun

/-- The message comes again: it was accepted on the session of its sender's handle, and is processed
with nothing in between. -/
structure Again (sender : Peer) (wire : Bytes) (peer : Peer) (minute : UInt64)
    (r : Except CoreError Fate) (s s' : Device P.Key Memory) : Prop where
  named : s.db.rows.lookup (.handle (localSessionHandle P sender)) = some peer
  accepted : Messenger.Accepted (P := P.toPlatform) s.db.rows peer
    (Messenger.messageId P.toPlatform wire)
  run : ∃ i report report', Prog.Alone (InMinute minute)
    ((process i (.message sender wire) : Round P Fate).run.run report) s (r, report') s'

/-- The message comes again while the receipts that are due for it are committed. -/
def AgainAnswered (sender : Peer) (wire : Bytes) (s s' : Device P.Key Memory) : Prop :=
  ∃ peer minute r, Again sender wire peer minute r s s' ∧
    Answered s.db.rows peer (Messenger.messageId P.toPlatform wire) minute

/-- **Replays change nothing** as long as the message is answered: any number of times, in any state.
When processing it ends as a duplicate, nothing else keeps the records from changing. -/
theorem replay_unchanged (sender : Peer) (wire : Bytes) :
    (∀ s s' : Device P.Key Memory, Relation.ReflTransGen (AgainAnswered sender wire) s s' →
      s'.db = s.db) ∧
    ∀ (peer : Peer) (minute : UInt64) (s s' : Device P.Key Memory),
      Again sender wire peer minute (.ok (.delete .duplicate)) s s' →
      (s'.db = s.db ↔ Answered s.db.rows peer (Messenger.messageId P.toPlatform wire) minute) := by
  refine ⟨fun s s' h => ?_, fun peer minute s s' h => ?_⟩
  · induction h with
    | refl => rfl
    | tail hs hstep ih =>
      obtain ⟨peer, minute, r, h, ha⟩ := hstep
      obtain ⟨i, report, report', hr⟩ := h.run
      exact ((process_leaves i h.named h.accepted _ _ _ hr).again ha).trans ih
  · obtain ⟨i, report, report', hr⟩ := h.run
    have hl := process_leaves i h.named h.accepted _ _ _ hr
    exact ⟨hl.answered _ rfl rfl, hl.again⟩

/-! ## A receipt that comes again -/

namespace ReplayRun

/-- The accepted messages. -/
def inboxView {K : Type} : (k : Key) → Row K k → Option (Peer × MessageId × IncomingMessage)
  | .inbox p id, m => some (p, id, m)
  | _, _ => none

theorem mem_inbox {db : Db P.Key} {id : MessageId} {m : IncomingMessage}
    (h : (peer, id, m) ∈ db.select inboxView) : db.Ever (.inbox peer id) m := by
  obtain ⟨k, v, hl, hv⟩ := Db.mem_select.mp h
  cases k <;> cases hv
  exact hl

/-- The message of an envelope. -/
def wireIn (envelope : Bytes) : Option Bytes :=
  match Envelope.decode envelope with
  | some (.message _ wire) => some wire
  | _ => none

def isReceipt : Option Payload → Bool
  | some (.receipt _) => true
  | _ => false

def draws : List Choice :=
  (List.range 20).map fun n => { secret := fill (UInt8.ofNat (30 + n)), id := UInt64.ofNat (200 + n) }

/-- Process the message. -/
def again (wire : Bytes) (s : Device symbolicApp.Key Memory) :
    Option (Device symbolicApp.Key Memory) :=
  (System.exec ((process 0 (.message (fill 3) wire) : Round symbolicApp Fate).run.run {})
    draws s []).bind fun x => if x.1.1 = .ok (.delete .duplicate) then some x.2.2 else none

/-- The peer's receipt was processed, and comes again, twice. -/
def run : Option (Bytes × DeviceConfig symbolicApp × Device symbolicApp.Key Memory ×
    Device symbolicApp.Key Memory) :=
  ((TextRun.sent.bind TextRun.reply).bind wireIn).bind fun wire => TextRun.run.bind fun c =>
    (again wire c.shared).bind fun s => (again wire s).map fun s' => (wire, c, s, s')

/-- The peer of the sender's handle. -/
def named (s : Device symbolicApp.Key Memory) : Option Peer :=
  s.db.rows.lookup (Key.handle (localSessionHandle symbolicApp (fill 3)))

/-- The message is among the seen ones. -/
def seen (s : Device symbolicApp.Key Memory) (wire : Bytes) : Option MessageId :=
  s.db.rows.lookup (Key.seen (fill 3) (Messenger.messageId symbolicApp.toPlatform wire))

/-- What became of the receipt for the message. -/
def status (s : Device symbolicApp.Key Memory) (wire : Bytes) : Messenger.Status :=
  Messenger.statusAt (P := symbolicApp.toPlatform) s.db.rows (fill 3)
    (ClientId.receipt (Messenger.messageId symbolicApp.toPlatform wire) 0)

theorem run_facts : run.map (fun x => decide (
    (∃ m ∈ x.2.1.shared.db.select inboxView, m.1 = fill 3 ∧
      m.2.1 = Messenger.messageId symbolicApp.toPlatform x.1 ∧
      isReceipt (Payload.decode m.2.2.plaintext)) ∧
    named x.2.1.shared = some (fill 3) ∧ (seen x.2.1.shared x.1).isSome ∧
     status x.2.1.shared x.1 = .new ∧
    named x.2.2.1 = some (fill 3) ∧ (seen x.2.2.1 x.1).isSome ∧
     status x.2.2.1 x.1 = .pending)) = some true := by decide +kernel

theorem again_run {s s' : Device symbolicApp.Key Memory} {wire : Bytes} (h : again wire s = some s')
    (hn : named s = some (fill 3)) (hs : (seen s wire).isSome) :
    Again (fill 3) wire (fill 3) 0 (.ok (.delete .duplicate)) s s' := by
  unfold again at h
  obtain ⟨x, hx, h⟩ := Option.bind_eq_some_iff.mp h
  split at h
  · next hr =>
    cases h
    refine ⟨hn, .inr hs, 0, {}, x.1.2, ?_⟩
    have ha := System.alone_of_exec (C := InMinute 0) (fun e he => ?_) hx
    · rw [show x.1 = (.ok (.delete .duplicate), x.1.2) from Prod.ext hr rfl] at ha
      exact ha
    · obtain ⟨n, -, rfl⟩ := List.mem_map.mp he
      exact (by decide : (0 : UInt64) / 60000 = 0)
  · cases h

/-- What the run says. -/
structure Facts (c : DeviceConfig symbolicApp) (wire : Bytes) (s s' : Device symbolicApp.Key Memory) :
    Prop where
  reachable : Reachable TextRun.anything c
  payload : ∃ m ids,
    c.shared.db.Ever (.inbox (fill 3) (Messenger.messageId symbolicApp.toPlatform wire)) m ∧
    Payload.decode m.plaintext = some (.receipt ids)
  once : Again (fill 3) wire (fill 3) 0 (.ok (.delete .duplicate)) c.shared s
  twice : Again (fill 3) wire (fill 3) 0 (.ok (.delete .duplicate)) s s'
  before : status c.shared wire = .new
  after : status s wire = .pending

theorem facts : ∃ c wire s s', Facts c wire s s' := by
  obtain ⟨⟨wire, c, s, s'⟩, hrun, hfacts⟩ := Option.map_eq_some_iff.mp run_facts
  obtain ⟨⟨⟨p, id, m⟩, hm, rfl, rfl, hr⟩, hn, hs, hst, hn', hs', hst'⟩ := of_decide_eq_true hfacts
  unfold run at hrun
  obtain ⟨_, -, hrun⟩ := Option.bind_eq_some_iff.mp hrun
  obtain ⟨_, hc, hrun⟩ := Option.bind_eq_some_iff.mp hrun
  obtain ⟨_, h, hrun⟩ := Option.bind_eq_some_iff.mp hrun
  obtain ⟨_, h', hrun⟩ := Option.map_eq_some_iff.mp hrun
  cases hrun
  refine ⟨c, wire, s, s', TextRun.reachable hc, ⟨m, ?_⟩, again_run h hn hs, again_run h' hn' hs',
    hst, hst'⟩
  cases hd : Payload.decode m.plaintext with
  | none => rw [hd] at hr; cases hr
  | some payload =>
    rw [hd] at hr
    cases payload with
    | receipt ids => exact ⟨ids, mem_inbox hm, rfl⟩
    | text text => cases hr
    | opener => cases hr

end ReplayRun

/-- **A receipt that comes again is answered with a receipt**: it is a new message in the outbox. -/
theorem replay_answered : ∃ (c : DeviceConfig symbolicApp) (wire : Bytes) (m : IncomingMessage)
    (ids : List MessageId) (s' : Device symbolicApp.Key Memory),
    Reachable TextRun.anything c ∧
    c.shared.db.Ever (.inbox (fill 3) (Messenger.messageId symbolicApp.toPlatform wire)) m ∧
    Payload.decode m.plaintext = some (.receipt ids) ∧
    Again (fill 3) wire (fill 3) 0 (.ok (.delete .duplicate)) c.shared s' ∧
    ReplayRun.status c.shared wire = .new ∧ ReplayRun.status s' wire = .pending := by
  obtain ⟨c, wire, s, s', h⟩ := ReplayRun.facts
  obtain ⟨m, ids, hm, hd⟩ := h.payload
  exact ⟨c, wire, m, ids, s, h.reachable, hm, hd, h.once, h.before, h.after⟩

/-- The second time it changes nothing. -/
theorem replay_unchanged_twice : ∃ (c : DeviceConfig symbolicApp) (wire : Bytes)
    (s s' : Device symbolicApp.Key Memory), Reachable TextRun.anything c ∧
    Again (fill 3) wire (fill 3) 0 (.ok (.delete .duplicate)) c.shared s ∧
    ¬ Answered c.shared.db.rows (fill 3) (Messenger.messageId symbolicApp.toPlatform wire) 0 ∧
    s.db ≠ c.shared.db ∧
    AgainAnswered (fill 3) wire s s' ∧ s'.db = s.db := by
  obtain ⟨c, wire, s, s', h⟩ := ReplayRun.facts
  have hne : ¬ Answered c.shared.db.rows (fill 3)
      (Messenger.messageId symbolicApp.toPlatform wire) 0 := fun ha => ha.first h.before
  have hs : Messenger.statusAt (P := symbolicApp.toPlatform) s.db.rows (fill 3)
      (ClientId.receipt (Messenger.messageId symbolicApp.toPlatform wire) 0) = .pending := h.after
  have ha : AgainAnswered (fill 3) wire s s' := ⟨_, _, _, h.twice, .of_pending hs⟩
  exact ⟨c, wire, s, s', h.reachable, h.once, hne,
    fun hdb => hne (((replay_unchanged (fill 3) wire).2 _ _ _ _ h.once).mp hdb), ha,
    (replay_unchanged (fill 3) wire).1 _ _ (.single ha)⟩

end Network

end Arcium
