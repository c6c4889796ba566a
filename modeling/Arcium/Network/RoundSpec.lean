import Arcium.Mobile.Packing
import Arcium.Network.ChatSpec
import Arcium.Network.Refusals

/-!
# The rules of a round

Publishing, processing and scanning. What a round asks the relay to delete rests on what it found
(`Justified`), from the time its call began (`since`) on.
-/

namespace Arcium

open Conc

namespace Network

variable {P : AppPlatform} {start since : Db P.Key} {call : Call} {I : Db P.Key → Prop}
  {A : Db P.Key → Request × Answer → Prop} {T : Db P.Key → Rows P.Key → Prop} {db : Db P.Key}
  {α β : Type}

/-- A part of a round whose result says nothing. -/
abbrev Rounds (I : Db P.Key → Prop) (A : Db P.Key → Request × Answer → Prop)
    (T : Db P.Key → Rows P.Key → Prop) (x : Round P α) (db : Db P.Key) : Prop :=
  InRound I A T (Gives fun _ _ => True) x db

theorem tally_rounds (f : SyncReport → SyncReport) : Rounds I A T (Round.tally f : Round P Unit) db :=
  .tally (gives_ok trivial)

theorem withSession_gives (peers : List Peer) :
    Runs I A T (withSession peers : Core P _) db := by
  induction peers generalizing db with
  | nil => exact .pure (gives_ok trivial)
  | cons peer peers ih =>
    exact (hasSession_runs _).gives_seq fun _ _ _ _ => ih.gives_seq fun _ _ _ _ =>
      .pure (gives_ok trivial)

theorem sessions_runs : Runs I A T (sessions : Core P _) db :=
  contacts_runs.gives_seq fun _ _ _ _ => withSession_gives _

/-! ## What a round may do -/

theorem Call.Syncs.establishesPrekeys (hc : call.Syncs) : call.EstablishesPrekeys := by
  cases call with
  | sync i => exact hc
  | syncConversations i => exact hc
  | _ => exact hc.elim

theorem Call.Syncs.describes (hc : call.Syncs) (peer : Peer) : call.Describes peer := by
  cases call with
  | sync i => exact hc
  | syncConversations i => exact hc
  | _ => exact hc.elim

theorem Call.Syncs.responds (hc : call.Syncs) (handle : UInt64) (bytes : Bytes) :
    call.Responds handle bytes := by
  cases call with
  | sync i => exact hc
  | syncConversations i => exact hc
  | _ => exact hc.elim

theorem Call.Syncs.receives (hc : call.Syncs) (handle : UInt64) (wire : Bytes) :
    call.Receives handle wire := by
  cases call with
  | sync i => exact hc
  | syncConversations i => exact hc
  | _ => exact hc.elim

/-! ## Publishing -/

theorem due_runs (i : Nat) (key : Bytes32) : Runs I A T (due i key : Core P _) db := by
  refine Meets.gives_seq (V := fun _ _ => True) (.remembered fun _ _ _ _ => gives_ok trivial)
    fun sent _ _ _ => ?_
  split
  · exact .draw fun _ _ _ _ => gives_ok trivial
  · exact .pure (gives_ok trivial)

theorem sendEnvelope_rounds (hA : Free A) (i : Nat) (peer : Peer) (key : Bytes32) (env : Envelope) :
    Rounds I A T (sendEnvelope i peer key env : Round P _) db := by
  refine InRound.gives_seq (V := fun _ _ => True) (.core (request_runs fun _ _ _ => hA _ _ _ nofun))
    fun _ _ _ _ => ?_
  exact InRound.gives_seq (V := fun _ _ => True) (.core (.remember fun _ _ _ => gives_ok trivial))
    fun _ _ _ _ => tally_rounds _

theorem publishHandshake_rounds (hA : Free A) (i : Nat) (our peer : Peer) (handle : UInt64) :
    Rounds I A T (publishHandshake i our peer handle : Round P _) db := by
  refine (InRound.core (confirmed_runs handle)).gives_seq fun c _ _ _ => ?_
  split
  · refine (InRound.core (initiatorHandshake_runs handle)).gives_seq fun o _ _ _ => ?_
    split
    · exact .pure (gives_ok trivial)
    · refine (InRound.core (due_runs i _)).gives_seq fun d _ _ _ => ?_
      split
      · exact sendEnvelope_rounds hA i _ _ _
      · exact .pure (gives_ok trivial)
  · exact .pure (gives_ok trivial)

theorem publishMessage_rounds (hA : Free A) (hc : call.Syncs) (i : Nat) (our peer : Peer)
    {handle : UInt64} {m : OutgoingMessage}
    (hm : ∃ p key, Named db handle p ∧ db.Ever (.outbox p key) m) :
    Rounds I A (Work start call) (publishMessage i our peer handle m : Round P _) db := by
  obtain ⟨p, key, hn, he⟩ := hm
  refine (InRound.core (due_runs i _)).gives_seq fun d db₁ h₁ _ => ?_
  split
  · refine (sendEnvelope_rounds hA i _ _ _).gives_seq fun _ db₂ h₂ _ => ?_
    split
    · next hr =>
      refine InRound.gives_seq (V := fun _ _ => True) (.core (Meets.runs
        (acknowledgeOutgoing_gives hc fun db' hle => ?_))) fun _ _ _ _ => .pure (gives_ok trivial)
      have hle := h₁.trans (h₂.trans hle)
      exact .relayed p key m (hn.mono hle) (he.mono hle) rfl hr
    · exact .pure (gives_ok trivial)
  · exact .pure (gives_ok trivial)

theorem publishMessages_rounds (hA : Free A) (hc : call.Syncs) (i : Nat) (our peer : Peer)
    {handle : UInt64} {p : Peer} (ms : List OutgoingMessage) (hn : Named db handle p)
    (hms : ∀ m ∈ ms, ∃ key, db.Ever (.outbox p key) m) :
    Rounds I A (Work start call) (publishMessages i our peer handle ms : Round P _) db := by
  induction ms generalizing db with
  | nil => exact .pure (gives_ok trivial)
  | cons m ms ih =>
    obtain ⟨key, he⟩ := hms m List.mem_cons_self
    refine (publishMessage_rounds hA hc i our peer ⟨p, key, hn, he⟩).gives_seq fun _ db' hle _ => ?_
    exact ih (hn.mono hle) fun m hm => (hms m (List.mem_cons_of_mem _ hm)).imp fun _ h => h.mono hle

theorem publishSessions_rounds (hA : Free A) (hc : call.Syncs) (i : Nat) (our : Peer)
    (sessions : List (Peer × UInt64)) :
    Rounds I A (Work start call) (publishSessions i our sessions : Round P _) db := by
  induction sessions generalizing db with
  | nil => exact .pure (gives_ok trivial)
  | cons s rest ih =>
    obtain ⟨peer, handle⟩ := s
    refine (publishHandshake_rounds hA i our peer handle).gives_seq fun _ _ _ _ => ?_
    refine (InRound.core (pendingOutgoing_gives handle)).gives_seq fun ms _ _ hms => ?_
    obtain ⟨p, hn, hms⟩ := hms
    exact (publishMessages_rounds hA hc i our peer ms hn hms).gives_seq fun _ _ _ _ => ih

theorem publishPending_rounds (hA : Free A) (hc : call.Syncs) (i : Nat)
    (sessions : List (Peer × UInt64)) :
    Rounds I A (Work start call) (publishPending i sessions : Round P _) db :=
  (InRound.core ourIdentityPk_gives).gives_seq fun our _ _ _ => publishSessions_rounds hA hc i our _

/-! ## Accepted messages -/

theorem receipt_gives (hc : call.Syncs) (i : Nat) (handle : UInt64) (id : MessageId) (round : UInt64) :
    Meets I A (Work start call) (Gives fun o db => SendSays db handle (ClientId.receipt id round) o)
      (receipt i handle id round : Core P _) db :=
  sendCommitted_gives i fun _ _ => .receipt id round hc

theorem SendSays.receipt {handle : UInt64} {id : MessageId} {o : SendOutcome}
    (h : SendSays db handle (ClientId.receipt id 0) o) : ReceiptCommitted db handle id := h.recorded

theorem receiptAgain_gives (hc : call.Syncs) (i : Nat) (handle : UInt64) (id : MessageId) :
    Meets I A (Work start call) (Gives fun _ db => ReceiptCommitted db handle id)
      (receiptAgain i handle id : Core P _) db := by
  refine (receipt_gives hc i handle id 0).gives_seq fun o db₁ h₁ ho => ?_
  have hr := ho.receipt
  split
  · refine Meets.gives_seq (V := fun _ _ => True) (.draw fun _ _ _ _ => gives_ok trivial)
      fun now db₂ h₂ _ => ?_
    exact (receipt_gives hc i handle id _).gives_seq fun _ db₃ h₃ _ =>
      .pure (gives_ok (hr.mono (h₂.trans h₃)))
  · exact .pure (gives_ok hr)

theorem acknowledgeAll_gives (hc : call.Syncs) {handle : UInt64} {m : IncomingMessage}
    {all : List MessageId} (ha : AcceptedFrom db handle m)
    (hp : Payload.decode m.plaintext = some (.receipt all)) (ids : List MessageId) (hsub : ids ⊆ all) :
    InRound I A (Work start call) (Gives fun _ db => ∀ acked ∈ ids, OutOfOutbox db handle acked)
      (acknowledgeAll handle ids : Round P _) db := by
  induction ids generalizing db with
  | nil => exact .pure (gives_ok fun _ h => nomatch h)
  | cons acked ids ih =>
    obtain ⟨hmem, hsub⟩ := List.cons_subset.mp hsub
    refine (InRound.core (acknowledgeOutgoing_gives hc fun db' hle =>
      .confirmed m all (ha.mono hle) hp hmem)).gives_seq fun b db₁ h₁ ho => ?_
    have rest : ∀ db₂ : Db P.Key, db₁.Le db₂ → InRound I A (Work start call)
        (Gives fun _ db => ∀ x ∈ acked :: ids, OutOfOutbox db handle x)
        (acknowledgeAll handle ids : Round P _) db₂ := fun db₂ h₂ =>
      (ih (ha.mono (h₁.trans h₂)) hsub).mono fun r db₃ h₃ h u hu x hx => by
        rcases List.mem_cons.mp hx with rfl | hx
        · exact ho.mono (h₂.trans h₃)
        · exact h u hu x hx
    split
    · exact (tally_rounds _).gives_seq fun _ db₂ h₂ _ => rest db₂ h₂
    · exact rest db₁ (Db.Le.refl _)

/-- After `settle`, what an accepted message asks for was done. -/
theorem settle_gives (hc : call.Syncs) (i : Nat) {handle : UInt64} {m : IncomingMessage}
    (ha : AcceptedFrom db handle m) :
    InRound I A (Work start call) (Gives fun _ db => Settled db handle m)
      (settle i handle m.messageId m.plaintext : Round P _) db := by
  unfold settle
  split
  · next text hp =>
    refine (InRound.core (receipt_gives hc i handle _ 0)).gives_seq fun o _ _ ho => ?_
    refine .pure (gives_ok ?_)
    rw [Settled, hp]
    exact ho.receipt
  · next hp =>
    refine (InRound.core (receipt_gives hc i handle _ 0)).gives_seq fun o db₁ h₁ ho => ?_
    have hr := ho.receipt
    refine (InRound.core (acknowledgeIncoming_runs fun id hid db' hle => ?_)).gives_seq fun _ db₂ h₂ _ => ?_
    · obtain rfl := Subtype.ext hid
      exact .opener hc m (ha.mono (h₁.trans hle)) rfl hp (hr.mono hle)
    · refine .pure (gives_ok ?_)
      rw [Settled, hp]
      exact hr.mono h₂
  · next ids hp =>
    refine (acknowledgeAll_gives hc ha hp ids (List.Subset.refl _)).gives_seq fun _ db₁ h₁ ho => ?_
    refine (InRound.core (acknowledgeIncoming_runs fun id hid db' hle => ?_)).gives_seq fun _ db₂ h₂ _ => ?_
    · obtain rfl := Subtype.ext hid
      exact .receipt hc m ids (ha.mono (h₁.trans hle)) rfl hp fun x hx => (ho x hx).mono hle
    · refine .pure (gives_ok ?_)
      rw [Settled, hp]
      exact fun x hx => (ho x hx).mono h₂
  · next hp =>
    refine InRound.gives_seq (V := fun _ _ => True) (.dropped (gives_ok trivial)) fun _ db₁ h₁ _ => ?_
    refine InRound.gives_seq (V := fun _ _ => True) (.failed (gives_ok trivial)) fun _ db₂ h₂ _ => ?_
    refine (InRound.core (acknowledgeIncoming_runs fun id hid db' hle => ?_)).gives_seq fun _ db₃ h₃ _ => ?_
    · obtain rfl := Subtype.ext hid
      exact .unknown hc m (ha.mono (h₁.trans (h₂.trans hle))) rfl hp
    · refine .pure (gives_ok ?_)
      rw [Settled, hp]
      trivial

theorem settleAll_rounds (hc : call.Syncs) (i : Nat) {handle : UInt64} (ms : List IncomingMessage)
    (hms : ∀ m ∈ ms, AcceptedFrom db handle m) :
    Rounds I A (Work start call) (settleAll i handle ms : Round P _) db := by
  induction ms generalizing db with
  | nil => exact .pure (gives_ok trivial)
  | cons m ms ih =>
    exact (settle_gives hc i (hms m List.mem_cons_self)).gives_seq fun _ db' hle _ =>
      ih fun m hm => (hms m (List.mem_cons_of_mem _ hm)).mono hle

theorem settleInbox_rounds (hc : call.Syncs) (i : Nat) (handle : UInt64) :
    Rounds I A (Work start call) (settleInbox i handle : Round P _) db :=
  (InRound.core (pendingCommitted_gives handle)).gives_seq fun ms _ _ hms => settleAll_rounds hc i ms hms

theorem settleSessions_rounds (hc : call.Syncs) (i : Nat) (sessions : List (Peer × UInt64)) :
    Rounds I A (Work start call) (settleSessions i sessions : Round P _) db := by
  induction sessions generalizing db with
  | nil => exact .pure (gives_ok trivial)
  | cons s rest ih => exact (settleInbox_rounds hc i s.2).gives_seq fun _ _ _ _ => ih

/-! ## Processing -/

/-- What a fate of the envelope `bytes` rests on. -/
def Fated (since db : Db P.Key) (bytes : Bytes) (fate : Fate) : Prop :=
  ∀ v, fate = .delete v → Justified since db bytes v

theorem Fated.keep {bytes : Bytes} : Fated since db bytes .keep := nofun

theorem Fated.delete {bytes : Bytes} {v : Verdict} (h : Justified since db bytes v) :
    Fated since db bytes (.delete v) := fun _ hv => Fate.delete.inj hv ▸ h

theorem refuseHandshake_gives {sender : Peer} {e : CoreError} {v : Verdict} {bytes : Bytes}
    (hd : call.Describes sender) (h : Justified since db bytes v) :
    InRound I A (Work start call) (Gives fun fate db => Fated since db bytes fate)
      (refuseHandshake sender e v : Round P _) db := by
  refine (InRound.core (setFlag_runs hd)).gives_seq fun _ db₁ h₁ _ => ?_
  refine InRound.gives_seq (V := fun _ _ => True) (.dropped (gives_ok trivial)) fun _ db₂ h₂ _ => ?_
  refine InRound.gives_seq (V := fun _ _ => True) (.failed (gives_ok trivial)) fun _ db₃ h₃ _ => ?_
  exact .pure (gives_ok (.delete (h.mono (Db.Le.refl _) (h₁.trans (h₂.trans h₃)))))

theorem hasSession_gives (handle : UInt64) :
    Meets I A T (Gives fun found db' => found = true →
        Within db db' fun rows => (rows.lookup (.handle handle)).isSome)
      (Core.hasSession handle : Core P _) db := by
  refine Meets.gives_seq (V := fun o db' => (o : Option Peer).isSome →
      Within db db' fun rows => (rows.lookup (.handle handle)).isSome)
    (messenger_gives (.of_sat (fun _ => Messenger.peerOf_sat handle) fun _ _ _ db' h o ho hs =>
      ⟨db', h.1.le, Db.Le.refl _, ?_⟩)) fun o _ _ h => .pure (gives_ok h)
  show (db'.rows.lookup (.handle handle)).isSome
  rw [h.2 o ho]
  exact hs

/-- An envelope that is dropped. -/
theorem drop_gives {v : Verdict} {bytes : Bytes} (h : Justified since db bytes v) :
    InRound I A T (Gives fun fate db => Fated since db bytes fate)
      (do Round.dropped; return .delete v : Round P Fate) db :=
  InRound.gives_seq (V := fun _ _ => True) (.dropped (gives_ok trivial)) fun _ _ hle _ =>
    .pure (gives_ok (.delete (h.mono (Db.Le.refl _) hle)))

theorem answerHandshake_gives (hs : start.Le db) (hsince : since.Le db) (hc : call.Syncs) (i : Nat)
    {sender : Peer} {body bytes : Bytes} (legacy : Bool)
    (he : Envelope.decode bytes = some (.handshake sender body))
    (hid : take32 (body.drop 4) = some sender) :
    InRound I A (Work start call) (Gives fun fate db => Fated since db bytes fate)
      (answerHandshake i sender body legacy : Round P _) db := by
  have hr := hc.responds (localSessionHandle P sender) body
  have hown : ∀ handshake, unpackInitiatorHandshake body = .ok handshake → call.Syncs →
      localSessionHandle P sender = localSessionHandle P handshake.identityPk := by
    intro handshake hp _
    rw [Option.some.inj (hid.symm.trans (unpackInitiatorHandshake_identityPk hp))]
  refine InRound.gives_seq (V := fun r db' => (∀ u, r = .ok u →
        Justified since db' bytes .recorded) ∧ ∀ e, r = .error e → transient e = false →
        Justified since db' bytes .refused)
    (.attempt (establishSessionResponder_gives hs i hr hown).ended
      (fun r db' h₁ h => gives_ok ⟨fun u hu => ?_, fun e hu hf => ?_⟩) fun _ _ => gives_error)
    fun r db' _ h => ?_
  · obtain ⟨handshake, hp, db₃, h3, h4, h5⟩ := h.1 u hu
    exact .recorded sender body handshake he hp ⟨db₃, hsince.trans h3, h4, h5⟩
  · subst hu
    exact .refused sender body i e he (h.2.mono hsince (Db.Le.refl _)) hf
  · split
    · exact .pure (gives_ok (.delete (h.1 _ rfl)))
    · next e =>
      split
      · exact InRound.gives_seq (V := fun _ _ => True) (.failed (gives_ok trivial)) fun _ _ _ _ =>
          .pure (gives_ok .keep)
      · next ht =>
        have hf := h.2 e rfl (by simpa using ht)
        split
        · exact drop_gives hf
        · exact refuseHandshake_gives (hc.describes sender) hf

/-- What the handshake branch makes of its envelope. -/
theorem processHandshake_gives (hs : start.Le db) (hsince : since.Le db) (hc : call.Syncs) (i : Nat)
    {sender : Peer} {body bytes : Bytes}
    (he : Envelope.decode bytes = some (.handshake sender body)) :
    InRound I A (Work start call) (Gives fun fate db => Fated since db bytes fate)
      (processHandshake i sender body : Round P _) db := by
  have hd := hc.describes sender
  unfold processHandshake
  dsimp only
  split
  · next hbad => exact drop_gives (.misnamed sender body he hbad)
  next hgood =>
  have hid := not_not.mp (not_or.mp hgood).2
  have answer : ∀ (legacy : Bool) (db' : Db P.Key), db.Le db' → InRound I A (Work start call)
      (Gives fun fate db => Fated since db bytes fate)
      (answerHandshake i sender body legacy : Round P _) db' := fun legacy db' hle =>
    answerHandshake_gives (hs.trans hle) (hsince.trans hle) hc i legacy he hid
  refine (InRound.core (hasSession_gives _)).gives_seq fun found db₁ h₁ hf => ?_
  split
  · next hfound =>
    refine (InRound.core (isLegacyUnconfirmed_runs _)).gives_seq fun legacy db₂ h₂ _ => ?_
    have held : ∀ db', db₂.Le db' → Justified since db' bytes .held := fun db' hle =>
      .held sender body he ((hf hfound).mono hsince (h₂.trans hle))
    split
    · refine (InRound.core (initiatorHandshake_runs _)).gives_seq fun o db₃ h₃ _ => ?_
      split
      · refine (InRound.core (confirmed_runs _)).gives_seq fun c db₄ h₄ _ => ?_
        split
        · exact (InRound.core (setFlag_runs hd)).gives_seq fun _ db₅ h₅ _ =>
            drop_gives (held db₅ (h₃.trans (h₄.trans h₅)))
        · exact drop_gives (held db₄ (h₃.trans h₄))
      · exact drop_gives (held db₃ h₃)
    · exact answer legacy db₂ (h₁.trans h₂)
  · next hnone =>
    refine InRound.gives_seq (V := fun legacy _ => legacy = false) (.pure (gives_ok rfl))
      fun legacy db₂ h₂ hl => ?_
    split
    · next hx => simp [hnone] at hx
    · exact answer legacy db₂ (h₁.trans h₂)

/-- What the message branch makes of its envelope. -/
theorem processMessage_gives (hsince : since.Le db) (hc : call.Syncs) (i : Nat) {sender : Peer}
    {wire bytes : Bytes} (he : Envelope.decode bytes = some (.message sender wire)) :
    InRound I A (Work start call) (Gives fun fate db => Fated since db bytes fate)
      (processMessage i sender wire : Round P _) db := by
  have hd := hc.describes sender
  have hr := hc.receives (localSessionHandle P sender) wire
  refine (InRound.core (hasSession_runs _)).gives_seq fun found db₁ h₁ _ => ?_
  refine InRound.gives_seq (V := fun r db' => Gives (fun d db => ReceiveSays db
      (localSessionHandle P sender) wire d) r db' ∧ ReceiveFails db₁ db' (localSessionHandle P sender) wire r ∧
      Ended db₁ db' (Core.receiveCommitted i (localSessionHandle P sender) wire : Core P _) r)
    (.attempt ((receiveCommitted_gives i hr).and (receiveCommitted_fails (A := A) i _ wire)).ended
      (fun r db' _ h => gives_ok ⟨h.1.1, h.1.2, h.2⟩) fun _ _ => gives_error) fun r db₂ h₂ h => ?_
  obtain ⟨hg, hf, hended⟩ := h
  have hsince := hsince.trans h₁
  have refused : ∀ e, r = .error e → Answerless e →
      Justified since db₂ bytes .unanswerable := fun e h ha => by
    subst h
    exact .unanswerable sender wire i e he ((hf.unanswerable e rfl ha).mono hsince (Db.Le.refl _))
      (hended.mono hsince (Db.Le.refl _)) ha
  cases r with
  | ok d =>
    cases hg _ rfl with
    | accepted m ha hm =>
      refine (tally_rounds _).gives_seq fun _ db₃ h₃ _ => ?_
      refine (settle_gives hc i (ha.mono h₃)).gives_seq fun _ db₄ h₄ hset => .pure (gives_ok ?_)
      exact .delete (.accepted sender wire m he (ha.mono (h₃.trans h₄)) hm hset)
    | duplicate u peer hn db₀ h₀ ha =>
      refine (tally_rounds _).gives_seq fun _ db₃ h₃ _ => ?_
      refine (InRound.core (receiptAgain_gives hc i _ _)).gives_seq fun _ db₄ h₄ hrec =>
        .pure (gives_ok ?_)
      have hle := h₃.trans h₄
      exact .delete (.duplicate sender wire peer he (hn.mono hle) ⟨db₀, h₀.trans hle, ha⟩ hrec)
  | error e =>
    cases e with
    | noSession _ => exact .pure (gives_ok .keep)
    | crypto msg =>
      refine InRound.gives_seq (V := fun _ _ => True) (.dropped (gives_ok trivial)) fun _ _ hle _ =>
        .pure (gives_ok ?_)
      exact .delete (.undecryptable sender wire he ((hf.undecryptable msg rfl).mono hsince hle))
    | staleSignedPrekey => exact refuseHandshake_gives hd (refused _ rfl trivial)
    | oneTimePrekeyUnavailable _ => exact refuseHandshake_gives hd (refused _ rfl trivial)
    | oneTimePrekeyRequired => exact refuseHandshake_gives hd (refused _ rfl trivial)
    | sessionUnresolved _ _ =>
      exact (InRound.core (recoverSession_runs i _)).gives_seq fun _ _ _ _ => .pure (gives_ok .keep)
    | _ =>
      exact InRound.gives_seq (V := fun _ _ => True) (.failed (gives_ok trivial)) fun _ _ _ _ =>
        .pure (gives_ok .keep)

theorem process_gives (hs : start.Le db) (hsince : since.Le db) (hc : call.Syncs) (i : Nat)
    {env : Envelope} {bytes : Bytes} (he : Envelope.decode bytes = some env) :
    InRound I A (Work start call) (Gives fun fate db => Fated since db bytes fate)
      (process i env : Round P _) db := by
  refine InRound.gives_seq (V := fun o db' => o = none →
      Within since db' fun rows => rows.lookup (.contact env.sender) = none)
    (.core (.find (fun db' hle _ => gives_ok fun h => ⟨db', hsince.trans hle, Db.Le.refl _, h⟩)
      fun _ _ _ _ _ => gives_error)) fun o db₁ h₁ ho => ?_
  cases o with
  | none =>
    refine InRound.gives_seq (V := fun _ _ => True) (.dropped (gives_ok trivial)) fun _ _ hle _ =>
      .pure (gives_ok (.delete (.unpinned env he ((ho rfl).mono (Db.Le.refl _) hle))))
  | some card =>
    cases env with
    | handshake sender body => exact processHandshake_gives (hs.trans h₁) (hsince.trans h₁) hc i he
    | message sender wire => exact processMessage_gives (hsince.trans h₁) hc i he

/-! ## Scanning -/

/-- Every envelope that a pass wants deleted is one that a verdict allows. -/
def ScanOk (since db : Db P.Key) (s : Scan) : Prop :=
  ∀ x ∈ s.delete, Justified since db x.2.1 x.2.2

theorem ScanOk.mono {s : Scan} {db' : Db P.Key} (h : ScanOk since db s) (hle : db.Le db') :
    ScanOk since db' s := fun x hx => (h x hx).mono (Db.Le.refl _) hle

theorem noteFate_gives {s : Scan} {seq : UInt64} {bytes : Bytes} {fate : Fate}
    (h : ScanOk since db s) (hf : Fated since db bytes fate) :
    InRound I A T (Gives fun s db => ScanOk since db s) (noteFate seq bytes s fate : Round P _) db := by
  cases fate with
  | delete verdict =>
    refine .pure (gives_ok fun x hx => ?_)
    rcases List.mem_append.mp hx with hx | hx
    · exact h x hx
    · obtain rfl := List.mem_singleton.mp hx
      exact hf verdict rfl
  | keep => exact (tally_rounds _).gives_seq fun _ _ hle _ => .pure (gives_ok (h.mono hle))

theorem fateOf_gives (hs : start.Le db) (hsince : since.Le db) (hc : call.Syncs) (i : Nat)
    (bytes : Bytes) :
    InRound I A (Work start call) (Gives fun fate db => Fated since db bytes fate)
      (fateOf i (Envelope.decode bytes) : Round P _) db := by
  cases he : Envelope.decode bytes with
  | none => exact drop_gives (.malformed he)
  | some env => exact process_gives hs hsince hc i he

theorem scanEnvelope_gives (hs : start.Le db) (hsince : since.Le db) (hc : call.Syncs) (i : Nat)
    (pass : Pass) (seq : UInt64) (bytes : Bytes) {s : Scan} (h : ScanOk since db s) :
    InRound I A (Work start call) (Gives fun s db => ScanOk since db s)
      (scanEnvelope i pass seq bytes s : Round P _) db := by
  have seen : ∀ db' : Db P.Key, db.Le db' →
      ScanOk since db' { s with after := seq, seen := s.seen + 1 } := fun db' hle => h.mono hle
  have rest : ∀ db' : Db P.Key, db.Le db' → InRound I A (Work start call)
      (Gives fun s db => ScanOk since db s) (do
        if !Pass.selects pass (Envelope.decode bytes) then
          return { s with after := seq, seen := s.seen + 1 }
        noteFate seq bytes { s with after := seq, seen := s.seen + 1 }
          (← fateOf i (Envelope.decode bytes)) : Round P Scan) db' := by
    intro db' hle
    split
    · exact .pure (gives_ok (seen db' hle))
    · exact (fateOf_gives (hs.trans hle) (hsince.trans hle) hc i bytes).gives_seq
        fun fate db'' hle' hf => noteFate_gives (seen db'' (hle.trans hle')) hf
  unfold scanEnvelope
  dsimp only
  split
  · exact (tally_rounds _).gives_seq fun _ db' hle _ => rest db' hle
  · exact rest db (Db.Le.refl _)

theorem scanItems_gives (hs : start.Le db) (hsince : since.Le db) (hc : call.Syncs) (i : Nat)
    (pass : Pass) (until_ : UInt64) (items : List (UInt64 × Bytes)) {s : Scan}
    (h : ScanOk since db s) :
    InRound I A (Work start call) (Gives fun s db => ScanOk since db s.1)
      (scanItems i pass until_ items s : Round P _) db := by
  induction items generalizing db s with
  | nil => exact .pure (gives_ok h)
  | cons x items ih =>
    obtain ⟨seq, bytes⟩ := x
    unfold scanItems
    dsimp only
    split
    · exact InRound.seq (.throw (R := Gives fun _ _ => False) gives_error) (fun _ _ _ _ => gives_error)
        fun _ _ _ h => (h _ rfl).elim
    split
    · exact .pure (gives_ok h)
    refine (scanEnvelope_gives hs hsince hc i pass seq bytes h).gives_seq fun s' db' hle h' => ?_
    split
    · exact .pure (gives_ok h')
    · exact ih (hs.trans hle) (hsince.trans hle) h'

theorem scanPages_gives (hA : Free A) (hs : start.Le db) (hsince : since.Le db) (hc : call.Syncs)
    (i : Nat) (our : Peer) (pass : Pass) (until_ : UInt64) (pages : Nat) {s : Scan}
    (h : ScanOk since db s) :
    InRound I A (Work start call) (Gives fun s db => ScanOk since db s)
      (scanPages i our pass until_ pages s : Round P _) db := by
  induction pages generalizing db s with
  | zero => exact .pure (gives_ok h)
  | succ pages ih =>
    refine InRound.gives_seq (V := fun _ _ => True) (.core (request_runs fun _ _ _ => hA _ _ _ nofun))
      fun items db₁ h₁ _ => ?_
    dsimp only
    split
    · exact InRound.seq (.throw (R := Gives fun _ _ => False) gives_error) (fun _ _ _ _ => gives_error)
        fun _ _ _ h => (h _ rfl).elim
    split
    · exact .pure (gives_ok (h.mono h₁))
    refine (scanItems_gives (hs.trans h₁) (hsince.trans h₁) hc i pass until_ items (h.mono h₁)).gives_seq
      fun r db₂ h₂ h' => ?_
    obtain ⟨s', ended⟩ := r
    dsimp only
    split
    · exact .pure (gives_ok h')
    · exact ih (hs.trans (h₁.trans h₂)) (hsince.trans (h₁.trans h₂)) h'

theorem scan_rounds (hs : start.Le db) (hsince : since.Le db) (hc : call.Syncs) (i : Nat)
    (our : Peer) (pass : Pass) (until_ : UInt64) :
    Rounds I (Asks since) (Work start call) (scan i our pass until_ : Round P _) db := by
  refine (scanPages_gives (asks_free since) hs hsince hc i our pass until_ _ (s := {})
    fun _ h => nomatch h).gives_seq fun s db₁ h₁ h => ?_
  dsimp only
  split
  · refine InRound.gives_seq (V := fun _ _ => True) (.core (request_runs fun db' _ hle => ?_))
      fun _ _ _ _ => .pure (gives_ok trivial)
    exact h.mono hle
  · exact .pure (gives_ok trivial)

/-! ## Rounds -/

theorem syncRound_rounds (hs : start.Le db) (hsince : since.Le db) (hc : call.Syncs) (i : Nat) :
    Rounds I (Asks since) (Step start call) (syncRound i : Round P _) db := by
  have hA := asks_free since
  refine (InRound.core sessions_runs).gives_seq fun before db₁ h₁ _ => ?_
  refine (settleSessions_rounds hc i before).step.gives_seq fun _ db₂ h₂ _ => ?_
  refine (InRound.core (connect_runs hA)).gives_seq fun _ db₃ h₃ _ => ?_
  refine (InRound.core (putBundle_runs hA hc.establishesPrekeys)).gives_seq fun _ db₄ h₄ _ => ?_
  refine (publishPending_rounds hA hc i before).step.gives_seq fun _ db₅ h₅ _ => ?_
  refine (InRound.core ourIdentityPk_gives).gives_seq fun our db₆ h₆ _ => ?_
  have hle := h₁.trans (h₂.trans (h₃.trans (h₄.trans (h₅.trans h₆))))
  have last : ∀ db' : Db P.Key, Rounds I (Asks since) (Step start call) (do
      let after ← Round.core sessions
      publishPending i after : Round P _) db' := fun db' =>
    (InRound.core sessions_runs).gives_seq fun after _ _ _ => (publishPending_rounds hA hc i after).step
  refine (scan_rounds (hs.trans hle) (hsince.trans hle) hc i our .handshakes _).step.gives_seq
    fun reached db₇ h₇ _ => ?_
  split
  · have hle := hle.trans h₇
    exact (scan_rounds (hs.trans hle) (hsince.trans hle) hc i our .messages _).step.gives_seq
      fun _ db₈ _ _ => last db₈
  · exact last db₇

/-- A round as a program: its report says nothing of the database. -/
theorem reportOf_ends {x : Round P Unit} (h : Rounds I A T x db) (tr : Trace P.Key) :
    Ends I A T (fun _ _ _ => True) (reportOf x) tr db := by
  intro t mem asked ht
  refine Prog.WP.bind ((h {} tr t mem asked ht).mono (fun _ _ hg => hg) fun r t s _ => ?_)
  obtain ⟨r, report⟩ := r
  cases r <;> trivial

/-! ## Rounds of the conversations -/

theorem syncInto_rounds (hs : start.Le db) (hsince : since.Le db) (hc : call.Syncs) (i : Nat) :
    Rounds I (Asks since) (Step start call) (Chat.syncInto i : Round P _) db := by
  refine InRound.gives_seq (V := fun _ _ => True) (.core fun tr t mem asked ht => ?_)
    fun _ _ _ _ => tally_rounds _
  exact Op.wp_attempt ((reportOf_ends (syncRound_rounds hs hsince hc i) tr t mem asked ht).mono
    (fun _ _ hg => hg) fun _ _ _ _ _ _ => trivial)

theorem refreshAll_rounds (hc : ∀ peer, call.Refreshes peer) (i : Nat) (peers : List Peer) :
    Rounds I A (Work start call) (Chat.refreshAll i peers : Round P _) db := by
  induction peers generalizing db with
  | nil => exact .pure (gives_ok trivial)
  | cons peer peers ih =>
    exact (InRound.core (refresh_runs i (hc peer))).gives_seq fun _ _ _ _ => ih.gives_seq
      fun _ _ _ _ => .pure (gives_ok trivial)

theorem startQueued_rounds (hI : ∀ db, I db → Filed db) (hA : Free A) (i : Nat) {peer : Peer}
    (hc : call.Starts peer) (hd : call.Describes peer) :
    Rounds I A (Work start call) (Chat.startQueued i peer : Round P _) db := by
  refine InRound.gives_seq (V := fun _ _ => True) (.attempt (startSession_runs hI hA i hc)
    (fun _ _ _ _ => gives_ok trivial) fun _ _ => gives_error) fun r _ _ _ => ?_
  split
  · exact (InRound.core (updateMeta_runs hd (fun _ => by rfl) fun _ h => by
      exact h.withFlags.withNote (by decide))).gives_seq fun _ _ _ _ => .pure (gives_ok trivial)
  · exact (InRound.core (updateMeta_runs hd (fun _ => by rfl) fun _ h => by
      exact h.withNote (by decide))).gives_seq fun _ _ _ _ => .pure (gives_ok trivial)
  · exact (InRound.core (updateMeta_runs hd (fun _ => by rfl) fun _ h => by
      exact h.withFlags)).gives_seq fun _ _ _ _ => .pure (gives_ok trivial)
  · exact .pure (gives_ok trivial)
  · exact InRound.gives_seq (V := fun _ _ => True) (.failed (gives_ok trivial)) fun _ _ _ _ =>
      .pure (gives_ok trivial)

theorem startOne_rounds (hI : ∀ db, I db → Filed db) (hA : Free A) (i : Nat) {peer : Peer}
    (hr : call.Refreshes peer) (hc : call.Starts peer) (hd : call.Describes peer) :
    Rounds I A (Work start call) (Chat.startOne i peer : Round P _) db := by
  refine (InRound.core (refresh_runs i hr)).gives_seq fun r _ _ _ => ?_
  refine (InRound.core (hasSession_runs _)).gives_seq fun found _ _ _ => ?_
  dsimp only
  split
  · refine (InRound.core (confirmed_runs _)).gives_seq fun c _ _ _ => ?_
    refine (InRound.core (updateMeta_runs hd (fun m => ?_) fun m h => ?_)).gives_seq fun _ _ _ _ =>
      .pure (gives_ok trivial)
    · cases c <;> rfl
    · cases c
      · exact h.withFlags.withNote (by decide)
      · exact h.withFlags.withFlags.withNote (by decide)
  split
  · exact .pure (gives_ok trivial)
  refine (InRound.core (metaOf_gives peer)).gives_seq fun m _ _ _ => ?_
  split
  · exact .pure (gives_ok trivial)
  · exact startQueued_rounds hI hA i hc hd

theorem startAll_rounds (hI : ∀ db, I db → Filed db) (hA : Free A) (i : Nat) (peers : List Peer)
    (hr : ∀ peer, call.Refreshes peer) (hc : ∀ peer, call.Starts peer)
    (hd : ∀ peer, call.Describes peer) :
    Rounds I A (Work start call) (Chat.startAll i peers : Round P _) db := by
  induction peers generalizing db with
  | nil => exact .pure (gives_ok trivial)
  | cons peer peers ih =>
    exact (startOne_rounds hI hA i (hr peer) (hc peer) (hd peer)).gives_seq fun _ _ _ _ =>
      ih.gives_seq fun _ _ _ _ => .pure (gives_ok trivial)

theorem syncConversationsRound_rounds (hI : ∀ db, I db → Filed db) (hs : start.Le db)
    (hsince : since.Le db) (i : Nat) (hc : call = .syncConversations i) :
    Rounds I (Asks since) (Step start call) (Chat.syncConversationsRound i : Round P _) db := by
  have hsync : call.Syncs := by rw [hc]; trivial
  have hr : ∀ peer, call.Refreshes peer := fun _ => by rw [hc]; trivial
  have hst : ∀ peer, call.Starts peer := fun _ => by rw [hc]; trivial
  refine (InRound.core contacts_runs).gives_seq fun peers db₁ h₁ _ => ?_
  refine (refreshAll_rounds hr i peers).step.gives_seq fun _ db₂ h₂ _ => ?_
  have hle := h₁.trans h₂
  refine (syncInto_rounds (hs.trans hle) (hsince.trans hle) hsync i).gives_seq fun _ db₃ h₃ _ => ?_
  refine (startAll_rounds hI (asks_free since) i peers hr hst hsync.describes).step.gives_seq
    fun started db₄ h₄ _ => ?_
  refine (refreshAll_rounds hr i peers).step.gives_seq fun committed db₅ h₅ _ => ?_
  split
  · have hle := hle.trans (h₃.trans (h₄.trans h₅))
    refine (syncInto_rounds (hs.trans hle) (hsince.trans hle) hsync i).gives_seq fun _ db₆ _ _ => ?_
    exact (refreshAll_rounds hr i peers).step.gives_seq fun _ _ _ _ => .pure (gives_ok trivial)
  · exact .pure (gives_ok trivial)

end Network

end Arcium
