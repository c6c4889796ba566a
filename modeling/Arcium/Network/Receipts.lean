import Arcium.Network.Deletions
import Arcium.Network.KeyNames

/-!
# Receipts name accepted messages

A round sends a receipt for a message after it read the message from its inbox, received it, or was
told that it comes again. So every receipt that a device ever sends names a message that it accepted
before, from the peer that gets the receipt. The client ids of receipts are reserved: no other call
sends under them.

* `Work.sends`: what puts a message in the outbox.
* `ReceiptTx`: of a transaction, that a receipt it sends names an accepted message. All calls but the
  rounds send no receipts; the rounds are gone through here.
* `receipts_honest`: every receipt of every run.
-/

namespace Conc

namespace Prog

variable {ε σ α : Type} {R : σ → σ → Prop} {I : σ → Prop} {G G' : σ → σ → Prop}
  {Q Q' : α → List (σ × σ) → σ → Prop} {tr : List (σ × σ)} {s : σ}

/-- What two rules say of the actions and of the result. -/
theorem WP.both {p : Prog ε σ α} (h : WP R I G Q p tr s) (h' : WP R I G' Q' p tr s) :
    WP R I (fun s s' => G s s' ∧ G' s s') (fun a tr s => Q a tr s ∧ Q' a tr s) p tr s := by
  induction p generalizing tr s with
  | ret a => exact ⟨h, h'⟩
  | act upd next ih =>
    intro s' hR hI e
    obtain ⟨hg, hn⟩ := h s' hR hI e
    obtain ⟨hg', hn'⟩ := h' s' hR hI e
    exact ⟨⟨hg, hg'⟩, ih e s' hn hn'⟩

end Prog

end Conc

namespace Arcium

open Conc

theorem Messenger.SendTx.clientMessageId {P : Platform} {our : Bytes32} {handle : UInt64}
    {clientId plaintext : Bytes} {db : Db P.Key} {rows : Rows P.Key} {peer q : Peer}
    {old new : SessionRecord P.Key} {m : OutgoingMessage}
    (h : SendTx our handle clientId plaintext db peer q old new m rows) :
    m.clientMessageId = clientId := by
  rw [h.message]

namespace Network

variable {P : AppPlatform} {scope : Scope P} {start db db' : Db P.Key} {rows : Rows P.Key}
  {call : Call} {peer : Peer} {handle : UInt64} {id key : MessageId} {m : OutgoingMessage}

/-! ## Sends -/

/-- What puts a message in the outbox. -/
theorem Work.sends (h : Work start call db rows) (hm : rows.lookup (.outbox peer key) = some m)
    (hn : db.rows.lookup (.outbox peer key) = none) :
    ∃ our handle clientId plaintext q old new,
      Ours db our ∧ SendWhy call db handle clientId plaintext ∧
      Messenger.SendTx (P := P.toPlatform) our handle clientId plaintext db peer q old new m
        rows := by
  have kept : rows.lookup (.outbox peer key) = db.rows.lookup (.outbox peer key) → False := by
    intro hk
    rw [hk, hn] at hm
    cases hm
  have other : ∀ {cs : List (Change P.Key)}, rows = db.rows.applyAll cs →
      (∀ c ∈ cs, Key.outbox peer key ≠ c.key) → False := fun heq hcs =>
    kept (heq ▸ Rows.lookup_applyAll_ne _ hcs)
  have gone : ∀ {cs : List (Change P.Key)}, rows = db.rows.applyAll cs →
      (⟨.outbox peer key, some m⟩ ∉ cs) → False := fun heq hcs => by
    rw [heq] at hm
    rcases Rows.lookup_applyAll_some hm with hm | hm
    · exact hcs hm
    · rw [hn] at hm
      cases hm
  cases h with
  | identity identity called h => exact (other h.eq (by simp)).elim
  | contact card called h => exact (other h.eq (by simp)).elim
  | initiate identity handle peerBundle bundle ephemeralSk dhs alice called h =>
    refine (other h.create.eq ?_).elim
    simp [Messenger.createChanges, Core.initiatorSession, Messenger.sideChanges]
  | respond identity handle bytes handshake record called own answers h =>
    cases h with
    | recorded h => exact (other h.eq (by simp)).elim
    | retired peer old named h => exact (other h.eq (by simp)).elim
  | first identity handle wire provisional handshake record fresh new m called h =>
    refine (other h.promote.eq fun c hc => ?_).elim
    rcases FirstTx.mem_changes hc with rfl | rfl | rfl | rfl | rfl <;> simp
  | send our ours handle clientId plaintext p q old new m' why h =>
    rcases h.outbox hm with hm | ⟨rfl, rfl⟩
    · rw [hn] at hm
      cases hm
    · exact ⟨our, handle, clientId, plaintext, q, old, new, ours, why, h⟩
  | receive our ours handle wire p old new m called h =>
    exact (other h.eq (by simp [Messenger.receiveChanges])).elim
  | ackOut handle i p called why h =>
    exact (gone h.eq fun hc => by cases List.mem_singleton.mp hc).elim
  | ackIn handle i p why h => exact (other h.eq (by simp)).elim
  | abandon handle i p m contact own why h =>
    refine (gone h.eq fun hc => ?_).elim
    rcases List.mem_pair.mp hc with hc | hc <;> cases hc
  | remove our ours handle p old why h => exact (other h.eq (by simp)).elim
  | chat h => exact (kept (h.app _ rfl)).elim

theorem Step.sends (h : Step start call db rows) (hm : rows.lookup (.outbox peer key) = some m)
    (hn : db.rows.lookup (.outbox peer key) = none) :
    ∃ our handle clientId plaintext q old new,
      Ours db our ∧ SendWhy call db handle clientId plaintext ∧
      Messenger.SendTx (P := P.toPlatform) our handle clientId plaintext db peer q old new m
        rows := by
  cases h with
  | work h => exact h.sends hm hn
  | prekeys called identity sk opk h =>
    rw [h.eq, Rows.lookup_applyAll_ne _ (by simp), hn] at hm
    cases hm

/-! ## Evidence -/

/-- The message `id` was accepted on the session of the handle. -/
def Took (db : Db P.Key) (handle : UInt64) (id : MessageId) : Prop :=
  (∃ m, AcceptedFrom db handle m ∧ m.messageId = id) ∨
    ∃ peer, Named db handle peer ∧
      ∃ db₀ : Db P.Key, db₀.Le db ∧ Messenger.Accepted (P := P.toPlatform) db₀.rows peer id

theorem Took.mono (h : Took db handle id) (hle : db.Le db') : Took db' handle id := by
  rcases h with ⟨m, ha, hid⟩ | ⟨peer, hn, db₀, h₀, ha⟩
  · exact .inl ⟨m, ha.mono hle, hid⟩
  · exact .inr ⟨peer, hn.mono hle, db₀, h₀.trans hle, ha⟩

/-- What was accepted was in the inbox. -/
theorem Took.ever (hv : db.Valid (Trans scope)) (h : Took db handle id) :
    ∃ peer m, Named db handle peer ∧ db.Ever (.inbox peer id) m := by
  obtain ⟨our, -, hmv⟩ := exists_our hv
  rcases h with ⟨m, ⟨peer, id', hn, he⟩, rfl⟩ | ⟨peer, hn, db₀, hle, ha⟩
  · obtain rfl := Messenger.inbox_id_of_ever hmv he
    exact ⟨peer, m, hn, he⟩
  · obtain ⟨m, hm⟩ := Messenger.ever_of_accepted (hmv.le hle) ha
    exact ⟨peer, m, hn, hm.mono hle⟩

/-- A receipt that the transaction sends names a message that was accepted on its session. -/
def ReceiptTx (db : Db P.Key) (rows : Rows P.Key) : Prop :=
  ∀ peer key (m : OutgoingMessage) id round, rows.lookup (.outbox peer key) = some m →
    db.rows.lookup (.outbox peer key) = none → m.clientMessageId = ClientId.receipt id round →
      ∃ handle, Named db handle peer ∧ Took db handle id

/-- Other calls than rounds send no receipts. -/
theorem Step.receiptTx (hc : ¬ call.Syncs) (h : Step start call db rows) : ReceiptTx db rows := by
  intro peer key m id round hm hn hid
  obtain ⟨our, handle, clientId, plaintext, q, old, new, -, why, hs⟩ := h.sends hm hn
  rw [hs.clientMessageId] at hid
  cases why with
  | raw i clientId plaintext called free =>
    rw [hid, ClientId.isReserved_receipt] at free
    cases free
  | text peer appId text own why => exact (ClientId.text_ne_receipt rfl hid).elim
  | receipt id round called => exact (hc called).elim
  | opener peer own called => exact (ClientId.opener_ne (by decide) hid.symm).elim

theorem Work.receiptTx (hc : ¬ call.Syncs) (h : Work start call db rows) : ReceiptTx db rows :=
  Step.receiptTx hc (.work h)

/-- A transaction that puts nothing in the outbox. -/
theorem receiptTx_of_eq {cs : List (Change P.Key)} (h : rows = db.rows.applyAll cs)
    (hcs : ∀ peer key (m : OutgoingMessage), (⟨.outbox peer key, some m⟩ : Change P.Key) ∉ cs) :
    ReceiptTx db rows := by
  intro peer key m id round hm hn
  rw [h] at hm
  rcases Rows.lookup_applyAll_some hm with hm | hm
  · exact (hcs _ _ _ hm).elim
  · rw [hn] at hm
    cases hm

/-! ## The parts of a round -/

section Rounds

variable {I : Db P.Key → Prop} {A : Db P.Key → Request × Answer → Prop}

/-- A part that sends only such receipts. -/
abbrev Honest (I : Db P.Key → Prop) (A : Db P.Key → Request × Answer → Prop) {α : Type}
    (x : Round P α) (db : Db P.Key) : Prop := Rounds I A ReceiptTx x db

/-- An operation that some other call makes sends none. -/
theorem Meets.receipts {call : Call} {α : Type} {R : Except CoreError α → Db P.Key → Prop}
    {p : Core P α} (h : Meets I A (Work start call) R p db) (hc : ¬ call.Syncs) :
    Meets I A ReceiptTx R p db :=
  h.weaken fun _ _ _ _ h => h.receiptTx hc

theorem receipt_honest (i : Nat) (round : UInt64) (ht : Took db handle id) :
    Meets I A ReceiptTx (Gives fun _ _ => True) (receipt i handle id round : Core P _) db := by
  refine ourIdentityPk_gives.gives_seq fun our db₁ h₁ _ => messenger_gives ?_
  refine Meets.gives_seq (V := fun p db' => (ClientId.receipt id round ≠ [] ∧
      (ClientId.receipt id round).length ≤ Messenger.maxClientMessageIdLen) ∧ Named db' handle p)
    (.of_sat (fun _ => Messenger.sendPeer_sat i handle _) fun _ _ _ db' h p hp =>
      ⟨(h.2 p hp).1, db', Db.Le.refl _, (h.2 p hp).2⟩) fun p db₂ h₂ hp => ?_
  refine (Meets.of_sat (fun _ => Messenger.sendAs_sat hp.2 hp.1) fun _ _ _ _ _ _ _ => trivial).weaken
    fun db' rows hle _ h => ?_
  obtain ⟨dest, q, old, new, m, h⟩ := h
  intro peer key m' id' round' hm hn hid
  rcases h.outbox hm with hm | ⟨rfl, rfl⟩
  · rw [hn] at hm
    cases hm
  · rw [h.clientMessageId] at hid
    obtain rfl := (ClientId.receipt_inj hid).1
    exact ⟨handle, h.named, ht.mono (h₁.trans (h₂.trans hle))⟩

theorem receiptAgain_honest (i : Nat) (ht : Took db handle id) :
    Meets I A ReceiptTx (Gives fun _ _ => True) (receiptAgain i handle id : Core P _) db := by
  refine (receipt_honest i 0 ht).gives_seq fun o db₁ h₁ _ => ?_
  split
  · refine Meets.gives_seq (V := fun _ _ => True) (.draw fun _ _ _ _ => gives_ok trivial)
      fun now db₂ h₂ _ => ?_
    exact (receipt_honest i _ (ht.mono (h₁.trans h₂))).gives_seq fun _ _ _ _ =>
      .pure (gives_ok trivial)
  · exact .pure (gives_ok trivial)

theorem acknowledgeOutgoing_honest (handle : UInt64) (bytes : Bytes) :
    Meets I A ReceiptTx (Gives fun _ _ => True)
      (Core.acknowledgeOutgoing handle bytes : Core P _) db := by
  refine lift_gives fun id _ => messenger_gives ?_
  refine (Meets.of_sat (fun _ => Messenger.acknowledgeOutgoing_sat handle id)
    fun _ _ _ _ _ _ _ => trivial).weaken fun db' rows _ _ h => ?_
  obtain ⟨peer, h⟩ := h
  exact receiptTx_of_eq h.eq fun _ _ _ hc => by cases List.mem_singleton.mp hc

theorem acknowledgeIncoming_honest (handle : UInt64) (bytes : Bytes) :
    Meets I A ReceiptTx (Gives fun _ _ => True)
      (Core.acknowledgeIncoming handle bytes : Core P _) db :=
  have h : Runs I A (Work db (.acknowledgeIncoming handle bytes))
      (Core.acknowledgeIncoming handle bytes : Core P _) db :=
    acknowledgeIncoming_runs fun _ hid _ _ => .raw (.inl (hid ▸ rfl))
  Meets.receipts h id

theorem acknowledgeAll_honest (handle : UInt64) (ids : List MessageId) :
    Honest I A (acknowledgeAll handle ids : Round P _) db := by
  induction ids generalizing db with
  | nil => exact .pure (gives_ok trivial)
  | cons acked ids ih =>
    refine (InRound.core (acknowledgeOutgoing_honest handle _)).gives_seq fun b _ _ _ => ?_
    split
    · exact (tally_rounds _).gives_seq fun _ _ _ _ => ih
    · exact ih

theorem settle_honest (i : Nat) (plaintext : Bytes) (ht : Took db handle id) :
    Honest I A (settle i handle id plaintext : Round P _) db := by
  have acked : ∀ db' : Db P.Key, Honest I A (do
      let _ ← Round.core (Core.acknowledgeIncoming handle id.val) : Round P Unit) db' := fun _ =>
    (InRound.core (acknowledgeIncoming_honest handle _)).gives_seq fun _ _ _ _ =>
      .pure (gives_ok trivial)
  unfold settle
  split
  · exact (InRound.core (receipt_honest i 0 ht)).gives_seq fun _ _ _ _ => .pure (gives_ok trivial)
  · exact (InRound.core (receipt_honest i 0 ht)).gives_seq fun _ db' _ _ => acked db'
  · exact (acknowledgeAll_honest handle _).gives_seq fun _ db' _ _ => acked db'
  · refine InRound.gives_seq (V := fun _ _ => True) (.dropped (gives_ok trivial)) fun _ _ _ _ => ?_
    exact InRound.gives_seq (V := fun _ _ => True) (.failed (gives_ok trivial)) fun _ db' _ _ =>
      acked db'

theorem settleAll_honest (i : Nat) (ms : List IncomingMessage)
    (hms : ∀ m ∈ ms, AcceptedFrom db handle m) :
    Honest I A (settleAll i handle ms : Round P _) db := by
  induction ms generalizing db with
  | nil => exact .pure (gives_ok trivial)
  | cons m ms ih =>
    refine (settle_honest i _ (.inl ⟨m, hms m List.mem_cons_self, rfl⟩)).gives_seq fun _ _ hle _ => ?_
    exact ih fun m hm => (hms m (List.mem_cons_of_mem _ hm)).mono hle

theorem settleSessions_honest (i : Nat) (sessions : List (Peer × UInt64)) :
    Honest I A (settleSessions i sessions : Round P _) db := by
  induction sessions generalizing db with
  | nil => exact .pure (gives_ok trivial)
  | cons s rest ih =>
    have inbox : Honest I A (settleInbox i s.2 : Round P _) db :=
      (InRound.core (pendingCommitted_gives s.2)).gives_seq fun ms _ _ hms => settleAll_honest i ms hms
    exact inbox.gives_seq fun _ _ _ _ => ih

theorem publishMessages_honest (hA : Free A) (i : Nat) (our peer : Peer) (handle : UInt64)
    (ms : List OutgoingMessage) :
    Honest I A (publishMessages i our peer handle ms : Round P _) db := by
  induction ms generalizing db with
  | nil => exact .pure (gives_ok trivial)
  | cons m ms ih =>
    have one : Honest I A (publishMessage i our peer handle m : Round P _) db := by
      refine (InRound.core (due_runs i _)).gives_seq fun d _ _ _ => ?_
      split
      · refine (sendEnvelope_rounds hA i _ _ _).gives_seq fun _ _ _ _ => ?_
        split
        · exact (InRound.core (acknowledgeOutgoing_honest handle _)).gives_seq fun _ _ _ _ =>
            .pure (gives_ok trivial)
        · exact .pure (gives_ok trivial)
      · exact .pure (gives_ok trivial)
    exact one.gives_seq fun _ _ _ _ => ih

theorem publishSessions_honest (hA : Free A) (i : Nat) (our : Peer)
    (sessions : List (Peer × UInt64)) :
    Honest I A (publishSessions i our sessions : Round P _) db := by
  induction sessions generalizing db with
  | nil => exact .pure (gives_ok trivial)
  | cons s rest ih =>
    obtain ⟨peer, handle⟩ := s
    refine (publishHandshake_rounds hA i our peer handle).gives_seq fun _ _ _ _ => ?_
    refine (InRound.core (pendingOutgoing_gives handle)).gives_seq fun ms _ _ _ => ?_
    exact (publishMessages_honest hA i our peer handle ms).gives_seq fun _ _ _ _ => ih

theorem publishPending_honest (hA : Free A) (i : Nat) (sessions : List (Peer × UInt64)) :
    Honest I A (publishPending i sessions : Round P _) db :=
  (InRound.core ourIdentityPk_gives).gives_seq fun our _ _ _ => publishSessions_honest hA i our _

/-! ## Processing -/

theorem setFlag_honest (sender : Peer) (flag : UInt8) :
    Meets I A ReceiptTx (Gives fun _ _ => True) (Chat.setFlag sender flag : Core P _) db :=
  have h : Runs I A (Work db (.markSeen sender)) (Chat.setFlag sender flag : Core P _) db :=
    setFlag_runs rfl
  Meets.receipts h id

theorem dropped_honest (v : Verdict) :
    Honest I A (do Round.dropped; return .delete v : Round P Fate) db :=
  InRound.gives_seq (V := fun _ _ => True) (.dropped (gives_ok trivial)) fun _ _ _ _ =>
    .pure (gives_ok trivial)

theorem refuseHandshake_honest (sender : Peer) (e : CoreError) (v : Verdict) :
    Honest I A (refuseHandshake sender e v : Round P _) db := by
  refine (InRound.core (setFlag_honest sender _)).gives_seq fun _ _ _ _ => ?_
  refine InRound.gives_seq (V := fun _ _ => True) (.dropped (gives_ok trivial)) fun _ _ _ _ => ?_
  exact InRound.gives_seq (V := fun _ _ => True) (.failed (gives_ok trivial)) fun _ _ _ _ =>
    .pure (gives_ok trivial)

theorem answerHandshake_honest (i : Nat) (sender : Peer) (body : Bytes) (legacy : Bool) :
    Honest I A (answerHandshake i sender body legacy : Round P _) db := by
  -- The responder's transaction is that of the call that the core exports for it.
  have h : Runs I A (Work db (.establishSessionResponder i (localSessionHandle P sender) body))
      (Core.establishSessionResponder i (localSessionHandle P sender) body : Core P _) db :=
    Meets.runs (establishSessionResponder_gives (Db.Le.refl db) i ⟨rfl, rfl⟩ fun _ _ h => h.elim)
  refine InRound.gives_seq (V := fun _ _ => True) (.attempt (Meets.receipts h id)
    (fun _ _ _ _ => gives_ok trivial) fun _ _ => gives_error) fun r _ _ _ => ?_
  split
  · exact .pure (gives_ok trivial)
  · split
    · exact InRound.gives_seq (V := fun _ _ => True) (.failed (gives_ok trivial)) fun _ _ _ _ =>
        .pure (gives_ok trivial)
    · split
      · exact dropped_honest _
      · exact refuseHandshake_honest _ _ _

theorem processHandshake_honest (i : Nat) (sender : Peer) (body : Bytes) :
    Honest I A (processHandshake i sender body : Round P _) db := by
  unfold processHandshake
  dsimp only
  split
  · exact dropped_honest _
  refine (InRound.core (hasSession_runs _)).gives_seq fun found _ _ _ => ?_
  split
  · refine (InRound.core (isLegacyUnconfirmed_runs _)).gives_seq fun legacy _ _ _ => ?_
    split
    · refine (InRound.core (initiatorHandshake_runs _)).gives_seq fun o _ _ _ => ?_
      split
      · refine (InRound.core (confirmed_runs _)).gives_seq fun c _ _ _ => ?_
        split
        · exact (InRound.core (setFlag_honest sender _)).gives_seq fun _ _ _ _ => dropped_honest _
        · exact dropped_honest _
      · exact dropped_honest _
    · exact answerHandshake_honest i sender body legacy
  · next hnone =>
    refine InRound.gives_seq (V := fun legacy _ => legacy = false) (.pure (gives_ok rfl))
      fun legacy _ _ _ => ?_
    split
    · next hx => simp [hnone] at hx
    · exact answerHandshake_honest i sender body legacy

theorem processMessage_honest (i : Nat) (sender : Peer) (wire : Bytes) :
    Honest I A (processMessage i sender wire : Round P _) db := by
  refine (InRound.core (hasSession_runs _)).gives_seq fun found db₁ _ _ => ?_
  have h : Meets I A (Work db₁ (.receiveMessage i (localSessionHandle P sender) wire))
      (Gives fun d db => ReceiveSays db (localSessionHandle P sender) wire d)
      (Core.receiveCommitted i (localSessionHandle P sender) wire : Core P _) db₁ :=
    receiveCommitted_gives i ⟨rfl, rfl⟩
  refine InRound.gives_seq
    (V := fun r db' => Gives (fun d db => ReceiveSays db (localSessionHandle P sender) wire d) r db')
    (.attempt (Meets.receipts h id) (fun r db' _ h => gives_ok h) fun _ _ => gives_error)
    fun r db₂ _ h => ?_
  cases r with
  | ok d =>
    cases h _ rfl with
    | accepted m ha hm =>
      refine (tally_rounds _).gives_seq fun _ _ hle _ => ?_
      exact (settle_honest i _ (.inl ⟨m, ha.mono hle, rfl⟩)).gives_seq fun _ _ _ _ =>
        .pure (gives_ok trivial)
    | duplicate u peer hn db₀ h₀ ha =>
      refine (tally_rounds _).gives_seq fun _ _ hle _ => ?_
      have ht := Took.mono (.inr ⟨peer, hn, db₀, h₀, ha⟩) hle
      exact (InRound.core (receiptAgain_honest i ht)).gives_seq fun _ _ _ _ => .pure (gives_ok trivial)
  | error e =>
    cases e with
    | noSession _ => exact .pure (gives_ok trivial)
    | crypto msg => exact dropped_honest _
    | staleSignedPrekey => exact refuseHandshake_honest _ _ _
    | oneTimePrekeyUnavailable _ => exact refuseHandshake_honest _ _ _
    | oneTimePrekeyRequired => exact refuseHandshake_honest _ _ _
    | sessionUnresolved _ _ =>
      exact (InRound.core (recoverSession_runs i _)).gives_seq fun _ _ _ _ => .pure (gives_ok trivial)
    | _ =>
      exact InRound.gives_seq (V := fun _ _ => True) (.failed (gives_ok trivial)) fun _ _ _ _ =>
        .pure (gives_ok trivial)

theorem fateOf_honest (i : Nat) (env : Option Envelope) :
    Honest I A (fateOf i env : Round P _) db := by
  cases env with
  | none => exact dropped_honest _
  | some env =>
    refine InRound.gives_seq (V := fun _ _ => True) (.core (pinned_runs _)) fun o _ _ _ => ?_
    cases o with
    | none => exact dropped_honest _
    | some card =>
      cases env with
      | handshake sender body => exact processHandshake_honest i sender body
      | message sender wire => exact processMessage_honest i sender wire

/-! ## Scanning -/

theorem scanEnvelope_honest (i : Nat) (pass : Pass) (seq : UInt64) (bytes : Bytes) (s : Scan) :
    Honest I A (scanEnvelope i pass seq bytes s : Round P _) db := by
  have note : ∀ (s : Scan) (fate : Fate) (db' : Db P.Key),
      Honest I A (noteFate seq bytes s fate : Round P _) db' := fun s fate db' => by
    cases fate with
    | delete verdict => exact .pure (gives_ok trivial)
    | keep => exact (tally_rounds _).gives_seq fun _ _ _ _ => .pure (gives_ok trivial)
  have rest : ∀ db' : Db P.Key, Honest I A (do
        if !Pass.selects pass (Envelope.decode bytes) then
          return { s with after := seq, seen := s.seen + 1 }
        noteFate seq bytes { s with after := seq, seen := s.seen + 1 }
          (← fateOf i (Envelope.decode bytes)) : Round P Scan) db' := by
    intro db'
    split
    · exact .pure (gives_ok trivial)
    · exact (fateOf_honest i _).gives_seq fun fate db'' _ _ => note _ fate db''
  unfold scanEnvelope
  dsimp only
  split
  · exact (tally_rounds _).gives_seq fun _ db' _ _ => rest db'
  · exact rest db

theorem scanItems_honest (i : Nat) (pass : Pass) (until_ : UInt64) (items : List (UInt64 × Bytes))
    (s : Scan) : Honest I A (scanItems i pass until_ items s : Round P _) db := by
  induction items generalizing db s with
  | nil => exact .pure (gives_ok trivial)
  | cons x items ih =>
    obtain ⟨seq, bytes⟩ := x
    unfold scanItems
    dsimp only
    split
    · exact InRound.seq (.throw (R := Gives fun _ _ => False) gives_error) (fun _ _ _ _ => gives_error)
        fun _ _ _ h => (h _ rfl).elim
    split
    · exact .pure (gives_ok trivial)
    refine (scanEnvelope_honest i pass seq bytes s).gives_seq fun s' _ _ _ => ?_
    split
    · exact .pure (gives_ok trivial)
    · exact ih s'

theorem scanPages_honest (hA : ∀ db x, A db x) (i : Nat) (our : Peer) (pass : Pass) (until_ : UInt64)
    (pages : Nat) (s : Scan) : Honest I A (scanPages i our pass until_ pages s : Round P _) db := by
  induction pages generalizing db s with
  | zero => exact .pure (gives_ok trivial)
  | succ pages ih =>
    refine InRound.gives_seq (V := fun _ _ => True) (.core (request_runs fun _ _ _ => hA _ _))
      fun items _ _ _ => ?_
    dsimp only
    split
    · exact InRound.seq (.throw (R := Gives fun _ _ => False) gives_error) (fun _ _ _ _ => gives_error)
        fun _ _ _ h => (h _ rfl).elim
    split
    · exact .pure (gives_ok trivial)
    refine (scanItems_honest i pass until_ items s).gives_seq fun r _ _ _ => ?_
    obtain ⟨s', ended⟩ := r
    dsimp only
    split
    · exact .pure (gives_ok trivial)
    · exact ih s'

theorem scan_honest (hA : ∀ db x, A db x) (i : Nat) (our : Peer) (pass : Pass) (until_ : UInt64) :
    Honest I A (scan i our pass until_ : Round P _) db := by
  refine (scanPages_honest hA i our pass until_ _ {}).gives_seq fun s _ _ _ => ?_
  dsimp only
  split
  · exact InRound.gives_seq (V := fun _ _ => True) (.core (request_runs fun _ _ _ => hA _ _))
      fun _ _ _ _ => .pure (gives_ok trivial)
  · exact .pure (gives_ok trivial)

/-! ## Rounds -/

theorem syncRound_honest (hA : ∀ db x, A db x) (i : Nat) :
    Honest I A (syncRound i : Round P _) db := by
  have hF : Free A := fun _ _ _ _ => hA _ _
  refine (InRound.core sessions_runs).gives_seq fun before _ _ _ => ?_
  refine (settleSessions_honest i before).gives_seq fun _ _ _ _ => ?_
  refine (InRound.core (connect_runs hF)).gives_seq fun _ db₁ _ _ => ?_
  have put : Runs I A (Step db₁ .publishPrekeys) (putBundle : Core P _) db₁ :=
    putBundle_runs hF trivial
  refine (InRound.core (put.weaken fun _ _ _ _ h => h.receiptTx id)).gives_seq fun _ _ _ _ => ?_
  refine (publishPending_honest hF i before).gives_seq fun _ _ _ _ => ?_
  refine (InRound.core ourIdentityPk_gives).gives_seq fun our _ _ _ => ?_
  have last : ∀ db' : Db P.Key, Honest I A (do
      let after ← Round.core sessions
      publishPending i after : Round P _) db' := fun db' =>
    (InRound.core sessions_runs).gives_seq fun after _ _ _ => publishPending_honest hF i after
  refine (scan_honest hA i our .handshakes _).gives_seq fun reached db₂ _ _ => ?_
  split
  · exact (scan_honest hA i our .messages _).gives_seq fun _ db₃ _ _ => last db₃
  · exact last db₂

theorem syncInto_honest (hA : ∀ db x, A db x) (i : Nat) :
    Honest I A (Chat.syncInto i : Round P _) db := by
  refine InRound.gives_seq (V := fun _ _ => True) (.core fun tr t mem asked ht => ?_)
    fun _ _ _ _ => tally_rounds _
  exact Op.wp_attempt ((reportOf_ends (syncRound_honest hA i) tr t mem asked ht).mono
    (fun _ _ hg => hg) fun _ _ _ _ _ _ => trivial)

theorem refresh_honest (i : Nat) (peer : Peer) :
    Meets I A ReceiptTx (Gives fun _ _ => True) (Chat.refresh i peer : Core P _) db :=
  have h : Runs I A (Work db (.chatEntries i peer)) (Chat.refresh i peer : Core P _) db :=
    refresh_runs i rfl
  Meets.receipts h id

theorem refreshAll_honest (i : Nat) (peers : List Peer) :
    Honest I A (Chat.refreshAll i peers : Round P _) db := by
  induction peers generalizing db with
  | nil => exact .pure (gives_ok trivial)
  | cons peer peers ih =>
    exact (InRound.core (refresh_honest i peer)).gives_seq fun _ _ _ _ => ih.gives_seq
      fun _ _ _ _ => .pure (gives_ok trivial)

theorem updateMeta_honest (peer : Peer) {f : ChatMeta → ChatMeta}
    (hf : ∀ m, (f m).lastSeq = m.lastSeq) (hs : ∀ m, Chat.Short m → Chat.Short (f m)) :
    Meets I A ReceiptTx (Gives fun _ _ => True) (Chat.updateMeta peer f : Core P _) db :=
  have h : Runs I A (Work db (.markSeen peer)) (Chat.updateMeta peer f : Core P _) db :=
    updateMeta_runs rfl hf hs
  Meets.receipts h id

theorem startQueued_honest (hI : ∀ db, I db → Filed db) (hA : Free A) (i : Nat) (peer : Peer) :
    Honest I A (Chat.startQueued i peer : Round P _) db := by
  have h : Runs I A (Work db (.startSession i peer)) (startSession i peer : Core P _) db :=
    startSession_runs hI hA i rfl
  have noted : ∀ (f : ChatMeta → ChatMeta) (b : Bool) (db' : Db P.Key),
      (∀ m, (f m).lastSeq = m.lastSeq) → (∀ m, Chat.Short m → Chat.Short (f m)) → Honest I A (do
        Round.core (Chat.updateMeta peer f)
        return b : Round P Bool) db' := fun f b db' hf hs =>
    (InRound.core (updateMeta_honest peer hf hs)).gives_seq fun _ _ _ _ => .pure (gives_ok trivial)
  refine InRound.gives_seq (V := fun _ _ => True) (.attempt (Meets.receipts h id)
    (fun _ _ _ _ => gives_ok trivial) fun _ _ => gives_error) fun r _ _ _ => ?_
  split
  · exact noted _ _ _ (fun _ => rfl) fun _ h => h.withFlags.withNote (by decide)
  · exact noted _ _ _ (fun _ => rfl) fun _ h => h.withNote (by decide)
  · exact noted _ _ _ (fun _ => rfl) fun _ h => h.withFlags
  · exact .pure (gives_ok trivial)
  · exact InRound.gives_seq (V := fun _ _ => True) (.failed (gives_ok trivial)) fun _ _ _ _ =>
      .pure (gives_ok trivial)

theorem startAll_honest (hI : ∀ db, I db → Filed db) (hA : Free A) (i : Nat) (peers : List Peer) :
    Honest I A (Chat.startAll i peers : Round P _) db := by
  induction peers generalizing db with
  | nil => exact .pure (gives_ok trivial)
  | cons peer peers ih =>
    have one : Honest I A (Chat.startOne i peer : Round P _) db := by
      refine (InRound.core (refresh_honest i peer)).gives_seq fun r _ _ _ => ?_
      refine (InRound.core (hasSession_runs _)).gives_seq fun found _ _ _ => ?_
      dsimp only
      split
      · refine (InRound.core (confirmed_runs _)).gives_seq fun c _ _ _ => ?_
        refine (InRound.core (updateMeta_honest peer (fun m => ?_) fun m h => ?_)).gives_seq
          fun _ _ _ _ => .pure (gives_ok trivial)
        · cases c <;> rfl
        · cases c
          · exact h.withFlags.withNote (by decide)
          · exact h.withFlags.withFlags.withNote (by decide)
      split
      · exact .pure (gives_ok trivial)
      refine (InRound.core (metaOf_gives peer)).gives_seq fun m _ _ _ => ?_
      split
      · exact .pure (gives_ok trivial)
      · exact startQueued_honest hI hA i peer
    exact one.gives_seq fun _ _ _ _ => ih.gives_seq fun _ _ _ _ => .pure (gives_ok trivial)

theorem syncConversationsRound_honest (hI : ∀ db, I db → Filed db) (hA : ∀ db x, A db x) (i : Nat) :
    Honest I A (Chat.syncConversationsRound i : Round P _) db := by
  have hF : Free A := fun _ _ _ _ => hA _ _
  refine (InRound.core contacts_runs).gives_seq fun peers _ _ _ => ?_
  refine (refreshAll_honest i peers).gives_seq fun _ _ _ _ => ?_
  refine (syncInto_honest hA i).gives_seq fun _ _ _ _ => ?_
  refine (startAll_honest hI hF i peers).gives_seq fun started _ _ _ => ?_
  refine (refreshAll_honest i peers).gives_seq fun committed _ _ _ => ?_
  split
  · refine (syncInto_honest hA i).gives_seq fun _ _ _ _ => ?_
    exact (refreshAll_honest i peers).gives_seq fun _ _ _ _ => .pure (gives_ok trivial)
  · exact .pure (gives_ok trivial)

end Rounds

/-! ## Every receipt -/

/-- Every call keeps to such transactions. -/
theorem body_receipts (call : Call) {db : Db P.Key} (h : Sound scope db) :
    Ends (Sound scope) (fun _ _ => True) ReceiptTx (fun _ _ _ => True) (body call) [] db := by
  by_cases hc : call.Syncs
  · have hI : ∀ db, Sound scope db → Filed db := fun _ h => filed h.valid
    cases call with
    | sync i => exact Ends.returning (reportOf_ends (syncRound_honest (fun _ _ => trivial) i) [])
    | syncConversations i =>
      exact Ends.returning (reportOf_ends (syncConversationsRound_honest hI (fun _ _ => trivial) i) [])
    | _ => exact hc.elim
  · exact fun t mem asked ht => (body_ends call h t mem asked ht).mono
      (fun _ _ hg => hg.imp (fun _ _ => trivial) fun _ h => h.receiptTx hc) fun _ _ _ h => h

/-- Every receipt since `start` names a message that was accepted before. -/
def ReceiptsSince (start db : Db P.Key) : Prop :=
  ∀ db₀ rows, start.Le db₀ → (Db.push db₀ rows).Le db → ReceiptTx db₀ rows

theorem ReceiptsSince.push (h : ReceiptsSince start db) (ht : ReceiptTx db rows) :
    ReceiptsSince start (db.push rows) := by
  intro db₀ rows₀ hs hle
  rcases Db.le_push_cases hle with heq | hle
  · obtain ⟨rfl, rfl⟩ := Db.push_inj heq
    exact ht
  · exact h db₀ rows₀ hs hle

/-- What an action of a call does, also to receipts. -/
structure ActsHonestly (scope : Scope P) (call : Call) (s₀ s s' : Device P.Key Memory) : Prop where
  acts : Acts (Asks s₀.db) (Step scope.start call) s s'
  receipts : Acts (fun _ _ => True) ReceiptTx s s'

theorem ActsHonestly.since {s₀ s s' : Device P.Key Memory} (h : ActsHonestly scope call s₀ s s')
    (hr : ReceiptsSince start s.db) : ReceiptsSince start s'.db := by
  rcases h.receipts.moves with hs | ⟨rows, ht, hs⟩
  · rw [hs]
    exact hr
  · rw [hs]
    exact hr.push ht

/-- The contract of a device, with what its receipts name. -/
def receiptContract (scope : Scope P) : Contract (system P scope.calls) where
  I s := Sound scope s.db ∧ ReceiptsSince scope.start s.db
  R s s' := s.db.Le s'.db
  G := ActsHonestly scope
  Q _ _ _ _ _ := True
  refl := Device.le_refl
  trans := Device.le_trans
  guarantee call s₀ s s' hc hI hG := by
    obtain ⟨hsound, hle⟩ := (contract scope).guarantee call s₀ s s' hc hI.1 hG.acts
    exact ⟨⟨hsound, hG.since hI.2⟩, hle⟩
  env _ _ hI he := by
    obtain ⟨i, rfl⟩ := he
    exact ⟨hI, Db.Le.refl _⟩
  triple call s _ hI := by
    have h := body_ends call hI.1 [] s.mem s.asked rfl
    have h' := body_receipts call hI.1 [] s.mem s.asked rfl
    exact ((h.both h').strengthen fun _ h => h.1).mono (fun _ _ hg => ⟨hg.1, hg.2⟩)
      fun _ _ _ _ => trivial

theorem receipts_since {c : DeviceConfig P} (h : Reachable scope c) :
    ReceiptsSince scope.start c.shared.db := by
  have hstart : (receiptContract scope).I ⟨scope.start, fun _ => {}, []⟩ :=
    ⟨⟨h.started, Db.Le.refl _⟩, fun _ _ hs hle => (Db.not_push_le (hle.trans hs)).elim⟩
  exact (Contract.sound hstart h.run).inv.2

/-- The receipt `m` for `id` was put in the outbox after a message with this id was accepted from
`peer`. -/
def ReceiptEarned (db : Db P.Key) (peer : Peer) (key : MessageId) (m : OutgoingMessage)
    (id : MessageId) : Prop :=
  ∃ db₀ rows accepted, (Db.push db₀ rows).Le db ∧ db₀.rows.lookup (.outbox peer key) = none ∧
    rows.lookup (.outbox peer key) = some m ∧ db₀.Ever (.inbox peer id) accepted

/-- **Receipts are honest**: every receipt that a device ever put in its outbox names a message that it
accepted before, from the peer that gets the receipt. -/
theorem receipts_honest {c : DeviceConfig P} (h : Reachable scope c) (hh : HandlesTell c.shared.db)
    (hm : c.shared.db.Ever (.outbox peer key) m) (hnew : ¬ scope.start.Ever (.outbox peer key) m)
    {round : UInt64} (hid : m.clientMessageId = ClientId.receipt id round) :
    ReceiptEarned c.shared.db peer key m id := by
  have hv := h.valid
  obtain ⟨our, -, hmv⟩ := exists_our hv
  obtain ⟨db₀, rows, handle, clientId, plaintext, q, old, new, hle, hs⟩ :=
    Messenger.sentIn_of_ever hmv hm
  obtain rfl : m.messageId = key := ((Messenger.messagesOk hmv).outbox_id peer key m hm).1
  have hrows : rows.lookup (.outbox peer m.messageId) = some m := by
    rw [hs.eq, Messenger.sendChanges, Rows.applyAll_cons]
    exact Rows.lookup_applyAll_head (k := .outbox peer m.messageId) _ (some m) (by simp)
  have hever : (db₀.push rows).Ever (.outbox peer m.messageId) m := Db.ever_now hrows
  have hstart : scope.start.Le db₀ := by
    rcases Db.le_total h.holds.inv.started hle with h' | h'
    · rcases Db.le_push_cases h' with heq | h'
      · exact (hnew (heq ▸ hever)).elim
      · exact h'
    · exact (hnew (hever.mono h')).elim
  have hle₀ := (Db.le_push db₀ rows).trans hle
  obtain ⟨handle', hn, ht⟩ :=
    receipts_since h db₀ rows hstart hle peer _ m id round hrows hs.noOutbox hid
  obtain ⟨peer', accepted, hn', he⟩ := ht.ever (hv.le hle₀)
  -- The handle names one peer.
  have hown := (hh.own handle' peer (hn.mono hle₀)).symm.trans (hh.own handle' peer' (hn'.mono hle₀))
  obtain rfl := hh.injective peer peer' (.inl (.inr ⟨handle', hn.mono hle₀⟩))
    (.inl (.inr ⟨handle', hn'.mono hle₀⟩)) hown
  exact ⟨db₀, rows, accepted, hle, hs.noOutbox, hrows, he⟩

/-! ## A receipt -/

namespace DeletedRun

/-- The id of the message that arrives. -/
def arrived : MessageId := Messenger.messageId symbolicApp.toPlatform wire

/-- What was ever in the outbox, with the peer and the key it was under. -/
def outboxView {K : Type} : (k : Key) → Row K k → Option (Peer × MessageId × OutgoingMessage)
  | .outbox p key, m => some (p, key, m)
  | _, _ => none

theorem receipt_facts : run.map (fun c => decide (HandlesTell c.shared.db ∧
    ((c.shared.db.select outboxView).head?.map fun x => x.2.2.clientMessageId) =
      some (ClientId.receipt arrived 0))) = some true := by decide +kernel

end DeletedRun

theorem receipts_honest_first : ∃ (c : DeviceConfig symbolicApp) (peer : Peer) (key : MessageId)
    (m : OutgoingMessage), Reachable KeptRun.chatOnly c ∧
    m.clientMessageId = ClientId.receipt DeletedRun.arrived 0 ∧
    ReceiptEarned c.shared.db peer key m DeletedRun.arrived := by
  obtain ⟨c, hc, hfacts⟩ := Option.map_eq_some_iff.mp DeletedRun.receipt_facts
  obtain ⟨hh, he⟩ := of_decide_eq_true hfacts
  obtain ⟨⟨peer, key, m⟩, hx, hid⟩ := Option.map_eq_some_iff.mp he
  obtain ⟨k, v, hl, hv⟩ := Db.mem_select.mp (List.mem_of_mem_head? hx)
  have hr := DeletedRun.reachable hc
  cases k <;> cases hv
  exact ⟨c, peer, key, m, hr, hid, receipts_honest hr hh hl Db.not_ever_empty hid⟩

end Network

end Arcium
