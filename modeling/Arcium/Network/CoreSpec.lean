import Arcium.Network.Transition
import Arcium.Network.Rules

/-!
# The rules of the core's operations

For each operation of the core, which of the transactions of `Work` it commits, and what its result
says about the history. The reasons of a transaction are the caller's: a rule asks for them.
-/

namespace Arcium

open Conc

/-- A rule for the transactions of `Work` is one for those of `Step`. -/
theorem Meets.step {P : AppPlatform} {I : Db P.Key → Prop} {A : Db P.Key → Request × Answer → Prop}
    {start : Db P.Key} {call : Network.Call} {α : Type} {R : Except CoreError α → Db P.Key → Prop}
    {p : Core P α} {db : Db P.Key} (h : Meets I A (Network.Work start call) R p db) :
    Meets I A (Network.Step start call) R p db :=
  h.weaken fun _ _ _ _ h => .work h

theorem InRound.step {P : AppPlatform} {I : Db P.Key → Prop} {A : Db P.Key → Request × Answer → Prop}
    {start : Db P.Key} {call : Network.Call} {α : Type} {R : Except CoreError α → Db P.Key → Prop}
    {x : Round P α} {db : Db P.Key} (h : InRound I A (Network.Work start call) R x db) :
    InRound I A (Network.Step start call) R x db :=
  h.weaken fun _ _ h => .work h

namespace Network

variable {P : AppPlatform} {start : Db P.Key} {call : Call} {I : Db P.Key → Prop}
  {A : Db P.Key → Request × Answer → Prop} {T : Db P.Key → Rows P.Key → Prop} {db : Db P.Key}
  {α β : Type}

/-! ## Plumbing -/

theorem lift_seq {x : Except CoreError α} {f : α → Core P β} {S : Except CoreError β → Db P.Key → Prop}
    (ho : ∀ a, x = .ok a → Meets I A T S (f a) db) (he : ∀ e, x = .error e → S (.error e) db) :
    Meets I A T S (Core.lift x >>= f) db := by
  cases x with
  | ok a => exact fun tr => Sat.bind (Sat.pure (ho a rfl tr))
  | error e => exact fun tr => Sat.bind (Sat.throw (he e rfl))

theorem throw_gives {e : CoreError} {f : α → Core P β} {W : β → Db P.Key → Prop} :
    Meets I A T (Gives W) (throw e >>= f) db := fun _ => Sat.bind (Sat.throw gives_error)

theorem lift_gives {x : Except CoreError α} {f : α → Core P β} {W : β → Db P.Key → Prop}
    (ho : ∀ a, x = .ok a → Meets I A T (Gives W) (f a) db) :
    Meets I A T (Gives W) (Core.lift x >>= f) db := lift_seq ho fun _ _ => gives_error

theorem messenger_meets {sessionId : UInt64} {x : Do P.toPlatform α}
    {R : Except CoreError α → Db P.Key → Prop}
    (h : Meets I A T (fun r db => R (r.mapError (CoreError.messaging sessionId)) db) x db) :
    Meets I A T R (Core.messenger sessionId x) db := Meets.mapError h

theorem messenger_gives {sessionId : UInt64} {x : Do P.toPlatform α} {V : α → Db P.Key → Prop}
    (h : Meets I A T (Gives V) x db) : Meets I A T (Gives V) (Core.messenger sessionId x) db :=
  messenger_meets (h.mono fun r _ _ hr => by
    cases r with
    | ok a => exact gives_ok (hr a rfl)
    | error e => exact gives_error)

/-! ## Reads -/

theorem get_gives (k : Key) :
    Meets I A T (Gives fun v db => db.Ever k v) (Core.get k : Core P _) db := by
  refine (Meets.find (R := Gives fun v db' => ∀ w, v = some w → db'.Ever k w)
    (fun db' _ _ => gives_ok fun w hw => Db.ever_now hw) fun _ _ _ _ _ => gives_error).gives_seq
    fun v db' _ hv => ?_
  cases v with
  | some w => exact .pure (gives_ok (hv w rfl))
  | none => exact .throw gives_error

theorem requireIdentity_gives :
    Meets I A T (Gives fun identity db => db.Ever .identity identity)
      (Core.requireIdentity : Core P _) db := by
  refine (Meets.find (R := Gives fun v db' => ∀ w, v = some w → db'.Ever .identity w)
    (fun db' _ _ => gives_ok fun w hw => Db.ever_now hw) fun _ _ _ _ _ => gives_error).gives_seq
    fun v db' _ hv => ?_
  cases v with
  | some w => exact .pure (gives_ok (hv w rfl))
  | none => exact .throw gives_error

theorem ourIdentityPk_gives :
    Meets I A T (Gives fun our db => Ours db our) (Core.ourIdentityPk : Core P _) db :=
  requireIdentity_gives.gives_seq fun identity _ _ h => .pure (gives_ok ⟨identity, h, rfl⟩)

/-- A handle that was looked up named its peer. -/
theorem peerOf_gives (handle : UInt64) :
    Meets I A T (Gives fun o db => ∀ p, o = some p → Named db handle p)
      (Messenger.peerOf handle : Do P.toPlatform _) db :=
  Meets.of_sat (fun _ => Messenger.peerOf_sat handle) fun _ _ _ db' h o ho _ hp =>
    ⟨db', Db.Le.refl _, (h.2 o ho).trans hp⟩

theorem requirePeer_gives (handle : UInt64) :
    Meets I A T (Gives fun p db => Named db handle p)
      (Messenger.requirePeer handle : Do P.toPlatform _) db :=
  Meets.of_sat (fun _ => Messenger.requirePeer_sat handle) fun _ _ _ db' h p hp =>
    ⟨db', Db.Le.refl _, h.2 p hp⟩

/-- A rule that says nothing of the result. -/
abbrev Runs (I : Db P.Key → Prop) (A : Db P.Key → Request × Answer → Prop)
    (T : Db P.Key → Rows P.Key → Prop) (p : Core P α) (db : Db P.Key) : Prop :=
  Meets I A T (Gives fun _ _ => True) p db

theorem Meets.runs {R : Except CoreError α → Db P.Key → Prop} {p : Core P α}
    (h : Meets I A T R p db) : Runs I A T p db := h.mono fun _ _ _ _ _ _ => trivial

theorem hasSession_runs (handle : UInt64) : Runs I A T (Core.hasSession handle : Core P _) db :=
  (messenger_gives (peerOf_gives handle)).gives_seq fun _ _ _ _ => .pure (gives_ok trivial)

theorem isLegacyUnconfirmed_runs (handle : UInt64) :
    Runs I A T (Core.isLegacyUnconfirmed handle : Core P _) db := by
  refine ourIdentityPk_gives.gives_seq fun our _ _ _ => ?_
  exact messenger_gives (.of_sat (fun _ => Messenger.isLegacyUnconfirmed_sat handle)
    fun _ _ _ _ _ _ _ => trivial)

theorem initiatorHandshake_runs (handle : UInt64) :
    Runs I A T (Core.initiatorHandshake handle : Core P _) db :=
  messenger_gives (.of_sat (fun _ => Messenger.initialOutbound_sat handle) fun _ _ _ _ _ _ _ => trivial)

theorem confirmed_runs (handle : UInt64) : Runs I A T (confirmed handle : Core P _) db := by
  refine ourIdentityPk_gives.gives_seq fun our _ _ _ => ?_
  exact messenger_gives (.of_sat (fun _ => Messenger.hasReceived_sat handle)
    fun _ _ _ _ _ _ _ => trivial)

theorem recoverSession_runs (i : Nat) (handle : UInt64) :
    Runs I A T (Core.recoverSession i handle : Core P _) db := by
  refine ourIdentityPk_gives.gives_seq fun our _ _ _ => messenger_gives ?_
  refine Meets.gives_seq (V := fun _ _ => True) (.remembered fun _ _ _ _ => gives_ok trivial)
    fun mark db' _ _ => ?_
  exact .of_sat (fun _ => Messenger.recoverFrom_sat i handle mark) fun _ _ _ _ _ _ _ => trivial

theorem pendingOutgoing_gives (handle : UInt64) :
    Meets I A T (Gives fun ms db => ∃ p, Named db handle p ∧
      ∀ m ∈ ms, ∃ id, db.Ever (.outbox p id) m) (Core.pendingOutgoing handle : Core P _) db := by
  refine messenger_gives ((requirePeer_gives handle).gives_seq fun p db' _ hp => ?_)
  refine (Meets.of_sat (fun _ => Messenger.pendingOutgoingFor_sat p)
    fun _ _ _ _ h ms hm => h.2 ms hm).mono (U := Gives fun ms db => ∃ p, Named db handle p ∧
      ∀ m ∈ ms, ∃ id, db.Ever (.outbox p id) m) fun r db'' hle h ms hm => ?_
  exact ⟨p, hp.mono hle, h ms hm⟩

theorem pendingCommitted_gives (handle : UInt64) :
    Meets I A T (Gives fun ms db => ∀ m ∈ ms, AcceptedFrom db handle m)
      (Core.pendingCommitted handle : Core P _) db := by
  refine messenger_gives ((requirePeer_gives handle).gives_seq fun p db' _ hp => ?_)
  refine (Meets.of_sat (fun _ => Messenger.pendingIncomingFor_sat p)
    fun _ _ _ _ h ms hm => h.2 ms hm).mono
      (U := Gives fun ms db => ∀ m ∈ ms, AcceptedFrom db handle m) fun r db'' hle h ms hm m hmem => ?_
  obtain ⟨id, he⟩ := h ms hm m hmem
  exact ⟨p, id, hp.mono hle, he⟩

theorem priorSend_gives (peer : Peer) (clientId : Bytes) :
    Meets I A T (Gives fun o db => ∀ x, o = some x → ∃ db₀ : Db P.Key, db₀.Le db ∧
        Messenger.PriorAt (P := P.toPlatform) db₀.rows peer clientId x)
      (Core.priorSend peer clientId : Core P _) db := by
  refine messenger_gives (.of_sat (fun _ => Messenger.readPriorSend_sat peer clientId)
    fun _ r _ db' h o ho x hx => ?_)
  subst ho hx
  cases h.2 with
  | prior o ho => exact ⟨db', Db.Le.refl _, ho⟩

theorem pinned_runs (peer : Peer) : Runs I A T (Core.pinned peer : Core P _) db :=
  .find (fun _ _ _ => gives_ok trivial) fun _ _ _ _ _ => gives_error

theorem readCards_runs (peers : List Peer) : Runs I A T (Core.readCards peers : Core P _) db := by
  induction peers generalizing db with
  | nil => exact .pure (gives_ok trivial)
  | cons p peers ih =>
    exact (get_gives _).gives_seq fun _ _ _ _ => ih.gives_seq fun _ _ _ _ => .pure (gives_ok trivial)

theorem contacts_runs : Runs I A T (Core.contacts : Core P _) db :=
  Meets.gives_seq (V := fun _ _ => True)
    (.keysUnder (fun _ _ _ => gives_ok trivial) fun _ _ _ _ => gives_error)
    fun _ _ _ _ => readCards_runs _

theorem contactCard_runs : Runs I A T (Core.contactCard : Core P _) db :=
  requireIdentity_gives.gives_seq fun _ _ _ _ => .pure (gives_ok trivial)

theorem exportPrekeyBundle_runs : Runs I A T (Core.exportPrekeyBundle : Core P _) db :=
  requireIdentity_gives.gives_seq fun _ _ _ _ => (get_gives _).gives_seq fun _ _ _ _ =>
    .pure (gives_ok trivial)

/-! ## Records of the core -/

theorem saveIdentity_runs {identity : Identity} (hc : call = .saveIdentity identity) :
    Runs I A (Work start call) (Core.saveIdentity identity : Core P _) db := by
  refine .tx (fun db' read a c cs _ _ hr h => ?_) fun _ _ _ _ _ _ _ => trivial
  split at h
  · cases h
  · next hn =>
    cases h
    exact ⟨.identity identity hc ⟨hr.missing _ hn, rfl⟩, trivial⟩
  · cases h

theorem newOneTimePrekey_runs : Runs I A T (Core.newOneTimePrekey : Core P _) db :=
  Meets.gives_seq (V := fun _ _ => True) (.draw fun _ _ _ _ => gives_ok trivial) fun _ _ _ _ =>
    Meets.gives_seq (V := fun _ _ => True) (.draw fun _ _ _ _ => gives_ok trivial) fun _ _ _ _ =>
      .pure (gives_ok trivial)

theorem establishPrekeys_runs (hc : call.EstablishesPrekeys) :
    Runs I A (Step start call) (Core.establishPrekeys : Core P _) db := by
  refine requireIdentity_gives.gives_seq fun identity db₁ _ hi => ?_
  refine Meets.gives_seq (V := fun _ _ => True) (.draw fun _ _ _ _ => gives_ok trivial)
    fun sk db₂ h₂ _ => newOneTimePrekey_runs.gives_seq fun opk db₃ h₃ _ => ?_
  refine .tx (fun db' read a c cs hle _ _ h => ?_) fun _ _ _ _ _ _ _ => trivial
  cases h
  exact ⟨.prekeys hc identity sk opk ⟨hi.mono (h₂.trans (h₃.trans hle)), rfl⟩, trivial⟩

theorem getOpt_ok {rows : Rows P.Key} {read : (k : Key) → Except StorageError (Row P.Key k)}
    (hr : Reads rows read) {k : Key} {v : Option (Row P.Key k)} (h : Core.getOpt read k = .ok v) :
    rows.lookup k = v := by
  unfold Core.getOpt at h
  split at h
  · next v hv => rw [hr.found _ _ hv, Except.ok.inj h]
  · next hv => rw [hr.missing _ hv, Except.ok.inj h]
  · cases h

theorem addContact_runs {card : Bytes}
    (hc : ∃ bytes, call = .addContact bytes ∨ ∃ name, call = .addNamedContact bytes name) :
    Runs I A (Work start call) (Core.addContact card : Core P _) db := by
  refine lift_gives fun parsed _ => ourIdentityPk_gives.gives_seq fun our db₁ _ ho => ?_
  dsimp only
  split
  · exact throw_gives
  next hne =>
  refine .tx (fun db' read a c cs hle _ hr h => ?_) fun _ _ _ _ _ _ _ => trivial
  simp only [bind, Except.bind] at h
  split at h
  · cases h
  next v hv =>
  have hl := getOpt_ok hr hv
  cases v with
  | some existing =>
    dsimp only at h
    split at h
    · cases h
    · cases h
  | none =>
    cases h
    exact ⟨.contact parsed hc ⟨hl, ⟨our, ho.mono hle, hne⟩, rfl⟩, trivial⟩

/-! ## Sessions -/

theorem establishSessionInitiator_runs (i : Nat) {handle : UInt64} {peerBundle : Bytes}
    (hc : ∀ db', db.Le db' → ∀ bundle, unpackPrekeyBundle P peerBundle = .ok bundle →
      (∃ i, call = .establishSessionInitiator i handle peerBundle) ∨
        ∃ peer, handle = localSessionHandle P peer ∧ bundle.identityPk = peer ∧
          Matches db' peer bundle ∧ call.Starts peer) :
    Runs I A (Work start call) (Core.establishSessionInitiator i handle peerBundle : Core P _) db := by
  refine requireIdentity_gives.gives_seq fun identity db₁ h₁ hi => lift_gives fun bundle hb => ?_
  refine Meets.gives_seq (V := fun _ _ => True) (.draw fun _ _ _ _ => gives_ok trivial)
    fun ephemeralSk db₂ h₂ _ => ?_
  dsimp only
  split
  · exact .throw gives_error
  next alice halice =>
  refine Meets.gives_seq (V := fun _ _ => True) (.draw fun _ _ _ _ => gives_ok trivial)
    fun dhs db₃ h₃ _ => ?_
  refine Meets.gives_seq (V := fun _ _ => True) (messenger_gives ?_) fun _ _ _ _ =>
    .pure (gives_ok trivial)
  have hx : Messenger.AppOnly (Core.initiatorSession handle (Core.dhPublicKey P identity) bundle
      alice dhs).extra := fun w hw => nomatch (hw : w ∈ [])
  refine (Meets.of_sat (fun _ => Messenger.createSession_sat i hx) fun _ _ _ _ _ _ _ => trivial).weaken fun db' rows hle _ h => ?_
  have hle₀ := h₁.trans (h₂.trans (h₃.trans hle))
  exact .initiate identity handle peerBundle bundle ephemeralSk dhs alice (hc db' hle₀ bundle hb)
    ⟨hi.mono (h₂.trans (h₃.trans hle)), hb, halice, h⟩

/-- After a handshake was taken, it was stored under its handle. -/
theorem establishSessionResponder_gives (hs : start.Le db) (i : Nat) {handle : UInt64}
    {bytes : Bytes} (hc : call.Responds handle bytes)
    (hown : ∀ handshake, unpackInitiatorHandshake bytes = .ok handshake → call.Syncs →
      handle = localSessionHandle P handshake.identityPk) :
    Meets I A (Work start call) (Gives fun _ db' => ∃ handshake, unpackInitiatorHandshake bytes =
        .ok handshake ∧ Messenger.Held (P := P.toPlatform) handle (provisionalOf handshake bytes) db db')
      (Core.establishSessionResponder i handle bytes : Core P _) db := by
  refine requireIdentity_gives.gives_seq fun identity db₁ h₁ hi => lift_gives fun handshake hh => ?_
  refine (get_gives _).gives_seq fun record db₂ h₂ hp => lift_gives fun _ ha => messenger_gives ?_
  have answers : ∀ db', db₂.Le db' → Answers identity bytes handshake record db' := fun db' hle =>
    ⟨hi.mono (h₂.trans hle), hh, ha, hp.mono hle⟩
  refine (Meets.of_sat (R := fun r db' => r = .ok () →
      Messenger.Held (P := P.toPlatform) handle (provisionalOf handshake bytes) db₂ db')
    (fun _ => Messenger.recordProvisionalHandshake_sat i handle (provisionalOf handshake bytes)
      ⟨.prekeys, record⟩) fun _ _ _ _ h => h.held).weaken (X := Work start call)
    (fun db' rows hle hI' h => ?_) |>.mono fun r db' _ h _ hr => ?_
  · refine .respond identity handle bytes handshake record hc (hown handshake hh) (answers db' hle) ?_
    rcases h with h | ⟨⟨db₀, h1, h2, h3⟩, peer, old, h⟩
    · exact .recorded h
    · exact .retired peer old ⟨db₀, hs.trans (h₁.trans (h₂.trans h1)), h2, h3⟩ h
  · obtain ⟨db₃, h3, h4, h5⟩ := h hr
    exact ⟨handshake, hh, db₃, h₁.trans (h₂.trans h3), h4, h5⟩

/-! ## Sending -/

/-- What `send` says of a logical message. -/
inductive SendSays (db : Db P.Key) (handle : UInt64) (clientId : Bytes) : SendOutcome → Prop
  | sent (q : Peer) (m : OutgoingMessage) (named : Named db handle q)
      (stored : db.Ever (.outbox q m.messageId) m) (client : m.clientMessageId = clientId)
      (index : db.Ever (.sendid q clientId) (.sent m.messageId)) :
      SendSays db handle clientId (.sent m)
  | prior (q : Peer) (o : SendOutcome) (named : Named db handle q) (db₀ : Db P.Key)
      (le : db₀.Le db) (h : Messenger.PriorAt (P := P.toPlatform) db₀.rows q clientId o) :
      SendSays db handle clientId o

/-- Whatever `send` returns, the logical message has its send record. -/
theorem SendSays.recorded {handle : UInt64} {clientId : Bytes} {o : SendOutcome}
    (h : SendSays db handle clientId o) :
    ∃ q r, Named db handle q ∧ db.Ever (.sendid q clientId) r := by
  cases h with
  | sent q m named stored client index => exact ⟨q, _, named, index⟩
  | prior q _ named db₀ le h =>
    cases h with
    | pending id m sent _ _ => exact ⟨q, _, named, (Db.ever_now sent).mono le⟩
    | acknowledged id sent _ => exact ⟨q, _, named, (Db.ever_now sent).mono le⟩
    | abandoned id abandoned => exact ⟨q, _, named, (Db.ever_now abandoned).mono le⟩

theorem SendTx.stored {our : Bytes32} {handle : UInt64} {clientId plaintext : Bytes} {p q : Peer}
    {old new : SessionRecord P.Key} {m : OutgoingMessage} {rows : Rows P.Key}
    (h : Messenger.SendTx (P := P.toPlatform) our handle clientId plaintext db p q old new m rows) :
    SendSays (db.push rows) handle clientId (.sent m) := by
  have hm : m.clientMessageId = clientId := by rw [h.message]
  have hout : rows.lookup (.outbox p m.messageId) = some m := by
    rw [h.eq, Messenger.sendChanges, Rows.applyAll_cons]
    exact Rows.lookup_applyAll_head _ _ (by simp)
  have hid : rows.lookup (.sendid p m.clientMessageId) = some (.sent m.messageId) := by
    rw [h.eq, Messenger.sendChanges, Rows.applyAll_cons, Rows.applyAll_cons]
    exact Rows.lookup_applyAll_head _ _ (by simp)
  obtain ⟨db₀, hle, hn⟩ := h.named
  exact .sent p m ⟨db₀, hle.trans (Db.le_push _ _), hn⟩ (Db.ever_now hout) hm
    (hm ▸ Db.ever_now hid)

theorem SendSays.mono {db' : Db P.Key} {handle : UInt64} {clientId : Bytes} {o : SendOutcome}
    (h : SendSays db handle clientId o) (hle : db.Le db') : SendSays db' handle clientId o := by
  cases h with
  | sent q m named stored client index =>
    exact .sent q m (named.mono hle) (stored.mono hle) client (index.mono hle)
  | prior q _ named db₀ le h => exact .prior q o (named.mono hle) db₀ (le.trans hle) h

theorem sendCommitted_gives (i : Nat) {handle : UInt64} {clientId plaintext : Bytes}
    (why : ∀ db', db.Le db' → SendWhy call db' handle clientId plaintext) :
    Meets I A (Work start call) (Gives fun o db => SendSays db handle clientId o)
      (Core.sendCommitted i handle clientId plaintext : Core P _) db := by
  refine ourIdentityPk_gives.gives_seq fun our db₁ h₁ ho => messenger_gives ?_
  refine Meets.gives_seq (V := fun p db' => (clientId ≠ [] ∧
      clientId.length ≤ Messenger.maxClientMessageIdLen) ∧ Named db' handle p)
    (.of_sat (fun _ => Messenger.sendPeer_sat i handle clientId) fun _ _ _ db' h p hp =>
      ⟨(h.2 p hp).1, db', Db.Le.refl _, (h.2 p hp).2⟩) fun p db₂ h₂ hp => ?_
  refine (Meets.of_sat (fun _ => Messenger.sendAs_sat hp.2 hp.1) fun tr r tr' db' h => ?_).weaken
    fun db' rows hle _ h => ?_
  · intro o ho'
    subst ho'
    cases h with
    | prior looked db₃ le le' o h hr =>
      cases hr
      exact .prior p _ (hp.2.mono (le.trans le')) db₃ le' h
    | unread looked db₃ le le' e h hr => cases hr
    | refused looked db₃ le le' new e hr => cases hr
    | wrote db₃ rows q old new m le step le' hr =>
      rcases hr with hr | ⟨e, hr⟩
      · cases hr
        exact (SendTx.stored step).mono le'
      · cases hr
  · obtain ⟨peer, q, old, new, m, h⟩ := h
    exact .send our (ho.mono (h₂.trans hle)) handle clientId plaintext peer q old new m
      (why db' (h₁.trans (h₂.trans hle))) h

/-! ## Receiving -/

/-- What `receive` says of a wire. -/
inductive ReceiveSays (db : Db P.Key) (handle : UInt64) (wire : Bytes) : Received → Prop
  | accepted (m : IncomingMessage) (h : AcceptedFrom db handle m)
      (same : m.messageId = Messenger.messageId P.toPlatform wire) :
      ReceiveSays db handle wire (.accepted m)
  | duplicate (u : Option IncomingMessage) (peer : Peer) (named : Named db handle peer)
      (db₀ : Db P.Key) (le : db₀.Le db) (h : Messenger.Accepted (P := P.toPlatform) db₀.rows peer
        (Messenger.messageId P.toPlatform wire)) :
      ReceiveSays db handle wire (.duplicate (Messenger.messageId P.toPlatform wire) u)

theorem ReceiveTx.says {our : Bytes32} {handle : UInt64} {wire : Bytes} {peer : Peer}
    {old new : SessionRecord P.Key} {m : IncomingMessage} {rows : Rows P.Key} {db' : Db P.Key}
    (h : Messenger.ReceiveTx (P := P.toPlatform) our handle wire db peer old new m rows)
    (hle : (db.push rows).Le db') : ReceiveSays db' handle wire (.accepted m) := by
  have hin : rows.lookup (.inbox peer m.messageId) = some m := by
    rw [h.eq, Messenger.receiveChanges, Rows.applyAll_cons]
    exact Rows.lookup_applyAll_head _ _ (by simp)
  obtain ⟨⟨db₀, db₁, h1, h2, h3, -⟩, -⟩ := h.loaded
  refine .accepted m ⟨peer, m.messageId, ⟨db₀, ?_, h3⟩, (Db.ever_now hin).mono hle⟩ (by rw [h.message])
  exact h1.trans (h2.trans ((Db.le_push _ _).trans hle))

theorem ReceivePost.says {our : Bytes32} {handle : UInt64} {wire : Bytes} {peer : Peer}
    {tr tr' : Trace P.Key} {db' : Db P.Key} {d : Received} (hn : Named db handle peer)
    (h : Messenger.ReceivePost (P := P.toPlatform) our handle wire peer tr db (.ok d) tr' db') :
    ReceiveSays db' handle wire d := by
  cases h with
  | unusable looked db₁ le le' e h hr => cases hr
  | refused looked db₁ db₂ le le' new e hr => cases hr
  | checked looked db₁ le h =>
    cases h with
    | undelivered m db₂ le₁ le₂ inbox hid =>
      exact .duplicate _ peer (hn.mono (le.trans (le₁.trans le₂))) db₂ le₂ (.inl (by rw [inbox]; rfl))
    | delivered db₂ le₁ le₂ inbox seen =>
      exact .duplicate _ peer (hn.mono (le.trans (le₁.trans le₂))) db' (Db.Le.refl _)
        (.inr (by rw [seen]; rfl))
  | wrote db₁ rows old new m le step le' hr =>
    rcases hr with hr | ⟨e, hr⟩
    · cases hr
      exact ReceiveTx.says step le'
    · cases hr

theorem receive_gives (i : Nat) {our : Bytes32} {handle : UInt64} {wire : Bytes}
    (ho : Ours db our) (hc : call.Receives handle wire) :
    Meets I A (Work start call) (Gives fun d db => ReceiveSays db handle wire d)
      (Messenger.receive i our handle wire : Do P.toPlatform _) db := by
  refine Meets.gives_seq (V := fun x db' => Messenger.splitWire wire = .ok (x.2.1, x.2.2) ∧
      Named db' handle x.1)
    (.of_sat (fun _ => Messenger.receivePeer_sat i handle wire) fun _ _ _ db' h x hx =>
      ⟨(h.2 _ _ _ hx).1, db', Db.Le.refl _, (h.2 _ _ _ hx).2⟩) fun x db₁ h₁ hx => ?_
  obtain ⟨peer, header, ciphertext⟩ := x
  refine (Meets.of_sat (fun _ => Messenger.receiveAs_sat hx.1 hx.2) fun tr r tr' db' h => ?_).weaken
    fun db' rows hle _ h => ?_
  · intro d hd
    subst hd
    exact ReceivePost.says hx.2 h
  · obtain ⟨peer, old, new, m, h⟩ := h
    exact .receive our (ho.mono (h₁.trans hle)) handle wire peer old new m hc h

theorem consume_gives (record : PrekeyRecord) :
    Meets I A T (Gives fun extra _ => ∃ fresh, extra = consumed record fresh)
      (Core.consume record : Core P _) db := by
  unfold Core.consume consumed
  cases record.opk with
  | none => exact .pure (gives_ok ⟨(0, default), rfl⟩)
  | some opk => exact newOneTimePrekey_runs.gives_seq fun fresh _ _ _ => .pure (gives_ok ⟨fresh, rfl⟩)

theorem consumed_appOnly (record : PrekeyRecord) (fresh : UInt64 × StaticSecret) :
    Messenger.AppOnly (consumed (P := P) record fresh) := by
  intro w hw
  unfold consumed at hw
  split at hw
  · cases hw
  · obtain rfl := List.mem_singleton.mp hw
    rfl

theorem PromoteTx.says {our : Bytes32} {first : FirstContact P.Key} {wire : Bytes}
    {new : SessionRecord P.Key} {m : IncomingMessage} {rows : Rows P.Key} {db' : Db P.Key}
    (h : Messenger.PromoteTx (P := P.toPlatform) our first wire db new m rows)
    (hle : (db.push rows).Le db') : ReceiveSays db' first.handle wire (.accepted m) := by
  have hl := fun k hk => Messenger.lookup_promoteChanges new m h.extra k hk db.rows
  rw [← h.eq] at hl
  have hin : rows.lookup (.inbox first.session.peerIdentityPk m.messageId) = some m := by
    rw [hl _ rfl, Rows.applyAll_cons, Rows.applyAll_cons, Rows.applyAll_cons]
    exact Rows.lookup_applyAll_head _ _ (by simp)
  have hh : rows.lookup (.handle first.handle) = some first.session.peerIdentityPk := by
    rw [hl _ rfl, Rows.applyAll_cons]
    exact Rows.lookup_applyAll_head _ _ (by simp)
  exact .accepted m ⟨first.session.peerIdentityPk, m.messageId, ⟨_, hle, hh⟩,
    (Db.ever_now hin).mono hle⟩ (by rw [h.message])

theorem acceptFirstMessage_gives (i : Nat) {identity : Identity} {handle : UInt64}
    {provisional : ProvisionalHandshake} {wire : Bytes} (hi : db.Ever .identity identity)
    (hc : call.Receives handle wire) :
    Meets I A (Work start call) (Gives fun d db => ReceiveSays db handle wire d)
      (Core.acceptFirstMessage i identity handle provisional wire : Core P _) db := by
  refine lift_gives fun handshake hh => ?_
  dsimp only
  split
  · exact throw_gives
  next hnames =>
  refine (get_gives _).gives_seq fun record db₁ h₁ hp => ?_
  split
  · refine (messenger_gives (peerOf_gives handle)).gives_seq fun o db₂ h₂ _ => ?_
    split
    · exact messenger_gives (receive_gives i ⟨identity, hi.mono (h₁.trans h₂), rfl⟩ hc)
    · exact .throw gives_error
  · next ha =>
    refine (consume_gives record).gives_seq fun extra db₂ h₂ hx => ?_
    obtain ⟨fresh, rfl⟩ := hx
    have answers : ∀ db', db₂.Le db' → Answers identity provisional.handshake handshake record db' :=
      fun db' hle => ⟨hi.mono (h₁.trans (h₂.trans hle)), hh, ha, hp.mono (h₂.trans hle)⟩
    refine Meets.gives_seq (V := fun r db' => Gives (fun d db => ReceiveSays db handle wire d) r db')
      (.attempt (R := Gives fun d db => ReceiveSays db handle wire d) ?_ fun r db' _ h => gives_ok h)
      fun r db₃ h₃ h => ?_
    · have hx : Messenger.AppOnly
          (firstContact (P := P) identity handle provisional handshake record fresh).extra :=
        consumed_appOnly record fresh
      refine Meets.gives_seq (V := fun o db' => ∀ d, o = some d → ReceiveSays db' handle wire d)
        ((Meets.of_sat (fun _ => Messenger.promoteFirst_sat i hx) fun tr r tr' db' h => ?_).weaken
          fun db' rows hle _ h => ?_) fun o db₃ h₃ h => ?_
      · rintro o rfl d rfl
        cases h with
        | promoted db₃ rows new m le step le' hr =>
          rcases hr with hr | ⟨e, hr⟩
          · cases hr
            exact PromoteTx.says step le'
          · cases hr
        | taken looked hr => cases hr
        | refused looked e hr => cases hr
      · rcases h with ⟨new, m, h⟩ | ⟨peer, old, new, m, h⟩
        · exact .first identity handle wire provisional handshake record fresh new m hc
            ⟨answers db' hle, h⟩
        · exact .receive _ ⟨identity, hi.mono (h₁.trans (h₂.trans hle)), rfl⟩ handle wire peer old new
            m hc h
      · cases o with
        | some d => exact .pure (gives_ok (h d rfl))
        | none => exact receive_gives i ⟨identity, hi.mono (h₁.trans (h₂.trans h₃)), rfl⟩ hc
    · split
      · next d => exact .pure (gives_ok (h d rfl))
      · exact .throw gives_error
      · exact .throw gives_error

theorem receiveCommitted_gives (i : Nat) {handle : UInt64} {wire : Bytes}
    (hc : call.Receives handle wire) :
    Meets I A (Work start call) (Gives fun d db => ReceiveSays db handle wire d)
      (Core.receiveCommitted i handle wire : Core P _) db := by
  refine requireIdentity_gives.gives_seq fun identity db₁ h₁ hi => ?_
  refine (messenger_gives (peerOf_gives handle)).gives_seq fun o db₂ h₂ _ => ?_
  split
  · exact messenger_gives (receive_gives i ⟨identity, hi.mono h₂, rfl⟩ hc)
  · refine Meets.gives_seq (V := fun _ _ => True) (messenger_gives (.of_sat
      (fun _ => Messenger.provisionalHandshake_sat handle) fun _ _ _ _ _ _ _ => trivial))
      fun o db₃ h₃ _ => ?_
    split
    · exact acceptFirstMessage_gives i (hi.mono (h₂.trans h₃)) hc
    · exact messenger_gives (receive_gives i ⟨identity, hi.mono (h₂.trans h₃), rfl⟩ hc)

/-! ## Ends of messages and sessions -/

theorem messageIdArg_val (handle : UInt64) (id : MessageId) :
    Core.messageIdArg handle id.val = .ok id := by
  unfold Core.messageIdArg
  rw [dif_pos id.property]

theorem messageIdArg_ok {handle : UInt64} {bytes : Bytes} {id : MessageId}
    (h : Core.messageIdArg handle bytes = .ok id) : bytes = id.val := by
  unfold Core.messageIdArg at h
  split at h
  · obtain rfl := Except.ok.inj h
    rfl
  · cases h

theorem acknowledgeOutgoing_gives {handle : UInt64} {id : MessageId} (hc : call.Syncs)
    (why : ∀ db', db.Le db' → AckOutWhy db' handle id) :
    Meets I A (Work start call) (Gives fun _ db => OutOfOutbox db handle id)
      (Core.acknowledgeOutgoing handle id.val : Core P _) db := by
  refine lift_gives fun id' hid => messenger_gives ?_
  obtain rfl := Except.ok.inj ((messageIdArg_val handle id).symm.trans hid)
  refine (Meets.of_sat (fun _ => Messenger.acknowledgeOutgoing_sat handle id)
    fun _ _ _ _ h b hb => h b hb).weaken fun db' rows hle _ h => ?_
  obtain ⟨peer, h⟩ := h
  exact .ackOut handle id peer hc (why db' hle) h

theorem acknowledgeIncoming_runs {handle : UInt64} {bytes : Bytes}
    (why : ∀ id : MessageId, bytes = id.val → ∀ db', db.Le db' → AckInWhy call db' handle id) :
    Runs I A (Work start call) (Core.acknowledgeIncoming handle bytes : Core P _) db := by
  refine lift_gives fun id hid => messenger_gives ?_
  refine (Meets.of_sat (fun _ => Messenger.acknowledgeIncoming_sat handle id)
    fun _ _ _ _ _ _ _ => trivial).weaken fun db' rows hle _ h => ?_
  obtain ⟨peer, h⟩ := h
  exact .ackIn handle id peer (why id (messageIdArg_ok hid) db' hle) h

theorem abandonOutgoing_runs {contact : Peer} {id : MessageId}
    (why : ∀ db', db.Le db' → GivesUp call db' contact) :
    Runs I A (Work start call)
      (Core.abandonOutgoing (localSessionHandle P contact) id.val : Core P _) db := by
  refine lift_gives fun id' hid => messenger_gives ?_
  refine (Meets.of_sat (fun _ => Messenger.abandonOutgoing_sat _ id')
    fun _ _ _ _ _ _ _ => trivial).weaken fun db' rows hle _ h => ?_
  obtain ⟨peer, m, h⟩ := h
  exact .abandon _ id' peer m contact rfl (why db' hle) h

theorem removeSession_runs (i : Nat) {handle : UInt64}
    (why : ∀ db', db.Le db' → (∃ i, call = .removeSession i handle) ∨
      ∃ contact, handle = localSessionHandle P contact ∧ GivesUp call db' contact) :
    Runs I A (Work start call) (Core.removeSession i handle : Core P _) db := by
  refine ourIdentityPk_gives.gives_seq fun our db₁ h₁ ho => messenger_gives ?_
  refine (Meets.of_sat (fun _ => Messenger.removeSession_sat i handle)
    fun _ _ _ _ _ _ _ => trivial).weaken fun db' rows hle _ h => ?_
  obtain ⟨peer, old, h⟩ := h
  exact .remove our (ho.mono hle) handle peer old (why db' (h₁.trans hle)) h

end Network

end Arcium
