import Arcium.Protocol.LifecycleSpec
import Arcium.Protocol.NoFork

/-!
# Any number of messengers on one store

`system our`: the calls of any number of `Messenger` instances with identity `our`, interleaved at
their reads and transactions. A call can be cut off at any action, an instance can restart without
its memory, and the rest of the application writes records of its own.

`contract`: every transaction of a call is one of `Tx`, and its result is what `Spec` says of it.
-/

namespace Arcium

open Conc

/-! ## Results that are values -/

section Ends

variable {K M err α β Res : Type} {I : Db K → Prop}
  {A : Db K → Request × Answer → Prop} {T : Db K → Rows K → Prop} {tr : Trace K}
  {db : Db K}

/-- The triple of a program that returns a plain value. -/
def Ends (I : Db K → Prop) (A : Db K → Request × Answer → Prop) (T : Db K → Rows K → Prop) (Q : Res → Trace K → Db K → Prop)
    (p : Prog Choice (Device K M) Res) (tr : Trace K) (db : Db K) : Prop :=
  ∀ t mem asked, dbs t = tr →
    Prog.WP (fun s s' : Device K M => s.db.Le s'.db) (fun s => I s.db) (Acts A T)
      (fun r t s => Q r (dbs t) s.db) p t ⟨db, mem, asked⟩

/-- Run `p` and wrap its result. -/
def returning (mk : α → Res) (p : Prog Choice (Device K M) α) : Prog Choice (Device K M) Res :=
  p.bind fun r => .ret (mk r)

theorem Sat.returning {mk : Except err α → Res} {p : Run K M err α}
    {Q : Res → Trace K → Db K → Prop} (h : Sat I A T (fun r => Q (mk r)) p tr db) :
    Ends I A T Q (returning mk p.run) tr db :=
  fun t mem asked ht => Prog.WP.bind (h t mem asked ht)

theorem Ends.returning {mk : α → Res} {p : Prog Choice (Device K M) α}
    {Q : Res → Trace K → Db K → Prop} (h : Ends I A T (fun r => Q (mk r)) p tr db) :
    Ends I A T Q (returning mk p) tr db :=
  fun t mem asked ht => Prog.WP.bind (h t mem asked ht)

theorem Ends.naming {x : Run K M err α} {f : α → Run K M err β}
    {V : Except err α → Trace K → Db K → Prop} {Q : Option α × Except err β → Trace K → Db K → Prop}
    (hx : Sat I A T V x tr db) (he : ∀ e tr db, V (.error e) tr db → Q (none, .error e) tr db)
    (hf : ∀ a tr db, V (.ok a) tr db → Sat I A T (fun r => Q (some a, r)) (f a) tr db) :
    Ends I A T Q (naming x f) tr db := by
  refine fun t mem asked ht => Prog.WP.bind
    ((hx t mem asked ht).mono (fun _ _ h => h) fun r t s hr => ?_)
  cases r with
  | error e => exact he e _ _ hr
  | ok a => exact Prog.WP.bind (hf a _ _ hr t s.mem s.asked rfl)

end Ends

namespace Messenger

variable {P : Platform} {our : Bytes32}

/-! ## The calls -/

/-- What a call returns, with the peer that its handle named when it looked. -/
inductive Res where
  | done (r : Except MessagingError Unit)
  | flag (r : Except MessagingError Bool)
  | peer (r : Except MessagingError (Option Peer))
  | provisional (r : Except MessagingError (Option ProvisionalHandshake))
  | outbound (r : Except MessagingError (Option Bytes))
  | sent (peer : Option Peer) (r : Except MessagingError SendOutcome)
  | prior (r : Except MessagingError (Option SendOutcome))
  | received (peer : Option Peer) (r : Except MessagingError Received)
  /-- With the peer on whose session a first message was received that was not promoted. -/
  | first (peer : Option Peer) (r : Except MessagingError Received)
  | outgoing (r : Except MessagingError (List OutgoingMessage))
  | incoming (r : Except MessagingError (List IncomingMessage))
  /-- With the mark that was found. -/
  | recovered (mark : Option Unresolved) (r : Except MessagingError (Option Recovery))

/-- The wires an outcome of `send` hands out. -/
def SendOutcome.messages : SendOutcome → List OutgoingMessage
  | .sent m => [m]
  | .alreadyPending m => [m]
  | _ => []

/-- The plaintexts an outcome of `receive` hands out. -/
def Received.messages : Received → List IncomingMessage
  | .accepted m => [m]
  | .duplicate _ (some m) => [m]
  | .duplicate _ none => []

/-- The outgoing messages a result releases. -/
def Res.wires : Res → List OutgoingMessage
  | .sent _ (.ok o) => SendOutcome.messages o
  | .prior (.ok (some o)) => SendOutcome.messages o
  | .outgoing (.ok ms) => ms
  | _ => []

/-- The incoming messages a result releases. -/
def Res.plaintexts : Res → List IncomingMessage
  | .received _ (.ok r) => Received.messages r
  | .first _ (.ok r) => Received.messages r
  | .incoming (.ok ms) => ms
  | _ => []

/-- `accept_first_message`, keeping the peer on whose session it received. -/
def acceptFirstNamed (i : Nat) (our : Bytes32) (first : FirstContact P.Key) (wire : Bytes) :
    Prog Choice (Device P.Key Memory) (Option Peer × Except MessagingError Received) :=
  (promoteFirst i our first wire).run.bind fun
    | .ok (some received) => .ret (none, .ok received)
    | .ok none => returning (fun r => (r.1.map fun x => x.1, r.2))
      (naming (receivePeer (P := P) i first.handle wire) (receiveAs i our first.handle wire))
    | .error e => .ret (none, .error e)

/-- The code of each call. -/
def body (our : Bytes32) : Call P.Key → Prog Choice (Device P.Key Memory) Res
  | .createSession i new => returning .done (createSession i our new).run
  | .recordProvisionalHandshake i handle provisional validated =>
    returning .done (recordProvisionalHandshake i our handle provisional validated).run
  | .provisionalHandshake handle => returning .provisional (provisionalHandshake (P := P) handle).run
  | .acceptFirstMessage i first wire => returning (fun r => .first r.1 r.2)
    (acceptFirstNamed i our first wire)
  | .peerOf handle => returning .peer (peerOf (P := P) handle).run
  | .hasReceived handle => returning .flag (hasReceived (P := P) our handle).run
  | .isLegacyUnconfirmed handle => returning .flag (isLegacyUnconfirmed (P := P) our handle).run
  | .initialOutbound handle => returning .outbound (initialOutbound (P := P) handle).run
  | .send i handle clientId plaintext => returning (fun r => .sent r.1 r.2)
    (naming (sendPeer (P := P) i handle clientId) (sendAs i our handle clientId plaintext))
  | .receive i handle wire => returning (fun r => .received (r.1.map fun x => x.1) r.2)
    (naming (receivePeer (P := P) i handle wire) (receiveAs i our handle wire))
  | .pendingOutgoing handle => returning .outgoing (pendingOutgoing (P := P) handle).run
  | .priorSend peer clientId => returning .prior (priorSend (P := P) peer clientId).run
  | .acknowledgeOutgoing handle id => returning .flag (acknowledgeOutgoing (P := P) handle id).run
  | .pendingIncoming handle => returning .incoming (pendingIncoming (P := P) handle).run
  | .acknowledgeIncoming handle id => returning .flag (acknowledgeIncoming (P := P) handle id).run
  | .recover i handle => returning (fun r => .recovered r.1.join r.2)
    (naming (unresolvedAt (P := P) i handle) (recoverFrom i our handle))
  | .abandonOutgoing handle id => returning .flag (abandonOutgoing (P := P) handle id).run
  | .removeSession i handle => returning .done (removeSession (P := P) i our handle).run

/-- Instances restart, and the application writes records of its own. -/
inductive Env (s : Device P.Key Memory) : Device P.Key Memory → Prop
  | restart (i : Nat) : Env s { s with mem := Function.update s.mem i {} }
  | app (rows : Rows P.Key) (h : AppTx s.db rows) : Env s { s with db := s.db.push rows }

/-- Messengers with identity `our` on one store. -/
def system (P : Platform) (our : Bytes32) : System Choice (Device P.Key Memory) (Call P.Key) Res where
  body := body our
  allowed := Call.Allowed
  env := Env

/-- The device before the first call: no records, no memory. -/
def Device.fresh (P : Platform) : Device P.Key Memory := { db := Db.empty, mem := fun _ => {} }

/-- The configurations of every run. -/
def Reachable (our : Bytes32) (c : Config Choice (Device P.Key Memory) (Call P.Key) Res) : Prop :=
  (system P our).Reach (Config.init (Device.fresh P)) c

/-! ## The contract -/

variable {I : Db P.Key → Prop}
  {A : Db P.Key → Request × Answer → Prop} {T : Db P.Key → Rows P.Key → Prop} {tr : Trace P.Key} {db : Db P.Key}

/-- How `accept_first_message` ends. -/
inductive FirstPost (our : Bytes32) (first : FirstContact P.Key) (wire : Bytes) (db : Db P.Key)
    (p : Option Peer) (r : Except MessagingError Received) (tr' : Trace P.Key) (db' : Db P.Key) :
    Prop
  | promoted (hp : p = none) (db₁ : Db P.Key) (rows : Rows P.Key) (new : SessionRecord P.Key)
      (m : IncomingMessage) (le : db.Le db₁) (step : PromoteTx our first wire db₁ new m rows)
      (le' : (db₁.push rows).Le db') (hr : r = .ok (.accepted m) ∨ ∃ e, r = .error e)
  | received (peer : Peer) (hp : p = some peer) (tr₁ : Trace P.Key) (db₁ : Db P.Key)
      (looked : Looked [] db tr₁ db₁) (h : ReceivePost our first.handle wire peer tr₁ db₁ r tr' db')
  | refused (looked : Looked [] db tr' db') (e : MessagingError) (hr : r = .error e)

/-- What the result of a call says, where it says more than which messages it releases. -/
def CallPost (our : Bytes32) (call : Call P.Key) (db : Db P.Key) (res : Res) (tr : Trace P.Key)
    (db' : Db P.Key) : Prop :=
  match call with
  | .send _ handle clientId plaintext =>
    (∃ e, res = .sent none (.error e) ∧ Quiet tr) ∨
      ∃ p r tr₁ db₁, res = .sent (some p) r ∧ Looked [] db tr₁ db₁ ∧
        SendPost our handle clientId plaintext p tr₁ db₁ r tr db'
  | .priorSend peer clientId =>
    ∃ r, res = .prior r ∧ Looked [] db tr db' ∧ PriorResult db'.rows peer clientId r
  | .receive _ handle wire =>
    (∃ e, res = .received none (.error e) ∧ Quiet tr) ∨
      ∃ p r tr₁ db₁, res = .received (some p) r ∧ Looked [] db tr₁ db₁ ∧
        ReceivePost our handle wire p tr₁ db₁ r tr db'
  | .acceptFirstMessage _ first wire => ∃ p r, res = .first p r ∧
    FirstPost our first wire db p r tr db'
  | .recordProvisionalHandshake _ _ _ _ => ∃ r, res = .done r ∧ RefusedQuiet [] r tr
  | .removeSession _ _ => ∃ r, res = .done r ∧ RefusedQuiet [] r tr
  | .recover _ handle => ∃ mark r, res = .recovered mark r ∧ ∀ u rep, mark = some u →
    r = .ok (some rep) → RecoverPost handle u db db' rep
  | _ => True

/-- What a call returns. -/
structure Spec (our : Bytes32) (call : Call P.Key) (db : Db P.Key) (res : Res) (tr : Trace P.Key)
    (db' : Db P.Key) : Prop where
  wires : ∀ m ∈ res.wires, ∃ p id, db'.Ever (.outbox p id) m
  plaintexts : ∀ m ∈ res.plaintexts, ∃ p id, db'.Ever (.inbox p id) m
  post : CallPost our call db res tr db'

/-- A result that releases no message. -/
theorem Spec.silent {call : Call P.Key} {res : Res} {db' : Db P.Key} (hw : res.wires = [])
    (hp : res.plaintexts = []) (h : CallPost our call db res tr db') :
    Spec our call db res tr db' where
  wires := by simp [hw]
  plaintexts := by simp [hp]
  post := h

theorem PriorAt.released {rows : Rows P.Key} {peer : Peer} {clientId : Bytes} {o : SendOutcome}
    (h : PriorAt rows peer clientId o) :
    ∀ m ∈ SendOutcome.messages o, ∃ p id, rows.lookup (.outbox p id) = some m := by
  cases h with
  | pending id m sent outbox wire =>
    intro m' hm
    obtain rfl := List.mem_singleton.mp hm
    exact ⟨peer, id, outbox⟩
  | acknowledged => exact fun _ h => nomatch h
  | abandoned => exact fun _ h => nomatch h

theorem SendPost.released {handle : UInt64} {clientId plaintext : Bytes} {peer : Peer}
    {db' : Db P.Key} {tr' : Trace P.Key} {r : Except MessagingError SendOutcome}
    (h : SendPost our handle clientId plaintext peer tr db r tr' db') :
    ∀ m ∈ (Res.sent (some peer) r).wires, ∃ p id, db'.Ever (.outbox p id) m := by
  cases h with
  | prior looked db₁ le le' o h hr =>
    subst hr
    intro m hm
    obtain ⟨p, id, hl⟩ := h.released m hm
    exact ⟨p, id, (Db.ever_now hl).mono le'⟩
  | unread looked db₁ le le' e h hr => subst hr; exact fun _ h => nomatch h
  | refused looked db₁ le le' new e hr => subst hr; exact fun _ h => nomatch h
  | wrote db₁ rows q old new m le step le' hr =>
    rcases hr with rfl | ⟨e, rfl⟩
    · intro m' hm
      obtain rfl := List.mem_singleton.mp hm
      refine ⟨peer, m'.messageId, Db.Ever.mono (Db.ever_now ?_) le'⟩
      rw [Db.push_rows]
      exact (messagesAfter_of_eq step.eq).head rfl (by simp)
    · exact fun _ h => nomatch h

theorem ReceivePost.released {handle : UInt64} {wire : Bytes} {peer : Peer} {db' : Db P.Key}
    {tr' : Trace P.Key} {d : Received}
    (h : ReceivePost our handle wire peer tr db (.ok d) tr' db') :
    ∀ m ∈ Received.messages d, ∃ p id, db'.Ever (.inbox p id) m := by
  cases h with
  | unusable looked db₁ le le' e h hr => cases hr
  | checked looked db₁ le h =>
    cases h with
    | undelivered m db₂ le le' inbox hid =>
      intro m' hm
      obtain rfl := List.mem_singleton.mp hm
      exact ⟨peer, _, (Db.ever_now inbox).mono le'⟩
    | delivered => exact fun _ h => nomatch h
  | refused looked db₁ db₂ le le' new e hr => cases hr
  | wrote db₁ rows old new m le step le' hr =>
    rcases hr with hr | ⟨e, hr⟩
    · cases hr
      intro m' hm
      obtain rfl := List.mem_singleton.mp hm
      refine ⟨peer, m'.messageId, Db.Ever.mono (Db.ever_now ?_) le'⟩
      rw [Db.push_rows]
      exact (messagesAfter_of_eq step.eq).head rfl (by simp)
    · cases hr

theorem FirstPost.released {first : FirstContact P.Key} {wire : Bytes} {db' : Db P.Key}
    {tr' : Trace P.Key} {p : Option Peer} {d : Received}
    (h : FirstPost our first wire db p (.ok d) tr' db') :
    ∀ m ∈ Received.messages d, ∃ p id, db'.Ever (.inbox p id) m := by
  cases h with
  | promoted hp db₁ rows new m le step le' hr =>
    rcases hr with hr | ⟨e, hr⟩
    · cases hr
      intro m' hm
      obtain rfl := List.mem_singleton.mp hm
      refine ⟨first.session.peerIdentityPk, m'.messageId, Db.Ever.mono (Db.ever_now ?_) le'⟩
      rw [Db.push_rows, step.eq, lookup_promoteChanges new m' step.extra _ rfl,
        Rows.lookup_applyAll_filter Key.isMessage rfl]
      exact Rows.lookup_applyAll_head _ _ fun _ h => nomatch h
    · cases hr
  | received peer hp tr₁ db₁ looked h => exact h.released
  | refused looked e hr => cases hr

/-- A call that releases nothing and writes only what its triple says. -/
theorem silent_ends {α : Type} {call : Call P.Key} {mk : Except MessagingError α → Res} {p : Do P α}
    {Q : Except MessagingError α → Trace P.Key → Db P.Key → Prop} (h : Sat I A T Q p [] db)
    (hw : ∀ r, (mk r).wires = []) (hp : ∀ r, (mk r).plaintexts = [])
    (hc : ∀ res tr db', CallPost our call db res tr db') :
    Ends I A T (Spec our call db) (returning mk p.run) [] db :=
  Sat.returning (h.mono fun r _ _ _ => .silent (hw r) (hp r) (hc _ _ _))

theorem send_ends (i : Nat) (handle : UInt64) (clientId plaintext : Bytes) :
    Ends I A (Tx our (.send i handle clientId plaintext))
      (Spec our (.send i handle clientId plaintext) db)
      (body our (.send i handle clientId plaintext)) [] db := by
  refine Ends.returning (Ends.naming (sendPeer_sat i handle clientId) (fun e tr₁ db₁ h => ?_)
    fun p tr₁ db₁ h => ?_)
  · exact .silent rfl rfl (.inl ⟨e, rfl, h.1.quiet quiet_nil⟩)
  · obtain ⟨hid, hn⟩ := h.2 p rfl
    exact (sendAs_sat ⟨db₁, Db.Le.refl _, hn⟩ hid).mono fun r tr₂ db₂ h₂ =>
      ⟨h₂.released, fun _ h => (nomatch h), .inr ⟨p, r, tr₁, db₁, rfl, h.1, h₂⟩⟩

theorem receive_ends (i : Nat) (handle : UInt64) (wire : Bytes) :
    Ends I A (Tx our (.receive i handle wire)) (Spec our (.receive i handle wire) db)
      (body our (.receive i handle wire)) [] db := by
  refine Ends.returning (Ends.naming (receivePeer_sat i handle wire) (fun e tr₁ db₁ h => ?_)
    fun phc tr₁ db₁ h => ?_)
  · exact .silent rfl rfl (.inl ⟨e, rfl, h.1.quiet quiet_nil⟩)
  · obtain ⟨p, header, ciphertext⟩ := phc
    obtain ⟨hw, hn⟩ := h.2 _ _ _ rfl
    refine (receiveAs_sat hw ⟨db₁, Db.Le.refl _, hn⟩).mono fun r tr₂ db₂ h₂ =>
      ⟨fun _ h => (nomatch h), fun m hm => ?_, .inr ⟨p, r, tr₁, db₁, rfl, h.1, h₂⟩⟩
    match r with
    | .error e => cases hm
    | .ok d => exact h₂.released m hm

theorem acceptFirstNamed_ends (i : Nat) (first : FirstContact P.Key) (wire : Bytes)
    (hx : AppOnly first.extra) :
    Ends I A (Tx our (.acceptFirstMessage i first wire))
      (fun r tr db' => FirstPost our first wire db r.1 r.2 tr db')
      (acceptFirstNamed i our first wire) [] db := by
  intro t mem asked ht
  refine Prog.WP.bind ((promoteFirst_sat i hx t mem asked ht).mono (fun _ _ h => h)
    fun r t s hr => ?_)
  cases hr with
  | promoted db₁ rows new m le step le' hr =>
    rcases hr with rfl | ⟨e, rfl⟩
    · exact .promoted rfl db₁ rows new m le step le' (.inl rfl)
    · exact .promoted rfl db₁ rows new m le step le' (.inr ⟨e, rfl⟩)
  | refused looked e hr =>
    subst hr
    exact .refused looked e rfl
  | taken looked hr =>
    subst hr
    have hn : Ends I A (Tx our (.acceptFirstMessage i first wire))
        (fun r tr db' => FirstPost our first wire db r.1 r.2 tr db')
        (returning (fun r => (r.1.map fun x => x.1, r.2))
          (naming (receivePeer i first.handle wire) (receiveAs i our first.handle wire)))
        (dbs t) s.db := by
      refine Ends.returning (Ends.naming (receivePeer_sat i first.handle wire) (fun e tr₁ db₁ h => ?_)
        fun phc tr₁ db₁ h => ?_)
      · exact .refused (looked.trans h.1) e rfl
      · obtain ⟨p, header, ciphertext⟩ := phc
        obtain ⟨hw, hn⟩ := h.2 _ _ _ rfl
        exact ((receiveAs_sat hw ⟨db₁, Db.Le.refl _, hn⟩).weaken fun _ _ h => .inr h).mono
          fun r tr₂ db₂ h₂ => .received p rfl tr₁ db₁ (looked.trans h.1) h₂
    exact hn t s.mem s.asked rfl

theorem first_ends (i : Nat) (first : FirstContact P.Key) (wire : Bytes) (hx : AppOnly first.extra) :
    Ends I A (Tx our (.acceptFirstMessage i first wire))
      (Spec our (.acceptFirstMessage i first wire) db)
      (body our (.acceptFirstMessage i first wire)) [] db := by
  refine Ends.returning fun t mem asked ht => ?_
  refine (acceptFirstNamed_ends i first wire hx t mem asked ht).mono (fun _ _ h => h)
    fun r t s h => ?_
  obtain ⟨p, r⟩ := r
  refine ⟨fun _ h => (nomatch h), fun m hm => ?_, p, r, rfl, h⟩
  match r with
  | .error e => cases hm
  | .ok d => exact h.released m hm

theorem pendingOutgoing_ends (handle : UInt64) :
    Ends I A T (Spec our (.pendingOutgoing handle) db) (body our (.pendingOutgoing handle)) [] db := by
  refine Sat.returning (Sat.seq (requirePeer_sat handle) (fun e _ _ h => .silent rfl rfl trivial)
    fun p tr₁ db₁ h => (pendingOutgoingFor_sat p).mono fun r tr₂ db₂ h₂ => ?_)
  refine ⟨fun m hm => ?_, fun _ h => (nomatch h), trivial⟩
  match r with
  | .error e => cases hm
  | .ok ms => exact ⟨p, h₂.2 ms rfl m hm⟩

theorem pendingIncoming_ends (handle : UInt64) :
    Ends I A T (Spec our (.pendingIncoming handle) db) (body our (.pendingIncoming handle)) [] db := by
  refine Sat.returning (Sat.seq (requirePeer_sat handle) (fun e _ _ h => .silent rfl rfl trivial)
    fun p tr₁ db₁ h => (pendingIncomingFor_sat p).mono fun r tr₂ db₂ h₂ => ?_)
  refine ⟨fun _ h => (nomatch h), fun m hm => ?_, trivial⟩
  match r with
  | .error e => cases hm
  | .ok ms => exact ⟨p, h₂.2 ms rfl m hm⟩

theorem priorSend_ends (peer : Peer) (clientId : Bytes) :
    Ends I A T (Spec our (.priorSend peer clientId) db) (body our (.priorSend peer clientId)) [] db := by
  refine Sat.returning ((readPriorSend_sat peer clientId).mono fun r tr₁ db₁ h => ?_)
  refine ⟨fun m hm => ?_, fun _ h => (nomatch h), r, rfl, h⟩
  cases h.2 with
  | prior o ho =>
    obtain ⟨p, id, hl⟩ := ho.released m hm
    exact ⟨p, id, Db.ever_now hl⟩
  | none => cases hm
  | badOutbox => cases hm
  | fault => cases hm

/-- Every call meets its specification. -/
theorem body_ends (call : Call P.Key) (hc : call.Allowed) :
    Ends I A (Tx our call) (Spec our call db) (body our call) [] db := by
  cases call with
  | createSession i new =>
    exact silent_ends (createSession_sat i hc) (fun _ => rfl) (fun _ => rfl) fun _ _ _ => trivial
  | recordProvisionalHandshake i handle provisional validated =>
    exact Sat.returning (((recordProvisionalHandshake_sat i handle provisional validated).weaken
      fun _ _ h => h.imp_right And.right).mono fun r _ _ h => .silent rfl rfl ⟨r, rfl, h.refused⟩)
  | provisionalHandshake handle =>
    exact silent_ends (provisionalHandshake_sat handle) (fun _ => rfl) (fun _ => rfl)
      fun _ _ _ => trivial
  | acceptFirstMessage i first wire =>
    exact first_ends i first wire hc
  | peerOf handle =>
    exact silent_ends (peerOf_sat handle) (fun _ => rfl) (fun _ => rfl) fun _ _ _ => trivial
  | hasReceived handle =>
    exact silent_ends (hasReceived_sat handle) (fun _ => rfl) (fun _ => rfl) fun _ _ _ => trivial
  | isLegacyUnconfirmed handle =>
    exact silent_ends (isLegacyUnconfirmed_sat handle) (fun _ => rfl) (fun _ => rfl)
      fun _ _ _ => trivial
  | initialOutbound handle =>
    exact silent_ends (initialOutbound_sat handle) (fun _ => rfl) (fun _ => rfl)
      fun _ _ _ => trivial
  | send i handle clientId plaintext => exact send_ends i handle clientId plaintext
  | receive i handle wire => exact receive_ends i handle wire
  | pendingOutgoing handle => exact pendingOutgoing_ends handle
  | priorSend peer clientId => exact priorSend_ends peer clientId
  | acknowledgeOutgoing handle id =>
    exact silent_ends (acknowledgeOutgoing_sat handle id) (fun _ => rfl) (fun _ => rfl)
      fun _ _ _ => trivial
  | pendingIncoming handle => exact pendingIncoming_ends handle
  | acknowledgeIncoming handle id =>
    exact silent_ends (acknowledgeIncoming_sat handle id) (fun _ => rfl) (fun _ => rfl)
      fun _ _ _ => trivial
  | recover i handle =>
    refine Ends.returning (Ends.naming (V := fun _ _ db₁ => db.Le db₁)
      (Sat.remembered fun db₁ hle _ _ => hle) (fun e _ _ _ => ?_) fun mark tr₁ db₁ h₁ => ?_)
    · exact .silent rfl rfl ⟨none, .error e, rfl, nofun⟩
    · exact (recoverFrom_sat i handle mark).mono fun r tr₂ db₂ h₂ =>
        .silent rfl rfl ⟨mark, r, rfl, fun u rep hu hr => (h₂.2 u rep hu hr).mono h₁⟩
  | abandonOutgoing handle id =>
    exact silent_ends (abandonOutgoing_sat handle id) (fun _ => rfl) (fun _ => rfl)
      fun _ _ _ => trivial
  | removeSession i handle =>
    exact Sat.returning ((removeSession_sat i handle).mono
      fun r _ _ h => .silent rfl rfl ⟨r, rfl, h⟩)

/-- What every call of every messenger keeps to. -/
def contract (P : Platform) (our : Bytes32) : Contract (system P our) where
  I s := s.db.Valid (Trans our)
  R s s' := s.db.Le s'.db
  G call _ s s' := Moves (Tx our call) s.db s'.db
  Q call s res t s' := Spec our call s.db res (dbs t) s'.db
  refl s := Db.Le.refl _
  trans _ _ _ := Db.Le.trans
  guarantee call _ s s' _ hI hG := by
    rcases hG with hG | ⟨rows, ht, hG⟩
    · rw [hG]
      exact ⟨hI, Db.Le.refl _⟩
    · rw [hG]
      exact ⟨.push hI ht.trans, Db.le_push _ _⟩
  env s s' hI he := by
    cases he with
    | restart i => exact ⟨hI, Db.Le.refl _⟩
    | app rows h => exact ⟨.push hI (.app h), Db.le_push _ _⟩
  triple call s hc _ := (body_ends (A := fun _ _ => False) call hc [] s.mem s.asked rfl).mono
    (fun _ _ h => h.moves) fun _ _ _ h => h

theorem Reachable.holds {c : Config Choice (Device P.Key Memory) (Call P.Key) Res}
    (h : Reachable our c) : (contract P our).Holds c :=
  Contract.sound (show (contract P our).I (Device.fresh P) from Db.Valid.empty) h

end Messenger

end Arcium
