import Arcium.Network.Delivered
import Arcium.Network.Replays
import Arcium.Protocol.Alone

/-!
# The opener of a session

`start_session` sends an empty message on the session it created, so that the peer has a message that
authenticates its handshake. The message is sent under a fixed client id, whose send record outlives
the session: once it exists, for a session that was removed since, `send` answers from it and encrypts
nothing.

* `Opened`: a session, its handshake and its opener are stored.
* `opened_iff`: a session that was started has its opener just if no opener was sent to the peer
  before.
* `not_opened`: after a conflict is resolved, a session can be started without one.
-/

namespace Arcium

open Conc

namespace Network

variable {P : AppPlatform} {C : Choice → Prop} {s : Device P.Key Memory} {peer : Peer}
  {scope : Scope P} {handle : UInt64} {α β : Type}

/-! ## What starting a session did -/

theorem lift_returns {x : Except CoreError α} {f : α → Core P β} {V : β → Device P.Key Memory → Prop}
    (hf : ∀ a, x = .ok a → Gets (f a) s V) : Gets (Core.lift x >>= f) s V := by
  cases x with
  | ok a =>
    refine Gets.seq (V := fun b s' => b = a ∧ s' = s) (.pure ⟨rfl, rfl⟩) fun b s' h => ?_
    obtain ⟨rfl, rfl⟩ := h
    exact hf b rfl
  | error e => exact Gets.seq (V := fun _ _ => False) .throw fun _ _ h => h.elim

theorem messenger_returns {x : Do P.toPlatform α} {V : α → Device P.Key Memory → Prop}
    (h : Gets x s V) : Gets (Core.messenger handle x) s V := Gets.mapError h

/-- A part that writes nothing. -/
theorem looks_returns {p : Core P α} {R : α → Db P.Key → Prop}
    (h : Meets (· = s.db) (fun _ _ => True) (fun _ _ => False) (Gives R) p s.db) :
    Gets p s fun a s' => s'.db = s.db ∧ R a s.db :=
  (Solo.of_meets h).mono fun _ _ h a ha => ⟨h.1, h.2 a ha⟩

theorem request_returns {request : Request} {view : Answer → α} :
    Gets (Network.request request view : Core P α) s fun _ s' => s'.db = s.db :=
  .ask fun _ _ _ => rfl

/-- A session that was started. -/
structure Created (our : Bytes32) (new : NewSession P.Key) (peer : Peer) (db : Db P.Key)
    (rows : Rows P.Key) : Prop where
  tx : Messenger.CreateTx (P := P.toPlatform) our new db rows
  peer_eq : new.session.peerIdentityPk = peer
  handle_eq : new.handle = localSessionHandle P peer
  role : new.role = .initiator
  outbound : new.initialOutbound.isSome

section Created

variable {our : Bytes32} {new : NewSession P.Key} {db : Db P.Key} {rows : Rows P.Key}

theorem Created.lookup (h : Created our new peer db rows) : ∃ bytes : Bytes,
    ∀ k : Key, k.isMessenger = true → rows.lookup k = (db.rows.applyAll
      [⟨.session peer, some (Messenger.newRecord our new)⟩,
        ⟨.handle (localSessionHandle P peer), some peer⟩,
        ⟨.handshake peer, some bytes⟩]).lookup k := by
  obtain ⟨htx, rfl, hh, -, ho⟩ := h
  obtain ⟨bytes, hb⟩ := Option.isSome_iff_exists.mp ho
  refine ⟨bytes, fun k hk => ?_⟩
  have hl := Messenger.lookup_createChanges our htx.extra k hk db.rows
  rw [hb, hh] at hl
  rw [htx.eq]
  exact hl

theorem Created.session (h : Created our new peer db rows) :
    rows.lookup (.session peer) = some (Messenger.newRecord our new) := by
  obtain ⟨bytes, hl⟩ := h.lookup
  rw [hl _ rfl]
  exact Rows.lookup_applyAll_head _ _ (by simp)

theorem Created.named (h : Created our new peer db rows) :
    rows.lookup (.handle (localSessionHandle P peer)) = some peer := by
  obtain ⟨bytes, hl⟩ := h.lookup
  rw [hl _ rfl, Rows.applyAll_cons]
  exact Rows.lookup_applyAll_head _ _ (by simp)

theorem Created.handshake (h : Created our new peer db rows) :
    (rows.lookup (.handshake peer)).isSome := by
  obtain ⟨bytes, hl⟩ := h.lookup
  rw [hl _ rfl, Rows.applyAll_cons, Rows.applyAll_cons]
  exact Option.isSome_iff_exists.mpr ⟨bytes, Rows.lookup_applyAll_head _ _ (by simp)⟩

/-- Messages are left alone. -/
theorem Created.sendid (h : Created our new peer db rows) (clientId : Bytes) :
    rows.lookup (.sendid peer clientId) = db.rows.lookup (.sendid peer clientId) := by
  obtain ⟨bytes, hl⟩ := h.lookup
  rw [hl _ rfl]
  exact Rows.lookup_applyAll_ne _ (by simp)

end Created

theorem establishSessionInitiator_returns (i : Nat) {bytes : Bytes}
    (hid : ∀ bundle, unpackPrekeyBundle P bytes = .ok bundle → bundle.identityPk = peer) :
    Gets (Core.establishSessionInitiator i (localSessionHandle P peer) bytes : Core P _) s fun _ s' =>
      ∃ our new rows, Created our new peer s.db rows ∧ s'.db = s.db.push rows := by
  refine Gets.seq (looks_returns requireIdentity_gives) fun identity s₁ h₁ => ?_
  refine lift_returns fun bundle hb => ?_
  refine Gets.seq (V := fun _ s' => s'.db = s.db) (.draw fun _ => h₁.1) fun ephemeralSk s₂ h₂ => ?_
  dsimp only
  split
  · exact .throw
  next alice halice =>
  refine Gets.seq (V := fun _ s' => s'.db = s.db) (.draw fun _ => h₂) fun dhs s₃ h₃ => ?_
  have hx : Messenger.AppOnly (Core.initiatorSession (localSessionHandle P peer)
      (Core.dhPublicKey P identity) bundle alice dhs).extra := fun w hw => nomatch (hw : w ∈ [])
  refine Gets.seq (messenger_returns (Messenger.createSession_gets i hx)) fun _ s₄ h₄ => .pure ?_
  obtain ⟨rows, htx, hdb⟩ := h₄
  rw [h₃] at htx hdb
  exact ⟨_, _, rows, ⟨htx, hid bundle hb, rfl, rfl, rfl⟩, hdb⟩

theorem sendCommitted_returns (i : Nat) {clientId plaintext : Bytes}
    (hp : s.db.rows.lookup (.handle handle) = some peer) :
    Gets (Core.sendCommitted i handle clientId plaintext : Core P _) s fun o s' => ∃ our s₁,
      s₁.db = s.db ∧
      Messenger.SendGets (P := P.toPlatform) our handle peer clientId plaintext s₁ o s' := by
  refine Gets.seq (looks_returns ourIdentityPk_gives) fun our s₁ h₁ => messenger_returns ?_
  refine Gets.seq ((Messenger.solo_of_look (Messenger.sendPeer_sat i handle clientId)).mono
    (U := fun r s' => ∀ q, r = .ok q → s'.db = s₁.db ∧
      (clientId ≠ [] ∧ clientId.length ≤ Messenger.maxClientMessageIdLen) ∧
        s₁.db.rows.lookup (.handle handle) = some q) fun r s' h q hq => ⟨h.1, h.2 q hq⟩)
    fun q s₂ h₂ => ?_
  obtain ⟨hdb, hid, hq⟩ := h₂
  obtain rfl : q = peer := Option.some.inj (hq.symm.trans (h₁.1 ▸ hp))
  exact (Messenger.sendAs_gets i (hdb ▸ hq) hid).mono fun r s' h o ho =>
    ⟨our, s₂, hdb.trans h₁.1, h o ho⟩

theorem startSession_returns (hf : Filed s.db) (i : Nat) :
    Gets (startSession i peer : Core P _) s fun _ s' => ∃ our new rows,
      Created our new peer s.db rows ∧ ∃ our' s₁ o, s₁.db = s.db.push rows ∧
        Messenger.SendGets (P := P.toPlatform) our' (localSessionHandle P peer) peer ClientId.opener
          Payload.opener.encode s₁ o s' := by
  refine Gets.seq (looks_returns (requireContact_gives (fun db h => h ▸ hf) peer))
    fun card s₁ h₁ => ?_
  obtain ⟨hdb₁, hcard, -⟩ := h₁
  refine Gets.seq (looks_returns (hasSession_runs _)) fun found s₂ h₂ => ?_
  have hdb₂ := h₂.1.trans hdb₁
  dsimp only
  split
  · exact Gets.seq (V := fun _ _ => False) .throw fun _ _ h => h.elim
  refine Gets.seq request_returns fun _ s₃ h₃ => ?_
  refine Gets.seq request_returns fun bundle s₄ h₄ => ?_
  have hdb₄ := h₄.trans (h₃.trans hdb₂)
  split
  · exact .throw
  refine lift_returns fun parsed hp => ?_
  split
  · exact Gets.seq (V := fun _ _ => False) .throw fun _ _ h => h.elim
  next hne =>
  have hid := not_not.mp (not_or.mp hne).1
  refine Gets.seq (establishSessionInitiator_returns i fun bundle hb => ?_)
    fun _ s₅ h₅ => ?_
  · obtain rfl := Except.ok.inj (hp.symm.trans hb)
    exact hid.trans hcard
  obtain ⟨our, new, rows, hnew, hdb₅⟩ := h₅
  rw [hdb₄] at hnew hdb₅
  have hnamed : s₅.db.rows.lookup (.handle (localSessionHandle P peer)) = some peer := by
    rw [hdb₅]
    exact hnew.named
  refine Gets.seq (sendCommitted_returns i hnamed) fun o s₆ h₆ => .pure ?_
  obtain ⟨our', s₁', hdb₆, h₆⟩ := h₆
  exact ⟨our, new, rows, hnew, our', s₁', o, hdb₆.trans hdb₅, h₆⟩

/-! ## The opener -/

/-- A session with `peer` is stored that was created by the device, and its opener is pending: a
message encrypted on the session as it was created. -/
structure Opened (rows : Rows P.Key) (peer : Peer) : Prop where
  named : rows.lookup (.handle (localSessionHandle P peer)) = some peer
  handshake : (rows.lookup (.handshake peer)).isSome
  opener : ∃ (our : Bytes32) (created stored : SessionRecord P.Key) (nonce : Nonce)
      (out : Header × Bytes) (m : OutgoingMessage),
    created.role = .initiator ∧ created.generation = 0 ∧
    Messenger.Follows (P := P.toPlatform) our peer created stored ∧
    Messenger.Encrypts (P := P.toPlatform) created stored Payload.opener.encode nonce out ∧
    m.wire = Messenger.wireOf out ∧ m.clientMessageId = ClientId.opener ∧
    rows.lookup (.session peer) = some stored ∧ rows.lookup (.outbox peer m.messageId) = some m

/-- **A session that was started has its opener** if none was sent to the peer before, and only
then. -/
theorem opened_iff {c : DeviceConfig P} (h : Reachable scope c) (i : Nat) {s' : Device P.Key Memory}
    (ha : Prog.Alone (fun _ => True) (startSession i peer : Core P Unit).run c.shared (.ok ()) s') :
    Opened s'.db.rows peer ↔ c.shared.db.rows.lookup (.sendid peer ClientId.opener) = none := by
  obtain ⟨our, new, rows, hnew, our', s₁, o, hdb, hsend⟩ :=
    startSession_returns (filed h.valid) i _ _ ha () rfl
  cases hsend with
  | prior hprior hsame =>
    refine ⟨fun ho => ?_, fun hn => ?_⟩
    · -- The session is as it was created.
      obtain ⟨_, created, stored, _, _, _, -, hgen, hfollows, -, -, -, hstored, -⟩ := ho.opener
      rw [hsame, hdb, Db.push_rows, hnew.session] at hstored
      obtain rfl := Option.some.inj hstored
      have heq : (0 : UInt64) = created.generation + 1 :=
        congrArg SessionRecord.generation hfollows.eq
      rw [hgen] at heq
      cases heq
    · rw [← hnew.sendid, ← Db.push_rows c.shared.db rows, ← hdb] at hn
      have hst := hprior.status
      rw [Messenger.statusAt_new hn] at hst
      exact (Messenger.statusOf_ne_new o hst.symm).elim
  | sent old stored m rows' found htx outcome hdb' =>
    refine ⟨fun _ => ?_, fun _ => ?_⟩
    · rw [← hnew.sendid, ← Db.push_rows c.shared.db rows, ← hdb]
      exact htx.noSendid
    · rw [hdb, Db.push_rows, hnew.session] at found
      obtain rfl := Option.some.inj found
      obtain ⟨nonce, out, hencrypts, hwire⟩ := htx.encrypts
      have hm : m.clientMessageId = ClientId.opener := by rw [htx.message]
      have hrows : s'.db.rows = s₁.db.rows.applyAll (Messenger.sendChanges peer peer stored m) := by
        rw [hdb', Db.push_rows, htx.eq]
      have hkept : ∀ k : Key, k ≠ .session peer → k ≠ .outbox peer m.messageId →
          k ≠ .sendid peer m.clientMessageId → s'.db.rows.lookup k = rows.lookup k := by
        intro k h1 h2 h3
        rw [hrows, hdb, Db.push_rows]
        exact Rows.lookup_applyAll_ne _ (by simp [Messenger.sendChanges, h1, h2, h3])
      refine ⟨?_, ?_, our', Messenger.newRecord our new, stored, nonce, out, m, hnew.role, rfl,
        htx.follows, hencrypts, hwire, hm, ?_, ?_⟩
      · exact (hkept (.handle (localSessionHandle P peer)) (by simp) (by simp) (by simp)).trans hnew.named
      · rw [hkept (.handshake peer) (by simp) (by simp) (by simp)]
        exact hnew.handshake
      · rw [hrows]
        exact Rows.lookup_applyAll_head _ _ (by simp)
      · rw [hrows, Messenger.sendChanges, Rows.applyAll_cons]
        exact Rows.lookup_applyAll_head _ _ (by simp)

/-! ## A session that was started twice -/

namespace ConflictRun

def own : Identity := ⟨fill 5, fill 6⟩

/-- What is drawn, with the answers of the relay. -/
def draws (relay : Answer) : List Choice :=
  (List.range 120).map fun n =>
    { secret := fill (UInt8.ofNat (120 + n)), id := UInt64.ofNat n, relay }

/-- A handshake under the name of the peer. -/
def handshake : Bytes := packInitiatorHandshake
  { identityPk := fill 3, ephemeralPk := fill 9, spkId := List.replicate 8 9, opkId := none }

def calls (relay : Answer) (c : DeviceConfig symbolicApp) (calls : List Call) :
    Option (DeviceConfig symbolicApp) :=
  (system symbolicApp TextRun.anything.calls).runCalls (draws relay) c calls

/-- A contact without a session. -/
def pinned : Option (DeviceConfig symbolicApp) :=
  calls {} (Config.init ⟨TextRun.anything.start, fun _ => {}, []⟩)
    [.saveIdentity own, .addContact TextRun.card]

/-- A session is started, a handshake arrives, and the conflict is resolved: the session is gone. -/
def resolved : Option (DeviceConfig symbolicApp) :=
  pinned.bind fun c => (calls { bundle := some TextRun.bundle } c [.startSession 0 (fill 3)]).bind
    fun c => (calls { items := [(1, (Envelope.handshake (fill 3) handshake).encode)] } c
      [.sync 0]).bind fun c => calls {} c [.resolveSessionConflict 0 (fill 3)]

/-- Start a session with the peer. -/
def start (c : DeviceConfig symbolicApp) : Option (Device symbolicApp.Key Memory) :=
  (System.exec (startSession (P := symbolicApp) 0 (fill 3)).run
    (draws { bundle := some TextRun.bundle }) c.shared []).bind
    fun x => if x.1 = .ok () then some x.2.2 else none

theorem start_alone {c : DeviceConfig symbolicApp} {s' : Device symbolicApp.Key Memory}
    (h : start c = some s') : Prog.Alone (fun _ => True)
      (startSession 0 (fill 3) : Core symbolicApp Unit).run c.shared (.ok ()) s' := by
  unfold start at h
  obtain ⟨x, hx, h⟩ := Option.bind_eq_some_iff.mp h
  split at h
  · next hr =>
    cases h
    exact hr ▸ System.alone_of_exec (fun _ _ => trivial) hx
  · cases h

theorem calls_reachable {relay : Answer} {c c' : DeviceConfig symbolicApp} {cs : List Call}
    (hr : Reachable TextRun.anything c ∧ c.threads = fun _ => none) (h : calls relay c cs = some c') :
    Reachable TextRun.anything c' ∧ c'.threads = fun _ => none := by
  have hrun := System.Reach.runCalls hr.1.run (fun i => congrFun hr.2 i) (fun _ _ => trivial) h
  exact ⟨⟨.empty, hrun⟩, (System.runCalls_threads _ h).trans hr.2⟩

theorem pinned_reachable {c : DeviceConfig symbolicApp} (h : pinned = some c) :
    Reachable TextRun.anything c ∧ c.threads = fun _ => none :=
  calls_reachable ⟨⟨.empty, .refl⟩, rfl⟩ h

theorem resolved_reachable {c : DeviceConfig symbolicApp} (h : resolved = some c) :
    Reachable TextRun.anything c := by
  unfold resolved at h
  obtain ⟨c₁, h₁, h⟩ := Option.bind_eq_some_iff.mp h
  obtain ⟨c₂, h₂, h⟩ := Option.bind_eq_some_iff.mp h
  obtain ⟨c₃, h₃, h⟩ := Option.bind_eq_some_iff.mp h
  exact (calls_reachable (calls_reachable (calls_reachable (pinned_reachable h₁) h₂) h₃) h).1

/-- The session with the peer. -/
def session (s : Device symbolicApp.Key Memory) : Option (SessionRecord symbolicApp.Key) :=
  s.db.rows.lookup (Key.session (fill 3))

/-- What was sent as an opener. -/
def opener (s : Device symbolicApp.Key Memory) : Option SendRecord :=
  s.db.rows.lookup (Key.sendid (fill 3) ClientId.opener)

theorem resolved_facts : (resolved.bind start).map (fun s' =>
    (session s').isSome && (Db.selectAt s'.db.rows Db.outboxView).isEmpty) = some true := by
  decide +kernel

theorem pinned_facts : pinned.bind (fun c => (start c).map fun _ => (opener c.shared).isNone) =
    some true := by decide +kernel

end ConflictRun

/-- **A session without its opener**: one that is started after a conflict was resolved has no pending
message at all. -/
theorem not_opened : ∃ (c : DeviceConfig symbolicApp) (s' : Device symbolicApp.Key Memory),
    Reachable TextRun.anything c ∧
    Prog.Alone (fun _ => True) (startSession (P := symbolicApp) 0 (fill 3)).run c.shared (.ok ()) s' ∧
    (s'.db.rows.lookup (.session (fill 3))).isSome ∧
    (∀ p id, s'.db.rows.lookup (.outbox p id) = none) ∧ ¬ Opened s'.db.rows (fill 3) := by
  obtain ⟨s', hs, hfacts⟩ := Option.map_eq_some_iff.mp ConflictRun.resolved_facts
  obtain ⟨c, hc, hs⟩ := Option.bind_eq_some_iff.mp hs
  obtain ⟨hsession, hempty⟩ := Bool.and_eq_true_iff.mp hfacts
  have hout : ∀ p id, s'.db.rows.lookup (.outbox p id) = none := by
    intro p id
    cases hm : s'.db.rows.lookup (.outbox p id) with
    | none => rfl
    | some m =>
      have hmem : m ∈ Db.selectAt s'.db.rows Db.outboxView :=
        Db.mem_selectAt.mpr ⟨.outbox p id, m, hm, rfl⟩
      rw [List.isEmpty_iff.mp hempty] at hmem
      cases hmem
  refine ⟨c, s', ConflictRun.resolved_reachable hc, ConflictRun.start_alone hs, hsession, hout,
    fun ho => ?_⟩
  obtain ⟨_, _, _, _, _, m, -, -, -, -, -, -, -, hm⟩ := ho.opener
  rw [hout] at hm
  cases hm

/-- The first session with a contact has its opener. -/
theorem opened_iff_first : ∃ (c : DeviceConfig symbolicApp) (s' : Device symbolicApp.Key Memory),
    Reachable TextRun.anything c ∧
    Prog.Alone (fun _ => True) (startSession (P := symbolicApp) 0 (fill 3)).run c.shared (.ok ()) s' ∧
    Opened s'.db.rows (fill 3) := by
  obtain ⟨c, hc, h⟩ := Option.bind_eq_some_iff.mp ConflictRun.pinned_facts
  obtain ⟨s', hs, hn⟩ := Option.map_eq_some_iff.mp h
  have hr := (ConflictRun.pinned_reachable hc).1
  have ha := ConflictRun.start_alone hs
  exact ⟨c, s', hr, ha, (opened_iff hr 0 ha).mpr (Option.isNone_iff_eq_none.mp hn)⟩

end Network

end Arcium
