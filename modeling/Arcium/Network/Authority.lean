import Arcium.Network.Responders
import Arcium.Network.Unheard

/-!
# Unauthenticated input has no authority

A handshake and a wire come from anyone. A handshake changes the record of the handshake under its
handle; a session of an older build that did nothing yet may give way to that record. A wire changes
nothing unless it decrypts on the stored session, or on the session that the recorded handshake gives.

* `Authenticates`: what a wire decrypts on, where the handle may have named the peer at any time of a
  call that others run beside. Of a call that runs alone it is `AuthenticatesNow`.
* `Kept`: what a sequence of such inputs leaves of a record, of any length (`inputs_kept`).
* `no_authority`: both, for every reachable configuration and every run from it.
-/

namespace Arcium

open Conc

namespace Network

variable {P : AppPlatform} {scope : Scope P} {call : Call} {db db' base : Db P.Key}
  {rows : Rows P.Key} {c : DeviceConfig P} {handle : UInt64} {bytes wire : Bytes} {i : Nat}

/-! ## What the inputs do -/

/-- The wire decrypts on the stored session of a peer that the handle named at some time, or on the one
that the recorded handshake gives. -/
inductive Authenticates (db : Db P.Key) (handle : UInt64) (wire : Bytes) : Prop
  | session (peer : Peer) (old new : SessionRecord P.Key) (fresh : StaticSecret) (plaintext : Bytes)
      (named : Named db handle peer) (stored : db.rows.lookup (.session peer) = some old)
      (h : Messenger.Decrypts (P := P.toPlatform) old new wire fresh plaintext)
  | first (f : FirstMessage P) (fresh : StaticSecret)
      (recorded : db.rows.lookup (.provisional handle) = some f.provisional)
      (answers : Answers f.identity f.provisional.handshake f.handshake f.record db)
      (h : Messenger.Decrypts (P := P.toPlatform) f.candidate f.session wire fresh f.message.plaintext)

/-- The calls that hand over what came from a peer. -/
def Call.IsInput : Call → Prop
  | establishSessionResponder _ _ _ | receiveMessage _ _ _ => True
  | _ => False

/-- The transactions of an input. -/
theorem Step.of_input {start : Db P.Key} (hc : call.IsInput) (h : Step start call db rows) :
    (∃ identity handle bytes handshake record, call.Responds handle bytes ∧
      Answers identity bytes handshake record db ∧
      RespondTx start identity handle bytes handshake record db rows) ∨
    (∃ f : FirstMessage P, call.Receives f.handle f.wire ∧ f.Commits db rows) ∨
    ∃ our handle wire peer old new m, call.Receives handle wire ∧
      Messenger.ReceiveTx (P := P.toPlatform) our handle wire db peer old new m rows := by
  have syncs : ¬ call.Syncs := by
    cases call <;> first | exact hc.elim | exact id
  have refreshes : ∀ peer, ¬ call.Refreshes peer := by
    cases call <;> first | exact hc.elim | exact fun _ => id
  have starts : ∀ peer, ¬ call.Starts peer := by
    cases call <;> first | exact hc.elim | exact fun _ => id
  have givesUp : ∀ {peer : Peer}, ¬ GivesUp call db peer := by
    rintro peer ⟨⟨i, rfl⟩, -⟩
    exact hc.elim
  rcases h with h | ⟨called, -, -, -, -⟩
  swap
  · cases call <;> first | exact hc.elim | exact called.elim
  cases h with
  | identity identity called h =>
    subst called
    exact hc.elim
  | contact card called h =>
    obtain ⟨_, rfl | ⟨_, rfl⟩⟩ := called <;> exact hc.elim
  | initiate identity handle peerBundle bundle ephemeralSk dhs alice called h =>
    rcases called with ⟨_, rfl⟩ | ⟨_, -, -, -, called⟩
    · exact hc.elim
    · exact (starts _ called).elim
  | respond identity handle bytes handshake record called own answers h =>
    exact .inl ⟨identity, handle, bytes, handshake, record, called, answers, h⟩
  | first identity handle wire provisional handshake record fresh new m called h =>
    exact .inr (.inl ⟨⟨identity, handle, wire, provisional, handshake, record, fresh, new, m⟩, called, h⟩)
  | send our ours handle clientId plaintext peer q old new m why h =>
    cases why with
    | raw _ _ _ called =>
      subst called
      exact hc.elim
    | text _ _ _ _ why =>
      cases why with
      | claimed _ called =>
        subst called
        exact hc.elim
      | queued called => exact (refreshes _ called).elim
    | receipt _ _ called => exact (syncs called).elim
    | opener _ _ called => exact (starts _ called).elim
  | receive our ours handle wire peer old new m called h =>
    exact .inr (.inr ⟨our, handle, wire, peer, old, new, m, called, h⟩)
  | ackOut handle id peer called why h => exact (syncs called).elim
  | ackIn handle id peer why h =>
    cases why with
    | raw called =>
      rcases called with rfl | ⟨_, -, rfl⟩ <;> exact hc.elim
    | opener called => exact (syncs called).elim
    | receipt called => exact (syncs called).elim
    | unknown called => exact (syncs called).elim
    | recorded _ called => exact (refreshes _ called).elim
  | abandon handle id peer m contact own why h => exact (givesUp why).elim
  | remove our ours handle peer old why h =>
    rcases why with ⟨_, rfl⟩ | ⟨_, -, why⟩
    · exact hc.elim
    · exact (givesUp why).elim
  | chat h =>
    cases h with
    | described _ called => cases call <;> first | exact hc.elim | exact called.elim
    | advanced _ _ _ _ _ _ _ _ why =>
      cases why with
      | sent called => exact (refreshes _ called).elim
      | settled called => exact (refreshes _ called).elim
      | transmitted called => exact (refreshes _ called).elim
      | givenUp why => exact (givesUp why).elim
    | received _ called => exact (refreshes _ called).elim
    | claimed _ _ _ _ called =>
      subst called
      exact hc.elim
    | queued _ _ _ _ _ called =>
      subst called
      exact hc.elim

/-! ## Sessions of an older build -/

/-- Nothing but an older build stores such a session. -/
theorem Trans.legacy_kept (h : Trans scope db rows) (hs : scope.start.Le db) {peer : Peer}
    {rec : SessionRecord P.Key} (hl : rows.lookup (.session peer) = some rec)
    (hr : Messenger.LegacyUnconfirmed rec) : db.rows.lookup (.session peer) = some rec := by
  obtain ⟨hrole, hgen, -⟩ := hr
  have follows : ∀ {our : Bytes32} {old : SessionRecord P.Key},
      Messenger.Follows (P := P.toPlatform) our peer old rec → False := by
    intro our old hf
    have h1 := one_le_succ hf.room
    rw [hf.eq] at hgen
    dsimp only at hgen
    rw [hgen] at h1
    exact absurd h1 (by decide)
  cases h.session_origin hl with
  | kept h => exact h
  | initiated identity handle peerBundle bundle ephemeralSk dhs alice h peer_eq role =>
    rw [role] at hrole
    cases hrole
  | promoted identity handle wire provisional handshake record fresh m h peer_eq =>
    subst peer_eq
    exact (follows h.promote.follows).elim
  | sent our handle clientId plaintext dest old m h => exact (follows h.follows).elim
  | received our handle wire old m h => exact (follows h.follows).elim
  | legacy before unconfirmed => exact (Db.not_push_le (before.trans hs)).elim

/-- A session of an older build has the handle that it had at the start. -/
theorem legacy_named {db₀ : Db P.Key} {p q : Peer} {rec : SessionRecord P.Key}
    (hv : db.Valid (Trans scope)) (hs : scope.start.Le db₀) (hle : db₀.Le db)
    (hp : db₀.rows.lookup (.handle handle) = some p) (hq : db.rows.lookup (.handle handle) = some q)
    (hl : db.rows.lookup (.session q) = some rec) (hr : Messenger.LegacyUnconfirmed rec) : q = p := by
  induction hv with
  | empty =>
    rw [Db.le_empty hle, hq] at hp
    exact Option.some.inj hp
  | push hv ht ih =>
    rcases Db.le_push_cases hle with rfl | hle
    · exact Option.some.inj (hq.symm.trans hp)
    · have hl' := ht.legacy_kept (hs.trans hle) hl hr
      rcases ht.handle_origin hq with hq | ⟨hnone, -⟩
      · exact ih hle hq hl'
      · rw [hnone] at hl'
        cases hl'

/-! ## One input -/

/-- What a handshake does: it is recorded, perhaps in the place of a session of an older build. -/
inductive HandshakeNoted (handle : UInt64) (bytes : Bytes) (db : Db P.Key) (rows : Rows P.Key) : Prop
  | recorded (handshake : InitiatorHandshake) (parsed : unpackInitiatorHandshake bytes = .ok handshake)
      (stored : rows.lookup (.provisional handle) = some (provisionalOf handshake bytes))
      (others : ∀ k, k ≠ .provisional handle → rows.lookup k = db.rows.lookup k)
  | retired (handshake : InitiatorHandshake) (old : SessionRecord P.Key)
      (parsed : unpackInitiatorHandshake bytes = .ok handshake)
      (stored : rows.lookup (.provisional handle) = some (provisionalOf handshake bytes))
      (named : db.rows.lookup (.handle handle) = some handshake.identityPk)
      (session : db.rows.lookup (.session handshake.identityPk) = some old)
      (legacy : Messenger.LegacyUnconfirmed old)
      (unnamed : rows.lookup (.handle handle) = none)
      (ended : rows.lookup (.session handshake.identityPk) = none)
      (others : ∀ k, k ≠ .provisional handle → k ≠ .handle handle →
        k ≠ .session handshake.identityPk → rows.lookup k = db.rows.lookup k)

theorem RespondTx.noted {identity : Identity} {handshake : InitiatorHandshake} {record : PrekeyRecord}
    (hv : db.Valid (Trans scope)) (hcf : Messenger.CollisionFree (P := P.toPlatform) db)
    (answers : Answers identity bytes handshake record db)
    (h : RespondTx scope.start identity handle bytes handshake record db rows) :
    HandshakeNoted handle bytes db rows := by
  cases h with
  | recorded h =>
    refine .recorded handshake answers.parsed ?_ fun k hk => ?_
    · rw [h.eq]
      exact Rows.lookup_apply_self db.rows _ (some _)
    · rw [h.eq]
      exact Rows.lookup_applyAll_ne _ (by simpa using hk)
  | retired peer old named h =>
    have hsession := h.unchanged.eq hcf h.loaded.ever
    obtain ⟨db₀, hs, hle, hp⟩ := named
    obtain rfl := legacy_named hv hs hle hp h.registered hsession h.legacy
    refine .retired handshake old answers.parsed ?_ h.registered hsession h.legacy ?_ ?_
      fun k h1 h2 h3 => ?_
    · rw [h.eq]
      exact Rows.lookup_apply_self _ _ (some _)
    · rw [h.eq]
      exact Rows.lookup_applyAll_head _ none (by simp)
    · rw [h.eq]
      exact Rows.lookup_applyAll_head _ none (by simp)
    · rw [h.eq]
      exact Rows.lookup_applyAll_ne _ (by simpa using ⟨h3, h2, h1⟩)

/-- A message that changes anything authenticates. -/
theorem FirstMessage.Commits.authenticates {f : FirstMessage P} (h : f.Commits db rows) :
    Authenticates db f.handle f.wire := by
  obtain ⟨fresh, hd⟩ := h.promote.decrypts
  exact .first f fresh h.promote.provisional h.answers hd

theorem authenticates_of_receive {our : Bytes32} {peer : Peer} {old new : SessionRecord P.Key}
    {m : IncomingMessage} (hcf : Messenger.CollisionFree (P := P.toPlatform) db)
    (h : Messenger.ReceiveTx (P := P.toPlatform) our handle wire db peer old new m rows) :
    Authenticates db handle wire := by
  obtain ⟨db₀, db₁, h01, h1, hn, -⟩ := h.loaded.read
  obtain ⟨fresh, hd⟩ := h.decrypts
  exact .session peer old new fresh m.plaintext ⟨db₀, h01.trans h1, hn⟩
    (h.unchanged.eq hcf h.loaded.ever) hd

/-- What one input does. -/
inductive InputDone (call : Call) (db : Db P.Key) (rows : Rows P.Key) : Prop
  | handshake (i : Nat) (handle : UInt64) (bytes : Bytes)
      (called : call = .establishSessionResponder i handle bytes) (h : HandshakeNoted handle bytes db rows)
  | message (i : Nat) (handle : UInt64) (wire : Bytes)
      (called : call = .receiveMessage i handle wire) (h : Authenticates db handle wire)

theorem Step.inputDone (hc : call.IsInput) (hv : db.Valid (Trans scope))
    (hcf : Messenger.CollisionFree (P := P.toPlatform) db) (h : Step scope.start call db rows) :
    InputDone call db rows := by
  rcases h.of_input hc with ⟨identity, handle, bytes, handshake, record, called, answers, htx⟩ |
    ⟨f, called, htx⟩ | ⟨our, handle, wire, peer, old, new, m, called, htx⟩
  · cases call with
    | establishSessionResponder i h' b =>
      obtain ⟨rfl, rfl⟩ := called
      exact .handshake i _ _ rfl (htx.noted hv hcf answers)
    | receiveMessage => exact called.elim
    | _ => exact hc.elim
  · cases call with
    | receiveMessage i h' w =>
      obtain ⟨rfl, rfl⟩ := called
      exact .message i _ _ rfl htx.authenticates
    | establishSessionResponder => exact called.elim
    | _ => exact hc.elim
  · cases call with
    | receiveMessage i h' w =>
      obtain ⟨rfl, rfl⟩ := called
      exact .message i _ _ rfl (authenticates_of_receive hcf htx)
    | establishSessionResponder => exact called.elim
    | _ => exact hc.elim

/-! ## A sequence of inputs -/

/-- The databases that follow `base` by transactions of the calls `inputs`. -/
inductive Inputs (start : Db P.Key) (inputs : Call → Prop) (base : Db P.Key) : Db P.Key → Prop
  | refl : Inputs start inputs base base
  | step {db : Db P.Key} {rows : Rows P.Key} {call : Call} : Inputs start inputs base db →
      inputs call → Step start call db rows → Inputs start inputs base (db.push rows)

theorem Inputs.le {start : Db P.Key} {inputs : Call → Prop} (h : Inputs start inputs base db) :
    base.Le db := by
  induction h with
  | refl => exact Db.Le.refl _
  | step _ _ _ ih => exact ih.trans (Db.le_push _ _)

/-- What became of the record at a key: nothing, or it is of a handshake, or it was of a session of an
older build that did nothing yet. -/
inductive Kept (base rows : Rows P.Key) : Key → Prop
  | same {k : Key} (h : rows.lookup k = base.lookup k) : Kept base rows k
  | provisional (handle : UInt64) : Kept base rows (.provisional handle)
  | session (peer : Peer) (old : SessionRecord P.Key) (stored : base.lookup (.session peer) = some old)
      (legacy : Messenger.LegacyUnconfirmed old) (ended : rows.lookup (.session peer) = none) :
      Kept base rows (.session peer)
  | handle (handle : UInt64) (peer : Peer) (old : SessionRecord P.Key)
      (named : base.lookup (.handle handle) = some peer) (stored : base.lookup (.session peer) = some old)
      (legacy : Messenger.LegacyUnconfirmed old) (ended : rows.lookup (.handle handle) = none) :
      Kept base rows (.handle handle)

/-- A stored session is the one of the start. -/
theorem Kept.session_eq {base rows : Rows P.Key} {peer : Peer} {rec : SessionRecord P.Key}
    (h : Kept base rows (.session peer)) (hl : rows.lookup (.session peer) = some rec) :
    base.lookup (.session peer) = some rec := by
  cases h with
  | same h => exact h.symm.trans hl
  | session _ old stored legacy ended =>
    rw [ended] at hl
    cases hl

theorem Kept.handle_eq {base rows : Rows P.Key} {peer : Peer}
    (h : Kept base rows (.handle handle)) (hl : rows.lookup (.handle handle) = some peer) :
    base.lookup (.handle handle) = some peer := by
  cases h with
  | same h => exact h.symm.trans hl
  | handle _ _ old named stored legacy ended =>
    rw [ended] at hl
    cases hl

/-- A record that a step leaves alone. -/
theorem Kept.step {base rows rows' : Rows P.Key} {k : Key} (h : Kept base rows k)
    (he : rows'.lookup k = rows.lookup k) : Kept base rows' k := by
  cases h with
  | same h => exact .same (he.trans h)
  | provisional handle => exact .provisional handle
  | session peer old stored legacy ended => exact .session peer old stored legacy (he.trans ended)
  | handle handle peer old named stored legacy ended =>
    exact .handle handle peer old named stored legacy (he.trans ended)

/-- A handshake keeps what it does not note. -/
theorem HandshakeNoted.kept {base : Rows P.Key} (h : HandshakeNoted handle bytes db rows)
    (hk : ∀ k, Kept base db.rows k) (k : Key) : Kept base rows k := by
  cases h with
  | recorded handshake parsed stored others =>
    by_cases h1 : k = .provisional handle
    · subst h1
      exact .provisional handle
    · exact (hk k).step (others k h1)
  | retired handshake old parsed stored named session legacy unnamed ended others =>
    have hbase := (hk _).session_eq session
    by_cases h1 : k = .provisional handle
    · subst h1
      exact .provisional handle
    by_cases h2 : k = .handle handle
    · subst h2
      exact .handle handle _ old ((hk _).handle_eq named) hbase legacy unnamed
    by_cases h3 : k = .session handshake.identityPk
    · subst h3
      exact .session _ old hbase legacy ended
    · exact (hk k).step (others k h1 h2 h3)

/-- **Any sequence of handshakes, and of messages that do not authenticate**, keeps every other
record. -/
theorem inputs_kept {inputs : Call → Prop} (hi : ∀ call, inputs call → call.IsInput)
    (hv : db.Valid (Trans scope)) (hcf : Messenger.CollisionFree (P := P.toPlatform) db)
    (h : Inputs scope.start inputs base db)
    (hn : ∀ i handle wire, inputs (.receiveMessage i handle wire) → ∀ db₁ : Db P.Key, base.Le db₁ →
      db₁.Le db → ¬ Authenticates db₁ handle wire) (k : Key) : Kept base.rows db.rows k := by
  induction h generalizing k with
  | refl => exact .same rfl
  | @step db rows call hin hc hs ih =>
    have hle := Db.le_push db rows
    have hv' := hv.le hle
    have hcf' := hcf.mono hle
    have hkept := ih hv' hcf' fun i handle wire hw db₁ h1 h2 => hn i handle wire hw db₁ h1 (h2.trans hle)
    cases hs.inputDone (hi call hc) hv' hcf' with
    | handshake i handle bytes called h => exact h.kept hkept k
    | message i handle wire called h =>
      subst called
      exact absurd h (hn i handle wire hc db hin.le hle)

/-! ## Every run -/

theorem Device.le_refl (s : Device P.Key Memory) : s.db.Le s.db := Db.Le.refl _

theorem Device.le_trans (s s' s'' : Device P.Key Memory) (h : s.db.Le s'.db) (h' : s'.db.Le s''.db) :
    s.db.Le s''.db := h.trans h'

/-- What a run of inputs from `base` keeps. -/
def InputRun (scope : Scope P) (inputs : Call → Prop) (base db : Db P.Key) : Prop :=
  Sound scope db ∧ Inputs scope.start inputs base db

theorem InputRun.acts {inputs : Call → Prop} {call : Call} {s₀ s s' : Device P.Key Memory}
    (h : InputRun scope inputs base s.db) (hc : inputs call) (hi : scope.calls call)
    (hG : Acts (Asks s₀.db) (Step scope.start call) s s') :
    InputRun scope inputs base s'.db ∧ s.db.Le s'.db := by
  rcases hG.moves with hG | ⟨rows, ht, hG⟩
  · rw [hG]
    exact ⟨h, Db.Le.refl _⟩
  · rw [hG]
    exact ⟨⟨h.1.push hi ht, h.2.step hc ht⟩, Db.le_push _ _⟩

theorem InputRun.env {inputs : Call → Prop} {s s' : Device P.Key Memory}
    (h : InputRun scope inputs base s.db) (he : (system P inputs).env s s') :
    InputRun scope inputs base s'.db ∧ s.db.Le s'.db := by
  obtain ⟨i, rfl⟩ := he
  exact ⟨h, Db.Le.refl _⟩

/-- The contract of a run of inputs from `base`. -/
def inputContract (scope : Scope P) (inputs : Call → Prop) (base : Db P.Key)
    (hi : ∀ call, inputs call → scope.calls call) : Contract (system P inputs) where
  I s := InputRun scope inputs base s.db
  R s s' := s.db.Le s'.db
  G call s₀ s s' := Acts (Asks s₀.db) (Step scope.start call) s s'
  Q _ _ _ _ _ := True
  refl := Device.le_refl
  trans := Device.le_trans
  guarantee call _ _ _ hc hI hG := InputRun.acts hI hc (hi call hc) hG
  env _ _ hI he := InputRun.env hI he
  triple call s _ hI := (body_ends call hI.1 [] s.mem s.asked rfl).strengthen fun _ h => h.1

/-- What unauthenticated input can do to a device. -/
structure NoAuthority (scope : Scope P) (c : DeviceConfig P) : Prop where
  handshake : ∀ i handle bytes s s', Performed c (.establishSessionResponder i handle bytes) s s' →
    s'.db = s.db ∨ HandshakeNoted handle bytes s.db s'.db.rows
  message : ∀ i handle wire s s', Performed c (.receiveMessage i handle wire) s s' →
    ¬ Authenticates s.db handle wire → s'.db = s.db
  /-- Alone, from any store, only what the handle names then counts. -/
  alone : ∀ i handle wire (s : Device P.Key Memory) res s',
    Prog.Alone (fun _ => True) (body (.receiveMessage i handle wire)) s res s' →
      ¬ AuthenticatesNow s.db.rows handle wire → s'.db = s.db
  /-- Any run of handshakes and of messages that do not authenticate, of any length. -/
  inputs : ∀ (inputs : Call → Prop) mem asked (c' : DeviceConfig P),
    (∀ call, inputs call → call.IsInput ∧ scope.calls call) →
    (system P inputs).Reach (Config.init ⟨c.shared.db, mem, asked⟩) c' →
    Messenger.CollisionFree (P := P.toPlatform) c'.shared.db →
    (∀ i handle wire, inputs (.receiveMessage i handle wire) → ∀ db : Db P.Key,
      c.shared.db.Le db → db.Le c'.shared.db → ¬ Authenticates db handle wire) →
    ∀ k, Kept c.shared.db.rows c'.shared.db.rows k

/-- **Unauthenticated input has no authority.** -/
theorem no_authority (h : Reachable scope c)
    (hcf : Messenger.CollisionFree (P := P.toPlatform) c.shared.db) : NoAuthority scope c where
  handshake i handle bytes s s' ha := by
    obtain ⟨-, hle, hmoves⟩ := h.acted ha
    rcases hmoves with hs | ⟨rows, hstep, hs⟩
    · exact .inl hs
    · have hle' : s.db.Le c.shared.db := (hs ▸ Db.le_push s.db rows).trans hle
      have hc : (Call.establishSessionResponder i handle bytes).IsInput := trivial
      rw [hs, Db.push_rows]
      cases hstep.inputDone hc (h.valid.le hle') (hcf.mono hle') with
      | handshake _ _ _ called h =>
        cases called
        exact .inr h
      | message _ _ _ called => cases called
  message i handle wire s s' ha hn := by
    obtain ⟨-, hle, hmoves⟩ := h.acted ha
    rcases hmoves with hs | ⟨rows, hstep, hs⟩
    · exact hs
    · have hle' : s.db.Le c.shared.db := (hs ▸ Db.le_push s.db rows).trans hle
      have hc : (Call.receiveMessage i handle wire).IsInput := trivial
      cases hstep.inputDone hc (h.valid.le hle') (hcf.mono hle') with
      | handshake _ _ _ called => cases called
      | message _ _ _ called h =>
        cases called
        exact absurd h hn
  alone i handle wire s res s' ha hn := receive_alone i ha hn
  inputs inputs mem asked c' hi hr hcf' hn := by
    have hstart : (inputContract scope inputs c.shared.db fun call hc => (hi call hc).2).I
        ⟨c.shared.db, mem, asked⟩ := ⟨⟨h.valid, h.holds.inv.started⟩, .refl⟩
    obtain ⟨hsound, hinputs⟩ := (Contract.sound hstart hr).inv
    exact inputs_kept (fun call hc => (hi call hc).1) hsound.valid hcf' hinputs hn

theorem no_authority_firstRun : ∃ c : DeviceConfig symbolicApp, Reachable FirstRun.anything c ∧
    c.shared.db = Db.after FirstRun.writes ∧ NoAuthority FirstRun.anything c := by
  obtain ⟨c, -, hr, hdb⟩ := FirstRun.run_facts
  exact ⟨c, hr, hdb, no_authority hr (hdb ▸ FirstRun.collisionFree)⟩

end Network

end Arcium
