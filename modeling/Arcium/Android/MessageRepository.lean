import Arcium.Network.Deletions
import Arcium.Network.KeyNames

/-!
# The message repository binds sessions to peers

The core takes the peer of a session from the bundle or the handshake, and its handle from the caller.
`MessageRepository` makes the two agree: it derives the handle from the key that its caller names, and
refuses before the core is called unless the bytes carry that key.

* `RepositoryMethod.call`: the methods, each as the call of the core that it makes.
* `sessions_bound`: where sessions are started through the repository, or by the network layer, every
  session and every recorded handshake is under the handle of the peer that it is with.
-/

namespace Arcium

open Conc

namespace MessageRepository

/-- `PUBLIC_KEY_BYTES`. -/
def publicKeyBytes : Nat := 32

/-- `HANDSHAKE_BYTES`. -/
def handshakeBytes : Nat := 84

/-- `BUNDLE_BYTES`. -/
def bundleBytes : Nat := 204

/-- `IDENTITY_OFFSET`. -/
def identityOffset : Nat := 4

/-- A method's result, or the message of its `IllegalStateException`. -/
abbrev Checked (α : Type) := Except String α

/-- `check`. -/
def check (condition : Bool) (message : String) : Checked Unit :=
  if condition then .ok () else .error message

/-- `requirePublicKey`: the key, if it has the length of one. -/
def requirePublicKey (peerIdentityPk : Bytes) : Checked Peer :=
  if h : peerIdentityPk.length = 32 then .ok ⟨peerIdentityPk, h⟩
  else .error s!"peer identity public key must be {publicKeyBytes} bytes, got {peerIdentityPk.length}"

/-- `copyOfRange(IDENTITY_OFFSET, IDENTITY_END)`. -/
def carriedIdentity (bytes : Bytes) : Bytes := (bytes.drop identityOffset).take publicKeyBytes

/-- `requireSameIdentity`. -/
def requireSameIdentity (expected carried : Bytes) (source : String) : Checked Unit :=
  check (expected == carried)
    (s!"peer identity mismatch: the {source} carries {hex carried}, but the caller " ++
      s!"named {hex expected}. Rust would key the session from the {source}, so " ++
      "continuing would record a session with one peer under another peer's handle. " ++
      "Note both are 32 bytes: check an Ed25519 signing key was not passed where the " ++
      "X25519 DH identity key belongs.")

/-- `requireBundleIdentityMatches`. -/
def requireBundleIdentityMatches (peerIdentityPk peerPrekeyBundle : Bytes) : Checked Unit := do
  let _ ← requirePublicKey peerIdentityPk
  check (peerPrekeyBundle.length == bundleBytes)
    s!"prekey bundle must be {bundleBytes} bytes, got {peerPrekeyBundle.length}"
  requireSameIdentity peerIdentityPk (carriedIdentity peerPrekeyBundle) "prekey bundle"

/-- `requireHandshakeIdentityMatches`. -/
def requireHandshakeIdentityMatches (peerIdentityPk initiatorHandshake : Bytes) : Checked Unit := do
  let _ ← requirePublicKey peerIdentityPk
  check (initiatorHandshake.length == handshakeBytes)
    s!"initiator handshake must be {handshakeBytes} bytes, got {initiatorHandshake.length}"
  requireSameIdentity peerIdentityPk (carriedIdentity initiatorHandshake) "initiator handshake"

section Methods

variable (P : AppPlatform)

/-- `handleFor`. -/
def handleFor (peerIdentityPk : Bytes) : Checked UInt64 := do
  return localSessionHandle P (← requirePublicKey peerIdentityPk)

/-- The methods. -/
inductive RepositoryMethod where
  | publishOwnPrekeys
  | ownPrekeyBundle
  | startSessionAsInitiator (peerIdentityPk peerPrekeyBundle : Bytes)
  | acceptSessionAsResponder (peerIdentityPk initiatorHandshake : Bytes)
  | sendToPeer (peerIdentityPk clientMessageId plaintext : Bytes)
  | removeSessionWith (peerIdentityPk : Bytes)
  | pendingOutgoingTo (peerIdentityPk : Bytes)
  | receiveFromPeer (peerIdentityPk message : Bytes)
  | pendingIncomingFrom (peerIdentityPk : Bytes)
  | markShown (peerIdentityPk messageId : Bytes)

open Network in
/-- The call that a method makes on instance `i` of the core, after its checks. What the core returns
or throws goes to the caller unchanged. -/
def RepositoryMethod.call (i : Nat) : RepositoryMethod → Checked Call
  | publishOwnPrekeys => .ok .establishPrekeys
  | ownPrekeyBundle => .ok .exportPrekeyBundle
  | startSessionAsInitiator pk bundle => do
    requireBundleIdentityMatches pk bundle
    return .establishSessionInitiator i (← handleFor P pk) bundle
  | acceptSessionAsResponder pk handshake => do
    requireHandshakeIdentityMatches pk handshake
    return .establishSessionResponder i (← handleFor P pk) handshake
  | sendToPeer pk clientMessageId plaintext => do
    return .sendMessage i (← handleFor P pk) clientMessageId plaintext
  | removeSessionWith pk => do return .removeSession i (← handleFor P pk)
  | pendingOutgoingTo pk => do return .pendingOutgoing (← handleFor P pk)
  | receiveFromPeer pk message => do return .receiveMessage i (← handleFor P pk) message
  | pendingIncomingFrom pk => do return .pendingIncoming (← handleFor P pk)
  | markShown pk messageId => do return .acknowledgeIncoming (← handleFor P pk) messageId

end Methods

/-! ## What the checks let through -/

variable {P : AppPlatform}

theorem check_ok {condition : Bool} {message : String} (h : check condition message = .ok ()) :
    condition = true := by
  unfold check at h
  split at h
  · assumption
  · cases h

theorem requirePublicKey_ok {pk : Bytes} {peer : Peer} (h : requirePublicKey pk = .ok peer) :
    peer.val = pk := by
  unfold requirePublicKey at h
  split at h
  · cases h
    rfl
  · cases h

theorem handleFor_ok {pk : Bytes} {handle : UInt64} (h : handleFor P pk = .ok handle) :
    ∃ peer : Peer, peer.val = pk ∧ handle = localSessionHandle P peer := by
  obtain ⟨peer, hp, h⟩ := ok_of_bind h
  cases h
  exact ⟨peer, requirePublicKey_ok hp, rfl⟩

/-- An accepted bundle carries the identity that the session is keyed from. -/
theorem unpackPrekeyBundle_identityPk {bytes : Bytes} {bundle : PrekeyBundle}
    (h : unpackPrekeyBundle P bytes = .ok bundle) :
    take32 (bytes.drop 4) = some bundle.identityPk := by
  obtain ⟨-, rfl⟩ := packPrekeyBundle_unpack h
  rw [packPrekeyBundle_eq]
  exact take32_append _ _

open Network

/-- The calls that start a session from bytes, under a handle of the caller's choice. -/
def Establishes : Call → Prop
  | .establishSessionInitiator _ _ _ | .establishSessionResponder _ _ _ => True
  | _ => False

variable (P) in
/-- If it starts a session from bytes, it is made by a method of the repository. -/
def Through (call : Call) : Prop :=
  Establishes call → ∃ i m, RepositoryMethod.call P i m = .ok call

/-- `startSessionAsInitiator` is the only method that starts a session from a bundle. -/
theorem call_initiator {i j : Nat} {m : RepositoryMethod} {handle : UInt64} {bytes : Bytes}
    (h : RepositoryMethod.call P j m = .ok (.establishSessionInitiator i handle bytes)) :
    ∃ peer : Peer, handle = localSessionHandle P peer ∧ carriedIdentity bytes = peer.val := by
  cases m with
  | startSessionAsInitiator pk bundle =>
    obtain ⟨⟨⟩, hchecks, h⟩ := ok_of_bind h
    obtain ⟨handle', hh, h⟩ := ok_of_bind h
    cases h
    obtain ⟨peer, rfl, rfl⟩ := handleFor_ok hh
    obtain ⟨-, -, hchecks⟩ := ok_of_bind hchecks
    obtain ⟨⟨⟩, -, hsame⟩ := ok_of_bind hchecks
    exact ⟨peer, rfl, (eq_of_beq (check_ok hsame)).symm⟩
  | acceptSessionAsResponder pk handshake =>
    obtain ⟨⟨⟩, -, h⟩ := ok_of_bind h
    obtain ⟨_, -, h⟩ := ok_of_bind h
    cases h
  | publishOwnPrekeys | ownPrekeyBundle => cases h
  | _ =>
    obtain ⟨_, -, h⟩ := ok_of_bind h
    cases h

/-- `acceptSessionAsResponder` is the only method that hands over a handshake. -/
theorem call_responder {i j : Nat} {m : RepositoryMethod} {handle : UInt64} {bytes : Bytes}
    (h : RepositoryMethod.call P j m = .ok (.establishSessionResponder i handle bytes)) :
    ∃ peer : Peer, handle = localSessionHandle P peer ∧ carriedIdentity bytes = peer.val := by
  cases m with
  | acceptSessionAsResponder pk handshake =>
    obtain ⟨⟨⟩, hchecks, h⟩ := ok_of_bind h
    obtain ⟨handle', hh, h⟩ := ok_of_bind h
    cases h
    obtain ⟨peer, rfl, rfl⟩ := handleFor_ok hh
    obtain ⟨-, -, hchecks⟩ := ok_of_bind hchecks
    obtain ⟨⟨⟩, -, hsame⟩ := ok_of_bind hchecks
    exact ⟨peer, rfl, (eq_of_beq (check_ok hsame)).symm⟩
  | startSessionAsInitiator pk bundle =>
    obtain ⟨⟨⟩, -, h⟩ := ok_of_bind h
    obtain ⟨_, -, h⟩ := ok_of_bind h
    cases h
  | publishOwnPrekeys | ownPrekeyBundle => cases h
  | _ =>
    obtain ⟨_, -, h⟩ := ok_of_bind h
    cases h

/-- The bytes carry the identity that the core reads from them. -/
theorem carriedIdentity_eq {bytes : Bytes} {identity : Peer}
    (h : take32 (bytes.drop 4) = some identity) : carriedIdentity bytes = identity.val := by
  rw [carriedIdentity, show identityOffset = 4 from rfl, take32_some h]
  exact List.take_left' identity.property

/-! ## Sessions -/

/-- Every session and every recorded handshake is under the handle of its peer. -/
structure Bound (db : Db P.Key) : Prop where
  handle : ∀ handle peer, Named db handle peer → handle = localSessionHandle P peer
  provisional : ∀ (handle : UInt64) (record : ProvisionalHandshake),
    db.Ever (.provisional handle) record → handle = localSessionHandle P record.peerIdentityPk

variable {scope : Scope P} {start db : Db P.Key} {rows : Rows P.Key} {call : Call}

theorem Bound.mono {db' : Db P.Key} (h : Bound db') (hle : db.Le db') : Bound db where
  handle handle peer hn := h.handle handle peer (hn.mono hle)
  provisional handle record he := h.provisional handle record (he.mono hle)

/-- What a transaction leaves under handles. -/
structure BoundRows (db : Db P.Key) (rows : Rows P.Key) : Prop where
  handle : ∀ (handle : UInt64) (peer : Peer), rows.lookup (.handle handle) = some peer →
    db.rows.lookup (.handle handle) = some peer ∨ handle = localSessionHandle P peer
  provisional : ∀ (handle : UInt64) (record : ProvisionalHandshake),
    rows.lookup (.provisional handle) = some record →
      db.rows.lookup (.provisional handle) = some record ∨
        handle = localSessionHandle P record.peerIdentityPk

theorem Bound.push (h : Bound db) (hr : BoundRows db rows) : Bound (db.push rows) where
  handle handle peer hn := by
    rcases Db.ever_push.mp (named_iff.mp hn) with hl | he
    · rcases hr.handle handle peer hl with hl | ho
      · exact h.handle handle peer (named_iff.mpr (Db.ever_now hl))
      · exact ho
    · exact h.handle handle peer (named_iff.mpr he)
  provisional handle record he := by
    rcases Db.ever_push.mp he with hl | he
    · rcases hr.provisional handle record hl with hl | ho
      · exact h.provisional handle record (Db.ever_now hl)
      · exact ho
    · exact h.provisional handle record he

/-- A transaction binds what it writes, if each of its writes does. -/
theorem BoundRows.of_written {cs : List (Change P.Key)} (heq : rows = db.rows.applyAll cs)
    (hh : ∀ handle peer, ⟨.handle handle, some peer⟩ ∈ cs → handle = localSessionHandle P peer)
    (hp : ∀ handle (record : ProvisionalHandshake), ⟨.provisional handle, some record⟩ ∈ cs →
      handle = localSessionHandle P record.peerIdentityPk) : BoundRows db rows where
  handle handle peer hl := by
    rw [heq] at hl
    exact (Rows.lookup_applyAll_some hl).symm.imp_right (hh handle peer)
  provisional handle record hl := by
    rw [heq] at hl
    exact (Rows.lookup_applyAll_some hl).symm.imp_right (hp handle record)

/-- Writes that touch neither handles nor recorded handshakes. -/
theorem BoundRows.of_kept (hh : ∀ handle : UInt64, rows.lookup (.handle handle) =
    db.rows.lookup (.handle handle)) (hp : ∀ handle : UInt64, rows.lookup (.provisional handle) =
      db.rows.lookup (.provisional handle)) : BoundRows db rows where
  handle _ _ hl := .inl ((hh _).symm.trans hl)
  provisional _ _ hl := .inl ((hp _).symm.trans hl)

/-- A call through the repository, or of the network layer, binds what it writes. -/
theorem work_bound (hb : Bound db) (hc : Through P call) (h : Work start call db rows) :
    BoundRows db rows := by
  cases h with
  | identity identity called h => exact .of_written h.eq (by simp) (by simp)
  | contact card called h => exact .of_written h.eq (by simp) (by simp)
  | initiate identity handle peerBundle bundle ephemeralSk dhs alice called h =>
    have own : handle = localSessionHandle P bundle.identityPk := by
      rcases called with ⟨i, rfl⟩ | ⟨peer, rfl, rfl, -, -⟩
      · obtain ⟨j, m, hm⟩ := hc trivial
        obtain ⟨peer, rfl, hcarried⟩ := call_initiator hm
        have hid := carriedIdentity_eq (unpackPrekeyBundle_identityPk h.parsed)
        rw [Subtype.ext (hcarried.symm.trans hid)]
      · rfl
    refine .of_written h.create.eq (fun handle' peer hm => ?_) (fun handle' record hm => ?_)
    all_goals
      simp only [Messenger.createChanges, Core.initiatorSession, Messenger.sideChanges,
        Option.toList_some, List.map_cons, List.map_nil, List.filterMap_nil, List.append_nil,
        List.mem_cons, List.not_mem_nil, or_false] at hm
      rcases hm with hm | hm | hm <;> cases hm
    exact own
  | respond identity handle bytes handshake record called own answers h =>
    have own : handle = localSessionHandle P handshake.identityPk := by
      cases call with
      | establishSessionResponder i handle' bytes' =>
        obtain ⟨rfl, rfl⟩ := called
        obtain ⟨j, m, hm⟩ := hc trivial
        obtain ⟨peer, rfl, hcarried⟩ := call_responder hm
        have hid := carriedIdentity_eq (unpackInitiatorHandshake_identityPk answers.parsed)
        rw [Subtype.ext (hcarried.symm.trans hid)]
      | _ => exact own called
    cases h with
    | recorded h =>
      refine .of_written h.eq (by simp) fun handle' record' hm => ?_
      cases List.mem_singleton.mp hm
      exact own
    | retired peer old named h =>
      refine .of_written h.eq (fun handle' peer' hm => ?_) fun handle' record' hm => ?_
      all_goals
        simp only [List.mem_cons, List.not_mem_nil, or_false] at hm
        rcases hm with hm | hm | hm <;> cases hm
      exact own
  | first identity handle wire provisional handshake record fresh new m called h =>
    -- the handshake was recorded under the handle of the peer that it names
    have own := hb.provisional handle provisional (Db.ever_now h.promote.provisional)
    rw [show provisional.peerIdentityPk = handshake.identityPk from h.promote.names] at own
    refine .of_written h.promote.eq (fun handle' peer hm => ?_) (fun handle' record' hm => ?_)
    · rcases FirstTx.mem_changes hm with hm | hm | hm | hm | hm <;> cases hm
      exact own
    · rcases FirstTx.mem_changes hm with hm | hm | hm | hm | hm <;> cases hm
  | send our ours handle clientId plaintext p q old new m why h =>
    exact .of_written h.eq (by simp [Messenger.sendChanges]) (by simp [Messenger.sendChanges])
  | receive our ours handle wire p old new m called h =>
    exact .of_written h.eq (by simp [Messenger.receiveChanges]) (by simp [Messenger.receiveChanges])
  | ackOut handle i p called why h => exact .of_written h.eq (by simp) (by simp)
  | ackIn handle i p why h => exact .of_written h.eq (by simp) (by simp)
  | abandon handle i p m contact own why h => exact .of_written h.eq (by simp) (by simp)
  | remove our ours handle p old why h =>
    refine .of_written h.eq (fun handle' peer' hm => ?_) (by simp)
    simp only [List.mem_cons, List.not_mem_nil, or_false] at hm
    rcases hm with hm | hm | hm <;> cases hm
  | chat h => exact .of_kept (fun _ => h.app _ rfl) fun _ => h.app _ rfl

/-- **Sessions are bound to peers.** Where sessions are started through the repository or by the
network layer, on a store that is bound at first, every session ever stored and every handshake ever
recorded is under the handle of the peer that it is with. -/
theorem sessions_bound {c : DeviceConfig P} (h : Reachable scope c)
    (hcalls : ∀ call, scope.calls call → Through P call) (hstart : Bound scope.start) :
    Bound c.shared.db := by
  have hv := h.valid
  generalize c.shared.db = db at hv
  induction hv with
  | empty =>
    refine ⟨fun handle peer hn => ?_, fun handle record he => (Db.not_ever_empty he).elim⟩
    exact (Db.not_ever_empty (named_iff.mp hn)).elim
  | @push db rows hv ht ih =>
    cases ht with
    | legacy before our ours handle rec h => exact hstart.mono before
    | call call allowed h =>
      refine ih.push ?_
      cases h with
      | work h => exact work_bound ih (hcalls call allowed) h
      | prekeys called identity sk opk h => exact .of_written h.eq (by simp) (by simp)

/-- So handles tell peers apart as far as their derivation does: what `texts_kept` assumes. -/
theorem Bound.handlesTell {db : Db P.Key} (h : Bound db)
    (hinj : ∀ p q, Present db p → Present db q →
      localSessionHandle P p = localSessionHandle P q → p = q) : HandlesTell db :=
  ⟨h.handle, hinj⟩

/-! ## A session that the repository starts -/

namespace RepositoryRun

def repositoryOnly : Scope symbolicApp where
  calls := Through symbolicApp

/-- What `startSessionAsInitiator` makes of the contact's bundle. -/
def started : Option Call :=
  (RepositoryMethod.call symbolicApp 0
    (.startSessionAsInitiator (fill 3).val TextRun.bundle)).toOption

def run : Option (DeviceConfig symbolicApp) :=
  started.bind fun call =>
    (system symbolicApp repositoryOnly.calls).runCalls (TextRun.draws {})
      (Config.init ⟨repositoryOnly.start, fun _ => {}, []⟩) [.saveIdentity TextRun.own, call]

theorem reachable {c : DeviceConfig symbolicApp} (h : run = some c) :
    Reachable repositoryOnly c := by
  obtain ⟨call, hcall, h⟩ := Option.bind_eq_some_iff.mp h
  refine ⟨.empty, System.Reach.runCalls .refl (fun _ => rfl) (fun call' hc he => ?_) h⟩
  rcases List.mem_pair.mp hc with rfl | rfl
  · exact he.elim
  · refine ⟨0, .startSessionAsInitiator (fill 3).val TextRun.bundle, ?_⟩
    unfold started at hcall
    cases hm : RepositoryMethod.call symbolicApp 0
        (.startSessionAsInitiator (fill 3).val TextRun.bundle) with
    | error e => rw [hm] at hcall; cases hcall
    | ok call'' => rw [hm] at hcall; cases hcall; rfl

/-- The peer of the contact's handle. -/
def named (c : DeviceConfig symbolicApp) : Option Peer :=
  c.shared.db.rows.lookup (Key.handle (localSessionHandle symbolicApp (fill 3)))

theorem run_facts : run.map named = some (some (fill 3)) := by decide +kernel

end RepositoryRun

theorem sessions_bound_started : ∃ c : DeviceConfig symbolicApp,
    Reachable RepositoryRun.repositoryOnly c ∧ RepositoryRun.named c = some (fill 3) ∧
    Bound c.shared.db := by
  obtain ⟨c, hc, hn⟩ := Option.map_eq_some_iff.mp RepositoryRun.run_facts
  have hr := RepositoryRun.reachable hc
  have hstart : Bound RepositoryRun.repositoryOnly.start :=
    ⟨fun _ _ h => (Db.not_ever_empty (named_iff.mp h)).elim, fun _ _ h => (Db.not_ever_empty h).elim⟩
  exact ⟨c, hr, hn, sessions_bound hr (fun _ h => h) hstart⟩

end MessageRepository

end Arcium
