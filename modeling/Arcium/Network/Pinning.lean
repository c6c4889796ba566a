import Arcium.Network.System

/-!
# The identity and the pinned cards

The identity and the card of a contact are written once, whatever the calls of any number of cores
do, and a session that is started for a contact is made of a bundle that its card vouches for.

* `Performed`: an action of a call, one of those that run or returned.
* `Vouched`: the new session of a contact, and the bundle and the card it comes from.
* `identity_pinned`: both, in every reachable configuration.
-/

namespace Arcium

open Conc

namespace Network

variable {P : AppPlatform} {scope : Scope P} {call : Call} {db : Db P.Key} {rows : Rows P.Key}
  {c : DeviceConfig P}

/-- An action of `call`: the device before it and after it. -/
def Performed (c : DeviceConfig P) (call : Call) (s s' : Device P.Key Memory) : Prop :=
  (∃ i t, c.threads i = some t ∧ t.call = call ∧ (s, s') ∈ t.trace) ∨
    ∃ d ∈ c.done, d.call = call ∧ (s, s') ∈ d.trace

/-- What an action did: nothing to the store, or one transaction of its call. -/
theorem Reachable.acted (h : Reachable scope c) {s s' : Device P.Key Memory} (ha : Performed c call s s') :
    scope.calls call ∧ s'.db.Le c.shared.db ∧
      (s'.db = s.db ∨ ∃ rows, Step scope.start call s.db rows ∧ s'.db = s.db.push rows) := by
  rcases ha with ⟨i, t, ht, rfl, hx⟩ | ⟨d, hd, rfl, hx⟩
  · obtain ⟨hg, hle⟩ := h.holds.acted i t ht _ hx
    exact ⟨(h.holds.running i t ht).1, hle, hg.moves⟩
  · obtain ⟨hg, hle⟩ := h.holds.did d hd _ hx
    exact ⟨(h.holds.returned d hd).1, hle, hg.moves⟩

/-- The session `rec` made for `peer` comes from a bundle with the keys of the pinned card, whose
signed prekey the pinned key signed. -/
structure Vouched (rows : Rows P.Key) (peer : Peer) (rec : SessionRecord P.Key) (own : Identity)
    (card : Card) (bundle : PrekeyBundle) (ephemeralSk dhs : StaticSecret)
    (alice : AliceSession P.Key) : Prop where
  identity : rows.lookup .identity = some own
  pinned : rows.lookup (.contact peer) = some card
  identityPk : bundle.identityPk = card.dhPk
  signingPk : bundle.signingPk = card.signingPk
  verified : P.verifyStrict card.signingPk
    (signedPrekeyObject card.dhPk card.signingPk bundle.signedPrekeyPk)
    bundle.signedPrekeySignature = true
  agreed : x3dhInitiate P own.dhKey (Core.dhPublicKey P own) bundle ephemeralSk = some alice
  session : rec = Messenger.newRecord (P := P.toPlatform) (Core.dhPublicKey P own)
    (Core.initiatorSession (localSessionHandle P peer) (Core.dhPublicKey P own) bundle alice dhs)

theorem verified_of_initiate {ourSk ephemeralSk : StaticSecret} {our : PublicKey}
    {bundle : PrekeyBundle} {alice : AliceSession P.Key}
    (h : x3dhInitiate P ourSk our bundle ephemeralSk = some alice) :
    verifySignedPrekey P bundle = true := by
  unfold x3dhInitiate at h
  split at h
  · next hv => exact hv
  · cases h

/-- What a session that was not there comes from: its transaction has it as `rec`. -/
theorem session_written {cs : List (Change P.Key)} {peer : Peer} {rec : SessionRecord P.Key}
    (hnone : db.rows.lookup (.session peer) = none) (hl : rows.lookup (.session peer) = some rec)
    (heq : rows = db.rows.applyAll cs) : ⟨.session peer, some rec⟩ ∈ cs := by
  rw [heq] at hl
  rcases Rows.lookup_applyAll_some hl with h | h
  · exact h
  · rw [hnone] at h
    cases h

/-- A new session is made by the transaction that starts one, or by the one of a first message. -/
theorem Work.session_new {start : Db P.Key} (h : Work start call db rows) {peer : Peer}
    {rec : SessionRecord P.Key} (hnone : db.rows.lookup (.session peer) = none)
    (hl : rows.lookup (.session peer) = some rec) :
    (∃ identity handle peerBundle bundle ephemeralSk dhs alice,
      ((∃ i, call = .establishSessionInitiator i handle peerBundle) ∨
        ∃ p, handle = localSessionHandle P p ∧ bundle.identityPk = p ∧ Matches db p bundle ∧
          call.Starts p) ∧
      InitiateTx identity handle peerBundle bundle ephemeralSk dhs alice db rows ∧
      bundle.identityPk = peer ∧ rec = Messenger.newRecord (P := P.toPlatform)
        (Core.dhPublicKey P identity)
        (Core.initiatorSession handle (Core.dhPublicKey P identity) bundle alice dhs)) ∨
    ∃ identity handle wire provisional handshake record fresh m, call.Receives handle wire ∧
      FirstTx identity handle wire provisional handshake record fresh rec m db rows ∧
      handshake.identityPk = peer ∧ rec.role = .responder := by
  have written := @session_written P db rows
  have stored : ∀ {q : Peer} {old : SessionRecord P.Key},
      Messenger.Unchanged (P := P.toPlatform) db q old → q ≠ peer := by
    rintro q old ⟨found, hf, -⟩ rfl
    rw [hnone] at hf
    cases hf
  cases h with
  | identity identity called h => simpa using written hnone hl h.eq
  | contact card called h => simpa using written hnone hl h.eq
  | initiate identity handle peerBundle bundle ephemeralSk dhs alice called h =>
    have hm := written hnone hl h.create.eq
    rcases List.mem_cons.mp hm with hm | hm
    · cases hm
      exact .inl ⟨_, _, _, _, _, _, _, called, h, rfl, rfl⟩
    · simp [Core.initiatorSession, Messenger.sideChanges] at hm
  | respond identity handle bytes handshake record called own answers h =>
    cases h with
    | recorded h => simpa using written hnone hl h.eq
    | retired q old named h =>
      have hm := written hnone hl h.eq
      simp only [List.mem_cons, List.not_mem_nil, or_false] at hm
      rcases hm with hm | hm | hm <;> cases hm
  | first identity handle wire provisional handshake record fresh new m called h =>
    have hm := written hnone hl h.promote.eq
    rcases FirstTx.mem_changes hm with hm | hm | hm | hm | hm <;> cases hm
    refine .inr ⟨_, _, _, _, _, _, _, _, called, h, rfl, ?_⟩
    rw [h.promote.follows.eq]
    rfl
  | send our ours handle clientId plaintext dest q old new m why h =>
    have hm := written hnone hl h.eq
    simp only [Messenger.sendChanges, List.mem_cons, List.not_mem_nil, or_false] at hm
    rcases hm with hm | hm | hm <;> cases hm
    exact absurd rfl (stored h.unchanged)
  | receive our ours handle wire q old new m called h =>
    have hm := written hnone hl h.eq
    simp only [Messenger.receiveChanges, List.mem_cons, List.not_mem_nil, or_false] at hm
    rcases hm with hm | hm <;> cases hm
    exact absurd rfl (stored h.unchanged)
  | ackOut handle id q called why h => simpa using written hnone hl h.eq
  | ackIn handle id q why h => simpa using written hnone hl h.eq
  | abandon handle id q m contact own why h => simpa using written hnone hl h.eq
  | remove our ours handle q old why h =>
    have hm := written hnone hl h.eq
    simp only [List.mem_cons, List.not_mem_nil, or_false] at hm
    rcases hm with hm | hm | hm <;> cases hm
  | chat h =>
    have happ := (h.app (.session peer) rfl).symm.trans hl
    rw [hnone] at happ
    cases happ

/-- A call that is handed no bundle by its caller makes an initiator session only of one that the
pinned card vouches for. -/
theorem Step.vouched {start : Db P.Key} (hv : db.Valid (Trans scope)) (h : Step start call db rows)
    (hcall : ∀ i handle bytes, call ≠ .establishSessionInitiator i handle bytes) {peer : Peer}
    {rec : SessionRecord P.Key} (hnone : db.rows.lookup (.session peer) = none)
    (hl : rows.lookup (.session peer) = some rec) (hr : rec.role = .initiator) :
    ∃ identity card bundle ephemeralSk dhs alice,
      Vouched db.rows peer rec identity card bundle ephemeralSk dhs alice := by
  rcases h with h | ⟨called, identity, sk, opk, h⟩
  · rcases h.session_new hnone hl with
      ⟨identity, handle, peerBundle, bundle, ephemeralSk, dhs, alice, called, hi, hid, hrec⟩ |
        ⟨_, _, _, _, _, _, _, _, _, _, _, hrole⟩
    swap
    · rw [hrole] at hr
      cases hr
    rcases called with ⟨i, hc⟩ | ⟨p, rfl, hp, ⟨card, hcard, hdh, hsk⟩, -⟩
    · exact absurd hc (hcall i _ _)
    obtain rfl := hp.symm.trans hid
    refine ⟨identity, card, bundle, ephemeralSk, dhs, alice, ?_⟩
    have hverified := verified_of_initiate hi.agreed
    rw [verifySignedPrekey, hdh, hsk] at hverified
    exact
      { identity := identity_stored hv hi.stored
        pinned := fixed_stored hv (k := .contact p) trivial hcard
        identityPk := hdh, signingPk := hsk, verified := hverified
        agreed := hi.agreed, session := hrec }
  · simpa using session_written hnone hl h.eq

/-- What stays of the identity and of the contacts, and what new sessions come from. -/
structure Pins (scope : Scope P) (c : DeviceConfig P) : Prop where
  identity : ∀ (db : Db P.Key) identity, db.Le c.shared.db → db.rows.lookup .identity = some identity →
    c.shared.db.rows.lookup .identity = some identity
  contact : ∀ (db : Db P.Key) peer card, db.Le c.shared.db →
    db.rows.lookup (.contact peer) = some card →
    card.dhPk = peer ∧ c.shared.db.rows.lookup (.contact peer) = some card
  /-- A session that `start_session` makes, in a call of its own or of `sync_conversations`. -/
  session : ∀ call s s' peer rec, Performed c call s s' →
    (∀ i handle bytes, call ≠ .establishSessionInitiator i handle bytes) →
    s.db.rows.lookup (.session peer) = none → s'.db.rows.lookup (.session peer) = some rec →
    rec.role = .initiator → ∃ identity card bundle ephemeralSk dhs alice,
      Vouched s.db.rows peer rec identity card bundle ephemeralSk dhs alice

/-- **The identity and the pinned cards never change**, and sessions are started only with their
owners. -/
theorem identity_pinned (h : Reachable scope c) : Pins scope c where
  identity db identity hle hi := identity_stored h.valid ((Db.ever_now hi).mono hle)
  contact db peer card hle hc := by
    have hstored := fixed_stored h.valid (k := .contact peer) trivial ((Db.ever_now hc).mono hle)
    exact ⟨filed h.valid peer card (Db.ever_now hstored), hstored⟩
  session call s s' peer rec ha hcall hnone hl hr := by
    obtain ⟨-, hle, hmoves⟩ := h.acted ha
    rcases hmoves with hs | ⟨rows, hstep, hs⟩
    · rw [hs, hnone] at hl
      cases hl
    · have hle' : s.db.Le c.shared.db := (hs ▸ Db.le_push s.db rows).trans hle
      rw [hs, Db.push_rows] at hl
      exact hstep.vouched (h.valid.le hle') hcall hnone hl hr

/-! ## A session that is started -/

namespace OneSession

def own : Identity := ⟨fill 1, fill 2⟩

/-- The peer: its identity, and the bundle that it exports. -/
def peer : Identity := ⟨fill 3, fill 4⟩

def bundle : PrekeyBundle :=
  Core.bundleOf symbolicApp peer (prekeyRecord symbolicApp peer (fill 5) (7, fill 6))

/-- The card that the peer hands over. -/
def card : Bytes := 0x01 :: (bundle.identityPk.val ++ bundle.signingPk.val)

def anything : Scope symbolicApp where
  calls _ := True

/-- An identity, a contact and a session with it. -/
def run : Option (DeviceConfig symbolicApp) :=
  (system symbolicApp anything.calls).runCalls
    (List.replicate 24 { secret := fill 8, relay := { bundle := some (packPrekeyBundle bundle) } })
    (Config.init ⟨anything.start, fun _ => {}, []⟩)
    [.saveIdentity own, .addContact card, .startSession 0 bundle.identityPk]

/-- The role of the session. -/
def started (c : DeviceConfig symbolicApp) : Option SessionRole :=
  let stored : Option (SessionRecord symbolicApp.Key) :=
    c.shared.db.rows.lookup (Key.session bundle.identityPk)
  stored.map fun r => r.role

theorem started_run : run.map started = some (some .initiator) := by decide +kernel

theorem reachable {c : DeviceConfig symbolicApp} (h : run = some c) : Reachable anything c :=
  ⟨.empty, System.Reach.runCalls .refl (fun _ => rfl) (fun _ _ => trivial) h⟩

end OneSession

theorem identity_pinned_started : ∃ c : DeviceConfig symbolicApp, Reachable OneSession.anything c ∧
    OneSession.started c = some .initiator ∧ Pins OneSession.anything c := by
  obtain ⟨c, hc, hstarted⟩ := Option.map_eq_some_iff.mp OneSession.started_run
  exact ⟨c, OneSession.reachable hc, hstarted, identity_pinned (OneSession.reachable hc)⟩

end Network

end Arcium
