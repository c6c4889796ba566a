import Arcium.Conc.Together
import Arcium.Network.Receipts
import Arcium.Protocol.TwoEnds

/-!
# Two devices

The runs of two devices, with the calls of all their instances, and of the network between them. Their
store is empty at first, and their sessions with each other come from one key agreement.

* `Keeps`: what an action of one device is for the two ratchets.
* `TwoDevices`: a run of both.
* `devices_follow`: the stored sessions are the ends of a run of the two ratchets.
* `devices_authentic`: what the inbox of one has was sent by a call of the other.
* `devices_deliver`: what one has sent, the stored session of the other opens.
-/

namespace Arcium

open Conc
open Function (update)

namespace Network

variable {P : AppPlatform}

/-- What an action of the device of `p` is for the ratchets: nothing, if it stores nothing. -/
def Keeps (A : Agreement P.toPlatform) (p : Party) (s s' : Device P.Key Memory)
    (net net' : Net P.toCrypto) : Prop :=
  (s'.db = s.db ∧ net' = net) ∨
    ∃ rows, s'.db = s.db.push rows ∧ Messenger.EndStep A p net s.db rows net'

/-- A run of two devices. On each, SHA-256 has no collision among the session records, of which a commit
compares the digests, nor among the wires, of which the message ids are made. -/
structure TwoDevices (A : Agreement P.toPlatform) (scope : Party → Scope P)
    (c : Party → DeviceConfig P) (net : Net P.toCrypto) : Prop where
  fresh : ∀ p, (scope p).start = Db.empty
  run : Together (fun p => system P (scope p).calls) (Keeps A)
    (fun _ => Config.init ⟨Db.empty, fun _ => {}, []⟩) A.start c net
  /-- Each device has the identity that the other one talks to. -/
  names : ∀ p our, Ours (c p).shared.db our → our = A.our p
  collisionFree : ∀ p, Messenger.CollisionFree (P := P.toPlatform) (c p).shared.db

variable {A : Agreement P.toPlatform} {scope : Party → Scope P} {c : Party → DeviceConfig P}
  {net : Net P.toCrypto}

/-- What a step of a device does to its store. -/
theorem Reachable.moves {scope : Scope P} {c c' : DeviceConfig P} (h : Reachable scope c)
    (hs : (system P scope.calls).Step c c') : c'.shared.db = c.shared.db ∨
      ∃ rows, Trans scope c.shared.db rows ∧ c'.shared.db = c.shared.db.push rows := by
  cases hs with
  | invoke i call hi ha => exact .inl rfl
  | act i t upd next e hi hp =>
    have hc := (h.holds.running i t hi).1
    rcases (h.holds.act_step e hi hp).1.moves with hm | ⟨rows, ht, hm⟩
    · exact .inl hm
    · exact .inr ⟨rows, .call t.call hc ht, hm⟩
  | ret i t r hi hp => exact .inl rfl
  | crash i => exact .inl rfl
  | env s hs =>
    obtain ⟨i, rfl⟩ := hs
    exact .inl rfl

theorem Keeps.le {p : Party} {s s' : Device P.Key Memory} {net net' : Net P.toCrypto}
    (h : Keeps A p s s' net net') : s.db.Le s'.db := by
  rcases h with ⟨hs, -⟩ | ⟨rows, hs, -⟩
  · rw [hs]
    exact Db.Le.refl _
  · rw [hs]
    exact Db.le_push _ _

/-- What one device does is a run of it. -/
theorem reachable_of_run (hf : ∀ p, (scope p).start = Db.empty)
    (h : Together (fun p => system P (scope p).calls) (Keeps A)
      (fun _ => Config.init ⟨Db.empty, fun _ => {}, []⟩) A.start c net) (p : Party) :
    Reachable (scope p) (c p) where
  started := by
    rw [hf]
    exact .empty
  run := by
    rw [hf]
    exact h.reach p

theorem TwoDevices.reachable (h : TwoDevices A scope c net) (p : Party) : Reachable (scope p) (c p) :=
  reachable_of_run h.fresh h.run p

/-- The transactions of both devices are those of the messenger. -/
theorem joined_of_run (hf : ∀ p, (scope p).start = Db.empty)
    (h : Together (fun p => system P (scope p).calls) (Keeps A)
      (fun _ => Config.init ⟨Db.empty, fun _ => {}, []⟩) A.start c net)
    (hn : ∀ p our, Ours (c p).shared.db our → our = A.our p) :
    Messenger.Joined A (fun p => (c p).shared.db) net := by
  induction h with
  | refl => exact .start
  | @step c net p c' net' h hs hk ih =>
    have hle : ∀ q, (c q).shared.db.Le (update c p c' q).shared.db := fun q => by
      by_cases hq : q = p
      · subst hq
        rw [Function.update_self]
        exact hk.le
      · rw [Function.update_of_ne hq]
        exact Db.Le.refl _
    have hn' : ∀ q our, Ours (c q).shared.db our → our = A.our q := fun q our ho =>
      hn q our (ho.mono (hle q))
    have hdbs : (fun q => (update c p c' q).shared.db) =
        update (fun q => (c q).shared.db) p c'.shared.db :=
      funext fun q => Function.apply_update (fun _ (c : DeviceConfig P) => c.shared.db) c p c' q
    rw [hdbs]
    rcases hk with ⟨hs', rfl⟩ | ⟨rows, hs', he⟩
    · rw [hs', Function.update_eq_self]
      exact ih hn'
    · rcases (reachable_of_run hf h p).moves hs with hm | ⟨rows', ht, hm⟩
      · rw [hs'] at hm
        have hle : ((c p).shared.db.push rows).Le (c p).shared.db := by
          rw [hm]
          exact Db.Le.refl _
        exact (Db.not_push_le hle).elim
      · obtain ⟨-, rfl⟩ := Db.push_inj (hs'.symm.trans hm)
        rw [hs']
        exact .step p rows (ih hn') (ht.messenger (hn' p)) he

theorem TwoDevices.joined (h : TwoDevices A scope c net) :
    Messenger.Joined A (fun p => (c p).shared.db) net := joined_of_run h.fresh h.run h.names

/-- **Two devices follow two ratchets**: in every run of both, the sessions that they store with each
other are the ends of a run of two ratchets and a network. -/
theorem devices_follow (h : TwoDevices A scope c net) :
    Messenger.EndsOk A (fun p => (c p).shared.db) net := h.joined.follows h.collisionFree

/-! ## What the devices deliver -/

/-- In `call` the device sent `e` under `clientId`, on the session of the handle. -/
structure Sending (scope : Scope P) (db : Db P.Key) (e : Encryption P.Key) (call : Call)
    (handle : UInt64) (clientId : Bytes) : Prop where
  allowed : scope.calls call
  sent : ∃ db₀ rows dest m, (Db.push db₀ rows).Le db ∧ Named db₀ handle dest ∧
    SendWhy call db₀ handle clientId e.plaintext ∧
    rows.lookup (.outbox dest e.id) = some m ∧ db₀.rows.lookup (.outbox dest e.id) = none ∧
    m.clientMessageId = clientId ∧ m.wire = Messenger.wireOf (e.header, e.ciphertext)

/-- A transaction that sends is one of a call that asked for it. -/
theorem sending {scope : Scope P} {p : Party} {db : Db P.Key} {e : Encryption P.Key}
    (hv : db.Valid (Trans scope)) (hcf : Messenger.CollisionFree (P := P.toPlatform) db)
    (hA : AeadCorrect P.toCrypto) (h : Messenger.SentAs A p db e) :
    ∃ call handle clientId, Sending scope db e call handle clientId := by
  obtain ⟨db₀, rows, handle, clientId, dest, old, new, m, hle, hs, hw, -⟩ := h
  obtain ⟨-, ht⟩ := (hv.le hle).of_push
  have hid : e.id = m.messageId := by
    rw [Message.id, ← hw, hs.message]
  have hrows : rows.lookup (.outbox dest m.messageId) = some m := by
    rw [hs.eq, Messenger.sendChanges, Rows.applyAll_cons]
    exact Rows.lookup_applyAll_head (k := .outbox dest m.messageId) _ (some m) (by simp)
  cases ht with
  | legacy before our ours handle' rec h =>
    have hkept : rows.lookup (.outbox dest m.messageId) = none := by
      rw [h.eq, Rows.lookup_applyAll_ne _ (by simp)]
      exact hs.noOutbox
    rw [hrows] at hkept
    cases hkept
  | call call hc hstep =>
    obtain ⟨our, handle', clientId', plaintext, q, old', new', -, why, hs'⟩ :=
      hstep.sends hrows hs.noOutbox
    obtain ⟨rfl, rfl⟩ := Messenger.SendTx.same (hcf.mono ((Db.le_push _ _).trans hle)) hA hs hs'
    refine ⟨call, handle', clientId', hc, db₀, rows, dest, m, hle, hs'.named, why, ?_, ?_,
      hs'.clientMessageId, hw⟩
    · rw [hid]
      exact hrows
    · rw [hid]
      exact hs.noOutbox

/-- **What one device received, the other one sent**: every message that was ever in the inbox of a
device from its peer was sent by a call of the peer's device, and was not changed. DH and the KDFs are
ideal: besides DH being commutative, two shared secrets, or two keys derived, are the same only if
they are made of the same keys (`Ideal`). -/
theorem devices_authentic (h : TwoDevices A scope c net) (hI : Ideal P.toCrypto A.rootKey)
    (hA : AeadCorrect P.toCrypto) (p : Party) {id : MessageId} {m : IncomingMessage}
    (hm : (c p).shared.db.Ever (.inbox (A.peer p) id) m) :
    ∃ (e : Encryption P.Key) (call : Call) (handle : UInt64) (clientId : Bytes),
      Sending (scope p.other) (c p.other).shared.db e call handle clientId ∧ e.id = id ∧
        e.plaintext = m.plaintext := by
  obtain ⟨e, hs, hid, hp⟩ := h.joined.received_sent h.collisionFree hI p hm
  obtain ⟨call, handle, clientId, hs⟩ :=
    sending (h.reachable p.other).valid (h.collisionFree p.other) hA hs
  exact ⟨e, call, handle, clientId, hs, hid, hp⟩

/-- **What one device sent, the other one can read**: the stored session of a device opens every
message that its peer has sent and it has not received, unless more than the limit of messages is
missing before it or its key was evicted. DH and the KDFs are ideal, as for `devices_authentic`. -/
theorem devices_deliver (h : TwoDevices A scope c net) (hI : Ideal P.toCrypto A.rootKey)
    (hA : AeadCorrect P.toCrypto) (p : Party) {rec : SessionRecord P.Key}
    (hrec : (c p).shared.db.rows.lookup (.session (A.peer p)) = some rec) {e : Encryption P.Key}
    (he : e ∈ net.sent p.other)
    (hnew : ∀ m, ¬ (c p).shared.db.Ever (.inbox (A.peer p) e.id) m) :
    (net.Deliverable p e.toMessage ∨ net.SkipExceeded p e.header ∨ e.key ∈ net.evicted p) ∧
      (net.Deliverable p e.toMessage → ∀ fresh, ∃ r',
        rec.ratchet.decrypt P.toCrypto e.header e.ciphertext rec.ad fresh = (.ok e.plaintext, r')) :=
  h.joined.sent_opens h.collisionFree hI hA p hrec he hnew

/-! ## Calls that run alone -/

/-- A call of one device that runs alone and commits one transaction. -/
theorem run_call {net' : Net P.toCrypto} (hf : ∀ p, (scope p).start = Db.empty)
    (h : Together (fun p => system P (scope p).calls) (Keeps A)
      (fun _ => Config.init ⟨Db.empty, fun _ => {}, []⟩) A.start c net) {p : Party}
    {es : List Choice} {call : Call} {c' : DeviceConfig P} {rows : Rows P.Key}
    (hn : ∀ j, (c p).threads j = none) (ha : (scope p).calls call)
    (hx : (system P (scope p).calls).runCalls es (c p) [call] = some c')
    (hdb : c'.shared.db = (c p).shared.db.push rows)
    (he : Messenger.EndStep A p net (c p).shared.db rows net') :
    Together (fun p => system P (scope p).calls) (Keeps A)
      (fun _ => Config.init ⟨Db.empty, fun _ => {}, []⟩) A.start (update c p c') net' := by
  have hr := reachable_of_run hf h p
  have hr' : Reachable (scope p) c' := by
    refine ⟨hr.started, System.Reach.runCalls hr.run hn (fun x hx => ?_) hx⟩
    obtain rfl := List.mem_singleton.mp hx
    exact ha
  refine h.alone hn ha hx ?_ fun _ _ => .inl ⟨rfl, rfl⟩
  simp only [System.runCalls] at hx
  split at hx
  · cases hx
  · next r tr s hexec =>
    obtain rfl := Option.some.inj hx
    refine Together.Along.changing (fun s => s.db) (fun db => db.past.length)
      (fun _ _ _ hv => .inl ⟨hv, rfl⟩) hexec (fun x hx => ?_) (.inr ⟨?_, fun s₁ s₂ h₁ h₂ => ?_⟩)
    · rcases (hr'.holds.did _ List.mem_cons_self x hx).1.moves with hs | ⟨rows, -, hs⟩
      · exact .inl hs
      · exact .inr (by rw [hs]; rfl)
    · exact congrArg (fun db : Db P.Key => db.past.length) hdb
    · exact .inr ⟨rows, by rw [h₂, h₁]; exact hdb, by rw [h₁]; exact he⟩

/-! ## A conversation -/

namespace PairRun

/-- `symbolicApp`, with a checksum for the key derivation. -/
def app : AppPlatform :=
  { symbolicApp with x3dhKdf := fun secrets => .root (secrets.foldl (fun n s =>
      (s.1.val ++ s.2.val).foldl (fun n b => (3 * n + b.toNat) % 251) n) 1) }

def alice : Identity := ⟨fill 3, fill 4⟩

def bob : Identity := ⟨fill 1, fill 2⟩

def draws (first : Nat) : List Choice :=
  (List.range 30).map fun n =>
    { secret := fill (UInt8.ofNat (first + n)), id := UInt64.ofNat n }

/-- Bob's prekeys. -/
def record : PrekeyRecord := prekeyRecord app bob (fill 101) (2, fill 103)

def bundle : PrekeyBundle := Core.bundleOf app bob record

/-- What Alice derives from them. -/
def agreed : AliceSession app.Key :=
  (x3dhInitiate app alice.dhKey (Core.dhPublicKey app alice) bundle (fill 201)).getD
    ⟨.root 0, fill 0, fill 0, []⟩

def started : NewSession app.Key :=
  Core.initiatorSession 7 (Core.dhPublicKey app alice) bundle agreed (fill 202)

def agreement : Agreement app.toPlatform where
  peer
    | .alice => fill 1
    | .bob => fill 3
  rootKey := agreed.rootKey
  aliceSk := fill 202
  bobSk := fill 101
  ad := agreed.ad
  apart := by decide

/-- What Alice seals. -/
def sealed (old : SessionRecord app.Key) (plaintext : Bytes) : Header × Bytes :=
  (DoubleRatchet.encrypt app.toCrypto plaintext old.ad zeroNonce old.ratchet).1.toOption.getD
    (⟨fill 0, 0, 0⟩, [])

/-- Her session after it. -/
def moved (old : SessionRecord app.Key) (plaintext : Bytes) : SessionRecord app.Key :=
  { old with
    generation := old.generation + 1
    ratchet := (DoubleRatchet.encrypt app.toCrypto plaintext old.ad zeroNonce old.ratchet).2 }

/-- The message that goes to the outbox. -/
def outgoing (old : SessionRecord app.Key) (clientId plaintext : Bytes) : OutgoingMessage where
  messageId := Messenger.messageId app.toPlatform (Messenger.wireOf (sealed old plaintext))
  clientMessageId := clientId
  generation := old.generation + 1
  wire := Messenger.wireOf (sealed old plaintext)

/-- Alice's session, before her first message, after it and after her second. -/
def begun : SessionRecord app.Key :=
  Messenger.newRecord (P := app.toPlatform) (Core.dhPublicKey app alice) started

def once : SessionRecord app.Key := moved begun [7]

def twice : SessionRecord app.Key := moved once [9]

def aliceWrites : List (List (Change app.Key)) :=
  [Messenger.sendChanges (P := app.toPlatform) (fill 1) (fill 1) twice
      (outgoing once [2] [9]),
    Messenger.sendChanges (P := app.toPlatform) (fill 1) (fill 1) once
      (outgoing begun [1] [7]),
    Messenger.createChanges (P := app.toPlatform) (Core.dhPublicKey app alice) started,
    [⟨.identity, some alice⟩]]

def handshakeBytes : Bytes := started.initialOutbound.getD []

def handshake : InitiatorHandshake where
  identityPk := Core.dhPublicKey app alice
  ephemeralPk := app.publicKey (fill 201)
  spkId := spkId app (app.publicKey record.signedPrekeySk)
  opkId := some 2

def wire : Bytes := Messenger.wireOf (sealed begun [7])

def first : FirstContact app.Key :=
  firstContact (P := app) bob 7 (provisionalOf handshake handshakeBytes) handshake record
    (4, fill 105)

def candidate : SessionRecord app.Key :=
  Messenger.candidateRecord (P := app.toPlatform) (Core.dhPublicKey app bob) first

/-- Bob's session after Alice's first message. -/
def answered : SessionRecord app.Key :=
  { candidate with
    generation := 1
    ratchet := (candidate.ratchet.decrypt app.toCrypto (sealed begun [7]).1
      (sealed begun [7]).2 candidate.ad (fill 107)).2 }

def incoming : IncomingMessage where
  messageId := Messenger.messageId app.toPlatform wire
  generation := 1
  plaintext := [7]

def bobWrites : List (List (Change app.Key)) :=
  [Messenger.promoteChanges (P := app.toPlatform) first answered incoming,
    [⟨.provisional 7, some (provisionalOf handshake handshakeBytes)⟩], [⟨.prekeys, some record⟩],
    [⟨.identity, some bob⟩]]

def aliceCalls : List Call :=
  [.saveIdentity alice, .establishSessionInitiator 0 7 (packPrekeyBundle bundle),
    .sendMessage 0 7 [1] [7], .sendMessage 0 7 [2] [9]]

def bobCalls : List Call :=
  [.saveIdentity bob, .establishPrekeys, .establishSessionResponder 0 7 handshakeBytes,
    .receiveMessage 0 7 wire]

def anything : Scope app where
  calls _ := True

/-- A device after its first `n` calls. -/
def steps (es : List Choice) (calls : List Call) : Nat → Option (DeviceConfig app)
  | 0 => some (Config.init ⟨Db.empty, fun _ => {}, []⟩)
  | n + 1 => (steps es calls n).bind fun c =>
      (system app anything.calls).runCalls es c ((calls.drop n).take 1)

/-- The network after Alice's first message, after Bob has read it and after her second message. -/
def afterOne : Net app.toCrypto := agreement.start.encrypt .alice [7] agreement.ad zeroNonce

def afterTwo : Net app.toCrypto :=
  afterOne.decrypt .bob (sealed begun [7]).1 (sealed begun [7]).2 agreement.ad (fill 107)

def afterThree : Net app.toCrypto := afterTwo.encrypt .alice [9] agreement.ad zeroNonce

/-- The two devices. -/
def pick (a b : DeviceConfig app) : Party → DeviceConfig app
  | .alice => a
  | .bob => b

/-- A run of both up to here. -/
abbrev Ran (a b : DeviceConfig app) (net : Net app.toCrypto) : Prop :=
  Together (fun _ => system app anything.calls) (Keeps agreement)
    (fun _ => Config.init ⟨Db.empty, fun _ => {}, []⟩) agreement.start (pick a b) net

/-- Alice can send `plaintext` on `old`. -/
structure Sends (old : SessionRecord app.Key) (plaintext : Bytes) : Prop where
  before : (decodeSessionCheckpoint old ⟨fill 3, fill 1⟩).toOption.isSome = true
  after : (decodeSessionCheckpoint (moved old plaintext) ⟨fill 3, fill 1⟩).toOption.isSome = true
  room : old.generation ≠ 0xFFFFFFFFFFFFFFFF
  seals : (DoubleRatchet.encrypt app.toCrypto plaintext old.ad zeroNonce old.ratchet).1 =
    .ok (sealed old plaintext)

/-- What the run comes to. -/
structure Computed : Prop where
  /-- What is stored after each call. -/
  aliceStored : ∀ n ∈ List.range 5, (steps (draws 200) aliceCalls n).map
    (fun c => c.shared.db.entries) = some (Db.after (aliceWrites.drop (4 - n))).entries
  bobStored : ∀ n ∈ List.range 5, (steps (draws 100) bobCalls n).map
    (fun c => c.shared.db.entries) = some (Db.after (bobWrites.drop (4 - n))).entries
  aliceCollisionFree : Messenger.CollisionFree (P := app.toPlatform) (Db.after aliceWrites)
  bobCollisionFree : Messenger.CollisionFree (P := app.toPlatform) (Db.after bobWrites)
  /-- Whose devices they are. -/
  aliceIs : Option.map (Core.dhPublicKey app) ((Db.after aliceWrites).rows.lookup Key.identity) =
    some (fill 3)
  bobIs : Option.map (Core.dhPublicKey app) ((Db.after bobWrites).rows.lookup Key.identity) =
    some (fill 1)
  rootKey : (fun k : SymKey => decide (k = .root 184)) agreement.rootKey = true
  /-- Alice's session begins from the agreement. -/
  begins : begun.ratchet = agreement.start.ratchet .alice
  firstSend : Sends begun [7]
  secondSend : Sends once [9]
  unsent : ((Db.after (aliceWrites.drop 1)).rows.lookup
    (Key.outbox (fill 1) (outgoing once [2] [9]).messageId)).isNone = true
  unused : ((Db.after (aliceWrites.drop 1)).rows.lookup (Key.sendid (fill 1) [2])).isNone = true
  counter : (agreement.start.ratchet .alice).ns ≠ 0xFFFFFFFF
  /-- Bob's secret is new, and he has the key of the message that Alice sealed. -/
  drawn : ∀ q ∈ [Party.alice, .bob], app.publicKey (fill 107) ∉ afterOne.dhKeys q
  opened : (afterOne.sent .alice).head?.map (fun e => decide (
    (afterOne.ratchet .bob).messageKey app.toCrypto (sealed begun [7]).1 (fill 107) = some e.key ∧
    e.ciphertext = (sealed begun [7]).2 ∧ e.header = (sealed begun [7]).1 ∧
    e.ad = agreement.ad)) = some true
  /-- His session begins from the agreement. -/
  candidateBound : (decodeSessionCheckpoint candidate ⟨fill 1, fill 3⟩).toOption.isSome = true
  answeredBound : (decodeSessionCheckpoint answered ⟨fill 1, fill 3⟩).toOption.isSome = true
  room : candidate.generation ≠ 0xFFFFFFFFFFFFFFFF
  ratchet : candidate.ratchet = agreement.start.ratchet .bob
  ad : candidate.ad = agreement.ad
  decrypts : (candidate.ratchet.decrypt app.toCrypto (sealed begun [7]).1 (sealed begun [7]).2
    candidate.ad (fill 107)).1 = .ok [7]
  inbox : Option.map (fun m : IncomingMessage => decide (m = incoming))
    ((Db.after bobWrites).rows.lookup (Key.inbox (fill 3) incoming.messageId)) = some true
  /-- Alice's second message is Bob's next. -/
  next : (afterThree.sent .alice).head?.map (fun e => decide (e.plaintext = [9] ∧
    e.id ≠ incoming.messageId ∧ (afterThree.ratchet .bob).dhr = some e.header.dh ∧
      (afterThree.ratchet .bob).nr ≤ e.header.n ∧
      e.header.n.toNat ≤ (afterThree.ratchet .bob).nr.toNat + maxSkip.toNat)) = some true

theorem computed : Computed := by
  constructor
  case firstSend => constructor <;> decide +kernel
  case secondSend => constructor <;> decide +kernel
  all_goals decide +kernel

theorem alice_stored (v : Computed) {n : Nat} (hn : n ∈ List.range 5) {c : DeviceConfig app}
    (h : steps (draws 200) aliceCalls n = some c) :
    c.shared.db = Db.after (aliceWrites.drop (4 - n)) := by
  have hs := v.aliceStored n hn
  rw [h] at hs
  exact Db.entries_inj (Option.some.inj hs)

theorem bob_stored (v : Computed) {n : Nat} (hn : n ∈ List.range 5) {c : DeviceConfig app}
    (h : steps (draws 100) bobCalls n = some c) :
    c.shared.db = Db.after (bobWrites.drop (4 - n)) := by
  have hs := v.bobStored n hn
  rw [h] at hs
  exact Db.entries_inj (Option.some.inj hs)

theorem steps_idle {es : List Choice} {calls : List Call} {n : Nat} {c : DeviceConfig app}
    (h : steps es calls n = some c) : ∀ j, c.threads j = none := by
  induction n generalizing c with
  | zero =>
    obtain rfl := Option.some.inj h
    exact fun _ => rfl
  | succ n ih =>
    obtain ⟨c₀, h₀, hx⟩ := Option.bind_eq_some_iff.mp h
    rw [System.runCalls_threads _ hx]
    exact ih h₀

theorem alice_next {a a' b : DeviceConfig app} {net net' : Net app.toCrypto} {n : Nat}
    {cs : List (Change app.Key)} {writes : List (List (Change app.Key))} {call : Call}
    (h : Ran a b net) (ha : steps (draws 200) aliceCalls n = some a)
    (hx : (system app anything.calls).runCalls (draws 200) a [call] = some a')
    (hdb : a.shared.db = Db.after writes) (hdb' : a'.shared.db = Db.after (cs :: writes))
    (he : Messenger.EndStep agreement .alice net (Db.after writes)
      ((Db.after writes).rows.applyAll cs) net') : Ran a' b net' := by
  have h' := @run_call app agreement (fun _ => anything) (pick a b) net net' (fun _ => rfl) h .alice
    (draws 200) call a' ((Db.after writes).rows.applyAll cs) (steps_idle ha) trivial hx
    (by
      show a'.shared.db = a.shared.db.push _
      rw [hdb', hdb]
      rfl)
    (by
      show Messenger.EndStep agreement .alice net a.shared.db _ net'
      rw [hdb]
      exact he)
  have hu : update (pick a b) .alice a' = pick a' b := by
    funext q
    cases q <;> rfl
  rwa [hu] at h'

theorem bob_next {a b b' : DeviceConfig app} {net net' : Net app.toCrypto} {n : Nat}
    {cs : List (Change app.Key)} {writes : List (List (Change app.Key))} {call : Call}
    (h : Ran a b net) (hb : steps (draws 100) bobCalls n = some b)
    (hx : (system app anything.calls).runCalls (draws 100) b [call] = some b')
    (hdb : b.shared.db = Db.after writes) (hdb' : b'.shared.db = Db.after (cs :: writes))
    (he : Messenger.EndStep agreement .bob net (Db.after writes)
      ((Db.after writes).rows.applyAll cs) net') : Ran a b' net' := by
  have h' := @run_call app agreement (fun _ => anything) (pick a b) net net' (fun _ => rfl) h .bob
    (draws 100) call b' ((Db.after writes).rows.applyAll cs) (steps_idle hb) trivial hx
    (by
      show b'.shared.db = b.shared.db.push _
      rw [hdb', hdb]
      rfl)
    (by
      show Messenger.EndStep agreement .bob net b.shared.db _ net'
      rw [hdb]
      exact he)
  have hu : update (pick a b) .bob b' = pick a b' := by
    funext q
    cases q <;> rfl
  rwa [hu] at h'

/-! ### The transactions -/

theorem bound {rec : SessionRecord app.Key} {our : Bytes32} {peer : Peer}
    (h : (decodeSessionCheckpoint rec ⟨our, peer⟩).toOption.isSome = true) : rec.Bound our peer := by
  cases hd : decodeSessionCheckpoint rec ⟨our, peer⟩ with
  | ok r => exact (decodeSessionCheckpoint_ok hd).2
  | error e =>
    rw [hd] at h
    cases h

/-- Alice sends. -/
theorem sent {db : Db app.Key} {old : SessionRecord app.Key} {clientId plaintext : Bytes}
    {net : Net app.toCrypto}
    (named : db.rows.lookup (.handle 7) = some (fill 1))
    (loaded : db.rows.lookup (.session (fill 1)) = some old)
    (sends : Sends old plaintext)
    (valid : clientId ≠ [] ∧ clientId.length ≤ Messenger.maxClientMessageIdLen)
    (noOutbox : db.rows.lookup (.outbox (fill 1) (outgoing old clientId plaintext).messageId) = none)
    (noSendid : db.rows.lookup (.sendid (fill 1) clientId) = none) :
    Messenger.EndStep agreement .alice net db (db.rows.applyAll (Messenger.sendChanges
      (P := app.toPlatform) (fill 1) (fill 1) (moved old plaintext)
        (outgoing old clientId plaintext)))
      (net.encrypt .alice plaintext agreement.ad zeroNonce) := by
  have henc : Messenger.Encrypts (P := app.toPlatform) old (moved old plaintext) plaintext zeroNonce
      (sealed old plaintext) := Prod.ext sends.seals rfl
  have hsend : Messenger.SendTx (P := app.toPlatform) (fill 3) 7 clientId plaintext db (fill 1)
      (fill 1) old (moved old plaintext) (outgoing old clientId plaintext) (db.rows.applyAll
        (Messenger.sendChanges (P := app.toPlatform) (fill 1) (fill 1) (moved old plaintext)
          (outgoing old clientId plaintext))) :=
    { named := ⟨db, Db.Le.refl _, named⟩
      loaded := ⟨⟨db, db, Db.Le.refl _, Db.Le.refl _, named, loaded⟩, bound sends.before⟩
      unchanged := ⟨old, loaded, rfl⟩
      follows := ⟨sends.room, rfl, bound sends.after⟩
      encrypts := ⟨zeroNonce, sealed old plaintext, henc, rfl⟩
      message := rfl
      validId := valid
      noOutbox
      noSendid
      eq := rfl }
  exact Messenger.EndStep.sent (A := agreement) (p := .alice) 7 clientId plaintext (fill 1) old _ _
    hsend zeroNonce (sealed old plaintext) henc rfl

theorem reach_afterOne (v : Computed) : Net.Reach agreement.rootKey agreement.aliceSk agreement.bobSk
    (· ≠ 0xFFFFFFFF) afterOne := .encrypt _ _ _ _ (.start agreement.apart) v.counter

theorem fair (v : Computed) :
    afterOne.Fair .bob (sealed begun [7]).1 (sealed begun [7]).2 agreement.ad (fill 107) where
  drawn q := v.drawn q (by cases q <;> decide)
  unforged key hk := by
    obtain ⟨e, he, h⟩ := Option.map_eq_some_iff.mp v.opened
    obtain ⟨hkey, hct, hh, had⟩ := of_decide_eq_true h
    obtain rfl := Option.some.inj (hkey.symm.trans hk)
    have hu := Net.unforged_of_sent symbolic_aeadCorrect (reach_afterOne v) (List.mem_of_mem_head? he)
    rwa [hct, hh, had] at hu

/-- Bob answers Alice's handshake with her first message. -/
theorem promoted (v : Computed) : Messenger.PromoteTx (P := app.toPlatform) (fill 1) first wire
    (Db.after (bobWrites.drop 1)) answered incoming (Db.after bobWrites).rows where
  candidate := bound v.candidateBound
  follows := ⟨v.room, rfl, bound v.answeredBound⟩
  decrypts := ⟨fill 107, _, _, Messenger.splitWire_wireOf _, Prod.ext v.decrypts rfl⟩
  message := rfl
  noSession := by rfl
  noHandle := by rfl
  provisional := by rfl
  names := rfl
  noInbox := by rfl
  noSeen := by rfl
  extra := consumed_appOnly record _
  required w hw := by
    obtain rfl := List.mem_singleton.mp hw
    rfl
  eq := rfl

/-- Bob's transaction answers Alice's first message. -/
theorem answers (v : Computed) : Messenger.EndStep agreement .bob afterOne
    (Db.after (bobWrites.drop 1)) (Db.after bobWrites).rows afterTwo := by
  refine Messenger.EndStep.answered (A := agreement) (p := .bob) first wire answered incoming
    (promoted v) rfl (fun rec he => ?_) ⟨v.ratchet, v.ad⟩ (sealed begun [7]).1
    (sealed begun [7]).2 (fill 107) (Messenger.splitWire_wireOf _) ?_ (fair v)
  · have hm := Db.ever_after he
    simp [bobWrites] at hm
  · rw [← v.ad]
    exact Prod.ext v.decrypts rfl

/-- The last call of `n + 1`. -/
theorem steps_succ {es : List Choice} {calls : List Call} {n : Nat} {c : DeviceConfig app}
    (h : steps es calls (n + 1) = some c) : ∃ c₀, steps es calls n = some c₀ ∧
      (system app anything.calls).runCalls es c₀ ((calls.drop n).take 1) = some c :=
  Option.bind_eq_some_iff.mp h

theorem ran (v : Computed) : ∃ a b, a.shared.db = Db.after aliceWrites ∧
    b.shared.db = Db.after bobWrites ∧ Ran a b afterThree := by
  obtain ⟨a₄, ha₄, -⟩ := Option.map_eq_some_iff.mp (v.aliceStored 4 (by decide))
  obtain ⟨a₃, ha₃, hxa₄⟩ := steps_succ ha₄
  obtain ⟨a₂, ha₂, hxa₃⟩ := steps_succ ha₃
  obtain ⟨a₁, ha₁, hxa₂⟩ := steps_succ ha₂
  obtain ⟨a₀, ha₀, hxa₁⟩ := steps_succ ha₁
  obtain ⟨b₄, hb₄, -⟩ := Option.map_eq_some_iff.mp (v.bobStored 4 (by decide))
  obtain ⟨b₃, hb₃, hxb₄⟩ := steps_succ hb₄
  obtain ⟨b₂, hb₂, hxb₃⟩ := steps_succ hb₃
  obtain ⟨b₁, hb₁, hxb₂⟩ := steps_succ hb₂
  obtain ⟨b₀, hb₀, hxb₁⟩ := steps_succ hb₁
  have sa := fun n hn c => @alice_stored v n hn c
  have sb := fun n hn c => @bob_stored v n hn c
  have h₀ : Ran a₀ b₀ agreement.start := by
    obtain rfl := Option.some.inj ha₀
    obtain rfl := Option.some.inj hb₀
    have hp : pick (Config.init ⟨Db.empty, fun _ => {}, []⟩)
        (Config.init ⟨Db.empty, fun _ => {}, []⟩) =
          fun _ => Config.init ⟨Db.empty, fun _ => {}, []⟩ := by
      funext q
      cases q <;> rfl
    show Together _ _ _ _ (pick _ _) _
    rw [hp]
    exact .refl
  -- Bob's identity and prekeys, then Alice's identity and session.
  have h₁ := bob_next h₀ hb₀ hxb₁ (sb 0 (by decide) _ hb₀) (sb 1 (by decide) _ hb₁) (.elsewhere rfl)
  have h₂ := bob_next h₁ hb₁ hxb₂ (sb 1 (by decide) _ hb₁) (sb 2 (by decide) _ hb₂) (.elsewhere rfl)
  have h₃ := alice_next h₂ ha₀ hxa₁ (sa 0 (by decide) _ ha₀) (sa 1 (by decide) _ ha₁) (.elsewhere rfl)
  have h₄ := alice_next h₃ ha₁ hxa₂ (sa 1 (by decide) _ ha₁) (sa 2 (by decide) _ ha₂)
    (.begun begun (fun rec he => by
      have hm := Db.ever_after he
      simp [aliceWrites] at hm) rfl rfl ⟨v.begins, rfl⟩)
  -- Alice sends, Bob takes her handshake and her message.
  have h₅ := alice_next h₄ ha₂ hxa₃ (sa 2 (by decide) _ ha₂) (sa 3 (by decide) _ ha₃)
    (sent rfl rfl v.firstSend (by decide) rfl rfl)
  have h₆ := bob_next h₅ hb₂ hxb₃ (sb 2 (by decide) _ hb₂) (sb 3 (by decide) _ hb₃) (.elsewhere rfl)
  have h₇ := bob_next h₆ hb₃ hxb₄ (sb 3 (by decide) _ hb₃) (sb 4 (by decide) _ hb₄)
    (answers v)
  have h₈ := alice_next h₇ ha₃ hxa₄ (sa 3 (by decide) _ ha₃) (sa 4 (by decide) _ ha₄)
    (sent rfl rfl v.secondSend (by decide) (Option.isNone_iff_eq_none.mp v.unsent)
      (Option.isNone_iff_eq_none.mp v.unused))
  exact ⟨a₄, b₄, sa 4 (by decide) _ ha₄, sb 4 (by decide) _ hb₄, h₈⟩

theorem ideal (v : Computed) : Ideal app.toCrypto agreement.rootKey := by
  have hk : agreement.rootKey = SymKey.root 184 :=
    @of_decide_eq_true _ (instDecidableEqSymKey _ _) v.rootKey
  rw [hk]
  exact symbolic_ideal 184

theorem devices (v : Computed) : ∃ a b, a.shared.db = Db.after aliceWrites ∧
    b.shared.db = Db.after bobWrites ∧ TwoDevices agreement (fun _ => anything) (pick a b) afterThree := by
  obtain ⟨a, b, ha, hb, h⟩ := ran v
  have hr := fun p =>
    @reachable_of_run app agreement (fun _ => anything) (pick a b) afterThree (fun _ => rfl) h p
  refine ⟨a, b, ha, hb, fun _ => rfl, h, ?_, ?_⟩
  · rintro p our ⟨identity, he, rfl⟩
    have hi := congrArg (Option.map (Core.dhPublicKey app)) (identity_stored (hr p).valid he)
    cases p with
    | alice =>
      have hs : (pick a b .alice).shared.db = Db.after aliceWrites := ha
      rw [hs, v.aliceIs] at hi
      exact (Option.some.inj hi).symm
    | bob =>
      have hs : (pick a b .bob).shared.db = Db.after bobWrites := hb
      rw [hs, v.bobIs] at hi
      exact (Option.some.inj hi).symm
  · intro p
    cases p with
    | alice =>
      show Messenger.CollisionFree (P := app.toPlatform) a.shared.db
      rw [ha]
      exact v.aliceCollisionFree
    | bob =>
      show Messenger.CollisionFree (P := app.toPlatform) b.shared.db
      rw [hb]
      exact v.bobCollisionFree

theorem incoming_stored (v : Computed) :
    (Db.after bobWrites).rows.lookup (.inbox (fill 3) incoming.messageId) = some incoming := by
  obtain ⟨m, hm, he⟩ := Option.map_eq_some_iff.mp v.inbox
  rw [hm, of_decide_eq_true he]

/-- Bob's inbox never had another message. -/
theorem inbox_only {peer : Peer} {id : MessageId} {m : IncomingMessage}
    (h : (Db.after bobWrites).Ever (.inbox peer id) m) : id = incoming.messageId := by
  have hm := Db.ever_after h
  simp [bobWrites, Messenger.promoteChanges] at hm
  rcases hm with ⟨⟨-, hid⟩, -⟩ | hside
  · exact hid
  · obtain ⟨w, hw, hk⟩ := Messenger.sideChanges_key hside
    have hmine := consumed_appOnly record (4, fill 105) w hw
    rw [hk] at hmine
    cases hmine

/-- Bob's session. -/
theorem answered_stored : (Db.after bobWrites).rows.lookup (.session (fill 3)) = some answered := by
  rfl

end PairRun

theorem devices_follow_pair : ∃ c net,
    TwoDevices PairRun.agreement (fun _ => PairRun.anything) c net ∧
      Messenger.EndsOk PairRun.agreement (fun p => (c p).shared.db) net := by
  obtain ⟨a, b, -, -, h⟩ := PairRun.devices PairRun.computed
  exact ⟨_, _, h, devices_follow h⟩

open PairRun in
theorem devices_authentic_pair : ∃ (e : Encryption app.Key) (db : Db app.Key) (call : Call)
    (handle : UInt64) (clientId : Bytes), Sending anything db e call handle clientId ∧
      e.id = incoming.messageId ∧ e.plaintext = [7] := by
  have v := computed
  obtain ⟨a, b, -, hb, h⟩ := devices v
  have hm : (pick a b .bob).shared.db.Ever (.inbox (agreement.peer .bob) incoming.messageId)
      incoming := by
    show b.shared.db.Ever _ _
    rw [hb]
    exact Db.ever_now (incoming_stored v)
  obtain ⟨e, call, handle, clientId, hs⟩ := devices_authentic h (ideal v) symbolic_aeadCorrect .bob hm
  exact ⟨e, _, call, handle, clientId, hs⟩

open PairRun in
/-- Bob's stored session opens Alice's second message. -/
theorem devices_deliver_pair : ∃ c net e r', TwoDevices agreement (fun _ => anything) c net ∧
    e ∈ net.sent .alice ∧ e.plaintext = [9] ∧
    answered.ratchet.decrypt app.toCrypto e.header e.ciphertext answered.ad (fill 109) =
      (.ok [9], r') := by
  have v := computed
  obtain ⟨a, b, -, hb, h⟩ := devices v
  obtain ⟨e, he, hd⟩ := Option.map_eq_some_iff.mp v.next
  obtain ⟨hp, hid, hdh, hn, hm⟩ := of_decide_eq_true hd
  have hbob : (pick a b .bob).shared.db = Db.after bobWrites := hb
  have hrec : (pick a b .bob).shared.db.rows.lookup (.session (agreement.peer .bob)) =
      some answered := by
    rw [hbob]
    exact answered_stored
  have hnew : ∀ m, ¬ (pick a b .bob).shared.db.Ever (.inbox (agreement.peer .bob) e.id) m := by
    intro m hm
    rw [hbob] at hm
    exact hid (inbox_only hm)
  obtain ⟨r', hr⟩ := (devices_deliver h (ideal v) symbolic_aeadCorrect .bob hrec
    (List.mem_of_mem_head? he) hnew).2 (.inr (.inl ⟨hdh, hn, hm⟩)) (fill 109)
  rw [hp] at hr
  exact ⟨_, _, e, r', h, List.mem_of_mem_head? he, hp, hr⟩

end Network

end Arcium
