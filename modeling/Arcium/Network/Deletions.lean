import Arcium.Network.TextsKept
import Arcium.Network.Authority

/-!
# What is deleted from the relay was kept

`scan` asks the relay to delete envelopes, each by a verdict that rests on evidence (`Justified`). The
contract of a device says so of one request; here it is carried to every request of every run.

* `asked_kept`: each request was allowed where it was made, by a call that was running then.
* `deletions_safe`: an accepted message that is deleted was stored first, and its text stays stored.
-/

namespace Arcium

open Conc

namespace Messenger

variable {P : Platform} {our : Bytes32} {db : Db P.Key}

/-- What was accepted was in the inbox. -/
theorem ever_of_accepted (h : db.Valid (Trans our)) {p : Peer} {id : MessageId}
    (ha : Accepted db.rows p id) : ∃ m, db.Ever (.inbox p id) m := by
  have inbox : ∀ {db : Db P.Key}, (db.rows.lookup (.inbox p id)).isSome →
      ∃ m, db.Ever (.inbox p id) m := fun hi => by
    obtain ⟨m, hm⟩ := Option.isSome_iff_exists.mp hi
    exact ⟨m, Db.ever_now hm⟩
  rcases ha with ha | ha
  · exact inbox ha
  induction h with
  | empty => cases ha
  | @push db rows hv ht ih =>
    obtain ⟨x, hx⟩ := Option.isSome_iff_exists.mp ha
    -- A message is seen since it left the inbox.
    have before : ∃ m, db.Ever (.inbox p id) m := by
      rcases ht.messages.seen_new hx with h | ⟨-, hi, -⟩
      · exact ih (by rw [h]; rfl)
      · exact inbox hi
    obtain ⟨m, hm⟩ := before
    exact ⟨m, hm.mono (Db.le_push _ _)⟩

end Messenger

/-- The verdicts on a message that the device has. -/
def Verdict.Has : Verdict → Prop
  | .accepted | .duplicate => True
  | _ => False

namespace Network

variable {P : AppPlatform} {scope : Scope P} {start since now db db' : Db P.Key} {peer : Peer}

/-! ## Requests -/

/-- The request `x` was made at a moment of `db` and allowed then, in a call that began after
`start`. -/
def AskedIn (start db : Db P.Key) (x : Request × Answer) : Prop :=
  ∃ since now : Db P.Key, start.Le since ∧ since.Le now ∧ now.Le db ∧ Asks since now x

theorem AskedIn.mono {x : Request × Answer} (h : AskedIn start db x) (hle : db.Le db') :
    AskedIn start db' x := by
  obtain ⟨since, now, h1, h2, h3, h4⟩ := h
  exact ⟨since, now, h1, h2, h3.trans hle, h4⟩

/-- The state of a device that makes only allowed requests. -/
structure AskedSound (scope : Scope P) (s : Device P.Key Memory) : Prop where
  sound : Sound scope s.db
  asked : ∀ x ∈ s.asked, AskedIn scope.start s.db x

/-- What an action of a call does, and when. -/
structure ActsFrom (scope : Scope P) (call : Call) (s₀ s s' : Device P.Key Memory) : Prop where
  acts : Acts (Asks s₀.db) (Step scope.start call) s s'
  started : scope.start.Le s₀.db
  after : s₀.db.Le s.db

theorem ActsFrom.keeps {call : Call} {s₀ s s' : Device P.Key Memory}
    (h : ActsFrom scope call s₀ s s') (hc : scope.calls call) (hI : AskedSound scope s) :
    AskedSound scope s' ∧ s.db.Le s'.db := by
  have hle : s.db.Le s'.db := Sat.Moves.le h.acts.moves
  refine ⟨⟨?_, fun x hx => ?_⟩, hle⟩
  · rcases h.acts.moves with hs | ⟨rows, ht, hs⟩
    · rw [hs]
      exact hI.sound
    · rw [hs]
      exact hI.sound.push hc ht
  · rcases h.acts.asks with hs | ⟨y, hy, hs⟩
    · exact (hI.asked x (hs ▸ hx)).mono hle
    · rw [hs] at hx
      rcases List.mem_cons.mp hx with rfl | hx
      · exact ⟨s₀.db, s.db, h.started, h.after, hle, hy⟩
      · exact (hI.asked x hx).mono hle

/-- The contract of a device, with what it asked. -/
def askContract (scope : Scope P) : Contract (system P scope.calls) where
  I := AskedSound scope
  R s s' := s.db.Le s'.db
  G := ActsFrom scope
  Q _ _ _ _ _ := True
  refl := Device.le_refl
  trans := Device.le_trans
  guarantee _ _ _ _ hc hI hG := hG.keeps hc hI
  env _ _ hI he := by
    obtain ⟨i, rfl⟩ := he
    exact ⟨⟨hI.sound, hI.asked⟩, Db.Le.refl _⟩
  triple call s _ hI := by
    have h := body_ends call hI.sound [] s.mem s.asked rfl
    exact (h.strengthen fun _ h => h.sound).weaken_from (fun _ _ _ => Db.Le.trans)
      (fun _ _ hg => Sat.Moves.le hg.moves) fun _ _ hle _ hg => ⟨hg, hI.sound.started, hle⟩

/-- **Every request of every run** was allowed where it was made. -/
theorem asked_kept {c : DeviceConfig P} (h : Reachable scope c) :
    ∀ x ∈ c.shared.asked, AskedIn scope.start c.shared.db x := by
  have hstart : (askContract scope).I ⟨scope.start, fun _ => {}, []⟩ :=
    ⟨⟨h.started, Db.Le.refl _⟩, fun _ hx => nomatch hx⟩
  exact (Contract.sound hstart h.run).inv.asked

/-! ## Deleted envelopes -/

/-- A message that the device has was accepted on the session of its sender's handle. -/
theorem Justified.has (hv : db.Valid (Trans scope)) {bytes wire : Bytes} {sender : Peer} {v : Verdict}
    (h : Justified since db bytes v) (hd : Envelope.decode bytes = some (.message sender wire))
    (hs : v.Has) : ∃ peer m, Named db (localSessionHandle P sender) peer ∧
      db.Ever (.inbox peer (Messenger.messageId P.toPlatform wire)) m := by
  obtain ⟨our, -, hmv⟩ := exists_our hv
  cases h with
  | accepted sender wire m h accepted same settled =>
    rw [hd] at h
    cases h
    obtain ⟨peer, id, hn, he⟩ := accepted
    obtain rfl : id = Messenger.messageId P.toPlatform wire :=
      (Messenger.inbox_id_of_ever hmv he).symm.trans same
    exact ⟨peer, m, hn, he⟩
  | duplicate sender wire peer h named accepted receipt =>
    rw [hd] at h
    cases h
    obtain ⟨db₀, hle, ha⟩ := accepted
    obtain ⟨m, hm⟩ := Messenger.ever_of_accepted (hmv.le hle) ha
    exact ⟨peer, m, named, hm.mono hle⟩
  | _ => exact hs.elim

/-- The text `m` that was accepted from a peer is stored. -/
def TextStored (db : Db P.Key) (peer : Peer) (id : MessageId) (m : IncomingMessage) : Prop :=
  db.rows.lookup (.inbox peer id) = some m ∨
    ∃ seq e, (conversation db.rows peer).log.entries seq = some e ∧ Records e m

/-- What is known of an envelope that the relay was asked to delete with the verdict `v`. -/
structure Deleted (start db : Db P.Key) (bytes : Bytes) (v : Verdict) : Prop where
  /-- The verdict rests on what was found since its call began. -/
  justified : ∃ since now : Db P.Key, start.Le since ∧ since.Le now ∧ now.Le db ∧
    Justified since now bytes v
  /-- A message that the device has was accepted under its id, from the sender if that one is known,
  and its text is stored. -/
  has : v.Has → ∀ sender wire, Envelope.decode bytes = some (.message sender wire) → ∃ peer m,
    db.Ever (.inbox peer (Messenger.messageId P.toPlatform wire)) m ∧
    (Known db sender → peer = sender) ∧
    ∀ text, Payload.decode m.plaintext = some (.text text) →
      TextStored db peer (Messenger.messageId P.toPlatform wire) m

/-- **What the relay may drop was kept.** Whatever the device ever asked the relay to delete, it had a
verdict with evidence for; and a message that it counts as received was stored before, and its text
is in the inbox or in the history from then on. -/
theorem deletions_safe {c : DeviceConfig P} (h : Reachable scope c)
    (hcalls : ∀ call, scope.calls call → ¬ call.Acknowledges) (hh : HandlesTell c.shared.db)
    {our : Peer} {items : List (UInt64 × Bytes × Verdict)} {a : Answer}
    (ha : (.delete our items, a) ∈ c.shared.asked) :
    ∀ x ∈ items, Deleted scope.start c.shared.db x.2.1 x.2.2 := by
  intro x hx
  have hv := h.valid
  obtain ⟨since, now, h1, h2, h3, hasks⟩ := asked_kept h _ ha
  have hj : Justified since now x.2.1 x.2.2 := hasks x hx
  refine ⟨⟨since, now, h1, h2, h3, hj⟩, fun hhas sender wire hd => ?_⟩
  obtain ⟨peer, m, hn, hm⟩ := hj.has (hv.le h3) hd hhas
  have hm' := hm.mono h3
  have hn' := hn.mono h3
  refine ⟨peer, m, hm', fun hk => ?_, fun text ht => ?_⟩
  · exact hh.injective peer sender (.inl (.inr ⟨_, hn'⟩)) (.inl hk) (hh.own _ peer hn').symm
  · exact text_kept hv hcalls hh hm' ht

/-! ## A first message that is deleted -/

namespace DeletedRun

def card : Bytes := 0x01 :: ((fill 3).val ++ (fill 4).val)

/-- The first message of the peer. -/
def wire : Bytes :=
  match FirstRun.started with
  | none => []
  | some s =>
    match (DoubleRatchet.encrypt symbolicApp.toCrypto (Payload.text [9]).encode s.session.ad zeroNonce
        s.session.ratchet).1 with
    | .ok out => Messenger.wireOf out
    | .error _ => []

/-- What the relay has. -/
def items : List (UInt64 × Bytes) :=
  [(1, (Envelope.handshake (fill 3) FirstRun.handshakeBytes).encode),
    (2, (Envelope.message (fill 3) wire).encode)]

def draws : List Choice :=
  (List.range 120).map fun n =>
    { secret := fill (UInt8.ofNat (100 + n)), id := UInt64.ofNat n, relay := { items } }

/-- The contact's handshake and first message are fetched, and the history is read. -/
def run : Option (DeviceConfig symbolicApp) :=
  (system symbolicApp KeptRun.chatOnly.calls).runCalls draws
    (Config.init ⟨KeptRun.chatOnly.start, fun _ => {}, []⟩)
    [.saveIdentity FirstRun.own, .addContact card, .establishPrekeys, .sync 0,
      .chatEntries 0 (fill 3)]


/-- The verdicts by which the run deletes. -/
def verdicts (c : DeviceConfig symbolicApp) : List (List (UInt64 × Verdict)) :=
  c.shared.asked.filterMap fun x =>
    match x.1 with
    | .delete _ items => some (items.map fun item => (item.1, item.2.2))
    | _ => none

theorem reachable {c : DeviceConfig symbolicApp} (h : run = some c) :
    Reachable KeptRun.chatOnly c := by
  refine ⟨.empty, System.Reach.runCalls .refl (fun _ => rfl) (fun call hc => ?_) h⟩
  simp only [List.mem_cons, List.not_mem_nil, or_false] at hc
  rcases hc with rfl | rfl | rfl | rfl | rfl <;> exact id

theorem run_facts : run.map (fun c => decide (HandlesTell c.shared.db ∧
    KeptRun.received c = some ([9], .received) ∧
    verdicts c = [[(2, .accepted)], [(1, .recorded)]])) = some true := by decide +kernel

end DeletedRun

theorem deletions_safe_first : ∃ (c : DeviceConfig symbolicApp) (our : Peer)
    (items : List (UInt64 × Bytes × Verdict)) (a : Answer), Reachable KeptRun.chatOnly c ∧
    KeptRun.received c = some ([9], .received) ∧ (.delete our items, a) ∈ c.shared.asked ∧
    items.map (fun item => (item.1, item.2.2)) = [(2, .accepted)] ∧
    ∀ x ∈ items, Deleted KeptRun.chatOnly.start c.shared.db x.2.1 x.2.2 := by
  obtain ⟨c, hc, hfacts⟩ := Option.map_eq_some_iff.mp DeletedRun.run_facts
  obtain ⟨hh, he, hverdicts⟩ := of_decide_eq_true hfacts
  have hr := DeletedRun.reachable hc
  have hmem : [(2, Verdict.accepted)] ∈ DeletedRun.verdicts c := by
    rw [hverdicts]
    exact List.mem_cons_self
  obtain ⟨⟨request, a⟩, ha, hx⟩ := List.mem_filterMap.mp hmem
  cases request with
  | delete our items =>
    exact ⟨c, our, items, a, hr, he, ha, Option.some.inj hx, deletions_safe hr (fun _ h => h) hh ha⟩
  | _ => cases hx

end Network

end Arcium
