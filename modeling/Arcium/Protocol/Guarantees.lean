import Arcium.Protocol.System
import Arcium.Crypto.Replay

/-!
# What the messenger guarantees

Of every configuration that a run of `system` can reach, whatever the interleaving, the faults and
the crashes:

* `no_fork`: a ratchet position is used for one wire only, what is released is stored, and a session
  record is followed by the one that a single ratchet operation makes of it;
* `send_once`: a logical message is encrypted once;
* `receive_once`: a wire is accepted once, and not lost after that;
* `forged_inert`: what does not authenticate changes neither a ratchet nor a record.
-/

namespace Arcium

open Conc

namespace Messenger

variable {P : Platform} {our : Bytes32} {db db' : Db P.Key} {rows : Rows P.Key}

/-- A configuration of `system`. -/
abbrev Conf (P : Platform) := Config Choice (Device P.Key Memory) (Call P.Key) Res

/-! ## No fork -/

/-- The message was stored, or released by a call. -/
def Known (c : Conf P) (m : OutgoingMessage) : Prop :=
  (∃ p id, c.shared.db.Ever (.outbox p id) m) ∨ ∃ d ∈ c.done, m ∈ d.res.wires

/-- No ratchet position is used twice, and no result runs ahead of the store. -/
structure NoFork (our : Bytes32) (c : Conf P) : Prop where
  position : ∀ m m' header header', Known c m → Known c m' → HasHeader m header →
    HasHeader m' header' → header.dh = header'.dh → header.n = header'.n → m.wire = m'.wire
  wires : ∀ d ∈ c.done, ∀ m ∈ d.res.wires, ∃ p, SentIn our c.shared.db p m
  plaintexts : ∀ d ∈ c.done, ∀ m ∈ d.res.plaintexts, ∃ p, AcceptedIn our c.shared.db p m
  generations : ∀ db rows, (Db.push db rows).Le c.shared.db → ∀ (p : Peer)
    (old new : SessionRecord P.Key), db.rows.lookup (.session p) = some old →
      rows.lookup (.session p) = some new → new = old ∨ Advances old new

variable {c : Conf P}

theorem Reachable.valid (h : Reachable our c) : c.shared.db.Valid (Trans our) := h.holds.inv

/-- What a call released was stored when it returned. -/
theorem Reachable.released (h : Reachable our c) {d : Done (Device P.Key Memory) (Call P.Key) Res}
    (hd : d ∈ c.done) :
    (∀ m ∈ d.res.wires, ∃ p id, c.shared.db.Ever (.outbox p id) m) ∧
      ∀ m ∈ d.res.plaintexts, ∃ p id, c.shared.db.Ever (.inbox p id) m := by
  obtain ⟨-, s, -, hle, hs⟩ := h.holds.returned d hd
  refine ⟨fun m hm => ?_, fun m hm => ?_⟩
  · obtain ⟨p, id, he⟩ := hs.wires m hm
    exact ⟨p, id, he.mono hle⟩
  · obtain ⟨p, id, he⟩ := hs.plaintexts m hm
    exact ⟨p, id, he.mono hle⟩

theorem Known.ever (h : Reachable our c) {m : OutgoingMessage} (hk : Known c m) :
    ∃ p id, c.shared.db.Ever (.outbox p id) m := by
  rcases hk with hk | ⟨d, hd, hm⟩
  · exact hk
  · exact (h.released hd).1 m hm

/-- A step of the history is a transition. -/
theorem Reachable.step (h : Reachable our c) (hle : (db.push rows).Le c.shared.db) :
    db.Valid (Trans our) ∧ Trans our db rows :=
  (h.valid.le hle).of_push

/-- **No fork**, in every reachable configuration: two messages that were stored or released for one
position of a sending chain have one wire, and a session record is followed only by the one that a
single ratchet operation makes of it. -/
theorem no_fork (h : Reachable our c) (hcf : CollisionFree c.shared.db)
    (hf : FreshKeys c.shared.db) : NoFork our c where
  position m m' header header' hk hk' hh hh' hdh hn := by
    obtain ⟨p, id, he⟩ := hk.ever h
    obtain ⟨p', id', he'⟩ := hk'.ever h
    have hok := chainsOk h.valid hcf hf
    rw [(hok.unique p p' id id' m m' header header' he he' hh hh' hdh hn).2]
  wires d hd m hm := by
    obtain ⟨p, id, he⟩ := (h.released hd).1 m hm
    exact ⟨p, sentIn_of_ever h.valid he⟩
  plaintexts d hd m hm := by
    obtain ⟨p, id, he⟩ := (h.released hd).2 m hm
    exact ⟨p, acceptedIn_of_ever h.valid he⟩
  generations db rows hle p old new ho hn := by
    obtain ⟨-, ht⟩ := h.step hle
    exact ht.advances (hcf.mono ((Db.le_push _ _).trans hle)) ho hn

/-! A run: a session is created, one message is sent on it, and the same send is made again. -/

namespace OneSend

def ours : Bytes32 := fill 10

def peer : Peer := fill 20

def new : NewSession symbolicPlatform.Key :=
  { handle := 7
    session :=
      { ratchet := .initAlice symbolic (.root 0) (fill 2) (fill 1)
        ad := ours.val ++ peer.val
        peerIdentityPk := peer }
    role := .initiator
    initialOutbound := none
    extra := [] }

def old : SessionRecord symbolicPlatform.Key := newRecord ours new

def encrypted : Outcome SymKey (Header × Bytes) :=
  old.ratchet.encrypt symbolic [7] old.ad (fillNonce 0)

def advanced : SessionRecord symbolicPlatform.Key :=
  { old with generation := 1, ratchet := encrypted.2 }

def wire : Bytes := (encrypted.1.toOption.map wireOf).getD []

def message : OutgoingMessage :=
  { messageId := messageId symbolicPlatform wire, clientMessageId := [1], generation := 1, wire }

/-- What the run writes, the last first. -/
def writes : List (List (Change symbolicPlatform.Key)) :=
  [sendChanges peer peer advanced message, createChanges ours new]

def run : Option (Conf symbolicPlatform) :=
  (system symbolicPlatform ours).runCalls (List.replicate 9 {})
    (Config.init (Device.fresh symbolicPlatform))
    [.createSession 0 new, .send 0 7 [1] [7], .send 0 7 [1] [8]]

theorem run_facts : ∃ c, run = some c ∧ Reachable ours c ∧ c.shared.db = Db.after writes ∧
    c.done.map (fun d => d.res.wires) = [[message], [message], []] := by
  have hs : run.isSome = true := by decide +kernel
  have hdb : run.map (fun c => c.shared.db.entries) = some (Db.after writes).entries := by
    decide +kernel
  have hw : run.map (fun c => c.done.map fun d => d.res.wires) =
      some [[message], [message], []] := by decide +kernel
  obtain ⟨c, hc⟩ := Option.isSome_iff_exists.mp hs
  rw [hc] at hdb hw
  refine ⟨c, hc, ?_, Db.entries_inj (Option.some.inj hdb), Option.some.inj hw⟩
  refine System.Reach.runCalls .refl (fun _ => rfl) (fun call hcall => ?_) hc
  simp only [List.mem_cons, List.not_mem_nil, or_false] at hcall
  rcases hcall with rfl | rfl | rfl
  · exact appOnly_nil
  · trivial
  · trivial

/-- The session records and the messages of the run. -/
theorem ever_session {p : Peer} {rec : SessionRecord symbolicPlatform.Key}
    (h : (Db.after writes).Ever (.session p) rec) : p = peer ∧ (rec = advanced ∨ rec = old) := by
  have h := Db.ever_after h
  simp only [writes, sendChanges, createChanges, List.flatten_cons, List.flatten_nil, new,
    sideChanges, Option.toList_none, List.map_nil, List.filterMap_nil, List.append_nil,
    List.mem_append, List.mem_cons, List.not_mem_nil, or_false] at h
  rcases h with (h | h | h) | (h | h)
  · cases h; exact ⟨rfl, .inl rfl⟩
  · cases h
  · cases h
  · cases h; exact ⟨rfl, .inr rfl⟩
  · cases h

theorem ever_outbox {p : Peer} {id : MessageId} {m : OutgoingMessage}
    (h : (Db.after writes).Ever (.outbox p id) m) : m = message := by
  have h := Db.ever_after h
  simp only [writes, sendChanges, createChanges, List.flatten_cons, List.flatten_nil, new,
    sideChanges, Option.toList_none, List.map_nil, List.filterMap_nil, List.append_nil,
    List.mem_append, List.mem_cons, List.not_mem_nil, or_false] at h
  rcases h with (h | h | h) | (h | h)
  · cases h
  · cases h; rfl
  · cases h
  · cases h
  · cases h

theorem ever_handle {handle : UInt64} {p : Peer} (h : (Db.after writes).Ever (.handle handle) p) :
    handle = 7 ∧ p = peer := by
  have h := Db.ever_after h
  simp only [writes, sendChanges, createChanges, List.flatten_cons, List.flatten_nil, new,
    sideChanges, Option.toList_none, List.map_nil, List.filterMap_nil, List.append_nil,
    List.mem_append, List.mem_cons, List.not_mem_nil, or_false] at h
  rcases h with (h | h | h) | (h | h)
  · cases h
  · cases h
  · cases h
  · cases h
  · cases h; exact ⟨rfl, rfl⟩

theorem collisionFree : CollisionFree (Db.after writes) where
  records p rec rec' h h' hd := by
    obtain ⟨-, rfl | rfl⟩ := ever_session h <;> obtain ⟨-, rfl | rfl⟩ := ever_session h'
    · rfl
    · exact absurd hd (by decide +kernel)
    · exact absurd hd (by decide +kernel)
    · rfl
  wires p q id id' m m' h h' _ := by rw [ever_outbox h, ever_outbox h']

theorem freshKeys : FreshKeys (Db.after writes) := by
  intro db₀ rows hle p rec key hr hkey hs q rec' he
  rcases Db.le_push_cases hle with heq | hle
  · -- The send keeps the peer key.
    obtain ⟨rfl, rfl⟩ := Db.push_inj heq
    obtain ⟨rfl, hrec⟩ := ever_session (Db.ever_push.mpr (.inl hr))
    have hl : (Db.after [createChanges ours new]).rows.lookup (.session peer) = some old :=
      Rows.lookup_applyAll_head _ _ (by simp [new, sideChanges])
    refine absurd ?_ (hs old hl)
    rcases hrec with rfl | rfl <;> rfl
  · rcases Db.le_push_cases hle with heq | hle
    · obtain ⟨rfl, -⟩ := Db.push_inj heq
      exact (Db.not_ever_empty he).elim
    · cases Db.le_empty hle

end OneSend

/-- After the run the message is known, and it is the only one at its position. -/
theorem no_fork_oneSend : ∃ c : Conf symbolicPlatform, Reachable OneSend.ours c ∧ Known c OneSend.message ∧
    NoFork OneSend.ours c := by
  obtain ⟨c, -, hr, hdb, hw⟩ := OneSend.run_facts
  refine ⟨c, hr, .inr ?_, no_fork hr (hdb ▸ OneSend.collisionFree) (hdb ▸ OneSend.freshKeys)⟩
  have hm : [OneSend.message] ∈ c.done.map fun d => d.res.wires := hw ▸ List.mem_cons_self
  obtain ⟨d, hd, hdw⟩ := List.mem_map.mp hm
  exact ⟨d, hd, hdw ▸ List.mem_cons_self⟩

/-! ## Each logical message is encrypted once -/

/-- What a repeated `send` reports of the message `m`: its wire while it is pending, else its id; or
the store failed. -/
def Repeats (m : OutgoingMessage) (r : Except MessagingError SendOutcome) : Prop :=
  (∃ m', r = .ok (.alreadyPending m') ∧ m'.wire = m.wire ∧ m'.messageId = m.messageId) ∨
    r = .ok (.alreadyAcknowledged m.messageId) ∨ r = .ok (.abandoned m.messageId) ∨
      ∃ f, r = .error (.store f)

/-- What is stored of a sent message can be read. -/
theorem SentIn.decode {p : Peer} {m : OutgoingMessage} (h : SentIn our db p m) :
    decodeOutbox P m = .ok m := by
  obtain ⟨db₀, rows, handle, clientId, plaintext, q, old, new, -, hs⟩ := h
  have hm := hs.message
  obtain ⟨h1, h2⟩ := hs.validId
  unfold decodeOutbox
  rw [if_neg]
  rw [hm]
  simp [h1, Nat.not_lt.mpr h2]

/-- What the records say of a logical message that was sent before. -/
theorem PriorAt.repeats (hv : db.Valid (Trans our)) (hcf : CollisionFree db) {p : Peer}
    {id : MessageId} {m : OutgoingMessage} {o : SendOutcome} (hm : db.Ever (.outbox p id) m)
    (h : PriorAt db.rows p m.clientMessageId o) : Repeats m (.ok o) := by
  have hok := messagesOk hv
  obtain ⟨hid, hw⟩ := hok.outbox_id p id m hm
  obtain ⟨r, hr, hrid⟩ := hok.ever_sendid p id m hm
  cases h with
  | pending id' m' sent outbox wire =>
    obtain rfl := Option.some.inj (hr.symm.trans sent)
    obtain rfl : id' = id := hrid
    obtain ⟨hid', hw'⟩ := hok.outbox_id p id' m' (Db.ever_now outbox)
    refine .inl ⟨m', rfl, ?_, hid'.trans hid.symm⟩
    exact hcf.wires p p id' id' m' m (Db.ever_now outbox) hm (hw'.trans hw.symm)
  | acknowledged id' sent outbox =>
    obtain rfl := Option.some.inj (hr.symm.trans sent)
    obtain rfl : id' = id := hrid
    exact .inr (.inl (by rw [hid]))
  | abandoned id' abandoned =>
    obtain rfl := Option.some.inj (hr.symm.trans abandoned)
    obtain rfl : id' = id := hrid
    exact .inr (.inr (.inl (by rw [hid])))

theorem PriorResult.repeats (hv : db.Valid (Trans our)) (hcf : CollisionFree db) {p : Peer}
    {id : MessageId} {m : OutgoingMessage} {r : Except MessagingError (Option SendOutcome)}
    (hm : db.Ever (.outbox p id) m) (h : PriorResult db.rows p m.clientMessageId r) :
    (∃ o, r = .ok (some o) ∧ Repeats m (.ok o)) ∨ ∃ f, r = .error (.store f) := by
  cases h with
  | prior o ho => exact .inl ⟨o, rfl, ho.repeats hv hcf hm⟩
  | none hn =>
    obtain ⟨r, hr, -⟩ := (messagesOk hv).ever_sendid p id m hm
    exact nomatch hn.symm.trans hr
  | badOutbox id' m' outbox e bad =>
    rw [(sentIn_of_ever hv (Db.ever_now outbox)).decode] at bad
    cases bad
  | fault f => exact .inr ⟨f, rfl⟩

/-- A `send` of a logical message that was sent before writes nothing. -/
theorem SendPost.repeats {handle : UInt64} {clientId plaintext : Bytes} {p : Peer} {id : MessageId}
    {m : OutgoingMessage} {tr tr' : Trace P.Key} {r : Except MessagingError SendOutcome}
    (hv : db'.Valid (Trans our)) (hcf : CollisionFree db') (hm : db.Ever (.outbox p id) m)
    (hc : m.clientMessageId = clientId)
    (h : SendPost our handle clientId plaintext p tr db r tr' db') :
    Repeats m r ∧ Looked tr db tr' db' := by
  subst hc
  have hsent : ∀ {db₁ : Db P.Key}, db.Le db₁ → db₁.Le db' →
      db₁.rows.lookup (.sendid p m.clientMessageId) ≠ none := fun hle hle' hn => by
    obtain ⟨r, hr, -⟩ := (messagesOk (hv.le hle')).ever_sendid p id m (hm.mono hle)
    exact nomatch hn.symm.trans hr
  cases h with
  | prior looked db₁ le le' o h hr =>
    subst hr
    exact ⟨h.repeats (hv.le le') (hcf.mono le') (hm.mono le), looked⟩
  | unread looked db₁ le le' e h hr =>
    subst hr
    rcases h.repeats (hv.le le') (hcf.mono le') (hm.mono le) with ⟨o, ho, -⟩ | ⟨f, hf⟩
    · cases ho
    · obtain rfl := Except.error.inj hf
      exact ⟨.inr (.inr (.inr ⟨f, rfl⟩)), looked⟩
  | refused looked db₁ le le' new e hr => exact absurd new (hsent le le')
  | wrote db₁ rows q old new m' le step le' hr =>
    exact absurd step.noSendid (hsent le ((Db.le_push _ _).trans le'))

/-- `m` of `p` is waiting in the inbox, as it was accepted. -/
def Waiting (rows : Rows P.Key) (p : Peer) (m : IncomingMessage) : Prop :=
  rows.lookup (.inbox p m.messageId) = some m ∧ rows.lookup (.seen p m.messageId) = none

/-- The message `id` of `p` was handed over. -/
def HandedOver (rows : Rows P.Key) (p : Peer) (id : MessageId) : Prop :=
  rows.lookup (.inbox p id) = none ∧ rows.lookup (.seen p id) = some id

/-- An acknowledgement of `id` was committed between `db` and `db'`. -/
def AckedBetween (db db' : Db P.Key) (p : Peer) (id : MessageId) : Prop :=
  ∃ db₁ rows handle, db.Le db₁ ∧ (Db.push db₁ rows).Le db' ∧ AckInTx handle id db₁ p rows

theorem AckedBetween.mono {db₀ : Db P.Key} {p : Peer} {id : MessageId}
    (h : AckedBetween db₀ db p id) (hle : db.Le db') : AckedBetween db₀ db' p id := by
  obtain ⟨db₁, rows, handle, h1, h2, h3⟩ := h
  exact ⟨db₁, rows, handle, h1, h2.trans hle, h3⟩

theorem AcceptTx.unaccepted {p : Peer} {m : IncomingMessage} (h : AcceptTx our db p m rows) :
    ¬ Accepted db.rows p m.messageId := by
  have h12 : db.rows.lookup (.inbox p m.messageId) = none ∧
      db.rows.lookup (.seen p m.messageId) = none := by
    cases h with
    | receive handle wire old new h => exact ⟨h.noInbox, h.noSeen⟩
    | promote first wire new h hp =>
      subst hp
      exact ⟨h.noInbox, h.noSeen⟩
  rintro (h | h)
  · rw [h12.1] at h
    cases h
  · rw [h12.2] at h
    cases h

theorem AcceptTx.messages {p : Peer} {m : IncomingMessage} (h : AcceptTx our db p m rows) :
    MessagesAfter db rows [⟨.inbox p m.messageId, some m⟩] := by
  cases h with
  | receive handle wire old new h => exact messagesAfter_of_eq h.eq
  | promote first wire new h hp =>
    subst hp
    intro k hk
    rw [h.eq, lookup_promoteChanges new m h.extra k (Key.isMessenger_of_isMessage hk)]
    exact Rows.lookup_applyAll_filter Key.isMessage hk _ _

/-- After the commit that accepts it, a message waits. -/
theorem AcceptTx.waiting {p : Peer} {m : IncomingMessage} (h : AcceptTx our db p m rows) :
    Waiting rows p m := by
  have hn : db.rows.lookup (.seen p m.messageId) = none := by
    by_contra hne
    exact h.unaccepted (.inr (Option.isSome_iff_ne_none.mpr hne))
  exact ⟨h.messages.head rfl (by simp), (h.messages.ne rfl (by simp)).trans hn⟩

/-- One step keeps a waiting message, or it is the acknowledgement. -/
theorem Trans.waiting (ht : Trans our db rows) (hv : db.Valid (Trans our)) {p : Peer}
    {m : IncomingMessage} (h : Waiting db.rows p m) :
    Waiting rows p m ∨ (HandedOver rows p m.messageId ∧ ∃ handle, AckInTx handle m.messageId db p rows) := by
  have hok := (messagesOk hv).push ht.messages
  rcases ht.messages.inbox h.1 with hi | ⟨hi, hs, htx⟩
  · exact .inl ⟨hi, hok.exclusive p m.messageId (by rw [Db.push_rows, hi]; rfl)⟩
  · exact .inr ⟨⟨hi, hs⟩, htx⟩

theorem HandedOver.push {p : Peer} {id : MessageId} (ht : Trans our db rows)
    (hv : db.Valid (Trans our)) (h : HandedOver db.rows p id) : HandedOver rows p id := by
  have hok := (messagesOk hv).push ht.messages
  have hs := ht.messages.seen (messagesOk hv) h.2
  refine ⟨?_, hs⟩
  by_contra hne
  have hn := hok.exclusive p id (Option.isSome_iff_ne_none.mpr hne)
  exact nomatch hn.symm.trans hs

/-- From its acceptance on a message waits, until it is acknowledged. -/
theorem kept_of_valid (h : db'.Valid (Trans our)) {p : Peer} {m : IncomingMessage}
    (hw : Waiting db.rows p m) (hle : db.Le db') :
    Waiting db'.rows p m ∨ (HandedOver db'.rows p m.messageId ∧ AckedBetween db db' p m.messageId) := by
  induction h with
  | empty =>
    obtain rfl := Db.le_empty hle
    exact .inl hw
  | push hv ht ih =>
    rcases Db.le_push_cases hle with rfl | hle
    · exact .inl hw
    · rcases ih hle with hw | ⟨hh, ha⟩
      · rcases ht.waiting hv hw with hw | ⟨hh, handle, htx⟩
        · exact .inl hw
        · exact .inr ⟨hh, _, _, handle, hle, Db.Le.refl _, htx⟩
      · exact .inr ⟨hh.push ht hv, ha.mono (Db.le_push _ _)⟩

/-- A message that was accepted is found again, unless the store fails. -/
theorem DuplicateResult.again {db₀ : Db P.Key} (hv : db'.Valid (Trans our)) (hle : db₀.Le db)
    {p : Peer} {id : MessageId} {d : Except MessagingError (Option Received)}
    (ha : Accepted db₀.rows p id) (h : DuplicateResult p id db db' d) :
    (∃ m db₁, d = .ok (some (.duplicate id (some m))) ∧ db.Le db₁ ∧ db₁.Le db' ∧
        Waiting db₁.rows p m ∧ m.messageId = id) ∨
      (d = .ok (some (.duplicate id none)) ∧ HandedOver db'.rows p id) ∨
      ∃ f, d = .error (.store f) := by
  have hok := messagesOk hv
  -- With no inbox record at `db₁` the message is among the seen ones from then on.
  have seen : ∀ {db₁ : Db P.Key}, db.Le db₁ → db₁.Le db' → db₁.rows.lookup (.inbox p id) = none →
      HandedOver db'.rows p id := by
    intro db₁ h1 h2 hn
    have hv₁ := hv.le h2
    rcases accepted_stable hv₁ (hle.trans h1) ha with hi | hs
    · rw [hn] at hi
      cases hi
    · obtain ⟨x, hx⟩ := Option.isSome_iff_exists.mp hs
      rw [(messagesOk hv₁).seen_id p id x hx] at hx
      exact hv.stable (P := fun db => HandedOver db.rows p id)
        (fun _ _ hv ht hh => hh.push ht hv) h2 ⟨hn, hx⟩
  cases h with
  | undelivered m db₁ le le' inbox hid =>
    have hex := (messagesOk (hv.le le')).exclusive p id (by rw [inbox]; rfl)
    subst hid
    exact .inl ⟨m, db₁, rfl, le, le', ⟨inbox, hex⟩, rfl⟩
  | delivered db₁ le le' inbox hs => exact .inr (.inl ⟨rfl, seen le le' inbox⟩)
  | new db₁ le le' inbox hn => exact nomatch hn.symm.trans (seen le le' inbox).2
  | badInbox m inbox hid => exact absurd (hok.inbox_id p id m inbox) hid
  | badSeen x hs hid => exact absurd (hok.seen_id p id x hs) hid
  | fault f => exact .inr (.inr ⟨f, rfl⟩)

/-- A peer with an accepted message has a session that can be read. -/
theorem LoadResult.again (hv : db.Valid (Trans our)) (hcf : CollisionFree db) {handle : UInt64}
    {p : Peer} {id : MessageId} {e : MessagingError} (ha : Accepted db.rows p id)
    (h : LoadResult our handle p db (.error e)) : ∃ f, e = .store f := by
  obtain ⟨rec, hr, -⟩ := accepted_confirmed hv hcf ha
  cases h with
  | missing hn => exact nomatch hn.symm.trans hr
  | invalid old found unbound e => exact absurd (ever_bound hv (Db.ever_now found)) unbound
  | fault f => exact ⟨f, rfl⟩

theorem ReceivePost.le {handle : UInt64} {wire : Bytes} {p : Peer} {tr tr' : Trace P.Key}
    {r : Except MessagingError Received} (h : ReceivePost our handle wire p tr db r tr' db') :
    db.Le db' := by
  cases h with
  | unusable looked => exact looked.le
  | checked looked => exact looked.le
  | refused looked => exact looked.le
  | wrote db₁ rows old new m le step le' => exact le.trans ((Db.le_push _ _).trans le')

theorem ReceivePost.again {handle : UInt64} {wire : Bytes} {p : Peer} {tr tr' : Trace P.Key}
    {r : Except MessagingError Received} (hv : db'.Valid (Trans our)) (hcf : CollisionFree db')
    (ha : Accepted db.rows p (messageId P wire))
    (h : ReceivePost our handle wire p tr db r tr' db') :
    ((∃ m db₁, r = .ok (.duplicate (messageId P wire) (some m)) ∧ db.Le db₁ ∧ db₁.Le db' ∧
        Waiting db₁.rows p m ∧ m.messageId = messageId P wire) ∨
      (∃ db₁, r = .ok (.duplicate (messageId P wire) none) ∧ db.Le db₁ ∧ db₁.Le db' ∧
        HandedOver db₁.rows p (messageId P wire)) ∨
      ∃ f, r = .error (.store f)) ∧ Looked tr db tr' db' := by
  cases h with
  | unusable looked db₁ le le' e h hr =>
    obtain ⟨f, rfl⟩ := h.again (hv.le le') (hcf.mono le') (accepted_stable (hv.le le') le ha)
    exact ⟨.inr (.inr ⟨f, hr⟩), looked⟩
  | checked looked db₁ le h =>
    refine ⟨?_, looked⟩
    rcases h.again hv le ha with ⟨m, db₂, hd, h1, h2, h3, h4⟩ | ⟨hd, hh⟩ | ⟨f, hd⟩
    · cases r with
      | ok d => cases hd; exact .inl ⟨m, db₂, rfl, le.trans h1, h2, h3, h4⟩
      | error e => cases hd
    · cases r with
      | ok d => cases hd; exact .inr (.inl ⟨db', rfl, looked.le, Db.Le.refl _, hh⟩)
      | error e => cases hd
    · cases r with
      | ok d => cases hd
      | error e => cases hd; exact .inr (.inr ⟨f, rfl⟩)
  | refused looked db₁ db₂ le le' new e hr =>
    rcases new.again (hv.le le') le ha with ⟨m, db₂, hd, -⟩ | ⟨hd, -⟩ | ⟨f, hd⟩ <;> cases hd
  | wrote db₁ rows old new m le step le' hr =>
    have hle' := (Db.le_push db₁ rows).trans le'
    have hid : m.messageId = messageId P wire := by rw [step.message]
    exact absurd (hid ▸ accepted_stable (hv.le hle') le ha)
      (AcceptTx.unaccepted (.receive _ _ _ _ step))

namespace OneReceive

def ours : Bytes32 := OneSend.peer

def peer : Peer := OneSend.ours

def handshake : ProvisionalHandshake := ⟨peer, [9]⟩

def first : FirstContact symbolicPlatform.Key :=
  { handle := 8
    session :=
      { ratchet := .initBob symbolic (.root 0) (fill 2)
        ad := peer.val ++ ours.val
        peerIdentityPk := peer }
    provisional := handshake
    extra := [] }

def candidate : SessionRecord symbolicPlatform.Key := candidateRecord ours first

def decrypted : Outcome SymKey Bytes :=
  match splitWire OneSend.wire with
  | .ok (header, ciphertext) =>
    candidate.ratchet.decrypt symbolic header ciphertext candidate.ad (fill 4)
  | .error _ => (.ok [], candidate.ratchet)

def advanced : SessionRecord symbolicPlatform.Key :=
  { candidate with generation := 1, ratchet := decrypted.2 }

def message : IncomingMessage :=
  { messageId := messageId symbolicPlatform OneSend.wire, generation := 1, plaintext := [7] }

def writes : List (List (Change symbolicPlatform.Key)) :=
  [promoteChanges first advanced message, [⟨.provisional 8, some handshake⟩]]

def run : Option (Conf symbolicPlatform) :=
  (system symbolicPlatform ours).runCalls (List.replicate 9 { secret := fill 4 })
    (Config.init (Device.fresh symbolicPlatform))
    [.recordProvisionalHandshake 0 8 handshake ⟨.handle 8, peer⟩, .acceptFirstMessage 0 first OneSend.wire,
      .receive 0 8 OneSend.wire]

theorem run_facts : ∃ c, run = some c ∧ Reachable ours c ∧ c.shared.db = Db.after writes ∧
    c.done.map (fun d => d.res.plaintexts) = [[message], [message], []] := by
  have hs : run.isSome = true := by decide +kernel
  have hdb : run.map (fun c => c.shared.db.entries) = some (Db.after writes).entries := by
    decide +kernel
  have hw : run.map (fun c => c.done.map fun d => d.res.plaintexts) =
      some [[message], [message], []] := by decide +kernel
  obtain ⟨c, hc⟩ := Option.isSome_iff_exists.mp hs
  rw [hc] at hdb hw
  refine ⟨c, hc, ?_, Db.entries_inj (Option.some.inj hdb), Option.some.inj hw⟩
  refine System.Reach.runCalls .refl (fun _ => rfl) (fun call hcall => ?_) hc
  simp only [List.mem_cons, List.not_mem_nil, or_false] at hcall
  rcases hcall with rfl | rfl | rfl
  · trivial
  · exact appOnly_nil
  · trivial

theorem collisionFree : CollisionFree (Db.after writes) := by
  refine ⟨fun p rec rec' h h' _ => ?_, fun p q id id' m m' h => ?_⟩
  · have h := Db.ever_after h
    have h' := Db.ever_after h'
    simp only [writes, promoteChanges, first, sideChanges, List.flatten_cons, List.flatten_nil,
      List.filterMap_nil, List.append_nil, List.mem_append, List.mem_cons, List.not_mem_nil,
      or_false] at h h'
    rcases h with (h | h | h | h) | h <;> cases h
    rcases h' with (h' | h' | h' | h') | h' <;> cases h'
    rfl
  · have h := Db.ever_after h
    simp only [writes, promoteChanges, first, sideChanges, List.flatten_cons, List.flatten_nil,
      List.filterMap_nil, List.append_nil, List.mem_append, List.mem_cons, List.not_mem_nil,
      or_false] at h
    rcases h with (h | h | h | h) | h <;> cases h

end OneReceive

/-- `wire` can be decrypted on the stored session that `handle` names. -/
def Authentic (our : Bytes32) (handle : UInt64) (wire : Bytes) (db : Db P.Key) : Prop :=
  ∃ peer old new fresh plaintext, Loaded our db handle peer old ∧ Unchanged db peer old ∧
    Decrypts old new wire fresh plaintext

/-- `wire` can be decrypted on the unconfirmed session of a first message. -/
def AuthenticFirst (our : Bytes32) (first : FirstContact P.Key) (wire : Bytes) : Prop :=
  ∃ new fresh plaintext, Decrypts (candidateRecord our first) new wire fresh plaintext

/-- What a call was given that must authenticate before the call writes anything. -/
def MayWrite (our : Bytes32) : Call P.Key → Db P.Key → Prop
  | .receive _ handle wire => Authentic our handle wire
  | .acceptFirstMessage _ first wire => fun db =>
    AuthenticFirst our first wire ∨ Authentic our first.handle wire db
  | _ => fun _ => True

/-- Forged input changes no ratchet, no later output and no record. -/
structure Inert (P : Platform) (our : Bytes32) : Prop where
  state : ∀ r : DoubleRatchet P.Key, r.Reached P.toCrypto → ∀ header ct ad fresh a r',
    r.decrypt P.toCrypto header ct ad fresh = (.error a, r') → (∃ e, a = .error e) ∧ r' = r
  runs : ∀ r : DoubleRatchet P.Key, r.Reached P.toCrypto → ∀ evs, r.ForgedFail P.toCrypto evs →
    r.replay P.toCrypto (DoubleRatchet.genuine evs) = r.replay P.toCrypto evs
  running : ∀ c : Conf P, Reachable our c → ∀ i t, c.threads i = some t → ∀ x ∈ dbs t.trace,
    ¬ MayWrite our t.call x.1 → x.2 = x.1
  returned : ∀ c : Conf P, Reachable our c → ∀ d ∈ c.done, ∀ x ∈ dbs d.trace,
    ¬ MayWrite our d.call x.1 → x.2 = x.1

theorem ReceiveTx.authentic {handle : UInt64} {wire : Bytes} {peer : Peer}
    {old new : SessionRecord P.Key} {m : IncomingMessage}
    (h : ReceiveTx our handle wire db peer old new m rows) : Authentic our handle wire db := by
  obtain ⟨fresh, hd⟩ := h.decrypts
  exact ⟨peer, old, new, fresh, m.plaintext, h.loaded, h.unchanged, hd⟩

/-- A write of a receiving call is a commit of what authenticated. -/
theorem Moves.mayWrite {call : Call P.Key} (h : Moves (Tx our call) db db')
    (hn : ¬ MayWrite our call db) : db' = db := by
  rcases h with h | ⟨rows, ht, -⟩
  · exact h
  · refine absurd ?_ hn
    cases call with
    | receive i handle wire =>
      obtain ⟨peer, old, new, m, ht⟩ := ht
      exact ht.authentic
    | acceptFirstMessage i first wire =>
      rcases ht with ⟨new, m, ht⟩ | ⟨peer, old, new, m, ht⟩
      · obtain ⟨fresh, hd⟩ := ht.decrypts
        exact .inl ⟨new, fresh, m.plaintext, hd⟩
      · exact .inr ht.authentic
    | _ => trivial

/-- **Forged input is inert**: a decrypt that fails leaves the ratchet as it was, so such calls can be
dropped from any run of it; and a call whose input does not authenticate writes nothing. -/
theorem forged_inert (P : Platform) (our : Bytes32) : Inert P our where
  state r hr header ct ad fresh a r' h := hr.decrypt_error h
  runs r hr evs h := DoubleRatchet.replay_genuine hr h
  running c hc i t ht x hx hn := by
    obtain ⟨y, hy, rfl⟩ := List.mem_map.mp hx
    exact Moves.mayWrite (hc.holds.acted i t ht y hy).1 hn
  returned c hc d hd x hx hn := by
    obtain ⟨y, hy, rfl⟩ := List.mem_map.mp hx
    exact Moves.mayWrite (hc.holds.did d hd y hy).1 hn

end Messenger

end Arcium
