import Arcium.Protocol.SessionInv

/-!
# No ratchet position is used twice

A sending chain is a DH key of ours and the counter of the messages sent under it. `ChainsOk`: the
counter of a session's chain is above every message ever stored under its key, and no two sessions
share a key; so two messages under one key and one number are one message (`ChainsOk.unique`).

It holds of every history whose DH keys were fresh when their chains started (`FreshKeys`) and whose
records SHA-256 tells apart (`CollisionFree`).
-/

namespace Arcium

namespace Messenger

variable {P : Platform} {our : Bytes32} {db db' : Db P.Key} {rows : Rows P.Key}

/-- The public key of the sending chain of a session, if it has one. -/
def sendingKey (rec : SessionRecord P.Key) : Option PublicKey :=
  rec.ratchet.cks.map fun _ => rec.ratchet.ourDhPublic P.toCrypto

/-- `new` starts a sending chain: there was no session before, or it had another peer key. -/
def Starts (db : Db P.Key) (p : Peer) (new : SessionRecord P.Key) : Prop :=
  ∀ old : SessionRecord P.Key, db.rows.lookup (.session p) = some old →
    old.ratchet.dhr ≠ new.ratchet.dhr

/-- Fresh DH secrets are distinct: whenever a session of this history started a sending chain, no
session had used its key before. -/
def FreshKeys (db : Db P.Key) : Prop :=
  ∀ (db₀ : Db P.Key) (rows : Rows P.Key), (db₀.push rows).Le db → ∀ (p : Peer) (new : SessionRecord P.Key) (key : PublicKey),
    rows.lookup (.session p) = some new → sendingKey new = some key → Starts db₀ p new →
      ∀ (q : Peer) (rec : SessionRecord P.Key), db₀.Ever (.session q) rec → sendingKey rec ≠ some key

theorem FreshKeys.mono (h : FreshKeys db') (hle : db.Le db') : FreshKeys db :=
  fun db₀ rows h₀ => h db₀ rows (h₀.trans hle)

/-- The sending chain after a step is the chain before it, at the same number or, after an
encryption, the next one; or it is a new chain. -/
inductive ChainStep (db : Db P.Key) (rows : Rows P.Key) (p : Peer) : Prop
  | same (old new : SessionRecord P.Key) (before : db.rows.lookup (.session p) = some old)
      (after : rows.lookup (.session p) = some new) (key : sendingKey new = sendingKey old)
      (ns : new.ratchet.ns = old.ratchet.ns)
  | next (old new : SessionRecord P.Key) (before : db.rows.lookup (.session p) = some old)
      (after : rows.lookup (.session p) = some new) (key : sendingKey new = sendingKey old)
      (room : old.ratchet.ns ≠ 0xFFFFFFFF) (ns : new.ratchet.ns = old.ratchet.ns + 1)
  | started (new : SessionRecord P.Key) (after : rows.lookup (.session p) = some new)
      (starts : Starts db p new)
  | ended (after : rows.lookup (.session p) = none)

theorem SessionChange.chain {p : Peer} (hc : SessionChange our db rows p)
    (hcf : CollisionFree db) : ChainStep db rows p := by
  cases hc with
  | same h =>
    cases hr : rows.lookup (.session p) with
    | none => exact .ended hr
    | some rec => exact .same rec rec (h.symm.trans hr) hr rfl rfl
  | created new before after generation bound =>
    exact .started new after fun old ho => nomatch before.symm.trans ho
  | promoted first wire new m h hp before after =>
    exact .started new after fun old ho => nomatch before.symm.trans ho
  | sent handle clientId plaintext dest old new m h after =>
    have hold := h.unchanged.eq hcf h.loaded.ever
    obtain ⟨nonce, out, he, -⟩ := h.encrypts
    obtain ⟨ck, hck, -, hr, -⟩ := DoubleRatchet.encrypt_ok he
    refine .next old new hold after ?_ h.loaded.bound.ratchet.ns (by rw [hr]; rfl)
    simp [sendingKey, hr, DoubleRatchet.advanceSend, hck, DoubleRatchet.ourDhPublic]
  | received handle wire old new m h after =>
    have hold := h.unchanged.eq hcf h.loaded.ever
    obtain ⟨fresh, header, ciphertext, -, hd⟩ := h.decrypts
    rcases DoubleRatchet.decrypt_sending hd with ⟨h1, h2, h3, h4⟩ | ⟨h1, h2, h3, h4, h5⟩
    · exact .same old new hold after (by simp [sendingKey, h1, h3, DoubleRatchet.ourDhPublic]) h4
    · refine .started new after fun old' ho => ?_
      obtain rfl := Option.some.inj (hold.symm.trans ho)
      rw [h2]
      exact h1
  | ended old ever unchanged unconfirmed after => exact .ended after

/-! ## The invariant -/

/-- The header of a stored message. -/
def HasHeader (m : OutgoingMessage) (header : Header) : Prop :=
  ∃ ciphertext, splitWire m.wire = .ok (header, ciphertext)

theorem HasHeader.unique {m : OutgoingMessage} {h h' : Header} (h1 : HasHeader m h)
    (h2 : HasHeader m h') : h = h' := by
  obtain ⟨c, h1⟩ := h1
  obtain ⟨c', h2⟩ := h2
  exact congrArg Prod.fst (Except.ok.inj (h1.symm.trans h2))

theorem splitWire_wireOf (out : Header × Bytes) : splitWire (wireOf out) = .ok out := by
  have hl : out.1.toBytes.length = headerSize := out.1.toBytes_length
  have ht : (wireOf out).take headerSize = out.1.toBytes := List.take_left' hl
  have hd : (wireOf out).drop headerSize = out.2 := List.drop_left' hl
  have hf := out.1.fromBytes_toBytes []
  rw [List.append_nil] at hf
  simp only [splitWire, ht, hd, hf]
  rw [if_neg (by simp [wireOf, hl])]

structure ChainsOk (db : Db P.Key) : Prop where
  /-- The key of a stored message was the key of a session. -/
  used : ∀ p id m header, db.Ever (.outbox p id) m → HasHeader m header →
    ∃ q rec, db.Ever (.session q) rec ∧ sendingKey rec = some header.dh
  /-- A session's counter is above every message stored under its key. -/
  below : ∀ p id m header q (rec : SessionRecord P.Key), db.Ever (.outbox p id) m →
    HasHeader m header → db.rows.lookup (.session q) = some rec →
      sendingKey rec = some header.dh → header.n < rec.ratchet.ns
  /-- No two sessions send under one key. -/
  apart : ∀ q q' (rec rec' : SessionRecord P.Key) key, db.rows.lookup (.session q) = some rec →
    db.rows.lookup (.session q') = some rec' → sendingKey rec = some key →
      sendingKey rec' = some key → q = q'
  /-- One key and one number, one message. -/
  unique : ∀ p p' id id' m m' header header', db.Ever (.outbox p id) m →
    db.Ever (.outbox p' id') m' → HasHeader m header → HasHeader m' header' →
      header.dh = header'.dh → header.n = header'.n → p = p' ∧ m = m'

/-- What a send puts in the outbox: a message at the position of the session it advances. -/
theorem SendTx.position {handle : UInt64} {clientId plaintext : Bytes} {p q : Peer}
    {old new : SessionRecord P.Key} {m : OutgoingMessage}
    (h : SendTx our handle clientId plaintext db p q old new m rows) :
    ∃ header, HasHeader m header ∧ sendingKey old = some header.dh ∧ header.n = old.ratchet.ns := by
  obtain ⟨nonce, out, he, hw⟩ := h.encrypts
  obtain ⟨ck, hck, ho, -, -⟩ := DoubleRatchet.encrypt_ok he
  refine ⟨out.1, ⟨out.2, by rw [hw, splitWire_wireOf]⟩, ?_, by rw [ho]; rfl⟩
  simp [sendingKey, hck, ho, DoubleRatchet.nextHeader]

/-- The messages after a send: those before, and the new one. -/
theorem SendTx.outbox {handle : UInt64} {clientId plaintext : Bytes} {p q : Peer}
    {old new : SessionRecord P.Key} {m : OutgoingMessage}
    (h : SendTx our handle clientId plaintext db p q old new m rows) {p' : Peer} {id : MessageId}
    {m' : OutgoingMessage} (hm : rows.lookup (.outbox p' id) = some m') :
    db.rows.lookup (.outbox p' id) = some m' ∨ (p' = p ∧ m' = m) := by
  have ha := messagesAfter_of_eq h.eq
  by_cases hk : Key.outbox p' id = .outbox p m.messageId
  · cases hk
    exact .inr ⟨rfl, Option.some.inj (hm.symm.trans (ha.head rfl (by simp)))⟩
  · exact .inl ((ha.ne rfl (by simpa [sendChanges, Key.isMessage] using hk)).symm.trans hm)

/-- The messages ever stored after a step: those before, and the one that was sent, if any. -/
theorem Trans.outbox_ever (ht : Trans our db rows) :
    (∀ p id m, (db.push rows).Ever (.outbox p id) m → db.Ever (.outbox p id) m) ∨
      ∃ p m handle clientId plaintext q old new,
        SendTx our handle clientId plaintext db p q old new m rows ∧
        ∀ p' id m', (db.push rows).Ever (.outbox p' id) m' →
          db.Ever (.outbox p' id) m' ∨ (p' = p ∧ m' = m) := by
  by_cases hn : ∀ p id m, rows.lookup (.outbox p id) = some m → db.rows.lookup (.outbox p id) = some m
  · refine .inl fun p id m h => ?_
    rcases Db.ever_push.mp h with h | h
    · exact Db.ever_now (hn p id m h)
    · exact h
  · push Not at hn
    obtain ⟨p, id, m, hm, hne⟩ := hn
    rcases ht.messages.outbox hm with h | ⟨-, -, -, -, handle, clientId, plaintext, q, old, new, h⟩
    · exact absurd h hne
    · refine .inr ⟨p, m, handle, clientId, plaintext, q, old, new, h, fun p' id' m' h' => ?_⟩
      rcases Db.ever_push.mp h' with h' | h'
      · exact (h.outbox h').imp_left Db.ever_now
      · exact .inl h'

/-- A key that was in use before a step is the key of a session after it only if the session had it
before. -/
theorem Trans.key_before (ht : Trans our db rows) (hcf : CollisionFree db)
    (hf : FreshKeys (db.push rows)) {q : Peer} {rec : SessionRecord P.Key} {key : PublicKey}
    (hr : rows.lookup (.session q) = some rec) (hkey : sendingKey rec = some key)
    (hused : ∃ q₀ rec₀, db.Ever (.session q₀) rec₀ ∧ sendingKey rec₀ = some key) :
    ∃ old : SessionRecord P.Key, db.rows.lookup (.session q) = some old ∧
      sendingKey old = some key ∧ old.ratchet.ns ≤ rec.ratchet.ns := by
  cases (ht.session q).chain hcf with
  | same old new before after hk ns =>
    obtain rfl := Option.some.inj (hr.symm.trans after)
    exact ⟨old, before, hk ▸ hkey, ns ▸ UInt32.le_refl _⟩
  | next old new before after hk room ns =>
    obtain rfl := Option.some.inj (hr.symm.trans after)
    refine ⟨old, before, hk ▸ hkey, ?_⟩
    rw [ns]
    grind
  | started new after starts =>
    obtain rfl := Option.some.inj (hr.symm.trans after)
    obtain ⟨q₀, rec₀, h₀, hk₀⟩ := hused
    exact absurd hk₀ (hf db rows (Db.Le.refl _) q rec key hr hkey starts q₀ rec₀ h₀)
  | ended after =>
    rw [hr] at after
    cases after

/-- Two sessions do not come to share a key. -/
theorem ChainsOk.apart_push (hk : ChainsOk db) (ht : Trans our db rows) (hcf : CollisionFree db)
    (hf : FreshKeys (db.push rows)) {q q' : Peer} {rec rec' : SessionRecord P.Key} {key : PublicKey}
    (hr : rows.lookup (.session q) = some rec) (hr' : rows.lookup (.session q') = some rec')
    (hkey : sendingKey rec = some key) (hkey' : sendingKey rec' = some key) : q = q' := by
  by_contra hne
  obtain ⟨p, -, hother⟩ := ht.one_session
  -- One of the two is as it was before, so the key was in use.
  have hused : ∃ q₀ rec₀, db.Ever (.session q₀) rec₀ ∧ sendingKey rec₀ = some key := by
    by_cases hq : q = p
    · exact ⟨q', rec', Db.ever_now ((hother q' fun h => hne (hq.trans h.symm)).symm.trans hr'), hkey'⟩
    · exact ⟨q, rec, Db.ever_now ((hother q hq).symm.trans hr), hkey⟩
  obtain ⟨old, ho, hko, -⟩ := ht.key_before hcf hf hr hkey hused
  obtain ⟨old', ho', hko', -⟩ := ht.key_before hcf hf hr' hkey' hused
  exact hne (hk.apart q q' old old' key ho ho' hko hko')

/-- A step that sends nothing keeps the invariant. -/
theorem ChainsOk.push_quiet (hk : ChainsOk db) (ht : Trans our db rows) (hcf : CollisionFree db)
    (hf : FreshKeys (db.push rows))
    (hold : ∀ p id m, (db.push rows).Ever (.outbox p id) m → db.Ever (.outbox p id) m) :
    ChainsOk (db.push rows) where
  used p id m header h hh := by
    obtain ⟨q, rec, hr, hkey⟩ := hk.used p id m header (hold p id m h) hh
    exact ⟨q, rec, hr.mono (Db.le_push _ _), hkey⟩
  below p id m header q rec h hh hr hkey := by
    have h₀ := hold p id m h
    obtain ⟨old, ho, hko, hns⟩ := ht.key_before hcf hf hr hkey (hk.used p id m header h₀ hh)
    exact UInt32.lt_of_lt_of_le (hk.below p id m header q old h₀ hh ho hko) hns
  apart q q' rec rec' key hr hr' hkey hkey' := hk.apart_push ht hcf hf hr hr' hkey hkey'
  unique p p' id id' m m' header header' h h' :=
    hk.unique p p' id id' m m' header header' (hold p id m h) (hold p' id' m' h')

/-- A send keeps the invariant: its message stands at the counter of its session. -/
theorem ChainsOk.push_send (hk : ChainsOk db) (ht : Trans our db rows) (hcf : CollisionFree db)
    (hf : FreshKeys (db.push rows)) {handle : UInt64} {clientId plaintext : Bytes} {p₀ q₀ : Peer}
    {old new : SessionRecord P.Key} {m₀ : OutgoingMessage}
    (hs : SendTx our handle clientId plaintext db p₀ q₀ old new m₀ rows)
    (hcases : ∀ p id m, (db.push rows).Ever (.outbox p id) m →
      db.Ever (.outbox p id) m ∨ (p = p₀ ∧ m = m₀)) : ChainsOk (db.push rows) := by
  obtain ⟨header₀, hh₀, hkey₀, hn₀⟩ := hs.position
  have hold := hs.unchanged.eq hcf hs.loaded.ever
  have hused : ∃ q rec, db.Ever (.session q) rec ∧ sendingKey rec = some header₀.dh :=
    ⟨q₀, old, Db.ever_now hold, hkey₀⟩
  have hnew : rows.lookup (.session q₀) = some new := by
    rw [hs.eq]
    exact Rows.lookup_applyAll_head _ _ (by simp)
  have hns : old.ratchet.ns < new.ratchet.ns := by
    obtain ⟨nonce, out, he, -⟩ := hs.encrypts
    obtain ⟨ck, -, -, hr, -⟩ := DoubleRatchet.encrypt_ok he
    have hroom := hs.loaded.bound.ratchet.ns
    rw [hr]
    show old.ratchet.ns < old.ratchet.ns + 1
    grind
  -- An old message under the key of the new one has a lower number.
  have lower : ∀ p id m header, db.Ever (.outbox p id) m → HasHeader m header →
      header.dh = header₀.dh → header.n ≠ header₀.n := by
    intro p id m header h hh hdh hn
    have := hk.below p id m header q₀ old h hh hold (hdh ▸ hkey₀)
    rw [hn, hn₀] at this
    exact UInt32.lt_irrefl _ this
  refine ⟨fun p id m header h hh => ?_, fun p id m header q rec h hh hr hkey => ?_,
    fun q q' rec rec' key hr hr' hkey hkey' => hk.apart_push ht hcf hf hr hr' hkey hkey',
    fun p p' id id' m m' header header' h h' hh hh' hdh hn => ?_⟩
  · rcases hcases p id m h with h | ⟨rfl, rfl⟩
    · obtain ⟨q, rec, hr, hkey⟩ := hk.used p id m header h hh
      exact ⟨q, rec, hr.mono (Db.le_push _ _), hkey⟩
    · obtain rfl := hh.unique hh₀
      obtain ⟨q, rec, hr, hkey⟩ := hused
      exact ⟨q, rec, hr.mono (Db.le_push _ _), hkey⟩
  · rcases hcases p id m h with h | ⟨rfl, rfl⟩
    · obtain ⟨old', ho, hko, hle⟩ := ht.key_before hcf hf hr hkey (hk.used p id m header h hh)
      exact UInt32.lt_of_lt_of_le (hk.below p id m header q old' h hh ho hko) hle
    · obtain rfl := hh.unique hh₀
      obtain ⟨old', ho, hko, -⟩ := ht.key_before hcf hf hr hkey hused
      obtain rfl := hk.apart q q₀ old' old header.dh ho hold hko hkey₀
      obtain rfl := Option.some.inj (hr.symm.trans hnew)
      rw [hn₀]
      exact hns
  · rcases hcases p id m h with h | ⟨rfl, rfl⟩
    · rcases hcases p' id' m' h' with h' | ⟨rfl, rfl⟩
      · exact hk.unique p p' id id' m m' header header' h h' hh hh' hdh hn
      · obtain rfl := hh'.unique hh₀
        exact absurd hn (lower p id m header h hh hdh)
    · rcases hcases p' id' m' h' with h' | ⟨rfl, rfl⟩
      · obtain rfl := hh.unique hh₀
        exact absurd hn.symm (lower p' id' m' header' h' hh' hdh.symm)
      · exact ⟨rfl, rfl⟩

/-- Every history keeps it. -/
theorem chainsOk (h : db.Valid (Trans our)) (hcf : CollisionFree db) (hf : FreshKeys db) :
    ChainsOk db := by
  induction h with
  | empty =>
    exact
      { used := fun _ _ _ _ h => (Db.not_ever_empty h).elim
        below := fun _ _ _ _ _ _ h => (Db.not_ever_empty h).elim
        apart := fun _ _ _ _ _ h => nomatch h
        unique := fun _ _ _ _ _ _ _ _ h => (Db.not_ever_empty h).elim }
  | push hv ht ih =>
    have hcf' := hcf.mono (Db.le_push _ _)
    have hk := ih hcf' (hf.mono (Db.le_push _ _))
    rcases ht.outbox_ever with hold | ⟨p, m, handle, clientId, plaintext, q, old, new, hs, hcases⟩
    · exact hk.push_quiet ht hcf' hf hold
    · exact hk.push_send ht hcf' hf hs hcases

/-! ## Where a record comes from -/

/-- A send that stored `m` for `p` took effect, with the session it advanced. -/
def SentIn (our : Bytes32) (db : Db P.Key) (p : Peer) (m : OutgoingMessage) : Prop :=
  ∃ db₀ rows handle clientId plaintext q old new, (Db.push db₀ rows).Le db ∧
    SendTx our handle clientId plaintext db₀ p q old new m rows

/-- A transaction that accepted `m` from `p` took effect, with the session it advanced. -/
def AcceptedIn (our : Bytes32) (db : Db P.Key) (p : Peer) (m : IncomingMessage) : Prop :=
  ∃ db₀ rows, (Db.push db₀ rows).Le db ∧ AcceptTx our db₀ p m rows

theorem SentIn.mono {p : Peer} {m : OutgoingMessage} (h : SentIn our db p m) (hle : db.Le db') :
    SentIn our db' p m := by
  obtain ⟨db₀, rows, handle, clientId, plaintext, q, old, new, h₀, hs⟩ := h
  exact ⟨db₀, rows, handle, clientId, plaintext, q, old, new, h₀.trans hle, hs⟩

theorem AcceptedIn.mono {p : Peer} {m : IncomingMessage} (h : AcceptedIn our db p m)
    (hle : db.Le db') : AcceptedIn our db' p m := by
  obtain ⟨db₀, rows, h₀, ha⟩ := h
  exact ⟨db₀, rows, h₀.trans hle, ha⟩

theorem sentIn_of_ever (h : db.Valid (Trans our)) {p : Peer} {id : MessageId}
    {m : OutgoingMessage} (he : db.Ever (.outbox p id) m) : SentIn our db p m := by
  induction h with
  | empty => exact (Db.not_ever_empty he).elim
  | push hv ht ih =>
    rcases Db.ever_push.mp he with he | he
    · rcases ht.messages.outbox he with h | ⟨-, -, -, -, handle, clientId, plaintext, q, o, n, hs⟩
      · exact (ih (Db.ever_now h)).mono (Db.le_push _ _)
      · exact ⟨_, _, handle, clientId, plaintext, q, o, n, Db.Le.refl _, hs⟩
    · exact (ih he).mono (Db.le_push _ _)

theorem acceptedIn_of_ever (h : db.Valid (Trans our)) {p : Peer} {id : MessageId}
    {m : IncomingMessage} (he : db.Ever (.inbox p id) m) : AcceptedIn our db p m := by
  induction h with
  | empty => exact (Db.not_ever_empty he).elim
  | push hv ht ih =>
    rcases Db.ever_push.mp he with he | he
    · rcases ht.messages.inbox_new he with h | ⟨-, -, -, -, ha⟩
      · exact (ih (Db.ever_now h)).mono (Db.le_push _ _)
      · exact ⟨_, _, Db.Le.refl _, ha⟩
    · exact (ih he).mono (Db.le_push _ _)

/-- `new` follows `old` by one generation and one ratchet operation. -/
structure Advances (old new : SessionRecord P.Key) : Prop where
  room : old.generation ≠ 0xFFFFFFFFFFFFFFFF
  eq : new = { old with generation := old.generation + 1, ratchet := new.ratchet }
  ratchet : (∃ plaintext nonce out, Encrypts old new plaintext nonce out) ∨
    ∃ wire fresh plaintext, Decrypts old new wire fresh plaintext

/-- What replaces a session record is that record, or follows it. -/
theorem Trans.advances (ht : Trans our db rows) (hcf : CollisionFree db) {p : Peer}
    {old new : SessionRecord P.Key} (ho : db.rows.lookup (.session p) = some old)
    (hn : rows.lookup (.session p) = some new) : new = old ∨ Advances old new := by
  cases ht.session p with
  | same h => exact .inl (Option.some.inj (hn.symm.trans (h.trans ho)))
  | created _ before => exact nomatch before.symm.trans ho
  | promoted _ _ _ _ _ _ before => exact nomatch before.symm.trans ho
  | sent handle clientId plaintext dest old' new' m h after =>
    obtain rfl := Option.some.inj (hn.symm.trans after)
    obtain rfl := Option.some.inj (ho.symm.trans (h.unchanged.eq hcf h.loaded.ever))
    obtain ⟨nonce, out, he, -⟩ := h.encrypts
    exact .inr ⟨h.follows.room, h.follows.eq, .inl ⟨plaintext, nonce, out, he⟩⟩
  | received handle wire old' new' m h after =>
    obtain rfl := Option.some.inj (hn.symm.trans after)
    obtain rfl := Option.some.inj (ho.symm.trans (h.unchanged.eq hcf h.loaded.ever))
    obtain ⟨fresh, hd⟩ := h.decrypts
    exact .inr ⟨h.follows.room, h.follows.eq, .inr ⟨wire, fresh, m.plaintext, hd⟩⟩
  | ended _ _ _ _ after => exact nomatch after.symm.trans hn

end Messenger

end Arcium
