import Arcium.Protocol.Change

/-!
# The records about messages, over every history

`MessagesOk`: an outbox record carries the id of its wire, and its logical message names it; a
logical message never gets a second outbox record; an accepted message is in exactly one of the
inbox and the seen records. It holds of every history of `Trans` (`messagesOk`), with what follows
for later states: `sendid_stable`, `accepted_stable`.
-/

namespace Arcium

namespace Messenger

variable {P : Platform} {our : Bytes32} {db : Db P.Key} {rows : Rows P.Key}

/-- A record that was not written is what it was. -/
theorem MessagesAfter.ne {cs : List (Change P.Key)} (h : MessagesAfter db rows cs) {k : Key}
    (hk : k.isMessage = true) (hne : ∀ c ∈ cs, k ≠ c.key) :
    rows.lookup k = db.rows.lookup k := by
  rw [h k hk, Rows.lookup_applyAll_ne _ hne]

/-- The first of the writes, if no other names its record. -/
theorem MessagesAfter.head {k : Key} {v : Option (Row P.Key k)} {cs : List (Change P.Key)}
    (h : MessagesAfter db rows (⟨k, v⟩ :: cs)) (hk : k.isMessage = true)
    (hne : ∀ c ∈ cs, k ≠ c.key) : rows.lookup k = v := by
  rw [h k hk, Rows.lookup_applyAll_head _ _ hne]

/-- The second of two writes. -/
theorem MessagesAfter.snd {c : Change P.Key} {k : Key} {v : Option (Row P.Key k)}
    (h : MessagesAfter db rows [c, ⟨k, v⟩]) (hk : k.isMessage = true) : rows.lookup k = v := by
  rw [h k hk]
  exact Rows.lookup_applyAll_head (db.rows.apply c) v fun _ h => nomatch h

/-- `p` has accepted the message `id`: it is waiting, or was handed over. -/
def Accepted (rows : Rows P.Key) (p : Peer) (id : MessageId) : Prop :=
  (rows.lookup (.inbox p id)).isSome ∨ (rows.lookup (.seen p id)).isSome

/-- The invariant of the records about messages. -/
structure MessagesOk (db : Db P.Key) : Prop where
  outbox_id : ∀ p id m, db.Ever (.outbox p id) m → m.messageId = id ∧ messageId P m.wire = id
  outbox_sendid : ∀ p id (m : OutgoingMessage), db.rows.lookup (.outbox p id) = some m →
    db.rows.lookup (.sendid p m.clientMessageId) = some (.sent id)
  ever_sendid : ∀ p id (m : OutgoingMessage), db.Ever (.outbox p id) m →
    ∃ r : SendRecord, db.rows.lookup (.sendid p m.clientMessageId) = some r ∧ r.id = id
  unique : ∀ p id id' (m m' : OutgoingMessage), db.Ever (.outbox p id) m →
    db.Ever (.outbox p id') m' → m.clientMessageId = m'.clientMessageId → m = m'
  inbox_id : ∀ p id (m : IncomingMessage), db.rows.lookup (.inbox p id) = some m → m.messageId = id
  seen_id : ∀ p id (x : MessageId), db.rows.lookup (.seen p id) = some x → x = id
  exclusive : ∀ p id, (db.rows.lookup (.inbox p id)).isSome → db.rows.lookup (.seen p id) = none

/-- Where an outbox record comes from in one step. -/
theorem MessageChange.outbox {p : Peer} {id : MessageId} {m : OutgoingMessage}
    (hc : MessageChange our db rows) (h : rows.lookup (.outbox p id) = some m) :
    db.rows.lookup (.outbox p id) = some m ∨
      (m.messageId = id ∧ messageId P m.wire = id ∧
        db.rows.lookup (.sendid p m.clientMessageId) = none ∧
        rows.lookup (.sendid p m.clientMessageId) = some (.sent id) ∧
        ∃ handle clientId plaintext q old new,
          SendTx our handle clientId plaintext db p q old new m rows) := by
  cases hc with
  | same after => exact .inl ((after.ne rfl (by simp)).symm.trans h)
  | sent peer m₀ wire noOutbox noSendid after tx =>
    by_cases hk : Key.outbox p id = .outbox peer m₀.messageId
    · cases hk
      have hh := after.head rfl (by simp)
      obtain rfl : m = m₀ := Option.some.inj (h.symm.trans hh)
      exact .inr ⟨rfl, wire, noSendid, after.snd rfl, tx⟩
    · exact .inl ((after.ne rfl (by simpa using hk)).symm.trans h)
  | accepted peer m₀ noInbox noSeen after => exact .inl ((after.ne rfl (by simp)).symm.trans h)
  | acknowledgedOut peer i after =>
    by_cases hk : Key.outbox p id = .outbox peer i
    · cases hk
      rw [after.head rfl (by simp)] at h
      cases h
    · exact .inl ((after.ne rfl (by simpa using hk)).symm.trans h)
  | acknowledgedIn peer i m₀ stored after => exact .inl ((after.ne rfl (by simp)).symm.trans h)
  | abandoned peer i m₀ stored after =>
    by_cases hk : Key.outbox p id = .outbox peer i
    · cases hk
      rw [after.head rfl (by simp)] at h
      cases h
    · exact .inl ((after.ne rfl (by simpa using hk)).symm.trans h)

/-- What becomes of a send record in one step: it stays, or its own message is abandoned. -/
theorem MessageChange.sendid {p : Peer} {c : Bytes} {r : SendRecord} (hc : MessageChange our db rows)
    (h : db.rows.lookup (.sendid p c) = some r) :
    rows.lookup (.sendid p c) = some r ∨
      ∃ (id : MessageId) (m : OutgoingMessage), db.rows.lookup (.outbox p id) = some m ∧
        m.clientMessageId = c ∧ rows.lookup (.sendid p c) = some (.abandoned id) ∧
        rows.lookup (.outbox p id) = none := by
  cases hc with
  | same after => exact .inl ((after.ne rfl (by simp)).trans h)
  | sent peer m₀ wire noOutbox noSendid after =>
    refine .inl ((after.ne rfl ?_).trans h)
    simp only [List.mem_cons, List.not_mem_nil, or_false, forall_eq_or_imp, forall_eq, ne_eq,
      reduceCtorEq, not_false_eq_true, true_and]
    intro hk
    cases hk
    rw [noSendid] at h
    cases h
  | accepted peer m₀ noInbox noSeen after => exact .inl ((after.ne rfl (by simp)).trans h)
  | acknowledgedOut peer i after => exact .inl ((after.ne rfl (by simp)).trans h)
  | acknowledgedIn peer i m₀ stored after => exact .inl ((after.ne rfl (by simp)).trans h)
  | abandoned peer i m₀ stored after =>
    by_cases hk : Key.sendid p c = .sendid peer m₀.clientMessageId
    · cases hk
      exact .inr ⟨i, m₀, stored, rfl, after.snd rfl, after.head rfl (by simp)⟩
    · exact .inl ((after.ne rfl (by simpa using hk)).trans h)

/-- An outbox record that is there keeps its send record as long as it is. -/
theorem MessageChange.sendid_of_outbox {p : Peer} {id : MessageId} {m : OutgoingMessage}
    (hc : MessageChange our db rows) (hk : MessagesOk db) (h : rows.lookup (.outbox p id) = some m) :
    rows.lookup (.sendid p m.clientMessageId) = some (.sent id) := by
  rcases hc.outbox h with h₀ | ⟨-, -, -, h₀, -⟩
  · have hs := hk.outbox_sendid p id m h₀
    rcases hc.sendid hs with h₁ | ⟨id', m', ho, hcid, -, hn⟩
    · exact h₁
    · have hs' := hk.outbox_sendid p id' m' ho
      rw [hcid, hs] at hs'
      cases hs'
      rw [h] at hn
      cases hn
  · exact h₀

/-- The id of a logical message never changes. -/
theorem MessageChange.sendid_id {p : Peer} {c : Bytes} {r : SendRecord}
    (hc : MessageChange our db rows) (hk : MessagesOk db)
    (h : db.rows.lookup (.sendid p c) = some r) :
    ∃ r' : SendRecord, rows.lookup (.sendid p c) = some r' ∧ r'.id = r.id := by
  rcases hc.sendid h with h₁ | ⟨id, m, ho, rfl, hn, -⟩
  · exact ⟨r, h₁, rfl⟩
  · have hs := hk.outbox_sendid p id m ho
    rw [h] at hs
    cases hs
    exact ⟨_, hn, rfl⟩

/-- What becomes of an inbox record in one step: it stays, or moves to the seen records. -/
theorem MessageChange.inbox {p : Peer} {id : MessageId} {m : IncomingMessage}
    (hc : MessageChange our db rows) (h : db.rows.lookup (.inbox p id) = some m) :
    rows.lookup (.inbox p id) = some m ∨
      (rows.lookup (.inbox p id) = none ∧ rows.lookup (.seen p id) = some id ∧
        ∃ handle, AckInTx handle id db p rows) := by
  cases hc with
  | same after => exact .inl ((after.ne rfl (by simp)).trans h)
  | sent peer m₀ wire noOutbox noSendid after => exact .inl ((after.ne rfl (by simp)).trans h)
  | accepted peer m₀ noInbox noSeen after =>
    refine .inl ((after.ne rfl ?_).trans h)
    simp only [List.mem_cons, List.not_mem_nil, or_false, forall_eq, ne_eq]
    intro hk
    cases hk
    rw [noInbox] at h
    cases h
  | acknowledgedOut peer i after => exact .inl ((after.ne rfl (by simp)).trans h)
  | acknowledgedIn peer i m₀ stored after tx =>
    by_cases hk : Key.inbox p id = .inbox peer i
    · cases hk
      exact .inr ⟨after.head rfl (by simp), after.snd rfl, tx⟩
    · exact .inl ((after.ne rfl (by simpa using hk)).trans h)
  | abandoned peer i m₀ stored after => exact .inl ((after.ne rfl (by simp)).trans h)

/-- Where an inbox record comes from in one step. -/
theorem MessageChange.inbox_new {p : Peer} {id : MessageId} {m : IncomingMessage}
    (hc : MessageChange our db rows) (h : rows.lookup (.inbox p id) = some m) :
    db.rows.lookup (.inbox p id) = some m ∨
      (m.messageId = id ∧ db.rows.lookup (.inbox p id) = none ∧
        db.rows.lookup (.seen p id) = none ∧ rows.lookup (.seen p id) = none ∧
        AcceptTx our db p m rows) := by
  cases hc with
  | same after => exact .inl ((after.ne rfl (by simp)).symm.trans h)
  | sent peer m₀ wire noOutbox noSendid after => exact .inl ((after.ne rfl (by simp)).symm.trans h)
  | accepted peer m₀ noInbox noSeen after tx =>
    by_cases hk : Key.inbox p id = .inbox peer m₀.messageId
    · cases hk
      obtain rfl : m = m₀ := Option.some.inj (h.symm.trans (after.head rfl (by simp)))
      exact .inr ⟨rfl, noInbox, noSeen, (after.ne rfl (by simp)).trans noSeen, tx⟩
    · exact .inl ((after.ne rfl (by simpa using hk)).symm.trans h)
  | acknowledgedOut peer i after => exact .inl ((after.ne rfl (by simp)).symm.trans h)
  | acknowledgedIn peer i m₀ stored after =>
    by_cases hk : Key.inbox p id = .inbox peer i
    · cases hk
      rw [after.head rfl (by simp)] at h
      cases h
    · exact .inl ((after.ne rfl (by simpa using hk)).symm.trans h)
  | abandoned peer i m₀ stored after => exact .inl ((after.ne rfl (by simp)).symm.trans h)

/-- What becomes of a seen record in one step: nothing. -/
theorem MessageChange.seen {p : Peer} {id x : MessageId} (hc : MessageChange our db rows)
    (hk : MessagesOk db) (h : db.rows.lookup (.seen p id) = some x) :
    rows.lookup (.seen p id) = some x := by
  cases hc with
  | acknowledgedIn peer i m₀ stored after =>
    refine (after.ne rfl ?_).trans h
    simp only [List.mem_cons, List.not_mem_nil, or_false, forall_eq_or_imp, forall_eq, ne_eq,
      reduceCtorEq, not_false_eq_true, true_and]
    intro hke
    cases hke
    rw [hk.exclusive p id (by rw [stored]; rfl)] at h
    cases h
  | same after => exact (after.ne rfl (by simp)).trans h
  | sent peer m₀ wire noOutbox noSendid after => exact (after.ne rfl (by simp)).trans h
  | accepted peer m₀ noInbox noSeen after => exact (after.ne rfl (by simp)).trans h
  | acknowledgedOut peer i after => exact (after.ne rfl (by simp)).trans h
  | abandoned peer i m₀ stored after => exact (after.ne rfl (by simp)).trans h

/-- Where a seen record comes from in one step. -/
theorem MessageChange.seen_new {p : Peer} {id x : MessageId} (hc : MessageChange our db rows)
    (h : rows.lookup (.seen p id) = some x) :
    db.rows.lookup (.seen p id) = some x ∨
      (x = id ∧ (db.rows.lookup (.inbox p id)).isSome ∧ rows.lookup (.inbox p id) = none) := by
  cases hc with
  | acknowledgedIn peer i m₀ stored after =>
    by_cases hk : Key.seen p id = .seen peer i
    · cases hk
      obtain rfl : x = id := Option.some.inj (h.symm.trans (after.snd rfl))
      exact .inr ⟨rfl, by rw [stored]; rfl, after.head rfl (by simp)⟩
    · exact .inl ((after.ne rfl (by simpa using hk)).symm.trans h)
  | same after => exact .inl ((after.ne rfl (by simp)).symm.trans h)
  | sent peer m₀ wire noOutbox noSendid after => exact .inl ((after.ne rfl (by simp)).symm.trans h)
  | accepted peer m₀ noInbox noSeen after => exact .inl ((after.ne rfl (by simp)).symm.trans h)
  | acknowledgedOut peer i after => exact .inl ((after.ne rfl (by simp)).symm.trans h)
  | abandoned peer i m₀ stored after => exact .inl ((after.ne rfl (by simp)).symm.trans h)

/-- One step keeps the invariant. -/
theorem MessagesOk.push (hk : MessagesOk db) (hc : MessageChange our db rows) :
    MessagesOk (db.push rows) where
  outbox_id p id m h := by
    rcases Db.ever_push.mp h with h | h
    · rcases hc.outbox h with h | ⟨h1, h2, -, -⟩
      · exact hk.outbox_id p id m (Db.ever_now h)
      · exact ⟨h1, h2⟩
    · exact hk.outbox_id p id m h
  outbox_sendid p id m h := hc.sendid_of_outbox hk h
  ever_sendid p id m h := by
    rcases Db.ever_push.mp h with h | h
    · exact ⟨_, hc.sendid_of_outbox hk h, rfl⟩
    · obtain ⟨r, hr, rfl⟩ := hk.ever_sendid p id m h
      exact hc.sendid_id hk hr
  unique p id id' m m' h h' hcid := by
    -- A new record has a logical id that no record had before.
    have fresh : ∀ {id : MessageId} {m m' : OutgoingMessage}, db.Ever (.outbox p id) m →
        db.rows.lookup (.sendid p m'.clientMessageId) = none →
        m.clientMessageId = m'.clientMessageId → False := by
      intro id m m' h hn hcid
      obtain ⟨r, hr, -⟩ := hk.ever_sendid p id m h
      rw [hcid, hn] at hr
      cases hr
    rcases Db.ever_push.mp h with h | h
    · rcases Db.ever_push.mp h' with h' | h'
      · have hs := hc.sendid_of_outbox hk h
        have hs' := hc.sendid_of_outbox hk h'
        rw [hcid, hs'] at hs
        cases hs
        exact Option.some.inj (h.symm.trans h')
      · rcases hc.outbox h with h | ⟨-, -, hn, -⟩
        · exact hk.unique p id id' m m' (Db.ever_now h) h' hcid
        · exact (fresh h' hn hcid.symm).elim
    · rcases Db.ever_push.mp h' with h' | h'
      · rcases hc.outbox h' with h' | ⟨-, -, hn, -⟩
        · exact hk.unique p id id' m m' h (Db.ever_now h') hcid
        · exact (fresh h hn hcid).elim
      · exact hk.unique p id id' m m' h h' hcid
  inbox_id p id m h := by
    rcases hc.inbox_new h with h | ⟨h, -⟩
    · exact hk.inbox_id p id m h
    · exact h
  seen_id p id x h := by
    rcases hc.seen_new h with h | ⟨h, -⟩
    · exact hk.seen_id p id x h
    · exact h
  exclusive p id h := by
    obtain ⟨m, hm⟩ := Option.isSome_iff_exists.mp h
    rcases hc.inbox_new hm with h₀ | ⟨-, -, -, hn, -⟩
    · by_contra hs
      obtain ⟨x, hx⟩ := Option.ne_none_iff_exists'.mp hs
      rcases hc.seen_new hx with hx | ⟨-, -, hn⟩
      · rw [hk.exclusive p id (by rw [h₀]; rfl)] at hx
        cases hx
      · rw [Db.push_rows, hn] at hm
        cases hm
    · exact hn

theorem messagesOk_empty : MessagesOk (Db.empty : Db P.Key) where
  outbox_id _ _ _ h := (Db.not_ever_empty h).elim
  outbox_sendid _ _ _ h := by cases h
  ever_sendid _ _ _ h := (Db.not_ever_empty h).elim
  unique _ _ _ _ _ h := (Db.not_ever_empty h).elim
  inbox_id _ _ _ h := by cases h
  seen_id _ _ _ h := by cases h
  exclusive _ _ h := by cases h

/-- Every history keeps it. -/
theorem messagesOk (h : db.Valid (Trans our)) : MessagesOk db := by
  induction h with
  | empty => exact messagesOk_empty
  | push _ ht ih => exact ih.push ht.messages

/-! ## From one state to every later one -/

/-- A logical message keeps its message id. -/
theorem sendid_stable {db' : Db P.Key} (h : db'.Valid (Trans our)) (hle : db.Le db') {p : Peer}
    {c : Bytes} {r : SendRecord} (hr : db.rows.lookup (.sendid p c) = some r) :
    ∃ r' : SendRecord, db'.rows.lookup (.sendid p c) = some r' ∧ r'.id = r.id := by
  refine h.stable (P := fun db => ∃ r' : SendRecord, db.rows.lookup (.sendid p c) = some r' ∧
    r'.id = r.id) (fun db rows hv ht hp => ?_) hle ⟨r, hr, rfl⟩
  obtain ⟨r', hr', hid⟩ := hp
  obtain ⟨r'', hr'', hid'⟩ := ht.messages.sendid_id (messagesOk hv) hr'
  exact ⟨r'', hr'', hid'.trans hid⟩

theorem seen_stable {db' : Db P.Key} (h : db'.Valid (Trans our)) (hle : db.Le db') {p : Peer}
    {id x : MessageId} (hs : db.rows.lookup (.seen p id) = some x) :
    db'.rows.lookup (.seen p id) = some x :=
  h.stable (P := fun db => db.rows.lookup (.seen p id) = some x)
    (fun _ _ hv ht hp => ht.messages.seen (messagesOk hv) hp) hle hs

/-- What was accepted stays accepted. -/
theorem accepted_stable {db' : Db P.Key} (h : db'.Valid (Trans our)) (hle : db.Le db') {p : Peer}
    {id : MessageId} (ha : Accepted db.rows p id) : Accepted db'.rows p id := by
  refine h.stable (P := fun db => Accepted db.rows p id) (fun db rows hv ht hp => ?_) hle ha
  rcases hp with hp | hp
  · obtain ⟨m, hm⟩ := Option.isSome_iff_exists.mp hp
    rcases ht.messages.inbox hm with h | ⟨-, h, -⟩
    · exact .inl (by rw [Db.push_rows, h]; rfl)
    · exact .inr (by rw [Db.push_rows, h]; rfl)
  · obtain ⟨x, hx⟩ := Option.isSome_iff_exists.mp hp
    exact .inr (by rw [Db.push_rows, ht.messages.seen (messagesOk hv) hx]; rfl)

end Messenger

end Arcium
