import Arcium.Protocol.MessageInv
import Arcium.Crypto.RatchetSpec

/-!
# The session records, over every history

What is stored of a session can be read back, and a session that has received a message is never
removed (`confirmed_stable`). These rest on SHA-256 telling the records of this history apart
(`CollisionFree`): then the record a transition replaces is the very record it was staged from.
-/

namespace Arcium

namespace Messenger

variable {P : Platform} {our : Bytes32} {db db' : Db P.Key} {rows : Rows P.Key}

/-- SHA-256 has no collision among the session records and the wires of this history. -/
structure CollisionFree (db : Db P.Key) : Prop where
  records : ∀ p rec rec', db.Ever (.session p) rec → db.Ever (.session p) rec' →
    P.recordDigest rec = P.recordDigest rec' → rec = rec'
  wires : ∀ p q id id' (m m' : OutgoingMessage), db.Ever (.outbox p id) m →
    db.Ever (.outbox q id') m' → messageId P m.wire = messageId P m'.wire → m.wire = m'.wire

theorem CollisionFree.mono (h : CollisionFree db') (hle : db.Le db') : CollisionFree db where
  records p rec rec' h1 h2 := h.records p rec rec' (h1.mono hle) (h2.mono hle)
  wires p q id id' m m' h1 h2 := h.wires p q id id' m m' (h1.mono hle) (h2.mono hle)

/-- The record that a transition finds unchanged is the one it was staged from. -/
theorem Unchanged.eq (hcf : CollisionFree db) {peer : Peer} {old : SessionRecord P.Key}
    (he : db.Ever (.session peer) old) (h : Unchanged db peer old) :
    db.rows.lookup (.session peer) = some old := by
  obtain ⟨found, hf, hd⟩ := h
  rw [hf, hcf.records peer found old (Db.ever_now hf) he hd]

/-- Every stored session can be read. -/
theorem ever_bound (h : db.Valid (Trans our)) {p : Peer} {rec : SessionRecord P.Key}
    (he : db.Ever (.session p) rec) : rec.Bound our p := by
  induction h with
  | empty => exact (Db.not_ever_empty he).elim
  | push hv ht ih =>
    rcases Db.ever_push.mp he with he | he
    · cases ht.session p with
      | same h => exact ih (Db.ever_now (h ▸ he))
      | created new _ after _ bound =>
        obtain rfl := Option.some.inj (he.symm.trans after)
        exact bound
      | promoted first wire new m h hp _ after =>
        obtain rfl := Option.some.inj (he.symm.trans after)
        exact hp ▸ h.follows.bound
      | sent handle clientId plaintext dest old new m h after =>
        obtain rfl := Option.some.inj (he.symm.trans after)
        exact h.follows.bound
      | received handle wire old new m h after =>
        obtain rfl := Option.some.inj (he.symm.trans after)
        exact h.follows.bound
      | ended old _ _ _ after =>
        rw [after] at he
        cases he
    · exact ih he

/-- Encrypting keeps the receiving chain. -/
theorem Encrypts.hasReceivingChain {old new : SessionRecord P.Key} {plaintext : Bytes}
    {nonce : Nonce} {out : Header × Bytes} (h : Encrypts old new plaintext nonce out) :
    new.ratchet.hasReceivingChain = old.ratchet.hasReceivingChain := by
  obtain ⟨ck, -, -, hr, -⟩ := DoubleRatchet.encrypt_ok h
  rw [hr]
  rfl

/-- A session that has decrypted a message has a receiving chain. -/
theorem Decrypts.hasReceivingChain {old new : SessionRecord P.Key} {wire : Bytes}
    {fresh : StaticSecret} {plaintext : Bytes} (h : Decrypts old new wire fresh plaintext)
    (ho : old.ratchet.Resumable) : new.ratchet.hasReceivingChain = true := by
  obtain ⟨header, ciphertext, -, hd⟩ := h
  exact DoubleRatchet.decrypt_receiving hd fun hc => (ho.no_recv hc).2.2

/-- `p` has a session, and a message was received on it. -/
def Confirmed (rows : Rows P.Key) (p : Peer) : Prop :=
  ∃ rec : SessionRecord P.Key, rows.lookup (.session p) = some rec ∧
    rec.ratchet.hasReceivingChain = true

theorem PromoteTx.received {first : FirstContact P.Key} {wire : Bytes} {new : SessionRecord P.Key}
    {m : IncomingMessage} (h : PromoteTx our first wire db new m rows) :
    new.ratchet.hasReceivingChain = true := by
  obtain ⟨fresh, hd⟩ := h.decrypts
  exact hd.hasReceivingChain h.candidate.ratchet

theorem ReceiveTx.received {handle : UInt64} {wire : Bytes} {peer : Peer}
    {old new : SessionRecord P.Key} {m : IncomingMessage}
    (h : ReceiveTx our handle wire db peer old new m rows) :
    new.ratchet.hasReceivingChain = true := by
  obtain ⟨fresh, hd⟩ := h.decrypts
  exact hd.hasReceivingChain h.loaded.bound.ratchet

/-- A session on which a message was received stays. -/
theorem SessionChange.keeps_confirmed {p : Peer} (hc : SessionChange our db rows p)
    (hcf : CollisionFree db) (h : Confirmed db.rows p) : Confirmed rows p := by
  obtain ⟨rec, hl, hr⟩ := h
  cases hc with
  | same h => exact ⟨rec, h.trans hl, hr⟩
  | created new before =>
    rw [before] at hl
    cases hl
  | promoted first wire new m h hp before after => exact ⟨new, after, h.received⟩
  | sent handle clientId plaintext dest old new m h after =>
    obtain rfl := Option.some.inj (hl.symm.trans (h.unchanged.eq hcf h.loaded.ever))
    obtain ⟨nonce, out, he, -⟩ := h.encrypts
    exact ⟨new, after, he.hasReceivingChain.trans hr⟩
  | received handle wire old new m h after => exact ⟨new, after, h.received⟩
  | ended old ever unchanged unconfirmed after =>
    obtain rfl := Option.some.inj (hl.symm.trans (unchanged.eq hcf ever))
    rw [unconfirmed] at hr
    cases hr

theorem confirmed_stable (h : db'.Valid (Trans our)) (hcf : CollisionFree db') (hle : db.Le db')
    {p : Peer} (hr : Confirmed db.rows p) : Confirmed db'.rows p := by
  induction h with
  | empty => rwa [← Db.le_empty hle]
  | push hv ht ih =>
    rcases Db.le_push_cases hle with rfl | hle
    · exact hr
    · have hcf' := hcf.mono (Db.le_push _ _)
      exact (ht.session p).keeps_confirmed hcf' (ih hcf' hle)

/-- A session that accepted a message was received on. -/
theorem AcceptTx.confirmed {p : Peer} {m : IncomingMessage} (h : AcceptTx our db p m rows) :
    Confirmed rows p := by
  cases h with
  | receive handle wire old new h =>
    refine ⟨new, ?_, h.received⟩
    rw [h.eq]
    exact Rows.lookup_applyAll_head _ _ (by simp)
  | promote first wire new h hp =>
    subst hp
    refine ⟨new, ?_, h.received⟩
    rw [h.eq, lookup_promoteChanges new m h.extra _ rfl]
    exact Rows.lookup_applyAll_head _ _ (by simp)

/-- A peer with an accepted message has a session, for good. -/
theorem accepted_confirmed (h : db.Valid (Trans our)) (hcf : CollisionFree db) {p : Peer}
    {id : MessageId} (ha : Accepted db.rows p id) : Confirmed db.rows p := by
  induction h with
  | empty => rcases ha with ha | ha <;> cases ha
  | push hv ht ih =>
    have hcf' := hcf.mono (Db.le_push _ _)
    have old : Accepted _ p id → Confirmed _ p := fun ha =>
      (ht.session p).keeps_confirmed hcf' (ih hcf' ha)
    rcases ha with ha | ha
    · obtain ⟨m, hm⟩ := Option.isSome_iff_exists.mp ha
      rcases ht.messages.inbox_new hm with h₀ | ⟨-, -, -, -, htx⟩
      · exact old (.inl (by rw [h₀]; rfl))
      · exact htx.confirmed
    · obtain ⟨x, hx⟩ := Option.isSome_iff_exists.mp ha
      rcases ht.messages.seen_new hx with h₀ | ⟨-, h₀, -⟩
      · exact old (.inr (by rw [h₀]; rfl))
      · exact old (.inl h₀)

end Messenger

end Arcium
