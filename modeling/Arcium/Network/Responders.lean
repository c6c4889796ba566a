import Arcium.Network.Prekeys

/-!
# Responder sessions have received

A responder session is stored by the transaction that accepts its first message, and by no other. So
each has a receiving chain, and that message is in the inbox or was seen.

* `Evidence`: what is known of a responder session that was ever stored (`ever_evidence`).
* `responders_received`: this, and what a handshake alone does not do, in every reachable
  configuration of a device whose store has no session of an older build.
-/

namespace Arcium

open Conc

namespace Network

variable {P : AppPlatform} {scope : Scope P} {call : Call} {db db' : Db P.Key} {rows : Rows P.Key}
  {c : DeviceConfig P} {peer : Peer} {rec : SessionRecord P.Key}

/-- The store that the runs start with never had a session of an older build. -/
def NoLegacy (scope : Scope P) : Prop :=
  ∀ (peer : Peer) (rec : SessionRecord P.Key), scope.start.Ever (.session peer) rec →
    ¬ Messenger.LegacyUnconfirmed rec

/-- What the responder session `rec` of `peer` rests on. -/
structure Evidence (db : Db P.Key) (peer : Peer) (rec : SessionRecord P.Key) : Prop where
  chain : rec.ratchet.hasReceivingChain = true
  generation : 1 ≤ rec.generation
  /-- The message that it was created with was accepted. -/
  first : ∃ (f : FirstMessage P) (db₀ : Db P.Key) (rows₀ : Rows P.Key), (db₀.push rows₀).Le db ∧
    f.Commits db₀ rows₀ ∧ f.peer = peer ∧
    Messenger.Accepted (P := P.toPlatform) db.rows peer f.message.messageId

theorem Evidence.mono (h : Evidence db peer rec) (hv : db'.Valid (Trans scope)) (hle : db.Le db') :
    Evidence db' peer rec := by
  obtain ⟨our, -, hv⟩ := exists_our hv
  obtain ⟨f, db₀, rows₀, h₀, hf, hp, ha⟩ := h.first
  exact ⟨h.chain, h.generation, f, db₀, rows₀, h₀.trans hle, hf, hp,
    Messenger.accepted_stable hv hle ha⟩

theorem one_le_succ {g : UInt64} (h : g ≠ 0xFFFFFFFFFFFFFFFF) : 1 ≤ g + 1 := by
  have hlt := g.toNat_lt
  have hne : g.toNat ≠ 0xFFFFFFFFFFFFFFFF := fun he => h (UInt64.toNat_inj.mp he)
  rw [UInt64.le_iff_toNat_le, UInt64.toNat_add]
  show 1 ≤ (g.toNat + 1) % 2 ^ 64
  omega

/-- A first message leaves evidence. -/
theorem FirstMessage.Commits.evidence {f : FirstMessage P} (h : f.Commits db rows) :
    Evidence (db.push rows) f.peer f.session := by
  have hfollows := h.promote.follows
  have hinbox : rows.lookup (.inbox f.peer f.message.messageId) = some f.message := by
    rw [h.promote.eq, Messenger.lookup_promoteChanges f.session f.message h.promote.extra _ rfl]
    exact Rows.lookup_applyAll_head _ _ (by simp)
  refine ⟨h.promote.received, ?_, f, db, rows, Db.Le.refl _, h, rfl, .inl ?_⟩
  · rw [hfollows.eq]
    exact one_le_succ hfollows.room
  · rw [Db.push_rows, hinbox]
    rfl

/-- A session that follows one with evidence has it too. -/
theorem Evidence.follows {our : Bytes32} {old : SessionRecord P.Key} (h : Evidence db peer old)
    (hf : Messenger.Follows (P := P.toPlatform) our peer old rec)
    (hc : rec.ratchet.hasReceivingChain = true) : Evidence db peer rec := by
  refine ⟨hc, ?_, h.first⟩
  rw [hf.eq]
  exact one_le_succ hf.room

theorem role_of_follows {our : Bytes32} {old : SessionRecord P.Key}
    (h : Messenger.Follows (P := P.toPlatform) our peer old rec) : rec.role = old.role := by
  rw [h.eq]

/-- Every responder session that was ever stored. -/
theorem ever_evidence (hv : db.Valid (Trans scope)) (hno : NoLegacy scope)
    (he : db.Ever (.session peer) rec) (hr : rec.role = .responder) : Evidence db peer rec := by
  induction hv generalizing rec with
  | empty => exact (Db.not_ever_empty he).elim
  | @push db rows hv ht ih =>
    have hpush := Db.Valid.push hv ht
    have old : ∀ {rec : SessionRecord P.Key}, db.Ever (.session peer) rec → rec.role = .responder →
        Evidence (db.push rows) peer rec := fun he hr =>
      (ih he hr).mono hpush (Db.le_push _ _)
    rcases Db.ever_push.mp he with he | he
    · cases ht.session_origin he with
      | kept h => exact old (Db.ever_now h) hr
      | initiated identity handle peerBundle bundle ephemeralSk dhs alice h peer_eq role =>
        rw [role] at hr
        cases hr
      | promoted identity handle wire provisional handshake record fresh m h peer_eq =>
        subst peer_eq
        exact FirstMessage.Commits.evidence
          (f := ⟨identity, handle, wire, provisional, handshake, record, fresh, rec, m⟩) h
      | sent our handle clientId plaintext dest before m h =>
        have hb := old h.loaded.ever ((role_of_follows h.follows).symm.trans hr)
        obtain ⟨nonce, out, henc, -⟩ := h.encrypts
        exact hb.follows h.follows (henc.hasReceivingChain.trans hb.chain)
      | received our handle wire before m h =>
        have hb := old h.loaded.ever ((role_of_follows h.follows).symm.trans hr)
        exact hb.follows h.follows h.received
      | legacy before unconfirmed =>
        exact absurd unconfirmed (hno peer rec ((Db.ever_now he).mono before))
    · exact old he hr

/-- A peer's first message is accepted once. -/
theorem FirstMessage.Commits.once {db₁ db₂ : Db P.Key} {rows₁ rows₂ : Rows P.Key} {f g : FirstMessage P}
    (hv : db₂.Valid (Trans scope)) (hcf : Messenger.CollisionFree (P := P.toPlatform) db₂)
    (hle : (db₁.push rows₁).Le db₂) (hf : f.Commits db₁ rows₁) (hg : g.Commits db₂ rows₂) :
    f.peer ≠ g.peer := by
  intro heq
  obtain ⟨our, -, hv⟩ := exists_our hv
  have hc : Messenger.Confirmed (P := P.toPlatform) (db₁.push rows₁).rows f.peer :=
    ⟨f.session, hf.session_after, hf.promote.received⟩
  obtain ⟨rec, hrec, -⟩ := Messenger.confirmed_stable hv hcf hle hc
  have hnone : db₂.rows.lookup (.session g.peer) = none := hg.promote.noSession
  rw [heq, hnone] at hrec
  cases hrec

/-- The calls that start a session with `peer` as its initiator. -/
def Call.Initiates (peer : Peer) (call : Call) : Prop :=
  (∃ i handle peerBundle, call = .establishSessionInitiator i handle peerBundle) ∨ call.Starts peer

/-- Where the sessions and handles of a device come from, that has none of an older build. -/
structure Responders (c : DeviceConfig P) : Prop where
  stored : ∀ peer (rec : SessionRecord P.Key), c.shared.db.rows.lookup (.session peer) = some rec →
    rec.role = .responder → Evidence c.shared.db peer rec
  /-- The handshake is gone with the transaction that used it. -/
  consumed : ∀ (db : Db P.Key) rows (f : FirstMessage P), (db.push rows).Le c.shared.db →
    f.Commits db rows → db.rows.lookup (.provisional f.handle) = some f.provisional ∧
      rows.lookup (.provisional f.handle) = none
  once : ∀ (db₁ db₂ : Db P.Key) rows₁ rows₂ (f g : FirstMessage P),
    (db₁.push rows₁).Le c.shared.db → (db₂.push rows₂).Le c.shared.db →
    f.Commits db₁ rows₁ → g.Commits db₂ rows₂ → f.peer = g.peer → db₁ = db₂ ∧ rows₁ = rows₂
  /-- A session comes from a call that starts one, or from a first message that authenticates. -/
  created : ∀ call s s' peer (rec : SessionRecord P.Key), Performed c call s s' →
    s.db.rows.lookup (.session peer) = none → s'.db.rows.lookup (.session peer) = some rec →
    (rec.role = .initiator ∧ call.Initiates peer) ∨
      ∃ f : FirstMessage P, call.Receives f.handle f.wire ∧ f.Commits s.db s'.db.rows ∧
        f.peer = peer ∧ f.session = rec
  /-- A handle comes with a session. -/
  handle : ∀ call s s' handle (peer : Peer), Performed c call s s' →
    s'.db.rows.lookup (.handle handle) = some peer →
    s.db.rows.lookup (.handle handle) = some peer ∨ NewSessionOf s.db s'.db.rows peer

/-- A session that a step stores. -/
theorem Step.created {start : Db P.Key} (h : Step start call db rows)
    (hnone : db.rows.lookup (.session peer) = none) (hl : rows.lookup (.session peer) = some rec) :
    (rec.role = .initiator ∧ call.Initiates peer) ∨
      ∃ f : FirstMessage P, call.Receives f.handle f.wire ∧ f.Commits db rows ∧ f.peer = peer ∧
        f.session = rec := by
  rcases h with h | ⟨called, identity, sk, opk, h⟩
  · rcases h.session_new hnone hl with
      ⟨identity, handle, peerBundle, bundle, ephemeralSk, dhs, alice, called, -, rfl, rfl⟩ |
        ⟨identity, handle, wire, provisional, handshake, record, fresh, m, called, h, hp, -⟩
    · refine .inl ⟨rfl, ?_⟩
      rcases called with ⟨i, hc⟩ | ⟨p, -, hp, -, hs⟩
      · exact .inl ⟨i, handle, peerBundle, hc⟩
      · exact .inr (hp ▸ hs)
    · exact .inr ⟨⟨identity, handle, wire, provisional, handshake, record, fresh, rec, m⟩, called, h,
        hp, rfl⟩
  · simpa using session_written hnone hl h.eq

/-- **Responder sessions rest on an authenticated message**, and a handshake alone makes nothing. -/
theorem responders_received (h : Reachable scope c) (hno : NoLegacy scope)
    (hcf : Messenger.CollisionFree (P := P.toPlatform) c.shared.db) : Responders c where
  stored peer rec hl hr := ever_evidence h.valid hno (Db.ever_now hl) hr
  consumed db rows f hle hf := by
    refine ⟨hf.promote.provisional, ?_⟩
    rw [hf.promote.eq, Messenger.lookup_promoteChanges f.session f.message hf.promote.extra _ rfl]
    exact Rows.lookup_applyAll_head _ none (by simp)
  once db₁ db₂ rows₁ rows₂ f g hle₁ hle₂ hf hg heq := by
    have before : ∀ {db : Db P.Key} {rows : Rows P.Key}, (db.push rows).Le c.shared.db →
        db.Valid (Trans scope) ∧ Messenger.CollisionFree (P := P.toPlatform) db := fun hle =>
      have hle' := (Db.le_push _ _).trans hle
      ⟨h.valid.le hle', hcf.mono hle'⟩
    rcases Db.le_total hle₁ hle₂ with hle | hle
    · rcases Db.le_push_cases hle with he | hle
      · exact Db.push_inj he
      · obtain ⟨hv, hc⟩ := before hle₂
        exact absurd heq (hf.once hv hc hle hg)
    · rcases Db.le_push_cases hle with he | hle
      · obtain ⟨hdb, hrows⟩ := Db.push_inj he
        exact ⟨hdb.symm, hrows.symm⟩
      · obtain ⟨hv, hc⟩ := before hle₁
        exact absurd heq.symm (hg.once hv hc hle hf)
  created call s s' peer rec ha hnone hl := by
    obtain ⟨-, -, hmoves⟩ := h.acted ha
    rcases hmoves with hs | ⟨rows, hstep, hs⟩
    · rw [hs, hnone] at hl
      cases hl
    · rw [hs, Db.push_rows] at hl ⊢
      exact hstep.created hnone hl
  handle call s s' handle peer ha hl := by
    obtain ⟨hc, -, hmoves⟩ := h.acted ha
    rcases hmoves with hs | ⟨rows, hstep, hs⟩
    · exact .inl (hs ▸ hl)
    · rw [hs, Db.push_rows] at hl ⊢
      exact (Trans.call call hc hstep : Trans scope s.db rows).handle_origin hl

/-! ## A run -/

namespace FirstRun

/-- One session is stored. -/
theorem session_of_ever {p : Peer} {rec : SessionRecord symbolicApp.Key}
    (h : (Db.after writes).Ever (.session p) rec) : rec = session := by
  have hm := Db.ever_after h
  simp only [writes, List.flatten_cons, List.flatten_nil, List.append_nil, List.mem_append,
    List.mem_cons, List.not_mem_nil, or_false] at hm
  rcases hm with hm | hm | hm | hm
  · rcases FirstTx.mem_changes hm with hm | hm | hm | hm | hm <;> cases hm
    rfl
  all_goals cases hm

/-- No message is sent. -/
theorem not_ever_outbox {p : Peer} {id : MessageId} {m : OutgoingMessage}
    (h : (Db.after writes : Db symbolicApp.Key).Ever (.outbox p id) m) : False := by
  have hm := Db.ever_after h
  simp only [writes, List.flatten_cons, List.flatten_nil, List.append_nil, List.mem_append,
    List.mem_cons, List.not_mem_nil, or_false] at hm
  rcases hm with hm | hm | hm | hm
  · rcases FirstTx.mem_changes hm with hm | hm | hm | hm | hm <;> cases hm
  all_goals cases hm

theorem collisionFree : Messenger.CollisionFree (P := symbolicApp.toPlatform) (Db.after writes) where
  records _ _ _ h h' _ := (session_of_ever h).trans (session_of_ever h').symm
  wires _ _ _ _ _ _ h _ _ := (not_ever_outbox h).elim

end FirstRun

theorem responders_received_firstRun : ∃ c : DeviceConfig symbolicApp, Reachable FirstRun.anything c ∧
    c.shared.db = Db.after FirstRun.writes ∧ Responders c := by
  obtain ⟨c, -, hr, hdb⟩ := FirstRun.run_facts
  refine ⟨c, hr, hdb, responders_received hr (fun peer rec he => ?_) (hdb ▸ FirstRun.collisionFree)⟩
  exact (Db.not_ever_empty he).elim

end Network

end Arcium
