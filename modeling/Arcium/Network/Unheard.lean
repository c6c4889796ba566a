import Arcium.Network.System
import Arcium.Protocol.StoreAlone
import Arcium.Storage.Solo

/-!
# A message that is received alone

`receive_message`, when nothing else runs: it looks up what the handle names, or the handshake that is
recorded under it and the prekeys, and writes nothing unless the wire decrypts on what these give
(`receive_leaves`).
-/

namespace Arcium

open Conc

namespace Messenger

variable {P : Platform} {our : Bytes32} {s : Device P.Key Memory} {Q : Prop}

theorem lift_leaves {ε α β : Type} {toErr : ε → MessagingError} {x : Except ε α} {f : α → Do P β}
    (hf : ∀ a, x = .ok a → Leaves Q (f a) s) : Leaves Q (lift toErr x >>= f) s := by
  cases x with
  | ok a => exact hf a rfl
  | error e => exact Leaves.throw

/-- The wire decrypts on the stored session that the handle names. -/
def OnSession (rows : Rows P.Key) (handle : UInt64) (wire : Bytes) : Prop :=
  ∃ peer old new fresh plaintext, rows.lookup (.handle handle) = some peer ∧
    rows.lookup (.session peer) = some old ∧ Decrypts old new wire fresh plaintext

theorem receive_leaves (i : Nat) {handle : UInt64} {wire : Bytes}
    (hQ : OnSession s.db.rows handle wire → Q) :
    Leaves Q (receive i our handle wire : Do P _) s := by
  refine .seq (fun _ _ h => LookPost.steady (receivePeer_sat i handle wire) h) fun x s₁ h₁ hx => ?_
  obtain ⟨peer, header, ciphertext⟩ := x
  obtain ⟨hw, hnamed⟩ := hx _ _ _ rfl
  refine .seq (fun _ _ h => LookPost.steady (loadFor_sat handle peer) h) fun d s₂ h₂ hd => ?_
  cases hd with
  | loaded old found bound =>
  refine .seq (fun _ _ h => LookPost.steady (readDuplicate_sat peer _) h) fun d s₃ h₃ _ => ?_
  cases d with
  | some d => exact .pure
  | none =>
    refine .seq (R := fun _ _ => True) Solo.draw fun fresh s₄ h₄ _ => lift_leaves fun staged hst => .of (hQ ?_)
    obtain ⟨-, -, -, hop, hrec, -⟩ := DurableSession.stage_ok hst
    rw [h₂, h₁] at found
    rw [h₁] at hnamed
    exact ⟨peer, old, staged.record, fresh, staged.output, hnamed, found, header, ciphertext, hw,
      by rw [hrec]; exact hop⟩

/-- The wire decrypts on the session that `first` gives. -/
def OnCandidate (our : Bytes32) (first : FirstContact P.Key) (wire : Bytes) : Prop :=
  ∃ new fresh plaintext, Decrypts (candidateRecord our first) new wire fresh plaintext

theorem promoteFirst_leaves (i : Nat) {first : FirstContact P.Key} {wire : Bytes}
    (hQ : OnCandidate our first wire → Q) : Leaves Q (promoteFirst i our first wire) s := by
  refine .seq (fun _ _ h => LookPost.steady (requireResolved_sat i first.handle) h) fun _ s₁ _ _ => ?_
  dsimp only
  split
  · exact Leaves.throw
  · refine lift_leaves fun hc hw => lift_leaves fun candidate hcand => ?_
    refine .seq (R := fun _ _ => True) Solo.draw fun fresh s₂ _ _ => ?_
    refine lift_leaves fun staged hst => .of (hQ ?_)
    obtain ⟨record, henc, rfl⟩ := candidate_ok hcand
    have hst : (DurableSession.new P first.session .responder our 0 record).stageDecrypt P hc.1 hc.2
        fresh = .ok staged := hst
    obtain ⟨-, -, -, hop, hrec, -⟩ := DurableSession.stage_ok hst
    exact ⟨staged.record, fresh, staged.output, hc.1, hc.2, hw, by rw [hrec]; exact hop⟩

theorem acceptFirstMessage_leaves (i : Nat) {first : FirstContact P.Key} {wire : Bytes}
    (hfirst : OnCandidate our first wire → Q) (hsession : OnSession s.db.rows first.handle wire → Q) :
    Leaves Q (acceptFirstMessage i our first wire) s := by
  refine (promoteFirst_leaves i hfirst).and_then fun received s₁ h₁ => ?_
  cases received with
  | some received => exact .pure
  | none => exact receive_leaves i (h₁ ▸ hsession)

end Messenger

namespace Network

variable {P : AppPlatform} {s : Device P.Key Memory} {Q : Prop} {identity : Identity} {handle : UInt64}
  {wire : Bytes}

/-- The wire decrypts on the session that the handle names, or on the one that the handshake recorded
under it gives with the prekeys, as the records are. -/
inductive AuthenticatesNow (rows : Rows P.Key) (handle : UInt64) (wire : Bytes) : Prop
  | session (h : Messenger.OnSession (P := P.toPlatform) rows handle wire)
  | first (identity : Identity) (provisional : ProvisionalHandshake) (handshake : InitiatorHandshake)
      (record : PrekeyRecord) (fresh : UInt64 × StaticSecret)
      (own : rows.lookup .identity = some identity)
      (recorded : rows.lookup (.provisional handle) = some provisional)
      (parsed : unpackInitiatorHandshake provisional.handshake = .ok handshake)
      (prekeys : rows.lookup .prekeys = some record)
      (answerable : Core.checkAnswerable P record handshake = .ok ())
      (h : Messenger.OnCandidate (P := P.toPlatform) (Core.dhPublicKey P identity)
        (firstContact identity handle provisional handshake record fresh) wire)

/-- Running alone, it ends with the database as it was, and `R` of what it returns. -/
abbrev Reading {α : Type} (p : Core P α) (s : Device P.Key Memory) (R : α → Prop) : Prop :=
  Solo (fun _ => True) p s fun r s' => s'.db = s.db ∧ ∀ a, r = .ok a → R a

theorem get_reading (k : Key) :
    Reading (Core.get k : Core P _) s fun v => s.db.rows.lookup k = some v := by
  refine Solo.seq Solo.find (fun e s' h => ⟨h.1, nofun⟩) fun v s₁ h => ?_
  have hv := h.2 v rfl
  rw [h.1] at hv
  cases v with
  | some w => exact Solo.pure ⟨h.1, fun _ ha => Except.ok.inj ha ▸ hv⟩
  | none => exact Solo.throw ⟨h.1, nofun⟩

theorem requireIdentity_reading :
    Reading (Core.requireIdentity : Core P _) s fun i => s.db.rows.lookup .identity = some i := by
  refine Solo.seq Solo.find (fun e s' h => ⟨h.1, nofun⟩) fun v s₁ h => ?_
  have hv := h.2 v rfl
  rw [h.1] at hv
  cases v with
  | some w => exact Solo.pure ⟨h.1, fun _ ha => Except.ok.inj ha ▸ hv⟩
  | none => exact Solo.throw ⟨h.1, nofun⟩

theorem messenger_reading {α : Type} {x : Do P.toPlatform α} {R : α → Db P.Key → Prop}
    (h : Sat (fun _ => True) (fun _ _ => False) (fun _ _ => False)
      (Messenger.LookPost [] s.db fun r db => ∀ a, r = .ok a → R a db) x [] s.db) :
    Reading (Core.messenger handle x : Core P α) s fun a => R a s.db := by
  refine Solo.mapError fun r s' ha => ?_
  obtain ⟨hs, hr⟩ := Messenger.LookPost.steady h ha
  refine ⟨hs, fun a he => hs ▸ hr a ?_⟩
  cases r with
  | ok b => exact congrArg _ (Except.ok.inj he)
  | error e => cases he

theorem consume_reading (record : PrekeyRecord) :
    Reading (Core.consume record : Core P _) s fun _ => True := by
  unfold Core.consume
  split
  · exact Solo.pure ⟨rfl, fun _ _ => trivial⟩
  · refine Solo.seq (Q := fun _ s' => s'.db = s.db) ?_ (fun _ _ h => ⟨h, fun _ _ => trivial⟩)
      fun opk s₁ h₁ => ?_
    · refine Solo.seq Solo.draw (fun _ _ h => h.1) fun _ s₁ h₁ => ?_
      exact Solo.seq Solo.draw (fun _ _ h => h.1.trans h₁.1) fun _ s₂ h₂ =>
        Solo.pure (h₂.1.trans h₁.1)
    · split
      · exact Solo.pure ⟨h₁, fun _ _ => trivial⟩
      · exact Solo.throw ⟨h₁, fun _ _ => trivial⟩

theorem lift_core_leaves {α β : Type} {x : Except CoreError α} {f : α → Core P β}
    (hf : ∀ a, x = .ok a → Leaves Q (f a) s) : Leaves Q (Core.lift x >>= f) s := by
  cases x with
  | ok a => exact hf a rfl
  | error e => exact Leaves.throw

/-- What is done with what was read. -/
theorem Reading.leaves {α β : Type} {x : Core P α} {f : α → Core P β} {R : α → Prop}
    (hx : Reading x s R) (hf : ∀ a s', s'.db = s.db → R a → Leaves Q (f a) s') :
    Leaves Q (x >>= f) s :=
  .seq (R := fun r _ => ∀ a, r = .ok a → R a) hx fun a s' hs ha => hf a s' hs (ha a rfl)

theorem receive_core_leaves (i : Nat) (hQ : AuthenticatesNow s.db.rows handle wire → Q) :
    Leaves Q (Core.messenger handle
      (Messenger.receive i (Core.dhPublicKey P identity) handle wire) : Core P _) s :=
  .mapError (Messenger.receive_leaves i fun h => hQ (.session h))

theorem acceptFirstMessage_core_leaves (i : Nat) {provisional : ProvisionalHandshake}
    (own : s.db.rows.lookup .identity = some identity)
    (recorded : s.db.rows.lookup (.provisional handle) = some provisional)
    (hQ : AuthenticatesNow s.db.rows handle wire → Q) :
    Leaves Q (Core.acceptFirstMessage i identity handle provisional wire : Core P _) s := by
  refine lift_core_leaves fun handshake parsed => ?_
  dsimp only
  split
  · exact Leaves.throw
  refine (get_reading _).leaves fun record s₁ h₁ prekeys => ?_
  split
  · refine (messenger_reading (Messenger.peerOf_sat handle)).leaves fun o s₂ h₂ _ => ?_
    split
    · exact receive_core_leaves i (h₂.trans h₁ ▸ hQ)
    · exact .throw
  · next answerable =>
    refine (consume_reading record).leaves fun extra s₂ h₂ _ => ?_
    have h₂ := h₂.trans h₁
    refine Leaves.and_then (.attempt (Messenger.acceptFirstMessage_leaves i (fun h => hQ ?_)
      fun h => hQ (.session (h₂ ▸ h)))) fun r s₃ _ => ?_
    · exact .first identity provisional handshake record default own recorded parsed prekeys answerable h
    · split
      · exact .pure
      · exact .throw
      · exact .throw

theorem receiveCommitted_leaves (i : Nat) (hQ : AuthenticatesNow s.db.rows handle wire → Q) :
    Leaves Q (Core.receiveCommitted i handle wire : Core P _) s := by
  refine requireIdentity_reading.leaves fun identity s₁ h₁ own => ?_
  refine (messenger_reading (Messenger.peerOf_sat handle)).leaves fun o s₂ h₂ _ => ?_
  have h₂ := h₂.trans h₁
  split
  · exact receive_core_leaves i (h₂ ▸ hQ)
  · refine (messenger_reading (R := fun o db => ∀ p, o = some p →
      db.rows.lookup (.provisional handle) = some p) ((Messenger.provisionalHandshake_sat handle).mono
        fun r _ _ h => ⟨h.1, fun o ho p hp => h.2 p (ho.trans (congrArg _ hp))⟩)).leaves
      fun o s₃ h₃ ho => ?_
    have h₃ := h₃.trans h₂
    split
    · next p =>
      have recorded := ho p rfl
      rw [h₂, ← h₃] at recorded
      exact acceptFirstMessage_core_leaves i (h₃ ▸ own) recorded (h₃ ▸ hQ)
    · exact receive_core_leaves i (h₃ ▸ hQ)

/-- **A message that is received alone** and decrypts on nothing that the handle has writes nothing. -/
theorem receive_alone (i : Nat) {res : Res} {s' : Device P.Key Memory}
    (ha : Prog.Alone (fun _ => True) (body (.receiveMessage i handle wire)) s res s')
    (hn : ¬ AuthenticatesNow s.db.rows handle wire) : s'.db = s.db := by
  obtain ⟨r, hr, -⟩ := Messenger.returning_alone ha
  exact (receiveCommitted_leaves i hn r s' hr).resolve_right id

end Network

end Arcium
