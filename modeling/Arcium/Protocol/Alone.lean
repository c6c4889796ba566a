import Arcium.Protocol.LifecycleSpec
import Arcium.Storage.Solo

/-!
# Operations that run alone

What `create_session` and `send` did if they returned a value and nothing else ran: the rules of `Sat`
say what was written at some time during the call, these say what is stored after it.
-/

namespace Arcium

open Conc

/-! ## Batches -/

section Batch

variable {P : Platform} {M err : Type} {s : Device P.Key M} {record : SessionRecord P.Key}
  {side : List (SideWrite P.Key)}

/-- What is stored after a batch, whose preconditions held. -/
structure Batched (P : Platform) (s : Device P.Key M) (peer : Peer)
    (expect : Expect P.Key (.session peer)) (record : SessionRecord P.Key)
    (side : List (SideWrite P.Key)) (s' : Device P.Key M) : Prop where
  holds : BatchHolds peer expect side s.db
  db : s'.db = s.db.push (s.db.rows.applyAll (batchChanges peer record side))

theorem writeConditional_gets {peer : Peer} {expect : Expect P.Key (.session peer)}
    {writes : List (Write P.Key)}
    (hw : batch ⟨.session peer, expect, .put record⟩ side = .ok writes) :
    Gets (writeConditional P writes : Run P.Key M _ _) s fun _ s' =>
      Batched P s peer expect record side s' := by
  obtain rfl := batch_ok hw
  have hcs : (List.filterMap Write.change
      (⟨.session peer, expect, .put record⟩ :: side.map SideWrite.toWrite)) =
      batchChanges peer record side := by
    simp [batchChanges, Write.change, List.filterMap_map, Function.comp_def]
  have checked : ∀ {read : (k : Key) → Except StorageError (Row P.Key k)}, Reads s.db.rows read →
      checkWrites P read 0 (⟨.session peer, expect, .put record⟩ :: side.map SideWrite.toWrite) =
        .ok () → BatchHolds peer expect side s.db := by
    intro read hr hc
    have hall := checkWrites_ok hr hc
    exact ⟨hall _ List.mem_cons_self, fun w hw =>
      hall _ (List.mem_cons_of_mem _ (List.mem_map_of_mem hw))⟩
  refine Gets.tx (fun read a hr h => ?_) fun read a c cs hr h => ?_
  · simp only [bind, Except.bind, pure, Except.pure] at h
    split at h
    · cases h
    · rw [hcs] at h
      cases h
  · simp only [bind, Except.bind, pure, Except.pure] at h
    split at h
    · cases h
    · next hc =>
      rw [hcs] at h
      cases h
      exact ⟨checked hr hc, rfl⟩

theorem DurableSession.createWith_gets {session : Session P.Key} {role : SessionRole}
    {our : Bytes32} :
    Gets (DurableSession.createWith P session role our side : Run P.Key M _ _) s fun _ s' =>
      ∃ record, encodeSessionCheckpoint session role our 0 = .ok record ∧
        Batched P s session.peerIdentityPk .absent record side s' := by
  unfold DurableSession.createWith
  split
  · exact .throw
  · next record henc =>
    dsimp only
    split
    · exact .throw
    · next writes hw =>
      exact (Gets.mapError (writeConditional_gets hw)).seq fun _ _ h => .pure ⟨record, henc, h⟩

theorem DurableSession.commitWith_gets {α : Type} {d : DurableSession P.Key}
    {staged : StagedTransition P.Key α} :
    Gets (d.commitWith P staged side : Run P.Key M err _) s fun x s' => ∀ a, x.1 = .ok a →
      a = staged.output ∧ Batched P s d.session.peerIdentityPk (.predecessor d.generation d.role
        ⟨d.ourIdentityPk, d.session.peerIdentityPk⟩ d.recordDigest) staged.record side s' := by
  unfold DurableSession.commitWith
  split
  · exact .pure nofun
  · exact .pure nofun
  · split
    · exact .pure nofun
    · dsimp only
      split
      · exact .pure nofun
      · next writes hw =>
        refine Gets.seq (Gets.attempt (writeConditional_gets hw)) fun r s' h => ?_
        cases r with
        | ok _ => exact .pure fun a ha => ⟨(Except.ok.inj ha).symm, h () rfl⟩
        | error e =>
          cases e with
          | conflict index c => cases index <;> exact .pure nofun
          | notCommitted e => exact .pure nofun
          | outcomeUnknown e => exact .pure nofun

end Batch

namespace Messenger

variable {P : Platform} {C : Choice → Prop} {s : Device P.Key Memory}

/-- A program that only reads. -/
theorem solo_of_look {α : Type} {p : Do P α} {R : Except MessagingError α → Db P.Key → Prop}
    (h : Sat (· = s.db) (fun _ _ => True) (fun _ _ => False) (LookPost [] s.db R) p [] s.db) :
    Solo C p s fun r s' => s'.db = s.db ∧ R r s.db :=
  Solo.of_quiet (h.mono fun _ _ _ hr => hr.2)

variable {our : Bytes32} {handle : UInt64} {peer : Peer} {α : Type}

theorem lift_gets {ε β : Type} {toErr : ε → MessagingError} {x : Except ε α} {f : α → Do P β}
    {V : β → Device P.Key Memory → Prop} (hf : ∀ a, x = .ok a → Gets (f a) s V) :
    Gets (lift toErr x >>= f) s V := by
  cases x with
  | ok a =>
    refine Gets.seq (V := fun b s' => b = a ∧ s' = s) (.pure ⟨rfl, rfl⟩) fun b s' h => ?_
    obtain ⟨rfl, rfl⟩ := h
    exact hf b rfl
  | error e => exact Gets.seq (V := fun _ _ => False) .throw fun _ _ h => h.elim

/-- A session that was created. -/
theorem createSession_gets (i : Nat) {new : NewSession P.Key} (hx : AppOnly new.extra) :
    Gets (createSession i our new) s fun _ s' => ∃ rows, CreateTx our new s.db rows ∧
      s'.db = s.db.push rows := by
  refine lift_gets fun side hside => ?_
  refine Gets.seq (Gets.attempt DurableSession.createWith_gets) fun r s₁ h => ?_
  have threw : Gets (do throw (← classifyTaken new.handle new.session.peerIdentityPk) : Do P Unit) s₁
      fun _ s' => ∃ rows, CreateTx our new s.db rows ∧ s'.db = s.db.push rows := by
    refine Gets.seq (V := fun _ _ => True) (fun _ _ _ _ _ => trivial) fun _ _ _ => .throw
  cases r with
  | ok d =>
    obtain ⟨record, henc, hb⟩ := h d rfl
    exact .remember ⟨_, createTx_of_batch hx hside henc hb.holds, hb.db⟩
  | error e =>
    cases e with
    | sideConflict index conflict =>
      cases index with
      | zero => exact threw
      | succ index =>
        dsimp only
        split <;> exact .throw
    | alreadyExists => exact threw
    | outcomeUnknown e =>
      exact Gets.seq (V := fun _ _ => True) (.remember trivial) fun _ _ _ => .throw
    | _ => exact .throw

/-- A message that was sent, or had been sent before. -/
inductive SendGets (our : Bytes32) (handle : UInt64) (peer : Peer) (clientId plaintext : Bytes)
    (s : Device P.Key Memory) (o : SendOutcome) (s' : Device P.Key Memory) : Prop
  | prior (h : PriorAt s.db.rows peer clientId o) (db : s'.db = s.db)
  | sent (old new : SessionRecord P.Key) (m : OutgoingMessage) (rows : Rows P.Key)
      (found : s.db.rows.lookup (.session peer) = some old)
      (h : SendTx our handle clientId plaintext s.db peer peer old new m rows)
      (outcome : o = .sent m) (db : s'.db = s.db.push rows)

/-- A commit that failed is an error. -/
theorem commitError_gets {i : Nat} {generation : UInt64} {keys : List Key} {legacy : Option Peer}
    {e : CommitError} {V : α → Device P.Key Memory → Prop} :
    Gets (commitError i handle generation keys legacy e : Do P α) s V := by
  cases e with
  | outcomeUnknown f =>
    exact Gets.seq (V := fun _ _ => True) (.remember trivial) fun _ _ _ => .throw
  | _ => exact .throw

/-- A session that was loaded. -/
structure LoadGets (our : Bytes32) (handle : UInt64) (s : Device P.Key Memory)
    (x : DurableSession P.Key × Peer) (s' : Device P.Key Memory) : Prop where
  db : s'.db = s.db
  named : s.db.rows.lookup (.handle handle) = some x.2
  found : ∃ old, x.1 = .ofRecord P old ∧ s.db.rows.lookup (.session x.2) = some old ∧
    old.Bound our x.2

theorem load_gets : Gets (load our handle) s (LoadGets (P := P) our handle s) := by
  refine Gets.seq (V := fun q s' => s'.db = s.db ∧ s.db.rows.lookup (.handle handle) = some q)
    ((solo_of_look (requirePeer_sat handle)).mono fun r s' h q hq => ⟨h.1, h.2 q hq⟩)
    fun q s₁ h₁ => ?_
  refine Gets.seq (V := fun d s' => s'.db = s₁.db ∧ LoadResult our handle q s₁.db (.ok d))
    ((solo_of_look (loadFor_sat handle q)).mono fun r s' h d hd => ⟨h.1, hd ▸ h.2⟩) fun d s₂ h₂ => ?_
  rw [h₁.1] at h₂
  obtain ⟨hdb, h₂⟩ := h₂
  cases h₂ with
  | loaded old hf hb => exact .pure ⟨hdb, h₁.2, old, rfl, hf, hb⟩

theorem sendAs_gets (i : Nat) {clientId plaintext : Bytes}
    (hp : s.db.rows.lookup (.handle handle) = some peer)
    (hid : clientId ≠ [] ∧ clientId.length ≤ maxClientMessageIdLen) :
    Gets (sendAs i our handle clientId plaintext peer) s
      (SendGets our handle peer clientId plaintext s) := by
  refine Gets.seq ((solo_of_look (readPriorSend_sat peer clientId)).mono
    (U := fun r s' => ∀ o, r = .ok o → s'.db = s.db ∧ PriorResult s.db.rows peer clientId (.ok o))
    fun r s' h o ho => ⟨h.1, ho ▸ h.2⟩) fun o s₁ h₁ => ?_
  obtain ⟨hdb₁, h₁⟩ := h₁
  cases h₁ with
  | prior o h => exact .pure (.prior h hdb₁)
  | none hno =>
    refine Gets.seq load_gets fun x s₂ h₂ => ?_
    obtain ⟨d, q⟩ := x
    obtain ⟨old, rfl, hf, hb⟩ := h₂.found
    obtain rfl : q = peer := Option.some.inj (h₂.named.symm.trans (hdb₁ ▸ hp))
    rw [hdb₁] at hf
    refine Gets.seq (V := fun _ s' => s'.db = s.db) (.draw fun _ => h₂.db.trans hdb₁)
      fun nonce s₃ h₃ => ?_
    refine lift_gets fun staged hst => lift_gets fun outbox hob => lift_gets fun index hix => ?_
    obtain rfl : old.peer = q := hb.theirs
    obtain rfl : old.our = our := hb.ours
    refine Gets.seq DurableSession.commitWith_gets fun x s₄ h₄ => ?_
    obtain ⟨r, d'⟩ := x
    cases r with
    | error e => exact commitError_gets
    | ok a =>
      obtain ⟨rfl, hbatch⟩ := h₄ a rfl
      refine .pure (.sent old staged.record _ _ hf (sendTx_of_batch ?_ hid ?_ hst rfl
        (SideWrite.insert_ok hob) (SideWrite.insert_ok hix) ?_) rfl ?_)
      · exact ⟨s.db, Db.Le.refl _, hp⟩
      · exact ⟨⟨s.db, s.db, Db.Le.refl _, Db.Le.refl _, hp, hf⟩, hb⟩
      · rw [← h₃]
        exact hbatch.holds
      · rw [hbatch.db, h₃]
        rfl

end Messenger

end Arcium
