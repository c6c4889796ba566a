import Arcium.Protocol.Durable

/-!
# What the conditional commit does

`writeConditional` either leaves the database alone, or writes its whole batch into a database in
which every precondition holds (`BatchHolds`). The triples of `createWith`, `commitWith` and
`promoteWith` follow; `stage_ok` says what a staged transition is.
-/

namespace Arcium

open Conc

variable {P : Platform} {M err : Type}

/-- The precondition holds of the stored records. -/
def Expect.Holds (P : Platform) (rows : Rows P.Key) : {k : Key} → Expect P.Key k → Prop
  | k, .absent => rows.lookup k = none
  | k, .exactly want => rows.lookup k = some want
  | .session peer, .predecessor generation role binding digest =>
    ∃ found : SessionRecord P.Key, rows.lookup (.session peer) = some found ∧
      found.Bound binding.ourIdentityPk binding.peerIdentityPk ∧ found.role = role ∧
      found.generation = generation ∧ P.recordDigest found = digest

theorem checkPrecondition_present {rows : Rows P.Key} {k : Key} {v : Row P.Key k}
    {expect : Expect P.Key k} (hv : rows.lookup k = some v)
    (h : checkPrecondition P (.present v) expect = .ok ()) : expect.Holds P rows := by
  cases expect with
  | absent => cases h
  | exactly want =>
    simp only [checkPrecondition] at h
    split at h
    · next heq => exact heq ▸ hv
    · cases h
  | predecessor generation role binding digest =>
    simp only [checkPrecondition] at h
    split at h
    · cases h
    · cases h
    · cases h
    · next found hd =>
      obtain ⟨rfl, hb⟩ := decodeSessionCheckpoint_ok hd
      simp only at h
      split_ifs at h with h1 h2 h3
      exact ⟨v, hv, hb, not_not.mp h1, not_not.mp h2, not_not.mp h3⟩

theorem checkPrecondition_missing {rows : Rows P.Key} {k : Key} {expect : Expect P.Key k}
    (hv : rows.lookup k = none) (h : checkPrecondition P .missing expect = .ok ()) :
    expect.Holds P rows := by
  cases expect with
  | absent => exact hv
  | exactly want => cases h
  | predecessor generation role binding digest => cases h

theorem checkPrecondition_unreadable {k : Key} {expect : Expect P.Key k} :
    checkPrecondition P .unreadable expect ≠ .ok () := by
  cases expect <;> exact nofun

theorem mapError_ok {ε ε' α : Type} {f : ε → ε'} {x : Except ε α} {a : α}
    (h : x.mapError f = .ok a) : x = .ok a := by
  cases x with
  | ok b => exact congrArg _ (Except.ok.inj h)
  | error e => cases h

theorem checkWrite_ok {rows : Rows P.Key} {read : (k : Key) → Except StorageError (Row P.Key k)}
    (hr : Reads rows read) {index : Nat} {w : Write P.Key}
    (h : checkWrite P read index w = .ok ()) : w.expect.Holds P rows := by
  unfold checkWrite at h
  split at h
  · next v hv => exact checkPrecondition_present (hr.found _ _ hv) (mapError_ok h)
  · next hv => exact checkPrecondition_missing (hr.missing _ hv) (mapError_ok h)
  · exact absurd (mapError_ok h) checkPrecondition_unreadable
  · cases h

theorem checkWrites_ok {rows : Rows P.Key} {read : (k : Key) → Except StorageError (Row P.Key k)}
    (hr : Reads rows read) {index : Nat} {writes : List (Write P.Key)}
    (h : checkWrites P read index writes = .ok ()) : ∀ w ∈ writes, w.expect.Holds P rows := by
  induction writes generalizing index with
  | nil => exact fun w hw => nomatch hw
  | cons w writes ih =>
    simp only [checkWrites, bind, Except.bind] at h
    split at h
    · cases h
    · next hw =>
      intro w' hw'
      rcases List.mem_cons.mp hw' with rfl | hw'
      · exact checkWrite_ok hr hw
      · exact ih h w' hw'

section Triples

variable {I : Db P.Key → Prop}
  {A : Db P.Key → Request × Answer → Prop} {T : Db P.Key → Rows P.Key → Prop} {tr : Trace P.Key} {db : Db P.Key}

/-- The batch of a session record and side writes. -/
def batchChanges (peer : Peer) (record : SessionRecord P.Key) (side : List (SideWrite P.Key)) :
    List (Change P.Key) :=
  ⟨.session peer, some record⟩ :: side.filterMap fun w => w.toWrite.change

/-- The preconditions of such a batch hold. -/
structure BatchHolds (peer : Peer) (expect : Expect P.Key (.session peer))
    (side : List (SideWrite P.Key)) (db : Db P.Key) : Prop where
  session : expect.Holds P db.rows
  side : ∀ w ∈ side, w.toWrite.expect.Holds P db.rows

theorem writeConditional_sat {peer : Peer} {expect : Expect P.Key (.session peer)}
    {record : SessionRecord P.Key} {side : List (SideWrite P.Key)} {writes : List (Write P.Key)}
    (hw : batch ⟨.session peer, expect, .put record⟩ side = .ok writes)
    (hT : ∀ db₁, db.Le db₁ → I db₁ → BatchHolds peer expect side db₁ →
      T db₁ (db₁.rows.applyAll (batchChanges peer record side))) :
    Sat I A T (Once T (· = .ok ()) (∃ f, · = .error (.outcomeUnknown f)) (∃ e, · = .error e) tr db)
      (writeConditional P writes : Run P.Key M _ _) tr db := by
  obtain rfl := batch_ok hw
  refine Sat.tx (fun db₁ hle hI read hr => ?_) fun db₁ hle _ f =>
    .failed (.step hle) ⟨_, rfl⟩
  simp only [bind, Except.bind, pure, Except.pure]
  split
  · next e _ => exact .failed (.step hle) ⟨e, rfl⟩
  · next hc =>
    have hall := checkWrites_ok hr hc
    have hb : BatchHolds peer expect side db₁ :=
      ⟨hall _ List.mem_cons_self, fun w hw =>
        hall _ (List.mem_cons_of_mem _ (List.mem_map_of_mem hw))⟩
    have hcs : (List.filterMap Write.change
        (⟨.session peer, expect, .put record⟩ :: side.map SideWrite.toWrite)) =
        batchChanges peer record side := by
      simp [batchChanges, Write.change, List.filterMap_map, Function.comp_def]
    have hs := hT db₁ hle hI hb
    rw [hcs]
    exact
      { step := hs
        ok := .written hle hs (.inl rfl)
        unknownStored := fun f => .written hle hs (.inr ⟨_, rfl⟩)
        unknownLost := fun f => .failed (.step hle) ⟨_, rfl⟩
        writeFault := fun f => .failed (.step hle) ⟨_, rfl⟩ }

/-! ## Sessions -/

namespace DurableSession

/-- What `stage` returns, on an instance made from the record `old`. -/
theorem stage_ok {α : Type} {s : DurableSession P.Key}
    {op : DoubleRatchet P.Key → Bytes → Outcome P.Key α} {staged : StagedTransition P.Key α}
    (h : s.stage op = .ok staged) :
    s.generation ≠ 0xFFFFFFFFFFFFFFFF ∧ staged.generation = s.generation + 1 ∧
      staged.baseGeneration = s.generation ∧
      op s.session.ratchet s.session.ad = (.ok staged.output, staged.ratchet) ∧
      staged.record = { role := s.role, generation := s.generation + 1, our := s.ourIdentityPk
                        peer := s.session.peerIdentityPk, ad := s.session.ad
                        ratchet := staged.ratchet } ∧
      staged.record.Bound s.ourIdentityPk s.session.peerIdentityPk := by
  unfold stage at h
  split at h
  · cases h
  · cases h
  · split at h
    · cases h
    · next hg =>
      split at h
      · cases h
      · cases h
      · next out r hop =>
        simp only at h
        split at h
        · cases h
        · next rec henc =>
          obtain ⟨rfl, hb⟩ := encodeParts_ok henc
          obtain rfl := Except.ok.inj h
          exact ⟨hg, rfl, rfl, hop, rfl, hb⟩

/-- The instance that `load` makes of a record. -/
def ofRecord (P : Platform) (rec : SessionRecord P.Key) : DurableSession P.Key :=
  DurableSession.new P rec.session rec.role rec.our rec.generation rec

@[simp] theorem ofRecord_hasReceived (rec : SessionRecord P.Key) :
    (ofRecord P rec).hasReceived = rec.ratchet.hasReceivingChain := rfl

@[simp] theorem ofRecord_holdsRecord (rec found : SessionRecord P.Key) :
    (ofRecord P rec).holdsRecord P found = true ↔ P.recordDigest found = P.recordDigest rec :=
  beq_iff_eq

@[simp] theorem ofRecord_isLegacyUnconfirmed (rec : SessionRecord P.Key) :
    (ofRecord P rec).isLegacyUnconfirmed = true ↔
      rec.role = .responder ∧ rec.generation = 0 ∧ rec.ratchet.isInitialResponderState = true := by
  simp [isLegacyUnconfirmed, ofRecord, DurableSession.new, SessionRecord.session, and_assoc]

theorem fromRecord_ok {rec : SessionRecord P.Key} {binding : SessionBinding}
    {s : DurableSession P.Key} (h : fromRecord P rec binding = .ok s) :
    s = ofRecord P rec ∧ rec.Bound binding.ourIdentityPk binding.peerIdentityPk := by
  simp only [fromRecord, bind, Except.bind, pure, Except.pure] at h
  split at h
  · cases h
  · next restored hd =>
    obtain ⟨rfl, hb⟩ := decodeSessionCheckpoint_ok hd
    obtain rfl := Except.ok.inj h
    exact ⟨by rw [ofRecord, hb.ours], hb⟩

theorem fromRecord_of_bound {rec : SessionRecord P.Key} {our : Bytes32} {peer : Peer}
    (h : rec.Bound our peer) : fromRecord P rec ⟨our, peer⟩ = .ok (ofRecord P rec) := by
  simp only [fromRecord, h.decode, bind, Except.bind, pure, Except.pure, ofRecord, h.ours]

theorem openError_unknown {α : Type} {e : WriteFailure}
    (h : ∃ f, (Except.error e : Except WriteFailure Unit) = .error (.outcomeUnknown f)) :
    ∃ f, (Except.error (openError e) : Except OpenError α) = .error (.outcomeUnknown f) := by
  obtain ⟨f, h⟩ := h
  cases h
  exact ⟨f, rfl⟩

theorem createWith_sat {session : Session P.Key} {role : SessionRole} {our : Bytes32}
    {side : List (SideWrite P.Key)}
    (hT : ∀ record db₁, encodeSessionCheckpoint session role our 0 = .ok record → db.Le db₁ →
      I db₁ → BatchHolds session.peerIdentityPk .absent side db₁ →
      T db₁ (db₁.rows.applyAll (batchChanges session.peerIdentityPk record side))) :
    Sat I A T (Once T (∃ s, · = .ok s) (∃ f, · = .error (.outcomeUnknown f)) (∃ e, · = .error e) tr db)
      (createWith P session role our side : Run P.Key M _ _) tr db := by
  unfold createWith
  split
  · exact Sat.throw (.failed (.refl tr db) ⟨_, rfl⟩)
  · next record henc =>
    simp only
    split
    · exact Sat.throw (.failed (.refl tr db) ⟨_, rfl⟩)
    · next writes hw =>
      refine Sat.bind (Sat.mapError ((writeConditional_sat hw fun db₁ => hT record db₁ henc).mono ?_))
      rintro r tr₁ db₁ h
      cases r with
      | ok _ => exact Sat.pure (h.imp (fun _ => ⟨_, rfl⟩) nofun nofun)
      | error e => exact h.imp nofun openError_unknown fun _ => ⟨_, rfl⟩

theorem commitWith_sat {α : Type} {s : DurableSession P.Key} {staged : StagedTransition P.Key α}
    {side : List (SideWrite P.Key)}
    (hT : ∀ db₁, db.Le db₁ → I db₁ →
      BatchHolds s.session.peerIdentityPk (.predecessor s.generation s.role
        ⟨s.ourIdentityPk, s.session.peerIdentityPk⟩ s.recordDigest) side db₁ →
      T db₁ (db₁.rows.applyAll (batchChanges s.session.peerIdentityPk staged.record side))) :
    Sat I A T (Once T (∃ s', · = .ok (.ok staged.output, s'))
        (∃ f s', · = .ok (.error (.outcomeUnknown f), s')) (∃ e s', · = .ok (.error e, s')) tr db)
      (s.commitWith P staged side : Run P.Key M err _) tr db := by
  unfold commitWith
  split
  · exact Sat.pure (.failed (.refl tr db) ⟨_, _, rfl⟩)
  · exact Sat.pure (.failed (.refl tr db) ⟨_, _, rfl⟩)
  · split
    · exact Sat.pure (.failed (.refl tr db) ⟨_, _, rfl⟩)
    · simp only
      split
      · exact Sat.pure (.failed (.refl tr db) ⟨_, _, rfl⟩)
      · next writes hw =>
        refine Sat.bind (Sat.attempt ((writeConditional_sat hw hT).mono ?_))
        intro r tr₁ db₁ h
        match r with
        | .ok () => exact Sat.pure (h.imp (fun _ => ⟨_, rfl⟩) nofun nofun)
        | .error (.conflict 0 c) => exact Sat.pure (h.imp nofun nofun fun _ => ⟨_, _, rfl⟩)
        | .error (.conflict (index + 1) c) => exact Sat.pure (h.imp nofun nofun fun _ => ⟨_, _, rfl⟩)
        | .error (.notCommitted e) => exact Sat.pure (h.imp nofun nofun fun _ => ⟨_, _, rfl⟩)
        | .error (.outcomeUnknown e) =>
          exact Sat.pure (h.imp nofun (fun _ => ⟨_, _, rfl⟩) fun _ => ⟨_, _, rfl⟩)

end DurableSession

theorem ProvisionalSession.promoteWith_sat {s : ProvisionalSession P.Key}
    {staged : StagedTransition P.Key Bytes} {side : List (SideWrite P.Key)}
    (hT : ∀ db₁, db.Le db₁ → I db₁ →
      BatchHolds s.inner.session.peerIdentityPk .absent side db₁ →
      T db₁ (db₁.rows.applyAll (batchChanges s.inner.session.peerIdentityPk staged.record side))) :
    Sat I A T (Once T (∃ s', · = .ok (s', staged.output)) (∃ f, · = .error (.outcomeUnknown f))
        (∃ e, · = .error e) tr db)
      (s.promoteWith P staged side : Run P.Key M _ _) tr db := by
  unfold promoteWith
  split
  · exact Sat.throw (.failed (.refl tr db) ⟨_, rfl⟩)
  · split
    · exact Sat.throw (.failed (.refl tr db) ⟨_, rfl⟩)
    · next writes hw =>
      refine Sat.bind (Sat.mapError ((writeConditional_sat hw hT).mono ?_))
      rintro r tr₁ db₁ h
      cases r with
      | ok _ => exact Sat.pure (h.imp (fun _ => ⟨_, rfl⟩) nofun nofun)
      | error e => exact h.imp nofun DurableSession.openError_unknown fun _ => ⟨_, rfl⟩

end Triples

end Arcium
