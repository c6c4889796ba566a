import Arcium.Protocol.DurableSpec

/-!
# Conditional batches are all or nothing (`core-protocol/src/durable.rs`)

`BatchEnds` is what a batch of a session write and side writes is for: it takes effect if and only if
no key is named twice and every precondition holds of what is stored, and otherwise the first write
whose precondition does not hold is reported. `createWith`, `commitWith` and `promoteWith` do that
(`AllOrNothing`), on every state of the store, rows that fail authentication included; and the order
of the side writes matters only to which conflict is reported (`BatchEnds.perm`).
-/

namespace Arcium

open Conc

/-! ## What a batch does -/

section Spec

variable {P : Platform}

/-- What is stored at a key, where the rows at the keys in `unreadable` fail authentication. -/
def stored {K : Type} (unreadable : Key → Bool) (rows : Rows K) (k : Key) : Current K k :=
  match rows.lookup k with
  | none => .missing
  | some v => if unreadable k then .unreadable else .present v

/-- The precondition holds of what is stored. -/
def Expect.Met (P : Platform) : {k : Key} → Expect P.Key k → Current P.Key k → Prop
  | _, .absent, current => current = .missing
  | _, .exactly want, current => current = .present want
  | .session _, .predecessor generation role binding digest, current =>
    ∃ found : SessionRecord P.Key, current = .present found ∧
      found.Bound binding.ourIdentityPk binding.peerIdentityPk ∧ found.role = role ∧
      found.generation = generation ∧ P.recordDigest found = digest

/-- `check_precondition` decides whether a precondition holds. -/
theorem checkPrecondition_iff {k : Key} {expect : Expect P.Key k} {current : Current P.Key k} :
    checkPrecondition P current expect = .ok () ↔ expect.Met P current := by
  cases expect with
  | absent =>
    cases current with
    | present v => simp [checkPrecondition, Expect.Met]
    | missing => simp [checkPrecondition, Expect.Met]
    | unreadable => simp [checkPrecondition, Expect.Met]
  | exactly want =>
    cases current with
    | present v =>
      simp only [checkPrecondition, Expect.Met, Current.present.injEq]
      split
      · next h => simp [h]
      · next h => simp [h]
    | missing => simp [checkPrecondition, Expect.Met]
    | unreadable => simp [checkPrecondition, Expect.Met]
  | predecessor generation role binding digest =>
    cases current with
    | present v =>
      constructor
      · intro h
        simp only [checkPrecondition] at h
        split at h
        · cases h
        · cases h
        · cases h
        · next found hd =>
          obtain ⟨rfl, hb⟩ := decodeSessionCheckpoint_ok hd
          simp only at h
          split_ifs at h with h1 h2 h3
          exact ⟨v, rfl, hb, not_not.mp h1, not_not.mp h2, not_not.mp h3⟩
      · rintro ⟨found, hv, hb, rfl, rfl, rfl⟩
        obtain rfl : v = found := by injection hv
        simp only [checkPrecondition, hb.decode, ne_eq, not_true_eq_false, if_false]
    | missing => simp [checkPrecondition, Expect.Met]
    | unreadable => simp [checkPrecondition, Expect.Met]

/-- How a batch ends. -/
inductive BatchOutcome where
  | done
  | duplicateKey
  | sessionConflict (conflict : Conflict)
  | sideConflict (index : Nat) (conflict : Conflict)

/-- The writes of a batch. -/
def batchWrites {K : Type} (session : Write K) (side : List (SideWrite K)) : List (Write K) :=
  session :: side.map SideWrite.toWrite

/-- No key is named twice. -/
def Distinct {K : Type} (session : Write K) (side : List (SideWrite K)) : Prop :=
  ((batchWrites session side).map Write.key).Nodup

/-- A batch ends so, where `current` is what is stored. -/
inductive BatchEnds (P : Platform) (current : (k : Key) → Current P.Key k) (session : Write P.Key)
    (side : List (SideWrite P.Key)) : BatchOutcome → Prop
  | done (distinct : Distinct session side)
      (met : ∀ w ∈ batchWrites session side, w.expect.Met P (current w.key)) :
      BatchEnds P current session side .done
  | duplicateKey (twice : ¬ Distinct session side) : BatchEnds P current session side .duplicateKey
  | sessionConflict {c : Conflict} (distinct : Distinct session side)
      (unmet : checkPrecondition P (current session.key) session.expect = .error c) :
      BatchEnds P current session side (.sessionConflict c)
  | sideConflict {index : Nat} {w : SideWrite P.Key} {c : Conflict} (distinct : Distinct session side)
      (met : session.expect.Met P (current session.key)) (here : side[index]? = some w)
      (before : ∀ w' ∈ side.take index, w'.toWrite.expect.Met P (current w'.key))
      (unmet : checkPrecondition P (current w.key) w.toWrite.expect = .error c) :
      BatchEnds P current session side (.sideConflict index c)

/-- The precondition of a write that is in conflict is not met. -/
theorem not_met_of_error {k : Key} {expect : Expect P.Key k} {current : Current P.Key k}
    {c : Conflict} (h : checkPrecondition P current expect = .error c) :
    ¬ expect.Met P current := by
  intro hm
  rw [checkPrecondition_iff.mpr hm] at h
  cases h

variable {current : (k : Key) → Current P.Key k} {session : Write P.Key}
  {side side' : List (SideWrite P.Key)}

theorem mem_take_of_getElem? {α : Type} {l : List α} {i j : Nat} {a : α} (h : l[i]? = some a)
    (hlt : i < j) : a ∈ l.take j := by
  rw [List.mem_iff_getElem?]
  exact ⟨i, by rw [List.getElem?_take, if_pos hlt, h]⟩

/-- Of two writes before which all preconditions are met, and that are in conflict, the index is the
same. -/
theorem conflict_unique {i j : Nat} {w w' : SideWrite P.Key} {c c' : Conflict}
    (hi : side[i]? = some w) (hj : side[j]? = some w')
    (before : ∀ x ∈ side.take i, x.toWrite.expect.Met P (current x.key))
    (before' : ∀ x ∈ side.take j, x.toWrite.expect.Met P (current x.key))
    (unmet : checkPrecondition P (current w.key) w.toWrite.expect = .error c)
    (unmet' : checkPrecondition P (current w'.key) w'.toWrite.expect = .error c') :
    i = j ∧ c = c' := by
  rcases Nat.lt_trichotomy i j with hlt | rfl | hlt
  · exact absurd (before' w (mem_take_of_getElem? hi hlt)) (not_met_of_error unmet)
  · obtain rfl := Option.some.inj (hi.symm.trans hj)
    exact ⟨rfl, Except.error.inj (unmet.symm.trans unmet')⟩
  · exact absurd (before w' (mem_take_of_getElem? hj hlt)) (not_met_of_error unmet')

/-- The precondition of the session write is met if all are. -/
theorem met_session (h : ∀ w ∈ batchWrites session side, w.expect.Met P (current w.key)) :
    session.expect.Met P (current session.key) := h _ List.mem_cons_self

theorem met_side (h : ∀ w ∈ batchWrites session side, w.expect.Met P (current w.key))
    {w : SideWrite P.Key} (hw : w ∈ side) : w.toWrite.expect.Met P (current w.key) :=
  h _ (List.mem_cons_of_mem _ (List.mem_map_of_mem hw))

/-- A batch ends in one way. -/
theorem BatchEnds.unique {o o' : BatchOutcome} (h : BatchEnds P current session side o)
    (h' : BatchEnds P current session side o') : o = o' := by
  cases h with
  | done distinct met =>
    cases h' with
    | done => rfl
    | duplicateKey twice => exact absurd distinct twice
    | sessionConflict _ unmet => exact absurd (met_session met) (not_met_of_error unmet)
    | sideConflict _ _ here _ unmet =>
      exact absurd (met_side met (List.mem_of_getElem? here)) (not_met_of_error unmet)
  | duplicateKey twice =>
    cases h' with
    | done distinct => exact absurd distinct twice
    | duplicateKey => rfl
    | sessionConflict distinct => exact absurd distinct twice
    | sideConflict distinct => exact absurd distinct twice
  | sessionConflict distinct unmet =>
    cases h' with
    | done _ met => exact absurd (met_session met) (not_met_of_error unmet)
    | duplicateKey twice => exact absurd distinct twice
    | sessionConflict _ unmet' => rw [Except.error.inj (unmet.symm.trans unmet')]
    | sideConflict _ met => exact absurd met (not_met_of_error unmet)
  | sideConflict distinct met here before unmet =>
    cases h' with
    | done _ all =>
      exact absurd (met_side all (List.mem_of_getElem? here)) (not_met_of_error unmet)
    | duplicateKey twice => exact absurd distinct twice
    | sessionConflict _ unmet' => exact absurd met (not_met_of_error unmet')
    | sideConflict _ _ here' before' unmet' =>
      obtain ⟨rfl, rfl⟩ := conflict_unique here here' before before' unmet unmet'
      rfl

/-! ## The order of the side writes -/

/-- The outcomes differ at most in which conflict of a side write they report. -/
inductive BatchOutcome.Like : BatchOutcome → BatchOutcome → Prop
  | same (o : BatchOutcome) : Like o o
  | side (i j : Nat) (c c' : Conflict) : Like (.sideConflict i c) (.sideConflict j c')

theorem Distinct.perm (h : side.Perm side') : Distinct session side ↔ Distinct session side' := by
  unfold Distinct batchWrites
  exact (((h.map _).cons _).map _).nodup_iff

theorem met_perm (h : side.Perm side') :
    (∀ w ∈ batchWrites session side, w.expect.Met P (current w.key)) ↔
      ∀ w ∈ batchWrites session side', w.expect.Met P (current w.key) := by
  have hp : (batchWrites session side).Perm (batchWrites session side') := (h.map _).cons _
  exact ⟨fun hm w hw => hm w (hp.mem_iff.mpr hw), fun hm w hw => hm w (hp.mem_iff.mp hw)⟩

/-- In another order a batch ends alike. -/
theorem BatchEnds.perm (hp : side.Perm side') {o o' : BatchOutcome}
    (h : BatchEnds P current session side o) (h' : BatchEnds P current session side' o') :
    o.Like o' := by
  cases h with
  | done distinct met =>
    rw [BatchEnds.unique h' (.done ((Distinct.perm hp).mp distinct) ((met_perm hp).mp met))]
    exact .same _
  | duplicateKey twice =>
    rw [BatchEnds.unique h' (.duplicateKey fun h => twice ((Distinct.perm hp).mpr h))]
    exact .same _
  | sessionConflict distinct unmet =>
    rw [BatchEnds.unique h' (.sessionConflict ((Distinct.perm hp).mp distinct) unmet)]
    exact .same _
  | sideConflict distinct met here before unmet =>
    cases h' with
    | done _ all =>
      have hw := hp.mem_iff.mp (List.mem_of_getElem? here)
      exact absurd (met_side all hw) (not_met_of_error unmet)
    | duplicateKey twice => exact absurd ((Distinct.perm hp).mp distinct) twice
    | sessionConflict _ unmet' => exact absurd met (not_met_of_error unmet')
    | sideConflict => exact .side ..

end Spec

/-! ## The transaction -/

section Transaction

variable {P : Platform}

/-- The store does not fail, but for the rows that it cannot authenticate. -/
structure Intact (unreadable : Key → Bool) (rows : Rows P.Key) (e : Choice) : Prop where
  begins : e.beginFault = none
  reads : ∀ k, e.readFault k =
    if unreadable k ∧ (rows.lookup k).isSome then some ⟨.decryption, by decide⟩ else none
  writes : e.writeFault = none
  commits : e.commit = .ok

/-- What a read inside the transaction returns. -/
def Current.answer {K : Type} {k : Key} : Current K k → Except StorageError (Row K k)
  | missing => .error .notFound
  | unreadable => .error .decryption
  | present v => .ok v

variable {unreadable : Key → Bool} {rows : Rows P.Key} {e : Choice}

theorem Intact.read (h : Intact (P := P) unreadable rows e) (k : Key) :
    e.read rows k = (stored unreadable rows k).answer := by
  unfold Choice.read stored
  rw [h.reads]
  cases rows.lookup k with
  | none => simp [Current.answer]
  | some v => cases hu : unreadable k <;> simp [Current.answer]

variable {current : (k : Key) → Current P.Key k}
  {read : (k : Key) → Except StorageError (Row P.Key k)}

theorem checkWrite_eq (hr : ∀ k, read k = (current k).answer) (index : Nat) (w : Write P.Key) :
    checkWrite P read index w =
      (checkPrecondition P (current w.key) w.expect).mapError (.conflict index) := by
  unfold checkWrite
  rw [hr]
  cases current w.key <;> rfl

/-- Every precondition is met, or the first one that is not is reported. -/
inductive Checked (P : Platform) (current : (k : Key) → Current P.Key k) (index : Nat)
    (writes : List (Write P.Key)) : Except WriteFailure Unit → Prop
  | met (all : ∀ w ∈ writes, w.expect.Met P (current w.key)) : Checked P current index writes (.ok ())
  | unmet {i : Nat} {w : Write P.Key} {c : Conflict} (here : writes[i]? = some w)
      (before : ∀ w' ∈ writes.take i, w'.expect.Met P (current w'.key))
      (unmet : checkPrecondition P (current w.key) w.expect = .error c) :
      Checked P current index writes (.error (.conflict (index + i) c))

theorem checkWrites_checked (hr : ∀ k, read k = (current k).answer) (index : Nat)
    (writes : List (Write P.Key)) :
    Checked P current index writes (checkWrites P read index writes) := by
  induction writes generalizing index with
  | nil => exact .met fun w hw => absurd hw List.not_mem_nil
  | cons w writes ih =>
    rw [checkWrites, checkWrite_eq hr]
    cases hc : checkPrecondition P (current w.key) w.expect with
    | error c => exact .unmet (i := 0) rfl (fun w' hw' => absurd hw' List.not_mem_nil) hc
    | ok u =>
      have hw : w.expect.Met P (current w.key) := checkPrecondition_iff.mp hc
      change Checked P current index (w :: writes) (checkWrites P read (index + 1) writes)
      have hrest := ih (index + 1)
      generalize checkWrites P read (index + 1) writes = r at hrest ⊢
      cases hrest with
      | met all => exact .met (List.forall_mem_cons.mpr ⟨hw, all⟩)
      | @unmet i _ c here before unmet =>
        rw [Nat.add_assoc, Nat.add_comm 1 i]
        exact .unmet (i := i + 1) here (List.forall_mem_cons.mpr ⟨hw, before⟩) unmet

/-- `batch` refuses a key that is named twice. -/
theorem foldlM_addSide_eq (side : List (SideWrite P.Key)) {acc : List (Write P.Key)}
    (hacc : (acc.map Write.key).Nodup) : side.foldlM addSide acc =
      if ((acc ++ side.map SideWrite.toWrite).map Write.key).Nodup then
        .ok (acc ++ side.map SideWrite.toWrite)
      else .error .duplicateKey := by
  induction side generalizing acc with
  | nil => simp [hacc, pure, Except.pure]
  | cons w side ih =>
    have hassoc : acc ++ (w :: side).map SideWrite.toWrite =
        (acc ++ [w.toWrite]) ++ side.map SideWrite.toWrite := by simp
    rw [List.foldlM_cons, addSide, hassoc]
    split
    · next hany =>
      obtain ⟨x, hx, hk⟩ := List.any_eq_true.mp hany
      have hmem : w.key ∈ acc.map Write.key := List.mem_map.mpr ⟨x, hx, beq_iff_eq.mp hk⟩
      have htwice : ¬ (((acc ++ [w.toWrite]) ++ side.map SideWrite.toWrite).map Write.key).Nodup := by
        intro h
        rw [List.map_append, List.map_append] at h
        exact List.disjoint_of_nodup_append (List.nodup_append.mp h).1 hmem (by simp)
      rw [if_neg htwice]
      rfl
    · next hany =>
      refine ih ?_
      rw [List.map_append]
      refine List.Nodup.append hacc (List.nodup_singleton _) fun k hk hk' => hany ?_
      obtain ⟨x, hx, rfl⟩ := List.mem_map.mp hk
      exact List.any_eq_true.mpr ⟨x, hx, beq_iff_eq.mpr (List.mem_singleton.mp hk')⟩

theorem batch_eq (session : Write P.Key) (side : List (SideWrite P.Key))
    [Decidable (Distinct session side)] : batch session side =
      if Distinct session side then .ok (batchWrites session side) else .error .duplicateKey := by
  have hone : ([session].map Write.key).Nodup := List.nodup_singleton _
  rw [batch, foldlM_addSide_eq side hone]
  exact if_congr Iff.rfl rfl rfl

/-- The state after a batch that ended so. -/
def afterBatch {M : Type} (s : Device P.Key M) (session : Write P.Key)
    (side : List (SideWrite P.Key)) : BatchOutcome → Device P.Key M
  | .done =>
    { s with db := s.db.push (s.db.rows.applyAll ((batchWrites session side).filterMap Write.change)) }
  | _ => s

/-- What `write_conditional` returns of such a batch. One with a key named twice does not reach it. -/
def BatchOutcome.result : BatchOutcome → Except WriteFailure Unit
  | done | duplicateKey => .ok ()
  | sessionConflict c => .error (.conflict 0 c)
  | sideConflict index c => .error (.conflict (index + 1) c)

variable {M : Type} {session : Write P.Key} {side : List (SideWrite P.Key)}

theorem Checked.ends {r : Except WriteFailure Unit} (distinct : Distinct session side)
    (h : Checked P current 0 (batchWrites session side) r) :
    ∃ o, BatchEnds P current session side o ∧ r = o.result := by
  cases h with
  | met all => exact ⟨.done, .done distinct all, rfl⟩
  | @unmet i w c here before unmet =>
    rw [Nat.zero_add]
    cases i with
    | zero =>
      obtain rfl : session = w := Option.some.inj here
      exact ⟨.sessionConflict c, .sessionConflict distinct unmet, rfl⟩
    | succ i =>
      have hmap : (side.map SideWrite.toWrite)[i]? = some w := here
      rw [List.getElem?_map, Option.map_eq_some_iff] at hmap
      obtain ⟨w', hw', rfl⟩ := hmap
      obtain ⟨hs, hrest⟩ := List.forall_mem_cons.mp before
      refine ⟨.sideConflict i c, .sideConflict distinct hs hw' (fun x hx => ?_) unmet, rfl⟩
      exact hrest x.toWrite (by rw [← List.map_take]; exact List.mem_map_of_mem hx)

/-- The transaction of a batch that puts a session record. -/
theorem writeConditional_alone {s s' : Device P.Key M} {r : Except WriteFailure Unit}
    {record : Row P.Key session.key} (hput : session.action = .put record)
    (distinct : Distinct session side)
    (h : Prog.Alone (Intact unreadable s.db.rows)
      (writeConditional P (batchWrites session side) : Run P.Key M _ _).run s r s') :
    ∃ o, BatchEnds P (stored unreadable s.db.rows) session side o ∧ r = o.result ∧
      s' = afterBatch s session side o := by
  obtain ⟨e, he, rfl, rfl⟩ := Prog.Alone.of_atomic h
  have hc := checkWrites_checked he.read 0 (batchWrites session side)
  obtain ⟨o, ho, hr⟩ := Checked.ends distinct hc
  refine ⟨o, ho, ?_⟩
  have hchange : session.change = some ⟨session.key, some record⟩ := by rw [Write.change, hput]
  simp only [txStep, he.begins, hr, bind, Except.bind, pure, Except.pure]
  cases ho with
  | done _ all =>
    simp [BatchOutcome.result, batchWrites, hchange, he.writes, he.commits, afterBatch]
  | duplicateKey twice => exact absurd distinct twice
  | sessionConflict _ unmet => exact ⟨rfl, rfl⟩
  | sideConflict _ met here before unmet => exact ⟨rfl, rfl⟩

end Transaction

/-! ## The callers -/

section Callers

variable {P : Platform} {M err α : Type}

/-- `p side` is a batch with these side writes, and `report` is what it returns. -/
structure AllOrNothing (unreadable : Key → Bool) (session : Write P.Key)
    (p : List (SideWrite P.Key) → Run P.Key M err α) (report : BatchOutcome → Except err α) :
    Prop where
  /-- A batch that names a key twice is refused before anything is read. -/
  refused : ∀ side, ¬ Distinct session side → (p side).run = .ret (report .duplicateKey)
  /-- It ends as what is stored says, and in no other way. -/
  ends : ∀ side s r s', Prog.Alone (Intact unreadable s.db.rows) (p side).run s r s' →
    ∃ o, (∀ o', BatchEnds P (stored unreadable s.db.rows) session side o' ↔ o' = o) ∧
      r = report o ∧ s' = afterBatch s session side o
  /-- The order of the side writes matters only to which of their conflicts is reported. -/
  order : ∀ side side', side.Perm side' → ∀ s r₁ s₁ r₂ s₂,
    Prog.Alone (Intact unreadable s.db.rows) (p side).run s r₁ s₁ →
    Prog.Alone (Intact unreadable s.db.rows) (p side').run s r₂ s₂ →
    ∃ o₁ o₂, BatchOutcome.Like o₁ o₂ ∧ r₁ = report o₁ ∧ r₂ = report o₂ ∧
      ∀ k, s₁.db.rows.lookup k = s₂.db.rows.lookup k

/-- The writes of a batch, in any order, leave the same records. -/
theorem lookup_applyAll_perm {K : Type} {cs cs' : List (Change K)} (hp : cs.Perm cs')
    (hn : (cs.map Change.key).Nodup) (rows : Rows K) (k : Key) :
    (rows.applyAll cs).lookup k = (rows.applyAll cs').lookup k := by
  by_cases hk : ∃ c ∈ cs, k = c.key
  · obtain ⟨⟨key, v⟩, hc, rfl⟩ := hk
    rw [Rows.lookup_applyAll_of_mem hn hc,
      Rows.lookup_applyAll_of_mem ((hp.map _).nodup_iff.mp hn) (hp.mem_iff.mp hc)]
  · have hne : ∀ c ∈ cs, k ≠ c.key := fun c hc heq => hk ⟨c, hc, heq⟩
    rw [Rows.lookup_applyAll_ne rows hne,
      Rows.lookup_applyAll_ne rows fun c hc => hne c (hp.mem_iff.mpr hc)]

theorem Distinct.changes {session : Write P.Key} {side : List (SideWrite P.Key)}
    (h : Distinct session side) :
    (((batchWrites session side).filterMap Write.change).map Change.key).Nodup := by
  refine List.Nodup.sublist ?_ h
  generalize batchWrites session side = writes
  induction writes with
  | nil => exact .slnil
  | cons w writes ih =>
    rw [List.filterMap_cons]
    cases hw : w.change with
    | none => exact ih.cons _
    | some c =>
      have hkey : c.key = w.key := by
        unfold Write.change at hw
        split at hw <;> cases hw <;> rfl
      rw [List.map_cons, List.map_cons, hkey]
      exact ih.cons_cons _

variable {unreadable : Key → Bool} {session : Write P.Key} {side side' : List (SideWrite P.Key)}

/-- Alike outcomes of the same batch in two orders leave the same records. -/
theorem lookup_afterBatch_perm (hp : side.Perm side') {s : Device P.Key M} {o o' : BatchOutcome}
    (hd : o = .done → Distinct session side) (h : o.Like o') (k : Key) :
    (afterBatch s session side o).db.rows.lookup k =
      (afterBatch s session side' o').db.rows.lookup k := by
  cases h with
  | same =>
    cases o with
    | done =>
      have hw : (batchWrites session side).Perm (batchWrites session side') := (hp.map _).cons _
      exact lookup_applyAll_perm (hw.filterMap _) (hd rfl).changes _ _
    | duplicateKey => rfl
    | sessionConflict c => rfl
    | sideConflict index c => rfl
  | side => rfl

/-- A caller whose runs are the transaction of its batch. -/
theorem AllOrNothing.intro {p : List (SideWrite P.Key) → Run P.Key M err α}
    {report : BatchOutcome → Except err α}
    (refused : ∀ side, ¬ Distinct session side → (p side).run = .ret (report .duplicateKey))
    (runs : ∀ side s r s', Distinct session side →
      Prog.Alone (Intact unreadable s.db.rows) (p side).run s r s' →
      ∃ o, BatchEnds P (stored unreadable s.db.rows) session side o ∧ r = report o ∧
        s' = afterBatch s session side o) :
    AllOrNothing unreadable session p report := by
  have hends : ∀ side s r s', Prog.Alone (Intact unreadable s.db.rows) (p side).run s r s' →
      ∃ o, BatchEnds P (stored unreadable s.db.rows) session side o ∧ r = report o ∧
        s' = afterBatch s session side o := by
    intro side s r s' h
    by_cases hd : Distinct session side
    · exact runs side s r s' hd h
    · rw [refused side hd] at h
      cases h with
      | ret => exact ⟨.duplicateKey, .duplicateKey hd, rfl, rfl⟩
  refine ⟨refused, fun side s r s' h => ?_, fun side side' hp s r₁ s₁ r₂ s₂ h₁ h₂ => ?_⟩
  · obtain ⟨o, ho, hr, hs⟩ := hends side s r s' h
    exact ⟨o, fun o' => ⟨fun h' => h'.unique ho, fun heq => heq ▸ ho⟩, hr, hs⟩
  · obtain ⟨o₁, ho₁, hr₁, rfl⟩ := hends side s r₁ s₁ h₁
    obtain ⟨o₂, ho₂, hr₂, rfl⟩ := hends side' s r₂ s₂ h₂
    have hlike := ho₁.perm hp ho₂
    refine ⟨o₁, o₂, hlike, hr₁, hr₂, lookup_afterBatch_perm hp (fun heq => ?_) hlike⟩
    subst heq
    cases ho₁ with
    | done distinct => exact distinct

/-- What `create_with` and `promote_with` report. -/
def openReport (a : α) : BatchOutcome → Except OpenError α
  | .done => .ok a
  | .duplicateKey => .error (.sideWrite .duplicateKey)
  | .sessionConflict _ => .error .alreadyExists
  | .sideConflict index c => .error (.sideConflict index c)

/-- What `commit_with` reports, and the instance it leaves. -/
def commitReport (P : Platform) (s : DurableSession P.Key) (staged : StagedTransition P.Key α) :
    BatchOutcome → Except err (Except CommitError α × DurableSession P.Key)
  | .done => .ok (.ok staged.output,
      { s with session := { s.session with ratchet := staged.ratchet }
               generation := staged.generation
               recordDigest := P.recordDigest staged.record })
  | .duplicateKey => .ok (.error (.sideWrite .duplicateKey), s)
  | .sessionConflict c => .ok (.error (.conflict c), { s with status := .conflicted })
  | .sideConflict index c => .ok (.error (.sideConflict index c), s)

/-- An open that ends with the transaction. -/
theorem open_alone {C : Choice → Prop} {x : Run P.Key M WriteFailure Unit} {a : α}
    {s s' : Device P.Key M} {r : Except OpenError α}
    (h : Prog.Alone C (do Op.mapError DurableSession.openError x.run; return a :
      Run P.Key M OpenError α).run s r s') :
    ∃ r₀, Prog.Alone C x.run s r₀ s' ∧ r = (r₀.mapError DurableSession.openError).map fun _ => a := by
  obtain ⟨r₁, s₁, h₁, h₂⟩ := Prog.Alone.of_bind h
  obtain ⟨r₀, s₀, h₀, h₃⟩ := Prog.Alone.of_bind h₁
  cases h₃
  cases r₀ with
  | ok u =>
    cases h₂
    exact ⟨_, h₀, rfl⟩
  | error e =>
    cases h₂
    exact ⟨_, h₀, rfl⟩

theorem openReport_eq {a : α} {o : BatchOutcome} (h : o ≠ .duplicateKey) :
    (o.result.mapError DurableSession.openError).map (fun _ => a) = openReport a o := by
  cases o with
  | done => rfl
  | duplicateKey => exact absurd rfl h
  | sessionConflict c => rfl
  | sideConflict index c => rfl

theorem BatchEnds.ne_duplicateKey {current : (k : Key) → Current P.Key k} {o : BatchOutcome}
    (h : BatchEnds P current session side o) (hd : Distinct session side) : o ≠ .duplicateKey := by
  rintro rfl
  cases h with
  | duplicateKey twice => exact twice hd

/-- An open whose transaction is the batch. -/
theorem open_ends {record : Row P.Key session.key} {a : α} (hput : session.action = .put record)
    (hd : Distinct session side) {s s' : Device P.Key M} {r : Except OpenError α}
    (h : Prog.Alone (Intact unreadable s.db.rows)
      (do Op.mapError DurableSession.openError
            (writeConditional P (batchWrites session side) : Run P.Key M _ _).run
          return a : Run P.Key M OpenError α).run s r s') :
    ∃ o, BatchEnds P (stored unreadable s.db.rows) session side o ∧ r = openReport a o ∧
      s' = afterBatch s session side o := by
  obtain ⟨r₀, h₀, rfl⟩ := open_alone h
  obtain ⟨o, ho, rfl, rfl⟩ := writeConditional_alone hput hd h₀
  exact ⟨o, ho, openReport_eq (ho.ne_duplicateKey hd), rfl⟩

theorem createWith_allOrNothing {session : Session P.Key} {role : SessionRole} {our : Bytes32}
    {record : SessionRecord P.Key} (henc : encodeSessionCheckpoint session role our 0 = .ok record) :
    AllOrNothing (M := M) unreadable ⟨.session session.peerIdentityPk, .absent, .put record⟩
      (DurableSession.createWith P session role our)
      (openReport (DurableSession.new P session role our 0 record)) := by
  classical
  refine AllOrNothing.intro (fun side hd => ?_) fun side s r s' hd h => ?_
  · simp only [DurableSession.createWith, henc, batch_eq, if_neg hd]
    rfl
  · simp only [DurableSession.createWith, henc, batch_eq, if_pos hd] at h
    exact open_ends rfl hd h

theorem promoteWith_allOrNothing {s : ProvisionalSession P.Key}
    {staged : StagedTransition P.Key Bytes} (hbase : staged.baseGeneration = 0) :
    AllOrNothing (M := M) unreadable
      ⟨.session s.inner.session.peerIdentityPk, .absent, .put staged.record⟩
      (s.promoteWith P staged)
      (openReport ({ s.inner with session := { s.inner.session with ratchet := staged.ratchet }
                                  generation := staged.generation
                                  recordDigest := P.recordDigest staged.record }, staged.output)) := by
  classical
  refine AllOrNothing.intro (fun side hd => ?_) fun side st r st' hd h => ?_
  · simp only [ProvisionalSession.promoteWith, hbase, batch_eq, if_neg hd]
    rfl
  · simp only [ProvisionalSession.promoteWith, hbase, batch_eq, if_pos hd] at h
    exact open_ends rfl hd h

theorem commitWith_allOrNothing {s : DurableSession P.Key} {staged : StagedTransition P.Key α}
    (hactive : s.status = .active) (hbase : staged.baseGeneration = s.generation) :
    AllOrNothing (M := M) unreadable
      ⟨.session s.session.peerIdentityPk, .predecessor s.generation s.role
        ⟨s.ourIdentityPk, s.session.peerIdentityPk⟩ s.recordDigest, .put staged.record⟩
      (s.commitWith P staged : _ → Run P.Key M err _) (commitReport P s staged) := by
  classical
  refine AllOrNothing.intro (fun side hd => ?_) fun side st r st' hd h => ?_
  · simp only [DurableSession.commitWith, hactive, hbase, batch_eq, if_neg hd, ne_eq,
      not_true_eq_false, if_false]
    rfl
  · simp only [DurableSession.commitWith, hactive, hbase, batch_eq, if_pos hd, ne_eq,
      not_true_eq_false, if_false] at h
    obtain ⟨r₁, s₁, h₁, h₂⟩ := Prog.Alone.of_bind h
    obtain ⟨r₀, s₀, h₀, h₃⟩ := Prog.Alone.of_bind h₁
    cases h₃
    obtain ⟨o, ho, rfl, rfl⟩ := writeConditional_alone rfl hd h₀
    refine ⟨o, ho, ?_⟩
    have hne := ho.ne_duplicateKey hd
    cases o with
    | done =>
      cases h₂
      exact ⟨by simp only [commitReport, hactive], rfl⟩
    | duplicateKey => exact absurd rfl hne
    | sessionConflict c =>
      cases h₂
      exact ⟨rfl, rfl⟩
    | sideConflict index c =>
      cases h₂
      exact ⟨rfl, rfl⟩

/-- A side write never names a session record. -/
theorem reservedKey {K : Type} {key : Key} (h : key.isSession = true) (value want : Row K key) :
    SideWrite.insert key value = .error .reservedKey ∧
      SideWrite.requireAbsent (K := K) key = .error .reservedKey ∧
      SideWrite.replace key want value = .error .reservedKey ∧
      SideWrite.remove key want = .error .reservedKey := by
  simp [SideWrite.insert, SideWrite.requireAbsent, SideWrite.replace, SideWrite.remove,
    SideWrite.new, h]

/-- Conditional batches are all or nothing, with side writes that name no session record, whoever
asks for them. -/
theorem conditional_batches (P : Platform) (M : Type) (unreadable : Key → Bool) :
    (∀ (key : Key) (value want : Row P.Key key), key.isSession = true →
      SideWrite.insert key value = .error .reservedKey ∧
      SideWrite.requireAbsent (K := P.Key) key = .error .reservedKey ∧
      SideWrite.replace key want value = .error .reservedKey ∧
      SideWrite.remove key want = .error .reservedKey) ∧
    (∀ (session : Session P.Key) (role : SessionRole) (our : Bytes32) (record : SessionRecord P.Key),
      encodeSessionCheckpoint session role our 0 = .ok record →
      AllOrNothing (M := M) unreadable ⟨.session session.peerIdentityPk, .absent, .put record⟩
        (DurableSession.createWith P session role our)
        (openReport (DurableSession.new P session role our 0 record))) ∧
    (∀ (s : ProvisionalSession P.Key) (staged : StagedTransition P.Key Bytes),
      staged.baseGeneration = 0 →
      AllOrNothing (M := M) unreadable
        ⟨.session s.inner.session.peerIdentityPk, .absent, .put staged.record⟩
        (s.promoteWith P staged)
        (openReport
          ({ s.inner with session := { s.inner.session with ratchet := staged.ratchet }
                          generation := staged.generation
                          recordDigest := P.recordDigest staged.record }, staged.output))) ∧
    ∀ (err T : Type) (s : DurableSession P.Key) (staged : StagedTransition P.Key T),
      s.status = .active → staged.baseGeneration = s.generation →
      AllOrNothing (M := M) unreadable
        ⟨.session s.session.peerIdentityPk, .predecessor s.generation s.role
          ⟨s.ourIdentityPk, s.session.peerIdentityPk⟩ s.recordDigest, .put staged.record⟩
        (s.commitWith P staged : _ → Run P.Key M err _) (commitReport P s staged) :=
  ⟨fun _ value want h => reservedKey h value want,
    fun _ _ _ _ henc => createWith_allOrNothing henc,
    fun _ _ hbase => promoteWith_allOrNothing hbase,
    fun _ _ _ _ hactive hbase => commitWith_allOrNothing hactive hbase⟩

namespace SentBatch

/-- A fresh session of an initiator. -/
def initiatedSession : Session symbolicPlatform.Key where
  ratchet := DoubleRatchet.initAlice symbolicPlatform.toCrypto (SymKey.root 1) (fill 5) (fill 3)
  ad := SessionRole.initiator.expectedAd (fill 4) (fill 5)
  peerIdentityPk := fill 5

/-- Its first record. -/
def initiatedRecord : SessionRecord symbolicPlatform.Key where
  role := .initiator
  generation := 0
  our := fill 4
  peer := fill 5
  ad := initiatedSession.ad
  ratchet := initiatedSession.ratchet

def initiated : DurableSession symbolicPlatform.Key :=
  .new symbolicPlatform initiatedSession .initiator (fill 4) 0 initiatedRecord

def outgoing : OutgoingMessage := ⟨fill 6, [9], 1, [7]⟩

/-- The outbox record and the send record of a message. -/
def sentWrites : List (SideWrite symbolicPlatform.Key) :=
  [⟨.outbox (fill 5) (fill 6), .absent, .put outgoing, rfl⟩,
    ⟨.sendid (fill 5) [9], .absent, .put (SendRecord.sent (fill 6)), rfl⟩]

/-- A store with these records. -/
def storing (rows : Rows symbolicPlatform.Key) : Device symbolicPlatform.Key Unit :=
  ⟨⟨rows, []⟩, fun _ => (), []⟩

def initiatedRows : Rows symbolicPlatform.Key := Rows.apply ∅ ⟨.session (fill 5), some initiatedRecord⟩

/-- The same, with the send record of a message that was abandoned. -/
def abandonedRows : Rows symbolicPlatform.Key :=
  initiatedRows.apply ⟨.sendid (fill 5) [9], some (SendRecord.abandoned (fill 6))⟩

theorem initiated_met {rows : Rows symbolicPlatform.Key}
    (h : rows.lookup (.session (fill 5)) = some initiatedRecord) :
    (Expect.predecessor 0 .initiator ⟨fill 4, fill 5⟩ initiated.recordDigest).Met symbolicPlatform
      (stored (fun _ => false) rows (.session (fill 5))) := by
  refine ⟨initiatedRecord, ?_, ⟨rfl, rfl, rfl, ?_⟩, rfl, rfl, rfl⟩
  · rw [stored, h]
    rfl
  · have hsame : initiatedSession.ratchet.toCheckpoint = .ok initiatedSession.ratchet := rfl
    exact DoubleRatchet.toCheckpoint_resumable hsame

end SentBatch

open SentBatch in
/-- A message that is staged is committed with its two records; but if one of them is there already,
nothing is written. -/
theorem conditional_batches_sent : ∃ staged,
    initiated.stageEncrypt symbolicPlatform [8] (fillNonce 0) = .ok staged ∧
    (∃ next s', Prog.Alone (Intact (fun _ => false) initiatedRows)
        (initiated.commitWith symbolicPlatform staged sentWrites :
          Run symbolicPlatform.Key Unit Unit _).run (storing initiatedRows)
        (.ok (.ok staged.output, next)) s' ∧
      s'.db.rows.lookup (.session (fill 5)) = some staged.record ∧
      s'.db.rows.lookup (.outbox (fill 5) (fill 6)) = some outgoing ∧
      s'.db.rows.lookup (.sendid (fill 5) [9]) = some (SendRecord.sent (fill 6))) ∧
    Prog.Alone (Intact (fun _ => false) abandonedRows)
      (initiated.commitWith symbolicPlatform staged sentWrites :
        Run symbolicPlatform.Key Unit Unit _).run (storing abandonedRows)
      (.ok (.error (.sideConflict 1 .recordExists), initiated)) (storing abandonedRows) := by
  obtain ⟨staged, hstaged, hbase⟩ : ∃ staged,
      initiated.stageEncrypt symbolicPlatform [8] (fillNonce 0) = .ok staged ∧
        staged.baseGeneration = 0 := ⟨_, rfl, rfl⟩
  have hall := (conditional_batches symbolicPlatform Unit fun _ => false).2.2.2 Unit _ initiated staged
    rfl hbase
  have hdistinct : Distinct ⟨.session (fill 5), .predecessor 0 .initiator ⟨fill 4, fill 5⟩
      initiated.recordDigest, .put staged.record⟩ sentWrites := by
    show [Key.session (fill 5), .outbox (fill 5) (fill 6), .sendid (fill 5) [9]].Nodup
    decide
  have hC : ∀ rows : Rows symbolicPlatform.Key, ∃ e, Intact (fun _ => false) rows e :=
    fun rows => ⟨{}, rfl, fun k => by simp, rfl, rfl⟩
  refine ⟨staged, hstaged, ?_, ?_⟩
  · obtain ⟨r, s', h⟩ := Prog.Alone.total (hC _) (initiated.commitWith symbolicPlatform staged
      sentWrites : Run symbolicPlatform.Key Unit Unit _).run (storing initiatedRows)
    obtain ⟨o, ho, rfl, rfl⟩ := hall.ends _ _ _ _ h
    obtain rfl := (ho .done).mp (.done hdistinct fun w hw => by
      simp only [batchWrites, sentWrites, List.map_cons, List.map_nil, List.mem_cons,
        List.not_mem_nil, or_false] at hw
      rcases hw with rfl | rfl | rfl
      · exact initiated_met rfl
      · rfl
      · rfl)
    exact ⟨_, _, h, Rows.lookup_applyAll_of_mem hdistinct.changes (.head _) _,
      Rows.lookup_applyAll_of_mem hdistinct.changes (.tail _ (.head _)) _,
      Rows.lookup_applyAll_of_mem hdistinct.changes (.tail _ (.tail _ (.head _))) _⟩
  · obtain ⟨r, s', h⟩ := Prog.Alone.total (hC _) (initiated.commitWith symbolicPlatform staged
      sentWrites : Run symbolicPlatform.Key Unit Unit _).run (storing abandonedRows)
    obtain ⟨o, ho, rfl, rfl⟩ := hall.ends _ _ _ _ h
    obtain rfl := (ho (.sideConflict 1 .recordExists)).mp (.sideConflict hdistinct (initiated_met rfl)
      rfl (fun w hw => by
        obtain rfl := List.mem_singleton.mp hw
        rfl) rfl)
    exact h

end Callers

end Arcium
