import Arcium.Protocol.NoFork

/-!
# Deciding what is assumed of a history

The hypotheses `CollisionFree` and `FreshKeys` speak about every record that a history ever stored.
A history is finite, so both are decidable: the records of a kind are listed over all its states
(`Db.select`). The decisions are of the propositions themselves; they are what a run of the model
is tested with.
-/

namespace Arcium

namespace Db

variable {K α : Type}

/-- What `view` takes from the records of one state. -/
def selectAt (rows : Rows K) (view : (k : Key) → Row K k → Option α) : List α :=
  rows.entries.filterMap fun x => view x.1 x.2

/-- What `view` takes from every record that was ever stored. -/
def select (db : Db K) (view : (k : Key) → Row K k → Option α) : List α :=
  db.all.flatMap fun rows => selectAt rows view

theorem mem_selectAt {rows : Rows K} {view : (k : Key) → Row K k → Option α} {a : α} :
    a ∈ selectAt rows view ↔ ∃ k v, rows.lookup k = some v ∧ view k v = some a := by
  simp only [selectAt, List.mem_filterMap, Sigma.exists]
  exact exists_congr fun k => exists_congr fun v => and_congr_left' AList.mem_lookup_iff.symm

theorem mem_select {db : Db K} {view : (k : Key) → Row K k → Option α} {a : α} :
    a ∈ db.select view ↔ ∃ k v, db.Ever k v ∧ view k v = some a := by
  simp only [select, List.mem_flatMap, mem_selectAt]
  constructor
  · rintro ⟨rows, hr, k, v, hl, hv⟩
    exact ⟨k, v, ⟨rows, hr, hl⟩, hv⟩
  · rintro ⟨k, v, ⟨rows, hr, hl⟩, hv⟩
    exact ⟨rows, hr, k, v, hl, hv⟩

/-- The session records. -/
def sessionView : (k : Key) → Row K k → Option (Peer × SessionRecord K)
  | .session p, rec => some (p, rec)
  | _, _ => none

/-- The messages in the outbox. -/
def outboxView : (k : Key) → Row K k → Option OutgoingMessage
  | .outbox _ _, m => some m
  | _, _ => none

theorem sessionView_eq {k : Key} {v : Row K k} {p : Peer} {rec : SessionRecord K} :
    sessionView k v = some (p, rec) ↔ ∃ h : Key.session p = k, h ▸ rec = v := by
  constructor
  · intro h
    cases k <;> cases h
    exact ⟨rfl, rfl⟩
  · rintro ⟨rfl, rfl⟩
    rfl

theorem mem_sessionsAt {rows : Rows K} {p : Peer} {rec : SessionRecord K} :
    (p, rec) ∈ selectAt rows sessionView ↔ rows.lookup (.session p) = some rec := by
  simp only [mem_selectAt, sessionView_eq]
  constructor
  · rintro ⟨k, v, hl, rfl, rfl⟩
    exact hl
  · exact fun h => ⟨_, _, h, rfl, rfl⟩

theorem mem_sessions {db : Db K} {p : Peer} {rec : SessionRecord K} :
    (p, rec) ∈ db.select sessionView ↔ db.Ever (.session p) rec := by
  simp only [mem_select, sessionView_eq]
  constructor
  · rintro ⟨k, v, hl, rfl, rfl⟩
    exact hl
  · exact fun h => ⟨_, _, h, rfl, rfl⟩

theorem mem_outbox {db : Db K} {m : OutgoingMessage} :
    m ∈ db.select outboxView ↔ ∃ p id, db.Ever (.outbox p id) m := by
  rw [mem_select]
  constructor
  · rintro ⟨k, v, hl, hv⟩
    cases k <;> cases hv
    exact ⟨_, _, hl⟩
  · rintro ⟨p, id, h⟩
    exact ⟨_, _, h, rfl⟩

end Db

namespace Messenger

variable {P : Platform} {db : Db P.Key}

open Db

theorem collisionFree_iff : CollisionFree db ↔
    (∀ x ∈ db.select sessionView, ∀ y ∈ db.select sessionView, x.1 = y.1 →
      P.recordDigest x.2 = P.recordDigest y.2 → x.2 = y.2) ∧
    ∀ m ∈ db.select outboxView, ∀ m' ∈ db.select outboxView,
      messageId P m.wire = messageId P m'.wire → m.wire = m'.wire := by
  constructor
  · refine fun h => ⟨?_, fun m hm m' hm' hid => ?_⟩
    · rintro ⟨p, rec⟩ hx ⟨q, rec'⟩ hy rfl hd
      exact h.records p rec rec' (mem_sessions.mp hx) (mem_sessions.mp hy) hd
    · obtain ⟨p, id, h₁⟩ := mem_outbox.mp hm
      obtain ⟨q, id', h₂⟩ := mem_outbox.mp hm'
      exact h.wires p q id id' m m' h₁ h₂ hid
  · refine fun ⟨hr, hw⟩ => ⟨fun p rec rec' h h' hd => ?_, fun p q id id' m m' h h' hid => ?_⟩
    · exact hr (p, rec) (mem_sessions.mpr h) (p, rec') (mem_sessions.mpr h') rfl hd
    · exact hw m (mem_outbox.mpr ⟨p, id, h⟩) m' (mem_outbox.mpr ⟨q, id', h'⟩) hid

instance [DecidableEq P.Key] : Decidable (CollisionFree db) := decidable_of_iff' _ collisionFree_iff

/-- No chain that starts in `rows`, after `past`, has a key that was used before. -/
def FreshAt (rows : Rows P.Key) (past : List (Rows P.Key)) : Prop :=
  ∀ x ∈ selectAt rows sessionView, ∀ key ∈ sendingKey x.2,
    (∃ before ∈ past.head?, ∃ y ∈ selectAt before sessionView,
      y.1 = x.1 ∧ y.2.ratchet.dhr = x.2.ratchet.dhr) ∨
    ∀ before ∈ past, ∀ y ∈ selectAt before sessionView, sendingKey y.2 ≠ some key

instance (rows : Rows P.Key) (past : List (Rows P.Key)) : Decidable (FreshAt rows past) := by
  unfold FreshAt
  infer_instance

/-- `FreshAt` for every state but the first. -/
def FreshIn : List (Rows P.Key) → Prop
  | [] => True
  | rows :: past => FreshIn past ∧ (past = [] ∨ FreshAt rows past)

instance decidableFreshIn : (history : List (Rows P.Key)) → Decidable (FreshIn history)
  | [] => isTrue trivial
  | rows :: past =>
    have := decidableFreshIn past
    inferInstanceAs (Decidable (FreshIn past ∧ (past = [] ∨ FreshAt rows past)))

theorem FreshIn.suffix {history later : List (Rows P.Key)} (h : FreshIn later)
    (hs : history <:+ later) : FreshIn history := by
  induction later with
  | nil =>
    obtain rfl := List.suffix_nil.mp hs
    exact h
  | cons rows past ih =>
    rcases List.suffix_cons_iff.mp hs with rfl | hs
    · exact h
    · exact ih h.1 hs

theorem freshKeys_of (h : FreshIn db.all) : FreshKeys db := by
  intro db₀ rows hle p new key hn hk hs q rec he
  have hat : FreshAt rows db₀.all := (h.suffix hle).2.resolve_left (List.cons_ne_nil _ _)
  rcases hat (p, new) (mem_sessionsAt.mpr hn) key hk with ⟨before, hb, ⟨p', old⟩, ho, rfl, hd⟩ | hall
  · obtain rfl := Option.some.inj hb
    exact absurd hd (hs old (mem_sessionsAt.mp ho))
  · obtain ⟨before, hb, hl⟩ := he
    exact hall before hb (q, rec) (mem_sessionsAt.mpr hl)

end Messenger

end Arcium
