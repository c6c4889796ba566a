import Arcium.Storage.Store

/-!
# Programs that run alone

A program of one device that nothing interrupts, as a sequential program.

* `Solo C p s Q`: run alone from `s`, with choices in `C`, `p` ends only as `Q` says.
* `Does p s V`: run alone from `s`, with no fault, `p` returns a value, and the value and the device
  are in `V`. Every program ends (`Prog.Alone.total`), so this is total correctness.
* `Gets p s V`: whatever fails, if `p` returns a value then the value and the device are in `V`.
* `Leaves Q p s`: whatever fails, `p` leaves the database as it is, unless `Q`.

For each primitive there is a rule of `Does` and one of `Gets`; `Does.seq` and `Gets.seq` put them
together.
-/

namespace Arcium

open Conc

variable {K M err α β : Type}

/-- How a program ends that runs alone (module doc). -/
def Solo (C : Choice → Prop) (p : Run K M err α) (s : Device K M)
    (Q : Except err α → Device K M → Prop) : Prop := ∀ r s', Prog.Alone C p.run s r s' → Q r s'

/-- It returns a value, if nothing fails (module doc). -/
def Does (p : Run K M err α) (s : Device K M) (V : α → Device K M → Prop) : Prop :=
  Solo Choice.Calm p s fun r s' => ∃ a, r = .ok a ∧ V a s'

/-- What is known if it returns a value (module doc). -/
def Gets (p : Run K M err α) (s : Device K M) (V : α → Device K M → Prop) : Prop :=
  Solo (fun _ => True) p s fun r s' => ∀ a, r = .ok a → V a s'

/-- What is written only if `Q` (module doc). -/
def Leaves (Q : Prop) (p : Run K M err α) (s : Device K M) : Prop :=
  Solo (fun _ => True) p s fun _ s' => s'.db = s.db ∨ Q

/-- The reads of a store that does not fail. -/
def plainRead (rows : Rows K) (k : Key) : Except StorageError (Row K k) :=
  match rows.lookup k with
  | some v => .ok v
  | none => .error .notFound

namespace Solo

variable {C : Choice → Prop} {s : Device K M} {Q : Except err α → Device K M → Prop}
  {S : Except err β → Device K M → Prop}

theorem pure {a : α} (h : Q (.ok a) s) : Solo C (pure a : Run K M err α) s Q := by
  intro r s' ha
  cases ha with
  | ret => exact h

theorem throw {e : err} (h : Q (.error e) s) : Solo C (throw e : Run K M err α) s Q := by
  intro r s' ha
  cases ha with
  | ret => exact h

theorem mono {p : Run K M err α} {U : Except err α → Device K M → Prop} (h : Solo C p s Q)
    (hQ : ∀ r s', Q r s' → U r s') : Solo C p s U := fun r s' ha => hQ r s' (h r s' ha)

theorem seq {x : Run K M err α} {f : α → Run K M err β} (hx : Solo C x s Q)
    (he : ∀ e s', Q (.error e) s' → S (.error e) s')
    (hf : ∀ a s', Q (.ok a) s' → Solo C (f a) s' S) : Solo C (x >>= f) s S := by
  intro r s' ha
  rcases Run.alone_bind ha with ⟨a, s₁, h1, h2⟩ | ⟨e, h1, rfl⟩
  · exact hf a s₁ (hx _ _ h1) r s' h2
  · exact he e s' (hx _ _ h1)

theorem atomic {f : Choice → Device K M → Device K M × Except err α}
    (h : ∀ e, C e → Q (f e s).2 (f e s).1) : Solo C (ExceptT.mk (Prog.atomic f)) s Q := by
  intro r s' ha
  obtain ⟨e, he, rfl, rfl⟩ := Prog.Alone.of_atomic ha
  exact h e he

theorem attempt {err' : Type} {p : Run K M err' α} {U : Except err (Except err' α) → Device K M → Prop}
    (h : Solo C p s fun r s' => U (.ok r) s') : Solo C (Op.attempt p.run : Run K M err _) s U := by
  intro r s' ha
  obtain ⟨r₁, s₁, h1, h2⟩ := Prog.Alone.of_bind ha
  cases h2 with
  | ret => exact h _ _ h1

theorem mapError {err' : Type} {g : err' → err} {p : Run K M err' α}
    (h : Solo C p s fun r s' => Q (r.mapError g) s') : Solo C (Op.mapError g p.run) s Q := by
  intro r s' ha
  obtain ⟨r₁, s₁, h1, h2⟩ := Prog.Alone.of_bind ha
  cases h2 with
  | ret => exact h _ _ h1

theorem look {f : Choice → Device K M → α} {U : Except err α → Device K M → Prop}
    (h : ∀ e, C e → U (.ok (f e s)) s) : Solo C (Op.attempt (Prog.look f) : Run K M err α) s U := by
  intro r s' ha
  obtain ⟨a, s₁, h1, h2⟩ := Prog.Alone.of_bind ha
  obtain ⟨e, he, rfl, rfl⟩ := Prog.Alone.of_atomic h1
  cases h2 with
  | ret => exact h e he

theorem remember {i : Nat} {change : M → M} {U : Except err Unit → Device K M → Prop}
    (h : U (.ok ()) { s with mem := Function.update s.mem i (change (s.mem i)) }) :
    Solo C (Arcium.remember i change : Run K M err Unit) s U := by
  intro r s' ha
  obtain ⟨a, s₁, h1, h2⟩ := Prog.Alone.of_bind ha
  obtain ⟨e, -, rfl, rfl⟩ := Prog.Alone.of_atomic h1
  cases h2 with
  | ret => exact h

/-- A program that writes nothing. -/
theorem of_quiet {p : Run K M err α} {R : Except err α → Db K → Prop}
    (h : Sat (· = s.db) (fun _ _ => True) (fun _ _ => False) (fun r _ db' => R r db') p [] s.db) :
    Solo C p s fun r s' => s'.db = s.db ∧ R r s.db := by
  intro r s' ha
  have keeps : ∀ s₁ s₂ : Device K M, s₁.db = s.db →
      Acts (fun _ _ => True) (fun _ _ => False) s₁ s₂ → s₂.db = s.db := by
    intro s₁ s₂ h₁ hg
    rcases hg.moves with h₂ | ⟨_, hf, -⟩
    · exact h₂.trans h₁
    · exact hf.elim
  have hw := Prog.WP.kept keeps (h [] s.mem s.asked rfl) rfl
  obtain ⟨_, ⟨hr, hdb⟩, -⟩ := hw.alone (fun _ => ()) (fun d => Db.Le.refl d.db) keeps rfl ha
  exact ⟨hdb, hdb ▸ hr⟩

end Solo

namespace Does

variable {s : Device K M} {V : α → Device K M → Prop} {W : β → Device K M → Prop}

theorem pure {a : α} (h : V a s) : Does (pure a : Run K M err α) s V := Solo.pure ⟨a, rfl, h⟩

theorem mono {p : Run K M err α} {U : α → Device K M → Prop} (h : Does p s V)
    (hV : ∀ a s', V a s' → U a s') : Does p s U := by
  intro r s' ha
  obtain ⟨a, hr, hv⟩ := h r s' ha
  exact ⟨a, hr, hV a s' hv⟩

theorem seq {x : Run K M err α} {f : α → Run K M err β} (hx : Does x s V)
    (hf : ∀ a s', V a s' → Does (f a) s' W) : Does (x >>= f) s W := by
  refine Solo.seq hx (fun e s' h => ?_) fun a s' h => ?_
  · obtain ⟨_, h, -⟩ := h
    cases h
  · obtain ⟨_, h, hv⟩ := h
    cases h
    exact hf a s' hv

/-- It does end. -/
theorem ends {p : Run K M err α} (h : Does p s V) :
    ∃ a s', Prog.Alone Choice.Calm p.run s (.ok a) s' ∧ V a s' := by
  obtain ⟨r, s', ha⟩ := Prog.Alone.total ⟨_, Choice.calm_default⟩ p.run s
  obtain ⟨a, rfl, hv⟩ := h r s' ha
  exact ⟨a, s', ha, hv⟩

theorem attempt {err' : Type} {p : Run K M err' α} {U : Except err' α → Device K M → Prop}
    (h : Solo Choice.Calm p s U) : Does (Op.attempt p.run : Run K M err _) s U :=
  Solo.attempt (h.mono fun r _ hr => ⟨r, rfl, hr⟩)

theorem mapError {err' : Type} {g : err' → err} {p : Run K M err' α} (h : Does p s V) :
    Does (Op.mapError g p.run) s V := by
  refine Solo.mapError (Solo.mono h fun r s' hr => ?_)
  obtain ⟨a, rfl, hv⟩ := hr
  exact ⟨a, rfl, hv⟩

theorem find {toErr : StorageError → err} {k : Key} {V : Option (Row K k) → Device K M → Prop}
    (h : V (s.db.rows.lookup k) s) : Does (Arcium.find toErr k : Run K M err _) s V := by
  intro r s' ha
  obtain ⟨rfl, rfl⟩ := find_alone ha
  exact ⟨_, rfl, h⟩

theorem draw {view : Choice → α} (h : ∀ a, V a s) : Does (Arcium.draw view : Run K M err α) s V :=
  Solo.look fun _ _ => ⟨_, rfl, h _⟩

theorem remembered {i : Nat} {view : M → α} (h : V (view (s.mem i)) s) :
    Does (Arcium.remembered i view : Run K M err α) s V := Solo.look fun _ _ => ⟨_, rfl, h⟩

theorem remember {i : Nat} {change : M → M} {V : Unit → Device K M → Prop}
    (h : V () { s with mem := Function.update s.mem i (change (s.mem i)) }) :
    Does (Arcium.remember i change : Run K M err Unit) s V := Solo.remember ⟨_, rfl, h⟩

theorem keysUnder {toErr : StorageError → err} {view : Rows K → α} (h : V (view s.db.rows) s) :
    Does (Arcium.keysUnder toErr view : Run K M err α) s V := by
  intro r s' ha
  obtain ⟨rfl, rfl⟩ := keysUnder_alone ha
  exact ⟨_, rfl, h⟩

end Does

namespace Gets

variable {s : Device K M} {V : α → Device K M → Prop} {W : β → Device K M → Prop}

theorem pure {a : α} (h : V a s) : Gets (pure a : Run K M err α) s V :=
  Solo.pure fun _ ha => Except.ok.inj ha ▸ h

theorem throw {e : err} : Gets (throw e : Run K M err α) s V := Solo.throw nofun

theorem seq {x : Run K M err α} {f : α → Run K M err β} (hx : Gets x s V)
    (hf : ∀ a s', V a s' → Gets (f a) s' W) : Gets (x >>= f) s W :=
  Solo.seq hx (fun _ _ _ => nofun) fun a s' h => hf a s' (h a rfl)

theorem attempt {err' : Type} {p : Run K M err' α} {U : Except err' α → Device K M → Prop}
    (h : Solo (fun _ => True) p s U) : Gets (Op.attempt p.run : Run K M err _) s U :=
  Solo.attempt (h.mono fun _ _ hr _ ha => Except.ok.inj ha ▸ hr)

theorem mapError {err' : Type} {g : err' → err} {p : Run K M err' α} (h : Gets p s V) :
    Gets (Op.mapError g p.run) s V := by
  refine Solo.mapError (Solo.mono h fun r s' hr a ha => ?_)
  cases r with
  | ok b => exact hr a (congrArg _ (Except.ok.inj ha))
  | error e => cases ha

theorem find {toErr : StorageError → err} {k : Key} {V : Option (Row K k) → Device K M → Prop}
    (h : V (s.db.rows.lookup k) s) : Gets (Arcium.find toErr k : Run K M err _) s V := by
  refine Solo.atomic fun e _ a ha => ?_
  have hr := e.reads s.db.rows
  dsimp only at ha
  split at ha
  · next v hv =>
    obtain rfl := Except.ok.inj ha
    rwa [hr.found _ _ hv] at h
  · next hv =>
    obtain rfl := Except.ok.inj ha
    rwa [hr.missing _ hv] at h
  · cases ha

theorem draw {view : Choice → α} (h : ∀ a, V a s) : Gets (Arcium.draw view : Run K M err α) s V :=
  Solo.look fun _ _ _ ha => Except.ok.inj ha ▸ h _

theorem remembered {i : Nat} {view : M → α} (h : V (view (s.mem i)) s) :
    Gets (Arcium.remembered i view : Run K M err α) s V :=
  Solo.look fun _ _ _ ha => Except.ok.inj ha ▸ h

theorem remember {i : Nat} {change : M → M} {V : Unit → Device K M → Prop}
    (h : V () { s with mem := Function.update s.mem i (change (s.mem i)) }) :
    Gets (Arcium.remember i change : Run K M err Unit) s V := Solo.remember fun _ _ => h

theorem ask {request : Request} {view : Answer → Except err α}
    (h : ∀ answer a, view answer = .ok a → V a { s with asked := (request, answer) :: s.asked }) :
    Gets (Arcium.ask request view : Run K M err α) s V :=
  Solo.atomic fun e _ a ha => h e.relay a ha

theorem tx {errs : TxErrors err}
    {body : ((k : Key) → Except StorageError (Row K k)) → Except err (α × List (Change K))}
    (hq : ∀ read a, Reads s.db.rows read → body read = .ok (a, []) → V a s)
    (hw : ∀ read a c cs, Reads s.db.rows read → body read = .ok (a, c :: cs) →
      V a { s with db := s.db.push (s.db.rows.applyAll (c :: cs)) }) :
    Gets (Arcium.tx errs body : Run K M err α) s V := by
  refine Solo.atomic fun e _ a ha => ?_
  have hr := e.reads s.db.rows
  dsimp only [txStep] at ha ⊢
  split at ha
  · cases ha
  · split at ha
    · cases ha
    · next hb =>
      obtain rfl := Except.ok.inj ha
      exact hq _ _ hr hb
    · next hb =>
      split at ha
      · cases ha
      · split at ha
        · obtain rfl := Except.ok.inj ha
          exact hw _ _ _ _ hr hb
        · cases ha
        · cases ha

end Gets

namespace Leaves

variable {s : Device K M} {Q : Prop}

theorem of {p : Run K M err α} (h : Q) : Leaves Q p s := fun _ _ _ => .inr h

theorem pure {a : α} : Leaves Q (pure a : Run K M err α) s := Solo.pure (.inl rfl)

theorem throw {e : err} : Leaves Q (throw e : Run K M err α) s := Solo.throw (.inl rfl)

/-- A part that only reads, and what is done with what it read. -/
theorem seq {x : Run K M err α} {f : α → Run K M err β} {R : Except err α → Db K → Prop}
    (hx : Solo (fun _ => True) x s fun r s' => s'.db = s.db ∧ R r s'.db)
    (hf : ∀ a s', s'.db = s.db → R (.ok a) s'.db → Leaves Q (f a) s') : Leaves Q (x >>= f) s := by
  refine Solo.seq hx (fun _ _ h => .inl h.1) fun a s₁ h => (hf a s₁ h.1 h.2).mono fun _ s' h' => ?_
  rwa [h.1] at h'

theorem and_then {x : Run K M err α} {f : α → Run K M err β} (hx : Leaves Q x s)
    (hf : ∀ a s', s'.db = s.db → Leaves Q (f a) s') : Leaves Q (x >>= f) s := by
  refine Solo.seq hx (fun _ _ h => h) fun a s₁ h => ?_
  rcases h with h | hQ
  · refine (hf a s₁ h).mono fun _ s' h' => ?_
    rwa [h] at h'
  · exact fun _ _ _ => .inr hQ

theorem mapError {err' : Type} {g : err' → err} {p : Run K M err' α} (h : Leaves Q p s) :
    Leaves Q (Op.mapError g p.run : Run K M err α) s := Solo.mapError h

theorem attempt {err' : Type} {p : Run K M err' α} (h : Leaves Q p s) :
    Leaves Q (Op.attempt p.run : Run K M err _) s := Solo.attempt h

end Leaves

namespace Solo

variable {s : Device K M}

theorem find {toErr : StorageError → err} {k : Key} :
    Solo (fun _ => True) (Arcium.find toErr k : Run K M err _) s fun r s' =>
      s'.db = s.db ∧ ∀ v, r = .ok v → s'.db.rows.lookup k = v := by
  refine Solo.atomic fun e _ => ⟨rfl, fun v hv => ?_⟩
  have hr := e.reads s.db.rows
  dsimp only at hv ⊢
  split at hv
  · next w hw =>
    obtain rfl := Except.ok.inj hv
    exact hr.found _ _ hw
  · next hw =>
    obtain rfl := Except.ok.inj hv
    exact hr.missing _ hw
  · cases hv

theorem draw {view : Choice → α} :
    Solo (fun _ => True) (Arcium.draw view : Run K M err α) s fun _ s' => s'.db = s.db ∧ True :=
  Solo.look fun _ _ => ⟨rfl, trivial⟩

end Solo

end Arcium
