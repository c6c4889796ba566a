/-!
# Programs over a shared state

`Prog ε σ α` is a program that returns an `α`. Its only effects are atomic actions on a shared state
`σ`; each action is given a choice `ε` (the outcome of a fault, a random draw, an answer from
outside) and continues from the state it saw. Between two actions the environment may act.

* `Prog.atomic`: one action; `bind`, `pure`: sequencing. `Op` adds errors.
* `Prog.WP R I G Q p tr s`: run from `s`, with an environment that moves the state along `R` through
  states with `I`, every action of `p` is a step of `G`, and `p` ends only with a value, a trace and
  a state that meet `Q`. The trace lists the actions of `p` (the states before and after each, the
  last first), after those of `tr`. This is the rely-guarantee triple of `p`, as a predicate on the
  start state.
* `WP.bind`, `WP.atomic`, `WP.mono`, and their forms for programs with errors.
* `Prog.Ran R p s a s'`: one way in which `p` can end.
* `Prog.Alone C p s a s'`: one way in which `p` can end that nothing interrupts.
* `Prog.Always Q p`: what holds of the results of `p` in every environment.
-/

namespace Conc

/-- A program of atomic actions. -/
inductive Prog (ε σ α : Type) where
  | ret (a : α)
  /-- Change the state, then go on, knowing the choice and the state before the change. -/
  | act (upd : ε → σ → σ) (next : ε → σ → Prog ε σ α)

namespace Prog

variable {ε σ α β : Type}

def bind : Prog ε σ α → (α → Prog ε σ β) → Prog ε σ β
  | .ret a, f => f a
  | .act upd next, f => .act upd fun e s => (next e s).bind f

instance : Monad (Prog ε σ) where
  pure := .ret
  bind := bind

/-- One action: a new state and a value, from the choice and the state. -/
def atomic (f : ε → σ → σ × α) : Prog ε σ α := .act (fun e s => (f e s).1) fun e s => .ret (f e s).2

/-- An action that changes nothing. -/
def look (f : ε → σ → α) : Prog ε σ α := atomic fun e s => (s, f e s)

@[simp] theorem ret_bind (a : α) (f : α → Prog ε σ β) : (Prog.ret a).bind f = f a := rfl

@[simp] theorem pure_eq (a : α) : (pure a : Prog ε σ α) = .ret a := rfl

@[simp] theorem bind_eq (p : Prog ε σ α) (f : α → Prog ε σ β) : (p >>= f) = p.bind f := rfl

theorem bind_assoc {γ : Type} (p : Prog ε σ α) (f : α → Prog ε σ β) (g : β → Prog ε σ γ) :
    (p.bind f).bind g = p.bind fun a => (f a).bind g := by
  induction p with
  | ret a => rfl
  | act upd next ih =>
    simp only [bind]
    congr 1
    funext e s
    exact ih e s

@[simp] theorem bind_ret (p : Prog ε σ α) : p.bind .ret = p := by
  induction p with
  | ret a => rfl
  | act upd next ih =>
    simp only [bind]
    congr 1
    funext e s
    exact ih e s

instance : LawfulMonad (Prog ε σ) :=
  LawfulMonad.mk' _ bind_ret (fun _ _ => rfl) bind_assoc

section Triple

variable (R : σ → σ → Prop) (I : σ → Prop) (G : σ → σ → Prop) (Q : α → List (σ × σ) → σ → Prop)

/-- Rely `R`, environment invariant `I`, guarantee `G`, postcondition `Q` (module doc). -/
def WP : Prog ε σ α → List (σ × σ) → σ → Prop
  | .ret a => Q a
  | .act upd next => fun tr s => ∀ s', R s s' → I s' → ∀ e,
      G s' (upd e s') ∧ WP (next e s') ((s', upd e s') :: tr) (upd e s')

end Triple

variable {R : σ → σ → Prop} {I : σ → Prop} {G G' : σ → σ → Prop}
  {Q Q' : α → List (σ × σ) → σ → Prop} {tr : List (σ × σ)} {s : σ}

theorem WP.ret {a : α} (h : Q a tr s) : WP R I G Q (.ret a : Prog ε σ α) tr s := h

theorem WP.atomic {f : ε → σ → σ × α}
    (h : ∀ s', R s s' → I s' → ∀ e,
      G s' (f e s').1 ∧ Q (f e s').2 ((s', (f e s').1) :: tr) (f e s').1) :
    WP R I G Q (Prog.atomic f) tr s := h

/-- A weaker guarantee and a weaker postcondition. -/
theorem WP.mono {p : Prog ε σ α} (h : WP R I G Q p tr s)
    (hG : ∀ s s', G s s' → G' s s') (hQ : ∀ a tr s, Q a tr s → Q' a tr s) :
    WP R I G' Q' p tr s := by
  induction p generalizing tr s with
  | ret a => exact hQ a tr s h
  | act upd next ih =>
    intro s' hR hI e
    obtain ⟨hg, hn⟩ := h s' hR hI e
    exact ⟨hG _ _ hg, ih e s' hn⟩

/-- A stronger invariant. -/
theorem WP.strengthen {I' : σ → Prop} {p : Prog ε σ α} (h : WP R I G Q p tr s)
    (hI : ∀ s, I' s → I s) : WP R I' G Q p tr s := by
  induction p generalizing tr s with
  | ret a => exact h
  | act upd next ih =>
    intro s' hR hs e
    obtain ⟨hg, hn⟩ := h s' hR (hI s' hs) e
    exact ⟨hg, ih e s' hn⟩

/-- What two triples say of the result. -/
theorem WP.and {p : Prog ε σ α} (h : WP R I G Q p tr s) (h' : WP R I G' Q' p tr s) :
    WP R I G (fun a tr s => Q a tr s ∧ Q' a tr s) p tr s := by
  induction p generalizing tr s with
  | ret a => exact ⟨h, h'⟩
  | act upd next ih =>
    intro s' hR hI e
    obtain ⟨hg, hn⟩ := h s' hR hI e
    exact ⟨hg, ih e s' hn (h' s' hR hI e).2⟩

/-- A guarantee that is weaker from where the program starts. -/
theorem WP.weaken_from {p : Prog ε σ α} (ht : ∀ a b c, R a b → R b c → R a c)
    (hR : ∀ s s', G s s' → R s s') (h : WP R I G Q p tr s)
    (hG : ∀ s₁ s₂, R s s₁ → I s₁ → G s₁ s₂ → G' s₁ s₂) : WP R I G' Q p tr s := by
  induction p generalizing tr s with
  | ret a => exact h
  | act upd next ih =>
    intro s' hs hI e
    obtain ⟨hg, hn⟩ := h s' hs hI e
    refine ⟨hG _ _ hs hI hg, ih e s' hn fun s₁ s₂ h₁ => hG s₁ s₂ ?_⟩
    exact ht _ _ _ (ht _ _ _ hs (hR _ _ hg)) h₁

/-- What every action keeps holds at the end. -/
theorem WP.kept {p : Prog ε σ α} (hI : ∀ s s', I s → G s s' → I s') (h : WP R I G Q p tr s)
    (hs : I s) : WP R I G (fun a tr s' => Q a tr s' ∧ I s') p tr s := by
  induction p generalizing tr s with
  | ret a => exact ⟨h, hs⟩
  | act upd next ih =>
    intro s' hR hI' e
    obtain ⟨hg, hn⟩ := h s' hR hI' e
    exact ⟨hg, ih e s' hn (hI _ _ hI' hg)⟩

theorem WP.bind {p : Prog ε σ α} {f : α → Prog ε σ β} {Q : β → List (σ × σ) → σ → Prop}
    (h : WP R I G (fun a tr s => WP R I G Q (f a) tr s) p tr s) : WP R I G Q (p.bind f) tr s := by
  induction p generalizing tr s with
  | ret a => exact h
  | act upd next ih =>
    intro s' hR hI e
    obtain ⟨hg, hn⟩ := h s' hR hI e
    exact ⟨hg, ih e s' hn⟩

/-- A program ends above the state it started in, if every step leads up. -/
theorem WP.up {p : Prog ε σ α} (hr : ∀ s, R s s) (ht : ∀ a b c, R a b → R b c → R a c)
    (hG : ∀ s s', G s s' → R s s') (h : WP R I G Q p tr s) :
    WP R I G (fun a tr s' => Q a tr s' ∧ R s s') p tr s := by
  suffices ∀ {s₀ : σ}, R s₀ s → WP R I G (fun a tr s' => Q a tr s' ∧ R s₀ s') p tr s from this (hr s)
  induction p generalizing tr s with
  | ret a => exact fun h₀ => ⟨h, h₀⟩
  | act upd next ih =>
    intro s₀ h₀ s' hR hI e
    obtain ⟨hg, hn⟩ := h s' hR hI e
    exact ⟨hg, ih e s' hn (ht _ _ _ (ht _ _ _ h₀ hR) (hG _ _ hg))⟩

/-- `p` was run from `s`, in an environment that moves the state along `R`, and ended with a value
in a state. -/
inductive Ran (R : σ → σ → Prop) : Prog ε σ α → σ → α → σ → Prop
  | ret (a : α) (s : σ) : Ran R (.ret a) s a s
  | act {upd : ε → σ → σ} {next : ε → σ → Prog ε σ α} {s s₁ s' : σ} {a : α} (e : ε) (moved : R s s₁)
      (rest : Ran R (next e s₁) (upd e s₁) a s') : Ran R (.act upd next) s a s'

theorem WP.ran {p : Prog ε σ α} (h : WP R I G Q p tr s) :
    WP R I G (fun a tr s' => Q a tr s' ∧ Ran R p s a s') p tr s := by
  induction p generalizing tr s with
  | ret a => exact ⟨h, .ret a s⟩
  | act upd next ih =>
    intro s' hR hI e
    obtain ⟨hg, hn⟩ := h s' hR hI e
    exact ⟨hg, (ih e s' hn).mono (fun _ _ hg => hg) fun _ _ _ h => ⟨h.1, .act e hR h.2⟩⟩

/-- `p` was run from `s`, with choices in `C` and nothing in between, and ended with a value in a
state. -/
inductive Alone (C : ε → Prop) : Prog ε σ α → σ → α → σ → Prop
  | ret (a : α) (s : σ) : Alone C (.ret a) s a s
  | act {upd : ε → σ → σ} {next : ε → σ → Prog ε σ α} {s s' : σ} {a : α} (e : ε) (allowed : C e)
      (rest : Alone C (next e s) (upd e s) a s') : Alone C (.act upd next) s a s'

namespace Alone

variable {C : ε → Prop}

/-- Every program ends. -/
theorem total (hC : ∃ e, C e) (p : Prog ε σ α) (s : σ) : ∃ a s', Alone C p s a s' := by
  obtain ⟨e, he⟩ := hC
  induction p generalizing s with
  | ret a => exact ⟨a, s, .ret a s⟩
  | act upd next ih =>
    obtain ⟨a, s', h⟩ := ih e s (upd e s)
    exact ⟨a, s', .act e he h⟩

theorem mono {C' : ε → Prop} (hC : ∀ e, C e → C' e) {p : Prog ε σ α} {s s' : σ} {a : α}
    (h : Alone C p s a s') : Alone C' p s a s' := by
  induction h with
  | ret a s => exact .ret a s
  | act e he _ ih => exact .act e (hC e he) ih

theorem of_bind {p : Prog ε σ α} {f : α → Prog ε σ β} {s s'' : σ} {b : β}
    (h : Alone C (p.bind f) s b s'') : ∃ a s', Alone C p s a s' ∧ Alone C (f a) s' b s'' := by
  induction p generalizing s with
  | ret a => exact ⟨a, s, .ret a s, h⟩
  | act upd next ih =>
    cases h with
    | act e he rest =>
      obtain ⟨a, s', h1, h2⟩ := ih e s rest
      exact ⟨a, s', .act e he h1, h2⟩

theorem of_atomic {f : ε → σ → σ × α} {s s' : σ} {a : α} (h : Alone C (Prog.atomic f) s a s') :
    ∃ e, C e ∧ s' = (f e s).1 ∧ a = (f e s).2 := by
  cases h with
  | act e he rest =>
    cases rest with
    | ret => exact ⟨e, he, rfl, rfl⟩

end Alone

/-- A triple holds of a program that runs alone. If none of its actions changed what `view` shows,
it ended where it began. -/
theorem WP.alone {τ : Type} (view : σ → τ) {C : ε → Prop} {p : Prog ε σ α} {a : α} {s' : σ}
    (hR : ∀ s, R s s) (hI : ∀ s s', I s → G s s' → I s') (h : WP R I G Q p tr s) (hs : I s)
    (ha : Alone C p s a s') :
    ∃ l, Q a (l ++ tr) s' ∧ ((∀ x ∈ l, view x.2 = view x.1) → view s' = view s) := by
  induction p generalizing tr s with
  | ret b =>
    cases ha with
    | ret => exact ⟨[], h, fun _ => rfl⟩
  | act upd next ih =>
    cases ha with
    | act e he rest =>
      obtain ⟨hg, hn⟩ := h s (hR s) hs e
      obtain ⟨l, hq, hl⟩ := ih e s hn (hI _ _ hs hg) rest
      refine ⟨l ++ [(s, upd e s)], ?_, fun hv => ?_⟩
      · rw [List.append_assoc]
        exact hq
      · rw [hl fun x hx => hv x (List.mem_append_left _ hx)]
        exact hv (s, upd e s) (List.mem_append_right _ (List.mem_singleton_self _))

/-- `Q` holds when `p` ends, whatever it does and whatever the environment does. -/
def Always (Q : α → List (σ × σ) → σ → Prop) (p : Prog ε σ α) : Prop :=
  ∀ tr s, WP (fun _ _ => True) (fun _ => True) (fun _ _ => True) Q p tr s

theorem WP.and_always {p : Prog ε σ α} (h : WP R I G Q p tr s) (h' : Always Q' p) :
    WP R I G (fun a tr s => Q a tr s ∧ Q' a tr s) p tr s := by
  suffices WP (fun _ _ => True) (fun _ => True) (fun _ _ => True) Q' p tr s →
      WP R I G (fun a tr s => Q a tr s ∧ Q' a tr s) p tr s from this (h' tr s)
  clear h'
  induction p generalizing tr s with
  | ret a => exact fun h' => ⟨h, h'⟩
  | act upd next ih =>
    intro h' s' hR hI e
    obtain ⟨hg, hn⟩ := h s' hR hI e
    exact ⟨hg, ih e s' hn (h' s' trivial trivial e).2⟩

theorem Always.of_forall (h : ∀ a tr s, Q a tr s) (p : Prog ε σ α) : Always Q p := by
  induction p with
  | ret a => exact h a
  | act upd next ih => exact fun tr s s' _ _ e => ⟨trivial, ih e s' _ _⟩

theorem Always.bind {p : Prog ε σ α} {f : α → Prog ε σ β} {Q : β → List (σ × σ) → σ → Prop}
    (h : ∀ a, Always Q (f a)) : Always Q (p.bind f) := by
  intro tr s
  refine WP.bind ?_
  induction p generalizing tr s with
  | ret a => exact h a tr s
  | act upd next ih => exact fun s' _ _ e => ⟨trivial, ih e s' _ _⟩

end Prog

/-! ## Programs with errors -/

/-- A program that returns a value or an error. -/
abbrev Op (ε σ err α : Type) := ExceptT err (Prog ε σ) α

namespace Op

variable {ε σ err err' α β : Type}

/-- Run `p`, turning its error into one of ours. -/
def mapError (f : err → err') (p : Prog ε σ (Except err α)) : Op ε σ err' α :=
  ExceptT.mk (p.bind fun r => .ret (r.mapError f))

/-- Run `p` and hand over its result, error or not. -/
def attempt (p : Prog ε σ α) : Op ε σ err α := ExceptT.lift p

section Rules

open Prog

variable {R : σ → σ → Prop} {I : σ → Prop} {G : σ → σ → Prop} {tr : List (σ × σ)} {s : σ}

/-- What a program with errors must do next, after a value or an error. -/
def Next (R : σ → σ → Prop) (I : σ → Prop) (G : σ → σ → Prop)
    (Q : Except err β → List (σ × σ) → σ → Prop) (f : α → Op ε σ err β) :
    Except err α → List (σ × σ) → σ → Prop
  | .ok a => WP R I G Q (f a).run
  | .error e => Q (.error e)

theorem wp_bind {x : Op ε σ err α} {f : α → Op ε σ err β}
    {Q : Except err β → List (σ × σ) → σ → Prop}
    (h : WP R I G (Next R I G Q f) x.run tr s) : WP R I G Q (x >>= f).run tr s := by
  refine WP.bind (h.mono (fun _ _ hg => hg) fun r tr s hr => ?_)
  cases r with
  | ok a => exact hr
  | error e => exact hr

theorem wp_pure {a : α} {Q : Except err α → List (σ × σ) → σ → Prop} (h : Q (.ok a) tr s) :
    WP R I G Q (pure a : Op ε σ err α).run tr s := h

theorem wp_throw {e : err} {Q : Except err α → List (σ × σ) → σ → Prop} (h : Q (.error e) tr s) :
    WP R I G Q (throw e : Op ε σ err α).run tr s := h

theorem wp_attempt {p : Prog ε σ α} {Q : Except err α → List (σ × σ) → σ → Prop}
    (h : WP R I G (fun a tr s => Q (.ok a) tr s) p tr s) :
    WP R I G Q (attempt p : Op ε σ err α).run tr s :=
  WP.bind (h.mono (fun _ _ hg => hg) fun _ _ _ ha => ha)

theorem wp_mapError {f : err → err'} {p : Prog ε σ (Except err α)}
    {Q : Except err' α → List (σ × σ) → σ → Prop}
    (h : WP R I G (fun r tr s => Q (r.mapError f) tr s) p tr s) :
    WP R I G Q (mapError f p).run tr s :=
  WP.bind (h.mono (fun _ _ hg => hg) fun _ _ _ hr => hr)

end Rules

end Op

end Conc
