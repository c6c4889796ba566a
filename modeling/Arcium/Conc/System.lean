import Arcium.Conc.Prog
import Mathlib.Logic.Function.Basic

/-!
# Concurrent calls on a shared state

A system runs calls of any number of threads on one shared state, interleaved at their atomic
actions. A call can be cut off at any action (a crash), and the environment may change the state.

* `Config`: the shared state, the calls that run, and the results of those that returned, each with
  the state in which its call started and the trace of its own actions.
* `Step`, `Reach`: any interleaving; `RunsBy ok`: those whose steps are all `ok`.
* `Contract`: an invariant `I`, a preorder `R` on states that every step follows, and for each call
  its guarantee and its postcondition, proved from any state with `I` (`Prog.WP`).
* `Contract.sound`: in every reachable configuration `I` holds, every running call still meets its
  triple, and every result meets its postcondition.
-/

namespace Conc

open Function (update)

variable {ε σ Call Res : Type}

/-- A call that runs: what is left of it, where it started, and what it did so far (the states
before and after each of its actions, the last first). -/
structure Thread (ε σ Call Res : Type) where
  call : Call
  start : σ
  trace : List (σ × σ)
  prog : Prog ε σ Res

/-- A call that returned. -/
structure Done (σ Call Res : Type) where
  call : Call
  start : σ
  trace : List (σ × σ)
  res : Res

structure Config (ε σ Call Res : Type) where
  shared : σ
  threads : Nat → Option (Thread ε σ Call Res)
  done : List (Done σ Call Res)

/-- A configuration in which nothing runs. -/
def Config.init (s : σ) : Config ε σ Call Res := ⟨s, fun _ => none, []⟩

/-- The code of each call, which calls are made, and the steps of the environment. -/
structure System (ε σ Call Res : Type) where
  body : Call → Prog ε σ Res
  allowed : Call → Prop
  env : σ → σ → Prop

namespace System

variable (S : System ε σ Call Res)

/-- One step of one thread, or of the environment. -/
inductive Step : Config ε σ Call Res → Config ε σ Call Res → Prop
  | invoke {c : Config ε σ Call Res} (i : Nat) (call : Call) :
      c.threads i = none → S.allowed call →
      Step c { c with threads := update c.threads i (some ⟨call, c.shared, [], S.body call⟩) }
  | act {c : Config ε σ Call Res} (i : Nat) (t : Thread ε σ Call Res) (upd : ε → σ → σ)
      (next : ε → σ → Prog ε σ Res) (e : ε) :
      c.threads i = some t → t.prog = .act upd next →
      Step c { c with
        shared := upd e c.shared
        threads := update c.threads i (some { t with
          trace := (c.shared, upd e c.shared) :: t.trace
          prog := next e c.shared }) }
  | ret {c : Config ε σ Call Res} (i : Nat) (t : Thread ε σ Call Res) (r : Res) :
      c.threads i = some t → t.prog = .ret r →
      Step c { c with threads := update c.threads i none
                      done := ⟨t.call, t.start, t.trace, r⟩ :: c.done }
  /-- The process that ran the call is gone. -/
  | crash {c : Config ε σ Call Res} (i : Nat) : Step c { c with threads := update c.threads i none }
  | env {c : Config ε σ Call Res} (s : σ) : S.env c.shared s → Step c { c with shared := s }

/-- The configurations of every run from `c₀`. -/
inductive Reach (c₀ : Config ε σ Call Res) : Config ε σ Call Res → Prop
  | refl : Reach c₀ c₀
  | step {c c' : Config ε σ Call Res} : Reach c₀ c → S.Step c c' → Reach c₀ c'

/-- The configurations of the runs from `c₀` whose steps are all `ok`. -/
inductive RunsBy (ok : Config ε σ Call Res → Config ε σ Call Res → Prop) (c₀ : Config ε σ Call Res) :
    Config ε σ Call Res → Prop
  | refl : RunsBy ok c₀ c₀
  | step {c c' : Config ε σ Call Res} : RunsBy ok c₀ c → S.Step c c' → ok c c' → RunsBy ok c₀ c'

/-! ## Calls that run alone -/

/-- Run a program without interruption, with the given choices. -/
def exec {α : Type} : Prog ε σ α → List ε → σ → List (σ × σ) → Option (α × List (σ × σ) × σ)
  | .ret a, _, s, tr => some (a, tr, s)
  | .act _ _, [], _, _ => none
  | .act upd next, e :: es, s, tr => exec (next e s) es (upd e s) ((s, upd e s) :: tr)

theorem alone_of_exec {α : Type} {C : ε → Prop} {p : Prog ε σ α} {es : List ε} {s s' : σ}
    {tr tr' : List (σ × σ)} {a : α} (hC : ∀ e ∈ es, C e) (h : exec p es s tr = some (a, tr', s')) :
    Prog.Alone C p s a s' := by
  induction p generalizing es s tr with
  | ret b =>
    simp only [exec, Option.some.injEq, Prod.mk.injEq] at h
    obtain ⟨rfl, -, rfl⟩ := h
    exact .ret b s
  | act upd next ih =>
    cases es with
    | nil => cases h
    | cons e es =>
      exact .act e (hC e List.mem_cons_self) (ih e s (fun e he => hC e (List.mem_cons_of_mem _ he)) h)

/-- Run one call after the other, each with the choices `es`. -/
def runCalls (es : List ε) : Config ε σ Call Res → List Call → Option (Config ε σ Call Res)
  | c, [] => some c
  | c, call :: calls =>
    match exec (S.body call) es c.shared [] with
    | none => none
    | some (r, tr, s) =>
      runCalls es { c with shared := s, done := ⟨call, c.shared, tr, r⟩ :: c.done } calls

/-- No call is left running. -/
theorem runCalls_threads {es : List ε} {c c' : Config ε σ Call Res} {calls : List Call}
    (h : S.runCalls es c calls = some c') : c'.threads = c.threads := by
  induction calls generalizing c with
  | nil =>
    obtain rfl := Option.some.inj h
    rfl
  | cons call calls ih =>
    unfold runCalls at h
    split at h
    · cases h
    · have hc := ih h
      exact hc

/-! ## Schedules -/

/-- One turn of a schedule. -/
inductive Turn (ε Call : Type) where
  | invoke (i : Nat) (call : Call)
  /-- Thread `i` takes its next action, or returns. -/
  | advance (i : Nat) (e : ε)

/-- One turn. -/
def turn (c : Config ε σ Call Res) : Turn ε Call → Option (Config ε σ Call Res)
  | .invoke i call =>
    match c.threads i with
    | some _ => none
    | none => some { c with threads := update c.threads i (some ⟨call, c.shared, [], S.body call⟩) }
  | .advance i e =>
    match c.threads i with
    | none => none
    | some ⟨call, start, trace, .ret r⟩ =>
      some { c with threads := update c.threads i none, done := ⟨call, start, trace, r⟩ :: c.done }
    | some ⟨call, start, trace, .act upd next⟩ =>
      some { c with
        shared := upd e c.shared
        threads := update c.threads i
          (some ⟨call, start, (c.shared, upd e c.shared) :: trace, next e c.shared⟩) }

/-- The turns of a schedule, one after the other. -/
def play : Config ε σ Call Res → List (Turn ε Call) → Option (Config ε σ Call Res)
  | c, [] => some c
  | c, t :: turns =>
    match S.turn c t with
    | none => none
    | some c' => play c' turns

variable {S}

theorem Step.turn {c c' : Config ε σ Call Res} {t : Turn ε Call}
    (ha : ∀ i call, t = .invoke i call → S.allowed call) (h : S.turn c t = some c') :
    S.Step c c' := by
  cases t with
  | invoke i call =>
    simp only [System.turn] at h
    split at h
    · cases h
    · next hi =>
      obtain rfl := Option.some.inj h
      exact .invoke i call hi (ha i call rfl)
  | advance i e =>
    simp only [System.turn] at h
    split at h
    · cases h
    · next hi =>
      obtain rfl := Option.some.inj h
      exact .ret i _ _ hi rfl
    · next hi =>
      obtain rfl := Option.some.inj h
      exact .act i _ _ _ e hi rfl

/-- A schedule is a run. -/
theorem Reach.play {c₀ c c' : Config ε σ Call Res} {turns : List (Turn ε Call)}
    (h : S.Reach c₀ c) (ha : ∀ i call, .invoke i call ∈ turns → S.allowed call)
    (hx : S.play c turns = some c') : S.Reach c₀ c' := by
  induction turns generalizing c with
  | nil =>
    obtain rfl := Option.some.inj hx
    exact h
  | cons t turns ih =>
    unfold System.play at hx
    split at hx
    · cases hx
    · next c₁ ht =>
      refine ih (.step h (.turn (fun i call hc => ha i call (hc ▸ List.mem_cons_self)) ht)) ?_ hx
      exact fun i call hc => ha i call (List.mem_cons_of_mem _ hc)

theorem RunsBy.reach {ok : Config ε σ Call Res → Config ε σ Call Res → Prop}
    {c₀ c : Config ε σ Call Res} (h : S.RunsBy ok c₀ c) : S.Reach c₀ c := by
  induction h with
  | refl => exact .refl
  | step _ hs _ ih => exact .step ih hs

theorem Reach.runsBy {c₀ c : Config ε σ Call Res} (h : S.Reach c₀ c) :
    S.RunsBy (fun _ _ => True) c₀ c := by
  induction h with
  | refl => exact .refl
  | step _ hs ih => exact .step ih hs trivial

/-- A turn of a running call starts none. -/
theorem turn_advance {c c' : Config ε σ Call Res} {i : Nat} {e : ε}
    (h : S.turn c (.advance i e) = some c') {j : Nat} (hj : c.threads j = none) :
    c'.threads j = none := by
  have hne : ∀ t, c.threads i = some t → j ≠ i := by
    rintro t ht rfl
    rw [hj] at ht
    cases ht
  simp only [System.turn] at h
  split at h
  · cases h
  · next ht =>
    obtain rfl := Option.some.inj h
    exact (Function.update_of_ne (hne _ ht) ..).trans hj
  · next ht =>
    obtain rfl := Option.some.inj h
    exact (Function.update_of_ne (hne _ ht) ..).trans hj

/-- A schedule that starts no call is a run. -/
theorem RunsBy.advances {ok : Config ε σ Call Res → Config ε σ Call Res → Prop}
    (hok : ∀ c c', (∀ i, c.threads i = none → c'.threads i = none) → ok c c')
    {c₀ c c' : Config ε σ Call Res} {turns : List (Turn ε Call)} (h : S.RunsBy ok c₀ c)
    (hn : ∀ i call, .invoke i call ∉ turns) (hx : S.play c turns = some c') :
    S.RunsBy ok c₀ c' := by
  induction turns generalizing c with
  | nil =>
    obtain rfl := Option.some.inj hx
    exact h
  | cons t turns ih =>
    unfold System.play at hx
    split at hx
    · cases hx
    · next c₁ ht =>
      cases t with
      | invoke i call => exact absurd List.mem_cons_self (hn i call)
      | advance i e =>
        refine ih (.step h (.turn (by rintro i call ⟨⟩) ht) (hok _ _ fun _ => turn_advance ht)) ?_ hx
        exact fun i call hc => hn i call (List.mem_cons_of_mem _ hc)

/-- A call that runs alone is a run. -/
theorem RunsBy.exec {ok : Config ε σ Call Res → Config ε σ Call Res → Prop}
    (hok : ∀ c c', (∀ i, c.threads i = none → c'.threads i = none) → ok c c')
    {c₀ c : Config ε σ Call Res} {i : Nat} {t : Thread ε σ Call Res} {es : List ε}
    {r : Res} {tr : List (σ × σ)} {s : σ} (h : S.RunsBy ok c₀ c) (ht : c.threads i = some t)
    (hx : System.exec t.prog es c.shared t.trace = some (r, tr, s)) :
    S.RunsBy ok c₀ { shared := s, threads := update c.threads i none
                     done := ⟨t.call, t.start, tr, r⟩ :: c.done } := by
  have quiet : ∀ {c : Config ε σ Call Res} {t : Thread ε σ Call Res} (o : Option (Thread ε σ Call Res)),
      c.threads i = some t → ∀ j, c.threads j = none → update c.threads i o j = none := by
    intro c t o hi j hj
    rw [Function.update_of_ne]
    · exact hj
    · rintro rfl
      rw [hi] at hj
      cases hj
  obtain ⟨call, start, trace, prog⟩ := t
  induction prog generalizing c es trace with
  | ret a =>
    simp only [System.exec, Option.some.injEq, Prod.mk.injEq] at hx
    obtain ⟨rfl, rfl, rfl⟩ := hx
    exact .step h (.ret i _ a ht rfl) (hok _ _ (quiet _ ht))
  | act upd next ih =>
    cases es with
    | nil => cases hx
    | cons e es =>
      have h' := ih e c.shared (.step h (.act i _ upd next e ht rfl) (hok _ _ (quiet _ ht))) _
        (Function.update_self ..) hx
      simpa using h'

/-- Calls that run one after the other are a run. -/
theorem RunsBy.runCalls {ok : Config ε σ Call Res → Config ε σ Call Res → Prop}
    (hok : ∀ c c', (∀ i, c.threads i = none → c'.threads i = none) → ok c c')
    (hidle : ∀ c c', (∀ i, c.threads i = none) → ok c c')
    {c₀ c c' : Config ε σ Call Res} {es : List ε} {calls : List Call}
    (h : S.RunsBy ok c₀ c) (hn : ∀ i, c.threads i = none) (ha : ∀ call ∈ calls, S.allowed call)
    (hx : S.runCalls es c calls = some c') : S.RunsBy ok c₀ c' := by
  induction calls generalizing c with
  | nil =>
    obtain rfl := Option.some.inj hx
    exact h
  | cons call calls ih =>
    unfold System.runCalls at hx
    split at hx
    · cases hx
    · next r tr s hr =>
      have h' := RunsBy.exec hok (i := 0) (t := ⟨call, c.shared, [], S.body call⟩)
        (.step h (.invoke 0 call (hn 0) (ha call List.mem_cons_self)) (hidle _ _ hn)) (by simp) hr
      have hu : update (update c.threads 0 (some ⟨call, c.shared, [], S.body call⟩)) 0 none =
          c.threads := by
        rw [Function.update_idem, ← hn 0, Function.update_eq_self]
      dsimp only at h'
      rw [hu] at h'
      exact ih h' hn (fun call hc => ha call (List.mem_cons_of_mem _ hc)) hx

theorem Reach.runCalls {c₀ c c' : Config ε σ Call Res} {es : List ε} {calls : List Call}
    (h : S.Reach c₀ c) (hn : ∀ i, c.threads i = none) (ha : ∀ call ∈ calls, S.allowed call)
    (hx : S.runCalls es c calls = some c') : S.Reach c₀ c' :=
  (h.runsBy.runCalls (fun _ _ _ => trivial) (fun _ _ _ => trivial) hn ha hx).reach

end System

/-- What every call of a system is proved to do. -/
structure Contract (S : System ε σ Call Res) where
  /-- The invariant of the shared state. -/
  I : σ → Prop
  /-- Every step leads up. -/
  R : σ → σ → Prop
  /-- The steps of a call, by the state in which it started. -/
  G : Call → σ → σ → σ → Prop
  /-- The results of a call and what it did, by the state in which it started. -/
  Q : Call → σ → Res → List (σ × σ) → σ → Prop
  refl : ∀ s, R s s
  trans : ∀ s s' s'', R s s' → R s' s'' → R s s''
  guarantee : ∀ c s₀ s s', S.allowed c → I s → G c s₀ s s' → I s' ∧ R s s'
  env : ∀ s s', I s → S.env s s' → I s' ∧ R s s'
  triple : ∀ c s, S.allowed c → I s → Prog.WP R I (G c s) (Q c s) (S.body c) [] s

namespace Contract

variable {S : System ε σ Call Res} (K : Contract S)

/-- Every result met its postcondition when its call returned, at a state between its start and
now; every running call meets its triple from its last action on. -/
structure Holds (c : Config ε σ Call Res) : Prop where
  inv : K.I c.shared
  running : ∀ i t, c.threads i = some t → S.allowed t.call ∧ ∃ s, K.R t.start s ∧ K.R s c.shared ∧
    Prog.WP K.R K.I (K.G t.call t.start) (K.Q t.call t.start) t.prog t.trace s
  returned : ∀ d ∈ c.done, S.allowed d.call ∧ ∃ s, K.R d.start s ∧ K.R s c.shared ∧
    K.Q d.call d.start d.res d.trace s
  /-- Every action was a step of its call. -/
  acted : ∀ i t, c.threads i = some t → ∀ x ∈ t.trace,
    K.G t.call t.start x.1 x.2 ∧ K.R x.2 c.shared
  did : ∀ d ∈ c.done, ∀ x ∈ d.trace, K.G d.call d.start x.1 x.2 ∧ K.R x.2 c.shared

theorem holds_init {s : σ} (h : K.I s) : K.Holds (Config.init s) where
  inv := h
  running _ _ ht := by cases ht
  returned _ hd := by cases hd
  acted _ _ ht := by cases ht
  did _ hd := by cases hd

variable {K}

/-- The state moves up, and nothing else changes. -/
theorem Holds.move {c : Config ε σ Call Res} (h : K.Holds c) {s : σ} (hI : K.I s)
    (hR : K.R c.shared s) : K.Holds { c with shared := s } where
  inv := hI
  running i t ht := by
    obtain ⟨ha, s', h1, h2, h3⟩ := h.running i t ht
    exact ⟨ha, s', h1, K.trans _ _ _ h2 hR, h3⟩
  returned d hd := by
    obtain ⟨ha, s', h1, h2, h3⟩ := h.returned d hd
    exact ⟨ha, s', h1, K.trans _ _ _ h2 hR, h3⟩
  acted i t ht x hx := (h.acted i t ht x hx).imp_right fun h => K.trans _ _ _ h hR
  did d hd x hx := (h.did d hd x hx).imp_right fun h => K.trans _ _ _ h hR

/-- What an action of a running call does. -/
theorem Holds.act_step {c : Config ε σ Call Res} (h : K.Holds c) {i : Nat}
    {t : Thread ε σ Call Res} {upd : ε → σ → σ} {next : ε → σ → Prog ε σ Res} (e : ε)
    (ht : c.threads i = some t) (hp : t.prog = .act upd next) :
    K.G t.call t.start c.shared (upd e c.shared) ∧
      Prog.WP K.R K.I (K.G t.call t.start) (K.Q t.call t.start) (next e c.shared)
        ((c.shared, upd e c.shared) :: t.trace) (upd e c.shared) := by
  obtain ⟨-, s, -, h2, h3⟩ := h.running i t ht
  rw [hp] at h3
  exact h3 c.shared h2 h.inv e

/-- Thread `i` runs `t` from now on, or nothing. -/
theorem Holds.update {c : Config ε σ Call Res} (h : K.Holds c) (i : Nat)
    (o : Option (Thread ε σ Call Res))
    (hr : ∀ t, o = some t → S.allowed t.call ∧ ∃ s, K.R t.start s ∧ K.R s c.shared ∧
      Prog.WP K.R K.I (K.G t.call t.start) (K.Q t.call t.start) t.prog t.trace s)
    (ha : ∀ t, o = some t → ∀ x ∈ t.trace, K.G t.call t.start x.1 x.2 ∧ K.R x.2 c.shared) :
    K.Holds { c with threads := update c.threads i o } where
  inv := h.inv
  running j t ht := by
    by_cases hj : j = i
    · subst hj
      exact hr t (by simpa using ht)
    · simp only [Function.update_of_ne hj] at ht
      exact h.running j t ht
  returned := h.returned
  acted j t ht := by
    by_cases hj : j = i
    · subst hj
      exact ha t (by simpa using ht)
    · simp only [Function.update_of_ne hj] at ht
      exact h.acted j t ht
  did := h.did

theorem Holds.step {c c' : Config ε σ Call Res} (h : K.Holds c) (hs : S.Step c c') :
    K.Holds c' := by
  cases hs with
  | invoke i call hi ha =>
    refine h.update i _ (fun t ht => ?_) fun t ht => ?_
    · obtain rfl := Option.some.inj ht
      exact ⟨ha, c.shared, K.refl _, K.refl _, K.triple call c.shared ha h.inv⟩
    · obtain rfl := Option.some.inj ht
      exact fun x hx => nomatch hx
  | act i t upd next e hi hp =>
    obtain ⟨ha, s, h1, h2, -⟩ := h.running i t hi
    obtain ⟨hg, hn⟩ := h.act_step e hi hp
    obtain ⟨hI, hR⟩ := K.guarantee _ _ _ _ ha h.inv hg
    have hm := h.move hI hR
    refine hm.update i _ (fun t' ht => ?_) fun t' ht x hx => ?_
    · obtain rfl := Option.some.inj ht
      exact ⟨ha, _, K.trans _ _ _ h1 (K.trans _ _ _ h2 hR), K.refl _, hn⟩
    · obtain rfl := Option.some.inj ht
      rcases List.mem_cons.mp hx with rfl | hx
      · exact ⟨hg, K.refl _⟩
      · exact hm.acted i t hi x hx
  | ret i t r hi hp =>
    obtain ⟨ha, s, h1, h2, h3⟩ := h.running i t hi
    rw [hp] at h3
    have hu := h.update i none nofun nofun
    refine ⟨hu.inv, hu.running, fun d hd => ?_, hu.acted, fun d hd => ?_⟩
    · rcases List.mem_cons.mp hd with rfl | hd
      · exact ⟨ha, s, h1, h2, h3⟩
      · exact h.returned d hd
    · rcases List.mem_cons.mp hd with rfl | hd
      · exact h.acted i t hi
      · exact h.did d hd
  | crash i => exact h.update i none nofun nofun
  | env s hs =>
    obtain ⟨hI, hR⟩ := K.env _ _ h.inv hs
    exact h.move hI hR

/-- **Soundness.** Every reachable configuration keeps the contract. -/
theorem sound {s₀ : σ} (h₀ : K.I s₀) {c : Config ε σ Call Res}
    (hr : S.Reach (Config.init s₀) c) : K.Holds c := by
  induction hr with
  | refl => exact K.holds_init h₀
  | step _ hs ih => exact ih.step hs

end Contract

end Conc
