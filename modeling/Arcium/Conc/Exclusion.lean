import Arcium.Conc.System

/-!
# Calls that do not overlap

Some calls use up a resource that is `fresh` at first: each looks whether it still is, and acts on
what it saw later. They are right as long as no two of them overlap while it is fresh.

* `Acted`: whose action a step was.
* `Exclusion K`: which calls these are, and what each of them does in an environment that does not
  use the resource up (`Exclusion.Rely`).
* `Exclusion.sound`: if no two of them overlap while the resource is fresh (`Exclusion.Apart`), every
  action of such a call is one that it does in that environment.
-/

namespace Conc

open Function (update)

variable {ε σ Call Res : Type}

/-- From `c` to `c'`, a thread that runs `call` acted. -/
def Acted (c c' : Config ε σ Call Res) (call : Call) : Prop :=
  ∃ i t t', c.threads i = some t ∧ c'.threads i = some t' ∧ t.call = call ∧
    t'.trace = (c.shared, c'.shared) :: t.trace

/-- A rely that allows less. -/
theorem Prog.WP.rely {α : Type} {R R' : σ → σ → Prop} {I : σ → Prop} {G : σ → σ → Prop}
    {Q : α → List (σ × σ) → σ → Prop} {p : Prog ε σ α} {tr : List (σ × σ)} {s : σ}
    (h : WP R I G Q p tr s) (hR : ∀ s s', R' s s' → R s s') : WP R' I G Q p tr s := by
  induction p generalizing tr s with
  | ret a => exact h
  | act upd next ih =>
    intro s' hs hI e
    obtain ⟨hg, hn⟩ := h s' (hR _ _ hs) hI e
    exact ⟨hg, ih e s' hn⟩

variable {S : System ε σ Call Res}

/-- What calls do that must not overlap while the resource is fresh (module doc). -/
structure Exclusion (K : Contract S) where
  excl : Call → Prop
  fresh : σ → Prop
  /-- What an action of such a call does, if they do not overlap. -/
  own : Call → σ → σ → Prop
  /-- The resource is not renewed. -/
  used : ∀ c s₀ s s', S.allowed c → K.I s → K.G c s₀ s s' → fresh s' → fresh s
  /-- Other calls do not use it. -/
  others : ∀ c s₀ s s', S.allowed c → ¬ excl c → K.I s → K.G c s₀ s s' → fresh s → fresh s'
  env : ∀ s s', K.I s → S.env s s' → (fresh s ↔ fresh s')
  triple : ∀ c s, S.allowed c → excl c → K.I s →
    Prog.WP (fun s s' => K.R s s' ∧ (fresh s → fresh s')) K.I (own c) (fun _ _ _ => True) (S.body c) [] s

namespace Exclusion

variable {K : Contract S} (X : Exclusion K)

/-- The environment does not use the resource up. -/
def Rely (s s' : σ) : Prop := K.R s s' ∧ (X.fresh s → X.fresh s')

/-- From `c` to `c'`, no call of the kind is made while the resource is fresh and another runs. -/
def Apart (c c' : Config ε σ Call Res) : Prop :=
  ∀ i t, c.threads i = none → c'.threads i = some t → X.excl t.call → X.fresh c.shared →
    ∀ j u, c.threads j = some u → ¬ X.excl u.call

theorem apart_idle {c c' : Config ε σ Call Res} (h : ∀ i, c.threads i = none) : X.Apart c c' := by
  intro i t _ _ _ _ j u hu
  rw [h j] at hu
  cases hu

theorem apart_quiet {c c' : Config ε σ Call Res} (h : ∀ i, c.threads i = none → c'.threads i = none) :
    X.Apart c c' := by
  intro i t hn ht
  rw [h i hn] at ht
  cases ht

/-- What holds in every run of calls that do not overlap. -/
structure Holds (c : Config ε σ Call Res) : Prop where
  alone : X.fresh c.shared → ∀ i j t u, c.threads i = some t → c.threads j = some u →
    X.excl t.call → X.excl u.call → i = j
  running : ∀ i t, c.threads i = some t → X.excl t.call → ∃ s, X.Rely s c.shared ∧
    Prog.WP X.Rely K.I (X.own t.call) (fun _ _ _ => True) t.prog t.trace s
  acted : ∀ i t, c.threads i = some t → X.excl t.call → ∀ x ∈ t.trace, X.own t.call x.1 x.2
  did : ∀ d ∈ c.done, X.excl d.call → ∀ x ∈ d.trace, X.own d.call x.1 x.2

variable {X}

theorem rely_refl (s : σ) : X.Rely s s := ⟨K.refl s, fun h => h⟩

theorem Rely.trans {s s' s'' : σ} (h : X.Rely s s') (h' : X.Rely s' s'') : X.Rely s s'' :=
  ⟨K.trans _ _ _ h.1 h'.1, fun hf => h'.2 (h.2 hf)⟩

theorem holds_init (s : σ) : X.Holds (Config.init s) where
  alone _ _ _ _ _ ht := by cases ht
  running _ _ ht := by cases ht
  acted _ _ ht := by cases ht
  did _ hd := by cases hd

/-- What runs after thread `i` changed. -/
theorem update_cases {f : Nat → Option (Thread ε σ Call Res)} {i j : Nat}
    {o : Option (Thread ε σ Call Res)} {t : Thread ε σ Call Res} (h : update f i o j = some t) :
    (j = i ∧ o = some t) ∨ (j ≠ i ∧ f j = some t) := by
  by_cases hj : j = i
  · rw [hj, Function.update_self] at h
    exact .inl ⟨hj, h⟩
  · rw [Function.update_of_ne hj] at h
    exact .inr ⟨hj, h⟩

/-- Thread `i` does nothing from now on. -/
theorem Holds.stop {c : Config ε σ Call Res} (h : X.Holds c) (i : Nat) :
    X.Holds { c with threads := update c.threads i none } := by
  have hold : ∀ {j : Nat} {t : Thread ε σ Call Res}, update c.threads i none j = some t →
      c.threads j = some t := by
    intro j t ht
    rcases update_cases ht with ⟨-, ho⟩ | ⟨-, ht⟩
    · cases ho
    · exact ht
  exact ⟨fun hf j k t u ht hu => h.alone hf j k t u (hold ht) (hold hu),
    fun j t ht => h.running j t (hold ht), fun j t ht => h.acted j t (hold ht), h.did⟩

/-- A call is made, apart from the others. -/
theorem Holds.invoke {c : Config ε σ Call Res} (h : X.Holds c) (hI : K.I c.shared) {i : Nat}
    {call : Call} (ha : S.allowed call) (hp : X.excl call → X.fresh c.shared →
      ∀ j u, c.threads j = some u → ¬ X.excl u.call) :
    X.Holds { c with threads := update c.threads i (some ⟨call, c.shared, [], S.body call⟩) } where
  alone hf j k t u ht hu et eu := by
    rcases update_cases ht with ⟨hj, ho⟩ | ⟨-, ht⟩ <;> rcases update_cases hu with ⟨hk, ho'⟩ | ⟨-, hu⟩
    · rw [hj, hk]
    · obtain rfl := Option.some.inj ho
      exact absurd eu (hp et hf k u hu)
    · obtain rfl := Option.some.inj ho'
      exact absurd et (hp eu hf j t ht)
    · exact h.alone hf j k t u ht hu et eu
  running j t ht et := by
    rcases update_cases ht with ⟨-, ho⟩ | ⟨-, ht⟩
    · obtain rfl := Option.some.inj ho
      exact ⟨c.shared, rely_refl _, X.triple call c.shared ha et hI⟩
    · exact h.running j t ht et
  acted j t ht et := by
    rcases update_cases ht with ⟨-, ho⟩ | ⟨-, ht⟩
    · obtain rfl := Option.some.inj ho
      exact fun _ hx => absurd hx List.not_mem_nil
    · exact h.acted j t ht et
  did := h.did

/-- A thread acts. If it uses the resource up, it is the only one of its kind. -/
theorem Holds.act {c : Config ε σ Call Res} (h : X.Holds c) (hK : K.Holds c) {i : Nat}
    {t : Thread ε σ Call Res} {upd : ε → σ → σ} {next : ε → σ → Prog ε σ Res} (e : ε)
    (hi : c.threads i = some t) (hp : t.prog = .act upd next) :
    X.Holds { c with
      shared := upd e c.shared
      threads := update c.threads i (some { t with
        trace := (c.shared, upd e c.shared) :: t.trace
        prog := next e c.shared }) } := by
  obtain ⟨ha, -⟩ := hK.running i t hi
  obtain ⟨hg, -⟩ := hK.act_step e hi hp
  obtain ⟨-, hR⟩ := K.guarantee _ _ _ _ ha hK.inv hg
  -- What the thread itself does, if it is of the kind.
  have hown : X.excl t.call → X.own t.call c.shared (upd e c.shared) ∧
      Prog.WP X.Rely K.I (X.own t.call) (fun _ _ _ => True) (next e c.shared)
        ((c.shared, upd e c.shared) :: t.trace) (upd e c.shared) := by
    intro et
    obtain ⟨s, hs, hw⟩ := h.running i t hi et
    rw [hp] at hw
    exact hw c.shared hs hK.inv e
  refine ⟨fun hf j k u v hu hv eu ev => ?_, fun j u hu eu => ?_, fun j u hu eu x hx => ?_, h.did⟩
  · have hf' := X.used _ _ _ _ ha hK.inv hg hf
    rcases update_cases hu with ⟨rfl, ho⟩ | ⟨-, hu⟩ <;> rcases update_cases hv with ⟨hk, ho'⟩ | ⟨-, hv⟩
    · exact hk.symm
    · obtain rfl := Option.some.inj ho
      exact h.alone hf' j k t v hi hv eu ev
    · obtain rfl := Option.some.inj ho'
      rw [hk]
      exact h.alone hf' j i u t hu hi eu ev
    · exact h.alone hf' j k u v hu hv eu ev
  · rcases update_cases hu with ⟨rfl, ho⟩ | ⟨hj, hu⟩
    · obtain rfl := Option.some.inj ho
      exact ⟨_, rely_refl _, (hown eu).2⟩
    · obtain ⟨s, hs, hw⟩ := h.running j u hu eu
      refine ⟨s, hs.trans ⟨hR, fun hf => ?_⟩, hw⟩
      by_cases et : X.excl t.call
      · exact absurd (h.alone hf j i u t hu hi eu et) hj
      · exact X.others _ _ _ _ ha et hK.inv hg hf
  · rcases update_cases hu with ⟨rfl, ho⟩ | ⟨-, hu⟩
    · obtain rfl := Option.some.inj ho
      rcases List.mem_cons.mp hx with rfl | hx
      · exact (hown eu).1
      · exact h.acted j t hi eu x hx
    · exact h.acted j u hu eu x hx

theorem Holds.env_step {c : Config ε σ Call Res} (h : X.Holds c) (hI : K.I c.shared) {s : σ}
    (hs : S.env c.shared s) : X.Holds { c with shared := s } where
  alone hf := h.alone ((X.env _ _ hI hs).mpr hf)
  running i t ht et := by
    obtain ⟨s₀, h₀, hw⟩ := h.running i t ht et
    exact ⟨s₀, h₀.trans ⟨(K.env _ _ hI hs).2, (X.env _ _ hI hs).mp⟩, hw⟩
  acted := h.acted
  did := h.did

/-- A thread returns. -/
theorem Holds.ret {c : Config ε σ Call Res} (h : X.Holds c) {i : Nat} {t : Thread ε σ Call Res}
    (hi : c.threads i = some t) (r : Res) :
    X.Holds { c with threads := update c.threads i none
                     done := ⟨t.call, t.start, t.trace, r⟩ :: c.done } := by
  have hstop := h.stop i
  refine ⟨hstop.alone, hstop.running, hstop.acted, fun d hd ed x hx => ?_⟩
  rcases List.mem_cons.mp hd with rfl | hd
  · exact h.acted i t hi ed x hx
  · exact h.did d hd ed x hx

/-- **Soundness.** Calls that do not overlap do what they do alone. -/
theorem sound {s₀ : σ} (h₀ : K.I s₀) {c : Config ε σ Call Res}
    (hr : S.RunsBy X.Apart (Config.init s₀) c) : X.Holds c := by
  induction hr with
  | refl => exact holds_init s₀
  | @step c c' hr hs made ih =>
    have hK := Contract.sound h₀ hr.reach
    cases hs with
    | invoke i call hi ha => exact ih.invoke hK.inv ha (made i _ hi (Function.update_self ..))
    | act i t upd next e hi hp => exact ih.act hK e hi hp
    | ret i t r hi hp => exact ih.ret hi r
    | crash i => exact ih.stop i
    | env s hs => exact ih.env_step hK.inv hs

/-- What a step of such a run does: nothing to the state but by an action of a call, or outside. -/
theorem step_own {s₀ : σ} (h₀ : K.I s₀) {c c' : Config ε σ Call Res}
    (hr : S.RunsBy X.Apart (Config.init s₀) c) (hs : S.Step c c') :
    c'.shared = c.shared ∨ S.env c.shared c'.shared ∨ ∃ call, Acted c c' call ∧ S.allowed call ∧
      (∃ s, K.G call s c.shared c'.shared) ∧ (X.excl call → X.own call c.shared c'.shared) := by
  have hK := Contract.sound h₀ hr.reach
  have hX := sound h₀ hr
  cases hs with
  | invoke i call hi ha => exact .inl rfl
  | ret i t r hi hp => exact .inl rfl
  | crash i => exact .inl rfl
  | env s hs => exact .inr (.inl hs)
  | act i t upd next e hi hp =>
    refine .inr (.inr ⟨t.call, ⟨i, t, _, hi, Function.update_self .., rfl, rfl⟩, (hK.running i t hi).1,
      ⟨_, (hK.act_step e hi hp).1⟩, fun et => ?_⟩)
    exact (hX.act hK e hi hp).acted i _ (Function.update_self ..) et _ (List.mem_cons_self ..)

end Exclusion

end Conc
