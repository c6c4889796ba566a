import Arcium.Conc.System

/-!
# Systems side by side

A family of systems, each on a state of its own, whose steps interleave. A ghost record goes along:
each step of a system moves it, as `keeps` says. The systems do not see it, or each other; it is
where a fact about all of them together is kept.

* `Together`: any interleaving.
* `Together.reach`: what one system does is a run of its own.
* `Together.alone`: a call that runs alone, if the ghost record can follow it.
* `Together.changing`: it can if the call changes what the record is about at most once.
-/

namespace Conc

open Function (update)

variable {ι ε σ Call Res γ : Type} [DecidableEq ι] (S : ι → System ε σ Call Res)
  (keeps : ι → σ → σ → γ → γ → Prop)

/-- The runs of the systems `S` from `c₀`, with the ghost record, which is `g₀` at first. -/
inductive Together (c₀ : ι → Config ε σ Call Res) (g₀ : γ) : (ι → Config ε σ Call Res) → γ → Prop
  | refl : Together c₀ g₀ c₀ g₀
  | step {c : ι → Config ε σ Call Res} {g : γ} (i : ι) (c' : Config ε σ Call Res) (g' : γ) :
      Together c₀ g₀ c g → (S i).Step (c i) c' → keeps i (c i).shared c'.shared g g' →
      Together c₀ g₀ (update c i c') g'

namespace Together

variable {S keeps} {c₀ c : ι → Config ε σ Call Res} {g₀ g g' : γ}

/-- What one system does is a run of its own. -/
theorem reach (h : Together S keeps c₀ g₀ c g) (i : ι) : (S i).Reach (c₀ i) (c i) := by
  induction h with
  | refl => exact .refl
  | @step c g j c' g' _ hs _ ih =>
    by_cases hj : i = j
    · subst hj
      rw [Function.update_self]
      exact .step ih hs
    · rwa [Function.update_of_ne hj]

/-! ## Calls that run alone -/

/-- The ghost record goes from `g` to `g'` along the run of a program. -/
def Along {α : Type} (move : σ → σ → γ → γ → Prop) : Prog ε σ α → List ε → σ → γ → γ → Prop
  | .ret _, _, _, g, g' => g' = g
  | .act _ _, [], _, _, _ => False
  | .act upd next, e :: es, s, g, g' =>
    ∃ g₁, move s (upd e s) g g₁ ∧ Along move (next e s) es (upd e s) g₁ g'

/-- A thread that runs alone to its end. -/
theorem exec (h : Together S keeps c₀ g₀ c g) {i : ι} {j : Nat} {t : Thread ε σ Call Res}
    {es : List ε} {r : Res} {tr : List (σ × σ)} {s : σ} (ht : (c i).threads j = some t)
    (hx : System.exec t.prog es (c i).shared t.trace = some (r, tr, s))
    (hg : Along (keeps i) t.prog es (c i).shared g g')
    (hret : ∀ s g, keeps i s s g g) :
    Together S keeps c₀ g₀ (update c i
      { shared := s, threads := update (c i).threads j none
        done := ⟨t.call, t.start, tr, r⟩ :: (c i).done }) g' := by
  obtain ⟨call, start, trace, prog⟩ := t
  induction prog generalizing c g es trace with
  | ret a =>
    simp only [System.exec, Option.some.injEq, Prod.mk.injEq] at hx
    obtain ⟨rfl, rfl, rfl⟩ := hx
    obtain rfl := hg
    exact .step i _ _ h (.ret j _ a ht rfl) (hret _ _)
  | act upd next ih =>
    cases es with
    | nil => cases hx
    | cons e es =>
      obtain ⟨g₁, hm, hg⟩ := hg
      have h' := @ih e (c i).shared (update c i _) g₁
        (.step i _ g₁ h (.act j _ upd next e ht rfl) hm) es
        (((c i).shared, upd e (c i).shared) :: trace)
      simp only [Function.update_self, Function.update_idem] at h'
      exact h' trivial hx hg

/-- A call that runs alone. -/
theorem alone (h : Together S keeps c₀ g₀ c g) {i : ι} {es : List ε} {call : Call}
    {c' : Config ε σ Call Res} (hn : ∀ j, (c i).threads j = none) (ha : (S i).allowed call)
    (hx : (S i).runCalls es (c i) [call] = some c')
    (hg : Along (keeps i) ((S i).body call) es (c i).shared g g')
    (hret : ∀ s g, keeps i s s g g) : Together S keeps c₀ g₀ (update c i c') g' := by
  simp only [System.runCalls] at hx
  split at hx
  · cases hx
  · next r tr s hr =>
    obtain rfl := Option.some.inj hx
    have h' := exec (c := update c i _) (i := i) (j := 0)
      (t := ⟨call, (c i).shared, [], (S i).body call⟩)
      (.step i _ g h (.invoke 0 call (hn 0) ha) (hret _ _)) (by simp)
      (by simpa using hr) (by simpa using hg) hret
    have hu : update (update (c i).threads 0 (some ⟨call, (c i).shared, [], (S i).body call⟩)) 0
        none = (c i).threads := by
      rw [Function.update_idem, ← hn 0, Function.update_eq_self]
    simp only [Function.update_self, Function.update_idem, hu] at h'
    exact h'

/-- What a program did before stays in its trace. -/
theorem exec_trace {α : Type} {p : Prog ε σ α} {es : List ε} {s s' : σ} {tr tr' : List (σ × σ)}
    {a : α} (h : System.exec p es s tr = some (a, tr', s')) : ∀ x ∈ tr, x ∈ tr' := by
  induction p generalizing es s tr with
  | ret b =>
    simp only [System.exec, Option.some.injEq, Prod.mk.injEq] at h
    obtain ⟨-, rfl, -⟩ := h
    exact fun x hx => hx
  | act upd next ih =>
    cases es with
    | nil => cases h
    | cons e es => exact fun x hx => ih e s h x (List.mem_cons_of_mem _ hx)

section Changes

variable {δ α : Type} (view : σ → δ) (rank : δ → Nat) {move : σ → σ → γ → γ → Prop}

/-- The rank of a part that each action leaves alone or raises by one only grows, and the part is the
same if its rank is. -/
theorem exec_rank {p : Prog ε σ α} {es : List ε} {s s' : σ} {tr tr' : List (σ × σ)} {a : α}
    (hx : System.exec p es s tr = some (a, tr', s'))
    (hmove : ∀ x ∈ tr', view x.2 = view x.1 ∨ rank (view x.2) = rank (view x.1) + 1) :
    rank (view s) ≤ rank (view s') ∧ (rank (view s') = rank (view s) → view s' = view s) := by
  induction p generalizing es s tr with
  | ret b =>
    simp only [System.exec, Option.some.injEq, Prod.mk.injEq] at hx
    obtain ⟨-, -, rfl⟩ := hx
    exact ⟨Nat.le_refl _, fun _ => rfl⟩
  | act upd next ih =>
    cases es with
    | nil => cases hx
    | cons e es =>
      have hx' : System.exec (next e s) es (upd e s) ((s, upd e s) :: tr) = some (a, tr', s') := hx
      obtain ⟨hle, heq⟩ := ih e s hx'
      rcases hmove _ (exec_trace hx' _ List.mem_cons_self) with hv | hv <;> dsimp only at hv
      · rw [hv] at hle heq
        exact ⟨hle, heq⟩
      · exact ⟨by omega, fun h => by omega⟩

/-- **A program that changes a part of the state at most once** takes the ghost record along if that
change does. -/
theorem Along.changing (quiet : ∀ s s' g, view s' = view s → move s s' g g) {p : Prog ε σ α}
    {es : List ε} {s s' : σ} {tr tr' : List (σ × σ)} {a : α}
    (hx : System.exec p es s tr = some (a, tr', s'))
    (hmove : ∀ x ∈ tr', view x.2 = view x.1 ∨ rank (view x.2) = rank (view x.1) + 1)
    (hg : (view s' = view s ∧ g' = g) ∨ rank (view s') = rank (view s) + 1 ∧
      ∀ s₁ s₂, view s₁ = view s → view s₂ = view s' → move s₁ s₂ g g') :
    Along move p es s g g' := by
  induction p generalizing es s tr g with
  | ret b =>
    simp only [System.exec, Option.some.injEq, Prod.mk.injEq] at hx
    obtain ⟨-, -, rfl⟩ := hx
    rcases hg with ⟨-, hg⟩ | ⟨hr, -⟩
    · exact hg
    · omega
  | act upd next ih =>
    cases es with
    | nil => cases hx
    | cons e es =>
      have hx' : System.exec (next e s) es (upd e s) ((s, upd e s) :: tr) = some (a, tr', s') := hx
      obtain ⟨hle, heq⟩ := exec_rank view rank hx' hmove
      rcases hmove _ (exec_trace hx' _ List.mem_cons_self) with hv | hv <;> dsimp only at hv
      · exact ⟨g, quiet _ _ _ hv, ih e s hx' (by rw [hv]; exact hg)⟩
      · -- This is the change: the rest changes nothing.
        rcases hg with ⟨hs, -⟩ | ⟨hr, hm⟩
        · rw [hs] at hle
          omega
        · have hs := heq (by omega)
          exact ⟨g', hm _ _ rfl hs.symm, ih e s hx' (.inl ⟨hs, rfl⟩)⟩

end Changes

end Together

end Conc
