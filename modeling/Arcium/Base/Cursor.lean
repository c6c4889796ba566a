import Mathlib.Order.Lattice
import Mathlib.Data.List.Infix

/-!
# Reading a sorted list page by page

* `LongestPrefix P p l`: `p` is the longest beginning of `l` with `P`.
* `beyond key l after`: what a sorted list holds past a cursor; `advance`: where the cursor stands
  after a page.
* `Pages key l m after pages c`: pages read from `after` on, each past the last entry of the one
  before, that leave the cursor at `c`. A page of fewer than `m` entries is the last one. They are
  the list up to `c`, without gaps or repeats (`Pages.flatten`), and they get on (`Pages.progress`).
-/

namespace Arcium

/-- `p` is the longest beginning of `l` with `P`. -/
structure LongestPrefix {α : Type} (P : List α → Prop) (p l : List α) : Prop where
  begins : p <+: l
  holds : P p
  longest : ∀ q, q <+: l → P q → q <+: p

namespace LongestPrefix

variable {α : Type} {P : List α → Prop} {p q l : List α}

theorem unique (hp : LongestPrefix P p l) (hq : LongestPrefix P q l) : p = q :=
  (hq.longest p hp.begins hp.holds).eq_of_length_le
    (hp.longest q hq.begins hq.holds).length_le

/-- The longest beginning with at most `n` entries. -/
theorem take {n : Nat} (h : LongestPrefix P p (l.take n)) :
    LongestPrefix (fun q => q.length ≤ n ∧ P q) p l where
  begins := h.begins.trans (List.take_prefix n l)
  holds := ⟨h.begins.length_le.trans (List.length_take_le n l), h.holds⟩
  longest q hq hP := h.longest q (List.prefix_take_iff.mpr ⟨hq, hP.1⟩) hP.2

end LongestPrefix

namespace Cursor

variable {α κ : Type} [LinearOrder κ] (key : α → κ)

/-- What the list holds past a cursor. -/
def beyond (l : List α) (after : κ) : List α := l.filter fun x => decide (after < key x)

/-- Where the cursor stands after a page. -/
def advance (after : κ) (page : List α) : κ := (page.getLast?.map key).getD after

variable {key} {l page rest : List α} {after c : κ} {m : Nat}

/-- Past the last entry of a page is what the page left. -/
theorem beyond_advance (hl : l.Pairwise fun a b => key a < key b)
    (h : beyond key l after = page ++ rest) : beyond key l (advance key after page) = rest := by
  rcases List.eq_nil_or_concat page with rfl | ⟨init, last, rfl⟩
  · exact h
  · rw [List.concat_eq_append] at h ⊢
    have hc : advance key after (init ++ [last]) = key last := by simp [advance]
    have hmem : last ∈ beyond key l after := by simp [h]
    have hlt : after < key last := of_decide_eq_true (List.mem_filter.mp hmem).2
    -- What is past the page is past the old cursor.
    have htwice : beyond key l (key last) = (beyond key l after).filter fun x => decide (key last < key x) := by
      unfold beyond
      rw [List.filter_filter]
      refine List.filter_congr fun x _ => ?_
      by_cases hx : key last < key x
      · simp [hx, hlt.trans hx]
      · simp [hx]
    have hs : (init ++ [last] ++ rest).Pairwise fun a b => key a < key b := h ▸ hl.filter _
    have hparts := List.pairwise_append.mp hs
    have hinit : ∀ x ∈ init ++ [last], ¬ key last < key x := by
      intro x hx hgt
      rcases List.mem_append.mp hx with hx | hx
      · exact lt_asymm hgt ((List.pairwise_append.mp hparts.1).2.2 x hx last (List.mem_singleton.mpr rfl))
      · rw [List.mem_singleton.mp hx] at hgt
        exact lt_irrefl _ hgt
    have hrest : ∀ x ∈ rest, key last < key x := fun x hx =>
      hparts.2.2 last (by simp) x hx
    rw [hc, htwice, h, List.filter_append, List.filter_eq_nil_iff.mpr, List.filter_eq_self.mpr,
      List.nil_append]
    · exact fun x hx => decide_eq_true (hrest x hx)
    · exact fun x hx hd => hinit x hx (of_decide_eq_true hd)

variable (key) in
/-- Pages read from `after` on, up to `c`. -/
inductive Pages (l : List α) (m : Nat) : κ → List (List α) → κ → Prop
  | nil (c : κ) : Pages l m c [] c
  | cons {after c : κ} {page : List α} {pages : List (List α)} (begins : page <+: beyond key l after)
      (short : page.length < m → page = beyond key l after)
      (later : Pages l m (advance key after page) pages c) : Pages l m after (page :: pages) c

/-- The pages are all that is between the cursors, in order and once. -/
theorem Pages.flatten {pages : List (List α)} (hl : l.Pairwise fun a b => key a < key b)
    (h : Pages key l m after pages c) : pages.flatten ++ beyond key l c = beyond key l after := by
  induction h with
  | nil c => rfl
  | cons begins short later ih =>
    obtain ⟨rest, hrest⟩ := begins
    rw [List.flatten_cons, List.append_assoc, ih, beyond_advance hl hrest.symm, hrest]

/-- All has been read, or each page had `m` entries. -/
theorem Pages.progress {pages : List (List α)} (hl : l.Pairwise fun a b => key a < key b)
    (h : Pages key l m after pages c) :
    pages.flatten = beyond key l after ∨ m * pages.length ≤ pages.flatten.length := by
  induction h with
  | nil c => exact .inr (Nat.zero_le _)
  | @cons after c page pages begins short later ih =>
    have hall := Pages.flatten hl (.cons begins short later)
    obtain ⟨rest, hrest⟩ := begins
    rcases Nat.lt_or_ge page.length m with hlt | hge
    · left
      rw [List.flatten_cons, List.append_assoc] at hall
      rw [List.flatten_cons, ← hall]
      have hlen := congrArg List.length hall
      rw [List.length_append, ← short hlt] at hlen
      have hnil : pages.flatten ++ beyond key l c = [] := List.length_eq_zero_iff.mp (by omega)
      rw [hnil, (List.append_eq_nil_iff.mp hnil).1]
    · rcases ih with ih | ih
      · left
        rw [List.flatten_cons, ih, beyond_advance hl hrest.symm, hrest]
      · right
        rw [List.flatten_cons, List.length_append, List.length_cons, Nat.mul_add_one]
        omega

end Cursor

end Arcium
