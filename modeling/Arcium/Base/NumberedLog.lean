import Mathlib.Logic.Function.Basic

/-!
# Numbered logs with indexes

A log numbers its entries from 1 on, and a counter holds the last number. An index finds the entries
that have a key by that key.

* `NumberedLog.append`, `NumberedLog.set`: a new entry, or another entry under a number.
* `NumberedLog.Dense`: the numbers in use are those from 1 to the counter.
* `NumberedLog.Indexes key index`: `index` holds the number of each entry under its key, and nothing
  else. So two entries never have one key (`Indexes.key_unique`), nor is one entry found by two
  (`Indexes.injective`).
-/

namespace Arcium

open Function (update)

/-- Entries by number, and the last number. -/
structure NumberedLog (E : Type) where
  entries : Nat → Option E
  last : Nat

namespace NumberedLog

variable {E K : Type} {l : NumberedLog E} {e e' : E} {n : Nat}

/-- `e` under the next number. -/
def append (l : NumberedLog E) (e : E) : NumberedLog E where
  entries := update l.entries (l.last + 1) (some e)
  last := l.last + 1

/-- `e` under `n`. -/
def set (l : NumberedLog E) (n : Nat) (e : E) : NumberedLog E where
  entries := update l.entries n (some e)
  last := l.last

theorem append_entries_self (l : NumberedLog E) (e : E) : (l.append e).entries (l.last + 1) = some e :=
  Function.update_self ..

theorem append_entries_ne (e : E) (h : n ≠ l.last + 1) : (l.append e).entries n = l.entries n :=
  Function.update_of_ne h ..

theorem set_entries_self (l : NumberedLog E) (n : Nat) (e : E) : (l.set n e).entries n = some e :=
  Function.update_self ..

theorem set_entries_ne {m : Nat} (e : E) (h : m ≠ n) : (l.set n e).entries m = l.entries m :=
  Function.update_of_ne h ..

theorem append_entries_cases (h : (l.append e).entries n = some e') :
    (n = l.last + 1 ∧ e' = e) ∨ (n ≠ l.last + 1 ∧ l.entries n = some e') := by
  by_cases hn : n = l.last + 1
  · rw [hn, append_entries_self] at h
    exact .inl ⟨hn, (Option.some.inj h).symm⟩
  · rw [append_entries_ne e hn] at h
    exact .inr ⟨hn, h⟩

theorem set_entries_cases {m : Nat} (h : (l.set n e).entries m = some e') :
    (m = n ∧ e' = e) ∨ (m ≠ n ∧ l.entries m = some e') := by
  by_cases hn : m = n
  · rw [hn, set_entries_self] at h
    exact .inl ⟨hn, (Option.some.inj h).symm⟩
  · rw [set_entries_ne e hn] at h
    exact .inr ⟨hn, h⟩

/-- The numbers in use are those from 1 to the counter. -/
def Dense (l : NumberedLog E) : Prop := ∀ n, (l.entries n).isSome ↔ 1 ≤ n ∧ n ≤ l.last

theorem Dense.next (h : l.Dense) : l.entries (l.last + 1) = none := by
  have hn := (h (l.last + 1)).not.mpr (by omega)
  simpa using hn

theorem Dense.append (h : l.Dense) (e : E) : (l.append e).Dense := by
  intro n
  have hlast : (l.append e).last = l.last + 1 := rfl
  by_cases hn : n = l.last + 1
  · rw [hn, append_entries_self, hlast]
    simp
  · rw [append_entries_ne e hn, h n, hlast]
    omega

theorem Dense.set (h : l.Dense) (hn : (l.entries n).isSome) (e : E) : (l.set n e).Dense := by
  intro m
  have hlast : (l.set n e).last = l.last := rfl
  by_cases hm : m = n
  · rw [hm, set_entries_self, hlast, ← h n, hn]
    simp
  · rw [set_entries_ne e hm, h m, hlast]

/-- `index` holds the number of each entry with a key, under its key. -/
def Indexes (key : E → Option K) (l : NumberedLog E) (index : K → Option Nat) : Prop :=
  ∀ k n, index k = some n ↔ ∃ e, l.entries n = some e ∧ key e = some k

namespace Indexes

variable {key : E → Option K} {index : K → Option Nat} {k k' : K}

theorem injective (h : Indexes key l index) (hk : index k = some n) (hk' : index k' = some n) :
    k = k' := by
  obtain ⟨e, he, hke⟩ := (h k n).mp hk
  obtain ⟨e', he', hke'⟩ := (h k' n).mp hk'
  obtain rfl := Option.some.inj (he.symm.trans he')
  exact Option.some.inj (hke.symm.trans hke')

theorem key_unique (h : Indexes key l index) {m : Nat} (hn : l.entries n = some e)
    (hm : l.entries m = some e') (hk : key e = some k) (hk' : key e' = some k) : n = m :=
  Option.some.inj (((h k n).mpr ⟨e, hn, hk⟩).symm.trans ((h k m).mpr ⟨e', hm, hk'⟩))

/-- A new entry with a new key. -/
theorem append [DecidableEq K] (h : Indexes key l index) (hd : l.Dense) (hk : key e = some k)
    (hnew : index k = none) : Indexes key (l.append e) (update index k (some (l.last + 1))) := by
  intro k' n
  constructor
  · intro hi
    by_cases hkk : k' = k
    · rw [hkk, Function.update_self] at hi
      obtain rfl := Option.some.inj hi
      exact ⟨e, append_entries_self l e, hkk ▸ hk⟩
    · rw [Function.update_of_ne hkk] at hi
      obtain ⟨e', he', hke⟩ := (h k' n).mp hi
      have hn : n ≠ l.last + 1 := by
        rintro rfl
        rw [hd.next] at he'
        cases he'
      exact ⟨e', (append_entries_ne e hn).trans he', hke⟩
  · rintro ⟨e', he', hke⟩
    rcases append_entries_cases he' with ⟨rfl, rfl⟩ | ⟨hn, he'⟩
    · obtain rfl := Option.some.inj (hke.symm.trans hk)
      rw [Function.update_self]
    · have hi := (h k' n).mpr ⟨e', he', hke⟩
      have hkk : k' ≠ k := by
        rintro rfl
        rw [hnew] at hi
        cases hi
      rw [Function.update_of_ne hkk, hi]

/-- A new entry that this index does not hold. -/
theorem append_other (h : Indexes key l index) (hd : l.Dense) (hk : key e = none) :
    Indexes key (l.append e) index := by
  intro k' n
  rw [h k' n]
  constructor
  · rintro ⟨e', he', hke⟩
    have hn : n ≠ l.last + 1 := by
      rintro rfl
      rw [hd.next] at he'
      cases he'
    exact ⟨e', (append_entries_ne e hn).trans he', hke⟩
  · rintro ⟨e', he', hke⟩
    rcases append_entries_cases he' with ⟨-, rfl⟩ | ⟨-, he'⟩
    · rw [hk] at hke
      cases hke
    · exact ⟨e', he', hke⟩

/-- Another entry with the same key. -/
theorem set (h : Indexes key l index) (hn : l.entries n = some e) (hk : key e' = key e) :
    Indexes key (l.set n e') index := by
  intro k' m
  rw [h k' m]
  constructor
  · rintro ⟨e₁, he₁, hke⟩
    by_cases hm : m = n
    · rw [hm, hn] at he₁
      obtain rfl := Option.some.inj he₁
      exact ⟨e', hm ▸ set_entries_self l n e', hk.trans hke⟩
    · exact ⟨e₁, (set_entries_ne e' hm).trans he₁, hke⟩
  · rintro ⟨e₁, he₁, hke⟩
    rcases set_entries_cases he₁ with ⟨rfl, rfl⟩ | ⟨-, he₁⟩
    · exact ⟨e, hn, hk.symm.trans hke⟩
    · exact ⟨e₁, he₁, hke⟩

end Indexes

end NumberedLog

end Arcium
