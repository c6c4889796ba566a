import Mathlib.Data.List.Perm.Basic
import Mathlib.Data.List.Nodup

/-!
# Insertion-ordered maps

`IndexMap α β` is a map that remembers an order of its entries: the model of the `indexmap`
crate's `IndexMap`. Keys are unique by construction (`nodup`).

* `insert`: a new key goes to the end; an existing key keeps its place and gets the new value.
* `swapRemove`: the last entry takes the removed one's place, so removal perturbs the order.
* `shiftRemoveFirst`: `shift_remove_index(0)`, which keeps the order of the rest.

The membership lemmas (`mem_insert`, `mem_swapRemove`) say what each operation does to the set of
entries; the order matters only to eviction.
-/

namespace Arcium

/-- The list `l` without its `i`-th element, whose place the last element takes. -/
def swapRemoveAt {γ : Type} (l : List γ) (i : Nat) : List γ :=
  match l.getLast? with
  | none => []
  | some last => (l.set i last).dropLast

theorem swapRemoveAt_perm {γ : Type} {l : List γ} {i : Nat} (h : i < l.length) :
    (swapRemoveAt l i).Perm (l.eraseIdx i) := by
  rcases List.eq_nil_or_concat l with rfl | ⟨init, last, rfl⟩
  · simp at h
  rw [List.concat_eq_append] at h ⊢
  simp only [List.length_append, List.length_cons, List.length_nil] at h
  have hl : (init ++ [last]).getLast? = some last := by simp
  simp only [swapRemoveAt, hl]
  by_cases hi : i < init.length
  · rw [List.set_append_left _ _ hi, List.dropLast_concat, List.eraseIdx_append_of_lt_length hi]
    exact (List.set_perm_cons_eraseIdx hi last).trans (List.perm_append_singleton _ _).symm
  · have : i = init.length := by omega
    subst this
    rw [List.eraseIdx_append_of_length_le (Nat.le_refl _)]
    simp

theorem map_swapRemoveAt {γ δ : Type} (f : γ → δ) (l : List γ) (i : Nat) :
    (swapRemoveAt l i).map f = swapRemoveAt (l.map f) i := by
  unfold swapRemoveAt
  rw [List.getLast?_map]
  cases l.getLast? with
  | none => rfl
  | some last => simp [List.map_dropLast]

/-- The last element comes to the front when the first one goes. -/
theorem swapRemoveAt_zero {γ : Type} (first last : γ) (l : List γ) :
    swapRemoveAt (first :: (l ++ [last])) 0 = last :: l := by
  have hl : (first :: (l ++ [last])).getLast? = some last := by
    rw [← List.cons_append, List.getLast?_concat]
  simp only [swapRemoveAt, hl, List.set_cons_zero]
  rw [← List.cons_append, List.dropLast_concat]

/-- The last element keeps the order of the rest when it takes the place before its own. -/
theorem swapRemoveAt_eq_eraseIdx {γ : Type} {l : List γ} {i : Nat} (h : i < l.length)
    (hi : l.length ≤ i + 2) : swapRemoveAt l i = l.eraseIdx i := by
  rcases List.eq_nil_or_concat l with rfl | ⟨init, last, rfl⟩
  · simp at h
  rw [List.concat_eq_append] at h hi ⊢
  simp only [List.length_append, List.length_cons, List.length_nil] at h hi
  have hl : (init ++ [last]).getLast? = some last := by simp
  simp only [swapRemoveAt, hl]
  by_cases he : i < init.length
  · rw [List.set_append_left _ _ he, List.dropLast_concat, List.eraseIdx_append_of_lt_length he]
    rcases List.eq_nil_or_concat init with rfl | ⟨init', x, rfl⟩
    · simp at he
    rw [List.concat_eq_append] at he hi ⊢
    simp only [List.length_append, List.length_cons, List.length_nil] at he hi
    obtain rfl : i = init'.length := by omega
    rw [List.set_append_right _ _ (Nat.le_refl _), List.eraseIdx_append_of_length_le (Nat.le_refl _)]
    simp
  · obtain rfl : i = init.length := by omega
    rw [List.eraseIdx_append_of_length_le (Nat.le_refl _)]
    simp

/-- Before that, it does not. -/
theorem swapRemoveAt_ne_eraseIdx {γ : Type} {l : List γ} {i : Nat} (hn : l.Nodup)
    (hi : i + 2 < l.length) : swapRemoveAt l i ≠ l.eraseIdx i := by
  intro he
  have hne : l ≠ [] := by
    rintro rfl
    simp at hi
  have h1 : (swapRemoveAt l i)[i]? = some (l.getLast hne) := by
    unfold swapRemoveAt
    rw [List.getLast?_eq_some_getLast hne]
    simp only [List.getElem?_dropLast, List.length_set]
    rw [if_pos (by omega), List.getElem?_set_self (by omega)]
  have h2 : (l.eraseIdx i)[i]? = some l[i + 1] := by
    rw [List.getElem?_eraseIdx_of_ge (Nat.le_refl _), List.getElem?_eq_getElem]
  rw [he, h2, List.getLast_eq_getElem] at h1
  have := (List.Nodup.getElem_inj_iff hn).mp (Option.some.inj h1)
  omega

/-- A map with an order on its entries and no key twice. -/
structure IndexMap (α β : Type) where
  entries : List (α × β)
  nodup : (entries.map Prod.fst).Nodup
  deriving DecidableEq

namespace IndexMap

variable {α β : Type}

/-- `IndexMap::new`. -/
def empty : IndexMap α β := ⟨[], by simp⟩

instance : Inhabited (IndexMap α β) := ⟨empty⟩

def len (m : IndexMap α β) : Nat := m.entries.length

@[simp] theorem entries_empty : (empty : IndexMap α β).entries = [] := rfl

theorem ext_entries {m m' : IndexMap α β} (h : m.entries = m'.entries) : m = m' := by
  cases m
  cases m'
  cases h
  rfl

/-- A key has one value. -/
theorem value_unique {m : IndexMap α β} {k : α} {v w : β} (hv : (k, v) ∈ m.entries)
    (hw : (k, w) ∈ m.entries) : v = w := by
  have := List.inj_on_of_nodup_map m.nodup hv hw rfl
  exact (Prod.mk.inj this).2

/-- `shift_remove_index(0)`: the first entry goes, the rest keeps its order. -/
def shiftRemoveFirst (m : IndexMap α β) : IndexMap α β :=
  ⟨m.entries.tail, by rw [List.map_tail]; exact m.nodup.tail⟩

theorem len_shiftRemoveFirst (m : IndexMap α β) : m.shiftRemoveFirst.len = m.len - 1 := by
  simp [len, shiftRemoveFirst]

variable [DecidableEq α]

/-- `get`. -/
def get? (m : IndexMap α β) (k : α) : Option β := (m.entries.find? (·.1 = k)).map Prod.snd

theorem get?_eq_some {m : IndexMap α β} {k : α} {v : β} :
    m.get? k = some v ↔ (k, v) ∈ m.entries := by
  unfold get?
  constructor
  · intro h
    obtain ⟨⟨k', v'⟩, he, hv⟩ := Option.map_eq_some_iff.mp h
    have hk := List.find?_some he
    simp only [decide_eq_true_eq] at hk hv
    subst hk hv
    exact List.mem_of_find?_eq_some he
  · intro h
    have hs : (m.entries.find? (·.1 = k)).isSome := by
      rw [List.find?_isSome]; exact ⟨_, h, by simp⟩
    obtain ⟨⟨k', v'⟩, he⟩ := Option.isSome_iff_exists.mp hs
    have hk := List.find?_some he
    simp only [decide_eq_true_eq] at hk
    subst hk
    rw [he, Option.map_some, value_unique (List.mem_of_find?_eq_some he) h]

theorem get?_eq_none {m : IndexMap α β} {k : α} :
    m.get? k = none ↔ ∀ v, (k, v) ∉ m.entries := by
  constructor
  · intro h v hv
    rw [get?_eq_some.mpr hv] at h
    cases h
  · intro h
    cases hg : m.get? k with
    | none => rfl
    | some v => exact absurd (get?_eq_some.mp hg) (h v)

theorem isSome_get?_iff {m : IndexMap α β} {k : α} :
    (m.get? k).isSome ↔ k ∈ m.entries.map Prod.fst := by
  rw [Option.isSome_iff_exists]
  constructor
  · rintro ⟨v, hv⟩
    exact List.mem_map.mpr ⟨(k, v), get?_eq_some.mp hv, rfl⟩
  · intro h
    obtain ⟨⟨k', v⟩, hv, rfl⟩ := List.mem_map.mp h
    exact ⟨v, get?_eq_some.mpr hv⟩

/-- `insert`: a new key at the end, an existing key in place. -/
def insert (m : IndexMap α β) (k : α) (v : β) : IndexMap α β :=
  if h : k ∈ m.entries.map Prod.fst then
    ⟨m.entries.map fun e => if e.1 = k then (k, v) else e, by
      have hk : (m.entries.map fun e => if e.1 = k then (k, v) else e).map Prod.fst =
          m.entries.map Prod.fst := by
        rw [List.map_map]
        apply List.map_congr_left
        intro e _
        simp only [Function.comp_apply]
        split
        · next he => exact he.symm
        · rfl
      rw [hk]; exact m.nodup⟩
  else
    ⟨m.entries ++ [(k, v)], by
      rw [List.map_append, List.nodup_append]
      refine ⟨m.nodup, by simp, fun a ha b hb hab => h ?_⟩
      rw [List.map_singleton, List.mem_singleton] at hb
      subst hb hab
      exact ha⟩

theorem mem_insert {m : IndexMap α β} {k : α} {v : β} {e : α × β} :
    e ∈ (m.insert k v).entries ↔ e = (k, v) ∨ (e ∈ m.entries ∧ e.1 ≠ k) := by
  unfold insert
  split
  · next hk =>
    simp only [List.mem_map]
    constructor
    · rintro ⟨e', he', rfl⟩
      by_cases h : e'.1 = k
      · exact .inl (by simp [h])
      · exact .inr (by simp [h, he'])
    · rintro (rfl | ⟨he, hne⟩)
      · obtain ⟨e', he', rfl⟩ := List.mem_map.mp hk
        exact ⟨e', he', by simp⟩
      · exact ⟨e, he, by simp [hne]⟩
  · next hk =>
    simp only [List.mem_append, List.mem_singleton]
    constructor
    · rintro (he | rfl)
      · refine .inr ⟨he, fun h => hk ?_⟩
        exact List.mem_map.mpr ⟨e, he, h⟩
      · exact .inl rfl
    · rintro (rfl | ⟨he, -⟩)
      · exact .inr rfl
      · exact .inl he

/-- A new key goes to the end of the keys. -/
theorem keys_insert (m : IndexMap α β) (k : α) (v : β) : (m.insert k v).entries.map Prod.fst =
    if k ∈ m.entries.map Prod.fst then m.entries.map Prod.fst
    else m.entries.map Prod.fst ++ [k] := by
  unfold insert
  split
  · rw [List.map_map]
    apply List.map_congr_left
    intro e _
    simp only [Function.comp_apply]
    split
    · next he => exact he.symm
    · rfl
  · rw [List.map_append, List.map_singleton]

theorem insert_of_not_mem {m : IndexMap α β} {k : α} (h : k ∉ m.entries.map Prod.fst) (v : β) :
    (m.insert k v).entries = m.entries ++ [(k, v)] := by
  unfold insert
  rw [dif_neg h]

theorem len_insert_le (m : IndexMap α β) (k : α) (v : β) : (m.insert k v).len ≤ m.len + 1 := by
  unfold insert len
  split <;> simp

/-- `swap_remove`: the value of `k`, if any, and the map without it. -/
def swapRemove (m : IndexMap α β) (k : α) : Option β × IndexMap α β :=
  match m.get? k with
  | none => (none, m)
  | some v =>
    if h : m.entries.findIdx (·.1 = k) < m.entries.length then
      (some v, ⟨swapRemoveAt m.entries (m.entries.findIdx (·.1 = k)), by
        have hp := (swapRemoveAt_perm h).map Prod.fst
        rw [hp.nodup_iff, ← List.eraseIdx_map]
        exact m.nodup.sublist (List.eraseIdx_sublist _ _)⟩)
    else (some v, m)

@[simp] theorem swapRemove_fst (m : IndexMap α β) (k : α) : (m.swapRemove k).1 = m.get? k := by
  unfold swapRemove
  split
  · next h => rw [h]
  · next h => split <;> rw [h]

theorem swapRemove_of_none {m : IndexMap α β} {k : α} (h : m.get? k = none) :
    m.swapRemove k = (none, m) := by
  unfold swapRemove
  rw [h]

theorem findIdx_lt_of_mem {m : IndexMap α β} {k : α} {v : β} (h : (k, v) ∈ m.entries) :
    m.entries.findIdx (·.1 = k) < m.entries.length :=
  List.findIdx_lt_length_of_exists ⟨_, h, by simp⟩

theorem entries_swapRemove {m : IndexMap α β} {k : α} {v : β} (h : (k, v) ∈ m.entries) :
    (m.swapRemove k).2.entries = swapRemoveAt m.entries (m.entries.findIdx (·.1 = k)) := by
  unfold swapRemove
  rw [get?_eq_some.mpr h]
  simp only [findIdx_lt_of_mem h, dite_true]

theorem mem_swapRemove {m : IndexMap α β} {k : α} {e : α × β} :
    e ∈ (m.swapRemove k).2.entries ↔ e ∈ m.entries ∧ e.1 ≠ k := by
  cases hg : m.get? k with
  | none =>
    rw [swapRemove_of_none hg]
    refine ⟨fun he => ⟨he, fun hk => ?_⟩, fun h => h.1⟩
    obtain ⟨k', v'⟩ := e
    simp only at hk
    subst hk
    exact get?_eq_none.mp hg v' he
  | some v =>
    have hmem := get?_eq_some.mp hg
    have hlt := findIdx_lt_of_mem hmem
    have hkey : (m.entries.get ⟨_, hlt⟩).1 = k := by
      simpa using List.findIdx_getElem (w := hlt)
    rw [entries_swapRemove hmem, (swapRemoveAt_perm hlt).mem_iff]
    have hperm := List.getElem_cons_eraseIdx_perm hlt
    have hnd := (hperm.map Prod.fst).nodup_iff.mpr m.nodup
    rw [List.map_cons, List.nodup_cons] at hnd
    constructor
    · intro he
      refine ⟨List.mem_of_mem_eraseIdx he, fun hk => hnd.1 ?_⟩
      rw [show (m.entries[m.entries.findIdx (·.1 = k)]).1 = k from hkey]
      exact List.mem_map.mpr ⟨e, he, hk⟩
    · rintro ⟨he, hne⟩
      rcases List.mem_cons.mp (hperm.mem_iff.mpr he) with rfl | h
      · exact absurd hkey hne
      · exact h

theorem len_swapRemove_le (m : IndexMap α β) (k : α) : (m.swapRemove k).2.len ≤ m.len := by
  cases hg : m.get? k with
  | none => simp [swapRemove_of_none hg]
  | some v =>
    have hlt := findIdx_lt_of_mem (get?_eq_some.mp hg)
    unfold swapRemove len
    rw [hg]
    simp only [hlt, dite_true]
    rw [(swapRemoveAt_perm hlt).length_eq, List.length_eraseIdx]
    split <;> omega

theorem len_swapRemove {m : IndexMap α β} {k : α} (h : k ∈ m.entries.map Prod.fst) :
    (m.swapRemove k).2.len + 1 = m.len := by
  obtain ⟨⟨k, v⟩, hm, rfl⟩ := List.mem_map.mp h
  have hlt := findIdx_lt_of_mem hm
  rw [len, entries_swapRemove hm, (swapRemoveAt_perm hlt).length_eq, List.length_eraseIdx_add_one hlt]
  rfl

end IndexMap

end Arcium
