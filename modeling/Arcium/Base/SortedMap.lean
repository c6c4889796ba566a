import Mathlib.Order.Lattice
import Mathlib.Data.List.Pairwise

/-!
# Maps sorted by key

`SortedMap α β` is the model of `BTreeMap`: its entries ascend strictly by key, by construction.

* `insert`, `remove`, `retain`: the operations that change it. `mem_insert`, `mem_remove` and
  `mem_retain` say what each does to the set of entries.
* `after`: the entries beyond a key, as `range((Excluded(k), Unbounded))` lists them.
-/

namespace Arcium

instance linearOrderUInt64 : LinearOrder UInt64 where
  le_refl := UInt64.le_refl
  le_trans _ _ _ := UInt64.le_trans
  lt_iff_le_not_ge a b := by
    rw [UInt64.not_le]
    exact ⟨fun h => ⟨UInt64.le_of_lt h, h⟩, fun h => h.2⟩
  le_antisymm _ _ := UInt64.le_antisymm
  le_total := UInt64.le_total
  toDecidableLE := inferInstance

/-- A map whose entries ascend by key. -/
structure SortedMap (α β : Type) [LinearOrder α] where
  entries : List (α × β)
  sorted : entries.Pairwise fun a b => a.1 < b.1

namespace SortedMap

variable {α β : Type} [LinearOrder α]

/-- `BTreeMap::new`. -/
def empty : SortedMap α β := ⟨[], .nil⟩

instance : Inhabited (SortedMap α β) := ⟨empty⟩

def len (m : SortedMap α β) : Nat := m.entries.length

/-- The entries `l` with `v` at `k`. -/
def insertEntry (k : α) (v : β) : List (α × β) → List (α × β)
  | [] => [(k, v)]
  | x :: l =>
    if k < x.1 then (k, v) :: x :: l
    else if x.1 < k then x :: insertEntry k v l
    else (k, v) :: l

theorem mem_insertEntry {k : α} {v : β} {l : List (α × β)} (hl : l.Pairwise fun a b => a.1 < b.1)
    {x : α × β} : x ∈ insertEntry k v l ↔ x = (k, v) ∨ x ∈ l ∧ x.1 ≠ k := by
  induction l with
  | nil => simp [insertEntry]
  | cons y l ih =>
    obtain ⟨hy, hl⟩ := List.pairwise_cons.mp hl
    -- The entries after `y` are beyond every key up to `y`'s.
    have hbeyond : ∀ z ∈ l, k ≤ y.1 → z.1 ≠ k := fun z hz hk => (hk.trans_lt (hy z hz)).ne'
    unfold insertEntry
    split
    · next hlt =>
      simp only [List.mem_cons]
      constructor
      · rintro (h | rfl | h)
        · exact .inl h
        · exact .inr ⟨.inl rfl, hlt.ne'⟩
        · exact .inr ⟨.inr h, hbeyond x h hlt.le⟩
      · rintro (h | ⟨h | h, -⟩)
        · exact .inl h
        · exact .inr (.inl h)
        · exact .inr (.inr h)
    · split
      · next hgt =>
        simp only [List.mem_cons, ih hl]
        constructor
        · rintro (rfl | h | ⟨h, hk⟩)
          · exact .inr ⟨.inl rfl, hgt.ne⟩
          · exact .inl h
          · exact .inr ⟨.inr h, hk⟩
        · rintro (h | ⟨rfl | h, hk⟩)
          · exact .inr (.inl h)
          · exact .inl rfl
          · exact .inr (.inr ⟨h, hk⟩)
      · next hnlt hngt =>
        have hyk : y.1 = k := le_antisymm (not_lt.mp hnlt) (not_lt.mp hngt)
        simp only [List.mem_cons]
        constructor
        · rintro (h | h)
          · exact .inl h
          · exact .inr ⟨.inr h, hbeyond x h hyk.ge⟩
        · rintro (h | ⟨rfl | h, hk⟩)
          · exact .inl h
          · exact absurd hyk hk
          · exact .inr h

theorem insertEntry_sorted {k : α} {v : β} {l : List (α × β)}
    (hl : l.Pairwise fun a b => a.1 < b.1) :
    (insertEntry k v l).Pairwise fun a b => a.1 < b.1 := by
  induction l with
  | nil => exact List.pairwise_singleton _ _
  | cons y l ih =>
    obtain ⟨hy, htail⟩ := List.pairwise_cons.mp hl
    unfold insertEntry
    split
    · next hlt =>
      refine List.pairwise_cons.mpr ⟨fun z hz => ?_, hl⟩
      rcases List.mem_cons.mp hz with rfl | hz
      · exact hlt
      · exact hlt.trans (hy z hz)
    · split
      · next hgt =>
        refine List.pairwise_cons.mpr ⟨fun z hz => ?_, ih htail⟩
        rcases (mem_insertEntry htail).mp hz with rfl | ⟨hz, -⟩
        · exact hgt
        · exact hy z hz
      · next hnlt hngt =>
        have hyk : y.1 = k := le_antisymm (not_lt.mp hnlt) (not_lt.mp hngt)
        exact List.pairwise_cons.mpr ⟨fun z hz => hyk ▸ hy z hz, htail⟩

/-- `insert`. -/
def insert (m : SortedMap α β) (k : α) (v : β) : SortedMap α β :=
  ⟨insertEntry k v m.entries, insertEntry_sorted m.sorted⟩

/-- `retain`. -/
def retain (m : SortedMap α β) (p : α → β → Bool) : SortedMap α β :=
  ⟨m.entries.filter fun x => p x.1 x.2, m.sorted.filter _⟩

/-- `remove`. -/
def remove (m : SortedMap α β) (k : α) : SortedMap α β := m.retain fun a _ => decide (a ≠ k)

/-- The entries with keys beyond `k`. -/
def after (m : SortedMap α β) (k : α) : List (α × β) := m.entries.filter fun x => decide (k < x.1)

instance : Membership (α × β) (SortedMap α β) := ⟨fun m x => x ∈ m.entries⟩

variable {m : SortedMap α β} {k : α} {v : β} {x y : α × β}

theorem mem_def : x ∈ m ↔ x ∈ m.entries := .rfl

@[simp] theorem not_mem_empty : x ∉ (empty : SortedMap α β) := List.not_mem_nil

@[simp] theorem mem_insert : x ∈ m.insert k v ↔ x = (k, v) ∨ x ∈ m ∧ x.1 ≠ k :=
  mem_insertEntry m.sorted

@[simp] theorem mem_retain {p : α → β → Bool} : x ∈ m.retain p ↔ x ∈ m ∧ p x.1 x.2 = true :=
  List.mem_filter

@[simp] theorem mem_remove : x ∈ m.remove k ↔ x ∈ m ∧ x.1 ≠ k := by
  simp [remove]

@[simp] theorem mem_after : x ∈ m.after k ↔ x ∈ m ∧ k < x.1 := by
  simp [after, mem_def]

theorem after_sorted (m : SortedMap α β) (k : α) : (m.after k).Pairwise fun a b => a.1 < b.1 :=
  m.sorted.filter _

/-- A key has one value. -/
theorem eq_of_mem (hx : x ∈ m) (hy : y ∈ m) (h : x.1 = y.1) : x = y := by
  by_contra hne
  have hp : m.entries.Pairwise fun a b => a.1 ≠ b.1 := m.sorted.imp fun h => h.ne
  have hsymm : Std.Symm fun a b : α × β => a.1 ≠ b.1 := ⟨fun _ _ h => h.symm⟩
  exact hp.forall hx hy hne h

theorem len_retain_le (m : SortedMap α β) (p : α → β → Bool) : (m.retain p).len ≤ m.len :=
  List.length_filter_le _ _

theorem len_insertEntry_le (l : List (α × β)) : (insertEntry k v l).length ≤ l.length + 1 := by
  induction l with
  | nil => exact Nat.le_refl _
  | cons y l ih =>
    unfold insertEntry
    split
    · exact Nat.le_refl _
    · split
      · exact Nat.succ_le_succ ih
      · exact Nat.le_succ _

theorem len_insert_le (m : SortedMap α β) (k : α) (v : β) : (m.insert k v).len ≤ m.len + 1 :=
  len_insertEntry_le _

end SortedMap

end Arcium
