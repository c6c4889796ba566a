import Mathlib.Data.Finmap
import Arcium.Base.Bytes

/-!
# Typed records in a map of byte strings

`RecordFormat κ β`: a name for each key, no two alike, and an encoding of the records at each key that
its decoder reads back, if they fit.

`F.Holds rows m`: the byte strings `m` are the typed records `rows`, each under the name of its key.

* `Holds.empty`, `Holds.insert`, `Holds.erase`: a write keeps it.
* `Holds.read`: decoding what is under the name of a key is looking the key up.
* `Holds.mem_iff`: the names in use.
-/

namespace Arcium

/-- How the records of type `β k` at the keys `k : κ` are named and encoded. -/
structure RecordFormat (κ : Type) (β : κ → Type) where
  name : κ → String
  name_injective : Function.Injective name
  /-- The records that the encoding is for. -/
  Fits : (k : κ) → β k → Prop
  encode : (k : κ) → β k → Bytes
  decode : (k : κ) → Bytes → Option (β k)
  decode_encode : ∀ k v, Fits k v → decode k (encode k v) = some v

namespace RecordFormat

variable {κ : Type} [DecidableEq κ] {β : κ → Type} (F : RecordFormat κ β)

/-- `m` is `rows` in bytes (module doc). -/
structure Holds (rows : AList β) (m : Finmap fun _ : String => Bytes) : Prop where
  stored : ∀ k v, rows.lookup k = some v → m.lookup (F.name k) = some (F.encode k v)
  named : ∀ s ∈ m, ∃ k ∈ rows, F.name k = s
  fits : ∀ k v, rows.lookup k = some v → F.Fits k v

namespace Holds

variable {F} {rows : AList β} {m : Finmap fun _ : String => Bytes} {k : κ}

theorem empty : F.Holds ∅ ∅ where
  stored _ _ h := by cases h
  named _ h := absurd h Finmap.notMem_empty
  fits _ _ h := by cases h

/-- A key that is not in use has no bytes. -/
theorem missing (h : F.Holds rows m) (hk : rows.lookup k = none) : m.lookup (F.name k) = none := by
  rw [Finmap.lookup_eq_none]
  intro hmem
  obtain ⟨k', hk', hname⟩ := h.named _ hmem
  obtain rfl := F.name_injective hname
  exact AList.lookup_eq_none.mp hk hk'

/-- Decoding what is under the name of a key is looking the key up. -/
theorem read (h : F.Holds rows m) (k : κ) : (m.lookup (F.name k)).map (F.decode k) =
    (rows.lookup k).map some := by
  cases hk : rows.lookup k with
  | some v => rw [h.stored k v hk, Option.map_some, Option.map_some, F.decode_encode k v (h.fits k v hk)]
  | none => rw [h.missing hk, Option.map_none, Option.map_none]

theorem mem_iff (h : F.Holds rows m) (s : String) : s ∈ m ↔ ∃ k ∈ rows, F.name k = s := by
  constructor
  · exact h.named s
  · rintro ⟨k, hk, rfl⟩
    obtain ⟨v, hv⟩ := Option.isSome_iff_exists.mp (AList.lookup_isSome.mpr hk)
    exact Finmap.mem_of_lookup_eq_some (h.stored k v hv)

theorem insert (h : F.Holds rows m) {v : β k} (hv : F.Fits k v) :
    F.Holds (rows.insert k v) (m.insert (F.name k) (F.encode k v)) where
  stored k' v' hl := by
    by_cases hk : k' = k
    · subst hk
      rw [AList.lookup_insert] at hl
      obtain rfl := Option.some.inj hl
      exact Finmap.lookup_insert _
    · rw [AList.lookup_insert_ne hk] at hl
      rw [Finmap.lookup_insert_of_ne _ fun he => hk (F.name_injective he)]
      exact h.stored k' v' hl
  named s hs := by
    rcases Finmap.mem_insert.mp hs with rfl | hs
    · exact ⟨k, AList.mem_insert rows |>.mpr (.inl rfl), rfl⟩
    · obtain ⟨k', hk', hname⟩ := h.named s hs
      exact ⟨k', AList.mem_insert rows |>.mpr (.inr hk'), hname⟩
  fits k' v' hl := by
    by_cases hk : k' = k
    · subst hk
      rw [AList.lookup_insert] at hl
      obtain rfl := Option.some.inj hl
      exact hv
    · rw [AList.lookup_insert_ne hk] at hl
      exact h.fits k' v' hl

theorem erase (h : F.Holds rows m) (k : κ) : F.Holds (rows.erase k) (m.erase (F.name k)) where
  stored k' v' hl := by
    by_cases hk : k' = k
    · subst hk
      rw [AList.lookup_erase] at hl
      cases hl
    · rw [AList.lookup_erase_ne hk] at hl
      rw [Finmap.lookup_erase_ne fun he => hk (F.name_injective he)]
      exact h.stored k' v' hl
  named s hs := by
    obtain ⟨hne, hs⟩ := Finmap.mem_erase.mp hs
    obtain ⟨k', hk', rfl⟩ := h.named s hs
    exact ⟨k', AList.mem_erase.mpr ⟨fun he => hne (he ▸ rfl), hk'⟩, rfl⟩
  fits k' v' hl := by
    by_cases hk : k' = k
    · subst hk
      rw [AList.lookup_erase] at hl
      cases hl
    · rw [AList.lookup_erase_ne hk] at hl
      exact h.fits k' v' hl

end Holds

end RecordFormat

end Arcium
