import Mathlib.Data.ZMod.Basic

/-!
# Private set intersection (`arcium-psi/encrypted-ixs/src/lib.rs`)

The circuit `psi_intersect`, on the values that it computes on in shares: decrypting the inputs and
encrypting the result are the framework's. So is the field of the counts, `F`, of which the circuit
uses equality and the images `fromUsize` of integers (`FieldImages`).

* `realSlots_fst`, `realSlots_snd`: what the loop over the possible counts finds out.
* `psi_intersect_exact`: the matches are the intersection of the real entries.
-/

namespace Arcium

namespace Psi

/-- `BATCH_SIZE`. -/
def batchSize : Nat := 10

/-- `ClientContacts`: the real entries come first, and `count` is how many they are. -/
structure ClientContacts (F : Type) where
  hashes : Vector UInt64 batchSize
  count : F

/-- `ServerContacts`, same layout. -/
abbrev ServerContacts := ClientContacts

/-- `MatchResult`. -/
structure MatchResult where
  /-- `matches`. -/
  matched : Vector Bool batchSize
  valid : Bool
  deriving DecidableEq

section Circuit

variable {F : Type} [DecidableEq F] (fromUsize : Nat → F)

/-- One round of the loop of `real_slots`, for the count `k`. -/
def realSlotsRound (count : F) (s : Bool × Vector Bool batchSize) (k : Nat) :
    Bool × Vector Bool batchSize :=
  let isK := decide (count = fromUsize k)
  (s.1 || isK, s.2.mapIdx fun i slot => if i < k then slot || isK else slot)

/-- `real_slots`: whether `count` is in range, and which slots are real. -/
def realSlots (count : F) : Bool × Vector Bool batchSize :=
  (List.range (batchSize + 1)).foldl (realSlotsRound fromUsize count) (false, .replicate batchSize false)

/-- The inner loop of `psi_intersect`, for one entry of the client. -/
def foundIn (hash : UInt64) (server : ServerContacts F) (serverReal : Vector Bool batchSize) : Bool :=
  (List.finRange batchSize).foldl
    (fun found j => if serverReal[j] && hash == server.hashes[j] then true else found) false

/-- `psi_intersect`. -/
def psiIntersect (client : ClientContacts F) (server : ServerContacts F) : MatchResult :=
  let (clientValid, clientReal) := realSlots fromUsize client.count
  let (serverValid, serverReal) := realSlots fromUsize server.count
  let valid := clientValid && serverValid
  { matched := .ofFn fun i => valid && clientReal[i] && foundIn client.hashes[i] server serverReal
    valid }

end Circuit

/-! ## What is intersected -/

section Spec

variable {F : Type} (fromUsize : Nat → F)

/-- The order of the field of the counts. -/
def fieldOrder : Nat := 2 ^ 255 - 19

/-- Integers have one image if they agree modulo the order of the field. -/
def FieldImages : Prop := ∀ m n, fromUsize m = fromUsize n ↔ m ≡ n [MOD fieldOrder]

/-- `count` is the image of `n`, and `n` entries fit in a batch. -/
def Counts (count : F) (n : Nat) : Prop := n ≤ batchSize ∧ count = fromUsize n

/-- The same count and, if it counts, the same real entries. -/
structure SameEntries (x y : ClientContacts F) : Prop where
  count : x.count = y.count
  hashes : ∀ n, Counts fromUsize x.count n → ∀ i : Fin batchSize, i < n → x.hashes[i] = y.hashes[i]

/-- `r` is the intersection of the real entries, and nothing else. -/
structure Intersection (client : ClientContacts F) (server : ServerContacts F) (r : MatchResult) :
    Prop where
  valid : r.valid = true ↔
    (∃ c, Counts fromUsize client.count c) ∧ ∃ s, Counts fromUsize server.count s
  matched : ∀ c s, Counts fromUsize client.count c → Counts fromUsize server.count s →
    ∀ i : Fin batchSize, r.matched[i] = true ↔
      i < c ∧ ∃ j : Fin batchSize, j < s ∧ client.hashes[i] = server.hashes[j]
  closed : r.valid = false → ∀ i : Fin batchSize, r.matched[i] = false

variable {fromUsize}

/-- A count counts one number of entries. -/
theorem FieldImages.unique (hF : FieldImages fromUsize) {count : F} {m n : Nat}
    (hm : Counts fromUsize count m) (hn : Counts fromUsize count n) : m = n := by
  have horder : batchSize < fieldOrder := by decide
  have hmod := (hF m n).mp (hm.2.symm.trans hn.2)
  exact hmod.eq_of_lt_of_lt (Nat.lt_of_le_of_lt hm.1 horder) (Nat.lt_of_le_of_lt hn.1 horder)

/-- There is one intersection, whatever the padding holds. -/
theorem Intersection.unique {client client' : ClientContacts F}
    {server server' : ServerContacts F} {r r' : MatchResult}
    (h : Intersection fromUsize client server r) (h' : Intersection fromUsize client' server' r')
    (hc : SameEntries fromUsize client client') (hs : SameEntries fromUsize server server') : r = r' := by
  have hvalid : r.valid = r'.valid := by
    rw [Bool.eq_iff_iff, h.valid, h'.valid, hc.count, hs.count]
  have hmatched : ∀ i : Fin batchSize, r.matched[i] = r'.matched[i] := by
    intro i
    cases hv : r.valid with
    | false => rw [h.closed hv i, h'.closed (hvalid ▸ hv) i]
    | true =>
      obtain ⟨⟨c, hcount⟩, s, hscount⟩ := h.valid.mp hv
      rw [Bool.eq_iff_iff, h.matched c s hcount hscount i,
        h'.matched c s (hc.count ▸ hcount) (hs.count ▸ hscount) i]
      refine and_congr_right fun hi => exists_congr fun j => and_congr_right fun hj => ?_
      rw [hc.hashes c hcount i hi, hs.hashes s hscount j hj]
  obtain ⟨matched, valid⟩ := r
  obtain ⟨matched', valid'⟩ := r'
  have hsame : matched = matched' := Vector.ext fun i hi => hmatched ⟨i, hi⟩
  rw [hsame, show valid = valid' from hvalid]

end Spec

/-! ## What the loops compute -/

section Loops

variable {F : Type}

theorem foundIn_iff (hash : UInt64) (server : ServerContacts F) (serverReal : Vector Bool batchSize) :
    foundIn hash server serverReal = true ↔
      ∃ j : Fin batchSize, serverReal[j] = true ∧ hash = server.hashes[j] := by
  have hloop : ∀ (l : List (Fin batchSize)) (found : Bool),
      l.foldl (fun found j => if serverReal[j] && hash == server.hashes[j] then true else found) found =
        true ↔ found = true ∨ ∃ j ∈ l, serverReal[j] = true ∧ hash = server.hashes[j] := by
    intro l
    induction l with
    | nil => simp
    | cons j l ih =>
      intro found
      rw [List.foldl_cons, ih]
      simp only [Bool.and_eq_true, beq_iff_eq, List.mem_cons, or_and_right, exists_or, exists_eq_left]
      split
      · next hj => simp [hj]
      · next hj => rw [or_iff_right hj]
  rw [foundIn, hloop]
  simp

variable [DecidableEq F] {fromUsize : Nat → F}

/-- The state of the loop of `real_slots` after the counts below `n`. -/
theorem realSlots_rounds (count : F) (n : Nat) :
    let s := (List.range n).foldl (realSlotsRound fromUsize count) (false, .replicate batchSize false)
    (s.1 = true ↔ ∃ k < n, count = fromUsize k) ∧
    ∀ i : Fin batchSize, s.2[i] = true ↔ ∃ k < n, i < k ∧ count = fromUsize k := by
  induction n with
  | zero => simp
  | succ n ih =>
    obtain ⟨hvalid, hreal⟩ := ih
    rw [List.range_succ, List.foldl_append, List.foldl_cons, List.foldl_nil]
    refine ⟨?_, fun i => ?_⟩
    · simp only [realSlotsRound, Bool.or_eq_true, hvalid, decide_eq_true_eq, Nat.lt_succ_iff_lt_or_eq,
        or_and_right, exists_or, exists_eq_left]
    · have hi := hreal i
      simp only [Fin.getElem_fin] at hi
      simp only [realSlotsRound, Fin.getElem_fin, Vector.getElem_mapIdx, Nat.lt_succ_iff_lt_or_eq,
        or_and_right, exists_or, exists_eq_left]
      split
      · next hlt => rw [Bool.or_eq_true, hi, decide_eq_true_eq, and_iff_right hlt]
      · next hge => rw [hi, or_iff_left fun h => hge h.1]

theorem realSlots_fst (count : F) :
    (realSlots fromUsize count).1 = true ↔ ∃ n, Counts fromUsize count n := by
  rw [realSlots, (realSlots_rounds count _).1]
  simp only [Counts, Nat.lt_succ_iff]

/-- A slot is real if it is below the count. -/
theorem realSlots_snd (hF : FieldImages fromUsize) {count : F} {n : Nat}
    (hn : Counts fromUsize count n) (i : Fin batchSize) :
    (realSlots fromUsize count).2[i] = true ↔ i < n := by
  rw [realSlots, (realSlots_rounds count _).2 i]
  refine ⟨?_, fun hi => ⟨n, Nat.lt_succ_of_le hn.1, hi, hn.2⟩⟩
  rintro ⟨k, hk, hi, hcount⟩
  rwa [hF.unique hn ⟨Nat.le_of_lt_succ hk, hcount⟩]

end Loops

/-! ## The circuit -/

section Circuit

variable {F : Type} [DecidableEq F] {fromUsize : Nat → F}

theorem psiIntersect_intersection (hF : FieldImages fromUsize) (client : ClientContacts F)
    (server : ServerContacts F) :
    Intersection fromUsize client server (psiIntersect fromUsize client server) where
  valid := by
    show ((realSlots fromUsize client.count).1 && (realSlots fromUsize server.count).1) = true ↔ _
    rw [Bool.and_eq_true, realSlots_fst, realSlots_fst]
  matched c s hc hs i := by
    have hvalid : ((realSlots fromUsize client.count).1 && (realSlots fromUsize server.count).1) = true :=
      (Bool.and_eq_true _ _).mpr ⟨(realSlots_fst _).mpr ⟨c, hc⟩, (realSlots_fst _).mpr ⟨s, hs⟩⟩
    have hi := realSlots_snd hF hc i
    have hj := realSlots_snd hF hs
    simp only [psiIntersect, Fin.getElem_fin, Vector.getElem_ofFn, hvalid, Bool.true_and,
      Bool.and_eq_true, foundIn_iff]
    simp only [Fin.getElem_fin] at hi hj
    simp only [hi, hj]
  closed h i := by
    have hvalid : ((realSlots fromUsize client.count).1 && (realSlots fromUsize server.count).1) = false := h
    simp only [psiIntersect, Fin.getElem_fin, Vector.getElem_ofFn, hvalid, Bool.false_and]

/-- **The circuit computes the intersection of the real entries**: of counts that are out of range
it says that the result is not valid, and it does not depend on the padding. -/
theorem psi_intersect_exact (hF : FieldImages fromUsize) (client : ClientContacts F)
    (server : ServerContacts F) :
    Intersection fromUsize client server (psiIntersect fromUsize client server) ∧
    ∀ client' server', SameEntries fromUsize client client' → SameEntries fromUsize server server' →
      psiIntersect fromUsize client' server' = psiIntersect fromUsize client server :=
  ⟨psiIntersect_intersection hF client server, fun client' server' hc hs =>
    ((psiIntersect_intersection hF client server).unique
      (psiIntersect_intersection hF client' server') hc hs).symm⟩

/-- Two entries against three, with equal padding. -/
theorem psi_intersect_exact_few :
    let client : ClientContacts (ZMod fieldOrder) := ⟨#v[1, 2, 0, 0, 0, 0, 0, 0, 0, 0], (2 : Nat)⟩
    let server : ServerContacts (ZMod fieldOrder) := ⟨#v[2, 3, 4, 0, 0, 0, 0, 0, 0, 0], (3 : Nat)⟩
    Intersection (Nat.cast : Nat → ZMod fieldOrder) client server (psiIntersect Nat.cast client server) :=
  (psi_intersect_exact (fun m n => ZMod.natCast_eq_natCast_iff m n fieldOrder) _ _).1

end Circuit

end Psi

end Arcium
