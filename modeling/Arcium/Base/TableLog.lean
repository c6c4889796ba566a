import Arcium.Base.IndexMap

/-!
# The order in which the keys of a map came in

A map that evicts its first entry evicts the oldest key as long as its entries stand in the order in
which their keys came in. `Dated` is a map together with that order: `ages` lists its keys, the
oldest first. A log of operations (`MapOp`) is played on a dated map.

* `Ordered`: the entries stand in the order of `ages`. Evicting keeps it (`Ordered.evict`); inserting
  keeps it exactly when the key is new, or the last one (`ordered_insert`), since a key that is there
  keeps its place; a `swapRemove` keeps it exactly when it takes one of the last two entries
  (`ordered_consume`).
* `EvictsOldest`: each eviction of a log takes a key that came in before every key that remains.
  A log whose maps are all ordered does (`AlwaysOrdered.evicts`).
* `not_evictsOldest`: taking out the first of many keys brings the youngest to the front, and the
  next eviction takes that one.
-/

namespace Arcium

/-- What happens to a map. -/
inductive MapOp (α β : Type) where
  | insert (k : α) (v : β)
  /-- `swap_remove`. -/
  | consume (k : α)
  /-- `shift_remove_index(0)`. -/
  | evict

/-- The key that an operation puts in. -/
def MapOp.inserted {α β : Type} : MapOp α β → Option α
  | .insert k _ => some k
  | _ => none

/-- A map, and its keys in the order they came in. -/
structure Dated (α β : Type) where
  map : IndexMap α β
  ages : List α

/-- `k` came in before `l`. -/
def CameBefore {α : Type} (ages : List α) (k l : α) : Prop :=
  ∃ older younger, ages = older ++ younger ∧ k ∈ older ∧ l ∈ younger

namespace Dated

variable {α β : Type} [DecidableEq α]

def empty : Dated α β := ⟨.empty, []⟩

/-- A key that comes in again keeps its place in the map, but not its date. -/
def insert (d : Dated α β) (k : α) (v : β) : Dated α β :=
  ⟨d.map.insert k v, d.ages.erase k ++ [k]⟩

def consume (d : Dated α β) (k : α) : Dated α β := ⟨(d.map.swapRemove k).2, d.ages.erase k⟩

/-- The key of the first entry leaves. -/
def evict (d : Dated α β) : Dated α β :=
  match d.map.entries with
  | [] => d
  | e :: _ => ⟨d.map.shiftRemoveFirst, d.ages.erase e.1⟩

def apply (d : Dated α β) : MapOp α β → Dated α β
  | .insert k v => d.insert k v
  | .consume k => d.consume k
  | .evict => d.evict

/-- The dated map after a log. -/
def play (log : List (MapOp α β)) : Dated α β := log.foldl apply empty

theorem play_append (log ops : List (MapOp α β)) :
    play (log ++ ops) = ops.foldl apply (play log) := List.foldl_append ..

theorem play_snoc (log : List (MapOp α β)) (op : MapOp α β) :
    play (log ++ [op]) = (play log).apply op := play_append log [op]

theorem evict_entries (d : Dated α β) : d.evict.map.entries = d.map.entries.tail := by
  unfold evict
  split
  · next h => rw [h, List.tail_nil]
  · rfl

theorem foldl_evict_entries (d : Dated α β) (count : Nat) :
    ((List.replicate count .evict).foldl apply d).map.entries = d.map.entries.drop count := by
  induction count generalizing d with
  | zero => rfl
  | succ count ih =>
    rw [List.replicate_succ, List.foldl_cons, ih]
    show d.evict.map.entries.drop count = _
    rw [evict_entries, ← List.drop_one, List.drop_drop, Nat.add_comm]

/-- The insertions of a list of entries. -/
def inserts (entries : List (α × β)) : List (MapOp α β) := entries.map fun e => .insert e.1 e.2

theorem foldl_inserts_map (d : Dated α β) (entries : List (α × β)) :
    ((inserts entries).foldl apply d).map =
      entries.foldl (fun m e => m.insert e.1 e.2) d.map := by
  induction entries generalizing d with
  | nil => rfl
  | cons e entries ih => exact ih _

omit [DecidableEq α] in
theorem inserted_inserts (entries : List (α × β)) :
    (inserts entries).filterMap MapOp.inserted = entries.map Prod.fst := by
  induction entries with
  | nil => rfl
  | cons e entries ih => exact congrArg (e.1 :: ·) ih

/-! ## Maps in order -/

/-- The entries stand in the order in which their keys came in. -/
def Ordered (d : Dated α β) : Prop := d.map.entries.map Prod.fst = d.ages

omit [DecidableEq α] in
theorem ordered_empty : (empty : Dated α β).Ordered := rfl

omit [DecidableEq α] in
theorem Ordered.nodup {d : Dated α β} (h : d.Ordered) : d.ages.Nodup := by
  rw [← h]
  exact d.map.nodup

/-- **The order survives** an insertion if and only if the key is new, or was the last to come in. -/
theorem ordered_insert {d : Dated α β} (h : d.Ordered) (k : α) (v : β) :
    (d.insert k v).Ordered ↔ k ∉ d.ages ∨ d.ages.getLast? = some k := by
  show (d.map.insert k v).entries.map Prod.fst = d.ages.erase k ++ [k] ↔ _
  rw [IndexMap.keys_insert, h]
  by_cases hk : k ∈ d.ages
  · rw [if_pos hk]
    constructor
    · intro he
      right
      rw [he, List.getLast?_concat]
    · rintro (hn | hlast)
      · exact absurd hk hn
      · obtain ⟨ages, hages⟩ := List.getLast?_eq_some_iff.mp hlast
        have hn := h.nodup
        rw [hages] at hn ⊢
        have hnot : k ∉ ages := fun hm =>
          (List.nodup_append.mp hn).2.2 k hm k List.mem_cons_self rfl
        rw [List.erase_append_right _ hnot, List.erase_cons_head, List.append_nil]
  · rw [if_neg hk, List.erase_of_not_mem hk]
    exact iff_of_true rfl (.inl hk)

theorem Ordered.evict {d : Dated α β} (h : d.Ordered) : d.evict.Ordered := by
  unfold Dated.evict
  split
  · exact h
  · next e rest he =>
    show d.map.entries.tail.map Prod.fst = d.ages.erase e.1
    rw [← h, he]
    simp

/-- Where `swap_remove` finds a key. -/
theorem findIdx_eq_idxOf (m : IndexMap α β) (k : α) :
    m.entries.findIdx (·.1 = k) = (m.entries.map Prod.fst).idxOf k := by
  rw [List.idxOf, List.findIdx_map]
  rfl

theorem findIdx_of_getElem? {m : IndexMap α β} {k : α} {i : Nat}
    (h : (m.entries.map Prod.fst)[i]? = some k) : m.entries.findIdx (·.1 = k) = i := by
  obtain ⟨hlt, rfl⟩ := List.getElem?_eq_some_iff.mp h
  rw [findIdx_eq_idxOf]
  exact m.nodup.idxOf_getElem i hlt

/-- **The order survives** a `swap_remove` if and only if one of the last two entries goes. -/
theorem ordered_consume {d : Dated α β} (h : d.Ordered) {k : α} (hk : k ∈ d.ages) :
    (d.consume k).Ordered ↔ d.map.len ≤ d.map.entries.findIdx (·.1 = k) + 2 := by
  have hlen : d.map.len = d.ages.length := by rw [← h, List.length_map, IndexMap.len]
  have hlt : d.ages.idxOf k < d.ages.length := List.idxOf_lt_length_of_mem hk
  have hkeys : (d.map.swapRemove k).2.entries.map Prod.fst = swapRemoveAt d.ages (d.ages.idxOf k) := by
    rw [← h] at hk
    obtain ⟨⟨k', v⟩, hv, rfl⟩ := List.mem_map.mp hk
    rw [IndexMap.entries_swapRemove hv, map_swapRemoveAt, findIdx_eq_idxOf, h]
  have herase : d.ages.erase k = d.ages.eraseIdx (d.ages.idxOf k) :=
    List.erase_eq_eraseIdx_of_idxOf rfl
  show (d.map.swapRemove k).2.entries.map Prod.fst = d.ages.erase k ↔ _
  rw [hkeys, herase, hlen, findIdx_eq_idxOf, h]
  constructor
  · intro he
    by_contra hgt
    exact swapRemoveAt_ne_eraseIdx h.nodup (by omega) he
  · exact swapRemoveAt_eq_eraseIdx hlt

/-- The map is in order all along a log. -/
def AlwaysOrdered (log : List (MapOp α β)) : Prop :=
  ∀ before after, log = before ++ after → (play before).Ordered

theorem alwaysOrdered_nil : AlwaysOrdered ([] : List (MapOp α β)) := by
  intro before after h
  obtain ⟨rfl, -⟩ := List.append_eq_nil_iff.mp h.symm
  exact ordered_empty

theorem AlwaysOrdered.last {log : List (MapOp α β)} (h : AlwaysOrdered log) : (play log).Ordered :=
  h log [] (List.append_nil _).symm

theorem AlwaysOrdered.snoc {log : List (MapOp α β)} {op : MapOp α β} (h : AlwaysOrdered log)
    (hop : ((play log).apply op).Ordered) : AlwaysOrdered (log ++ [op]) := by
  intro before after he
  rcases List.eq_nil_or_concat after with rfl | ⟨rest, last, rfl⟩
  · rw [List.append_nil] at he
    rwa [← he, play_snoc]
  · rw [List.concat_eq_append, ← List.append_assoc] at he
    exact h before rest (List.append_inj' he rfl).1

/-- Evictions keep the order, and insertions of keys that are new, each once. -/
theorem AlwaysOrdered.append {log : List (MapOp α β)} (h : AlwaysOrdered log)
    (ops : List (MapOp α β)) (hops : ∀ k, .consume k ∉ ops)
    (honce : (ops.filterMap MapOp.inserted).Nodup)
    (hnew : ∀ k ∈ ops.filterMap MapOp.inserted, k ∉ (play log).ages) : AlwaysOrdered (log ++ ops) := by
  induction ops generalizing log with
  | nil => rwa [List.append_nil]
  | cons op ops ih =>
    have hops' : ∀ k, .consume k ∉ ops := fun k hk => hops k (List.mem_cons_of_mem _ hk)
    rw [List.append_cons]
    cases op with
    | insert k v =>
      have hk := hnew k List.mem_cons_self
      have honce : (k :: ops.filterMap MapOp.inserted).Nodup := honce
      rw [List.nodup_cons] at honce
      refine ih (h.snoc ((ordered_insert h.last k v).mpr (.inl hk))) hops' honce.2 fun l hl hm => ?_
      rw [play_snoc] at hm
      rcases List.mem_append.mp hm with hm | hm
      · exact hnew l (List.mem_cons_of_mem _ hl) (List.mem_of_mem_erase hm)
      · obtain rfl := List.mem_singleton.mp hm
        exact honce.1 hl
    | consume k => exact absurd List.mem_cons_self (hops k)
    | evict =>
      refine ih (h.snoc h.last.evict) hops' honce fun l hl hm => hnew l hl ?_
      rw [play_snoc] at hm
      change l ∈ (play log).evict.ages at hm
      unfold Dated.evict at hm
      split at hm
      · exact hm
      · exact List.mem_of_mem_erase hm

/-! ## Evictions -/

/-- Each eviction takes a key that came in before every key that remains. -/
def EvictsOldest (log : List (MapOp α β)) : Prop :=
  ∀ before after, log = before ++ .evict :: after → ∀ e rest,
    (play before).map.entries = e :: rest → ∀ e' ∈ rest, CameBefore (play before).ages e.1 e'.1

theorem AlwaysOrdered.evicts {log : List (MapOp α β)} (h : AlwaysOrdered log) :
    EvictsOldest log := by
  intro before after hlog e rest he e' he'
  refine ⟨[e.1], rest.map Prod.fst, ?_, List.mem_singleton_self _, List.mem_map_of_mem he'⟩
  rw [← h before _ hlog, he]
  rfl

/-! ## The youngest key evicted -/

/-- New keys go to the end, in both orders. -/
theorem foldl_inserts {d : Dated α β} (new : List (α × β))
    (hm : (d.map.entries.map Prod.fst ++ new.map Prod.fst).Nodup)
    (ha : (d.ages ++ new.map Prod.fst).Nodup) :
    ((inserts new).foldl apply d).map.entries = d.map.entries ++ new ∧
      ((inserts new).foldl apply d).ages = d.ages ++ new.map Prod.fst := by
  induction new generalizing d with
  | nil => exact ⟨(List.append_nil _).symm, (List.append_nil _).symm⟩
  | cons e new ih =>
    obtain ⟨k, v⟩ := e
    have hk : k ∉ d.map.entries.map Prod.fst := fun hk =>
      (List.nodup_append.mp hm).2.2 k hk k List.mem_cons_self rfl
    have hk' : k ∉ d.ages := fun hk =>
      (List.nodup_append.mp ha).2.2 k hk k List.mem_cons_self rfl
    have hent : (d.insert k v).map.entries = d.map.entries ++ [(k, v)] :=
      IndexMap.insert_of_not_mem hk v
    have hages : (d.insert k v).ages = d.ages ++ [k] := by
      show d.ages.erase k ++ [k] = _
      rw [List.erase_of_not_mem hk']
    have h := @ih (d.insert k v)
    rw [hent, hages, List.map_append, List.append_assoc, List.append_assoc, List.append_assoc] at h
    exact h hm ha

/-- The first of many keys is taken out and others come in: the youngest of the old keys stands in
its place, though all that stand behind it but the new ones came in before. -/
theorem play_consume_first {first second last : α × β} {others later : List (α × β)}
    (hn : ((first :: second :: (others ++ [last]) ++ later).map Prod.fst).Nodup) :
    (play (inserts (first :: second :: (others ++ [last])) ++
        .consume first.1 :: inserts later)).map.entries = last :: second :: others ++ later ∧
      (play (inserts (first :: second :: (others ++ [last])) ++
        .consume first.1 :: inserts later)).ages =
        second.1 :: (others.map Prod.fst ++ [last.1]) ++ later.map Prod.fst := by
  generalize hold : first :: second :: (others ++ [last]) = old at hn
  rw [List.map_append] at hn
  have hkeys : old.map Prod.fst = first.1 :: second.1 :: (others.map Prod.fst ++ [last.1]) := by
    rw [← hold]
    simp
  obtain ⟨h1, h2⟩ := @foldl_inserts _ _ _ empty old (List.nodup_append.mp hn).1
    (List.nodup_append.mp hn).1
  change (play (inserts old)).map.entries = old at h1
  change (play (inserts old)).ages = old.map Prod.fst at h2
  have hc1 : ((play (inserts old)).consume first.1).map.entries = last :: second :: others := by
    have hf : (first.1, first.2) ∈ (play (inserts old)).map.entries := by
      rw [h1, ← hold]
      exact List.mem_cons_self
    show ((play (inserts old)).map.swapRemove first.1).2.entries = _
    rw [IndexMap.entries_swapRemove hf, findIdx_eq_idxOf, h1, hkeys, List.idxOf_cons_self, ← hold]
    exact swapRemoveAt_zero first last (second :: others)
  have hc2 : ((play (inserts old)).consume first.1).ages =
      second.1 :: (others.map Prod.fst ++ [last.1]) := by
    show (play (inserts old)).ages.erase first.1 = _
    rw [h2, hkeys, List.erase_cons_head]
  have hn2 : (second.1 :: (others.map Prod.fst ++ [last.1]) ++ later.map Prod.fst).Nodup := by
    rw [hkeys] at hn
    exact (List.nodup_cons.mp hn).2
  obtain ⟨h3, h4⟩ := @foldl_inserts _ _ _ ((play (inserts old)).consume first.1) later (by
      rw [hc1]
      refine (List.Perm.nodup_iff (List.Perm.append_right _ ?_)).mpr hn2
      exact (List.perm_append_singleton last.1 (second.1 :: others.map Prod.fst)).symm) (by
      rw [hc2]
      exact hn2)
  rw [hc1] at h3
  rw [hc2] at h4
  rw [play_append]
  exact ⟨h3, h4⟩

/-- **The youngest goes first.** Once the first of many keys is taken out, the next eviction takes
the key that came in last before that, and leaves all the others. -/
theorem not_evictsOldest {first second last : α × β} {others later : List (α × β)}
    (hn : ((first :: second :: (others ++ [last]) ++ later).map Prod.fst).Nodup)
    (after : List (MapOp α β)) :
    ¬ EvictsOldest (inserts (first :: second :: (others ++ [last])) ++
      .consume first.1 :: inserts later ++ .evict :: after) := by
  intro h
  obtain ⟨h3, h4⟩ := play_consume_first hn
  obtain ⟨older, younger, hages, hl, hs⟩ := h _ after rfl last (second :: others ++ later) h3 second
    List.mem_cons_self
  -- `second` is the oldest key, so nothing came in before it.
  have hn2 : (second.1 :: (others.map Prod.fst ++ [last.1]) ++ later.map Prod.fst).Nodup := by
    simp only [List.map_append, List.map_cons, List.map_nil, List.cons_append] at hn
    exact (List.nodup_cons.mp hn).2
  rw [h4] at hages
  rw [hages] at hn2
  cases older with
  | nil => cases hl
  | cons k older =>
    obtain rfl : second.1 = k := (List.cons.inj hages).1
    exact (List.nodup_append.mp hn2).2.2 _ List.mem_cons_self _ hs rfl

end Dated

end Arcium
