import Arcium.Relay.Invariant

/-!
# Pages of a mailbox

`page`: the answer to a FETCH_AFTER. It is a prefix of what the mailbox holds beyond the cursor, in
order; if it stops before the end it has at least `MIN_PAGE` envelopes (`page_misses`), since that
many of the largest ones fit in a frame.

`Moves config s s'`: any requests lead from `s` to `s'`. What has a number from before `s` and is
stored in `s'` was stored in `s` (`Moves.mem`).
-/

namespace Arcium

namespace Relay

variable {config : Config} {now : Nat} {s s' : State} {log : List Handled}

/-- The envelopes beyond `after` that have not expired. -/
def beyond (config : Config) (s : State) (key : Key) (after : UInt64) (now : Nat) :
    List (UInt64 × Bytes) :=
  (((s.mailboxes key).live config now).after after).map fun (seq, _, envelope) => (seq, envelope)

/-- The answer to a FETCH_AFTER. -/
def page (config : Config) (s : State) (key : Key) (after : UInt64) (max : UInt16) (now : Nat) :
    List (UInt64 × Bytes) :=
  (fetchAfter s key after max now config).1

theorem mem_beyond {key : Key} {after : UInt64} {x : UInt64 × Bytes} :
    x ∈ beyond config s key after now ↔
      ∃ t, (x.1, t, x.2) ∈ (s.mailboxes key).live config now ∧ after < x.1 := by
  simp only [beyond, List.mem_map, SortedMap.mem_after]
  constructor
  · rintro ⟨⟨seq, t, envelope⟩, ⟨hm, hlt⟩, rfl⟩
    exact ⟨t, hm, hlt⟩
  · rintro ⟨t, hm, hlt⟩
    exact ⟨_, ⟨hm, hlt⟩, rfl⟩

theorem beyond_sorted (config : Config) (s : State) (key : Key) (after : UInt64) (now : Nat) :
    (beyond config s key after now).Pairwise fun a b => a.1 < b.1 :=
  List.pairwise_map.mpr (SortedMap.after_sorted _ after)

theorem takeFitting_begins (size : Nat) (l : List (UInt64 × Bytes)) : takeFitting size l <+: l := by
  induction l generalizing size with
  | nil => exact List.prefix_refl _
  | cons x l ih =>
    unfold takeFitting
    dsimp only
    split
    · exact List.cons_prefix_cons.mpr ⟨rfl, ih _⟩
    · exact List.nil_prefix

/-- A page that leaves out an envelope is nearly full. -/
theorem takeFitting_full {size : Nat} {l : List (UInt64 × Bytes)}
    (hl : ∀ x ∈ l, x.2.length ≤ maxEnvelope) (h : takeFitting size l ≠ l) :
    maxFrame < size + ((takeFitting size l).length + 1) * (12 + maxEnvelope) := by
  induction l generalizing size with
  | nil => exact absurd rfl h
  | cons x l ih =>
    have hx := hl x List.mem_cons_self
    unfold takeFitting at h ⊢
    dsimp only at h ⊢
    split
    · next hfits =>
      rw [if_pos hfits] at h
      have hrest := ih (fun y hy => hl y (List.mem_cons_of_mem _ hy))
        (fun he => h (by rw [he]))
      rw [List.length_cons, Nat.add_one_mul]
      omega
    · next hfull =>
      rw [List.length_nil]
      omega

theorem page_begins (config : Config) (s : State) (key : Key) (after : UInt64) (max : UInt16)
    (now : Nat) : page config s key after max now <+: beyond config s key after now := by
  unfold page fetchAfter beyond
  dsimp only
  rw [List.map_take]
  exact (takeFitting_begins _ _).trans (List.take_prefix _ _)

theorem page_sorted (config : Config) (s : State) (key : Key) (after : UInt64) (max : UInt16)
    (now : Nat) : (page config s key after max now).Pairwise fun a b => a.1 < b.1 :=
  (beyond_sorted config s key after now).sublist (page_begins ..).sublist

theorem mem_page {key : Key} {after : UInt64} {max : UInt16} {x : UInt64 × Bytes}
    (hx : x ∈ page config s key after max now) :
    ∃ t, (x.1, t, x.2) ∈ (s.mailboxes key).live config now ∧ after < x.1 :=
  mem_beyond.mp ((page_begins ..).subset hx)

theorem min_maxFetch : min maxFetch maxFetch = maxFetch := rfl

theorem page_length (key : Key) (after : UInt64) (now : Nat) :
    (page config s key after maxFetch now).length ≤ maxFetch.toNat := by
  unfold page fetchAfter
  dsimp only
  refine (takeFitting_begins _ _).length_le.trans ?_
  rw [List.length_map, List.length_take, min_maxFetch]
  exact Nat.min_le_left _ _

/-- The configuration is one that `serve` takes. -/
theorem Serves.maxMailbox_le (h : Serves config log s) : config.maxMailbox ≤ defaultMaxMailbox := by
  induction h with
  | start hs => exact (serve_ok hs).2.2
  | handled h now request ih => exact ih

/-- The relay stores only envelopes of the allowed size. -/
theorem Serves.small (h : Serves config log s) {key : Key} {x : UInt64 × Nat × Bytes}
    (hx : x ∈ s.mailboxes key) : x.2.2.length ≤ maxEnvelope := by
  induction h with
  | start hs =>
    obtain ⟨rfl, -⟩ := serve_ok hs
    exact absurd hx SortedMap.not_mem_empty
  | @handled log s h now request ih =>
    rcases (handle_step config now request s).mem_cases hx with hold | ⟨hsend, hacc, -⟩
    · exact ih hold
    · by_contra hlarge
      rw [hsend] at hacc
      simp only [handle, if_pos (Nat.lt_of_not_le hlarge)] at hacc
      cases hacc

/-- What a page misses comes after all of it, and then the page is not short. -/
theorem page_misses (h : Serves config log s) {key : Key} {after : UInt64}
    {x : UInt64 × Nat × Bytes} (hx : x ∈ (s.mailboxes key).live config now) (hlt : after < x.1)
    (hmiss : (x.1, x.2.2) ∉ page config s key after maxFetch now) :
    minPage ≤ (page config s key after maxFetch now).length ∧
      ∀ y ∈ page config s key after maxFetch now, y.1 < x.1 := by
  have hb : (x.1, x.2.2) ∈ beyond config s key after now := mem_beyond.mpr ⟨x.2.1, hx, hlt⟩
  refine ⟨?_, fun y hy => ?_⟩
  · have hsmall : ∀ y ∈ (beyond config s key after now).take maxFetch.toNat,
        y.2.length ≤ maxEnvelope := by
      intro y hy
      obtain ⟨t, ht, -⟩ := mem_beyond.mp (List.mem_of_mem_take hy)
      exact h.small (mem_live.mp ht).1
    have hpage : page config s key after maxFetch now =
        takeFitting 3 ((beyond config s key after now).take maxFetch.toNat) := by
      unfold page fetchAfter beyond
      dsimp only
      rw [min_maxFetch, List.map_take]
    rw [hpage] at hmiss ⊢
    by_cases hall : takeFitting 3 ((beyond config s key after now).take maxFetch.toNat) =
        (beyond config s key after now).take maxFetch.toNat
    · -- The frame took all it was offered, so the mailbox has more than the limit.
      rw [hall] at hmiss ⊢
      have hlen : maxFetch.toNat < (beyond config s key after now).length := by
        by_contra hle
        rw [List.take_of_length_le (Nat.le_of_not_lt hle)] at hmiss
        exact hmiss hb
      rw [List.length_take, Nat.min_eq_left hlen.le]
      decide
    · have hfull := takeFitting_full hsmall hall
      simp only [minPage, maxFrame, maxEnvelope] at hfull ⊢
      omega
  · obtain ⟨rest, hrest⟩ := page_begins config s key after maxFetch now
    have hs := beyond_sorted config s key after now
    rw [← hrest] at hs hb
    have hmem := (List.mem_append.mp hb).resolve_left hmiss
    exact (List.pairwise_append.mp hs).2.2 y hy _ hmem

/-! ## Any requests -/

/-- Any requests, at any times, lead from `s` to `s'`. -/
def Moves (config : Config) : State → State → Prop :=
  Relation.ReflTransGen fun s s' => ∃ now request, s' = (handle config now request s).2

theorem Moves.serves (h : Moves config s s') (hs : Serves config log s) :
    ∃ log', Serves config log' s' := by
  induction h with
  | refl => exact ⟨log, hs⟩
  | tail _ hstep ih =>
    obtain ⟨log', h'⟩ := ih
    obtain ⟨now, request, rfl⟩ := hstep
    exact ⟨_, h'.handled now request⟩

theorem Moves.counter_le (h : Moves config s s') : s.nextSeq ≤ s'.nextSeq := by
  induction h with
  | refl => exact le_rfl
  | tail _ hstep ih =>
    obtain ⟨now, request, rfl⟩ := hstep
    exact ih.trans (handle_step config now request _).counter_le

/-- What has an old number was there before. -/
theorem Moves.mem (h : Moves config s s') {key : Key} {x : UInt64 × Nat × Bytes}
    (hx : x ∈ s'.mailboxes key) (hold : x.1 < s.nextSeq) : x ∈ s.mailboxes key := by
  induction h with
  | refl => exact hx
  | @tail b c hmoves hstep ih =>
    obtain ⟨now, request, rfl⟩ := hstep
    rcases (handle_step config now request b).mem_cases hx with hx | ⟨-, -, hn, -⟩
    · exact ih hx
    · have hle := Moves.counter_le hmoves
      exact absurd (hn ▸ hold) (not_lt.mpr hle)

end Relay

end Arcium
