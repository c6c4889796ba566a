import Arcium.Relay.Pages
import Arcium.Relay.Protocol
import Arcium.Base.Cursor

/-!
# Reading a mailbox page by page

A page is the longest beginning of what the mailbox holds past the cursor that has no more envelopes
than were asked for and fits in one frame (`page_longest`). `Fetched` pages, each asked for past the
last number of the one before while the mailbox stays as it is, are its contents without gaps or
repeats (`relay_pages`).
-/

namespace Arcium

namespace Relay

variable {config : Config} {s : State} {log : List Handled} {key : Key} {after : UInt64}
  {max : UInt16} {now : Nat}

/-- `takeFitting` takes as many envelopes as fit in what is left of the frame. -/
theorem takeFitting_longest {size : Nat} (hsize : size ≤ maxFrame) (l : List (UInt64 × Bytes)) :
    LongestPrefix (fun p => size + (p.map fun x => 12 + x.2.length).sum ≤ maxFrame)
      (takeFitting size l) l := by
  induction l generalizing size with
  | nil => exact ⟨List.prefix_refl _, by simpa [takeFitting] using hsize, fun q hq _ => hq⟩
  | cons x l ih =>
    obtain ⟨seq, envelope⟩ := x
    unfold takeFitting
    dsimp only
    split
    · next hfits =>
      obtain ⟨begins, holds, longest⟩ := ih hfits
      refine ⟨List.cons_prefix_cons.mpr ⟨rfl, begins⟩, ?_, fun q hq hP => ?_⟩
      · simp only [List.map_cons, List.sum_cons]
        omega
      · rcases List.prefix_cons_iff.mp hq with rfl | ⟨q, rfl, hq'⟩
        · exact List.nil_prefix
        · simp only [List.map_cons, List.sum_cons] at hP
          exact List.cons_prefix_cons.mpr ⟨rfl, longest q hq' (by omega)⟩
    · next hfull =>
      refine ⟨List.nil_prefix, by simpa using hsize, fun q hq hP => ?_⟩
      rcases List.prefix_cons_iff.mp hq with rfl | ⟨q, rfl, -⟩
      · exact List.nil_prefix
      · simp only [List.map_cons, List.sum_cons] at hP
        omega

theorem page_eq (config : Config) (s : State) (key : Key) (after : UInt64) (max : UInt16) (now : Nat) :
    page config s key after max now =
      takeFitting 3 ((beyond config s key after now).take (min max maxFetch).toNat) := by
  unfold page fetchAfter beyond
  dsimp only
  rw [List.map_take]

theorem toNat_min_maxFetch (max : UInt16) : (min max maxFetch).toNat = min max.toNat 256 := by
  have hmax : maxFetch.toNat = 256 := rfl
  have hmin : min max maxFetch = if max ≤ maxFetch then max else maxFetch := rfl
  rw [hmin]
  split
  · next h => rw [Nat.min_eq_left (hmax ▸ UInt16.le_iff_toNat_le.mp h)]
  · next h =>
    have hlt := UInt16.lt_iff_toNat_lt.mp (UInt16.not_le.mp h)
    rw [hmax, Nat.min_eq_right (hmax ▸ hlt.le)]

/-- A page is what fits in a response. -/
theorem page_longest (config : Config) (s : State) (key : Key) (after : UInt64) (max : UInt16)
    (now : Nat) :
    LongestPrefix
      (fun p => p.length ≤ min max.toNat 256 ∧ (Response.encode (.items p)).length ≤ maxFrame)
      (page config s key after max now) (beyond config s key after now) := by
  have hfits : 3 ≤ maxFrame := by decide
  have h := takeFitting_longest hfits ((beyond config s key after now).take (min max maxFetch).toNat)
  rw [← page_eq, toNat_min_maxFetch] at h
  simpa only [Response.encode_items_length] using h.take

/-- A page that is short of `MIN_PAGE` and of what was asked for is the rest of the mailbox. -/
theorem page_short (h : Serves config log s)
    (hshort : (page config s key after max now).length < min max.toNat minPage) :
    page config s key after max now = beyond config s key after now := by
  have hsmall : ∀ x ∈ (beyond config s key after now).take (min max maxFetch).toNat,
      x.2.length ≤ maxEnvelope := by
    intro x hx
    obtain ⟨t, ht, -⟩ := mem_beyond.mp (List.mem_of_mem_take hx)
    exact h.small (mem_live.mp ht).1
  have hmin : minPage ≤ 256 := by decide
  rw [page_eq] at hshort ⊢
  by_cases hall : takeFitting 3 ((beyond config s key after now).take (min max maxFetch).toNat) =
      (beyond config s key after now).take (min max maxFetch).toNat
  · rw [hall] at hshort ⊢
    rw [List.length_take, toNat_min_maxFetch] at hshort
    refine List.take_of_length_le ?_
    rw [toNat_min_maxFetch]
    omega
  · have hfull := takeFitting_full hsmall hall
    have hlt := hshort.trans_le (Nat.min_le_right _ _)
    simp only [minPage, maxFrame, maxEnvelope] at hfull hlt
    omega

/-! ## While the mailbox is unchanged -/

/-- Pages of `key`, asked for one after another past the last number returned, at times and in states
in which the mailbox holds the same unexpired envelopes. -/
inductive Fetched (config : Config) (key : Key) (max : UInt16) (m : Mailbox) :
    UInt64 → List (List (UInt64 × Bytes)) → UInt64 → Prop
  | nil (cursor : UInt64) : Fetched config key max m cursor [] cursor
  | cons {log : List Handled} {s : State} {now : Nat} {after cursor : UInt64}
      {pages : List (List (UInt64 × Bytes))} (served : Serves config log s)
      (unchanged : (s.mailboxes key).live config now = m)
      (later : Fetched config key max m
        (Cursor.advance Prod.fst after (page config s key after max now)) pages cursor) :
      Fetched config key max m after (page config s key after max now :: pages) cursor

/-- The contents of a mailbox. -/
def contents (m : Mailbox) : List (UInt64 × Bytes) :=
  m.entries.map fun (seq, _, envelope) => (seq, envelope)

theorem contents_sorted (m : Mailbox) : (contents m).Pairwise fun a b => a.1 < b.1 :=
  List.pairwise_map.mpr m.sorted

theorem beyond_eq (config : Config) (s : State) (key : Key) (after : UInt64) (now : Nat) :
    beyond config s key after now =
      Cursor.beyond Prod.fst (contents ((s.mailboxes key).live config now)) after := by
  unfold beyond SortedMap.after Cursor.beyond contents
  rw [List.filter_map]
  rfl

theorem Fetched.pages {m : Mailbox} {pages : List (List (UInt64 × Bytes))} {cursor : UInt64}
    (h : Fetched config key max m after pages cursor) :
    Cursor.Pages Prod.fst (contents m) (min max.toNat minPage) after pages cursor := by
  induction h with
  | nil cursor => exact .nil cursor
  | cons served unchanged later ih =>
    subst unchanged
    refine .cons ?_ (fun hshort => ?_) ih
    · rw [← beyond_eq]
      exact page_begins ..
    · rw [← beyond_eq]
      exact page_short served hshort

/-! ## The pages of a relay -/

/-- What a page is. -/
structure PageExact (config : Config) (s : State) (key : Key) (after : UInt64) (max : UInt16)
    (now : Nat) : Prop where
  answer : (handle config now (.fetchAfter key after max) s).1 =
    .items (page config s key after max now)
  /-- What the mailbox holds past the cursor, unexpired and in order. -/
  sorted : (beyond config s key after now).Pairwise fun a b => a.1 < b.1
  unexpired : ∀ x, x ∈ beyond config s key after now ↔
    ∃ t, (x.1, t, x.2) ∈ s.mailboxes key ∧ now - t < config.ttl ∧ after < x.1
  longest : LongestPrefix
    (fun p => p.length ≤ min max.toNat 256 ∧ (Response.encode (.items p)).length ≤ maxFrame)
    (page config s key after max now) (beyond config s key after now)
  short : (page config s key after max now).length < min max.toNat minPage →
    page config s key after max now = beyond config s key after now

/-- **The pages of a relay are exact**: a page is the longest one that may be sent, is short only at
the end of the mailbox, and the pages of a mailbox that stays as it is are its contents. -/
theorem relay_pages (h : Serves config log s) (key : Key) (after : UInt64) (max : UInt16) (now : Nat) :
    PageExact config s key after max now ∧
    ∀ pages cursor, Fetched config key max ((s.mailboxes key).live config now) after pages cursor →
      pages.flatten ++ beyond config s key cursor now = beyond config s key after now ∧
      (pages.flatten = beyond config s key after now ∨
        min max.toNat minPage * pages.length ≤ pages.flatten.length) := by
  refine ⟨⟨rfl, beyond_sorted .., fun x => ?_, page_longest .., page_short h⟩, fun pages cursor hf => ?_⟩
  · rw [mem_beyond]
    simp only [mem_live, and_assoc]
  · rw [beyond_eq, beyond_eq]
    have hs := contents_sorted ((s.mailboxes key).live config now)
    exact ⟨hf.pages.flatten hs, hf.pages.progress hs⟩

/-- Two envelopes, read one at a time. -/
theorem relay_pages_two : ∃ log s, Serves {} log s ∧ page {} s default 0 1 2 = [(1, [7])] ∧
    page {} s default 1 1 2 = [(2, [8])] ∧ page {} s default 2 1 2 = [] ∧
    PageExact {} s default 0 1 2 := by
  have h₀ : Serves {} [] { nextSeq := 1 } := .start rfl
  have h := (h₀.handled 0 (.send default [7])).handled 1 (.send default [8])
  exact ⟨_, _, h, by decide +kernel, by decide +kernel, by decide +kernel,
    (relay_pages h default 0 1 2).1⟩

end Relay

end Arcium
