import Arcium.Network.ScanLog

/-!
# A round reaches the whole mailbox

`Pages`: what one pass sees of an honest relay, page by page, while others use the relay. An envelope
that every page finds in the mailbox until it is reached is seen (`Pages.covers`): the envelopes before
it were in the mailbox when the round began, so there are fewer than the bounds of the pass, and a page
that does not reach it is not short.

`round_reaches`: what follows for the two passes of `sync_round`.
-/

namespace Arcium

open Conc

namespace Network

variable {config : Relay.Config} {our : Peer} {pass : Pass} {until_ : UInt64}

/-! ## Envelopes that are visited -/

/-- The last number of a list of envelopes, or `after`. -/
def reach (after : UInt64) : List (UInt64 × Bytes) → UInt64
  | [] => after
  | x :: items => reach x.1 items

theorem reach_append (after : UInt64) (l l' : List (UInt64 × Bytes)) :
    reach after (l ++ l') = reach (reach after l) l' := by
  induction l generalizing after with
  | nil => rfl
  | cons x l ih => exact ih x.1

/-- Envelopes in order, beyond `after`. -/
def Ascends (after : UInt64) (l : List (UInt64 × Bytes)) : Prop :=
  (∀ x ∈ l, after < x.1) ∧ l.Pairwise fun a b => a.1 < b.1

theorem ascends_nil (after : UInt64) : Ascends after [] := ⟨fun _ h => (nomatch h), .nil⟩

theorem Ascends.tail {after : UInt64} {x : UInt64 × Bytes} {l : List (UInt64 × Bytes)}
    (h : Ascends after (x :: l)) : Ascends x.1 l :=
  ⟨(List.pairwise_cons.mp h.2).1, (List.pairwise_cons.mp h.2).2⟩

theorem Ascends.left {after : UInt64} {l l' : List (UInt64 × Bytes)}
    (h : Ascends after (l ++ l')) : Ascends after l :=
  ⟨fun x hx => h.1 x (List.mem_append_left _ hx), (List.pairwise_append.mp h.2).1⟩

theorem Ascends.le_reach {after : UInt64} {l : List (UInt64 × Bytes)} (h : Ascends after l) :
    after ≤ reach after l ∧ ∀ x ∈ l, x.1 ≤ reach after l := by
  induction l generalizing after with
  | nil => exact ⟨le_rfl, fun _ hx => nomatch hx⟩
  | cons y l ih =>
    obtain ⟨hle, hmem⟩ := ih h.tail
    refine ⟨(h.1 y List.mem_cons_self).le.trans hle, fun x hx => ?_⟩
    rcases List.mem_cons.mp hx with rfl | hx
    · exact hle
    · exact hmem x hx

theorem Ascends.append {after : UInt64} {l l' : List (UInt64 × Bytes)} (h : Ascends after l)
    (h' : Ascends (reach after l) l') : Ascends after (l ++ l') := by
  obtain ⟨hle, hmem⟩ := h.le_reach
  refine ⟨fun x hx => ?_, List.pairwise_append.mpr ⟨h.2, h'.2, fun x hx y hy => ?_⟩⟩
  · rcases List.mem_append.mp hx with hx | hx
    · exact h.1 x hx
    · exact hle.trans_lt (h'.1 x hx)
  · exact (hmem x hx).trans_lt (h'.1 y hy)

/-- The last number is below every bound of the list. -/
theorem reach_lt {after bound : UInt64} {l : List (UInt64 × Bytes)} (ha : after < bound)
    (hl : ∀ x ∈ l, x.1 < bound) : reach after l < bound := by
  induction l generalizing after with
  | nil => exact ha
  | cons y l ih =>
    exact ih (hl y List.mem_cons_self) fun x hx => hl x (List.mem_cons_of_mem _ hx)

/-- What a pass notes of envelopes it visits, if no processing fails: those it selects. -/
inductive Visits (pass : Pass) : List (UInt64 × Bytes) → List Event → Prop
  | nil : Visits pass [] []
  | skipped {items : List (UInt64 × Bytes)} {events : List Event} (seq : UInt64) (bytes : Bytes)
      (h : Pass.selects pass (Envelope.decode bytes) = false) (rest : Visits pass items events) :
      Visits pass ((seq, bytes) :: items) events
  | taken {items : List (UInt64 × Bytes)} {events : List Event} (seq : UInt64) (bytes : Bytes)
      (fate : Fate) (h : Pass.selects pass (Envelope.decode bytes) = true)
      (rest : Visits pass items events) :
      Visits pass ((seq, bytes) :: items) (.processed pass seq bytes (.ok fate) :: events)

theorem Visits.processed {items : List (UInt64 × Bytes)} {events : List Event}
    (h : Visits pass items events) :
    processedIn events = items.filter fun x => Pass.selects pass (Envelope.decode x.2) := by
  induction h with
  | nil => rfl
  | skipped seq bytes h rest ih => rw [List.filter_cons_of_neg (by simp [h]), ih]
  | taken seq bytes fate h rest ih =>
    simp only [List.filter_cons, h, if_true, ← ih]
    rfl

/-- Only processing is noted, of envelopes that the pass selects. -/
theorem Visits.noted {items : List (UInt64 × Bytes)} {events : List Event}
    (h : Visits pass items events) : ∀ event ∈ events, ∃ seq bytes fate,
      event = .processed pass seq bytes (.ok fate) ∧
        Pass.selects pass (Envelope.decode bytes) = true := by
  induction h with
  | nil => exact fun _ he => nomatch he
  | skipped seq bytes h rest ih => exact ih
  | taken seq bytes fate h rest ih =>
    intro event he
    rcases List.mem_cons.mp he with rfl | he
    · exact ⟨seq, bytes, fate, rfl, h⟩
    · exact ih event he

/-! ## Passes -/

/-- The envelopes of a page, in answer to `x`. -/
def pageOf (config : Relay.Config) (our : Peer) (after : UInt64) (x : Exchange) :
    List (UInt64 × Bytes) :=
  Relay.page config x.relay our after Relay.maxFetch x.now

/-- The state of the relay after it answered `x`. -/
def afterPage (config : Relay.Config) (our : Peer) (after : UInt64) (x : Exchange) : Relay.State :=
  (Relay.handle config x.now (.fetchAfter our after Relay.maxFetch) x.relay).2

/-- Why a pass ends with a page of which it visits `seen`, and not `rest`: it is past the end, or at
the bound, or the page was short. -/
def Stops (until_ : UInt64) (count : Nat) (seen rest : List (UInt64 × Bytes)) : Prop :=
  ((∃ y ∈ seen ++ rest, until_ ≤ y.1) ∧ ∀ y ∈ rest, until_ < y.1) ∨
    count + seen.length = maxScanEnvelopes ∨ (rest = [] ∧ seen.length < minPage)

/-- `Pages … n after count r visited events tr r'`: with the relay at `r`, a pass that has visited
`count` envelopes up to number `after`, and may fetch `n` more pages, visits `visited` and leaves the
relay at `r'`. -/
inductive Pages (config : Relay.Config) (our : Peer) (pass : Pass) (until_ : UInt64) :
    Nat → UInt64 → Nat → Relay.State → List (UInt64 × Bytes) → List Event → List Exchange →
      Relay.State → Prop
  | budget (after : UInt64) (count : Nat) (r : Relay.State) :
      Pages config our pass until_ 0 after count r [] [] [] r
  | empty {n : Nat} {after : UInt64} {count : Nat} {r : Relay.State} (x : Exchange)
      (moved : Relay.Moves config r x.relay) (none : pageOf config our after x = []) :
      Pages config our pass until_ (n + 1) after count r [] [.fetched pass] [x]
        (afterPage config our after x)
  | last {n : Nat} {after : UInt64} {count : Nat} {r r' : Relay.State}
      {seen rest : List (UInt64 × Bytes)} {events : List Event} (x : Exchange)
      (moved : Relay.Moves config r x.relay) (page : pageOf config our after x = seen ++ rest)
      (visits : Visits pass seen events) (upTo : ∀ y ∈ seen, y.1 ≤ until_)
      (bound : count + seen.length ≤ maxScanEnvelopes) (stops : Stops until_ count seen rest)
      (moved' : Relay.Moves config (afterPage config our after x) r') :
      Pages config our pass until_ (n + 1) after count r seen (.fetched pass :: events) [x] r'
  | more {n : Nat} {after : UInt64} {count : Nat} {r r₁ r' : Relay.State}
      {seen visited : List (UInt64 × Bytes)} {events events' : List Event} {tr : List Exchange}
      (x : Exchange) (moved : Relay.Moves config r x.relay)
      (page : pageOf config our after x = seen) (visits : Visits pass seen events)
      (upTo : ∀ y ∈ seen, y.1 ≤ until_) (long : minPage ≤ seen.length)
      (bound : count + seen.length < maxScanEnvelopes)
      (moved' : Relay.Moves config (afterPage config our after x) r₁)
      (rest : Pages config our pass until_ n (reach after seen) (count + seen.length) r₁ visited
        events' tr r') :
      Pages config our pass until_ (n + 1) after count r (seen ++ visited)
        (.fetched pass :: (events ++ events')) (x :: tr) r'

theorem afterPage_moves (after : UInt64) (x : Exchange) :
    Relay.Moves config x.relay (afterPage config our after x) :=
  .single ⟨_, _, rfl⟩

theorem pageOf_ascends (config : Relay.Config) (our : Peer) (after : UInt64) (x : Exchange) :
    Ascends after (pageOf config our after x) :=
  ⟨fun _ hy => (Relay.mem_page hy).choose_spec.2, Relay.page_sorted ..⟩

/-- An envelope was in the mailbox at some time from `r` to `r'`. -/
def Held (config : Relay.Config) (our : Peer) (r r' : Relay.State) (y : UInt64 × Bytes) : Prop :=
  ∃ q, Relay.Moves config r q ∧ Relay.Moves config q r' ∧ ∃ t, (y.1, t, y.2) ∈ q.mailboxes our

theorem Held.mono {r₀ r r' r'' : Relay.State} {y : UInt64 × Bytes} (h : Held config our r r' y)
    (h₀ : Relay.Moves config r₀ r) (h₁ : Relay.Moves config r' r'') : Held config our r₀ r'' y := by
  obtain ⟨q, hq, hq', hy⟩ := h
  exact ⟨q, h₀.trans hq, hq'.trans h₁, hy⟩

theorem pageOf_held {after : UInt64} {x : Exchange} {r r' : Relay.State}
    (h : Relay.Moves config r x.relay) (h' : Relay.Moves config (afterPage config our after x) r')
    {y : UInt64 × Bytes} (hy : y ∈ pageOf config our after x) : Held config our r r' y := by
  obtain ⟨t, ht, -⟩ := Relay.mem_page hy
  exact ⟨x.relay, h, (afterPage_moves after x).trans h', t, (Relay.mem_live.mp ht).1⟩

namespace Pages

variable {n count : Nat} {after : UInt64} {r r' : Relay.State} {visited : List (UInt64 × Bytes)}
  {events : List Event} {tr : List Exchange}

theorem moves (h : Pages config our pass until_ n after count r visited events tr r') :
    Relay.Moves config r r' := by
  induction h with
  | budget after count r => exact .refl
  | empty x moved none => exact moved.trans (afterPage_moves _ x)
  | last x moved page visits upTo bound stops moved' =>
    exact moved.trans ((afterPage_moves _ x).trans moved')
  | more x moved page visits upTo long bound moved' rest ih =>
    exact moved.trans ((afterPage_moves _ x).trans (moved'.trans ih))

/-- A pass goes forward, up to its end. -/
theorem ascends (h : Pages config our pass until_ n after count r visited events tr r') :
    Ascends after visited ∧ ∀ y ∈ visited, y.1 ≤ until_ := by
  induction h with
  | budget after count r => exact ⟨ascends_nil _, fun _ hy => (nomatch hy)⟩
  | empty x moved none => exact ⟨ascends_nil _, fun _ hy => (nomatch hy)⟩
  | @last n after count r r' seen rest events x moved page visits upTo bound stops moved' =>
    have ha := pageOf_ascends config our after x
    rw [page] at ha
    exact ⟨ha.left, upTo⟩
  | @more n after count r r₁ r' seen visited events events' tr x moved page visits upTo long bound
      moved' rest ih =>
    have ha := pageOf_ascends config our after x
    rw [page] at ha
    refine ⟨ha.append ih.1, fun y hy => ?_⟩
    rcases List.mem_append.mp hy with hy | hy
    · exact upTo y hy
    · exact ih.2 y hy

theorem held (h : Pages config our pass until_ n after count r visited events tr r') :
    ∀ y ∈ visited, Held config our r r' y := by
  induction h with
  | budget after count r => exact fun _ hy => nomatch hy
  | empty x moved none => exact fun _ hy => nomatch hy
  | last x moved page visits upTo bound stops moved' =>
    exact fun y hy => pageOf_held moved moved' (page ▸ List.mem_append_left _ hy)
  | more x moved page visits upTo long bound moved' rest ih =>
    intro y hy
    rcases List.mem_append.mp hy with hy | hy
    · exact pageOf_held moved (moved'.trans rest.moves) (page ▸ hy)
    · exact (ih y hy).mono (moved.trans ((afterPage_moves _ x).trans moved')) .refl

/-- What a pass processes is what it selects of what it visits. -/
theorem processed (h : Pages config our pass until_ n after count r visited events tr r') :
    processedIn events = visited.filter fun x => Pass.selects pass (Envelope.decode x.2) := by
  induction h with
  | budget after count r => rfl
  | empty x moved none => rfl
  | last x moved page visits upTo bound stops moved' => exact visits.processed
  | more x moved page visits upTo long bound moved' rest ih =>
    rw [List.filter_append, ← ih, ← visits.processed]
    exact List.filterMap_append

/-- What a pass notes. -/
theorem noted (h : Pages config our pass until_ n after count r visited events tr r') :
    ∀ event ∈ events, event = .fetched pass ∨ ∃ seq bytes fate,
      event = .processed pass seq bytes (.ok fate) ∧
        Pass.selects pass (Envelope.decode bytes) = true := by
  induction h with
  | budget after count r => exact fun _ he => nomatch he
  | empty x moved none => exact fun event he => .inl (List.mem_singleton.mp he)
  | last x moved page visits upTo bound stops moved' =>
    intro event he
    rcases List.mem_cons.mp he with rfl | he
    · exact .inl rfl
    · exact .inr (visits.noted event he)
  | more x moved page visits upTo long bound moved' rest ih =>
    intro event he
    rcases List.mem_cons.mp he with rfl | he
    · exact .inl rfl
    · rcases List.mem_append.mp he with he | he
      · exact .inr (visits.noted event he)
      · exact ih event he

/-- Processing does not ask the relay. -/
theorem visits_asks {seen : List (UInt64 × Bytes)} (h : Visits pass seen events) :
    events.filter Event.asks = [] := by
  refine List.filter_eq_nil_iff.mpr fun event he => ?_
  obtain ⟨seq, bytes, fate, rfl, -⟩ := h.noted event he
  simp [Event.asks]

/-- Each exchange of a pass is a page, and there are at most `n`. -/
theorem pages (h : Pages config our pass until_ n after count r visited events tr r') :
    (events.filter Event.asks).length = tr.length ∧ tr.length ≤ n := by
  induction h with
  | budget after count r => exact ⟨rfl, Nat.le_refl _⟩
  | empty x moved none => exact ⟨rfl, Nat.succ_le_succ (Nat.zero_le _)⟩
  | last x moved page visits upTo bound stops moved' =>
    refine ⟨?_, Nat.succ_le_succ (Nat.zero_le _)⟩
    rw [List.filter_cons_of_pos rfl, visits_asks visits]
    rfl
  | more x moved page visits upTo long bound moved' rest ih =>
    refine ⟨?_, Nat.succ_le_succ ih.2⟩
    rw [List.filter_cons_of_pos rfl, List.filter_append, visits_asks visits, List.nil_append,
      List.length_cons, ih.1, List.length_cons]

end Pages

/-! ## Coverage -/

/-- Until the log has `E` processed, each page found it in the mailbox. -/
def Stays (config : Relay.Config) (our : Peer) (E : UInt64 × Nat × Bytes) :
    List Event → List Exchange → Prop
  | .fetched _ :: log, x :: tr =>
    E ∈ (x.relay.mailboxes our).live config x.now ∧ Stays config our E log tr
  | .processed _ seq _ _ :: log, tr => seq = E.1 ∨ Stays config our E log tr
  | .deleted _ :: log, _ :: tr => Stays config our E log tr
  | _, _ => True

theorem Stays.after_visits {E : UInt64 × Nat × Bytes} {seen : List (UInt64 × Bytes)}
    {events log : List Event} {tr : List Exchange} (hv : Visits pass seen events)
    (hne : ∀ y ∈ seen, y.1 ≠ E.1) (h : Stays config our E (events ++ log) tr) :
    Stays config our E log tr := by
  induction hv with
  | nil => exact h
  | skipped seq bytes hs rest ih => exact ih (fun y hy => hne y (List.mem_cons_of_mem _ hy)) h
  | taken seq bytes fate hs rest ih =>
    rcases h with h | h
    · exact absurd h (hne _ List.mem_cons_self)
    · exact ih (fun y hy => hne y (List.mem_cons_of_mem _ hy)) h

theorem Stays.append {E : UInt64 × Nat × Bytes} {log log' : List Event} {tr tr' : List Exchange}
    (hlen : (log.filter Event.asks).length = tr.length)
    (h : Stays config our E (log ++ log') (tr ++ tr')) :
    Stays config our E log tr ∧
      ((∀ y ∈ processedIn log, y.1 ≠ E.1) → Stays config our E log' tr') := by
  induction log generalizing tr with
  | nil =>
    obtain rfl : tr = [] := List.length_eq_zero_iff.mp hlen.symm
    exact ⟨trivial, fun _ => h⟩
  | cons event log ih =>
    cases event with
    | fetched pass =>
      cases tr with
      | nil => cases hlen
      | cons x tr =>
        obtain ⟨hs, hrest⟩ := ih (Nat.succ.inj hlen) h.2
        exact ⟨⟨h.1, hs⟩, hrest⟩
    | deleted pass =>
      cases tr with
      | nil => cases hlen
      | cons x tr => exact ih (Nat.succ.inj hlen) h
    | processed pass seq bytes r =>
      rcases h with h | h
      · exact ⟨.inl h, fun hne => absurd h (hne (seq, bytes) List.mem_cons_self)⟩
      · obtain ⟨hs, hrest⟩ := ih hlen h
        exact ⟨.inr hs, fun hne => hrest fun y hy => hne y (List.mem_cons_of_mem _ hy)⟩

section Coverage

variable {handled : List Relay.Handled} {r₀ : Relay.State} {E : UInt64 × Nat × Bytes}

/-- There are fewer envelopes before `E` than a pass may visit: they were all in the mailbox when `E`
was. -/
theorem length_before (hr₀ : Relay.Serves config handled r₀) (hE : E ∈ r₀.mailboxes our)
    {r : Relay.State} {l : List (UInt64 × Bytes)} (hs : l.Pairwise fun a b => a.1 < b.1)
    (hl : ∀ y ∈ l, Held config our r₀ r y ∧ y.1 < E.1) : l.length < maxScanEnvelopes := by
  have hnodup : (E.1 :: l.map fun y => y.1).Nodup := by
    refine List.nodup_cons.mpr ⟨fun hmem => ?_, ?_⟩
    · obtain ⟨y, hy, he⟩ := List.mem_map.mp hmem
      exact (hl y hy).2.ne he
    · exact List.pairwise_map.mpr (hs.imp fun h => h.ne)
  have hsub : (E.1 :: l.map fun y => y.1) ⊆ (r₀.mailboxes our).entries.map fun x => x.1 := by
    intro n hn
    rcases List.mem_cons.mp hn with rfl | hn
    · exact List.mem_map_of_mem hE
    · obtain ⟨y, hy, rfl⟩ := List.mem_map.mp hn
      obtain ⟨⟨q, hq, -, t, ht⟩, hlt⟩ := hl y hy
      have hold : y.1 < r₀.nextSeq := hlt.trans (hr₀.number our E hE).2
      exact List.mem_map_of_mem (hq.mem ht hold)
  have hle := (List.subperm_of_subset hnodup hsub).length_le
  simp only [List.length_cons, List.length_map] at hle
  calc l.length < (r₀.mailboxes our).len := hle
    _ ≤ config.maxMailbox := hr₀.bounded our
    _ ≤ maxScanEnvelopes := hr₀.maxMailbox_le

/-- What stays in the mailbox until it is reached is reached. -/
theorem Pages.covers (hr₀ : Relay.Serves config handled r₀) (hE : E ∈ r₀.mailboxes our)
    {n count : Nat} {after : UInt64} {r r' : Relay.State} {before visited : List (UInt64 × Bytes)}
    {events : List Event} {tr : List Exchange}
    (h : Pages config our pass until_ n after count r visited events tr r')
    (hm : Relay.Moves config r₀ r) (hb : Ascends 0 before)
    (hheld : ∀ y ∈ before, Held config our r₀ r y) (hafter : reach 0 before = after)
    (hcount : before.length = count) (hlt : after < E.1) (huntil : E.1 ≤ until_)
    (hbudget : maxScanEnvelopes ≤ count + minPage * n) (hstay : Stays config our E events tr) :
    (E.1, E.2.2) ∈ visited := by
  -- All visited so far come before `E`.
  have hbefore : ∀ {b : List (UInt64 × Bytes)} {r : Relay.State}, Ascends 0 b →
      (∀ y ∈ b, Held config our r₀ r y) → reach 0 b < E.1 → b.length < maxScanEnvelopes :=
    fun hb hheld hlt => length_before hr₀ hE hb.2 fun y hy =>
      ⟨hheld y hy, (hb.le_reach.2 y hy).trans_lt hlt⟩
  induction h generalizing before with
  | budget after count r =>
    subst hafter hcount
    exact absurd (hbefore hb hheld hlt) (by omega)
  | @empty n after count r x moved none =>
    obtain ⟨hin, -⟩ := hstay
    obtain ⟨log', hx⟩ := Relay.Moves.serves (hm.trans moved) hr₀
    have hmiss : (E.1, E.2.2) ∉ pageOf config our after x := by
      rw [none]
      exact List.not_mem_nil
    have hlong : minPage ≤ (pageOf config our after x).length :=
      (Relay.page_misses hx hin hlt hmiss).1
    rw [none] at hlong
    exact absurd hlong (by decide)
  | @last n after count r r' seen rest events x moved page visits upTo bound stops moved' =>
    obtain ⟨hin, hstay⟩ := hstay
    obtain ⟨log', hx⟩ := Relay.Moves.serves (hm.trans moved) hr₀
    have ha := pageOf_ascends config our after x
    -- The bound of the pass is not reached before `E`.
    have hroom : (∀ y ∈ seen, y.1 < E.1) → count + seen.length < maxScanEnvelopes := by
      intro hseen
      subst hafter hcount
      rw [page] at ha
      have hb' := hb.append ha.left
      rw [← List.length_append]
      refine hbefore (r := r') hb' (fun y hy => ?_) ?_
      · rcases List.mem_append.mp hy with hy | hy
        · exact (hheld y hy).mono .refl
            (moved.trans ((afterPage_moves _ x).trans moved'))
        · exact (pageOf_held moved moved' (page ▸ List.mem_append_left _ hy)).mono hm .refl
      · rw [reach_append]
        exact reach_lt hlt hseen
    by_cases hpage : (E.1, E.2.2) ∈ pageOf config our after x
    · rw [page] at hpage ha
      rcases List.mem_append.mp hpage with hseen | hrest
      · exact hseen
      · rcases stops with ⟨-, hpast⟩ | hfull | ⟨hnil, -⟩
        · exact absurd huntil (not_le.mpr (hpast _ hrest))
        · have := hroom fun y hy => (List.pairwise_append.mp ha.2).2.2 y hy _ hrest
          omega
        · rw [hnil] at hrest
          cases hrest
    · obtain ⟨hlong, hall⟩ := Relay.page_misses hx hin hlt hpage
      have hall' : ∀ y ∈ seen ++ rest, y.1 < E.1 :=
        fun y hy => hall y (page.symm ▸ hy : y ∈ pageOf config our after x)
      rcases stops with ⟨⟨y, hy, hpast⟩, -⟩ | hfull | ⟨rfl, hshort⟩
      · exact absurd ((hall' y hy).trans_le huntil) (not_lt.mpr hpast)
      · have := hroom fun y hy => hall' y (List.mem_append_left _ hy)
        omega
      · have hlen : (pageOf config our after x).length = seen.length := by simp [page]
        have hlong' : minPage ≤ (pageOf config our after x).length := hlong
        omega
  | @more n after count r r₁ r' seen visited events events' tr x moved page visits upTo long bound
      moved' rest ih =>
    obtain ⟨hin, hstay⟩ := hstay
    obtain ⟨log', hx⟩ := Relay.Moves.serves (hm.trans moved) hr₀
    by_cases hpage : (E.1, E.2.2) ∈ pageOf config our after x
    · exact List.mem_append_left _ (page ▸ hpage)
    · have hall : ∀ y ∈ seen, y.1 < E.1 :=
        fun y hy => (Relay.page_misses hx hin hlt hpage).2 y (page ▸ hy : y ∈ pageOf config our after x)
      have ha := pageOf_ascends config our after x
      rw [page] at ha
      have hm₁ : Relay.Moves config r r₁ := moved.trans ((afterPage_moves _ x).trans moved')
      subst hafter hcount
      refine List.mem_append_right _ (ih (hm.trans hm₁) (hb.append ha) (fun y hy => ?_)
        (reach_append _ _ _) (by rw [List.length_append]) (reach_lt hlt hall) ?_
        (Stays.after_visits visits (fun y hy => (hall y hy).ne) hstay))
      · rcases List.mem_append.mp hy with hy | hy
        · exact (hheld y hy).mono .refl hm₁
        · exact (pageOf_held moved moved' (page ▸ hy)).mono hm .refl
      · rw [Nat.mul_add_one] at hbudget
        omega

end Coverage

end Network

end Arcium
