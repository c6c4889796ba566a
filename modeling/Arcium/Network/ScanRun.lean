import Arcium.Network.Coverage

/-!
# The runs of the two passes

A run of the logged passes against an honest relay is one of `Pages` for each pass (`scanPagesL_ran`),
unless the processing of an envelope failed. `round_reaches` is what follows: every envelope that stays
in the mailbox until it is reached is processed once, handshakes before messages.
-/

namespace Arcium

open Conc

variable {P : AppPlatform} {α β : Type} {config : Relay.Config}

/-- Where a logged run stands. -/
structure Point (P : AppPlatform) where
  report : SyncReport
  log : List Event
  device : Device P.Key Memory
  relay : Relay.State

/-- A run of a logged part of a round, against an honest relay. -/
def Logged.Ran (config : Relay.Config) (x : Logged P α) (p : Point P) (res : Except CoreError α)
    (tr : List Exchange) (p' : Point P) : Prop :=
  Served config (x.run.run (p.report, p.log)) p.device p.relay (res, p'.report, p'.log) tr p'.device
    p'.relay

namespace Logged.Ran

variable {p p' : Point P} {tr : List Exchange}

theorem of_bind {x : Logged P α} {f : α → Logged P β} {res : Except CoreError β}
    (h : Ran config (x >>= f) p res tr p') :
    (∃ a tr₁ tr₂ p₁, Ran config x p (.ok a) tr₁ p₁ ∧ Ran config (f a) p₁ res tr₂ p' ∧
        tr = tr₁ ++ tr₂) ∨
      ∃ e, Ran config x p (.error e) tr p' ∧ res = .error e := by
  obtain ⟨⟨r, report, log⟩, tr₁, tr₂, s₁, r₁, h1, h2, rfl⟩ := Served.of_bind h
  cases r with
  | ok a => exact .inl ⟨a, tr₁, tr₂, ⟨report, log, s₁, r₁⟩, h1, h2, rfl⟩
  | error e =>
    cases h2 with
    | ret =>
      rw [List.append_nil]
      exact .inr ⟨e, h1, rfl⟩

theorem of_pure {a : α} {res : Except CoreError α} (h : Ran config (pure a : Logged P α) p res tr p') :
    res = .ok a ∧ tr = [] ∧ p' = p := by
  obtain ⟨report', log', device', relay'⟩ := p'
  cases h with
  | ret => exact ⟨rfl, rfl, rfl⟩

theorem of_quiet {x : Round P α} {res : Except CoreError α} (h : Ran config (quiet x) p res tr p') :
    p'.log = p.log ∧ Served config (x.run.run p.report) p.device p.relay (res, p'.report) tr p'.device
      p'.relay := by
  obtain ⟨⟨r, report⟩, tr₁, tr₂, s₁, r₁, h1, h2, rfl⟩ := Served.of_bind h
  obtain ⟨report', log', device', relay'⟩ := p'
  cases h2 with
  | ret =>
    rw [List.append_nil]
    exact ⟨rfl, h1⟩

theorem of_noting {x : Round P α} {event : Except CoreError α → Event} {res : Except CoreError α}
    (h : Ran config (noting event x) p res tr p') :
    p'.log = p.log ++ [event res] ∧
      Served config (x.run.run p.report) p.device p.relay (res, p'.report) tr p'.device p'.relay := by
  obtain ⟨⟨r, report⟩, tr₁, tr₂, s₁, r₁, h1, h2, rfl⟩ := Served.of_bind h
  obtain ⟨report', log', device', relay'⟩ := p'
  cases h2 with
  | ret =>
    rw [List.append_nil]
    exact ⟨rfl, h1⟩

/-- Counting in the report changes nothing else. -/
theorem of_tally {f : SyncReport → SyncReport} {res : Except CoreError Unit}
    (h : Ran config (quiet (Round.tally f) : Logged P Unit) p res tr p') :
    res = .ok () ∧ tr = [] ∧ p'.log = p.log ∧ p'.relay = p.relay := by
  obtain ⟨hlog, h⟩ := of_quiet h
  obtain ⟨report', log', device', relay'⟩ := p'
  cases h with
  | ret => exact ⟨rfl, rfl, hlog, rfl⟩

/-- A request of a round. -/
theorem of_request {request : Request} {view : Answer → α} {event : Except CoreError α → Event}
    {res : Except CoreError α}
    (h : Ran config (noting event (Round.core (Network.request request view))) p res tr p') :
    ∃ x : Exchange, tr = [x] ∧ x.request = request ∧ Relay.Moves config p.relay x.relay ∧
      Replies config x.now request x.relay x.answer p'.relay ∧ p'.log = p.log ++ [event res] ∧
      (x.answer.fault = none → res = .ok (view x.answer)) := by
  obtain ⟨hlog, h⟩ := of_noting h
  obtain ⟨r, tr₁, tr₂, s₁, r₁, h1, h2, rfl⟩ := Served.of_bind h
  obtain ⟨report', log', device', relay'⟩ := p'
  cases h2 with
  | ret =>
    obtain ⟨x, rfl, hreq, hmoves, hans, rfl⟩ := Served.of_ask h1
    refine ⟨x, rfl, hreq, hmoves, hans, hlog, fun hf => ?_⟩
    simp only [hf]

end Logged.Ran

namespace Network

open Logged

variable {our : Peer} {pass : Pass} {until_ : UInt64} {p p' : Point P} {tr : List Exchange}

/-- Processing asks the relay nothing. -/
theorem fateOf_silent {i : Nat} {bytes : Bytes} {report report' : SyncReport}
    {s s' : Device P.Key Memory} {r r' : Relay.State} {res : Except CoreError Fate}
    (h : Served config ((fateOf i (Envelope.decode bytes) : Round P Fate).run.run report) s r
      (res, report') tr s' r') : tr = [] := by
  have hg : InRound (fun _ => True) (fun _ _ => False) (Work s.db (.sync i))
      (Gives fun fate db => Fated s.db db bytes fate)
      (fateOf i (Envelope.decode bytes) : Round P Fate) s.db :=
    fateOf_gives (Db.Le.refl _) (Db.Le.refl _) (show (Call.sync i).Syncs from trivial) i bytes
  exact Served.nothing (hg report [] [] s.mem s.asked rfl) h

/-- The run noted `events`; if one of them fails, so did the run. -/
def Notes (p p' : Point P) (res : Except CoreError α) (events : List Event) (good : α → Prop) : Prop :=
  p'.log = p.log ++ events ∧
    ((∃ e, res = .error e ∧ ∃ event ∈ events, event.fails = true) ∨ ∃ a, res = .ok a ∧ good a)

theorem noteFate_ran {s : Scan} {seq : UInt64} {bytes : Bytes} {fate : Fate}
    {res : Except CoreError Scan} (h : Ran config (quiet (noteFate seq bytes s fate) : Logged P Scan) p res tr p') :
    tr = [] ∧ p'.relay = p.relay ∧ p'.log = p.log ∧
      ∃ s', res = .ok s' ∧ s'.after = s.after ∧ s'.seen = s.seen := by
  obtain ⟨hlog, h⟩ := Ran.of_quiet h
  obtain ⟨report', log', device', relay'⟩ := p'
  cases fate with
  | delete verdict =>
    cases h with
    | ret => exact ⟨rfl, rfl, hlog, _, rfl, rfl, rfl⟩
  | keep =>
    cases h with
    | ret => exact ⟨rfl, rfl, hlog, _, rfl, rfl, rfl⟩

/-- The processing of an envelope that the pass selects. -/
theorem processL_ran {i : Nat} {seq : UInt64} {bytes : Bytes} {s : Scan} {res : Except CoreError Scan}
    (hsel : Pass.selects pass (Envelope.decode bytes) = true)
    (h : Ran config (noting (.processed pass seq bytes) (fateOf i (Envelope.decode bytes)) >>=
      fun fate => quiet (noteFate seq bytes s fate) : Logged P Scan) p res tr p') :
    tr = [] ∧ Relay.Moves config p.relay p'.relay ∧ ∃ events, Notes p p' res events fun s' =>
      s'.after = s.after ∧ s'.seen = s.seen ∧ Visits pass [(seq, bytes)] events := by
  rcases Ran.of_bind h with ⟨fate, tr₁, tr₂, p₁, h1, h2, rfl⟩ | ⟨e, h1, rfl⟩
  · obtain ⟨hlog, hs⟩ := Ran.of_noting h1
    obtain rfl := fateOf_silent hs
    obtain ⟨rfl, hrelay, hlog', s', rfl, hafter, hseen⟩ := noteFate_ran h2
    refine ⟨rfl, hrelay ▸ hs.moves, _, hlog'.trans hlog, .inr ⟨s', rfl, hafter, hseen, ?_⟩⟩
    exact .taken seq bytes fate hsel .nil
  · obtain ⟨hlog, hs⟩ := Ran.of_noting h1
    exact ⟨fateOf_silent hs, hs.moves, _, hlog, .inl ⟨e, rfl, _, List.mem_singleton_self _, rfl⟩⟩

/-- One envelope, once it is counted. -/
theorem selectL_ran {i : Nat} {seq : UInt64} {bytes : Bytes} {s : Scan} {res : Except CoreError Scan}
    (h : Ran config (if !Pass.selects pass (Envelope.decode bytes) then pure s else
      noting (.processed pass seq bytes) (fateOf i (Envelope.decode bytes)) >>=
        fun fate => quiet (noteFate seq bytes s fate) : Logged P Scan) p res tr p') :
    tr = [] ∧ Relay.Moves config p.relay p'.relay ∧ ∃ events, Notes p p' res events fun s' =>
      s'.after = s.after ∧ s'.seen = s.seen ∧ Visits pass [(seq, bytes)] events := by
  by_cases hsel : Pass.selects pass (Envelope.decode bytes) = true
  · rw [if_neg (by simp [hsel])] at h
    exact processL_ran hsel h
  · rw [if_pos (by simpa using hsel)] at h
    obtain ⟨rfl, rfl, rfl⟩ := Ran.of_pure h
    refine ⟨rfl, .refl, [], (List.append_nil _).symm, .inr ⟨s, rfl, rfl, rfl, ?_⟩⟩
    exact .skipped seq bytes (by simpa using hsel) .nil

/-- One envelope. -/
theorem scanEnvelopeL_ran {i : Nat} {seq : UInt64} {bytes : Bytes} {s : Scan}
    {res : Except CoreError Scan}
    (h : Ran config (scanEnvelopeL i pass seq bytes s : Logged P _) p res tr p') :
    tr = [] ∧ Relay.Moves config p.relay p'.relay ∧ ∃ events, Notes p p' res events fun s' =>
      s'.after = seq ∧ s'.seen = s.seen + 1 ∧ Visits pass [(seq, bytes)] events := by
  unfold scanEnvelopeL at h
  dsimp only at h
  split at h
  · rcases Ran.of_bind h with ⟨_, tr₁, tr₂, p₁, h1, h2, rfl⟩ | ⟨e, h1, -⟩
    · obtain ⟨-, rfl, hlog, hrelay⟩ := Ran.of_tally h1
      obtain ⟨rfl, hmoves, events, hlog', hn⟩ := selectL_ran h2
      exact ⟨rfl, hrelay ▸ hmoves, events, hlog ▸ hlog', hn⟩
    · cases (Ran.of_tally h1).1
  · exact selectL_ran h

theorem Visits.append {l l' : List (UInt64 × Bytes)} {events events' : List Event}
    (h : Visits pass l events) (h' : Visits pass l' events') :
    Visits pass (l ++ l') (events ++ events') := by
  induction h with
  | nil => exact h'
  | skipped seq bytes h rest ih => exact .skipped seq bytes h ih
  | taken seq bytes fate h rest ih => exact .taken seq bytes fate h ih

/-- What a pass did with a page that it did not fail on. -/
structure PageDone (pass : Pass) (until_ : UInt64) (items : List (UInt64 × Bytes)) (s : Scan)
    (events : List Event) (s' : Scan) (ended : Bool) (seen rest : List (UInt64 × Bytes)) : Prop where
  items : items = seen ++ rest
  visits : Visits pass seen events
  upTo : ∀ y ∈ seen, y.1 ≤ until_
  after : s'.after = reach s.after seen
  count : s'.seen = s.seen + seen.length
  bound : s'.seen ≤ maxScanEnvelopes
  going : ended = false → rest = [] ∧ s'.seen < maxScanEnvelopes
  ending : ended = true → ((∃ y ∈ seen ++ rest, until_ ≤ y.1) ∧ ∀ y ∈ rest, until_ < y.1) ∨
    s'.seen = maxScanEnvelopes

/-- The envelopes of one page. -/
theorem scanItemsL_ran {i : Nat} {items : List (UInt64 × Bytes)} {s : Scan}
    {res : Except CoreError (Scan × Bool)}
    (h : Ran config (scanItemsL i pass until_ items s : Logged P _) p res tr p')
    (ha : Ascends s.after items) (hs : s.seen < maxScanEnvelopes) :
    tr = [] ∧ Relay.Moves config p.relay p'.relay ∧ ∃ events, Notes p p' res events fun out =>
      ∃ seen rest, PageDone pass until_ items s events out.1 out.2 seen rest := by
  induction items generalizing s p tr with
  | nil =>
    obtain ⟨rfl, rfl, rfl⟩ := Ran.of_pure h
    refine ⟨rfl, .refl, [], (List.append_nil _).symm, .inr ⟨_, rfl, [], [], ?_⟩⟩
    exact ⟨rfl, .nil, fun _ hy => absurd hy List.not_mem_nil, rfl, rfl, hs.le, fun _ => ⟨rfl, hs⟩,
      fun he => absurd he Bool.false_ne_true⟩
  | cons x items ih =>
    obtain ⟨seq, bytes⟩ := x
    unfold scanItemsL at h
    dsimp only at h
    have hfirst : ¬ seq ≤ s.after := not_le.mpr (ha.1 _ List.mem_cons_self)
    rw [if_neg hfirst] at h
    split at h
    · next hpast =>
      -- Past the end of the pass.
      obtain ⟨rfl, rfl, rfl⟩ := Ran.of_pure h
      refine ⟨rfl, .refl, [], (List.append_nil _).symm, .inr ⟨_, rfl, [], (seq, bytes) :: items, ?_⟩⟩
      refine ⟨rfl, .nil, fun _ hy => absurd hy List.not_mem_nil, rfl, rfl, hs.le,
        fun he => absurd he.symm Bool.false_ne_true, fun _ => .inl ?_⟩
      refine ⟨⟨_, List.mem_cons_self, hpast.le⟩, fun y hy => ?_⟩
      rcases List.mem_cons.mp hy with rfl | hy
      · exact hpast
      · exact hpast.trans (ha.tail.1 y hy)
    · next hupto =>
      rcases Ran.of_bind h with ⟨s₁, tr₁, tr₂, p₁, h1, h2, rfl⟩ | ⟨e, h1, rfl⟩
      · obtain ⟨rfl, hmoves, events, hlog, hn⟩ := scanEnvelopeL_ran h1
        rcases hn with ⟨e, he, -⟩ | ⟨s₁', he, hafter, hcount, hv⟩
        · cases he
        obtain rfl := Except.ok.inj he
        have hupto' : seq ≤ until_ := not_lt.mp hupto
        split at h2
        · next hstop =>
          -- At the bound, or at the end.
          obtain ⟨rfl, rfl, rfl⟩ := Ran.of_pure h2
          refine ⟨rfl, hmoves, events, hlog, .inr ⟨_, rfl, [(seq, bytes)], items, ?_⟩⟩
          refine ⟨rfl, hv, by simpa using hupto', hafter, hcount, ?_,
            fun he => absurd he.symm Bool.false_ne_true, fun _ => ?_⟩
          · rw [hcount]
            exact hs
          · rcases hstop with hbound | rfl
            · exact .inr hbound
            · exact .inl ⟨⟨_, List.mem_cons_self, le_rfl⟩, ha.tail.1⟩
        · next hstop =>
          rw [not_or] at hstop
          have hs₁ : s₁.seen < maxScanEnvelopes := by
            have := hstop.1
            omega
          obtain ⟨rfl, hmoves', events', hlog', hn⟩ := ih h2 (hafter ▸ ha.tail) hs₁
          refine ⟨rfl, hmoves.trans hmoves', events ++ events', ?_, ?_⟩
          · rw [hlog', hlog, List.append_assoc]
          · rcases hn with ⟨e, rfl, event, hev, hfail⟩ | ⟨out, rfl, seen, rest, hd⟩
            · exact .inl ⟨e, rfl, event, List.mem_append_right _ hev, hfail⟩
            · refine .inr ⟨out, rfl, (seq, bytes) :: seen, rest, ?_⟩
              refine ⟨?_, hv.append hd.visits, fun y hy => ?_, ?_, ?_, hd.bound, hd.going, fun he => ?_⟩
              · rw [hd.items]
                rfl
              · rcases List.mem_cons.mp hy with rfl | hy
                · exact hupto'
                · exact hd.upTo y hy
              · rw [hd.after, hafter]
                rfl
              · rw [hd.count, hcount, List.length_cons]
                omega
              · rcases hd.ending he with ⟨⟨y, hy, hle⟩, hrest⟩ | hfull
                · exact .inl ⟨⟨y, List.mem_cons_of_mem _ hy, hle⟩, hrest⟩
                · exact .inr hfull
      · obtain ⟨rfl, hmoves, events, hlog, hn⟩ := scanEnvelopeL_ran h1
        rcases hn with ⟨e', he, hfail⟩ | ⟨s₁', he, -⟩
        · cases he
          exact ⟨rfl, hmoves, events, hlog, .inl ⟨e, rfl, hfail⟩⟩
        · cases he

theorem pageOf_eq {after : UInt64} {x : Exchange} {r' : Relay.State}
    (h : Replies config x.now (.fetchAfter our after maxFetch) x.relay x.answer r') :
    x.answer = { items := pageOf config our after x } ∧ r' = afterPage config our after x := h

/-- The pages of a pass. -/
theorem scanPagesL_ran {i : Nat} {n : Nat} {s : Scan} {res : Except CoreError Scan}
    (h : Ran config (scanPagesL i our pass until_ n s : Logged P _) p res tr p')
    (hs : s.seen < maxScanEnvelopes) :
    ∃ events, Notes p p' res events fun s' => ∃ visited,
      Pages config our pass until_ n s.after s.seen p.relay visited events tr p'.relay ∧
        s'.after = reach s.after visited := by
  induction n generalizing s p tr with
  | zero =>
    obtain ⟨rfl, rfl, rfl⟩ := Ran.of_pure h
    exact ⟨[], (List.append_nil _).symm, .inr ⟨s, rfl, [], .budget _ _ _, rfl⟩⟩
  | succ n ih =>
    unfold scanPagesL at h
    dsimp only at h
    rcases Ran.of_bind h with ⟨items, tr₁, tr₂, p₁, h1, h2, rfl⟩ | ⟨e, h1, rfl⟩
    · obtain ⟨x, rfl, -, hmoves, hans, hlog, hres⟩ := Ran.of_request h1
      obtain ⟨hanswer, hrelay⟩ := pageOf_eq hans
      obtain rfl : items = pageOf config our s.after x := by
        rw [hanswer] at hres
        exact Except.ok.inj (hres rfl)
      have hlen : ¬ maxFetch.toNat < (pageOf config our s.after x).length :=
        not_lt.mpr (Relay.page_length our s.after x.now)
      rw [if_neg hlen] at h2
      split at h2
      · next hempty =>
        obtain ⟨rfl, rfl, rfl⟩ := Ran.of_pure h2
        refine ⟨_, hlog, .inr ⟨s, rfl, [], ?_, rfl⟩⟩
        rw [hrelay]
        exact .empty x hmoves (List.isEmpty_iff.mp hempty)
      · rcases Ran.of_bind h2 with ⟨⟨s₁, ended⟩, tr₃, tr₄, p₂, h3, h4, rfl⟩ | ⟨e, h3, rfl⟩
        · obtain ⟨rfl, hmoves', events, hlog', hn⟩ :=
            scanItemsL_ran h3 (pageOf_ascends config our s.after x) hs
          rcases hn with ⟨e, he, -⟩ | ⟨out, he, seen, rest, hd⟩
          · cases he
          obtain rfl := Except.ok.inj he
          have hbound : s.seen + seen.length ≤ maxScanEnvelopes := hd.count ▸ hd.bound
          rw [hrelay] at hmoves'
          split at h4
          · next hstop =>
            obtain ⟨rfl, rfl, rfl⟩ := Ran.of_pure h4
            refine ⟨.fetched pass :: events, ?_, .inr ⟨s₁, rfl, seen, ?_, hd.after⟩⟩
            · rw [hlog', hlog, List.append_assoc]
              rfl
            · refine .last x hmoves hd.items hd.visits hd.upTo hbound ?_ hmoves'
              cases ended with
              | true => exact (hd.ending rfl).imp_right fun hfull => .inl (hd.count ▸ hfull)
              | false =>
                obtain ⟨rfl, -⟩ := hd.going rfl
                have hshort : (pageOf config our s.after x).length < minPage := by simpa using hstop
                rw [hd.items, List.append_nil] at hshort
                exact .inr (.inr ⟨rfl, hshort⟩)
          · next hgo =>
            simp only [Bool.or_eq_true, decide_eq_true_eq, not_or, Bool.not_eq_true, not_lt] at hgo
            obtain ⟨rfl, hlong⟩ := hgo
            obtain ⟨rfl, hroom⟩ := hd.going rfl
            have hitems : pageOf config our s.after x = seen := by
              rw [hd.items, List.append_nil]
            obtain ⟨events', hlog'', hn⟩ := ih h4 hroom
            refine ⟨.fetched pass :: (events ++ events'), ?_, ?_⟩
            · rw [hlog'', hlog', hlog]
              simp
            · rcases hn with ⟨e, rfl, event, hev, hfail⟩ | ⟨s', rfl, visited, hpages, hafter⟩
              · exact .inl ⟨e, rfl, event, List.mem_cons_of_mem _ (List.mem_append_right _ hev), hfail⟩
              · refine .inr ⟨s', rfl, seen ++ visited, ?_, ?_⟩
                · rw [hd.after, hd.count] at hpages
                  exact .more x hmoves hitems hd.visits hd.upTo (hitems ▸ hlong)
                    (hd.count ▸ hroom) hmoves' hpages
                · rw [hafter, hd.after, reach_append]
        · obtain ⟨rfl, hmoves', events, hlog', hn⟩ :=
            scanItemsL_ran h3 (pageOf_ascends config our s.after x) hs
          refine ⟨.fetched pass :: events, ?_, .inl ?_⟩
          · rw [hlog', hlog, List.append_assoc]
            rfl
          · rcases hn with ⟨e', he, event, hev, hfail⟩ | ⟨out, he, -⟩
            · exact ⟨e, rfl, event, List.mem_cons_of_mem _ hev, hfail⟩
            · cases he
    · -- The relay does not refuse a FETCH_AFTER.
      obtain ⟨x, rfl, -, hmoves, hans, hlog, hres⟩ := Ran.of_request h1
      rw [(pageOf_eq hans).1] at hres
      cases hres rfl

/-! ## Passes -/

/-- What a pass did that did not fail: it visited `visited`, and returned the last number. -/
structure PassDone (config : Relay.Config) (our : Peer) (pass : Pass) (until_ : UInt64)
    (r r' : Relay.State) (visited : List (UInt64 × Bytes)) (events : List Event) (tr : List Exchange)
    (reached : Option UInt64) : Prop where
  pages : ∃ events₁ tr₁ r₁, Pages config our pass until_ maxScanPages 0 0 r visited events₁ tr₁ r₁ ∧
    Relay.Moves config r₁ r' ∧ ((events = events₁ ∧ tr = tr₁) ∨
      ∃ x, events = events₁ ++ [.deleted pass] ∧ tr = tr₁ ++ [x])
  reached : reached = if 0 < reach 0 visited then some (reach 0 visited) else none

theorem scanL_ran {i : Nat} {res : Except CoreError (Option UInt64)}
    (h : Ran config (scanL i our pass until_ : Logged P _) p res tr p') :
    ∃ events, Notes p p' res events fun reached => ∃ visited,
      PassDone config our pass until_ p.relay p'.relay visited events tr reached := by
  unfold scanL at h
  rcases Ran.of_bind h with ⟨s, tr₁, tr₂, p₁, h1, h2, rfl⟩ | ⟨e, h1, rfl⟩
  · obtain ⟨events, hlog, hn⟩ := scanPagesL_ran h1 (show 0 < maxScanEnvelopes by decide)
    rcases hn with ⟨e, he, -⟩ | ⟨s', he, visited, hpages, hafter⟩
    · cases he
    obtain rfl := Except.ok.inj he
    dsimp only at h2
    rw [hafter] at h2
    split at h2
    · rcases Ran.of_bind h2 with ⟨_, tr₃, tr₄, p₂, h3, h4, rfl⟩ | ⟨e, h3, rfl⟩
      · obtain ⟨x, rfl, -, hmoves, hans, hlog', -⟩ := Ran.of_request h3
        obtain ⟨rfl, rfl, rfl⟩ := Ran.of_pure h4
        refine ⟨events ++ [.deleted pass], ?_, .inr ⟨_, rfl, visited, ⟨_, tr₁, _, hpages, ?_, ?_⟩, rfl⟩⟩
        · rw [hlog', hlog, List.append_assoc]
        · exact hmoves.trans hans.moves
        · exact .inr ⟨x, rfl, by rw [List.append_nil]⟩
      · -- The relay does not refuse a DELETE.
        obtain ⟨x, rfl, -, hmoves, hans, hlog', hres⟩ := Ran.of_request h3
        have hanswer : x.answer = {} := hans.1
        rw [hanswer] at hres
        cases hres rfl
    · obtain ⟨rfl, rfl, rfl⟩ := Ran.of_pure h2
      refine ⟨events, hlog, .inr ⟨_, rfl, visited, ⟨_, tr₁, _, hpages, .refl, ?_⟩, rfl⟩⟩
      exact .inl ⟨rfl, List.append_nil _⟩
  · obtain ⟨events, hlog, hn⟩ := scanPagesL_ran h1 (show 0 < maxScanEnvelopes by decide)
    rcases hn with ⟨e', he, hfail⟩ | ⟨s', he, -⟩
    · exact ⟨events, hlog, .inl ⟨e, rfl, hfail⟩⟩
    · cases he

namespace PassDone

variable {r r' : Relay.State} {visited : List (UInt64 × Bytes)} {events : List Event}
  {reached : Option UInt64}

theorem processed (h : PassDone config our pass until_ r r' visited events tr reached) :
    processedIn events = visited.filter fun x => Pass.selects pass (Envelope.decode x.2) := by
  obtain ⟨events₁, tr₁, r₁, hp, -, ⟨rfl, -⟩ | ⟨x, rfl, -⟩⟩ := h.pages
  · exact hp.processed
  · rw [← hp.processed, processedIn, List.filterMap_append]
    exact List.append_nil _

theorem noted (h : PassDone config our pass until_ r r' visited events tr reached) :
    ∀ event ∈ events, event.pass = pass ∧ ∀ pass' seq bytes res,
      event = .processed pass' seq bytes res → Pass.selects pass' (Envelope.decode bytes) = true := by
  obtain ⟨events₁, tr₁, r₁, hp, -, hev⟩ := h.pages
  have hpages : ∀ event ∈ events₁, event.pass = pass ∧ ∀ pass' seq bytes res,
      event = .processed pass' seq bytes res → Pass.selects pass' (Envelope.decode bytes) = true := by
    intro event he
    rcases hp.noted event he with rfl | ⟨seq, bytes, fate, rfl, hsel⟩
    · exact ⟨rfl, nofun⟩
    · refine ⟨rfl, fun pass' seq' bytes' res' heq => ?_⟩
      cases heq
      exact hsel
  rcases hev with ⟨rfl, -⟩ | ⟨x, rfl, -⟩
  · exact hpages
  · intro event he
    rcases List.mem_append.mp he with he | he
    · exact hpages event he
    · obtain rfl := List.mem_singleton.mp he
      exact ⟨rfl, nofun⟩

theorem aligned (h : PassDone config our pass until_ r r' visited events tr reached) :
    (events.filter Event.asks).length = tr.length := by
  obtain ⟨events₁, tr₁, r₁, hp, -, ⟨rfl, rfl⟩ | ⟨x, rfl, rfl⟩⟩ := h.pages
  · exact hp.pages.1
  · rw [List.filter_append, List.length_append, List.length_append, hp.pages.1]
    rfl

theorem pages_le (h : PassDone config our pass until_ r r' visited events tr reached) :
    events.countP (Event.isPage pass) ≤ maxScanPages := by
  have hsub : ∀ l : List Event, l.countP (Event.isPage pass) ≤ (l.filter Event.asks).length := by
    intro l
    rw [← List.countP_eq_length_filter]
    refine List.countP_mono_left fun event _ he => ?_
    cases event with
    | fetched pass => rfl
    | deleted pass => rfl
    | processed pass seq bytes r => cases he
  obtain ⟨events₁, tr₁, r₁, hp, -, ⟨rfl, -⟩ | ⟨x, rfl, -⟩⟩ := h.pages
  · exact (hsub _).trans (hp.pages.1.trans_le hp.pages.2)
  · rw [List.countP_append]
    exact (hsub _).trans (hp.pages.1.trans_le hp.pages.2)

theorem ascends (h : PassDone config our pass until_ r r' visited events tr reached) :
    Ascends 0 visited := by
  obtain ⟨events₁, tr₁, r₁, hp, -, -⟩ := h.pages
  exact hp.ascends.1

theorem held (h : PassDone config our pass until_ r r' visited events tr reached) :
    ∀ y ∈ visited, Held config our r r' y := by
  obtain ⟨events₁, tr₁, r₁, hp, hm, -⟩ := h.pages
  exact fun y hy => (hp.held y hy).mono .refl hm

theorem moves (h : PassDone config our pass until_ r r' visited events tr reached) :
    Relay.Moves config r r' := by
  obtain ⟨events₁, tr₁, r₁, hp, hm, -⟩ := h.pages
  exact hp.moves.trans hm

/-- What stays until it is reached is visited. -/
theorem covers {handled : List Relay.Handled} {r₀ : Relay.State} {E : UInt64 × Nat × Bytes}
    (h : PassDone config our pass until_ r r' visited events tr reached)
    (hr₀ : Relay.Serves config handled r₀) (hE : E ∈ r₀.mailboxes our)
    (hm : Relay.Moves config r₀ r) (huntil : E.1 ≤ until_) (hstay : Stays config our E events tr) :
    (E.1, E.2.2) ∈ visited := by
  obtain ⟨events₁, tr₁, r₁, hp, -, hev⟩ := h.pages
  have hstay₁ : Stays config our E events₁ tr₁ := by
    rcases hev with ⟨rfl, rfl⟩ | ⟨x, rfl, rfl⟩
    · exact hstay
    · exact (hstay.append hp.pages.1).1
  have hpos : 0 < E.1 := by
    have := (hr₀.number our E hE).1
    exact lt_of_lt_of_le (by decide) this
  exact hp.covers hr₀ hE hm (ascends_nil 0) (fun _ hy => nomatch hy) rfl rfl hpos huntil (by decide)
    hstay₁

end PassDone

/-! ## Rounds -/

theorem selects_handshakes (x : Option Envelope) :
    Pass.selects .handshakes x = !Pass.selects .messages x := by
  unfold Pass.selects
  split <;> rfl

theorem le_last (n : UInt64) : n ≤ 0xFFFFFFFFFFFFFFFF := by
  have hlt := n.toNat_lt
  refine UInt64.le_iff_toNat_le.mpr (Nat.le_of_lt_succ ?_)
  exact hlt

/-- A number names one envelope, in both passes. -/
theorem Held.unique {handled : List Relay.Handled} {r₀ r₁ r₂ : Relay.State} {y z : UInt64 × Bytes}
    (hr₀ : Relay.Serves config handled r₀) (hy : Held config our r₀ r₁ y)
    (hz : Held config our r₁ r₂ z) (heq : y.1 = z.1) : y = z := by
  obtain ⟨q, hq, hq', t, ht⟩ := hy
  obtain ⟨q₁, hq₁, -, t₁, ht₁⟩ := hz
  obtain ⟨handled', hs⟩ := Relay.Moves.serves hq hr₀
  have hold : z.1 < q.nextSeq := heq ▸ (hs.number our _ ht).2
  have hmem : (z.1, t₁, z.2) ∈ q.mailboxes our := Relay.Moves.mem (hq'.trans hq₁) ht₁ hold
  have hsame := SortedMap.eq_of_mem ht hmem heq
  simp only [Prod.mk.injEq] at hsame
  exact Prod.ext hsame.1 hsame.2.2

/-- What the two passes do, with the relay at `r₀` when they begin: they process each envelope that
stays in the mailbox until then once, and no number twice, handshakes first. -/
structure RoundReaches (config : Relay.Config) (our : Peer) (r₀ : Relay.State) (log : List Event)
    (tr : List Exchange) : Prop where
  once : ∀ E ∈ r₀.mailboxes our, Stays config our E log tr →
    (processedIn log).count (E.1, E.2.2) = 1
  distinct : ((processedIn log).map fun x => x.1).Nodup
  inOrder : log.Pairwise fun a b => b.pass = .handshakes → a.pass = .handshakes
  selected : ∀ pass seq bytes res, .processed pass seq bytes res ∈ log →
    Pass.selects pass (Envelope.decode bytes) = true
  pages : ∀ pass, log.countP (Event.isPage pass) ≤ maxScanPages

namespace PassDone

variable {r r₁ r₂ : Relay.State} {visited visited' : List (UInt64 × Bytes)}
  {events events' : List Event} {tr' : List Exchange} {reached reached' : Option UInt64}

theorem distinct (h : PassDone config our pass until_ r r₁ visited events tr reached) :
    ((processedIn events).map fun x => x.1).Nodup := by
  rw [h.processed]
  exact List.pairwise_map.mpr ((h.ascends.2.imp fun hlt => hlt.ne).sublist List.filter_sublist)

theorem inOrder (h : PassDone config our pass until_ r r₁ visited events tr reached) :
    events.Pairwise fun a b => b.pass = .handshakes → a.pass = .handshakes := by
  refine List.pairwise_of_forall_mem_list fun a ha b hb hpass => ?_
  rw [(h.noted a ha).1, ← hpass, (h.noted b hb).1]

theorem selected (h : PassDone config our pass until_ r r₁ visited events tr reached) (pass' : Pass)
    (seq : UInt64) (bytes : Bytes) (res : Except CoreError Fate)
    (he : .processed pass' seq bytes res ∈ events) :
    Pass.selects pass' (Envelope.decode bytes) = true :=
  (h.noted _ he).2 pass' seq bytes res rfl

theorem otherPages (h : PassDone config our pass until_ r r₁ visited events tr reached) {pass' : Pass}
    (hne : pass' ≠ pass) : events.countP (Event.isPage pass') = 0 := by
  refine List.countP_eq_zero.mpr fun event he => ?_
  have hpass := (h.noted event he).1
  cases event with
  | fetched pass₁ =>
    obtain rfl : pass₁ = pass := hpass
    simpa [Event.isPage] using hne.symm
  | deleted pass₁ => exact Bool.false_ne_true
  | processed pass₁ seq bytes res => exact Bool.false_ne_true

/-- The number a pass returns bounds what it visited. -/
theorem le_reached (h : PassDone config our pass until_ r r₁ visited events tr reached) :
    ∀ y ∈ visited, ∃ n, reached = some n ∧ y.1 ≤ n := by
  intro y hy
  have hle := h.ascends.le_reach.2 y hy
  have hpos : 0 < reach 0 visited := (h.ascends.1 y hy).trans_le hle
  exact ⟨_, by rw [h.reached, if_pos hpos], hle⟩

/-- The first pass alone, when the mailbox has nothing to read. -/
theorem reaches_one {handled : List Relay.Handled} (hr : Relay.Serves config handled r)
    (h : PassDone config our .handshakes 0xFFFFFFFFFFFFFFFF r r₁ visited events tr none) :
    RoundReaches config our r events tr where
  once E hE hstay := by
    have hv := h.covers hr hE .refl (le_last E.1) hstay
    obtain ⟨n, hn, -⟩ := h.le_reached _ hv
    cases hn
  distinct := h.distinct
  inOrder := h.inOrder
  selected := h.selected
  pages pass' := by
    by_cases hp : pass' = .handshakes
    · rw [hp]
      exact h.pages_le
    · rw [h.otherPages hp]
      exact Nat.zero_le _

/-- The two passes. -/
theorem reaches_two {handled : List Relay.Handled} (hr : Relay.Serves config handled r)
    {until' : UInt64}
    (h : PassDone config our .handshakes 0xFFFFFFFFFFFFFFFF r r₁ visited events tr (some until'))
    (h' : PassDone config our .messages until' r₁ r₂ visited' events' tr' reached') :
    RoundReaches config our r (events ++ events') (tr ++ tr') := by
  have hproc : processedIn (events ++ events') = processedIn events ++ processedIn events' :=
    List.filterMap_append
  -- The passes select different envelopes, so none is processed by both.
  have hdistinct : ((processedIn (events ++ events')).map fun x => x.1).Nodup := by
    rw [hproc, List.map_append]
    refine List.nodup_append'.mpr ⟨h.distinct, h'.distinct, fun n hn hn' => ?_⟩
    rw [h.processed] at hn
    rw [h'.processed] at hn'
    obtain ⟨y, hy, rfl⟩ := List.mem_map.mp hn
    obtain ⟨z, hz, heq⟩ := List.mem_map.mp hn'
    obtain ⟨hy, hsel⟩ := List.mem_filter.mp hy
    obtain ⟨hz, hsel'⟩ := List.mem_filter.mp hz
    obtain rfl := Held.unique hr (h.held y hy) (h'.held z hz) heq.symm
    rw [selects_handshakes, hsel'] at hsel
    cases hsel
  refine ⟨fun E hE hstay => ?_, hdistinct, ?_, fun pass' seq bytes res he => ?_, fun pass' => ?_⟩
  · refine List.count_eq_one_of_mem (List.Nodup.of_map _ hdistinct) ?_
    obtain ⟨hstay₁, hrest⟩ := hstay.append h.aligned
    have hv := h.covers hr hE .refl (le_last E.1) hstay₁
    rw [hproc, h.processed, h'.processed, List.mem_append, List.mem_filter, List.mem_filter]
    by_cases hsel : Pass.selects .messages (Envelope.decode E.2.2) = true
    · -- A message: the first pass left it, and the second reaches it.
      obtain ⟨n, hn, hle⟩ := h.le_reached _ hv
      obtain rfl := Option.some.inj hn
      refine .inr ⟨h'.covers hr hE h.moves hle (hrest fun y hy hnum => ?_), hsel⟩
      rw [h.processed] at hy
      obtain ⟨hy, hsel'⟩ := List.mem_filter.mp hy
      have hsame : y = (E.1, E.2.2) := by
        by_contra hne
        have hp : visited.Pairwise fun a b => a.1 ≠ b.1 := h.ascends.2.imp fun hlt => hlt.ne
        have hsymm : Std.Symm fun a b : UInt64 × Bytes => a.1 ≠ b.1 := ⟨fun _ _ h => h.symm⟩
        exact hp.forall hy hv hne hnum
      rw [hsame, selects_handshakes, hsel] at hsel'
      cases hsel'
    · refine .inl ⟨hv, ?_⟩
      rw [selects_handshakes]
      simpa using hsel
  · refine List.pairwise_append.mpr ⟨h.inOrder, h'.inOrder, fun a ha _ _ _ => (h.noted a ha).1⟩
  · rcases List.mem_append.mp he with he | he
    · exact h.selected pass' seq bytes res he
    · exact h'.selected pass' seq bytes res he
  · rw [List.countP_append]
    cases pass' with
    | handshakes =>
      rw [h'.otherPages (by decide), Nat.add_zero]
      exact h.pages_le
    | messages =>
      rw [h.otherPages (by decide), Nat.zero_add]
      exact h'.pages_le

end PassDone

/-- A round reaches the whole mailbox: against an honest relay, if no processing fails, the two passes
end and process each envelope that stays until it is reached once. -/
theorem round_reaches {handled : List Relay.Handled} {i : Nat} {res : Except CoreError Unit}
    (hr : Relay.Serves config handled p.relay) (hlog : p.log = [])
    (h : Ran config (scansL i our : Logged P Unit) p res tr p')
    (hok : ∀ event ∈ p'.log, event.fails = false) :
    res = .ok () ∧ RoundReaches config our p.relay p'.log tr := by
  -- A pass that fails has noted a failure.
  have hgood : ∀ {α : Type} {p₁ p₂ : Point P} {r : Except CoreError α} {events : List Event}
      {good : α → Prop}, Notes p₁ p₂ r events good → (∀ event ∈ events, event ∈ p'.log) →
      ∃ a, r = .ok a ∧ good a := by
    intro α p₁ p₂ r events good hn hsub
    rcases hn.2 with ⟨e, -, event, he, hfail⟩ | hgood
    · rw [hok event (hsub event he)] at hfail
      cases hfail
    · exact hgood
  unfold scansL at h
  rcases Ran.of_bind h with ⟨reached, tr₁, tr₂, p₁, h1, h2, rfl⟩ | ⟨e, h1, rfl⟩
  · obtain ⟨events, hn⟩ := scanL_ran h1
    have hlog₁ : p₁.log = events := by
      rw [hn.1, hlog]
      rfl
    cases reached with
    | none =>
      obtain ⟨rfl, rfl, rfl⟩ := Ran.of_pure h2
      obtain ⟨_, heq, visited, hd⟩ := hgood hn fun event he => hlog₁ ▸ he
      obtain rfl := Except.ok.inj heq
      rw [List.append_nil, hlog₁]
      exact ⟨rfl, hd.reaches_one hr⟩
    | some until' =>
      have hsplit : ∀ {r : Except CoreError (Option UInt64)} {tr : List Exchange} {p₂ : Point P},
          Ran config (scanL i our .messages until' : Logged P _) p₁ r tr p₂ → p₂.log = p'.log →
          ∃ reached', r = .ok reached' ∧ RoundReaches config our p.relay p'.log (tr₁ ++ tr) := by
        intro r tr p₂ h3 hlog₂
        obtain ⟨events', hn'⟩ := scanL_ran h3
        have hall : p'.log = events ++ events' := by
          rw [← hlog₂, hn'.1, hlog₁]
        obtain ⟨_, heq, visited, hd⟩ := hgood hn fun event he => hall ▸ List.mem_append_left _ he
        obtain rfl := Except.ok.inj heq
        obtain ⟨reached', rfl, visited', hd'⟩ :=
          hgood hn' fun event he => hall ▸ List.mem_append_right _ he
        exact ⟨reached', rfl, hall ▸ hd.reaches_two hr hd'⟩
      rcases Ran.of_bind h2 with ⟨_, tr₃, tr₄, p₂, h3, h4, rfl⟩ | ⟨e, h3, rfl⟩
      · obtain ⟨rfl, rfl, rfl⟩ := Ran.of_pure h4
        obtain ⟨_, -, hreach⟩ := hsplit h3 rfl
        exact ⟨rfl, by rwa [List.append_nil]⟩
      · obtain ⟨_, heq, -⟩ := hsplit h3 rfl
        cases heq
  · obtain ⟨events, hn⟩ := scanL_ran h1
    obtain ⟨_, heq, -⟩ := hgood hn fun event he => hn.1 ▸ List.mem_append_right _ he
    cases heq

namespace MixedMailbox

def limits : Relay.Config := { maxMailbox := 4 }

/-- The relay, once it has handled `request`. -/
def after (request : Relay.Request) (r : Relay.State) : Relay.State :=
  (Relay.handle limits 0 request r).2

/-- Of a peer who is no contact. -/
def message : Bytes := (Envelope.message (fill 2) [5]).encode

def handshake : Bytes := (Envelope.handshake (fill 3) [6]).encode

/-- A message, a handshake behind it, and an envelope that does not decode. -/
def relay : Relay.State :=
  after (.send default [1]) (after (.send default handshake) (after (.send default message)
    { nextSeq := 1 }))

def relay₁ : Relay.State := after (.fetchAfter default 0 maxFetch) relay

def relay₂ : Relay.State := after (.delete default [2]) relay₁

/-- Meanwhile another envelope arrives. -/
def relay₃ : Relay.State := after (.send default [9]) relay₂

def relay₄ : Relay.State := after (.fetchAfter default 0 maxFetch) relay₃

def relay₅ : Relay.State := after (.delete default [1, 3]) relay₄

def fetch : Request := .fetchAfter default 0 maxFetch

def deleteHandshake : Request := .delete default [(2, handshake, .unpinned)]

def deleteOthers : Request := .delete default [(1, message, .unpinned), (3, [1], .malformed)]

def page : Choice := { relay := { items := [(1, message), (2, handshake), (3, [1])] } }

def page' : Choice := { relay := { items := [(1, message), (3, [1]), (4, [9])] } }

def begun : Point symbolicApp := ⟨{}, [], ⟨Db.empty, fun _ => {}, []⟩, relay⟩

def final : Point symbolicApp where
  report := { fetched := 3, dropped := 3 }
  log := [.fetched .handshakes, .processed .handshakes 2 handshake (.ok (.delete .unpinned)),
    .deleted .handshakes, .fetched .messages,
    .processed .messages 1 message (.ok (.delete .unpinned)),
    .processed .messages 3 [1] (.ok (.delete .malformed)), .deleted .messages]
  device := { begun.device with
    asked := [(deleteOthers, {}), (fetch, page'.relay), (deleteHandshake, {}), (fetch, page.relay)] }
  relay := relay₅

theorem fetched : Replies limits 0 fetch relay page.relay relay₁ := ⟨by decide +kernel, rfl⟩

theorem deleted : Replies limits 0 deleteHandshake relay₁ {} relay₂ := ⟨by decide +kernel, rfl⟩

theorem fetched' : Replies limits 0 fetch relay₃ page'.relay relay₄ := ⟨by decide +kernel, rfl⟩

theorem deleted' : Replies limits 0 deleteOthers relay₄ {} relay₅ := ⟨by decide +kernel, rfl⟩

theorem arrives : Relay.Moves limits relay₂ relay₃ := .single ⟨0, .send default [9], rfl⟩

theorem ran : Ran limits (scansL 0 default : Logged symbolicApp Unit) begun (.ok ())
    [⟨fetch, 0, relay, page.relay⟩, ⟨deleteHandshake, 0, relay₁, {}⟩, ⟨fetch, 0, relay₃, page'.relay⟩,
      ⟨deleteOthers, 0, relay₄, {}⟩] final := by
  refine .asks page fetch 0 (Db.Le.refl _) .refl rfl fetched ?_
  refine .silent {} (Db.Le.refl _) .refl rfl ?_
  refine .asks {} deleteHandshake 0 (Db.Le.refl _) .refl rfl deleted ?_
  refine .asks page' fetch 0 (Db.Le.refl _) arrives rfl fetched' ?_
  refine .silent {} (Db.Le.refl _) .refl rfl ?_
  refine .asks {} deleteOthers 0 (Db.Le.refl _) .refl rfl deleted' ?_
  exact .ret _ _ _

theorem serves : ∃ handled, Relay.Serves limits handled relay :=
  ⟨_, (((Relay.Serves.start rfl).handled 0 (.send default message)).handled 0
    (.send default handshake)).handled 0 (.send default [1])⟩

end MixedMailbox

/-- A round with a message, a handshake behind it, an envelope that does not decode, and one that
arrives between the passes. -/
theorem round_reaches_mixed : ∃ (p p' : Point symbolicApp) (tr : List Exchange),
    Ran MixedMailbox.limits (scansL 0 default : Logged symbolicApp Unit) p (.ok ()) tr p' ∧
      processedIn p'.log =
        [(2, MixedMailbox.handshake), (1, MixedMailbox.message), (3, [1])] ∧
      RoundReaches MixedMailbox.limits default p.relay p'.log tr := by
  obtain ⟨handled, hs⟩ := MixedMailbox.serves
  exact ⟨_, _, _, MixedMailbox.ran, rfl, (round_reaches hs rfl MixedMailbox.ran (by decide)).2⟩

end Network

end Arcium
