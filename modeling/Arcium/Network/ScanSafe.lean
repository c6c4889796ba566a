import Arcium.Network.Coverage

/-!
# A pass over the mailbox of any relay

`Told p s a tr s'`: `p` ran from `s` to `a` and `s'`, and its requests were answered in any way (`tr`
lists them with the answers). `scan_safe`: what a pass does then. It asks for a bounded number of pages,
considers a beginning of what they hold, in order and up to a bound, and asks for the deletion of
exactly those that it processed with the fate `Delete`, once, at the end.
-/

namespace Arcium

open Conc

variable {K M α β : Type}

/-- A run of `p` whose requests are answered in any way (module doc). Between two actions other programs
may work on the device. -/
inductive Told :
    Prog Choice (Device K M) α → Device K M → α → List (Request × Answer) → Device K M → Prop
  | ret (a : α) (s : Device K M) : Told (.ret a) s a [] s
  | silent {upd : Choice → Device K M → Device K M}
      {next : Choice → Device K M → Prog Choice (Device K M) α} {s s₁ s' : Device K M} {a : α}
      {tr : List (Request × Answer)} (e : Choice) (device : s.db.Le s₁.db)
      (asked : (upd e s₁).asked = s₁.asked) (rest : Told (next e s₁) (upd e s₁) a tr s') :
      Told (.act upd next) s a tr s'
  | asks {upd : Choice → Device K M → Device K M}
      {next : Choice → Device K M → Prog Choice (Device K M) α} {s s₁ s' : Device K M} {a : α}
      {tr : List (Request × Answer)} (e : Choice) (request : Request) (device : s.db.Le s₁.db)
      (asked : (upd e s₁).asked = (request, e.relay) :: s₁.asked)
      (rest : Told (next e s₁) (upd e s₁) a tr s') :
      Told (.act upd next) s a ((request, e.relay) :: tr) s'

namespace Told

variable {s s' : Device K M} {tr : List (Request × Answer)}

theorem of_bind {p : Prog Choice (Device K M) α} {f : α → Prog Choice (Device K M) β} {b : β}
    (h : Told (p.bind f) s b tr s') :
    ∃ a tr₁ tr₂ s₁, Told p s a tr₁ s₁ ∧ Told (f a) s₁ b tr₂ s' ∧ tr = tr₁ ++ tr₂ := by
  induction p generalizing s tr with
  | ret a => exact ⟨a, [], tr, s, .ret a s, h, rfl⟩
  | act upd next ih =>
    cases h with
    | silent e device asked rest =>
      obtain ⟨a, tr₁, tr₂, s₁, h1, h2, rfl⟩ := ih e _ rest
      exact ⟨a, tr₁, tr₂, s₁, .silent e device asked h1, h2, rfl⟩
    | asks e request device asked rest =>
      obtain ⟨a, tr₁, tr₂, s₁, h1, h2, rfl⟩ := ih e _ rest
      exact ⟨a, _, tr₂, s₁, .asks e request device asked h1, h2, rfl⟩

/-- A program that may ask nothing asks nothing. -/
theorem nothing {p : Prog Choice (Device K M) α} {a : α} {T : Db K → Rows K → Prop}
    {Q : α → List (Device K M × Device K M) → Device K M → Prop}
    {t : List (Device K M × Device K M)}
    (hp : Prog.WP (fun s s' : Device K M => s.db.Le s'.db) (fun _ => True)
      (Acts (fun _ _ => False) T) Q p t s) (h : Told p s a tr s') : tr = [] := by
  induction h generalizing t with
  | ret a s => rfl
  | silent e device asked rest ih => exact ih (hp _ device trivial e).2
  | asks e request device asked rest ih =>
    rcases (hp _ device trivial e).1.asks with hsame | ⟨x, hx, -⟩
    · rw [asked] at hsame
      simp at hsame
    · exact hx.elim

/-- One action that asks. -/
theorem of_ask {err : Type} {request : Request} {view : Answer → Except err α} {a : Except err α}
    (h : Told (ask request view : Run K M err α).run s a tr s') :
    ∃ answer, tr = [(request, answer)] ∧ a = view answer := by
  cases h with
  | silent e device asked rest => simp at asked
  | asks e request' device asked rest =>
    simp only [List.cons.injEq, Prod.mk.injEq, and_true] at asked
    obtain rfl := asked
    cases rest with
    | ret => exact ⟨_, rfl, rfl⟩

end Told

namespace Logged

variable {P : AppPlatform} {log log' : List Event} {tr : List (Request × Answer)}

/-- A run of a logged part of a round, from the log `log` to `log'`. -/
def Yields (x : Logged P α) (log : List Event) (res : Except CoreError α)
    (tr : List (Request × Answer)) (log' : List Event) : Prop :=
  ∃ report s report' s', Told (x.run.run (report, log)) s (res, report', log') tr s'

namespace Yields

theorem of_bind {x : Logged P α} {f : α → Logged P β} {res : Except CoreError β}
    (h : Yields (x >>= f) log res tr log') :
    (∃ a tr₁ tr₂ log₁, Yields x log (.ok a) tr₁ log₁ ∧ Yields (f a) log₁ res tr₂ log' ∧
        tr = tr₁ ++ tr₂) ∨
      ∃ e, Yields x log (.error e) tr log' ∧ res = .error e := by
  obtain ⟨report, s, report', s', h⟩ := h
  obtain ⟨⟨r, report₁, log₁⟩, tr₁, tr₂, s₁, h1, h2, rfl⟩ := Told.of_bind h
  cases r with
  | ok a => exact .inl ⟨a, tr₁, tr₂, log₁, ⟨_, _, _, _, h1⟩, ⟨_, _, _, _, h2⟩, rfl⟩
  | error e =>
    cases h2 with
    | ret =>
      rw [List.append_nil]
      exact .inr ⟨e, ⟨_, _, _, _, h1⟩, rfl⟩

theorem of_pure {a : α} {res : Except CoreError α} (h : Yields (pure a : Logged P α) log res tr log') :
    res = .ok a ∧ tr = [] ∧ log' = log := by
  obtain ⟨report, s, report', s', h⟩ := h
  cases h with
  | ret => exact ⟨rfl, rfl, rfl⟩

theorem of_throw {e : CoreError} {res : Except CoreError α}
    (h : Yields (MonadExcept.throw e : Logged P α) log res tr log') :
    res = .error e ∧ tr = [] ∧ log' = log := by
  obtain ⟨report, s, report', s', h⟩ := h
  cases h with
  | ret => exact ⟨rfl, rfl, rfl⟩

theorem of_quiet {x : Round P α} {res : Except CoreError α} (h : Yields (quiet x) log res tr log') :
    log' = log ∧ ∃ report s report' s', Told (x.run.run report) s (res, report') tr s' := by
  obtain ⟨report, s, report', s', h⟩ := h
  obtain ⟨⟨r, report₁⟩, tr₁, tr₂, s₁, h1, h2, rfl⟩ := Told.of_bind h
  cases h2 with
  | ret =>
    rw [List.append_nil]
    exact ⟨rfl, _, _, _, _, h1⟩

theorem of_noting {x : Round P α} {event : Except CoreError α → Event} {res : Except CoreError α}
    (h : Yields (noting event x) log res tr log') :
    log' = log ++ [event res] ∧
      ∃ report s report' s', Told (x.run.run report) s (res, report') tr s' := by
  obtain ⟨report, s, report', s', h⟩ := h
  obtain ⟨⟨r, report₁⟩, tr₁, tr₂, s₁, h1, h2, rfl⟩ := Told.of_bind h
  cases h2 with
  | ret =>
    rw [List.append_nil]
    exact ⟨rfl, _, _, _, _, h1⟩

/-- Counting in the report changes nothing else. -/
theorem of_tally {f : SyncReport → SyncReport} {res : Except CoreError Unit}
    (h : Yields (quiet (Round.tally f) : Logged P Unit) log res tr log') :
    res = .ok () ∧ tr = [] ∧ log' = log := by
  obtain ⟨hlog, report, s, report', s', h⟩ := of_quiet h
  cases h with
  | ret => exact ⟨rfl, rfl, hlog⟩

/-- A request of a round. -/
theorem of_request {request : Request} {view : Answer → α} {event : Except CoreError α → Event}
    {res : Except CoreError α}
    (h : Yields (P := P) (noting event (Round.core (Network.request request view))) log res tr log') :
    log' = log ++ [event res] ∧ ∃ answer, tr = [(request, answer)] ∧
      ((answer.fault = none ∧ res = .ok (view answer)) ∨
          answer.fault ≠ none ∧ ∃ e, res = .error e) := by
  obtain ⟨hlog, report, s, report', s', h⟩ := of_noting h
  refine ⟨hlog, ?_⟩
  obtain ⟨r, tr₁, tr₂, s₁, h1, h2, rfl⟩ := Told.of_bind h
  cases h2 with
  | ret =>
    obtain ⟨answer, rfl, rfl⟩ := Told.of_ask h1
    refine ⟨answer, rfl, ?_⟩
    cases hf : answer.fault with
    | none => exact .inl ⟨rfl, rfl⟩
    | some msg => exact .inr ⟨nofun, _, rfl⟩

end Yields

end Logged

/-- The envelopes that were processed with the fate `Delete`, each with its verdict. -/
def Event.deleted? : Event → Option (UInt64 × Bytes × Verdict)
  | .processed _ seq bytes (.ok (.delete verdict)) => some (seq, bytes, verdict)
  | _ => none

def toDelete (log : List Event) : List (UInt64 × Bytes × Verdict) := log.filterMap Event.deleted?

theorem toDelete_append (log log' : List Event) :
    toDelete (log ++ log') = toDelete log ++ toDelete log' := List.filterMap_append

theorem processedIn_append (log log' : List Event) :
    processedIn (log ++ log') = processedIn log ++ processedIn log' := List.filterMap_append

namespace Network

open Logged

variable {P : AppPlatform} {i : Nat} {our : Peer} {pass : Pass} {until_ : UInt64}
  {log log' : List Event} {tr : List (Request × Answer)}

/-- Processing asks the relay nothing. -/
theorem fateOf_told {bytes : Bytes} {report report' : SyncReport} {s s' : Device P.Key Memory}
    {res : Except CoreError Fate}
    (h : Told ((fateOf i (Envelope.decode bytes) : Round P Fate).run.run report) s (res, report') tr s') :
    tr = [] := by
  have hg : InRound (fun _ => True) (fun _ _ => False) (Work s.db (.sync i))
      (Gives fun fate db => Fated s.db db bytes fate)
      (fateOf i (Envelope.decode bytes) : Round P Fate) s.db :=
    fateOf_gives (Db.Le.refl _) (Db.Le.refl _) (show (Call.sync i).Syncs from trivial) i bytes
  exact Told.nothing (hg report [] [] s.mem s.asked rfl) h

/-- What a pass notes of the envelopes that it considered. -/
structure Noted (pass : Pass) (considered : List (UInt64 × Bytes)) (events : List Event) : Prop where
  processed : processedIn events = considered.filter fun x => Pass.selects pass (Envelope.decode x.2)
  passes : ∀ event ∈ events, event.pass = pass

theorem Noted.nil : Noted pass [] [] := ⟨rfl, fun _ h => absurd h List.not_mem_nil⟩

theorem Noted.append {considered considered' : List (UInt64 × Bytes)} {events events' : List Event}
    (h : Noted pass considered events) (h' : Noted pass considered' events') :
    Noted pass (considered ++ considered') (events ++ events') where
  processed := by rw [processedIn_append, h.processed, h'.processed, List.filter_append]
  passes event he := (List.mem_append.mp he).elim (h.passes event) (h'.passes event)

/-- The pass goes on from `s` to `s'`, with nothing that failed. -/
structure Advances (considered : List (UInt64 × Bytes)) (events : List Event) (s s' : Scan) : Prop where
  after : s'.after = reach s.after considered
  seen : s'.seen = s.seen + considered.length
  delete : s'.delete = s.delete ++ toDelete events
  fine : ∀ event ∈ events, event.fails = false

theorem Advances.refl (s : Scan) : Advances [] [] s s :=
  ⟨rfl, rfl, (List.append_nil _).symm, fun _ h => absurd h List.not_mem_nil⟩

theorem Advances.trans {considered considered' : List (UInt64 × Bytes)} {events events' : List Event}
    {s s₁ s' : Scan} (h : Advances considered events s s₁) (h' : Advances considered' events' s₁ s') :
    Advances (considered ++ considered') (events ++ events') s s' where
  after := by rw [h'.after, h.after, reach_append]
  seen := by rw [h'.seen, h.seen, List.length_append, Nat.add_assoc]
  delete := by rw [h'.delete, h.delete, toDelete_append, List.append_assoc]
  fine event he := (List.mem_append.mp he).elim (h.fine event) (h'.fine event)

theorem noteFate_told (pass : Pass) {s : Scan} {seq : UInt64} {bytes : Bytes} {fate : Fate}
    {res : Except CoreError Scan}
    (h : Yields (quiet (noteFate seq bytes s fate) : Logged P Scan) log res tr log') :
    tr = [] ∧ log' = log ∧ ∃ s', res = .ok s' ∧ s'.after = s.after ∧ s'.seen = s.seen ∧
      s'.delete = s.delete ++ toDelete [.processed pass seq bytes (.ok fate)] := by
  obtain ⟨hlog, report, d, report', d', h⟩ := Yields.of_quiet h
  cases fate with
  | delete verdict =>
    cases h with
    | ret => exact ⟨rfl, hlog, _, rfl, rfl, rfl, rfl⟩
  | keep =>
    cases h with
    | ret => exact ⟨rfl, hlog, _, rfl, rfl, rfl, (List.append_nil _).symm⟩

/-- One envelope, once it is counted. -/
theorem selectL_told {seq : UInt64} {bytes : Bytes} {s : Scan} {res : Except CoreError Scan}
    (h : Yields (if !Pass.selects pass (Envelope.decode bytes) then pure s else
      noting (.processed pass seq bytes) (fateOf i (Envelope.decode bytes)) >>=
        fun fate => quiet (noteFate seq bytes s fate) : Logged P Scan) log res tr log') :
    tr = [] ∧ ∃ events, log' = log ++ events ∧ Noted pass [(seq, bytes)] events ∧
      ∀ s', res = .ok s' → s'.after = s.after ∧ s'.seen = s.seen ∧
        s'.delete = s.delete ++ toDelete events ∧ ∀ event ∈ events, event.fails = false := by
  by_cases hsel : Pass.selects pass (Envelope.decode bytes) = true
  · rw [if_neg (by simp [hsel])] at h
    have hnoted : ∀ r, Noted pass [(seq, bytes)] [.processed pass seq bytes r] := fun r =>
      ⟨by simp [processedIn, Event.envelope, hsel], by simp [Event.pass]⟩
    rcases Yields.of_bind h with ⟨fate, tr₁, tr₂, log₁, h1, h2, rfl⟩ | ⟨e, h1, rfl⟩
    · obtain ⟨rfl, _, _, _, _, hs⟩ := Yields.of_noting h1
      obtain rfl := fateOf_told hs
      obtain ⟨rfl, rfl, s', rfl, hafter, hseen, hdelete⟩ := noteFate_told pass h2
      refine ⟨rfl, _, rfl, hnoted _, fun s₁ he => ?_⟩
      obtain rfl := Except.ok.inj he
      exact ⟨hafter, hseen, hdelete, by simp [Event.fails]⟩
    · obtain ⟨rfl, _, _, _, _, hs⟩ := Yields.of_noting h1
      exact ⟨fateOf_told hs, _, rfl, hnoted _, fun s₁ he => by cases he⟩
  · rw [if_pos (by simpa using hsel)] at h
    obtain ⟨rfl, rfl, rfl⟩ := Yields.of_pure h
    refine ⟨rfl, [], (List.append_nil _).symm, ⟨by simp [processedIn, hsel], by simp⟩, fun s₁ he => ?_⟩
    obtain rfl := Except.ok.inj he
    exact ⟨rfl, rfl, (List.append_nil _).symm, by simp⟩

/-- One envelope. -/
theorem scanEnvelopeL_told {seq : UInt64} {bytes : Bytes} {s : Scan} {res : Except CoreError Scan}
    (h : Yields (scanEnvelopeL i pass seq bytes s : Logged P _) log res tr log') :
    tr = [] ∧ ∃ events, log' = log ++ events ∧ Noted pass [(seq, bytes)] events ∧
      ∀ s', res = .ok s' → Advances [(seq, bytes)] events s s' := by
  have hcounted : ∀ {log₁ : List Event} {tr₁ : List (Request × Answer)},
      Yields (if !Pass.selects pass (Envelope.decode bytes) then
          pure { s with after := seq, seen := s.seen + 1 } else
        noting (.processed pass seq bytes) (fateOf i (Envelope.decode bytes)) >>= fun fate =>
          quiet (noteFate seq bytes { s with after := seq, seen := s.seen + 1 } fate) :
          Logged P Scan) log₁ res tr₁ log' →
      tr₁ = [] ∧ ∃ events, log' = log₁ ++ events ∧ Noted pass [(seq, bytes)] events ∧
        ∀ s', res = .ok s' → Advances [(seq, bytes)] events s s' := by
    intro log₁ tr₁ h
    obtain ⟨htr, events, hlog, hnoted, hs⟩ := selectL_told h
    refine ⟨htr, events, hlog, hnoted, fun s' he => ?_⟩
    obtain ⟨hafter, hseen, hdelete, hfine⟩ := hs s' he
    exact ⟨hafter, hseen, hdelete, hfine⟩
  unfold scanEnvelopeL at h
  dsimp only at h
  split at h
  · rcases Yields.of_bind h with ⟨_, tr₁, tr₂, log₁, h1, h2, rfl⟩ | ⟨e, h1, -⟩
    · obtain ⟨-, rfl, rfl⟩ := Yields.of_tally h1
      exact hcounted h2
    · cases (Yields.of_tally h1).1
  · exact hcounted h

/-- The pass, at `s`, considered a beginning of `items`, in order and within its bounds. -/
structure Considers (until_ : UInt64) (s : Scan) (items considered : List (UInt64 × Bytes)) : Prop where
  begins : considered <+: items
  ascends : Ascends s.after considered
  upTo : ∀ y ∈ considered, y.1 ≤ until_
  bound : s.seen + considered.length ≤ maxScanEnvelopes

theorem Considers.nil {s : Scan} (hs : s.seen ≤ maxScanEnvelopes) (items : List (UInt64 × Bytes)) :
    Considers until_ s items [] :=
  ⟨List.nil_prefix, ascends_nil _, fun _ h => absurd h List.not_mem_nil, hs⟩

/-- It considered all of `items`, and then goes on from `s'`. -/
theorem Considers.append {s s' : Scan} {items items' considered' : List (UInt64 × Bytes)}
    {events : List Event} (h : Considers until_ s items items) (ha : Advances items events s s')
    (h' : Considers until_ s' items' considered') :
    Considers until_ s (items ++ items') (items ++ considered') where
  begins := (List.prefix_append_right_inj items).mpr h'.begins
  ascends := h.ascends.append (ha.after ▸ h'.ascends)
  upTo y hy := (List.mem_append.mp hy).elim (h.upTo y) (h'.upTo y)
  bound := by
    have hb := h'.bound
    rw [ha.seen] at hb
    rw [List.length_append]
    omega

theorem Considers.mono {s : Scan} {items items' considered : List (UInt64 × Bytes)}
    (h : Considers until_ s items considered) : Considers until_ s (items ++ items') considered :=
  ⟨h.begins.trans (List.prefix_append _ _), h.ascends, h.upTo, h.bound⟩

/-- The envelopes of one page. If the pass goes on it considered all of them. -/
theorem scanItemsL_told {items : List (UInt64 × Bytes)} {s : Scan}
    {res : Except CoreError (Scan × Bool)} (hs : s.seen < maxScanEnvelopes)
    (h : Yields (scanItemsL i pass until_ items s : Logged P _) log res tr log') :
    tr = [] ∧ ∃ considered events, log' = log ++ events ∧ Noted pass considered events ∧
      Considers until_ s items considered ∧
      ∀ s' ended, res = .ok (s', ended) → Advances considered events s s' ∧
        (ended = false → considered = items ∧ s'.seen < maxScanEnvelopes) := by
  induction items generalizing s log tr with
  | nil =>
    obtain ⟨rfl, rfl, rfl⟩ := Yields.of_pure h
    refine ⟨rfl, [], [], (List.append_nil _).symm, .nil, .nil hs.le [], fun s' ended he => ?_⟩
    cases he
    exact ⟨.refl s, fun _ => ⟨rfl, hs⟩⟩
  | cons x items ih =>
    obtain ⟨seq, bytes⟩ := x
    have stopped : ∀ {e : CoreError}, res = .error e → ∃ considered events, log = log ++ events ∧
        Noted pass considered events ∧ Considers until_ s ((seq, bytes) :: items) considered ∧
        ∀ s' ended, res = .ok (s', ended) → Advances considered events s s' ∧
          (ended = false → considered = (seq, bytes) :: items ∧ s'.seen < maxScanEnvelopes) := by
      rintro e rfl
      exact ⟨[], [], (List.append_nil _).symm, .nil, .nil hs.le _, fun _ _ he => by cases he⟩
    unfold scanItemsL at h
    dsimp only at h
    split at h
    · -- A number that does not come after the one before.
      rcases Yields.of_bind h with ⟨_, tr₁, tr₂, log₁, h1, -, rfl⟩ | ⟨e, h1, he⟩
      · cases (Yields.of_throw h1).1
      · obtain ⟨-, rfl, rfl⟩ := Yields.of_throw h1
        exact ⟨rfl, stopped he⟩
    · next hafter =>
      split at h
      · -- Past the end of the pass.
        obtain ⟨rfl, rfl, rfl⟩ := Yields.of_pure h
        refine ⟨rfl, [], [], (List.append_nil _).symm, .nil, .nil hs.le _, fun s' ended he => ?_⟩
        cases he
        exact ⟨.refl s, fun he => by cases he⟩
      · next hupto =>
        have hone : Considers until_ s [(seq, bytes)] [(seq, bytes)] := by
          refine ⟨List.prefix_refl _, ⟨?_, List.pairwise_singleton _ _⟩, ?_, hs⟩
          · simpa using hafter
          · simpa using hupto
        rcases Yields.of_bind h with ⟨s₁, tr₁, tr₂, log₁, h1, h2, rfl⟩ | ⟨e, h1, rfl⟩
        · obtain ⟨rfl, events, rfl, hnoted, ha⟩ := scanEnvelopeL_told h1
          have ha := ha s₁ rfl
          split at h2
          · -- At the bound, or at the end.
            obtain ⟨rfl, rfl, rfl⟩ := Yields.of_pure h2
            refine ⟨rfl, _, events, rfl, hnoted, hone.mono, fun s' ended he => ?_⟩
            cases he
            exact ⟨ha, fun he => by cases he⟩
          · next hstop =>
            rw [not_or] at hstop
            have hseen := ha.seen
            have hs₁ : s₁.seen < maxScanEnvelopes := by
              have hne := hstop.1
              rw [List.length_singleton] at hseen
              omega
            obtain ⟨rfl, considered, events', rfl, hnoted', hc, hres⟩ := ih hs₁ h2
            refine ⟨rfl, _, _, List.append_assoc _ _ _, hnoted.append hnoted', hone.append ha hc,
              fun s' ended he => ?_⟩
            obtain ⟨ha', hgoing⟩ := hres s' ended he
            refine ⟨ha.trans ha', fun hended => ?_⟩
            obtain ⟨rfl, hlt⟩ := hgoing hended
            exact ⟨rfl, hlt⟩
        · obtain ⟨rfl, events, rfl, hnoted, -⟩ := scanEnvelopeL_told h1
          exact ⟨rfl, _, events, rfl, hnoted, hone.mono, fun _ _ he => by cases he⟩

/-- What the answers hold. -/
def received (tr : List (Request × Answer)) : List (UInt64 × Bytes) := tr.flatMap fun x => x.2.items

/-- The requests are for pages past these cursors, each greater than the one before. -/
structure Fetches (our : Peer) (since : UInt64) (tr : List (Request × Answer)) (cursors : List UInt64) :
    Prop where
  asked : tr.map Prod.fst = cursors.map fun after => .fetchAfter our after maxFetch
  since : ∀ after ∈ cursors, since ≤ after
  increasing : cursors.Pairwise (· < ·)

theorem Fetches.nil (since : UInt64) : Fetches our since [] [] :=
  ⟨rfl, fun _ h => absurd h List.not_mem_nil, .nil⟩

theorem Fetches.cons {since later : UInt64} {answer : Answer} {cursors : List UInt64}
    (h : Fetches our later tr cursors) (hlt : tr = [] ∨ since < later) :
    Fetches our since ((.fetchAfter our since maxFetch, answer) :: tr) (since :: cursors) := by
  have hpast : ∀ after ∈ cursors, since < after := by
    intro after ha
    rcases hlt with rfl | hlt
    · have hnil := h.asked
      rw [List.map_nil, eq_comm, List.map_eq_nil_iff] at hnil
      rw [hnil] at ha
      exact absurd ha List.not_mem_nil
    · exact hlt.trans_le (h.since after ha)
  refine ⟨by rw [List.map_cons, List.map_cons, h.asked], fun after ha => ?_,
    List.pairwise_cons.mpr ⟨hpast, h.increasing⟩⟩
  rcases List.mem_cons.mp ha with rfl | ha
  · exact le_rfl
  · exact (hpast after ha).le

theorem reach_lt_of_ne_nil {after : UInt64} {l : List (UInt64 × Bytes)} (h : Ascends after l)
    (hne : l ≠ []) : after < reach after l := by
  cases l with
  | nil => exact absurd rfl hne
  | cons x l => exact (h.1 x List.mem_cons_self).trans_le h.tail.le_reach.1

theorem noted_fetched : Noted pass [] [.fetched pass] := ⟨rfl, by simp [Event.pass]⟩

theorem advances_fetched (s : Scan) : Advances [] [.fetched pass] s s :=
  ⟨rfl, rfl, (List.append_nil _).symm, by simp [Event.fails]⟩

/-- What a pass does with its pages: what it asked, considered and noted, and where it stands if it did
not fail. -/
def Paged (our : Peer) (pass : Pass) (until_ : UInt64) (n : Nat) (s : Scan)
    (tr : List (Request × Answer)) (log log' : List Event) (res : Except CoreError Scan) : Prop :=
  tr.length ≤ n ∧ (∃ cursors, Fetches our s.after tr cursors) ∧
  ∃ considered events, log' = log ++ events ∧ Noted pass considered events ∧
    Considers until_ s (received tr) considered ∧
    ∀ s', res = .ok s' → Advances considered events s s'

/-- A pass that ends with this page. -/
theorem Paged.last {n : Nat} {s : Scan} {answer : Answer} {considered : List (UInt64 × Bytes)}
    {events : List Event} {res : Except CoreError Scan} (hnoted : Noted pass considered events)
    (hc : Considers until_ s answer.items considered)
    (hres : ∀ s', res = .ok s' → Advances considered events s s') :
    Paged our pass until_ (n + 1) s [(.fetchAfter our s.after maxFetch, answer)] log
      (log ++ [.fetched pass] ++ events) res := by
  refine ⟨Nat.succ_le_succ (Nat.zero_le n), ⟨_, (Fetches.nil 0).cons (.inl rfl)⟩, considered, _,
    List.append_assoc _ _ _, noted_fetched.append hnoted, ?_,
    fun s' he => (advances_fetched s).trans (hres s' he)⟩
  have hreceived : received [(.fetchAfter our s.after maxFetch, answer)] = answer.items :=
    List.append_nil _
  rw [hreceived]
  exact hc

/-- The pages of a pass. -/
theorem scanPagesL_told {n : Nat} {s : Scan} {res : Except CoreError Scan}
    (hs : s.seen < maxScanEnvelopes)
    (h : Yields (scanPagesL i our pass until_ n s : Logged P _) log res tr log') :
    Paged our pass until_ n s tr log log' res := by
  induction n generalizing s log tr with
  | zero =>
    obtain ⟨rfl, rfl, rfl⟩ := Yields.of_pure h
    refine ⟨le_rfl, ⟨[], .nil _⟩, [], [], (List.append_nil _).symm, .nil, .nil hs.le _, fun s' he => ?_⟩
    cases he
    exact .refl s
  | succ n ih =>
    -- A pass that ends with a page of which it considers nothing.
    have nothing : ∀ {answer : Answer}, (∀ s', res = .ok s' → s' = s) →
        Paged our pass until_ (n + 1) s [(.fetchAfter our s.after maxFetch, answer)] log
          (log ++ [.fetched pass]) res := by
      intro answer he
      have hlast : Paged our pass until_ (n + 1) s [(.fetchAfter our s.after maxFetch, answer)] log
          (log ++ [.fetched pass] ++ []) res :=
        .last .nil (.nil hs.le answer.items) fun s' hr => he s' hr ▸ Advances.refl s
      rwa [List.append_nil] at hlast
    unfold scanPagesL at h
    dsimp only at h
    rcases Yields.of_bind h with ⟨items, tr₁, tr₂, log₁, h1, h2, rfl⟩ | ⟨e, h1, rfl⟩
    · obtain ⟨rfl, answer, rfl, hanswer⟩ := Yields.of_request h1
      obtain rfl : items = answer.items := by
        rcases hanswer with ⟨-, he⟩ | ⟨-, e, he⟩
        · exact Except.ok.inj he
        · cases he
      split at h2
      · -- More than asked for.
        rcases Yields.of_bind h2 with ⟨_, tr₃, tr₄, log₂, h3, -, rfl⟩ | ⟨e, h3, rfl⟩
        · cases (Yields.of_throw h3).1
        · obtain ⟨-, rfl, rfl⟩ := Yields.of_throw h3
          exact nothing fun s' he => by cases he
      · split at h2
        · obtain ⟨rfl, rfl, rfl⟩ := Yields.of_pure h2
          exact nothing fun s' he => (Except.ok.inj he).symm
        · next hempty =>
          rcases Yields.of_bind h2 with ⟨⟨s₁, ended⟩, tr₃, tr₄, log₂, h3, h4, rfl⟩ | ⟨e, h3, rfl⟩
          · obtain ⟨rfl, considered, events, rfl, hnoted, hc, hres⟩ := scanItemsL_told hs h3
            obtain ⟨ha, hgoing⟩ := hres s₁ ended rfl
            split at h4
            · obtain ⟨rfl, rfl, rfl⟩ := Yields.of_pure h4
              exact .last hnoted hc fun s' he => Except.ok.inj he ▸ ha
            · next hon =>
              have hended : ended = false := by
                cases ended with
                | false => rfl
                | true => simp at hon
              obtain ⟨rfl, hs₁⟩ := hgoing hended
              obtain ⟨hlen, ⟨cursors, hf⟩, considered', events', rfl, hnoted', hc', hres'⟩ := ih hs₁ h4
              have hpast : s.after < s₁.after := by
                rw [ha.after]
                exact reach_lt_of_ne_nil hc.ascends (by simpa using hempty)
              refine ⟨Nat.succ_le_succ hlen, ⟨_, hf.cons (.inr hpast)⟩, _, _, ?_,
                (noted_fetched.append hnoted).append hnoted', hc.append ha hc', fun s' he => ?_⟩
              · simp only [List.append_assoc]
              · exact ((advances_fetched s).trans ha).trans (hres' s' he)
          · obtain ⟨rfl, considered, events, rfl, hnoted, hc, -⟩ := scanItemsL_told hs h3
            exact .last hnoted hc fun s' he => by cases he
    · obtain ⟨rfl, answer, rfl, -⟩ := Yields.of_request h1
      exact nothing fun s' he => by cases he

theorem reach_eq (after : UInt64) (l : List (UInt64 × Bytes)) :
    reach after l = (l.getLast?.map Prod.fst).getD after := by
  induction l generalizing after with
  | nil => rfl
  | cons x l ih =>
    rw [reach, ih, List.getLast?_cons]
    cases l.getLast? <;> rfl

/-- A pass returns the last number that it considered. -/
theorem reach_some {l : List (UInt64 × Bytes)} (h : Ascends 0 l) :
    (if 0 < reach 0 l then some (reach 0 l) else none) = l.getLast?.map Prod.fst := by
  cases hl : l.getLast? with
  | none =>
    rw [List.getLast?_eq_none_iff.mp hl]
    rfl
  | some x =>
    have hx : reach 0 l = x.1 := by rw [reach_eq, hl]; rfl
    rw [hx, if_pos (h.1 x (List.mem_of_getLast? hl))]
    rfl

/-- What a pass did that asked for pages (`fetches`, past `cursors`) and for the deletion of envelopes
(`deletion`), and considered `considered`. -/
structure ScanSafe (our : Peer) (pass : Pass) (until_ : UInt64) (log : List Event)
    (res : Except CoreError (Option UInt64)) (cursors : List UInt64)
    (considered : List (UInt64 × Bytes)) (fetches deletion : List (Request × Answer)) : Prop where
  pages : fetches.length ≤ maxScanPages
  asked : fetches.map Prod.fst = cursors.map fun after => .fetchAfter our after maxFetch
  onward : cursors.Pairwise (· < ·)
  /-- It considers what it was given, from the first on. -/
  seen : considered <+: received fetches
  envelopes : considered.length ≤ maxScanEnvelopes
  ordered : considered.Pairwise fun x y => x.1 < y.1
  upTo : ∀ x ∈ considered, x.1 ≤ until_
  /-- It processes the envelopes that it selects. -/
  processed : processedIn log = considered.filter fun x => Pass.selects pass (Envelope.decode x.2)
  returned : ∀ last, res = .ok last → last = considered.getLast?.map Prod.fst
  /-- It asks at most once for a deletion, after all processing, which did not fail. -/
  once : deletion = [] ∨ ∃ answer, deletion = [(.delete our (toDelete log), answer)] ∧
    toDelete log ≠ [] ∧ (∀ event ∈ log, event.fails = false) ∧
    ((∃ e, res = .error e) → answer.fault ≠ none)
  success : ∀ last, res = .ok last →
    (∀ event ∈ log, event.fails = false) ∧ (deletion = [] → toDelete log = [])
  /-- The numbers are those that were processed with the fate `Delete`, and no others. -/
  exactly : ∀ seq, (∃ x ∈ toDelete log, x.1 = seq) ↔
    ∃ bytes verdict, .processed pass seq bytes (.ok (.delete verdict)) ∈ log
  spared : ∀ seq bytes r, .processed pass seq bytes r ∈ log → (∀ verdict, r ≠ .ok (.delete verdict)) →
    ∀ x ∈ toDelete log, x.1 ≠ seq

theorem mem_toDelete {log : List Event} {x : UInt64 × Bytes × Verdict} :
    x ∈ toDelete log ↔ ∃ pass, .processed pass x.1 x.2.1 (.ok (.delete x.2.2)) ∈ log := by
  unfold toDelete
  rw [List.mem_filterMap]
  constructor
  · rintro ⟨event, he, hx⟩
    unfold Event.deleted? at hx
    split at hx
    · next pass seq bytes verdict =>
      obtain rfl := Option.some.inj hx
      exact ⟨pass, he⟩
    · cases hx
  · rintro ⟨pass, he⟩
    exact ⟨_, he, rfl⟩

/-- Numbers that are processed in order are processed once. -/
theorem processed_once {considered : List (UInt64 × Bytes)} {log : List Event}
    (h : Noted pass considered log) (ho : considered.Pairwise fun x y => x.1 < y.1)
    {p₁ p₂ : Pass} {seq : UInt64} {b₁ b₂ : Bytes} {r₁ r₂ : Except CoreError Fate}
    (h₁ : .processed p₁ seq b₁ r₁ ∈ log) (h₂ : .processed p₂ seq b₂ r₂ ∈ log) :
    Event.processed p₁ seq b₁ r₁ = .processed p₂ seq b₂ r₂ := by
  by_contra hne
  have hp : (processedIn log).Pairwise fun x y => x.1 < y.1 := h.processed ▸ ho.filter _
  have hlog := List.pairwise_filterMap.mp hp
  have hsymm : Std.Symm fun a b : Event => ∀ x, a.envelope = some x → ∀ y, b.envelope = some y →
      x.1 ≠ y.1 := ⟨fun _ _ h x hx y hy => (h y hy x hx).symm⟩
  have hdiff : log.Pairwise fun a b => ∀ x, a.envelope = some x → ∀ y, b.envelope = some y →
      x.1 ≠ y.1 := hlog.imp fun h x hx y hy => (h x hx y hy).ne
  exact hdiff.forall h₁ h₂ hne _ rfl _ rfl rfl

theorem ScanSafe.intro {considered : List (UInt64 × Bytes)} {res : Except CoreError (Option UInt64)}
    {cursors : List UInt64} {fetches deletion : List (Request × Answer)}
    (hlen : fetches.length ≤ maxScanPages) (hf : Fetches our 0 fetches cursors)
    (hc : Considers until_ {} (received fetches) considered) (hnoted : Noted pass considered log)
    (returned : ∀ last, res = .ok last → last = considered.getLast?.map Prod.fst)
    (once : deletion = [] ∨ ∃ answer, deletion = [(.delete our (toDelete log), answer)] ∧
      toDelete log ≠ [] ∧ (∀ event ∈ log, event.fails = false) ∧
      ((∃ e, res = .error e) → answer.fault ≠ none))
    (success : ∀ last, res = .ok last →
      (∀ event ∈ log, event.fails = false) ∧ (deletion = [] → toDelete log = [])) :
    ScanSafe our pass until_ log res cursors considered fetches deletion := by
  refine ⟨hlen, hf.asked, hf.increasing, hc.begins, by simpa using hc.bound, hc.ascends.2, hc.upTo,
    hnoted.processed, returned, once, success, fun seq => ?_, fun seq bytes r hr hkept x hx heq => ?_⟩
  · constructor
    · rintro ⟨x, hx, rfl⟩
      obtain ⟨p, hp⟩ := mem_toDelete.mp hx
      obtain rfl := hnoted.passes _ hp
      exact ⟨_, _, hp⟩
    · rintro ⟨bytes, verdict, hp⟩
      exact ⟨(seq, bytes, verdict), mem_toDelete.mpr ⟨pass, hp⟩, rfl⟩
  · obtain ⟨p, hp⟩ := mem_toDelete.mp hx
    rw [heq] at hp
    cases processed_once hnoted hc.ascends.2 hp hr
    exact hkept _ rfl

/-- A logged pass. -/
theorem scanL_told {res : Except CoreError (Option UInt64)}
    (h : Yields (scanL i our pass until_ : Logged P _) [] res tr log) :
    ∃ cursors considered fetches deletion, tr = fetches ++ deletion ∧
      ScanSafe our pass until_ log res cursors considered fetches deletion := by
  have hstart : ({} : Scan).seen < maxScanEnvelopes := by decide
  rcases Yields.of_bind h with ⟨s, tr₁, tr₂, log₁, h1, h2, rfl⟩ | ⟨e, h1, rfl⟩
  · obtain ⟨hlen, ⟨cursors, hf⟩, considered, events, hlog, hnoted, hc, hres⟩ := scanPagesL_told hstart h1
    obtain rfl : log₁ = events := hlog
    have ha := hres s rfl
    have hreturn : (if 0 < s.after then some s.after else none) = considered.getLast?.map Prod.fst := by
      rw [ha.after]
      exact reach_some hc.ascends
    have hdelete : s.delete = toDelete log₁ := ha.delete
    rw [hreturn] at h2
    dsimp only at h2
    split at h2
    · next hne =>
      have hne : toDelete log₁ ≠ [] := by
        rw [← hdelete]
        simpa using hne
      -- The deletion is noted after everything else.
      have hafter : toDelete (log₁ ++ [.deleted pass]) = toDelete log₁ := by
        rw [toDelete_append]
        exact List.append_nil _
      have hnoted' : Noted pass considered (log₁ ++ [.deleted pass]) := by
        have hdel : Noted pass [] [.deleted pass] := ⟨rfl, by simp [Event.pass]⟩
        simpa using hnoted.append hdel
      have hfine : ∀ event ∈ log₁ ++ [.deleted pass], event.fails = false := fun event he =>
        (List.mem_append.mp he).elim (ha.fine event) fun he => by
          rw [List.mem_singleton.mp he]
          rfl
      rcases Yields.of_bind h2 with ⟨_, tr₃, tr₄, log₂, h3, h4, rfl⟩ | ⟨e, h3, rfl⟩
      · obtain ⟨rfl, answer, rfl, hanswer⟩ := Yields.of_request h3
        obtain ⟨rfl, rfl, rfl⟩ := Yields.of_pure h4
        refine ⟨cursors, considered, tr₁, _, by rw [List.append_nil, hdelete], ?_⟩
        refine .intro hlen hf hc hnoted' (fun last he => ?_) (.inr ⟨answer, ?_⟩) fun last he => ?_
        · exact (Except.ok.inj he).symm
        · exact ⟨by rw [hafter], by rwa [hafter], hfine, fun ⟨e, he⟩ => by cases he⟩
        · exact ⟨hfine, fun he => by cases he⟩
      · obtain ⟨rfl, answer, rfl, hanswer⟩ := Yields.of_request h3
        refine ⟨cursors, considered, tr₁, _, by rw [hdelete], ?_⟩
        refine .intro hlen hf hc hnoted' (fun last he => by cases he) (.inr ⟨answer, ?_⟩)
          fun last he => by cases he
        refine ⟨by rw [hafter], by rwa [hafter], hfine, fun _ => ?_⟩
        rcases hanswer with ⟨-, he⟩ | ⟨hfault, -⟩
        · cases he
        · exact hfault
    · next hempty =>
      obtain ⟨rfl, rfl, rfl⟩ := Yields.of_pure h2
      refine ⟨cursors, considered, tr₁, [], rfl, ?_⟩
      refine .intro hlen hf hc hnoted (fun last he => ?_) (.inl rfl) fun last he => ⟨ha.fine, fun _ => ?_⟩
      · exact (Except.ok.inj he).symm
      · rw [← hdelete]
        simpa using hempty
  · obtain ⟨hlen, ⟨cursors, hf⟩, considered, events, hlog, hnoted, hc, -⟩ := scanPagesL_told hstart h1
    obtain rfl : log = events := hlog
    exact ⟨cursors, considered, tr, [], (List.append_nil _).symm,
      .intro hlen hf hc hnoted (fun last he => by cases he) (.inl rfl) fun last he => by cases he⟩

/-- **A pass is safe against any relay**: whatever it is answered and whatever else happens on the
device, it does what `ScanSafe` says. -/
theorem scan_safe {report report' : SyncReport} {s s' : Device P.Key Memory}
    {res : Except CoreError (Option UInt64)}
    (h : Told ((scan i our pass until_ : Round P _).run.run report) s (res, report') tr s') :
    ∃ log cursors considered fetches deletion,
      Told ((scanL i our pass until_ : Logged P _).run.run (report, [])) s (res, report', log) tr s' ∧
      tr = fetches ++ deletion ∧
      ScanSafe our pass until_ log res cursors considered fetches deletion := by
  rw [← scanL_erases i our pass until_ report []] at h
  obtain ⟨⟨r, report₁, log⟩, tr₁, tr₂, s₁, h1, h2, rfl⟩ := Told.of_bind h
  cases h2 with
  | ret =>
    rw [List.append_nil]
    obtain ⟨cursors, considered, fetches, deletion, htr, hsafe⟩ := scanL_told ⟨_, _, _, _, h1⟩
    exact ⟨log, cursors, considered, fetches, deletion, h1, htr, hsafe⟩

/-- A device that has stored nothing. -/
def freshDevice : Device symbolicApp.Key Memory := { db := .empty, mem := fun _ => {} }

/-- A relay that lists one byte, and obeys. -/
theorem scan_safe_byte : ∃ report s' log cursors considered fetches deletion,
    Told ((scanL 0 (fill 1) .messages 5 : Logged symbolicApp _).run.run ({}, [])) freshDevice
      (.ok (some 1), report, log)
      [(.fetchAfter (fill 1) 0 maxFetch, { items := [(1, [0])] }),
        (.delete (fill 1) [(1, [0], .malformed)], {})] s' ∧
    ScanSafe (fill 1) .messages 5 log (.ok (some 1)) cursors considered fetches deletion := by
  have h : Told ((scan 0 (fill 1) .messages 5 : Round symbolicApp _).run.run {}) freshDevice
      (.ok (some 1), { dropped := 1 })
      [(.fetchAfter (fill 1) 0 maxFetch, { items := [(1, [0])] }),
        (.delete (fill 1) [(1, [0], .malformed)], {})] _ :=
    .asks { relay := { items := [(1, [0])] } } _ (Db.Le.refl _) rfl
      (.asks {} _ (Db.Le.refl _) rfl (.ret _ _))
  obtain ⟨log, cursors, considered, fetches, deletion, hrun, -, hsafe⟩ := scan_safe h
  exact ⟨_, _, log, cursors, considered, fetches, deletion, hrun, hsafe⟩

end Network

end Arcium
