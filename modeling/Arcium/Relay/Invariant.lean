import Arcium.Relay.Server

/-!
# What the relay keeps

`MailboxStep`: what one request does to the mailboxes and to the counter. `Serves config log s`: the
relay is in state `s` after the requests of `log`, the last first. `RelayOk` collects what holds of
every such history, whatever the clock does.
-/

namespace Arcium

namespace Relay

variable {config : Config} {now : Nat} {s s' : State} {request : Request} {response : Response}

/-- Whether it is a DELETE. -/
def Request.isDelete : Request → Bool
  | .delete _ _ => true
  | _ => false

/-- What a request does to the mailboxes and to the counter. -/
inductive MailboxStep (config : Config) (now : Nat) (s s' : State) : Request → Response → Prop
  | untouched {request : Request} {response : Response} (mailboxes : s'.mailboxes = s.mailboxes)
      (counter : s'.nextSeq = s.nextSeq) (keeps : request.isDelete = false)
      (stores : ∀ seq, response ≠ .accepted seq) : MailboxStep config now s s' request response
  | pruned {request : Request} {response : Response} (key : Key)
      (mailboxes : s'.mailboxes =
        Function.update s.mailboxes key ((s.mailboxes key).live config now))
      (counter : s'.nextSeq = s.nextSeq) (keeps : request.isDelete = false)
      (stores : ∀ seq, response ≠ .accepted seq) : MailboxStep config now s s' request response
  | repeated (key : Key) (envelope : Bytes) (seq : UInt64) (t : Nat)
      (mailboxes : s'.mailboxes =
        Function.update s.mailboxes key ((s.mailboxes key).live config now))
      (counter : s'.nextSeq = s.nextSeq) (found : (seq, t, envelope) ∈ (s.mailboxes key).live config now) :
      MailboxStep config now s s' (.send key envelope) (.accepted seq)
  | stored (key : Key) (envelope : Bytes)
      (fresh : ∀ x ∈ (s.mailboxes key).live config now, x.2.2 ≠ envelope)
      (room : ((s.mailboxes key).live config now).len < config.maxMailbox)
      (below : s.nextSeq ≠ 0xFFFFFFFFFFFFFFFF)
      (mailboxes : s'.mailboxes = Function.update s.mailboxes key
        (((s.mailboxes key).live config now).insert s.nextSeq (now, envelope)))
      (counter : s'.nextSeq = s.nextSeq + 1) :
      MailboxStep config now s s' (.send key envelope) (.accepted s.nextSeq)
  | deleted (key : Key) (seqs : List UInt64)
      (mailboxes : s'.mailboxes = Function.update s.mailboxes key
        (seqs.foldl (fun m seq => m.remove seq) (s.mailboxes key)))
      (counter : s'.nextSeq = s.nextSeq) : MailboxStep config now s s' (.delete key seqs) .ok

theorem store_step (key : Key) (envelope : Bytes) :
    MailboxStep config now s (store s key envelope now config).2 (.send key envelope)
      (store s key envelope now config).1 := by
  -- An alert changes neither the mailboxes nor the counter.
  have halert : ∀ {hits : Bool},
      (if hits then { s with canaryHits := s.canaryHits + 1 } else s).mailboxes = s.mailboxes ∧
      (if hits then { s with canaryHits := s.canaryHits + 1 } else s).nextSeq = s.nextSeq := by
    intro hits
    cases hits <;> exact ⟨rfl, rfl⟩
  unfold store
  simp only [halert.1, halert.2]
  split
  · next existing v hfind =>
    obtain ⟨t, e⟩ := v
    have he := List.find?_some hfind
    simp only [beq_iff_eq] at he
    subst he
    exact .repeated key e existing t (by simp [State.setMailbox, halert.1])
      (by simp [State.setMailbox, halert.2]) (List.mem_of_find?_eq_some hfind)
  · next hnone =>
    have hfresh : ∀ x ∈ (s.mailboxes key).live config now, x.2.2 ≠ envelope := by
      intro x hx he
      have := List.find?_eq_none.mp hnone x hx
      exact this (by simpa using he)
    split
    · exact .pruned key (by simp [State.setMailbox, halert.1]) (by simp [State.setMailbox, halert.2])
        rfl nofun
    · next hroom =>
      split
      · exact .pruned key (by simp [State.setMailbox, halert.1])
          (by simp [State.setMailbox, halert.2]) rfl nofun
      · next hbelow =>
        exact .stored key envelope hfresh (Nat.lt_of_not_le hroom) hbelow
          (by simp [State.setMailbox, halert.1]) rfl

theorem handle_step (config : Config) (now : Nat) (request : Request) (s : State) :
    MailboxStep config now s (handle config now request s).2 request
      (handle config now request s).1 := by
  cases request with
  | putBundle owner bundle =>
    unfold handle
    dsimp only
    split
    · exact .untouched rfl rfl rfl nofun
    · exact .untouched rfl rfl rfl nofun
  | getBundle owner =>
    unfold handle
    dsimp only
    split
    · exact .untouched rfl rfl rfl nofun
    · exact .untouched rfl rfl rfl nofun
  | send key envelope =>
    unfold handle
    dsimp only
    split
    · exact .untouched rfl rfl rfl nofun
    · exact store_step key envelope
  | fetch key max => exact .pruned key rfl rfl rfl nofun
  | fetchAfter key after max => exact .pruned key rfl rfl rfl nofun
  | delete key seqs => exact .deleted key seqs rfl rfl

/-! ## Histories -/

/-- A request that was handled. -/
structure Handled where
  now : Nat
  request : Request
  before : State
  response : Response
  after : State

/-- The number `n` is new in the mailbox of `key`. -/
def Handled.Stores (h : Handled) (key : Key) (n : UInt64) : Prop :=
  (∃ v, (n, v) ∈ h.after.mailboxes key) ∧ ∀ v, (n, v) ∉ h.before.mailboxes key

/-- After the requests of `log`, the last first, the relay is in state `s`. -/
inductive Serves (config : Config) : List Handled → State → Prop
  | start {s : State} (h : serve config = .ok s) : Serves config [] s
  | handled {log : List Handled} {s : State} (h : Serves config log s) (now : Nat)
      (request : Request) :
      Serves config (⟨now, request, s, (handle config now request s).1,
        (handle config now request s).2⟩ :: log) (handle config now request s).2

theorem serve_ok (h : serve config = .ok s) :
    s = { nextSeq := 1 } ∧ 1 ≤ config.maxMailbox ∧ config.maxMailbox ≤ defaultMaxMailbox := by
  unfold serve at h
  split at h
  · next hc => exact ⟨(Except.ok.inj h).symm, hc⟩
  · cases h

theorem mem_live {m : Mailbox} {x : UInt64 × Nat × Bytes} :
    x ∈ m.live config now ↔ x ∈ m ∧ now - x.2.1 < config.ttl := by
  simp [Mailbox.live]

theorem mem_removeAll {m : Mailbox} {seqs : List UInt64} {x : UInt64 × Nat × Bytes} :
    x ∈ seqs.foldl (fun m seq => m.remove seq) m ↔ x ∈ m ∧ x.1 ∉ seqs := by
  induction seqs generalizing m with
  | nil => simp
  | cons seq seqs ih => rw [List.foldl_cons, ih]; simp [and_assoc]

theorem len_removeAll_le (seqs : List UInt64) (m : Mailbox) :
    (seqs.foldl (fun m seq => m.remove seq) m).len ≤ m.len := by
  induction seqs generalizing m with
  | nil => exact Nat.le_refl _
  | cons seq seqs ih => exact (ih _).trans (SortedMap.len_retain_le _ _)

/-- What a request does to one mailbox. -/
inductive BoxStep (config : Config) (now : Nat) (s s' : State) (request : Request)
    (response : Response) (k : Key) : Prop
  | same (eq : s'.mailboxes k = s.mailboxes k)
  | pruned (eq : s'.mailboxes k = (s.mailboxes k).live config now)
  | stored (envelope : Bytes) (sent : request = .send k envelope)
      (accepted : response = .accepted s.nextSeq)
      (fresh : ∀ x ∈ (s.mailboxes k).live config now, x.2.2 ≠ envelope)
      (room : ((s.mailboxes k).live config now).len < config.maxMailbox)
      (counter : s.nextSeq < s'.nextSeq)
      (eq : s'.mailboxes k =
        ((s.mailboxes k).live config now).insert s.nextSeq (now, envelope))
  | deleted (seqs : List UInt64) (asked : request.isDelete = true)
      (eq : s'.mailboxes k = seqs.foldl (fun m seq => m.remove seq) (s.mailboxes k))

namespace MailboxStep

variable (h : MailboxStep config now s s' request response)
include h

theorem box (k : Key) : BoxStep config now s s' request response k := by
  have pruned : ∀ {key : Key}, s'.mailboxes =
      Function.update s.mailboxes key ((s.mailboxes key).live config now) →
      BoxStep config now s s' request response k := by
    intro key hm
    by_cases hk : k = key
    · subst hk
      exact .pruned (by rw [hm, Function.update_self])
    · exact .same (by rw [hm, Function.update_of_ne hk])
  cases h with
  | untouched mailboxes counter keeps stores => exact .same (by rw [mailboxes])
  | pruned key mailboxes counter keeps stores => exact pruned mailboxes
  | repeated key envelope seq t mailboxes counter found => exact pruned mailboxes
  | stored key envelope fresh room below mailboxes counter =>
    by_cases hk : k = key
    · subst hk
      exact .stored envelope rfl rfl fresh room (counter ▸ UInt64.lt_add_one below)
        (by rw [mailboxes, Function.update_self])
    · exact .same (by rw [mailboxes, Function.update_of_ne hk])
  | deleted key seqs mailboxes counter =>
    by_cases hk : k = key
    · subst hk
      exact .deleted seqs rfl (by rw [mailboxes, Function.update_self])
    · exact .same (by rw [mailboxes, Function.update_of_ne hk])

/-- The counter grows. -/
theorem counter_le : s.nextSeq ≤ s'.nextSeq := by
  cases h with
  | untouched mailboxes counter keeps stores => exact counter.ge
  | pruned key mailboxes counter keeps stores => exact counter.ge
  | repeated key envelope seq t mailboxes counter found => exact counter.ge
  | stored key envelope fresh room below mailboxes counter =>
    rw [counter]
    exact (UInt64.lt_add_one below).le
  | deleted key seqs mailboxes counter => exact counter.ge

/-- What is stored after a request was stored before, or was just sent. -/
theorem mem_cases {k : Key} {x : UInt64 × Nat × Bytes} (hx : x ∈ s'.mailboxes k) :
    x ∈ s.mailboxes k ∨
      (request = .send k x.2.2 ∧ response = .accepted x.1 ∧ x.1 = s.nextSeq ∧
        x.1 < s'.nextSeq ∧ ∀ y ∈ s'.mailboxes k, y.2.2 = x.2.2 → y = x) := by
  cases h.box k with
  | same eq => exact .inl (eq ▸ hx)
  | pruned eq => exact .inl (mem_live.mp (eq ▸ hx)).1
  | stored envelope sent accepted fresh room counter eq =>
    rw [eq] at hx ⊢
    rcases SortedMap.mem_insert.mp hx with rfl | ⟨hx, -⟩
    · refine .inr ⟨sent, accepted, rfl, counter, fun y hy he => ?_⟩
      rcases SortedMap.mem_insert.mp hy with hy | ⟨hy, -⟩
      · exact hy
      · exact absurd he (fresh y hy)
    · exact .inl (mem_live.mp hx).1
  | deleted seqs asked eq => exact .inl (mem_removeAll.mp (eq ▸ hx)).1

/-- A mailbox grows only by what fits. -/
theorem len_le {k : Key} (hlen : (s.mailboxes k).len ≤ config.maxMailbox) :
    (s'.mailboxes k).len ≤ config.maxMailbox := by
  cases h.box k with
  | same eq => rwa [eq]
  | pruned eq =>
    rw [eq]
    exact (SortedMap.len_retain_le _ _).trans hlen
  | stored envelope sent accepted fresh room counter eq =>
    rw [eq]
    exact (SortedMap.len_insert_le _ _ _).trans room
  | deleted seqs asked eq =>
    rw [eq]
    exact (len_removeAll_le _ _).trans hlen

/-- Only a DELETE removes what has not expired, if the counter is beyond every number. -/
theorem keeps_live (hd : request.isDelete = false) {k : Key} {x : UInt64 × Nat × Bytes}
    (hx : x ∈ s.mailboxes k) (hnum : x.1 < s.nextSeq) (hlive : now - x.2.1 < config.ttl) :
    x ∈ s'.mailboxes k := by
  cases h.box k with
  | same eq => rwa [eq]
  | pruned eq =>
    rw [eq]
    exact mem_live.mpr ⟨hx, hlive⟩
  | stored envelope sent accepted fresh room counter eq =>
    rw [eq]
    exact SortedMap.mem_insert.mpr (.inr ⟨mem_live.mpr ⟨hx, hlive⟩, hnum.ne⟩)
  | deleted seqs asked eq =>
    rw [asked] at hd
    cases hd

/-- Under the number of an `Accepted` answer the bytes that were sent are stored. -/
theorem accepted {seq : UInt64} (hr : response = .accepted seq) :
    ∃ k e t, request = .send k e ∧ (seq, t, e) ∈ s'.mailboxes k := by
  cases h with
  | untouched mailboxes counter keeps stores => exact absurd hr (stores seq)
  | pruned key mailboxes counter keeps stores => exact absurd hr (stores seq)
  | repeated key envelope seq' t mailboxes counter found =>
    cases hr
    refine ⟨key, envelope, t, rfl, ?_⟩
    rwa [mailboxes, Function.update_self]
  | stored key envelope fresh room below mailboxes counter =>
    cases hr
    refine ⟨key, envelope, now, rfl, ?_⟩
    rw [mailboxes, Function.update_self]
    exact SortedMap.mem_insert.mpr (.inl rfl)
  | deleted key seqs mailboxes counter => cases hr

/-- A request that is refused adds nothing. -/
theorem refused {code : ErrorCode} (hr : response = .error code) :
    s'.nextSeq = s.nextSeq ∧ ∀ k x, x ∈ s'.mailboxes k → x ∈ s.mailboxes k := by
  refine ⟨?_, fun k x hx => ?_⟩
  · cases h with
    | untouched mailboxes counter keeps stores => exact counter
    | pruned key mailboxes counter keeps stores => exact counter
    | repeated key envelope seq t mailboxes counter found => exact counter
    | stored key envelope fresh room below mailboxes counter => cases hr
    | deleted key seqs mailboxes counter => exact counter
  · rcases h.mem_cases hx with hold | ⟨-, hacc, -⟩
    · exact hold
    · cases hacc.symm.trans hr

/-- A DELETE removes what it names, from the mailbox it names. -/
theorem deletes {k : Key} {seqs : List UInt64} (hr : request = .delete k seqs) :
    (∀ x, x ∈ s'.mailboxes k ↔ x ∈ s.mailboxes k ∧ x.1 ∉ seqs) ∧
      ∀ k', k' ≠ k → s'.mailboxes k' = s.mailboxes k' := by
  cases h with
  | untouched mailboxes counter keeps stores => rw [hr] at keeps; cases keeps
  | pruned key mailboxes counter keeps stores => rw [hr] at keeps; cases keeps
  | repeated key envelope seq t mailboxes counter found => cases hr
  | stored key envelope fresh room below mailboxes counter => cases hr
  | deleted key seqs' mailboxes counter =>
    cases hr
    rw [mailboxes]
    refine ⟨fun x => ?_, fun k' hk => Function.update_of_ne hk _ _⟩
    rw [Function.update_self]
    exact mem_removeAll

end MailboxStep

/-! ## The invariant -/

/-- What holds after any requests. -/
structure RelayOk (config : Config) (log : List Handled) (s : State) : Prop where
  /-- Every number was given out, and the counter is beyond it. -/
  number : ∀ k x, x ∈ s.mailboxes k → 1 ≤ x.1 ∧ x.1 < s.nextSeq
  /-- A number that is stored later is larger, in whatever mailbox. -/
  increasing : log.Pairwise fun h h' => ∀ k k' n n', h.Stores k n → h'.Stores k' n' → n' < n
  /-- One request stores one number in one mailbox. -/
  single : ∀ h ∈ log, ∀ k k' n n', h.Stores k n → h.Stores k' n' → k = k' ∧ n = n'
  /-- No number is in two mailboxes. -/
  unique : ∀ k k' x y, x ∈ s.mailboxes k → y ∈ s.mailboxes k' → x.1 = y.1 → k = k'
  /-- What is stored was sent to that mailbox, and stored then under that number. -/
  origin : ∀ k x, x ∈ s.mailboxes k →
    ∃ h ∈ log, h.request = .send k x.2.2 ∧ h.response = .accepted x.1 ∧ h.Stores k x.1
  counter : ∀ h ∈ log, h.before.nextSeq ≤ h.after.nextSeq ∧ h.after.nextSeq ≤ s.nextSeq
  bounded : ∀ k, (s.mailboxes k).len ≤ config.maxMailbox
  distinct : ∀ k x y, x ∈ s.mailboxes k → y ∈ s.mailboxes k → x.2.2 = y.2.2 → x = y
  accepted : ∀ h ∈ log, ∀ seq, h.response = .accepted seq →
    ∃ k e t, h.request = .send k e ∧ (seq, t, e) ∈ h.after.mailboxes k
  keeps : ∀ h ∈ log, h.request.isDelete = false → ∀ k x, x ∈ h.before.mailboxes k →
    h.now - x.2.1 < config.ttl → x ∈ h.after.mailboxes k
  refused : ∀ h ∈ log, ∀ k e code, h.request = .send k e → h.response = .error code →
    h.after.nextSeq = h.before.nextSeq ∧
      ∀ k' x, x ∈ h.after.mailboxes k' → x ∈ h.before.mailboxes k'
  deletes : ∀ h ∈ log, ∀ k seqs, h.request = .delete k seqs →
    (∀ x, x ∈ h.after.mailboxes k ↔ x ∈ h.before.mailboxes k ∧ x.1 ∉ seqs) ∧
      ∀ k', k' ≠ k → h.after.mailboxes k' = h.before.mailboxes k'

variable {log : List Handled}

/-- A number that a request stores is the one that the counter showed. -/
theorem Handled.Stores.number {h : Handled} {k : Key} {n : UInt64} (hs : h.Stores k n)
    (hstep : MailboxStep config h.now h.before h.after h.request h.response) :
    n = h.before.nextSeq ∧ n < h.after.nextSeq ∧ ∃ e, h.request = .send k e := by
  obtain ⟨⟨v, hv⟩, hnew⟩ := hs
  rcases hstep.mem_cases hv with hold | ⟨hsend, -, hn, hlt, -⟩
  · exact absurd hold (hnew v)
  · exact ⟨hn, hlt, _, hsend⟩

/-- Each entry of a log is one step of the relay. -/
theorem Serves.step (h : Serves config log s) :
    ∀ x ∈ log, MailboxStep config x.now x.before x.after x.request x.response := by
  induction h with
  | start hs => exact fun _ hx => nomatch hx
  | @handled log s h now request ih =>
    intro x hx
    rcases List.mem_cons.mp hx with rfl | hx
    · exact handle_step config now request s
    · exact ih x hx

theorem Serves.counter (h : Serves config log s) :
    1 ≤ s.nextSeq ∧ ∀ x ∈ log, x.after.nextSeq ≤ s.nextSeq := by
  induction h with
  | start hs =>
    obtain ⟨rfl, -⟩ := serve_ok hs
    exact ⟨by decide, fun _ hx => nomatch hx⟩
  | @handled log s h now request ih =>
    have hle := (handle_step config now request s).counter_le
    refine ⟨ih.1.trans hle, fun x hx => ?_⟩
    rcases List.mem_cons.mp hx with rfl | hx
    · exact le_rfl
    · exact (ih.2 x hx).trans hle

theorem Serves.number (h : Serves config log s) :
    ∀ k x, x ∈ s.mailboxes k → 1 ≤ x.1 ∧ x.1 < s.nextSeq := by
  induction h with
  | start hs =>
    obtain ⟨rfl, -⟩ := serve_ok hs
    exact fun _ _ hx => nomatch hx
  | @handled log s h now request ih =>
    intro k x hx
    have hstep := handle_step config now request s
    rcases hstep.mem_cases hx with hold | ⟨-, -, hn, hlt, -⟩
    · exact ⟨(ih k x hold).1, (ih k x hold).2.trans_le hstep.counter_le⟩
    · exact ⟨hn ▸ h.counter.1, hlt⟩

/-- Each request was handled in a state that the relay was in. -/
theorem Serves.before (h : Serves config log s) :
    ∀ x ∈ log, ∃ log', Serves config log' x.before := by
  induction h with
  | start hs => exact fun _ hx => nomatch hx
  | @handled log s h now request ih =>
    intro x hx
    rcases List.mem_cons.mp hx with rfl | hx
    · exact ⟨log, h⟩
    · exact ih x hx

theorem Serves.increasing (h : Serves config log s) :
    log.Pairwise fun h h' => ∀ k k' n n', h.Stores k n → h'.Stores k' n' → n' < n := by
  induction h with
  | start hs => exact .nil
  | @handled log s h now request ih =>
    refine List.pairwise_cons.mpr ⟨fun x hx k k' n n' hn hn' => ?_, ih⟩
    have hlater := (hn.number (handle_step config now request s)).1
    have hbefore := (hn'.number (h.step x hx)).2.1
    exact hlater ▸ hbefore.trans_le (h.counter.2 x hx)

theorem Serves.single (h : Serves config log s) {x : Handled} (hx : x ∈ log) {k k' : Key}
    {n n' : UInt64} (hn : x.Stores k n) (hn' : x.Stores k' n') : k = k' ∧ n = n' := by
  obtain ⟨h1, -, e, he⟩ := hn.number (h.step x hx)
  obtain ⟨h2, -, e', he'⟩ := hn'.number (h.step x hx)
  cases he.symm.trans he'
  exact ⟨rfl, h1.trans h2.symm⟩

theorem Serves.origin (h : Serves config log s) {k : Key} {x : UInt64 × Nat × Bytes}
    (hx : x ∈ s.mailboxes k) :
    ∃ y ∈ log, y.request = .send k x.2.2 ∧ y.response = .accepted x.1 ∧ y.Stores k x.1 := by
  induction h with
  | start hs =>
    obtain ⟨rfl, -⟩ := serve_ok hs
    exact absurd hx SortedMap.not_mem_empty
  | @handled log s h now request ih =>
    rcases (handle_step config now request s).mem_cases hx with hold | ⟨hsend, hacc, hn, -, -⟩
    · obtain ⟨y, hy, hrest⟩ := ih hold
      exact ⟨y, List.mem_cons_of_mem _ hy, hrest⟩
    · refine ⟨_, List.mem_cons_self, hsend, hacc, ⟨⟨x.2, hx⟩, fun v hv => ?_⟩⟩
      -- A number that is stored is below the counter.
      have hlt := (h.number k _ hv).2
      exact absurd hn hlt.ne

/-- Two requests do not store one number. -/
theorem Serves.unique (h : Serves config log s) {x y : Handled} (hx : x ∈ log) (hy : y ∈ log)
    {k k' : Key} {n : UInt64} (hn : x.Stores k n) (hn' : y.Stores k' n) : k = k' := by
  by_cases hxy : x = y
  · subst hxy
    exact (h.single hx hn hn').1
  · have hsymm : Std.Symm fun x y : Handled => ∀ k k' n, x.Stores k n → ¬ y.Stores k' n :=
      ⟨fun _ _ h k k' n hn hn' => h k' k n hn' hn⟩
    have hp : log.Pairwise fun x y => ∀ k k' n, x.Stores k n → ¬ y.Stores k' n :=
      h.increasing.imp fun h k k' n hn hn' => lt_irrefl n (h k k' n n hn hn')
    exact absurd hn' (hp.forall hx hy hxy k k' n hn)

theorem Serves.bounded (h : Serves config log s) (k : Key) :
    (s.mailboxes k).len ≤ config.maxMailbox := by
  induction h with
  | start hs =>
    obtain ⟨rfl, -⟩ := serve_ok hs
    exact Nat.zero_le _
  | @handled log s h now request ih => exact (handle_step config now request s).len_le ih

theorem Serves.distinct (h : Serves config log s) {k : Key} {x y : UInt64 × Nat × Bytes}
    (hx : x ∈ s.mailboxes k) (hy : y ∈ s.mailboxes k) (he : x.2.2 = y.2.2) : x = y := by
  induction h with
  | start hs =>
    obtain ⟨rfl, -⟩ := serve_ok hs
    exact absurd hx SortedMap.not_mem_empty
  | @handled log s h now request ih =>
    have hstep := handle_step config now request s
    rcases hstep.mem_cases hx with hx' | ⟨-, -, -, -, huniq⟩
    · rcases hstep.mem_cases hy with hy' | ⟨-, -, -, -, huniq⟩
      · exact ih hx' hy'
      · exact huniq x hx he
    · exact (huniq y hy he.symm).symm

/-- **The relay's mailboxes are in order** after any requests: numbers are given out once and only grow,
what is stored was sent and accepted, and what is accepted stays until it is deleted or expires. -/
theorem relay_ok (h : Serves config log s) : RelayOk config log s where
  number := h.number
  increasing := h.increasing
  single _ hx _ _ _ _ hn hn' := h.single hx hn hn'
  unique k k' x y hx hy he := by
    obtain ⟨a, ha, -, -, hstores⟩ := h.origin hx
    obtain ⟨b, hb, -, -, hstores'⟩ := h.origin hy
    exact h.unique ha hb hstores (he ▸ hstores')
  origin _ _ hx := h.origin hx
  counter x hx := ⟨(h.step x hx).counter_le, h.counter.2 x hx⟩
  bounded := h.bounded
  distinct _ _ _ hx hy he := h.distinct hx hy he
  accepted x hx _ hr := (h.step x hx).accepted hr
  keeps x hx hd k y hy hlive := by
    obtain ⟨log', h'⟩ := h.before x hx
    exact (h.step x hx).keeps_live hd hy (h'.number k y hy).2 hlive
  refused x hx _ _ _ _ hr := (h.step x hx).refused hr
  deletes x hx _ _ hr := (h.step x hx).deletes hr

/-- Two envelopes fill a mailbox of two: a third is refused, the first again is not. Once it is
deleted the third gets a new number. -/
theorem relay_ok_two : ∃ log s, Serves { maxMailbox := 2 } log s ∧
    log.map Handled.response =
      [.accepted 3, .ok, .accepted 1, .error .full, .accepted 2, .accepted 1] ∧
    RelayOk { maxMailbox := 2 } log s := by
  have h₀ : Serves { maxMailbox := 2 } [] { nextSeq := 1 } := .start rfl
  have h := (((((h₀.handled 0 (.send default [1])).handled 1 (.send default [2])).handled 2
    (.send default [3])).handled 3 (.send default [1])).handled 4 (.delete default [1])).handled 5
    (.send default [3])
  exact ⟨_, _, h, by decide +kernel, relay_ok h⟩

end Relay

end Arcium
