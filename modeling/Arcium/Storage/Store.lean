import Arcium.Conc.System
import Arcium.Storage.Records

/-!
# The encrypted store (`core-storage`)

What the code above it sees of `EncryptedStore`: single reads, and transactions (`BEGIN IMMEDIATE`
to `COMMIT`) that read, decide, and write all or nothing. Each is one atomic action on the database;
whether it fails is part of its `Choice`, and so is what a `COMMIT` that reports an error did.

* `Db`: the records, with every earlier state of them. The past is for the proofs only: no program
  reads it.
* `Device`: a database, and the memory of each process or instance that works on it.
* `find`, `keysUnder`, `tx`, `draw`: the actions.
* `Sat I A T Q p tr db`: the rely-guarantee triple of `p`, over databases. The environment only adds
  to the past, every write of `p` is a transition `T`, and `Q` judges the result, the trace and the
  database.
-/

namespace Arcium

open Conc

inductive StorageError where
  | db
  | decryption
  | notFound
  | transactionStateInvalid
  deriving DecidableEq, Repr

/-- A read that fails. `NotFound` is an answer, not a fault. -/
abbrev Fault := { e : StorageError // e ≠ .notFound }

/-- How a `COMMIT` ends. After an error the records may or may not be stored. -/
inductive CommitOutcome where
  | ok
  | unknown (error : StorageError) (stored : Bool)

/-- Why an envelope is not needed any more. -/
inductive Verdict where
  /-- It is not an envelope, or a handshake that does not name its sender. -/
  | malformed
  | unpinned
  /-- A handshake from a peer with whom there is a session. -/
  | held
  /-- A handshake that is recorded. -/
  | recorded
  /-- A handshake that is refused for good. -/
  | refused
  | accepted
  | duplicate
  /-- A message that its session, or the recorded handshake, does not take. -/
  | undecryptable
  /-- A first message whose handshake can no longer be answered. -/
  | unanswerable
  deriving DecidableEq

/-- What the relay is asked. -/
inductive Request where
  | connect
  | putBundle (owner : Peer) (bundle : Bytes)
  | getBundle (owner : Peer)
  | send (recipient : Peer) (envelope : Bytes)
  | fetchAfter (recipient : Peer) (after : UInt64) (max : UInt16)
  /-- The numbers, each with the envelope it came with and the verdict on it, which the relay is not
  told. -/
  | delete (recipient : Peer) (items : List (UInt64 × Bytes × Verdict))
  deriving DecidableEq

/-- What the relay answers to a request: an error, or as much of the rest as the request asks for. -/
structure Answer where
  fault : Option String := none
  bundle : Option Bytes := none
  items : List (UInt64 × Bytes) := []
  deriving DecidableEq

/-- The nonce of a choice that does not say. -/
def zeroNonce : Nonce := ⟨List.replicate 24 0, List.length_replicate⟩

/-- What decides an action from outside: faults, the random source, the clock, and the relay. -/
structure Choice where
  beginFault : Option StorageError := none
  readFault : Key → Option Fault := fun _ => none
  listFault : Option StorageError := none
  writeFault : Option StorageError := none
  commit : CommitOutcome := .ok
  /-- A secret from `OsRng`. -/
  secret : StaticSecret := default
  nonce : Nonce := zeroNonce
  /-- The id of a new one-time prekey. -/
  id : UInt64 := 0
  /-- The time, in milliseconds since the Unix epoch. -/
  now : UInt64 := 0
  /-- Whether the time to retransmit has passed. -/
  elapsed : Bool := true
  relay : Answer := {}

variable {K M err α β : Type}

/-- `get`. -/
def Choice.read (e : Choice) (rows : Rows K) (k : Key) : Except StorageError (Row K k) :=
  match e.readFault k with
  | some f => .error f.val
  | none =>
    match rows.lookup k with
    | some v => .ok v
    | none => .error .notFound

/-- What reads of `rows` can return: what is stored, or a fault. -/
structure Reads (rows : Rows K) (read : (k : Key) → Except StorageError (Row K k)) : Prop where
  found : ∀ k v, read k = .ok v → rows.lookup k = some v
  missing : ∀ k, read k = .error .notFound → rows.lookup k = none

theorem Choice.reads (e : Choice) (rows : Rows K) : Reads rows (e.read rows) where
  found k v h := by
    unfold Choice.read at h
    split at h
    · cases h
    · split at h
      · next hl => rw [hl, Except.ok.inj h]
      · cases h
  missing k h := by
    unfold Choice.read at h
    split at h
    · next f _ => exact absurd (Except.error.inj h) f.property
    · split at h
      · cases h
      · next hl => exact hl

/-- The store does not fail. -/
structure Choice.Calm (e : Choice) : Prop where
  begins : e.beginFault = none
  reads : ∀ k, e.readFault k = none
  lists : e.listFault = none
  writes : e.writeFault = none
  commits : e.commit = .ok

theorem Choice.calm_default : Choice.Calm {} := ⟨rfl, fun _ => rfl, rfl, rfl, rfl⟩

/-! ## The database -/

structure Db (K : Type) where
  rows : Rows K
  /-- The states it went through, the last first. -/
  past : List (Rows K) := []

namespace Db

def empty : Db K := ⟨∅, []⟩

/-- Every state so far. -/
def all (db : Db K) : List (Rows K) := db.rows :: db.past

def push (db : Db K) (rows : Rows K) : Db K := ⟨rows, db.all⟩

/-- `b` is `a` or came after it. -/
def Le (a b : Db K) : Prop := a.all <:+ b.all

/-- The record at `k` is `v`, or was at some time. -/
def Ever (db : Db K) (k : Key) (v : Row K k) : Prop := ∃ rows ∈ db.all, rows.lookup k = some v

@[simp] theorem push_rows (db : Db K) (rows : Rows K) : (db.push rows).rows = rows := rfl

@[simp] theorem push_all (db : Db K) (rows : Rows K) : (db.push rows).all = rows :: db.all := rfl

theorem rows_mem (db : Db K) : db.rows ∈ db.all := List.mem_cons_self

theorem Le.refl (db : Db K) : db.Le db := List.suffix_refl _

theorem Le.trans {a b c : Db K} (h : a.Le b) (h' : b.Le c) : a.Le c := List.IsSuffix.trans h h'

theorem le_push (db : Db K) (rows : Rows K) : db.Le (db.push rows) := List.suffix_cons _ _

theorem Le.mem {a b : Db K} (h : a.Le b) {rows : Rows K} (hr : rows ∈ a.all) : rows ∈ b.all :=
  List.IsSuffix.mem hr h

theorem Ever.mono {a b : Db K} {k : Key} {v : Row K k} (h : a.Ever k v) (hle : a.Le b) :
    b.Ever k v := by
  obtain ⟨rows, hr, hl⟩ := h
  exact ⟨rows, hle.mem hr, hl⟩

theorem ever_now {db : Db K} {k : Key} {v : Row K k} (h : db.rows.lookup k = some v) :
    db.Ever k v := ⟨_, db.rows_mem, h⟩

/-- A record that was stored was so at some state. -/
theorem Ever.at {db : Db K} {k : Key} {v : Row K k} (h : db.Ever k v) :
    ∃ db₀ : Db K, db₀.Le db ∧ db₀.rows.lookup k = some v := by
  obtain ⟨rows, hr, hl⟩ := h
  obtain ⟨later, past, heq⟩ := List.append_of_mem hr
  exact ⟨⟨rows, past⟩, ⟨later, heq.symm⟩, hl⟩

theorem ever_push {db : Db K} {rows : Rows K} {k : Key} {v : Row K k} :
    (db.push rows).Ever k v ↔ rows.lookup k = some v ∨ db.Ever k v := by
  simp [Ever]

theorem not_ever_empty {k : Key} {v : Row K k} : ¬ (Db.empty : Db K).Ever k v := by
  rintro ⟨rows, hr, h⟩
  obtain rfl : rows = ∅ := by simpa [all, empty] using hr
  cases h

theorem le_push_cases {a db : Db K} {rows : Rows K} (h : a.Le (db.push rows)) :
    a = db.push rows ∨ a.Le db := by
  rcases List.suffix_cons_iff.mp h with h | h
  · left
    cases a
    simp only [all, List.cons.injEq] at h
    obtain ⟨rfl, rfl⟩ := h
    rfl
  · exact .inr h

theorem push_inj {a b : Db K} {rows rows' : Rows K} (h : a.push rows = b.push rows') :
    a = b ∧ rows = rows' := by
  cases a
  cases b
  simp only [push, all, mk.injEq, List.cons.injEq] at h
  obtain ⟨rfl, rfl, rfl⟩ := h
  exact ⟨rfl, rfl⟩

/-- Two states of one history follow one another. -/
theorem le_total {a b db : Db K} (ha : a.Le db) (hb : b.Le db) : a.Le b ∨ b.Le a :=
  List.suffix_or_suffix_of_suffix ha hb

theorem Le.antisymm {a b : Db K} (h : a.Le b) (h' : b.Le a) : a = b := by
  have hall : a.all = b.all := h.eq_of_length_le h'.length_le
  cases a
  cases b
  simpa [all] using hall

theorem not_push_le {db : Db K} {rows : Rows K} : ¬ (db.push rows).Le db := by
  intro h
  have hlen := List.IsSuffix.length_le h
  rw [push_all, List.length_cons] at hlen
  omega

/-- The entries of every state, which can be compared. -/
def entries (db : Db K) : List (List (Sigma (Row K))) := db.all.map AList.entries

theorem entries_inj {a b : Db K} (h : a.entries = b.entries) : a = b := by
  have hall := List.map_injective_iff.mpr (fun _ _ => AList.ext) h
  cases a
  cases b
  simpa [all] using hall

theorem le_of_entries {a b : Db K} (h : a.entries <:+ b.entries) : a.Le b :=
  (List.suffix_map_iff_of_injective fun _ _ => AList.ext).mp h

/-- The database after transactions with these writes, the last first. -/
def after : List (List (Change K)) → Db K
  | [] => empty
  | cs :: batches => (after batches).push ((after batches).rows.applyAll cs)

theorem ever_after {batches : List (List (Change K))} {k : Key} {v : Row K k}
    (h : (after batches).Ever k v) : ⟨k, some v⟩ ∈ batches.flatten := by
  induction batches with
  | nil => exact (not_ever_empty h).elim
  | cons cs batches ih =>
    rw [List.flatten_cons, List.mem_append]
    rcases ever_push.mp h with h | h
    · exact (Rows.lookup_applyAll_some h).imp_right fun h => ih (ever_now h)
    · exact .inr (ih h)

/-- The databases whose whole past, from the empty one on, is made of transitions `T`. -/
inductive Valid (T : Db K → Rows K → Prop) : Db K → Prop
  | empty : Valid T Db.empty
  | push {db : Db K} {rows : Rows K} : Valid T db → T db rows → Valid T (db.push rows)

theorem le_empty {a : Db K} (h : a.Le Db.empty) : a = Db.empty := by
  cases a
  obtain ⟨t, ht⟩ := h
  cases t with
  | nil =>
    simp only [all, empty, List.nil_append, List.cons.injEq] at ht
    obtain ⟨rfl, rfl⟩ := ht
    rfl
  | cons x t =>
    simp only [all, empty, List.cons_append, List.cons.injEq] at ht
    simp at ht

theorem Valid.le {T : Db K → Rows K → Prop} {a b : Db K} (h : Valid T b) (hle : a.Le b) :
    Valid T a := by
  induction h with
  | empty => rw [le_empty hle]; exact .empty
  | push hv ht ih =>
    rcases le_push_cases hle with rfl | hle
    · exact .push hv ht
    · exact ih hle

/-- The last transition of a history. -/
theorem Valid.of_push {T : Db K → Rows K → Prop} {db : Db K} {rows : Rows K}
    (h : Valid T (db.push rows)) : Valid T db ∧ T db rows := by
  generalize hx : db.push rows = x at h
  cases h with
  | empty => cases hx
  | push hv ht =>
    obtain ⟨rfl, rfl⟩ := push_inj hx
    exact ⟨hv, ht⟩

/-- A property that no transition ends holds from the time it first holds. -/
theorem Valid.stable {T : Db K → Rows K → Prop} {P : Db K → Prop} {a b : Db K}
    (hP : ∀ db rows, Valid T db → T db rows → P db → P (db.push rows)) (h : Valid T b)
    (hle : a.Le b) (ha : P a) : P b := by
  induction h with
  | empty => rwa [← le_empty hle]
  | push hv ht ih =>
    rcases le_push_cases hle with rfl | hle
    · exact ha
    · exact hP _ _ hv ht (ih hle)

end Db

/-! ## Devices and their actions -/

/-- A database, and the memory of each instance that uses it. -/
structure Device (K M : Type) where
  db : Db K
  mem : Nat → M
  /-- What the relay was asked and what it answered, the last first. -/
  asked : List (Request × Answer) := []

/-- A program of one instance that uses the store. -/
abbrev Run (K M err α : Type) := Op Choice (Device K M) err α

/-- `get`, with a missing record as `none` and a fault as an error. -/
def find (toErr : StorageError → err) (k : Key) : Run K M err (Option (Row K k)) :=
  ExceptT.mk (Prog.look fun e s =>
    match e.read s.db.rows k with
    | .ok v => .ok (some v)
    | .error .notFound => .ok none
    | .error f => .error (toErr f))

/-- `list_keys_with_prefix`, as far as the caller looks at it. -/
def keysUnder (toErr : StorageError → err) (view : Rows K → α) : Run K M err α :=
  ExceptT.mk (Prog.look fun e s =>
    match e.listFault with
    | some f => .error (toErr f)
    | none => .ok (view s.db.rows))

/-- A value from the random source. -/
def draw (view : Choice → α) : Run K M err α := Op.attempt (Prog.look fun e _ => view e)

/-- Read the memory of instance `i`. -/
def remembered (i : Nat) (view : M → α) : Run K M err α := Op.attempt (Prog.look fun _ s => view (s.mem i))

/-- Change the memory of instance `i`. -/
def remember (i : Nat) (change : M → M) : Run K M err Unit :=
  Op.attempt (Prog.atomic fun _ s =>
    ({ s with mem := Function.update s.mem i (change (s.mem i)) }, ()))

/-- Ask the relay. -/
def ask (request : Request) (view : Answer → Except err α) : Run K M err α :=
  ExceptT.mk (Prog.atomic fun e s =>
    ({ s with asked := (request, e.relay) :: s.asked }, view e.relay))

/-- What a caller makes of the failures of a transaction. -/
structure TxErrors (err : Type) where
  onBegin : StorageError → err
  onWrite : StorageError → err
  onCommit : StorageError → err

/-- One transaction: `body` reads and decides; if it has writes they are committed together. -/
def txStep (errs : TxErrors err)
    (body : ((k : Key) → Except StorageError (Row K k)) → Except err (α × List (Change K)))
    (e : Choice) (db : Db K) : Db K × Except err α :=
  match e.beginFault with
  | some f => (db, .error (errs.onBegin f))
  | none =>
    match body (e.read db.rows) with
    | .error x => (db, .error x)
    | .ok (a, []) => (db, .ok a)
    | .ok (a, c :: cs) =>
      match e.writeFault with
      | some f => (db, .error (errs.onWrite f))
      | none =>
        match e.commit with
        | .ok => (db.push (db.rows.applyAll (c :: cs)), .ok a)
        | .unknown f true => (db.push (db.rows.applyAll (c :: cs)), .error (errs.onCommit f))
        | .unknown f false => (db, .error (errs.onCommit f))

def tx (errs : TxErrors err)
    (body : ((k : Key) → Except StorageError (Row K k)) → Except err (α × List (Change K))) :
    Run K M err α :=
  ExceptT.mk (Prog.atomic fun e s =>
    let r := txStep errs body e s.db
    ({ s with db := r.1 }, r.2))

theorem find_alone {toErr : StorageError → err} {k : Key} {s s' : Device K M}
    {r : Except err (Option (Row K k))}
    (h : Prog.Alone Choice.Calm (find toErr k : Run K M err _).run s r s') :
    s' = s ∧ r = .ok (s.db.rows.lookup k) := by
  obtain ⟨e, he, rfl, rfl⟩ := Prog.Alone.of_atomic h
  refine ⟨rfl, ?_⟩
  simp only [Choice.read, he.reads k]
  cases s'.db.rows.lookup k <;> rfl

theorem keysUnder_alone {toErr : StorageError → err} {view : Rows K → α} {s s' : Device K M}
    {r : Except err α}
    (h : Prog.Alone Choice.Calm (keysUnder toErr view : Run K M err α).run s r s') :
    s' = s ∧ r = .ok (view s.db.rows) := by
  obtain ⟨e, he, rfl, rfl⟩ := Prog.Alone.of_atomic h
  exact ⟨rfl, by simp only [he.lists]⟩

/-- An operation after another, alone. -/
theorem Run.alone_bind {C : Choice → Prop} {x : Run K M err α} {f : α → Run K M err β}
    {s s'' : Device K M} {r : Except err β} (h : Prog.Alone C (x >>= f).run s r s'') :
    (∃ a s', Prog.Alone C x.run s (.ok a) s' ∧ Prog.Alone C (f a).run s' r s'') ∨
      ∃ e, Prog.Alone C x.run s (.error e) s'' ∧ r = .error e := by
  obtain ⟨x', s', h1, h2⟩ := Prog.Alone.of_bind h
  cases x' with
  | ok a => exact .inl ⟨a, s', h1, h2⟩
  | error e =>
    cases h2 with
    | ret => exact .inr ⟨e, h1, rfl⟩

/-- At some time from `since` to `db`, `p` was run and ended with `r`. -/
def Ended (since db : Db K) (p : Run K M err α) (r : Except err α) : Prop :=
  ∃ s s' : Device K M, since.Le s.db ∧ s'.db.Le db ∧
    Prog.Ran (fun s s' : Device K M => s.db.Le s'.db) p.run s r s'

theorem Ended.mono {since since' db db' : Db K} {p : Run K M err α} {r : Except err α}
    (h : Ended since db p r) (hs : since'.Le since) (hle : db.Le db') : Ended since' db' p r := by
  obtain ⟨s, s', h1, h2, hr⟩ := h
  exact ⟨s, s', hs.trans h1, h2.trans hle, hr⟩

/-! ## Triples over databases -/

/-- The database before and after each action of a program, the last first. -/
abbrev Trace (K : Type) := List (Db K × Db K)

/-- Nothing was written. -/
def Quiet (tr : Trace K) : Prop := ∀ x ∈ tr, x.2 = x.1

@[simp] theorem quiet_nil : Quiet ([] : Trace K) := fun _ h => nomatch h

@[simp] theorem quiet_cons {db : Db K} {tr : Trace K} : Quiet ((db, db) :: tr) ↔ Quiet tr := by
  simp [Quiet]

/-- From `db` with trace `tr` on, to `db'` with trace `tr'`, nothing was written. -/
structure Looked (tr : Trace K) (db : Db K) (tr' : Trace K) (db' : Db K) : Prop where
  quiet : Quiet tr → Quiet tr'
  le : db.Le db'

namespace Looked

variable {tr tr' tr'' : Trace K} {db db' db'' : Db K}

theorem refl (tr : Trace K) (db : Db K) : Looked tr db tr db := ⟨id, Db.Le.refl db⟩

theorem step (h : db.Le db') : Looked tr db ((db', db') :: tr) db' := ⟨quiet_cons.mpr, h⟩

theorem trans (h : Looked tr db tr' db') (h' : Looked tr' db' tr'' db'') :
    Looked tr db tr'' db'' := ⟨fun hq => h'.quiet (h.quiet hq), h.le.trans h'.le⟩

end Looked

/-- A write is one transition. -/
def Moves (T : Db K → Rows K → Prop) (db db' : Db K) : Prop :=
  db' = db ∨ ∃ rows, T db rows ∧ db' = db.push rows

/-- The databases of a device's trace. -/
def dbs (t : List (Device K M × Device K M)) : Trace K := t.map fun x => (x.1.db, x.2.db)

/-- How a program from `db` ends that writes at most once: with one transition of `T`, reported as
done or as unknown, or with a failure and nothing written. -/
inductive Once (T : Db K → Rows K → Prop) (done unknown fail : α → Prop) (tr : Trace K)
    (db : Db K) : α → Trace K → Db K → Prop
  | written {db₁ : Db K} {rows : Rows K} {r : α} (le : db.Le db₁) (step : T db₁ rows)
      (hr : done r ∨ unknown r) :
      Once T done unknown fail tr db r ((db₁, db₁.push rows) :: tr) (db₁.push rows)
  | failed {db₁ : Db K} {tr₁ : Trace K} {r : α} (looked : Looked tr db tr₁ db₁) (hr : fail r) :
      Once T done unknown fail tr db r tr₁ db₁

theorem Once.imp {T : Db K → Rows K → Prop} {done unknown fail : α → Prop}
    {done' unknown' fail' : β → Prop} {tr tr' : Trace K} {db db' : Db K} {r : α} {r' : β}
    (h : Once T done unknown fail tr db r tr' db') (hd : done r → done' r')
    (hu : unknown r → unknown' r') (hf : fail r → fail' r') :
    Once T done' unknown' fail' tr db r' tr' db' := by
  cases h with
  | written le step hr => exact .written le step (hr.imp hd hu)
  | failed looked hr => exact .failed looked (hf hr)

/-- One action: at most one transition of `T`, and at most one request, which `A` allows. -/
structure Acts (A : Db K → Request × Answer → Prop) (T : Db K → Rows K → Prop)
    (s s' : Device K M) : Prop where
  moves : Moves T s.db s'.db
  asks : s'.asked = s.asked ∨ ∃ x, A s.db x ∧ s'.asked = x :: s.asked

theorem Acts.imp {A A' : Db K → Request × Answer → Prop} {T T' : Db K → Rows K → Prop}
    {s s' : Device K M} (h : Acts A T s s') (hA : ∀ x, A s.db x → A' s.db x)
    (hT : ∀ rows, T s.db rows → T' s.db rows) : Acts A' T' s s' where
  moves := by
    rcases h.moves with h | ⟨rows, ht, h⟩
    · exact .inl h
    · exact .inr ⟨rows, hT rows ht, h⟩
  asks := by
    rcases h.asks with h | ⟨x, hx, h⟩
    · exact .inl h
    · exact .inr ⟨x, hA x hx, h⟩

section Sat

variable (I : Db K → Prop) (A : Db K → Request × Answer → Prop) (T : Db K → Rows K → Prop)

/-- The triple of `p` over databases (module doc). It does not depend on the memory. -/
def Sat (Q : Except err α → Trace K → Db K → Prop) (p : Run K M err α) (tr : Trace K) (db : Db K) :
    Prop :=
  ∀ t mem asked, dbs t = tr →
    Prog.WP (fun s s' : Device K M => s.db.Le s'.db) (fun s => I s.db) (Acts A T)
      (fun r t s => Q r (dbs t) s.db) p.run t ⟨db, mem, asked⟩

/-- What is left to do after a value or an error. -/
def After (Q : Except err β → Trace K → Db K → Prop) (f : α → Run K M err β) :
    Except err α → Trace K → Db K → Prop
  | .ok a => Sat I A T Q (f a)
  | .error e => Q (.error e)

end Sat

namespace Sat

variable {I : Db K → Prop} {A : Db K → Request × Answer → Prop} {T : Db K → Rows K → Prop}
  {tr : Trace K} {db : Db K}

theorem bind {x : Run K M err α} {f : α → Run K M err β} {Q : Except err β → Trace K → Db K → Prop}
    (h : Sat I A T (After I A T Q f) x tr db) : Sat I A T Q (x >>= f) tr db := by
  intro t mem asked ht
  refine Op.wp_bind ((h t mem asked ht).mono (fun _ _ hg => hg) fun r t s hr => ?_)
  cases r with
  | ok a => exact hr t s.mem s.asked rfl
  | error e => exact hr

theorem pure {a : α} {Q : Except err α → Trace K → Db K → Prop} (h : Q (.ok a) tr db) :
    Sat I A T Q (pure a : Run K M err α) tr db := by
  intro t mem asked ht
  subst ht
  exact h

theorem throw {e : err} {Q : Except err α → Trace K → Db K → Prop} (h : Q (.error e) tr db) :
    Sat I A T Q (throw e : Run K M err α) tr db := by
  intro t mem asked ht
  subst ht
  exact h

theorem mono {p : Run K M err α} {Q Q' : Except err α → Trace K → Db K → Prop}
    (h : Sat I A T Q p tr db) (hQ : ∀ r tr db, Q r tr db → Q' r tr db) : Sat I A T Q' p tr db :=
  fun t mem asked ht => (h t mem asked ht).mono (fun _ _ hg => hg) fun _ _ _ hr => hQ _ _ _ hr

/-- A weaker guarantee. -/
theorem weaken {T' : Db K → Rows K → Prop} {p : Run K M err α}
    {Q : Except err α → Trace K → Db K → Prop} (h : Sat I A T Q p tr db)
    (hT : ∀ db rows, T db rows → T' db rows) : Sat I A T' Q p tr db := by
  exact fun t mem asked ht => (h t mem asked ht).mono
    (fun s s' hg => hg.imp (fun _ hx => hx) (hT s.db)) fun _ _ _ hr => hr

theorem Moves.le {db db' : Db K} (h : Moves T db db') : db.Le db' := by
  rcases h with rfl | ⟨rows, -, rfl⟩
  · exact Db.Le.refl _
  · exact Db.le_push _ _

/-- A guarantee that is weaker from `db` on. -/
theorem weaken_from {T' : Db K → Rows K → Prop} {p : Run K M err α}
    {Q : Except err α → Trace K → Db K → Prop} (h : Sat I A T Q p tr db)
    (hT : ∀ db' rows, db.Le db' → I db' → T db' rows → T' db' rows) : Sat I A T' Q p tr db :=
  fun t mem asked ht => (h t mem asked ht).weaken_from (fun _ _ _ => Db.Le.trans)
    (fun _ _ hg => Moves.le hg.moves)
    fun s₁ _ hR hI hg => hg.imp (fun _ hx => hx) fun rows => hT s₁.db rows hR hI

/-- A program ends at or after the database it started from. -/
theorem up {p : Run K M err α} {Q : Except err α → Trace K → Db K → Prop} (h : Sat I A T Q p tr db) :
    Sat I A T (fun r tr db' => Q r tr db' ∧ db.Le db') p tr db :=
  fun t mem asked ht => Prog.WP.up (R := fun s s' : Device K M => s.db.Le s'.db)
    (fun _ => Db.Le.refl _) (fun _ _ _ => Db.Le.trans) (fun _ _ hg => Moves.le hg.moves)
    (h t mem asked ht)

/-- A triple holds of a program that runs alone. If nothing was written, the database is the same. -/
theorem alone {C : Choice → Prop} {p : Run K M err α} {Q : Except err α → Trace K → Db K → Prop}
    {s s' : Device K M} {r : Except err α} (h : Sat (fun _ => True) A T Q p [] s.db)
    (ha : Prog.Alone C p.run s r s') : ∃ tr, Q r tr s'.db ∧ (Quiet tr → s'.db = s.db) := by
  obtain ⟨l, hq, hl⟩ := (h [] s.mem s.asked rfl).alone Device.db (fun _ => Db.Le.refl _)
    (fun _ _ _ _ => trivial) trivial ha
  rw [List.append_nil] at hq
  exact ⟨dbs l, hq, fun hquiet => hl fun x hx => hquiet _ (List.mem_map_of_mem hx)⟩

/-- Whatever is done next, a program whose errors are ours can be run for its value. -/
theorem seq {x : Run K M err α} {f : α → Run K M err β} {Q : Except err β → Trace K → Db K → Prop}
    {Q' : Except err α → Trace K → Db K → Prop} (hx : Sat I A T Q' x tr db)
    (he : ∀ e tr db, Q' (.error e) tr db → Q (.error e) tr db)
    (hf : ∀ a tr db, Q' (.ok a) tr db → Sat I A T Q (f a) tr db) : Sat I A T Q (x >>= f) tr db := by
  refine bind (hx.mono fun r tr db hr => ?_)
  cases r with
  | ok a => exact hf a tr db hr
  | error e => exact he e tr db hr

theorem attempt {err' : Type} {p : Run K M err' α}
    {Q : Except err (Except err' α) → Trace K → Db K → Prop}
    (h : Sat I A T (fun r tr db => Q (.ok r) tr db) p tr db) :
    Sat I A T Q (Op.attempt p.run : Run K M err _) tr db :=
  fun t mem asked ht => Op.wp_attempt (h t mem asked ht)

/-- Run `p` and go on with its result, error or not. -/
theorem attempt_seq {err' : Type} {p : Run K M err' α} {f : Except err' α → Run K M err β}
    {Q : Except err β → Trace K → Db K → Prop} {Q' : Except err' α → Trace K → Db K → Prop}
    (hp : Sat I A T Q' p tr db) (hf : ∀ r tr db, Q' r tr db → Sat I A T Q (f r) tr db) :
    Sat I A T Q (Op.attempt p.run >>= f) tr db :=
  bind (attempt (hp.mono hf))

theorem mapError {err' : Type} {f : err' → err} {p : Run K M err' α}
    {Q : Except err α → Trace K → Db K → Prop}
    (h : Sat I A T (fun r tr db => Q (r.mapError f) tr db) p tr db) :
    Sat I A T Q (Op.mapError f p.run : Run K M err _) tr db :=
  fun t mem asked ht => Op.wp_mapError (h t mem asked ht)

/-- An action that only looks. -/
theorem look {view : Choice → Device K M → Except err α} {Q : Except err α → Trace K → Db K → Prop}
    (h : ∀ db', db.Le db' → I db' → ∀ e mem asked,
      Q (view e ⟨db', mem, asked⟩) ((db', db') :: tr) db') :
    Sat I A T Q (ExceptT.mk (Prog.look view)) tr db := by
  intro t mem asked ht
  subst ht
  exact fun s hR hI e => ⟨⟨.inl rfl, .inl rfl⟩, h s.db hR hI e s.mem s.asked⟩

theorem find {toErr : StorageError → err} {k : Key}
    {Q : Except err (Option (Row K k)) → Trace K → Db K → Prop}
    (hv : ∀ db', db.Le db' → I db' → Q (.ok (db'.rows.lookup k)) ((db', db') :: tr) db')
    (hf : ∀ db', db.Le db' → I db' → ∀ f, f ≠ .notFound →
      Q (.error (toErr f)) ((db', db') :: tr) db') :
    Sat I A T Q (Arcium.find toErr k : Run K M err _) tr db := by
  refine look fun db' hle hI e mem asked => ?_
  have hr := e.reads db'.rows
  show Q (match e.read db'.rows k with
    | .ok v => .ok (some v) | .error .notFound => .ok none | .error f => .error (toErr f)) _ _
  split
  · next v h => rw [← hr.found k v h]; exact hv db' hle hI
  · next h => rw [← hr.missing k h]; exact hv db' hle hI
  · next f hne h => exact hf db' hle hI f hne

theorem keysUnder {toErr : StorageError → err} {view : Rows K → α}
    {Q : Except err α → Trace K → Db K → Prop}
    (hv : ∀ db', db.Le db' → I db' → Q (.ok (view db'.rows)) ((db', db') :: tr) db')
    (hf : ∀ db', db.Le db' → I db' → ∀ f, Q (.error (toErr f)) ((db', db') :: tr) db') :
    Sat I A T Q (Arcium.keysUnder toErr view : Run K M err _) tr db := by
  refine look fun db' hle hI e mem asked => ?_
  show Q (match e.listFault with | some f => .error (toErr f) | none => .ok (view db'.rows)) _ _
  split
  · exact hf db' hle hI _
  · exact hv db' hle hI

theorem draw {view : Choice → α} {Q : Except err α → Trace K → Db K → Prop}
    (h : ∀ db', db.Le db' → I db' → ∀ a, Q (.ok a) ((db', db') :: tr) db') :
    Sat I A T Q (Arcium.draw view : Run K M err α) tr db := by
  intro t mem asked ht
  subst ht
  exact Op.wp_attempt fun s hR hI e => ⟨⟨.inl rfl, .inl rfl⟩, h s.db hR hI _⟩

theorem remembered {i : Nat} {view : M → α} {Q : Except err α → Trace K → Db K → Prop}
    (h : ∀ db', db.Le db' → I db' → ∀ a, Q (.ok a) ((db', db') :: tr) db') :
    Sat I A T Q (Arcium.remembered i view : Run K M err α) tr db := by
  intro t mem asked ht
  subst ht
  exact Op.wp_attempt fun s hR hI e => ⟨⟨.inl rfl, .inl rfl⟩, h s.db hR hI _⟩

theorem remember {i : Nat} {change : M → M} {Q : Except err Unit → Trace K → Db K → Prop}
    (h : ∀ db', db.Le db' → I db' → Q (.ok ()) ((db', db') :: tr) db') :
    Sat I A T Q (Arcium.remember i change : Run K M err Unit) tr db := by
  intro t mem asked ht
  subst ht
  exact Op.wp_attempt fun s hR hI e => ⟨⟨.inl rfl, .inl rfl⟩, h s.db hR hI⟩

theorem ask {request : Request} {view : Answer → Except err α}
    {Q : Except err α → Trace K → Db K → Prop}
    (h : ∀ db', db.Le db' → I db' → ∀ answer, A db' (request, answer) ∧
      Q (view answer) ((db', db') :: tr) db') :
    Sat I A T Q (Arcium.ask request view : Run K M err α) tr db := by
  intro t mem asked ht
  subst ht
  intro s hR hI e
  obtain ⟨ha, hq⟩ := h s.db hR hI e.relay
  exact ⟨⟨.inl rfl, .inr ⟨_, ha, rfl⟩⟩, hq⟩

/-- What a transaction that decides to write must meet, whatever becomes of its commit. -/
structure Commits (T : Db K → Rows K → Prop) (errs : TxErrors err)
    (Q : Except err α → Trace K → Db K → Prop) (tr : Trace K) (db : Db K) (a : α) (rows : Rows K) :
    Prop where
  step : T db rows
  ok : Q (.ok a) ((db, db.push rows) :: tr) (db.push rows)
  unknownStored : ∀ f, Q (.error (errs.onCommit f)) ((db, db.push rows) :: tr) (db.push rows)
  unknownLost : ∀ f, Q (.error (errs.onCommit f)) ((db, db) :: tr) db
  writeFault : ∀ f, Q (.error (errs.onWrite f)) ((db, db) :: tr) db

/-- What a transaction must meet, by the decision of its body. -/
def Decides (T : Db K → Rows K → Prop) (errs : TxErrors err)
    (Q : Except err α → Trace K → Db K → Prop) (tr : Trace K) (db : Db K) :
    Except err (α × List (Change K)) → Prop
  | .error x => Q (.error x) ((db, db) :: tr) db
  | .ok (a, []) => Q (.ok a) ((db, db) :: tr) db
  | .ok (a, c :: cs) => Commits T errs Q tr db a (db.rows.applyAll (c :: cs))

theorem tx {errs : TxErrors err}
    {body : ((k : Key) → Except StorageError (Row K k)) → Except err (α × List (Change K))}
    {Q : Except err α → Trace K → Db K → Prop}
    (hb : ∀ db', db.Le db' → I db' → ∀ read, Reads db'.rows read →
      Decides T errs Q tr db' (body read))
    (hf : ∀ db', db.Le db' → I db' → ∀ f, Q (.error (errs.onBegin f)) ((db', db') :: tr) db') :
    Sat I A T Q (Arcium.tx errs body : Run K M err α) tr db := by
  intro t mem asked ht
  subst ht
  intro s hR hI e
  have hd := hb s.db hR hI (e.read s.db.rows) (e.reads s.db.rows)
  have hg := hf s.db hR hI
  suffices Moves T s.db (txStep errs body e s.db).1 ∧
      Q (txStep errs body e s.db).2 ((s.db, (txStep errs body e s.db).1) :: dbs t)
        (txStep errs body e s.db).1 from ⟨⟨this.1, .inl rfl⟩, this.2⟩
  unfold txStep
  cases e.beginFault with
  | some f => exact ⟨.inl rfl, hg f⟩
  | none =>
    match h : body (e.read s.db.rows) with
    | .error x =>
      rw [h] at hd
      exact ⟨.inl rfl, hd⟩
    | .ok (a, []) =>
      rw [h] at hd
      exact ⟨.inl rfl, hd⟩
    | .ok (a, c :: cs) =>
      rw [h] at hd
      cases e.writeFault with
      | some f => exact ⟨.inl rfl, hd.writeFault f⟩
      | none =>
        match e.commit with
        | .ok => exact ⟨.inr ⟨_, hd.step, rfl⟩, hd.ok⟩
        | .unknown f true => exact ⟨.inr ⟨_, hd.step, rfl⟩, hd.unknownStored f⟩
        | .unknown f false => exact ⟨.inl rfl, hd.unknownLost f⟩

/-- A transaction writes at most once. If it wrote, it returns a value with `D`, or the error of a
commit. -/
theorem tx_once_of {errs : TxErrors err} {D : α → Prop}
    {body : ((k : Key) → Except StorageError (Row K k)) → Except err (α × List (Change K))}
    (hT : ∀ db' read a cs, db.Le db' → I db' → Reads db'.rows read → body read = .ok (a, cs) →
      cs ≠ [] → T db' (db'.rows.applyAll cs) ∧ D a) :
    Sat I A T (Once T (∃ a, D a ∧ · = .ok a) (∃ f, · = .error (errs.onCommit f)) (fun _ => True)
      tr db) (Arcium.tx errs body : Run K M err α) tr db := by
  refine tx (fun db' hle hI read hr => ?_) fun db' hle _ f => .failed (.step hle) trivial
  match h : body read with
  | .error x => exact .failed (.step hle) trivial
  | .ok (a, []) => exact .failed (.step hle) trivial
  | .ok (a, c :: cs) =>
    obtain ⟨hs, hd⟩ := hT db' read a _ hle hI hr h (List.cons_ne_nil _ _)
    exact
      { step := hs
        ok := .written hle hs (.inl ⟨a, hd, rfl⟩)
        unknownStored := fun f => .written hle hs (.inr ⟨f, rfl⟩)
        unknownLost := fun f => .failed (.step hle) trivial
        writeFault := fun f => .failed (.step hle) trivial }

theorem tx_once {errs : TxErrors err}
    {body : ((k : Key) → Except StorageError (Row K k)) → Except err (α × List (Change K))}
    (hT : ∀ db' read a cs, db.Le db' → I db' → Reads db'.rows read → body read = .ok (a, cs) →
      cs ≠ [] → T db' (db'.rows.applyAll cs)) :
    Sat I A T (Once T (∃ a, · = .ok a) (∃ f, · = .error (errs.onCommit f)) (fun _ => True) tr db)
      (Arcium.tx errs body : Run K M err α) tr db :=
  (tx_once_of (D := fun _ => True) fun db' read a cs hle hI hr h hne =>
    ⟨hT db' read a cs hle hI hr h hne, trivial⟩).mono fun _ _ _ h =>
      h.imp (fun ⟨a, _, ha⟩ => ⟨a, ha⟩) id id

end Sat

end Arcium
