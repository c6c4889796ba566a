import Arcium.Network.Honest

/-!
# The passes of a round, with a log

`scans`: the two passes of `sync_round` over the mailbox. `scansL` is the same program, which also
notes each page it fetched, each envelope it processed, with the result, and each deletion. Without
its log it is `scans` (`scansL_erases`), which is the middle of `syncRound` (`syncRound_scans`).
-/

namespace Arcium

open Conc

/-- What a pass does, in order. -/
inductive Event where
  | fetched (pass : Pass)
  | processed (pass : Pass) (seq : UInt64) (bytes : Bytes) (r : Except CoreError Fate)
  | deleted (pass : Pass)

/-- The envelope that an event processes. -/
def Event.envelope : Event → Option (UInt64 × Bytes)
  | .processed _ seq bytes _ => some (seq, bytes)
  | _ => none

def Event.pass : Event → Pass
  | .fetched pass | .processed pass _ _ _ | .deleted pass => pass

/-- Whether it is a page of `pass`. -/
def Event.isPage (pass : Pass) : Event → Bool
  | .fetched pass' => pass' == pass
  | _ => false

/-- Whether the relay was asked. -/
def Event.asks : Event → Bool
  | .processed _ _ _ _ => false
  | _ => true

/-- Whether it is a processing that failed. -/
def Event.fails : Event → Bool
  | .processed _ _ _ (.error _) => true
  | _ => false

/-- The envelopes that were processed, in order. -/
def processedIn (log : List Event) : List (UInt64 × Bytes) := log.filterMap Event.envelope

/-- A part of a round that keeps a log. -/
abbrev Logged (P : AppPlatform) (α : Type) :=
  ExceptT CoreError (StateT (SyncReport × List Event) (Prog Choice (Device P.Key Memory))) α

namespace Logged

variable {P : AppPlatform} {α β : Type}

/-- A part of a round that is not noted. -/
def quiet (x : Round P α) : Logged P α :=
  ExceptT.mk fun st => (x.run.run st.1).bind fun r => .ret (r.1, r.2, st.2)

/-- A part of a round that is noted, with its result. -/
def noting (event : Except CoreError α → Event) (x : Round P α) : Logged P α :=
  ExceptT.mk fun st => (x.run.run st.1).bind fun r => .ret (r.1, r.2, st.2 ++ [event r.1])

/-- `x` is `y` with a log. -/
def Erases (x : Logged P α) (y : Round P α) : Prop :=
  ∀ report log, (x.run.run (report, log)).bind (fun r => .ret (r.1, r.2.1)) = y.run.run report

namespace Erases

theorem pure {a : α} : Erases (Pure.pure a : Logged P α) (Pure.pure a) := fun _ _ => rfl

theorem throw {e : CoreError} : Erases (MonadExcept.throw e : Logged P α) (MonadExcept.throw e) :=
  fun _ _ => rfl

theorem quiet (x : Round P α) : Erases (Logged.quiet x) x := fun _ _ =>
  (Prog.bind_assoc _ _ _).trans (Prog.bind_ret _)

theorem noting (event : Except CoreError α → Event) (x : Round P α) :
    Erases (Logged.noting event x) x := fun _ _ =>
  (Prog.bind_assoc _ _ _).trans (Prog.bind_ret _)

theorem bind {x : Logged P α} {y : Round P α} {f : α → Logged P β} {g : α → Round P β}
    (hx : Erases x y) (hf : ∀ a, Erases (f a) (g a)) : Erases (x >>= f) (y >>= g) := by
  intro report log
  have h := hx report log
  show ((x.run.run (report, log)).bind _).bind _ = (y.run.run report).bind _
  rw [← h, Prog.bind_assoc, Prog.bind_assoc]
  congr 1
  funext r
  obtain ⟨r, report', log'⟩ := r
  cases r with
  | ok a => exact hf a report' log'
  | error e => rfl

theorem ite {c : Prop} [Decidable c] {x x' : Logged P α} {y y' : Round P α} (h : Erases x y)
    (h' : Erases x' y') : Erases (if c then x else x') (if c then y else y') := by
  split
  · exact h
  · exact h'

end Erases

end Logged

namespace Network

open Logged
open Round (core)

variable {P : AppPlatform}

/-- `scanEnvelope`, with a log. -/
def scanEnvelopeL (i : Nat) (pass : Pass) (seq : UInt64) (bytes : Bytes) (s : Scan) :
    Logged P Scan := do
  let s := { s with after := seq, seen := s.seen + 1 }
  if pass = .handshakes then quiet (Round.tally fun r => { r with fetched := r.fetched + 1 })
  let env := Envelope.decode bytes
  if !Pass.selects pass env then return s
  quiet (noteFate seq bytes s (← noting (.processed pass seq bytes) (fateOf i env)))

/-- `scanItems`, with a log. -/
def scanItemsL (i : Nat) (pass : Pass) (until_ : UInt64) :
    List (UInt64 × Bytes) → Scan → Logged P (Scan × Bool)
  | [], s => return (s, false)
  | (seq, bytes) :: items, s => do
    if seq ≤ s.after then throw (.network "relay returned envelopes out of order")
    if until_ < seq then return (s, true)
    let s ← scanEnvelopeL i pass seq bytes s
    if s.seen = maxScanEnvelopes ∨ seq = until_ then return (s, true)
    scanItemsL i pass until_ items s

/-- `scanPages`, with a log. -/
def scanPagesL (i : Nat) (our : Peer) (pass : Pass) (until_ : UInt64) : Nat → Scan → Logged P Scan
  | 0, s => return s
  | pages + 1, s => do
    let items ← noting (fun _ => .fetched pass)
      (core (request (.fetchAfter our s.after maxFetch) Answer.items))
    if maxFetch.toNat < items.length then
      throw (.network "relay returned more envelopes than asked for")
    if items.isEmpty then return s
    let (s, ended) ← scanItemsL i pass until_ items s
    if ended || items.length < minPage then return s
    scanPagesL i our pass until_ pages s

/-- `scan`, with a log. -/
def scanL (i : Nat) (our : Peer) (pass : Pass) (until_ : UInt64) : Logged P (Option UInt64) := do
  let s ← scanPagesL i our pass until_ maxScanPages {}
  if !s.delete.isEmpty then
    noting (fun _ => .deleted pass) (core (request (.delete our s.delete) fun _ => ()))
  return if 0 < s.after then some s.after else none

/-- The two passes of `sync_round`, with a log. -/
def scansL (i : Nat) (our : Peer) : Logged P Unit := do
  match ← scanL i our .handshakes 0xFFFFFFFFFFFFFFFF with
  | some reached =>
    let _ ← scanL i our .messages reached
  | none => pure ()

/-- The two passes of `sync_round`. -/
def scans (i : Nat) (our : Peer) : Round P Unit := do
  match ← scan i our .handshakes 0xFFFFFFFFFFFFFFFF with
  | some reached =>
    let _ ← scan i our .messages reached
  | none => pure ()

theorem scanEnvelopeL_erases (i : Nat) (pass : Pass) (seq : UInt64) (bytes : Bytes) (s : Scan) :
    Erases (scanEnvelopeL i pass seq bytes s : Logged P Scan) (scanEnvelope i pass seq bytes s) := by
  unfold scanEnvelopeL scanEnvelope
  dsimp only
  split
  · refine .bind (.quiet _) fun _ => ?_
    split
    · exact .pure
    · exact .bind (.noting _ _) fun _ => .quiet _
  · split
    · exact .pure
    · exact .bind (.noting _ _) fun _ => .quiet _

theorem scanItemsL_erases (i : Nat) (pass : Pass) (until_ : UInt64) (items : List (UInt64 × Bytes))
    (s : Scan) :
    Erases (scanItemsL i pass until_ items s : Logged P _) (scanItems i pass until_ items s) := by
  induction items generalizing s with
  | nil => exact .pure
  | cons x items ih =>
    obtain ⟨seq, bytes⟩ := x
    unfold scanItemsL scanItems
    dsimp only
    refine .ite (.bind .throw fun _ => .ite .pure ?_) (.ite .pure ?_)
    all_goals
      refine .bind (scanEnvelopeL_erases i pass seq bytes s) fun s => ?_
      exact .ite .pure (ih s)

theorem scanPagesL_erases (i : Nat) (our : Peer) (pass : Pass) (until_ : UInt64) (pages : Nat)
    (s : Scan) : Erases (scanPagesL i our pass until_ pages s : Logged P _)
      (scanPages i our pass until_ pages s) := by
  induction pages generalizing s with
  | zero => exact .pure
  | succ pages ih =>
    refine .bind (.noting _ _) fun items => ?_
    dsimp only
    refine .ite (.bind .throw fun _ => .ite .pure ?_) (.ite .pure ?_)
    all_goals
      refine .bind (scanItemsL_erases i pass until_ items s) fun _ => ?_
      exact .ite .pure (ih _)

theorem scanL_erases (i : Nat) (our : Peer) (pass : Pass) (until_ : UInt64) :
    Erases (scanL i our pass until_ : Logged P _) (scan i our pass until_) := by
  refine .bind (scanPagesL_erases i our pass until_ maxScanPages {}) fun s => ?_
  exact .ite (.bind (.noting _ _) fun _ => .pure) .pure

/-- Without its log `scansL` is the code. -/
theorem scansL_erases (i : Nat) (our : Peer) : Erases (scansL i our : Logged P _) (scans i our) := by
  refine .bind (scanL_erases i our .handshakes _) fun reached => ?_
  cases reached with
  | some reached => exact .bind (scanL_erases i our .messages reached) fun _ => .pure
  | none => exact .pure

/-- The code is the middle of `sync_round`. -/
theorem syncRound_scans (i : Nat) : (syncRound i : Round P Unit) = (do
    let before ← core sessions
    settleSessions i before
    core connect
    core putBundle
    publishPending i before
    let our ← core Core.ourIdentityPk
    scans i our
    let after ← core sessions
    publishPending i after) := by
  unfold syncRound scans
  simp only [bind_assoc]
  congr 1; funext before
  congr 1; funext _
  congr 1; funext _
  congr 1; funext _
  congr 1; funext _
  congr 1; funext our
  congr 1; funext reached
  cases reached with
  | some reached => simp
  | none => simp

end Network

end Arcium
