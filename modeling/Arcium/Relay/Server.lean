import Arcium.Base.Bytes
import Arcium.Base.SortedMap
import Mathlib.Logic.Function.Basic
import Mathlib.Data.List.Infix

/-!
# The relay (`relay/src/protocol.rs`, `relay/src/server.rs`)

A mailbox per recipient key, in memory, and one published prekey bundle per owner key. `handle` is
one decoded request, under the lock of the state.

A time is a number of nanoseconds. `duration_since` is zero if the clock went back, as the
subtraction of numbers is. A mailbox that does not exist is an empty one: no answer tells them apart.
-/

namespace Arcium

namespace Relay

/-- `MAX_FRAME`. -/
def maxFrame : Nat := 1 <<< 20

/-- `MAX_ENVELOPE`. -/
def maxEnvelope : Nat := 64 * 1024

/-- `MIN_PAGE`. -/
def minPage : Nat := (maxFrame - 3) / (12 + maxEnvelope)

/-- `MAX_BUNDLE`. -/
def maxBundle : Nat := 1024

/-- `MAX_FETCH`. -/
def maxFetch : UInt16 := 256

/-- `DEFAULT_MAX_MAILBOX`. -/
def defaultMaxMailbox : Nat := 4096

/-- `Key`: the owner of a mailbox or of a bundle. -/
abbrev Key := Bytes32

/-- `Request`. -/
inductive Request where
  | putBundle (owner : Key) (bundle : Bytes)
  | getBundle (owner : Key)
  | send (recipient : Key) (envelope : Bytes)
  | fetch (recipient : Key) (max : UInt16)
  | delete (recipient : Key) (seqs : List UInt64)
  | fetchAfter (recipient : Key) (after : UInt64) (max : UInt16)
  deriving DecidableEq

/-- `ErrorCode`. -/
inductive ErrorCode where
  | badRequest
  | tooLarge
  | full
  deriving DecidableEq, Repr

/-- `Response`. -/
inductive Response where
  | ok
  | bundle (b : Bytes)
  | notFound
  | accepted (seq : UInt64)
  | items (items : List (UInt64 × Bytes))
  | error (code : ErrorCode)
  deriving DecidableEq

/-- `RelayConfig`; what it logs is left out. -/
structure Config where
  maxMailbox : Nat := defaultMaxMailbox
  ttl : Nat := 7 * 24 * 3600 * 1000000000
  canary : Option Bytes := none

/-- A mailbox: each envelope under its number, with the time it was stored. -/
abbrev Mailbox := SortedMap UInt64 (Nat × Bytes)

/-- `State`. -/
structure State where
  nextSeq : UInt64
  mailboxes : Key → Mailbox := fun _ => .empty
  bundles : Key → Option Bytes := fun _ => none
  canaryHits : UInt64 := 0

/-- The state that `serve` starts with, unless it refuses the configuration. -/
def serve (config : Config) : Except String State :=
  if 1 ≤ config.maxMailbox ∧ config.maxMailbox ≤ defaultMaxMailbox then .ok { nextSeq := 1 }
  else .error s!"max_mailbox must be between 1 and {defaultMaxMailbox}, got {config.maxMailbox}"

/-- The mailbox without what has expired. -/
def Mailbox.live (m : Mailbox) (config : Config) (now : Nat) : Mailbox :=
  m.retain fun _ (t, _) => decide (now - t < config.ttl)

def State.setMailbox (s : State) (key : Key) (m : Mailbox) : State :=
  { s with mailboxes := Function.update s.mailboxes key m }

/-- The envelopes that fit in one frame, of which `size` bytes are used. -/
def takeFitting (size : Nat) : List (UInt64 × Bytes) → List (UInt64 × Bytes)
  | [] => []
  | (seq, envelope) :: rest =>
    let size := size + (12 + envelope.length)
    if size ≤ maxFrame then (seq, envelope) :: takeFitting size rest else []

/-- `fetch_after`, which also drops what has expired. -/
def fetchAfter (s : State) (recipient : Key) (after : UInt64) (max : UInt16) (now : Nat)
    (config : Config) : List (UInt64 × Bytes) × State :=
  let max := min max maxFetch
  let m := (s.mailboxes recipient).live config now
  let listed := (m.after after).take max.toNat
  (takeFitting 3 (listed.map fun (seq, _, envelope) => (seq, envelope)), s.setMailbox recipient m)

/-- Whether `canary` is in the envelope. -/
def Config.alerts (config : Config) (envelope : Bytes) : Bool :=
  match config.canary with
  | some canary => !canary.isEmpty && decide (canary <:+: envelope)
  | none => false

/-- The `Send` arm of `handle`, once the size is checked. -/
def store (s : State) (recipient : Key) (envelope : Bytes) (now : Nat) (config : Config) :
    Response × State :=
  let s := if config.alerts envelope then { s with canaryHits := s.canaryHits + 1 } else s
  let seq := s.nextSeq
  let mailbox := (s.mailboxes recipient).live config now
  match mailbox.entries.find? fun (_, _, e) => e == envelope with
  | some (existing, _) => (.accepted existing, s.setMailbox recipient mailbox)
  | none =>
    if config.maxMailbox ≤ mailbox.len then (.error .full, s.setMailbox recipient mailbox)
    -- `checked_add`: the numbers do not wrap.
    else if seq = 0xFFFFFFFFFFFFFFFF then (.error .full, s.setMailbox recipient mailbox)
    else
      (.accepted seq,
        { s.setMailbox recipient (mailbox.insert seq (now, envelope)) with nextSeq := seq + 1 })

/-- `handle`. -/
def handle (config : Config) (now : Nat) (request : Request) (s : State) : Response × State :=
  match request with
  | .putBundle owner bundle =>
    if maxBundle < bundle.length then (.error .tooLarge, s)
    else (.ok, { s with bundles := Function.update s.bundles owner (some bundle) })
  | .getBundle owner =>
    match s.bundles owner with
    | some b => (.bundle b, s)
    | none => (.notFound, s)
  | .send recipient envelope =>
    if maxEnvelope < envelope.length then (.error .tooLarge, s)
    else store s recipient envelope now config
  | .fetch recipient max =>
    let (items, s) := fetchAfter s recipient 0 max now config
    (.items items, s)
  | .fetchAfter recipient after max =>
    let (items, s) := fetchAfter s recipient after max now config
    (.items items, s)
  | .delete recipient seqs =>
    (.ok, s.setMailbox recipient (seqs.foldl (fun m seq => m.remove seq) (s.mailboxes recipient)))

end Relay

end Arcium
