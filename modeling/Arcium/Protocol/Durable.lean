import Arcium.Protocol.Checkpoint
import Arcium.Storage.Store

/-!
# Staged transitions with a conditional commit (`core-protocol/src/durable.rs`)

A transition of a session runs on a copy of its ratchet and is written only if the store still holds
the record the copy was made from. `writeConditional` is the one transaction that checks and writes;
`createWith`, `commitWith` and `promoteWith` are its callers.

A `DurableSession` and the transition staged on it are always the same instance in the code above
this module, so the instance counter that pairs them in the source is left out.
-/

namespace Arcium

open Conc

/-! ## Conditional writes -/

/-- `Conflict`: why a conditional write was refused. -/
inductive Conflict where
  | recordExists
  | recordMissing
  | storedRecordUnreadable
  | storedRecordInvalid (e : SessionCheckpointError)
  | bindingMismatch (e : SessionCheckpointError)
  | roleMismatch
  | generationMismatch (expected found : UInt64)
  | recordChanged
  | superseded
  deriving DecidableEq, Repr

/-- `Expect`: what a write requires of the stored record. -/
inductive Expect (K : Type) : Key → Type where
  | absent {k : Key} : Expect K k
  | predecessor {peer : Peer} (generation : UInt64) (role : SessionRole) (binding : SessionBinding)
      (digest : Bytes32) : Expect K (.session peer)
  | exactly {k : Key} (want : Row K k) : Expect K k

/-- `Action`. -/
inductive Action (K : Type) (k : Key) where
  | put (value : Row K k)
  | delete
  | check

/-- `Write`: one entry of a conditional batch. -/
structure Write (K : Type) where
  key : Key
  expect : Expect K key
  action : Action K key

/-- `Current`: the stored record as seen inside the write transaction. -/
inductive Current (K : Type) (k : Key) where
  | missing
  | unreadable
  | present (value : Row K k)

/-- `WriteFailure`. -/
inductive WriteFailure where
  | conflict (index : Nat) (conflict : Conflict)
  | notCommitted (e : StorageError)
  | outcomeUnknown (e : StorageError)

/-- What one entry changes. -/
def Write.change {K : Type} (w : Write K) : Option (Change K) :=
  match w.action with
  | .put value => some ⟨w.key, some value⟩
  | .delete => some ⟨w.key, none⟩
  | .check => none

/-- `SideExpect`. -/
inductive SideExpect (K : Type) (k : Key) where
  | absent
  | exactly (want : Row K k)

/-- `SideWrite`: a record written together with a session record. It is never one itself. -/
structure SideWrite (K : Type) where
  key : Key
  expect : SideExpect K key
  action : Action K key
  not_session : key.isSession = false

inductive SideWriteError where
  | reservedKey
  | duplicateKey
  deriving DecidableEq, Repr

namespace SideWrite

variable {K : Type}

/-- `SideWrite::new`. -/
def new (key : Key) (expect : SideExpect K key) (action : Action K key) :
    Except SideWriteError (SideWrite K) :=
  if h : key.isSession = false then .ok ⟨key, expect, action, h⟩ else .error .reservedKey

def insert (key : Key) (value : Row K key) : Except SideWriteError (SideWrite K) :=
  new key .absent (.put value)

def requireAbsent (key : Key) : Except SideWriteError (SideWrite K) := new key .absent .check

def replace (key : Key) (expected value : Row K key) : Except SideWriteError (SideWrite K) :=
  new key (.exactly expected) (.put value)

def remove (key : Key) (expected : Row K key) : Except SideWriteError (SideWrite K) :=
  new key (.exactly expected) .delete

/-- The entry of the batch. -/
def toWrite (w : SideWrite K) : Write K :=
  { key := w.key, action := w.action
    expect := match w.expect with
      | .absent => .absent
      | .exactly want => .exactly want }

@[simp] theorem toWrite_key (w : SideWrite K) : w.toWrite.key = w.key := rfl

end SideWrite

/-- One round of the loop of `batch`. -/
def addSide {K : Type} (writes : List (Write K)) (w : SideWrite K) :
    Except SideWriteError (List (Write K)) :=
  if writes.any fun x => x.key == w.key then .error .duplicateKey
  else .ok (writes ++ [w.toWrite])

/-- `batch`: the session write, then the side writes, no key twice. -/
def batch {K : Type} (session : Write K) (side : List (SideWrite K)) :
    Except SideWriteError (List (Write K)) := side.foldlM addSide [session]

theorem foldlM_addSide {K : Type} {acc writes : List (Write K)} {side : List (SideWrite K)}
    (h : side.foldlM addSide acc = .ok writes) : writes = acc ++ side.map SideWrite.toWrite := by
  induction side generalizing acc with
  | nil => simpa using (Except.ok.inj h).symm
  | cons w side ih =>
    rw [List.foldlM_cons] at h
    simp only [bind, Except.bind, addSide] at h
    split at h
    · cases h
    · next acc' hw =>
      split at hw
      · cases hw
      · obtain rfl := Except.ok.inj hw
        simp [ih h]

theorem batch_ok {K : Type} {session : Write K} {side : List (SideWrite K)}
    {writes : List (Write K)} (h : batch session side = .ok writes) :
    writes = session :: side.map SideWrite.toWrite := foldlM_addSide h

section Platform

variable {P : Platform} {M err : Type}

/-- `check_precondition`. -/
def checkPrecondition (P : Platform) : {k : Key} → Current P.Key k → Expect P.Key k →
    Except Conflict Unit
  | _, .missing, .absent => .ok ()
  | _, _, .absent => .error .recordExists
  | _, .missing, .exactly _ => .error .recordMissing
  | _, .unreadable, .exactly _ => .error .storedRecordUnreadable
  | _, .present have_, .exactly want => if have_ = want then .ok () else .error .recordChanged
  | .session _, .missing, .predecessor .. => .error .recordMissing
  | .session _, .unreadable, .predecessor .. => .error .storedRecordUnreadable
  | .session _, .present record, .predecessor generation role binding digest =>
    match decodeSessionCheckpoint record binding with
    | .error .ourIdentityMismatch => .error (.bindingMismatch .ourIdentityMismatch)
    | .error .peerIdentityMismatch => .error (.bindingMismatch .peerIdentityMismatch)
    | .error e => .error (.storedRecordInvalid e)
    | .ok found =>
      if found.role ≠ role then .error .roleMismatch
      else if found.generation ≠ generation then
        .error (.generationMismatch generation found.generation)
      else if P.recordDigest record ≠ digest then .error .superseded
      else .ok ()

/-- The precondition of one entry, inside the transaction. -/
def checkWrite (P : Platform) (read : (k : Key) → Except StorageError (Row P.Key k)) (index : Nat)
    (w : Write P.Key) : Except WriteFailure Unit :=
  let check (current : Current P.Key w.key) : Except WriteFailure Unit :=
    (checkPrecondition P current w.expect).mapError (.conflict index)
  match read w.key with
  | .ok v => check (.present v)
  | .error .notFound => check .missing
  | .error .decryption => check .unreadable
  | .error e => .error (.notCommitted e)

/-- Every precondition, in order. -/
def checkWrites (P : Platform) (read : (k : Key) → Except StorageError (Row P.Key k)) :
    Nat → List (Write P.Key) → Except WriteFailure Unit
  | _, [] => .ok ()
  | index, w :: writes => do
    checkWrite P read index w
    checkWrites P read (index + 1) writes

/-- `write_conditional`. -/
def writeConditional (P : Platform) (writes : List (Write P.Key)) : Run P.Key M WriteFailure Unit :=
  tx ⟨.notCommitted, .notCommitted, .outcomeUnknown⟩ fun read => do
    checkWrites P read 0 writes
    return ((), writes.filterMap Write.change)

/-! ## Sessions -/

/-- `Status`. -/
inductive Status where
  | active
  | unresolved (attemptedGeneration : UInt64)
  | conflicted
  deriving DecidableEq, Repr

/-- `DurableSession`. -/
structure DurableSession (K : Type) where
  session : Session K
  role : SessionRole
  ourIdentityPk : Bytes32
  generation : UInt64
  recordDigest : Bytes32
  status : Status := .active

inductive StageError where
  | unresolved (attemptedGeneration : UInt64)
  | conflicted
  | generationExhausted
  | ratchet (e : RatchetError)
  | checkpoint (e : SessionCheckpointError)
  /-- The ratchet panicked: the call unwinds, with nothing written. -/
  | panic (msg : String)

/-- `StagedTransition`. -/
structure StagedTransition (K T : Type) where
  ratchet : DoubleRatchet K
  record : SessionRecord K
  output : T
  generation : UInt64
  baseGeneration : UInt64

inductive OpenError where
  | store (e : StorageError)
  | alreadyExists
  | sideConflict (index : Nat) (conflict : Conflict)
  | invalid (e : SessionCheckpointError)
  | notCommitted (e : StorageError)
  | outcomeUnknown (e : StorageError)
  | sideWrite (e : SideWriteError)
  | staleTransition

inductive CommitError where
  | unresolved (attemptedGeneration : UInt64)
  | conflicted
  | staleTransition
  | conflict (c : Conflict)
  | sideConflict (index : Nat) (conflict : Conflict)
  | notCommitted (e : StorageError)
  | outcomeUnknown (e : StorageError)
  | sideWrite (e : SideWriteError)

namespace DurableSession

/-- `DurableSession::new`. -/
def new (P : Platform) (session : Session P.Key) (role : SessionRole) (our : Bytes32)
    (generation : UInt64) (record : SessionRecord P.Key) : DurableSession P.Key :=
  { session, role, ourIdentityPk := our, generation, recordDigest := P.recordDigest record }

/-- What `create` and `promote` make of a failed write of a new session. -/
def openError : WriteFailure → OpenError
  | .conflict 0 _ => .alreadyExists
  | .conflict (index + 1) conflict => .sideConflict index conflict
  | .notCommitted e => .notCommitted e
  | .outcomeUnknown e => .outcomeUnknown e

/-- `create_with`. -/
def createWith (P : Platform) (session : Session P.Key) (role : SessionRole) (our : Bytes32)
    (side : List (SideWrite P.Key)) : Run P.Key M OpenError (DurableSession P.Key) :=
  match encodeSessionCheckpoint session role our 0 with
  | .error e => throw (.invalid e)
  | .ok record =>
    let this := DurableSession.new P session role our 0 record
    match batch ⟨.session session.peerIdentityPk, .absent, .put record⟩ side with
    | .error e => throw (.sideWrite e)
    | .ok writes => do
      Op.mapError openError (writeConditional P writes).run
      return this

/-- `from_record`. -/
def fromRecord (P : Platform) (record : SessionRecord P.Key) (binding : SessionBinding) :
    Except SessionCheckpointError (DurableSession P.Key) := do
  let restored ← decodeSessionCheckpoint record binding
  return DurableSession.new P restored.session restored.role binding.ourIdentityPk
    restored.generation record

/-- `load`. -/
def load (P : Platform) (binding : SessionBinding) :
    Run P.Key M OpenError (Option (DurableSession P.Key)) := do
  match ← find OpenError.store (.session binding.peerIdentityPk) with
  | none => return none
  | some record =>
    match fromRecord P record binding with
    | .ok session => return some session
    | .error e => throw (.invalid e)

variable {K : Type}

def hasReceived (s : DurableSession K) : Bool := s.session.ratchet.hasReceivingChain

def isLegacyUnconfirmed (s : DurableSession K) : Bool :=
  s.role == .responder && s.generation == 0 && s.session.ratchet.isInitialResponderState

/-- `holds_record`. -/
def holdsRecord (P : Platform) (s : DurableSession P.Key) (record : SessionRecord P.Key) : Bool :=
  P.recordDigest record == s.recordDigest

/-- `stage`. -/
def stage {T : Type} (s : DurableSession K) (op : DoubleRatchet K → Bytes → Outcome K T) :
    Except StageError (StagedTransition K T) :=
  match s.status with
  | .unresolved attemptedGeneration => .error (.unresolved attemptedGeneration)
  | .conflicted => .error .conflicted
  | .active =>
    if s.generation = 0xFFFFFFFFFFFFFFFF then .error .generationExhausted
    else
      let generation := s.generation + 1
      match op s.session.ratchet s.session.ad with
      | (.error (.error e), _) => .error (.ratchet e)
      | (.error (.panic msg), _) => .error (.panic msg)
      | (.ok output, ratchet) =>
        match encodeParts ratchet s.session.ad s.session.peerIdentityPk s.role s.ourIdentityPk
            generation with
        | .error e => .error (.checkpoint e)
        | .ok record => .ok { ratchet, record, output, generation, baseGeneration := s.generation }

/-- `stage_encrypt`. -/
def stageEncrypt (P : Platform) (s : DurableSession P.Key) (plaintext : Bytes) (nonce : Nonce) :
    Except StageError (StagedTransition P.Key (Header × Bytes)) :=
  s.stage fun r ad => DoubleRatchet.encrypt P.toCrypto plaintext ad nonce r

/-- `stage_decrypt`. -/
def stageDecrypt (P : Platform) (s : DurableSession P.Key) (header : Header) (ciphertext : Bytes)
    (fresh : StaticSecret) : Except StageError (StagedTransition P.Key Bytes) :=
  s.stage fun r ad => DoubleRatchet.decrypt P.toCrypto header ciphertext ad fresh r

/-- `commit_with`: the output or the error, and the instance it leaves behind. -/
def commitWith {T : Type} (P : Platform) (s : DurableSession P.Key)
    (staged : StagedTransition P.Key T) (side : List (SideWrite P.Key)) :
    Run P.Key M err (Except CommitError T × DurableSession P.Key) :=
  match s.status with
  | .unresolved attemptedGeneration => return (.error (.unresolved attemptedGeneration), s)
  | .conflicted => return (.error .conflicted, s)
  | .active =>
    if staged.baseGeneration ≠ s.generation then return (.error .staleTransition, s)
    else
      let peer := s.session.peerIdentityPk
      let binding : SessionBinding := ⟨s.ourIdentityPk, peer⟩
      match batch ⟨.session peer, .predecessor s.generation s.role binding s.recordDigest,
          .put staged.record⟩ side with
      | .error e => return (.error (.sideWrite e), s)
      | .ok writes => do
        match ← Op.attempt (writeConditional P writes).run with
        | .ok () =>
          return (.ok staged.output,
            { s with session := { s.session with ratchet := staged.ratchet }
                     generation := staged.generation
                     recordDigest := P.recordDigest staged.record })
        | .error (.conflict 0 c) => return (.error (.conflict c), { s with status := .conflicted })
        | .error (.conflict (index + 1) c) => return (.error (.sideConflict index c), s)
        | .error (.notCommitted e) => return (.error (.notCommitted e), s)
        | .error (.outcomeUnknown e) =>
          return (.error (.outcomeUnknown e), { s with status := .unresolved staged.generation })

end DurableSession

/-- `ProvisionalSession`: an unconfirmed responder session, in memory only. -/
structure ProvisionalSession (K : Type) where
  inner : DurableSession K

namespace ProvisionalSession

/-- `ProvisionalSession::new`. -/
def new (P : Platform) (session : Session P.Key) (role : SessionRole) (our : Bytes32) :
    Except SessionCheckpointError (ProvisionalSession P.Key) := do
  let record ← encodeSessionCheckpoint session role our 0
  return ⟨DurableSession.new P session role our 0 record⟩

/-- `stage_first_decrypt`. -/
def stageFirstDecrypt (P : Platform) (s : ProvisionalSession P.Key) (header : Header)
    (ciphertext : Bytes) (fresh : StaticSecret) :
    Except StageError (StagedTransition P.Key Bytes) :=
  s.inner.stageDecrypt P header ciphertext fresh

/-- `promote_with`. -/
def promoteWith (P : Platform) (s : ProvisionalSession P.Key)
    (staged : StagedTransition P.Key Bytes) (side : List (SideWrite P.Key)) :
    Run P.Key M OpenError (DurableSession P.Key × Bytes) :=
  if staged.baseGeneration ≠ 0 then throw .staleTransition
  else
    match batch ⟨.session s.inner.session.peerIdentityPk, .absent, .put staged.record⟩ side with
    | .error e => throw (.sideWrite e)
    | .ok writes => do
      Op.mapError DurableSession.openError (writeConditional P writes).run
      return ({ s.inner with session := { s.inner.session with ratchet := staged.ratchet }
                             generation := staged.generation
                             recordDigest := P.recordDigest staged.record }, staged.output)

end ProvisionalSession

end Platform

end Arcium
