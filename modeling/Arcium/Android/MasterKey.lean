import Arcium.Conc.System
import Arcium.Base.Bytes

/-!
# The master key and the start of the app

The store is encrypted under a master key that is kept on the disk only wrapped, under a key of the
Keystore. The app's start (`AppStartup.retry`) opens the store, or says why it cannot, and makes a new
master key on a first run only. Any of its accesses may throw, the process may die after any of them,
and files and keys may be lost at any time, also while it runs.

* `load`, `openStore`, `initializeApp`, `retry`: the start of the app, as programs over the phone.
* `App.Step`: a phone on which the app is started, retried, killed, and loses files.
* `key_kept`: what is stored was written under one master key, which is the one that the app runs
  with, and no check replaces a key or a file.
-/

namespace Arcium

open Conc

namespace Startup

/-- A `Throwable`: an `Exception` (of the core or not) or an `Error`, and its class. -/
structure Thrown where
  isException : Bool
  isCore : Bool
  simpleName : String
  deriving DecidableEq

/-- `IllegalStateException`, which `check` throws. -/
def illegalState : Thrown := ⟨true, false, "IllegalStateException"⟩

/-- AES-GCM under the keys of the Keystore. -/
structure WrapCipher (K : Type) where
  encrypt : K → (iv : Bytes) → Bytes → Bytes
  decrypt : K → (iv : Bytes) → Bytes → Except Thrown Bytes

/-- What outlasts the process. Of the store and its journal: the keys of the data in them. -/
structure Disk (K : Type) where
  blob : Option Bytes
  tmp : Option Bytes
  store : Option (List Bytes32)
  journal : Option (List Bytes32)
  wrapKey : Option K

/-- `StartupProblem`. -/
inductive StartupProblem where
  | keyMissingForExistingData
  | keyUnavailable (reason : String)
  | storeUnavailable (reason : String)
  deriving DecidableEq

/-- `StartupState`. -/
inductive StartupState where
  | checking
  | ready
  | blocked (problem : StartupProblem)
  deriving DecidableEq

/-- The disk, and what the process holds: the state of its start, and the key of `ArciumApp.core`. -/
structure Phone (K : Type) where
  disk : Disk K
  state : StartupState
  core : Option Bytes32

/-- What an access meets: whether it throws, and then whether it had its effect; what is drawn; how
much of a file is written first; whether a rename succeeds; whether a journal is left behind. -/
structure Chance (K : Type) where
  throws : Option Thrown
  landed : Bool
  wrapKey : K
  masterKey : Bytes32
  iv : Bytes
  part : Nat
  renamed : Bool
  journalLeft : Bool

abbrev Io (K α : Type) := Op (Chance K) (Phone K) Thrown α

/-- `MasterKeyResult`. -/
inductive MasterKeyResult where
  | available (key : Bytes32)
  | missingForExistingStore
  | unavailable (reason : String)

/-- `StoreStartup.Result`, with the key of the core that is open. -/
inductive OpenResult where
  | opened (core : Bytes32)
  | failed (problem : StartupProblem)

/-- `GCM_IV_BYTES`. -/
def gcmIvBytes : Nat := 12

/-- `BLOB_VERSION`. -/
def blobVersion : UInt8 := 1

section Source

variable {K : Type} (C : WrapCipher K)

/-- An access to a file, the Keystore or another service. -/
def access {α : Type} (f : Chance K → Phone K → Phone K × α) : Io K α :=
  ExceptT.mk (Prog.atomic fun e s =>
    match e.throws with
    | none => ((f e s).1, .ok (f e s).2)
    | some t => (if e.landed then (f e s).1 else s, .error t))

/-- `check`. -/
def check (condition : Bool) : Io K Unit := if condition then pure () else throw illegalState

/-- Whether a file is there. -/
def fileExists {α : Type} (file : Disk K → Option α) : Io K Bool :=
  Op.attempt (Prog.look fun _ s => (file s.disk).isSome)

/-- `storeExists`. -/
def storeExists : Io K Bool := do
  if ← fileExists Disk.store then return true
  fileExists Disk.journal

/-- `existingWrapKey`. -/
def existingWrapKey : Io K (Option K) := access fun _ s => (s, s.disk.wrapKey)

/-- `getOrCreateWrapKey`. -/
def getOrCreateWrapKey : Io K K := do
  match ← existingWrapKey with
  | some wrapKey => return wrapKey
  | none => access fun e s => ({ s with disk.wrapKey := some e.wrapKey }, e.wrapKey)

/-- `wrap`. The initialization vector is the cipher's. -/
def wrap (masterKey : Bytes32) (wrapKey : K) : Io K Bytes := do
  let iv ← access fun e s => (s, e.iv)
  check (iv.length == gcmIvBytes)
  let ciphertext ← access fun _ s => (s, C.encrypt wrapKey iv masterKey.val)
  return [blobVersion] ++ iv ++ ciphertext

/-- `unwrap`. -/
def unwrap (blob : Bytes) (wrapKey : K) : Io K Bytes32 := do
  check (decide (1 + gcmIvBytes < blob.length) && blob[0]? == some blobVersion)
  let iv := (blob.drop 1).take gcmIvBytes
  let ciphertext := blob.drop (1 + gcmIvBytes)
  match ← access fun _ s => (s, C.decrypt wrapKey iv ciphertext) with
  | .error t => throw t
  | .ok masterKey =>
    if h : masterKey.length = 32 then return ⟨masterKey, h⟩ else throw illegalState

/-- `blobFile.readBytes()`, of a file that may be gone. -/
def readBlob : Io K Bytes := do
  match ← access fun _ s => (s, s.disk.blob) with
  | some blob => return blob
  | none => throw ⟨true, false, "FileNotFoundException"⟩

/-- `tmp.writeBytes`: not at once. -/
def writeTmp (bytes : Bytes) : Io K Unit := do
  access fun e s => ({ s with disk.tmp := some (bytes.take e.part) }, ())
  access fun _ s => ({ s with disk.tmp := some bytes }, ())

/-- `tmp.renameTo(blobFile)`: at once, or not at all. -/
def renameTmp : Io K Bool :=
  Op.attempt (Prog.atomic fun e s =>
    match s.disk.tmp, e.renamed with
    | some bytes, true => ({ s with disk.blob := some bytes, disk.tmp := none }, true)
    | _, _ => (s, false))

/-- `create`. -/
def create : Io K MasterKeyResult :=
  tryCatch (do
    let wrapKey ← getOrCreateWrapKey
    let masterKey ← access fun e s => (s, e.masterKey)
    let blob ← wrap C masterKey wrapKey
    writeTmp blob
    check (← renameTmp)
    return .available masterKey) fun t =>
      if t.isException then
        return .unavailable s!"a new master key could not be stored ({t.simpleName})"
      else throw t

/-- The part of `load` that finds a blob. -/
def loadExisting : Io K MasterKeyResult := do
  let found ← tryCatch (Except.ok <$> existingWrapKey) fun t =>
    if t.isException then
      return .error (.unavailable s!"the Keystore could not be read ({t.simpleName})")
    else throw t
  match found with
  | .error unavailable => return unavailable
  | .ok none => return .unavailable "the wrapping key is missing from the Keystore"
  | .ok (some wrapKey) =>
    tryCatch (do return .available (← unwrap C (← readBlob) wrapKey)) fun t =>
      if t.isException then
        return .unavailable s!"the wrapped master key could not be read ({t.simpleName})"
      else throw t

/-- `load`. -/
def load : Io K MasterKeyResult := do
  if ← fileExists Disk.blob then
    loadExisting C
  else if ← storeExists then
    return .missingForExistingStore
  else
    create C

/-- All the keys under which there may be data. -/
def Disk.keys (d : Disk K) : List Bytes32 := d.store.getD [] ++ d.journal.getD []

/-- `openEncryptedDb`: the store is created if it is not there, and a journal is rolled back into it.
If it throws, it may have come halfway. -/
def openEncryptedDb (key : Bytes32) : Io K Bytes32 :=
  ExceptT.mk (Prog.atomic fun e s =>
    let keys := s.disk.keys ++ [key]
    match e.throws with
    | none => ({ s with disk.store := some keys, disk.journal := none }, .ok key)
    | some t =>
      let journal := if e.journalLeft then some keys else none
      (if e.landed then { s with disk.store := some keys, disk.journal := journal } else s, .error t))

/-- `StoreStartup.open`. -/
def openStore : Io K OpenResult := do
  match ← load C with
  | .missingForExistingStore => return .failed .keyMissingForExistingData
  | .unavailable reason => return .failed (.keyUnavailable reason)
  | .available key =>
    tryCatch (do return .opened (← openEncryptedDb key)) fun t =>
      if t.isCore then
        return .failed (.storeUnavailable s!"the store did not open ({t.simpleName})")
      else throw t

/-- `ArciumApp.initialize`. `closeEncryptedDb` changes nothing that is stored. -/
def initializeApp : Io K StartupState := do
  match ← openStore C with
  | .failed problem => return .blocked problem
  | .opened core =>
    tryCatch (access fun _ s => (s, ())) fun t => do
      if t.isException then
        access fun _ s => (s, ())
      throw t
    Op.attempt (Prog.atomic fun _ s => ({ s with core := some core }, ()))
    return .ready

/-- `_state.value = state`. -/
def setState (state : StartupState) : Io K Unit :=
  Op.attempt (Prog.atomic fun _ s => ({ s with state }, ()))

/-- `AppStartup.retry`, and `start`. -/
def retry : Io K StartupState := do
  let current ← Op.attempt (Prog.look fun _ s => s.state)
  if current = .ready then
    return current
  setState .checking
  let outcome ← tryCatch (initializeApp C) fun t =>
    if t.isException then
      return .blocked (.storeUnavailable s!"start-up failed ({t.simpleName})")
    else throw t
  let next := if outcome = .checking then
    .blocked (.storeUnavailable "start-up check did not finish") else outcome
  setState next
  return next

end Source

/-! ## The phone -/

variable {K : Type}

/-- Files and keys may be lost, and while the core is open it writes journals. -/
structure Outside (s s' : Phone K) : Prop where
  state : s'.state = s.state
  core : s'.core = s.core
  blob : s'.disk.blob = s.disk.blob ∨ s'.disk.blob = none
  tmp : s'.disk.tmp = s.disk.tmp ∨ s'.disk.tmp = none
  store : s'.disk.store = s.disk.store ∨ s'.disk.store = none
  journal : s'.disk.journal = s.disk.journal ∨ s'.disk.journal = none ∨
    ∃ key keys, s.core = some key ∧ s'.disk.journal = some keys ∧
      ∀ k ∈ keys, k ∈ s.disk.keys ∨ k = key
  wrapKey : s'.disk.wrapKey = s.disk.wrapKey ∨ s'.disk.wrapKey = none

/-- The phone, and the check that runs: `retry` holds a lock. -/
structure App (K : Type) where
  phone : Phone K
  running : Option (Prog (Chance K) (Phone K) (Except Thrown StartupState))

/-- A process that just began. -/
def Phone.boot (disk : Disk K) : Phone K := ⟨disk, .checking, none⟩

/-- An app that was just installed. -/
def App.installed : App K := ⟨.boot ⟨none, none, none, none, none⟩, none⟩

section Steps

variable (C : WrapCipher K)

/-- What happens to the phone. -/
inductive App.Step : App K → App K → Prop
  | retry {a : App K} : a.running = none → Step a { a with running := some (retry C).run }
  | act {a : App K} (upd : Chance K → Phone K → Phone K)
      (next : Chance K → Phone K → Prog (Chance K) (Phone K) (Except Thrown StartupState))
      (e : Chance K) : a.running = some (.act upd next) →
      Step a ⟨upd e a.phone, some (next e a.phone)⟩
  | ret {a : App K} (outcome : Except Thrown StartupState) : a.running = some (.ret outcome) →
      Step a { a with running := none }
  /-- The process is gone, and another begins. -/
  | die {a : App K} : Step a ⟨.boot a.phone.disk, none⟩
  | outside {a : App K} (phone : Phone K) : Outside a.phone phone → Step a { a with phone }

/-- The phones of every run from the installation. -/
inductive App.Reach : App K → Prop
  | installed : Reach .installed
  | step {a a' : App K} : Reach a → App.Step C a a' → Reach a'

end Steps

/-! ## What holds of the disk -/

section Invariant

variable (C : WrapCipher K)

/-- The blob is `key` under `wrapKey`. -/
def Wraps (blob : Bytes) (wrapKey : K) (key : Bytes32) : Prop :=
  ∃ iv : Bytes, iv.length = gcmIvBytes ∧ blob = [blobVersion] ++ iv ++ C.encrypt wrapKey iv key.val

/-- All data is under `key`, and so is what the blob wraps, under the wrapping key if there is one. -/
structure Under (key : Bytes32) (d : Disk K) : Prop where
  keys : ∀ k ∈ d.keys, k = key
  blob : ∀ blob, d.blob = some blob →
    ∃ wrapKey, Wraps C blob wrapKey key ∧ ∀ w, d.wrapKey = some w → w = wrapKey

/-- The invariant of the phone. -/
structure PhoneOk (s : Phone K) : Prop where
  disk : ∃ key, Under C key s.disk
  core : ∀ key, s.core = some key → Under C key s.disk
  ready : s.state = .ready → s.core.isSome

/-- Neither a blob nor any data. -/
structure First (d : Disk K) : Prop where
  blob : d.blob = none
  store : d.store = none
  journal : d.journal = none

/-- What an action of a check does to the disk: it makes a blob and a wrapping key only where there is
neither a blob nor data, and a wrapping key only where there is none; it opens the store with the key
of all that is there. -/
structure Careful (d d' : Disk K) : Prop where
  blob : d'.blob = d.blob ∨ First d
  wrapKey : d'.wrapKey = d.wrapKey ∨ d.wrapKey = none ∧ First d
  data : d'.store = d.store ∧ d'.journal = d.journal ∨
    ∃ key, Under C key d ∧ d'.store = some (d.keys ++ [key])

/-- An action of a check. -/
def Acts (s s' : Phone K) : Prop := PhoneOk C s' ∧ Careful C s.disk s'.disk

end Invariant

theorem First.keys {d : Disk K} (h : First d) : d.keys = [] := by
  rw [Disk.keys, h.store, h.journal]
  rfl

variable {C : WrapCipher K} {s s' s'' : Phone K} {d : Disk K} {key : Bytes32}

theorem First.under (h : First d) (key : Bytes32) : Under C key d where
  keys k hk := by
    rw [h.keys] at hk
    cases hk
  blob b hb := by
    rw [h.blob] at hb
    cases hb

theorem Outside.refl (s : Phone K) : Outside s s :=
  ⟨rfl, rfl, .inl rfl, .inl rfl, .inl rfl, .inl rfl, .inl rfl⟩

/-- The data outside the process is the data before, or that of the core. -/
theorem Outside.keys (h : Outside s s') {k : Bytes32} (hk : k ∈ s'.disk.keys) :
    k ∈ s.disk.keys ∨ s.core = some k := by
  rcases List.mem_append.mp hk with hk | hk
  · rcases h.store with hs | hs <;> rw [hs] at hk
    · exact .inl (List.mem_append_left _ hk)
    · cases hk
  · rcases h.journal with hj | hj | ⟨key, keys, hc, hj, hkeys⟩ <;> rw [hj] at hk
    · exact .inl (List.mem_append_right _ hk)
    · cases hk
    · rcases hkeys k hk with hk | rfl
      · exact .inl hk
      · exact .inr hc

theorem lost_trans {α : Type} {a b c : Option α} (h : b = a ∨ b = none) (h' : c = b ∨ c = none) :
    c = a ∨ c = none := by
  rcases h' with rfl | rfl
  · exact h
  · exact .inr rfl

theorem Outside.trans (h : Outside s s') (h' : Outside s' s'') : Outside s s'' where
  state := h'.state.trans h.state
  core := h'.core.trans h.core
  blob := lost_trans h.blob h'.blob
  tmp := lost_trans h.tmp h'.tmp
  store := lost_trans h.store h'.store
  journal := by
    rcases h'.journal with hj | hj | ⟨key, keys, hc, hj, hkeys⟩
    · rw [hj]
      exact h.journal
    · exact .inr (.inl hj)
    · refine .inr (.inr ⟨key, keys, h.core ▸ hc, hj, fun k hk => ?_⟩)
      rcases hkeys k hk with hk | hk
      · refine (h.keys hk).imp_right fun ho => ?_
        rw [← h.core, hc] at ho
        exact (Option.some.inj ho).symm
      · exact .inr hk
  wrapKey := lost_trans h.wrapKey h'.wrapKey

theorem kept_of_lost {α : Type} {a b : Option α} {x : α} (h : b = a ∨ b = none) (hx : b = some x) :
    a = some x := by
  rcases h with rfl | rfl
  · exact hx
  · cases hx

theorem none_of_lost {α : Type} {a b : Option α} (h : b = a ∨ b = none) (ha : a = none) :
    b = none := by
  rcases h with rfl | rfl
  · exact ha
  · rfl

theorem Under.outside (h : Under C key s.disk) (hc : ∀ k, s.core = some k → k = key)
    (ho : Outside s s') : Under C key s'.disk where
  keys k hk := (ho.keys hk).elim (h.keys k) (hc k)
  blob b hb := by
    obtain ⟨w, hw, hkey⟩ := h.blob b (kept_of_lost ho.blob hb)
    exact ⟨w, hw, fun w' hw' => hkey w' (kept_of_lost ho.wrapKey hw')⟩

theorem First.outside (h : First s.disk) (hc : s.core = none) (ho : Outside s s') :
    First s'.disk where
  blob := none_of_lost ho.blob h.blob
  store := none_of_lost ho.store h.store
  journal := by
    rcases ho.journal with hj | hj | ⟨key, keys, hcore, -⟩
    · exact hj.trans h.journal
    · exact hj
    · rw [hc] at hcore
      cases hcore

theorem PhoneOk.outside (h : PhoneOk C s) (ho : Outside s s') : PhoneOk C s' where
  disk := by
    cases hc : s.core with
    | none =>
      obtain ⟨key, hk⟩ := h.disk
      exact ⟨key, hk.outside (by simp [hc]) ho⟩
    | some key => exact ⟨key, (h.core key hc).outside (by simp [hc]) ho⟩
  core key hk := by
    rw [ho.core] at hk
    refine (h.core key hk).outside (fun k hk' => ?_) ho
    rw [hk] at hk'
    exact (Option.some.inj hk').symm
  ready hr := by
    rw [ho.core]
    exact h.ready (ho.state ▸ hr)

theorem Careful.refl (d : Disk K) : Careful C d d := ⟨.inl rfl, .inl rfl, .inl ⟨rfl, rfl⟩⟩

theorem PhoneOk.acts (h : PhoneOk C s) : Acts C s s := ⟨h, .refl _⟩

/-! ## What the functions do -/

variable {α β : Type} {Q Q' : Except Thrown α → Phone K → Prop} {x : Io K α}

variable (C) in
/-- Run from `s`, `x` acts with care, whatever is lost and thrown, and ends with `Q`. -/
def Meets (Q : Except Thrown α → Phone K → Prop) (x : Io K α) (s : Phone K) : Prop :=
  ∀ tr, Prog.WP Outside (PhoneOk C) (Acts C) (fun r _ s => Q r s) x.run tr s

theorem Meets.pure {a : α} (h : Q (.ok a) s) : Meets C Q (Pure.pure a) s := fun _ => Op.wp_pure h

theorem Meets.raise {t : Thrown} (h : Q (.error t) s) : Meets C Q (MonadExcept.throw t) s :=
  fun _ => Op.wp_throw h

theorem Meets.mono (h : Meets C Q x s) (hq : ∀ r s, Q r s → Q' r s) : Meets C Q' x s :=
  fun tr => (h tr).mono (fun _ _ hg => hg) fun r _ s => hq r s

/-- What follows `x`: `f` after a value, nothing after an exception. -/
theorem Meets.bind {f : α → Io K β} {Q : Except Thrown β → Phone K → Prop}
    (h : Meets C (fun r s => match r with
      | .ok a => Meets C Q (f a) s
      | .error t => Q (.error t) s) x s) : Meets C Q (x >>= f) s := by
  refine fun tr => Op.wp_bind ((h tr).mono (fun _ _ hg => hg) fun r tr s hr => ?_)
  cases r with
  | ok a => exact hr tr
  | error t => exact hr

theorem Meets.catch {handle : Thrown → Io K α}
    (h : Meets C (fun r s => match r with
      | .ok a => Q (.ok a) s
      | .error t => Meets C Q (handle t) s) x s) : Meets C Q (tryCatch x handle) s := by
  refine fun tr => Prog.WP.bind ((h tr).mono (fun _ _ hg => hg) fun r tr s hr => ?_)
  cases r with
  | ok a => exact hr
  | error t => exact hr tr

/-- An access that has its effect in any case, or throws with or without it. -/
theorem Meets.access {f : Chance K → Phone K → Phone K × α}
    (h : ∀ s', Outside s s' → PhoneOk C s' → ∀ e, Acts C s' (f e s').1 ∧
      Q (.ok (f e s').2) (f e s').1 ∧ ∀ t, Q (.error t) s' ∧ Q (.error t) (f e s').1) :
    Meets C Q (Startup.access f) s := by
  refine fun tr => Prog.WP.atomic fun s' ho hs e => ?_
  obtain ⟨hg, hok, herr⟩ := h s' ho hs e
  cases e.throws with
  | none => exact ⟨hg, hok⟩
  | some t =>
    cases e.landed with
    | true => exact ⟨hg, (herr t).2⟩
    | false => exact ⟨hs.acts, (herr t).1⟩

/-- An access that changes nothing. -/
theorem Meets.read {f : Chance K → Phone K → α}
    (h : ∀ s', Outside s s' → PhoneOk C s' → (∀ e, Q (.ok (f e s')) s') ∧ ∀ t, Q (.error t) s') :
    Meets C Q (Startup.access fun e s => (s, f e s)) s :=
  .access fun s' ho hs e => ⟨hs.acts, (h s' ho hs).1 e, fun t => ⟨(h s' ho hs).2 t, (h s' ho hs).2 t⟩⟩

/-- An action that does not throw. -/
theorem Meets.atomic {f : Chance K → Phone K → Phone K × α}
    (h : ∀ s', Outside s s' → PhoneOk C s' → ∀ e, Acts C s' (f e s').1 ∧
      Q (.ok (f e s').2) (f e s').1) :
    Meets C Q (Op.attempt (Prog.atomic f)) s :=
  fun _ => Op.wp_attempt (.atomic h)

theorem Meets.fileExists {file : Disk K → Option β} {Q : Except Thrown Bool → Phone K → Prop}
    (h : ∀ s', Outside s s' → Q (.ok (file s'.disk).isSome) s') :
    Meets C Q (Startup.fileExists file) s :=
  .atomic fun s' ho hs _ => ⟨hs.acts, h s' ho⟩

theorem Meets.check {condition : Bool} {Q : Except Thrown Unit → Phone K → Prop}
    (hok : condition = true → Q (.ok ()) s) (herr : Q (.error illegalState) s) :
    Meets C Q (Startup.check condition) s := by
  unfold Startup.check
  split
  · next hc => exact .pure (hok hc)
  · exact .raise herr

/-- A first run, with the key that wraps. -/
structure Wrapping (wrapKey : K) (s : Phone K) : Prop where
  core : s.core = none
  first : First s.disk
  wrapKey : ∀ w, s.disk.wrapKey = some w → w = wrapKey

theorem Wrapping.outside {wrapKey : K} (h : Wrapping wrapKey s) (ho : Outside s s') :
    Wrapping wrapKey s' where
  core := ho.core.trans h.core
  first := h.first.outside h.core ho
  wrapKey w hw := h.wrapKey w (kept_of_lost ho.wrapKey hw)

/-- Another disk, while nothing is open. -/
theorem PhoneOk.of_disk (h : PhoneOk C s) (hc : s.core = none) {disk : Disk K}
    (hd : Under C key disk) : PhoneOk C { s with disk } where
  disk := ⟨key, hd⟩
  core k hk := by
    rw [show s.core = some k from hk] at hc
    cases hc
  ready := h.ready

theorem getOrCreateWrapKey_spec (hc : s.core = none) (hf : First s.disk) :
    Meets C (fun r s => s.core = none ∧ ∀ w, r = .ok w → Wrapping w s) getOrCreateWrapKey s := by
  refine .bind (.read fun s₁ ho hs => ⟨fun _ => ?_, fun t => ⟨ho.core.trans hc, by simp⟩⟩)
  have hc₁ := ho.core.trans hc
  have hf₁ := hf.outside hc ho
  dsimp only
  cases hw : s₁.disk.wrapKey with
  | some w =>
    refine .pure ⟨hc₁, fun w' he => ?_⟩
    cases he
    exact ⟨hc₁, hf₁, fun w' hw' => Option.some.inj (hw'.symm.trans hw)⟩
  | none =>
    refine .access fun s₂ ho₂ hs₂ e => ?_
    have hc₂ := ho₂.core.trans hc₁
    have hf₂ := hf₁.outside hc₁ ho₂
    have hnone := none_of_lost ho₂.wrapKey hw
    have hfirst : First { s₂.disk with wrapKey := some e.wrapKey } :=
      ⟨hf₂.blob, hf₂.store, hf₂.journal⟩
    refine ⟨⟨hs₂.of_disk hc₂ (hfirst.under default), .inl rfl, .inr ⟨hnone, hf₂⟩, .inl ⟨rfl, rfl⟩⟩,
      ⟨hc₂, fun w he => ?_⟩, fun t => ⟨⟨hc₂, by simp⟩, hc₂, by simp⟩⟩
    cases he
    exact ⟨hc₂, hfirst, fun w hw => (Option.some.inj hw).symm⟩

theorem wrap_spec (key : Bytes32) {w : K} (hw : Wrapping w s) :
    Meets C (fun r s => s.core = none ∧ ∀ blob, r = .ok blob → Wrapping w s ∧ Wraps C blob w key)
      (wrap C key w) s := by
  refine .bind (.read fun s₁ ho hs => ⟨fun e => ?_, fun t => ⟨(hw.outside ho).core, by simp⟩⟩)
  have hw₁ := hw.outside ho
  refine .bind (.check (fun hiv => ?_) ⟨hw₁.core, by simp⟩)
  refine .bind (.read fun s₂ ho₂ hs₂ => ⟨fun _ => ?_, fun t => ⟨(hw₁.outside ho₂).core, by simp⟩⟩)
  have hw₂ := hw₁.outside ho₂
  refine .pure ⟨hw₂.core, fun blob he => ?_⟩
  cases he
  exact ⟨hw₂, e.iv, eq_of_beq hiv, rfl⟩

/-- The temporary file is in use only while there is no blob. -/
theorem Wrapping.setTmp {w : K} (hw : Wrapping w s) (hs : PhoneOk C s) (tmp : Option Bytes) :
    Wrapping w { s with disk.tmp := tmp } ∧ Acts C s { s with disk.tmp := tmp } :=
  have hf : First { s.disk with tmp } := ⟨hw.first.blob, hw.first.store, hw.first.journal⟩
  ⟨⟨hw.core, hf, hw.wrapKey⟩,
    hs.of_disk hw.core (hf.under default), .inl rfl, .inl rfl, .inl ⟨rfl, rfl⟩⟩

theorem writeTmp_spec {w : K} {bytes : Bytes} (hw : Wrapping w s) :
    Meets C (fun r s => s.core = none ∧ (r = .ok () → Wrapping w s ∧ s.disk.tmp = some bytes))
      (writeTmp bytes) s := by
  refine .bind (.access fun s₁ ho hs e => ?_)
  obtain ⟨hw₁, ha₁⟩ := (hw.outside ho).setTmp hs (some (bytes.take e.part))
  refine ⟨ha₁, ?_, fun t => ⟨⟨(hw.outside ho).core, by simp⟩, hw₁.core, by simp⟩⟩
  refine .access fun s₂ ho₂ hs₂ e₂ => ?_
  obtain ⟨hw₂, ha₂⟩ := (hw₁.outside ho₂).setTmp hs₂ (some bytes)
  exact ⟨ha₂, ⟨hw₂.core, fun _ => ⟨hw₂, rfl⟩⟩, fun t =>
    ⟨⟨(hw₁.outside ho₂).core, by simp⟩, hw₂.core, by simp⟩⟩

theorem renameTmp_spec {w : K} {bytes : Bytes} (hw : Wrapping w s) (ht : s.disk.tmp = some bytes)
    (hb : Wraps C bytes w key) :
    Meets C (fun r s => s.core = none ∧ (r = .ok true → Under C key s.disk)) renameTmp s := by
  refine .atomic fun s₁ ho hs e => ?_
  have hw₁ := hw.outside ho
  split
  · next bytes' htmp _ =>
    obtain rfl := Option.some.inj ((kept_of_lost ho.tmp htmp).symm.trans ht)
    have hu : Under C key { s₁.disk with blob := some bytes', tmp := none } := by
      refine ⟨fun k hk => ?_, fun b hb' => ?_⟩
      · have hk : k ∈ s₁.disk.keys := hk
        rw [hw₁.first.keys] at hk
        cases hk
      · cases hb'
        exact ⟨w, hb, hw₁.wrapKey⟩
    exact ⟨⟨hs.of_disk hw₁.core hu, .inr hw₁.first, .inl rfl, .inl ⟨rfl, rfl⟩⟩, hw₁.core, fun _ => hu⟩
  · exact ⟨hs.acts, hw₁.core, by simp⟩

/-- What a function that returns a result `r` leaves: nothing open, and all that is there is under the
key of the result, if it has one. -/
def Leaves (keyOf : α → Option Bytes32) (C : WrapCipher K) (r : Except Thrown α) (s : Phone K) :
    Prop :=
  s.core = none ∧ ∀ a key, r = .ok a → keyOf a = some key → Under C key s.disk

theorem Leaves.error {keyOf : α → Option Bytes32} (hc : s.core = none) (t : Thrown) :
    Leaves keyOf C (.error t) s := ⟨hc, by simp⟩

theorem Leaves.without {keyOf : α → Option Bytes32} {a : α} (hc : s.core = none)
    (ha : keyOf a = none) : Leaves keyOf C (.ok a) s := by
  refine ⟨hc, fun a' key he hk => ?_⟩
  cases he
  rw [ha] at hk
  cases hk

theorem Leaves.with {keyOf : α → Option Bytes32} {a : α} (hc : s.core = none)
    (ha : keyOf a = some key) (hu : Under C key s.disk) : Leaves keyOf C (.ok a) s := by
  refine ⟨hc, fun a' key' he hk => ?_⟩
  cases he
  rw [ha] at hk
  cases hk
  exact hu

/-- The key of a result. -/
def MasterKeyResult.found : MasterKeyResult → Option Bytes32
  | .available key => some key
  | _ => none

/-- The handlers of `load` make exceptions results without a key. -/
theorem Meets.unavailable {reason : String} {t : Thrown} (hc : s.core = none) :
    Meets C (Leaves MasterKeyResult.found C)
      (if t.isException then return .unavailable reason else throw t) s := by
  split
  · exact .pure (.without hc rfl)
  · exact .raise (.error hc t)

theorem create_spec (hc : s.core = none) (hf : First s.disk) :
    Meets C (Leaves MasterKeyResult.found C) (create C) s := by
  refine .catch (.bind ((getOrCreateWrapKey_spec hc hf).mono fun r s₁ ⟨hc₁, h₁⟩ => ?_))
  cases r with
  | error t => exact .unavailable hc₁
  | ok w =>
    have hw₁ := h₁ w rfl
    refine .bind (.read fun s₂ ho hs => ⟨fun e => ?_, fun t => .unavailable (hw₁.outside ho).core⟩)
    refine .bind ((wrap_spec e.masterKey (hw₁.outside ho)).mono fun r s₃ ⟨hc₃, h₃⟩ => ?_)
    cases r with
    | error t => exact .unavailable hc₃
    | ok blob =>
      obtain ⟨hw₃, hb⟩ := h₃ blob rfl
      refine .bind ((writeTmp_spec hw₃).mono fun r s₄ ⟨hc₄, h₄⟩ => ?_)
      cases r with
      | error t => exact .unavailable hc₄
      | ok _ =>
        obtain ⟨hw₄, ht⟩ := h₄ rfl
        refine .bind ((renameTmp_spec hw₄ ht hb).mono fun r s₅ ⟨hc₅, h₅⟩ => ?_)
        cases r with
        | error t => exact .unavailable hc₅
        | ok renamed =>
          refine .bind (.check (fun hr => ?_) (.unavailable hc₅))
          exact .pure (.with hc₅ rfl (h₅ (congrArg _ hr)))

/-- The cipher decrypts what it encrypted, and adds a tag to it. -/
structure WrapCipher.Correct (C : WrapCipher K) : Prop where
  decrypts : ∀ w iv m, iv.length = gcmIvBytes → C.decrypt w iv (C.encrypt w iv m) = .ok m
  tag : ∀ w iv m, (C.encrypt w iv m).length = m.length + 16

/-- A blob is read back under the key that wrapped it. -/
theorem Wraps.parts {blob : Bytes} {w : K} (h : Wraps C blob w key) :
    ∃ iv : Bytes, iv.length = gcmIvBytes ∧ (blob.drop 1).take gcmIvBytes = iv ∧
      blob.drop (1 + gcmIvBytes) = C.encrypt w iv key.val := by
  obtain ⟨iv, hiv, rfl⟩ := h
  refine ⟨iv, hiv, ?_, ?_⟩
  · rw [List.append_assoc, List.singleton_append, List.drop_one, List.tail_cons, ← hiv,
      List.take_left]
  · rw [List.drop_left' (by simp [hiv]; omega)]

theorem unwrap_spec (hC : C.Correct) {blob : Bytes} {w : K} (hc : s.core = none)
    (hu : Under C key s.disk) (hb : Wraps C blob w key) :
    Meets C (Leaves some C) (unwrap C blob w) s := by
  obtain ⟨iv, hiv, hiv', hct⟩ := hb.parts
  refine .bind (.check (fun _ => ?_) (.error hc _))
  refine .bind (.read fun s₁ ho hs => ⟨fun _ => ?_, fun t => .error (ho.core.trans hc) t⟩)
  have hc₁ := ho.core.trans hc
  dsimp only
  rw [hiv', hct, hC.decrypts w iv key.val hiv]
  dsimp only
  rw [dif_pos key.property]
  exact .pure (.with hc₁ rfl (hu.outside (by simp [hc]) ho))

theorem loadExisting_spec (hC : C.Correct) (hc : s.core = none) :
    Meets C (Leaves MasterKeyResult.found C) (loadExisting C) s := by
  refine .bind (.catch (.bind (.read fun s₁ ho hs => ⟨fun _ => .pure ?_, fun t => ?_⟩)))
  · have hc₁ := ho.core.trans hc
    dsimp only
    cases hw : s₁.disk.wrapKey with
    | none => exact .pure (.without hc₁ rfl)
    | some w =>
      obtain ⟨key, hu⟩ := hs.disk
      refine .catch (.bind (.bind (.read fun s₂ ho₂ hs₂ => ⟨fun _ => ?_, fun t => ?_⟩)))
      · have hc₂ := ho₂.core.trans hc₁
        dsimp only
        cases hb : s₂.disk.blob with
        | none => exact .raise (.unavailable hc₂)
        | some blob =>
          -- The blob was there when the wrapping key was found.
          obtain ⟨w', hwraps, hkey⟩ := hu.blob blob (kept_of_lost ho₂.blob hb)
          obtain rfl := hkey w hw
          have hu₂ := hu.outside (by simp [hc₁]) ho₂
          refine .pure (.bind ((unwrap_spec hC hc₂ hu₂ hwraps).mono fun r s₃ ⟨hc₃, h₃⟩ => ?_))
          cases r with
          | error t => exact .unavailable hc₃
          | ok key' => exact .pure (.with hc₃ rfl (h₃ key' key' rfl rfl))
      · exact .unavailable (ho₂.core.trans hc₁)
  · have hc₁ := ho.core.trans hc
    dsimp only
    split
    · exact .pure (.pure (.without hc₁ rfl))
    · exact .raise (.error hc₁ t)

theorem load_spec (hC : C.Correct) (hc : s.core = none) :
    Meets C (Leaves MasterKeyResult.found C) (load C) s := by
  refine .bind (.fileExists fun s₁ ho₁ => ?_)
  have hc₁ := ho₁.core.trans hc
  dsimp only
  split
  · exact loadExisting_spec hC hc₁
  · next hblob =>
    refine .bind (.bind (.fileExists fun s₂ ho₂ => ?_))
    have hc₂ := ho₂.core.trans hc₁
    dsimp only
    split
    · exact .pure (.pure (.without hc₂ rfl))
    · next hstore =>
      refine .fileExists fun s₃ ho₃ => ?_
      have hc₃ := ho₃.core.trans hc₂
      dsimp only
      split
      · exact .pure (.without hc₃ rfl)
      · next hjournal =>
        refine create_spec hc₃ ⟨?_, ?_, by simpa using hjournal⟩
        · exact none_of_lost ho₃.blob (none_of_lost ho₂.blob (by simpa using hblob))
        · exact none_of_lost ho₃.store (by simpa using hstore)

/-- The key of the core. -/
def OpenResult.found : OpenResult → Option Bytes32
  | .opened core => some core
  | .failed _ => none

/-- The store is opened with the key of all that is there. -/
theorem openEncryptedDb_spec (hc : s.core = none) (hu : Under C key s.disk) :
    Meets C (Leaves some C) (openEncryptedDb key) s := by
  refine fun tr => Prog.WP.atomic fun s₁ ho hs e => ?_
  have hc₁ := ho.core.trans hc
  have hu₁ := hu.outside (by simp [hc]) ho
  have hkeys : ∀ k ∈ s₁.disk.keys ++ [key], k = key := by
    intro k hk
    rcases List.mem_append.mp hk with hk | hk
    · exact hu₁.keys k hk
    · exact List.mem_singleton.mp hk
  -- Whatever is left in the journal, it is data of the store.
  have opened : ∀ journal : Option (List Bytes32), journal.getD [] ⊆ s₁.disk.keys ++ [key] →
      Under C key { s₁.disk with store := some (s₁.disk.keys ++ [key]), journal } := by
    refine fun journal hj => ⟨fun k hk => ?_, hu₁.blob⟩
    rcases List.mem_append.mp hk with hk | hk
    · exact hkeys k hk
    · exact hkeys k (hj hk)
  have acts : ∀ journal : Option (List Bytes32), journal.getD [] ⊆ s₁.disk.keys ++ [key] →
      Acts C s₁ { s₁ with disk.store := some (s₁.disk.keys ++ [key]), disk.journal := journal } :=
    fun journal hj => ⟨hs.of_disk hc₁ (opened journal hj), .inl rfl, .inl rfl, .inr ⟨key, hu₁, rfl⟩⟩
  cases e.throws with
  | none => exact ⟨acts none (by simp), .with hc₁ rfl (opened none (by simp))⟩
  | some t =>
    refine ⟨?_, .error (by dsimp only; split <;> exact hc₁) t⟩
    dsimp only
    split
    · exact acts _ (by split <;> simp)
    · exact hs.acts

theorem openStore_spec (hC : C.Correct) (hc : s.core = none) :
    Meets C (Leaves OpenResult.found C) (openStore C) s := by
  refine .bind ((load_spec hC hc).mono fun r s₁ ⟨hc₁, h₁⟩ => ?_)
  cases r with
  | error t => exact .error hc₁ t
  | ok result =>
    cases result with
    | missingForExistingStore => exact .pure (.without hc₁ rfl)
    | unavailable reason => exact .pure (.without hc₁ rfl)
    | available key =>
      have hu := h₁ _ key rfl rfl
      refine .catch (.bind ((openEncryptedDb_spec hc₁ hu).mono fun r s₂ ⟨hc₂, h₂⟩ => ?_))
      cases r with
      | ok core => exact .pure (.with hc₂ rfl (h₂ core core rfl rfl))
      | error t =>
        dsimp only
        split
        · exact .pure (.without hc₂ rfl)
        · exact .raise (.error hc₂ t)

theorem initializeApp_spec (hC : C.Correct) (hc : s.core = none) :
    Meets C (fun r s => s.core.isSome ↔ r = .ok .ready) (initializeApp C) s := by
  refine .bind ((openStore_spec hC hc).mono fun r s₁ ⟨hc₁, h₁⟩ => ?_)
  cases r with
  | error t => simp [hc₁]
  | ok result =>
    cases result with
    | failed problem => exact .pure (by simp [hc₁])
    | opened core =>
      have hu := h₁ _ core rfl rfl
      have thrown : ∀ {s' : Phone K} {t : Thrown}, s'.core = none →
          (s'.core.isSome ↔ (Except.error t : Except Thrown StartupState) = .ok .ready) := by
        intro s' t hc'
        simp [hc']
      refine .bind (.catch (.read fun s₂ ho₂ hs₂ => ⟨fun _ => ?_, fun t => ?_⟩))
      · have hc₂ := ho₂.core.trans hc₁
        have hu₂ := hu.outside (by simp [hc₁]) ho₂
        refine .bind (.atomic fun s₃ ho₃ hs₃ e => ?_)
        have hu₃ := hu₂.outside (by simp [hc₂]) ho₃
        refine ⟨⟨⟨⟨core, hu₃⟩, fun key hk => ?_, fun _ => rfl⟩, .refl _⟩, .pure (by simp)⟩
        cases hk
        exact hu₃
      · have hc₂ := ho₂.core.trans hc₁
        dsimp only
        split
        · refine .bind (.read fun s₃ ho₃ hs₃ => ⟨fun _ => ?_, fun t' => ?_⟩)
          · exact .raise (thrown (ho₃.core.trans hc₂))
          · exact thrown (ho₃.core.trans hc₂)
        · exact .raise (thrown hc₂)

/-- Between two checks the core is open only if the app is ready. -/
def Settled (s : Phone K) : Prop := s.core.isSome → s.state = .ready

theorem Settled.outside (h : Settled s) (ho : Outside s s') : Settled s' := by
  unfold Settled
  rw [ho.core, ho.state]
  exact h

theorem setState_spec {state : StartupState} (h : state = .ready → s.core.isSome) :
    Meets C (fun r s' => r = .ok () ∧ s'.core = s.core ∧ s'.state = state) (setState state) s := by
  refine .atomic fun s₁ ho hs e => ⟨⟨⟨hs.disk, hs.core, fun hr => ?_⟩, .refl _⟩, rfl, ho.core, rfl⟩
  rw [show ({ s₁ with state } : Phone K).core = s.core from ho.core]
  exact h hr

theorem retry_spec (hC : C.Correct) (h : Settled s) :
    Meets C (fun _ s => Settled s) (retry C) s := by
  refine .bind (.atomic fun s₁ ho hs e => ⟨hs.acts, ?_⟩)
  have h₁ := h.outside ho
  dsimp only
  split
  · exact .pure h₁
  · next hstate =>
    have hc₁ : s₁.core = none := by
      by_contra hc
      exact hstate (h₁ (Option.isSome_iff_ne_none.mpr hc))
    refine .bind ((setState_spec (by simp)).mono fun r s₂ ⟨hr, hc₂, _⟩ => ?_)
    subst hr
    refine .bind (.catch ((initializeApp_spec hC (hc₂.trans hc₁)).mono fun r s₃ h₃ => ?_))
    -- The outcome, with what `retry` makes of an exception.
    have finish : ∀ outcome : StartupState, (s₃.core.isSome ↔ outcome = .ready) →
        Meets C (fun _ s => Settled s) (do
          let next := if outcome = .checking then
            .blocked (.storeUnavailable "start-up check did not finish") else outcome
          setState next
          return next) s₃ := by
      intro outcome ho
      refine .bind ((setState_spec fun hr => ?_).mono fun r s₄ ⟨hr, hc₄, hst⟩ => ?_)
      · split at hr
        · cases hr
        · exact ho.mpr hr
      · subst hr
        refine .pure fun hsome => ?_
        rw [hc₄] at hsome
        rw [hst, ho.mp hsome]
        rfl
    cases r with
    | ok outcome => exact finish outcome (by simpa using h₃)
    | error t =>
      have hnone : s₃.core = none := by simpa using h₃
      dsimp only
      split
      · exact .pure (finish _ (by simp [hnone]))
      · exact .raise (fun hsome => by simp [hnone] at hsome)

/-! ## Every run -/

variable {a a' : App K}

variable (C) in
/-- What holds of the app in every run: the check that runs will end as it must. -/
structure App.Ok (a : App K) : Prop where
  phone : PhoneOk C a.phone
  settled : a.running = none → Settled a.phone
  running : ∀ p, a.running = some p → ∃ tr s, Outside s a.phone ∧
    Prog.WP Outside (PhoneOk C) (Acts C) (fun _ _ s => Settled s) p tr s

/-- A check acts with care. -/
theorem App.Ok.act (h : App.Ok C a) {upd : Chance K → Phone K → Phone K}
    {next : Chance K → Phone K → Prog (Chance K) (Phone K) (Except Thrown StartupState)}
    (hr : a.running = some (.act upd next)) (e : Chance K) :
    Acts C a.phone (upd e a.phone) ∧ App.Ok C ⟨upd e a.phone, some (next e a.phone)⟩ := by
  obtain ⟨tr, s, ho, hw⟩ := h.running _ hr
  obtain ⟨hacts, hrest⟩ := hw a.phone ho h.phone e
  refine ⟨hacts, hacts.1, by simp, fun p hp => ?_⟩
  cases hp
  exact ⟨_, _, .refl _, hrest⟩

theorem PhoneOk.boot (h : PhoneOk C s) : PhoneOk C (.boot s.disk) :=
  ⟨h.disk, by simp [Phone.boot], by simp [Phone.boot]⟩

theorem App.Ok.step (hC : C.Correct) (h : App.Ok C a) (hs : App.Step C a a') : App.Ok C a' := by
  cases hs with
  | retry hidle =>
    refine ⟨h.phone, by simp, fun p hp => ?_⟩
    cases hp
    exact ⟨[], a.phone, .refl _, retry_spec hC (h.settled hidle) []⟩
  | act upd next e hr => exact (h.act hr e).2
  | ret outcome hr =>
    obtain ⟨tr, s, ho, hw⟩ := h.running _ hr
    exact ⟨h.phone, fun _ => Settled.outside hw ho, by simp⟩
  | die => exact ⟨h.phone.boot, fun _ => by simp [Settled, Phone.boot], by simp⟩
  | outside phone ho =>
    refine ⟨h.phone.outside ho, fun hidle => (h.settled hidle).outside ho, fun p hp => ?_⟩
    obtain ⟨tr, s, ho', hw⟩ := h.running p hp
    exact ⟨tr, s, ho'.trans ho, hw⟩

theorem App.Ok.installed : App.Ok C .installed where
  phone := ⟨⟨default, First.under ⟨rfl, rfl, rfl⟩ _⟩, by simp [App.installed, Phone.boot],
    by simp [App.installed, Phone.boot]⟩
  settled _ := by simp [Settled, App.installed, Phone.boot]
  running p hp := by cases hp

theorem App.Reach.ok (hC : C.Correct) (h : App.Reach C a) : App.Ok C a := by
  induction h with
  | installed => exact .installed
  | step _ hs ih => exact ih.step hC hs

/-- **The key is kept.** Whatever was thrown, killed and lost: all data was written under one key,
which is the one that the blob wraps and the one that the app runs with, and a check that runs makes
a key only where there is nothing, and opens the store only with the key of what is there. -/
theorem key_kept (hC : C.Correct) (h : App.Reach C a) :
    (∃ key, Under C key a.phone.disk) ∧
    (∀ key, a.phone.core = some key → Under C key a.phone.disk) ∧
    (a.phone.state = .ready → a.phone.core.isSome) ∧
    ∀ upd next e, a.running = some (.act upd next) → Careful C a.phone.disk (upd e a.phone).disk :=
  have ok := h.ok hC
  ⟨ok.phone.disk, ok.phone.core, ok.phone.ready, fun _ _ e hr => (ok.act hr e).1.2⟩

/-! ## A check that nothing disturbs -/

/-- Nothing fails. -/
structure Calm (e : Chance K) : Prop where
  throws : e.throws = none
  iv : e.iv.length = gcmIvBytes
  renamed : e.renamed = true

/-- Every way in which `x` can end from `s`, if nothing disturbs it, is `Q`. -/
def Ends (Q : Except Thrown α → Phone K → Prop) (x : Io K α) (s : Phone K) : Prop :=
  ∀ r s', Prog.Alone Calm x.run s r s' → Q r s'

theorem Ends.pure {v : α} (h : Q (.ok v) s) : Ends Q (Pure.pure v) s := by
  intro r s' ha
  cases ha
  exact h

theorem Ends.raise {t : Thrown} (h : Q (.error t) s) : Ends Q (MonadExcept.throw t) s := by
  intro r s' ha
  cases ha
  exact h

theorem Ends.mono (h : Ends Q x s) (hq : ∀ r s, Q r s → Q' r s) : Ends Q' x s :=
  fun r s' ha => hq r s' (h r s' ha)

theorem Ends.bind {f : α → Io K β} {Q : Except Thrown β → Phone K → Prop}
    (h : Ends (fun r s => match r with
      | .ok v => Ends Q (f v) s
      | .error t => Q (.error t) s) x s) : Ends Q (x >>= f) s := by
  intro r s'' ha
  obtain ⟨r', s', hx, hf⟩ := Prog.Alone.of_bind ha
  have h' := h r' s' hx
  cases r' with
  | ok v => exact h' r s'' hf
  | error t =>
    cases hf
    exact h'

theorem Ends.catch {handle : Thrown → Io K α}
    (h : Ends (fun r s => match r with
      | .ok v => Q (.ok v) s
      | .error t => Ends Q (handle t) s) x s) : Ends Q (tryCatch x handle) s := by
  intro r s'' ha
  obtain ⟨r', s', hx, hf⟩ := Prog.Alone.of_bind ha
  have h' := h r' s' hx
  cases r' with
  | ok v =>
    cases hf
    exact h'
  | error t => exact h' r s'' hf

theorem Ends.atomic {f : Chance K → Phone K → Phone K × Except Thrown α}
    (h : ∀ e, Calm e → Q (f e s).2 (f e s).1) : Ends Q (ExceptT.mk (Prog.atomic f)) s := by
  intro r s' ha
  obtain ⟨e, he, rfl, rfl⟩ := Prog.Alone.of_atomic ha
  exact h e he

theorem Ends.access {f : Chance K → Phone K → Phone K × α}
    (h : ∀ e, Calm e → Q (.ok (f e s).2) (f e s).1) : Ends Q (Startup.access f) s := by
  refine .atomic fun e he => ?_
  rw [he.throws]
  exact h e he

theorem Ends.attempt {f : Chance K → Phone K → Phone K × α}
    (h : ∀ e, Calm e → Q (.ok (f e s).2) (f e s).1) :
    Ends Q (Op.attempt (Prog.atomic f)) s := by
  intro r s' ha
  obtain ⟨r', s'', hx, hf⟩ := Prog.Alone.of_bind ha
  obtain ⟨e, he, rfl, rfl⟩ := Prog.Alone.of_atomic hx
  cases hf
  exact h e he

theorem Ends.check {condition : Bool} {Q : Except Thrown Unit → Phone K → Prop}
    (hc : condition = true) (h : Q (.ok ()) s) : Ends Q (Startup.check condition) s := by
  rw [Startup.check, if_pos hc]
  exact .pure h

theorem unwrap_ends (hC : C.Correct) {blob : Bytes} {w : K} (hb : Wraps C blob w key) :
    Ends (fun r s' => r = .ok key ∧ s' = s) (unwrap C blob w) s := by
  obtain ⟨iv, hiv, hiv', hct⟩ := hb.parts
  have hlen : 1 + gcmIvBytes < blob.length := by
    have h := congrArg List.length hct
    rw [List.length_drop, hC.tag] at h
    omega
  have hversion : blob[0]? = some blobVersion := by
    obtain ⟨_, -, rfl⟩ := hb
    rfl
  refine .bind (.check (by simp [hlen, hversion]) (.bind (.access fun e he => ?_)))
  dsimp only
  rw [hiv', hct, hC.decrypts w iv key.val hiv]
  dsimp only
  rw [dif_pos key.property]
  exact .pure ⟨rfl, rfl⟩

theorem Ends.fileExists {file : Disk K → Option β} {f : Bool → Io K α} {b : Bool}
    (hb : (file s.disk).isSome = b) (h : Ends Q (f b) s) :
    Ends Q (Startup.fileExists file >>= f) s :=
  .bind (.attempt fun _ _ => by rw [← hb] at h; exact h)

/-- The blob is unwrapped. -/
theorem load_found (hC : C.Correct) {blob : Bytes} {w : K} (hblob : s.disk.blob = some blob)
    (hw : s.disk.wrapKey = some w) (hb : Wraps C blob w key) :
    Ends (fun r s' => r = .ok (.available key) ∧ s' = s) (load C) s := by
  refine .fileExists (b := true) (by rw [hblob]; rfl) ?_
  rw [if_pos rfl]
  refine .bind (.catch (.bind (.access fun _ _ => .pure ?_)))
  dsimp only
  rw [hw]
  refine .catch (.bind (.bind (.access fun _ _ => ?_)))
  dsimp only
  rw [hblob]
  refine .pure (.bind ((unwrap_ends hC hb).mono fun r s' hr => ?_))
  obtain ⟨rfl, rfl⟩ := hr
  exact .pure ⟨rfl, rfl⟩

theorem load_unwrappable (hblob : s.disk.blob.isSome) (hw : s.disk.wrapKey = none) :
    Ends (fun r s' => r = .ok (.unavailable "the wrapping key is missing from the Keystore") ∧ s' = s)
      (load C) s := by
  refine .fileExists (b := true) hblob ?_
  rw [if_pos rfl]
  refine .bind (.catch (.bind (.access fun _ _ => .pure ?_)))
  dsimp only
  rw [hw]
  exact .pure ⟨rfl, rfl⟩

theorem load_missing (hblob : s.disk.blob = none)
    (hdata : s.disk.store.isSome ∨ s.disk.journal.isSome) :
    Ends (fun r s' => r = .ok .missingForExistingStore ∧ s' = s) (load C) s := by
  refine .fileExists (b := false) (by rw [hblob]; rfl) ?_
  rw [if_neg (by simp)]
  refine .bind (.mono (Q := fun r s' => r = .ok true ∧ s' = s) ?_ fun r s' hr => ?_)
  · cases hs : s.disk.store with
    | some keys => exact .fileExists (b := true) (by rw [hs]; rfl) (.pure ⟨rfl, rfl⟩)
    | none =>
      have hj : s.disk.journal.isSome := by simpa [hs] using hdata
      refine .fileExists (b := false) (by rw [hs]; rfl) (.attempt fun _ _ => ⟨?_, rfl⟩)
      exact congrArg _ hj
  · obtain ⟨rfl, rfl⟩ := hr
    exact .pure ⟨rfl, rfl⟩

/-- A first run: a key is made, and its blob is there. -/
theorem load_first (hf : First s.disk) :
    Ends (fun r s' => ∃ key w blob, r = .ok (.available key) ∧ Wraps C blob w key ∧
      s'.disk = { s.disk with wrapKey := some w, blob := some blob, tmp := none }) (load C) s := by
  refine .fileExists (b := false) (by rw [hf.blob]; rfl) ?_
  rw [if_neg (by simp)]
  refine .bind (.fileExists (b := false) (by rw [hf.store]; rfl) (.attempt fun _ _ => ?_))
  have hj : s.disk.journal.isSome = false := by
    rw [hf.journal]
    rfl
  dsimp only
  rw [hj]
  refine .catch (.bind (.mono (Q := fun r s' => ∃ w, r = .ok w ∧
    s' = { s with disk.wrapKey := some w }) ?_ fun r s' hr => ?_))
  · refine .bind (.access fun e _ => ?_)
    dsimp only
    cases hw : s.disk.wrapKey with
    | some w =>
      refine .pure ⟨w, rfl, ?_⟩
      rw [← hw]
    | none => exact .access fun e _ => ⟨e.wrapKey, rfl, rfl⟩
  · obtain ⟨w, rfl, rfl⟩ := hr
    refine .bind (.access fun e he => .bind (.bind (.access fun e' he' => ?_)))
    refine .bind (.check (by simp [he'.iv]) (.bind (.access fun _ _ => .pure ?_)))
    refine .bind (.bind (.access fun _ _ => .access fun _ _ => .bind (.attempt fun e'' he'' => ?_)))
    simp only [he''.renamed]
    exact .bind (.check rfl (.pure ⟨_, w, _, rfl, ⟨_, he'.iv, rfl⟩, rfl⟩))

/-- The disk, once the store is open. -/
def Disk.withStore (d : Disk K) (key : Bytes32) : Disk K :=
  { d with store := some (d.keys ++ [key]), journal := none }

/-- A check that finds a key opens the store with it. -/
theorem retry_opens {D : Bytes32 → Disk K → Prop} (hstate : s.state ≠ .ready)
    (h : Ends (fun r s' => ∃ key, r = .ok (.available key) ∧ D key s'.disk) (load C)
      { s with state := .checking }) :
    Ends (fun r s' => r = .ok .ready ∧ s'.state = .ready ∧ ∃ key d, D key d ∧ s'.core = some key ∧
      s'.disk = d.withStore key) (retry C) s := by
  refine .bind (.attempt fun _ _ => ?_)
  dsimp only
  rw [if_neg hstate]
  refine .bind (.attempt fun _ _ => .bind (.catch (.bind (.bind (h.mono fun r s₁ hr => ?_)))))
  obtain ⟨key, rfl, hd⟩ := hr
  refine .catch (.bind (.atomic fun e he => ?_))
  rw [he.throws]
  refine .pure (.bind (.catch (.access fun _ _ => .bind (.attempt fun _ _ => .pure ?_))))
  exact .bind (.attempt fun _ _ => .pure ⟨rfl, rfl, key, _, hd, rfl, rfl⟩)

/-- Why a result of `load` without a key blocks the start. -/
def MasterKeyResult.problem : MasterKeyResult → Option StartupProblem
  | .available _ => none
  | .missingForExistingStore => some .keyMissingForExistingData
  | .unavailable reason => some (.keyUnavailable reason)

/-- A check that finds none changes nothing, and says why. -/
theorem retry_blocks {result : MasterKeyResult} {problem : StartupProblem}
    (hp : result.problem = some problem) (hstate : s.state ≠ .ready)
    (h : Ends (fun r s' => r = .ok result ∧ s' = { s with state := .checking }) (load C)
      { s with state := .checking }) :
    Ends (fun r s' => r = .ok (.blocked problem) ∧ s' = { s with state := .blocked problem })
      (retry C) s := by
  refine .bind (.attempt fun _ _ => ?_)
  dsimp only
  rw [if_neg hstate]
  refine .bind (.attempt fun _ _ => .bind (.catch (.bind (.bind (h.mono fun r s₁ hr => ?_)))))
  obtain ⟨rfl, rfl⟩ := hr
  cases result with
  | available key => cases hp
  | missingForExistingStore =>
    cases hp
    exact .pure (.pure (.bind (.attempt fun _ _ => .pure ⟨rfl, rfl⟩)))
  | unavailable reason =>
    cases hp
    exact .pure (.pure (.bind (.attempt fun _ _ => .pure ⟨rfl, rfl⟩)))

/-- **What a start does.** At every point of every run, a check that nothing disturbs opens the store
with the key that the blob wraps and that all data is under, if the blob and the wrapping key are
there; makes a key, if there is neither a blob nor data; and else says what is missing, and changes
nothing. -/
theorem check_outcome (hC : C.Correct) (h : App.Reach C a) (hstate : a.phone.state ≠ .ready)
    {r : Except Thrown StartupState} {s' : Phone K}
    (ha : Prog.Alone Calm (retry C).run a.phone r s') :
    (∀ blob w, a.phone.disk.blob = some blob → a.phone.disk.wrapKey = some w →
      r = .ok .ready ∧ ∃ key, Wraps C blob w key ∧ Under C key a.phone.disk ∧ s'.core = some key ∧
        s'.disk = a.phone.disk.withStore key) ∧
    (a.phone.disk.blob.isSome → a.phone.disk.wrapKey = none →
      r = .ok (.blocked (.keyUnavailable "the wrapping key is missing from the Keystore")) ∧
        s'.disk = a.phone.disk) ∧
    (a.phone.disk.blob = none → a.phone.disk.store.isSome ∨ a.phone.disk.journal.isSome →
      r = .ok (.blocked .keyMissingForExistingData) ∧ s'.disk = a.phone.disk) ∧
    (First a.phone.disk → r = .ok .ready ∧ ∃ key w blob, Wraps C blob w key ∧ s'.core = some key ∧
      s'.disk = { blob := some blob, tmp := none, store := some [key], journal := none,
                  wrapKey := some w }) := by
  refine ⟨fun blob w hblob hw => ?_, fun hblob hw => ?_, fun hblob hdata => ?_, fun hf => ?_⟩
  · obtain ⟨key, hu⟩ := (h.ok hC).phone.disk
    obtain ⟨w', hwraps, hkey⟩ := hu.blob blob hblob
    obtain rfl := hkey w hw
    have hl := load_found hC (s := { a.phone with state := .checking }) hblob hw hwraps
    obtain ⟨hr, -, key', d, ⟨rfl, rfl⟩, hc, hd⟩ := retry_opens
      (D := fun k d => k = key ∧ d = a.phone.disk) hstate
      (hl.mono fun r s₁ hr => ⟨key, hr.1, rfl, by rw [hr.2]⟩) r s' ha
    exact ⟨hr, key', hwraps, hu, hc, hd⟩
  · obtain ⟨rfl, rfl⟩ := retry_blocks rfl hstate
      (load_unwrappable (s := { a.phone with state := .checking }) hblob hw) r s' ha
    exact ⟨rfl, rfl⟩
  · obtain ⟨rfl, rfl⟩ := retry_blocks rfl hstate
      (load_missing (s := { a.phone with state := .checking }) hblob hdata) r s' ha
    exact ⟨rfl, rfl⟩
  · obtain ⟨hr, -, key, d, ⟨w, blob, hwraps, rfl⟩, hc, hd⟩ := retry_opens
      (D := fun key d => ∃ w blob, Wraps C blob w key ∧
        d = { a.phone.disk with wrapKey := some w, blob := some blob, tmp := none }) hstate
      ((load_first (s := { a.phone with state := .checking }) hf).mono fun r s₁ hr => by
        obtain ⟨key, w, blob, rfl, hwraps, hd⟩ := hr
        exact ⟨key, rfl, w, blob, hwraps, hd⟩) r s' ha
    refine ⟨hr, key, w, blob, hwraps, hc, hd.trans ?_⟩
    simp [Disk.withStore, Disk.keys, hf.store, hf.journal]

/-! ## A first run, and a restart -/

namespace StartupRun

/-- A cipher: the bytes are shifted by the key, and the tag repeats it. -/
def cipher : WrapCipher UInt8 where
  encrypt w _ m := m.map (· + w) ++ List.replicate 16 w
  decrypt w _ c :=
    if c.drop (c.length - 16) = List.replicate 16 w then .ok ((c.take (c.length - 16)).map (· - w))
    else .error ⟨true, false, "AEADBadTagException"⟩

theorem correct : cipher.Correct where
  decrypts w iv m _ := by
    have hlen : (m.map (· + w) ++ List.replicate 16 w).length - 16 = (m.map (· + w)).length := by simp
    simp only [cipher]
    rw [hlen, List.drop_left, if_pos rfl, List.take_left, List.map_map]
    simp [Function.comp_def]
  tag w iv m := by simp [cipher]

def calm : Chance UInt8 where
  throws := none
  landed := false
  wrapKey := 3
  masterKey := ⟨List.replicate 32 7, by simp⟩
  iv := List.replicate 12 1
  part := 5
  renamed := true
  journalLeft := false

/-- A check: its outcome, and the phone after it. -/
def checked (phone : Phone UInt8) : Option (Except Thrown StartupState × Phone UInt8) :=
  (System.exec (retry cipher).run (List.replicate 24 calm) phone []).map fun x => (x.1, x.2.2)

variable {phone phone' : Phone UInt8} {r : Except Thrown StartupState}

theorem alone (h : checked phone = some (r, phone')) :
    Prog.Alone Calm (retry cipher).run phone r phone' := by
  obtain ⟨⟨r, tr, s'⟩, hx, he⟩ := Option.map_eq_some_iff.mp h
  cases he
  refine System.alone_of_exec (fun e he => ?_) hx
  obtain rfl := List.eq_of_mem_replicate he
  exact ⟨rfl, rfl, rfl⟩

/-- A check that runs alone is a run. -/
theorem reach_checked (h : App.Reach cipher ⟨phone, none⟩) (hx : checked phone = some (r, phone')) :
    App.Reach cipher ⟨phone', none⟩ := by
  suffices ∀ {p phone r phone'}, Prog.Alone Calm p phone r phone' →
      App.Reach cipher ⟨phone, some p⟩ → App.Reach cipher ⟨phone', none⟩ from
    this (alone hx) (.step h (.retry rfl))
  intro p phone r phone' ha
  induction ha with
  | ret r s => exact fun h => .step h (.ret r rfl)
  | act e _ _ ih => exact fun h => ih (.step h (.act _ _ e rfl))

/-- The phone after the first run, in a new process. -/
def restarted : Option (Phone UInt8) := (checked App.installed.phone).map fun x => .boot x.2.disk

theorem restarted_reach (h : restarted = some phone) : App.Reach cipher ⟨phone, none⟩ := by
  obtain ⟨⟨r, s'⟩, hx, rfl⟩ := Option.map_eq_some_iff.mp h
  exact .step (reach_checked .installed hx) .die

theorem restarted_facts :
    restarted.map (fun phone => (phone.state, phone.disk.blob.isSome, phone.disk.wrapKey)) =
      some (.checking, true, some 3) := rfl

theorem checked_facts :
    (restarted.bind checked).map (fun x => (x.2.state, x.2.disk.store)) =
      some (.ready, some [calm.masterKey, calm.masterKey]) := rfl

end StartupRun

open StartupRun

theorem key_kept_restarted : ∃ phone : Phone UInt8, App.Reach cipher ⟨phone, none⟩ ∧
    phone.state = .ready ∧ phone.disk.store = some [calm.masterKey, calm.masterKey] ∧
    ∃ key, Under cipher key phone.disk := by
  obtain ⟨⟨r, phone'⟩, hx, hf⟩ := Option.map_eq_some_iff.mp checked_facts
  obtain ⟨phone, hphone, hx⟩ := Option.bind_eq_some_iff.mp hx
  have h := reach_checked (restarted_reach hphone) hx
  exact ⟨phone', h, congrArg Prod.fst hf, congrArg Prod.snd hf, (key_kept correct h).1⟩

theorem check_outcome_restarted : ∃ (phone phone' : Phone UInt8) (r : Except Thrown StartupState),
    App.Reach cipher ⟨phone, none⟩ ∧ Prog.Alone Calm (retry cipher).run phone r phone' ∧
    r = .ok .ready ∧ ∃ key, Under cipher key phone.disk ∧ phone'.core = some key := by
  obtain ⟨phone, hphone, hf⟩ := Option.map_eq_some_iff.mp restarted_facts
  obtain ⟨⟨r, phone'⟩, hx, -⟩ := Option.map_eq_some_iff.mp checked_facts
  rw [hphone] at hx
  simp only [Prod.mk.injEq] at hf
  obtain ⟨hstate, hblob, hw⟩ := hf
  obtain ⟨blob, hblob⟩ := Option.isSome_iff_exists.mp hblob
  have h := restarted_reach hphone
  obtain ⟨hr, key, -, hu, hc, -⟩ :=
    (check_outcome correct h (by simp [hstate]) (alone hx)).1 blob 3 hblob hw
  exact ⟨phone, phone', r, h, alone hx, hr, key, hu, hc⟩

end Startup

end Arcium
