import Arcium.Network.RowStore
import Arcium.Network.System

/-!
# What a device writes is what the encrypted store can keep

`Trans` says what each transaction of a device writes. The programs see to it that every record has its
form (`Row.Checked`, `Trans.writes`), so one fits its format if only its lengths and positions are
within the widths of their fields (`Row.Sized`).

* `Network.logged`: the database of a device comes from transactions that write such records.
* `Performs`: actions on the store that carry out the transactions of a log.
* `device_stored`: an encrypted store that carries out these transactions keeps the database.
-/

namespace Arcium

/-! ## Records -/

namespace Row

variable {K : Type} {P : Platform}

/-- What the programs see to, of a record that they write. -/
def Checked (P : Platform) : (k : Key) → Row K k → Prop
  | .session _, (rec : SessionRecord K) => rec.Bound rec.our rec.peer
  | .provisional _, (p : ProvisionalHandshake) =>
    1 ≤ p.handshake.length ∧ p.handshake.length ≤ Messenger.maxProvisionalHandshakeLen
  | .outbox _ _, (m : OutgoingMessage) =>
    (1 ≤ m.clientMessageId.length ∧ m.clientMessageId.length ≤ Messenger.maxClientMessageIdLen) ∧
      Messenger.messageId P m.wire = m.messageId
  | .chatMeta _, (m : ChatMeta) => Chat.Short m
  | .chatEntry _ seq, (e : Entry) => e.seq = seq ∧ e.appId.length < 256 ∧ e.messageId.length < 256
  | _, _ => True

/-- Its lengths and positions are within the widths of their fields. -/
def Sized : (k : Key) → Row K k → Prop
  | .outbox _ _, (m : OutgoingMessage) => m.wire.length < 2 ^ 32
  | .inbox _ _, (m : IncomingMessage) => m.plaintext.length < 2 ^ 32
  | .chatMeta _, (m : ChatMeta) => m.lastSeq < 2 ^ 64
  | .chatEntry _ seq, _ => seq < 2 ^ 64
  | .chatOut _ _, (seq : Nat) | .chatIn _ _, (seq : Nat) => seq < 2 ^ 64
  | _, _ => True

theorem Checked.fits {k : Key} {v : Row K k} (h : Checked P k v) (hs : Sized k v) : Fits P k v := by
  cases k with
  | session | provisional => exact h
  | outbox => exact ⟨h.1, hs, h.2⟩
  | inbox | chatOut | chatIn => exact hs
  | chatMeta => exact ⟨hs, Nat.lt_of_le_of_lt h.seen hs, h.name, h.note⟩
  | chatEntry => exact ⟨hs, h⟩
  | _ => trivial

end Row

variable {K : Type}

def Change.Checked (P : Platform) (c : Change K) : Prop :=
  ∀ v, c.value = some v → Row.Checked P c.key v

theorem checked_some {P : Platform} {k : Key} {v : Row K k} (h : Row.Checked P k v) :
    Change.Checked P ⟨k, some v⟩ := by
  rintro v' ⟨⟩
  exact h

theorem checked_none {P : Platform} {k : Key} : Change.Checked (K := K) P ⟨k, none⟩ := by
  rintro v' ⟨⟩

theorem SessionRecord.Bound.self {rec : SessionRecord K} {our : Bytes32} {peer : Peer}
    (h : rec.Bound our peer) : rec.Bound rec.our rec.peer := by
  rw [h.ours, h.theirs]
  exact h

/-! ## Transactions -/

namespace Network

variable {P : AppPlatform} {scope : Scope P} {start db : Db P.Key} {rows : Rows P.Key} {call : Call}

/-- A transaction writes different records, each of its form. -/
structure Writes (db : Db P.Key) (rows : Rows P.Key) (changes : List (Change P.Key)) : Prop where
  eq : rows = db.rows.applyAll changes
  distinct : (changes.map Change.key).Nodup
  checked : ∀ c ∈ changes, c.Checked P.toPlatform

/-- Every stored record has its form. -/
def Formed (db : Db P.Key) : Prop :=
  ∀ (k : Key) (v : Row P.Key k), db.rows.lookup k = some v → Row.Checked P.toPlatform k v

theorem Formed.short (h : Formed db) (peer : Peer) : Chat.Short (metaAt db.rows peer) := by
  unfold metaAt
  cases hl : db.rows.lookup (.chatMeta peer) with
  | none => exact Chat.short_default
  | some m => exact h _ m hl

theorem advanced_checked {peer : Peer} {seq : Nat} {e e' : Entry} {state : ChatEntryState}
    {id : Option MessageId} (he : Row.Checked (K := P.Key) P.toPlatform (.chatEntry peer seq) e)
    (h : Chat.advanced e state id = some e') :
    Row.Checked (K := P.Key) P.toPlatform (.chatEntry peer seq) e' := by
  obtain ⟨hseq, happ, hid⟩ := he
  unfold Chat.advanced at h
  generalize (if e.messageId.isEmpty then id else none) = given at h
  dsimp only at h
  split at h
  · cases h
  · obtain rfl := Option.some.inj h
    refine ⟨hseq, happ, ?_⟩
    cases given with
    | none => exact hid
    | some id =>
      show id.val.length < 256
      rw [id.2]
      decide

theorem ChatTx.writes (h : ChatTx call db rows) (hform : Formed db) :
    ∃ changes, Writes db rows changes := by
  have counted : ∀ peer, Chat.Short { metaAt db.rows peer with
      lastSeq := (metaAt db.rows peer).lastSeq + 1 } := fun peer =>
    ⟨Nat.le_succ_of_le (hform.short peer).seen, (hform.short peer).name, (hform.short peer).note⟩
  cases h with
  | described peer called f keeps short eq =>
    exact ⟨_, eq, List.nodup_singleton _,
      List.forall_mem_singleton.mpr (checked_some (short _ (hform.short peer)))⟩
  | advanced peer seq state messageId e e' stored h why eq =>
    exact ⟨_, eq, List.nodup_singleton _,
      List.forall_mem_singleton.mpr (checked_some (advanced_checked (hform _ _ stored) h))⟩
  | received peer called m text now accepted payload noIndex eq =>
    refine ⟨_, eq, by simp, List.forall_mem_cons.mpr ⟨checked_some ⟨rfl, Nat.zero_lt_succ _, ?_⟩,
      List.forall_mem_cons.mpr ⟨checked_some trivial, List.forall_mem_singleton.mpr ?_⟩⟩⟩
    · show m.messageId.val.length < 256
      rw [m.messageId.2]
      decide
    · exact checked_some (counted peer)
  | claimed i peer appId text called noEntry eq =>
    exact ⟨_, eq, List.nodup_singleton _, List.forall_mem_singleton.mpr (checked_some trivial)⟩
  | queued i peer appId text now called validId noEntry noClaim eq =>
    refine ⟨_, eq, by simp, List.forall_mem_cons.mpr ⟨checked_some ⟨rfl, ?_, Nat.zero_lt_succ _⟩,
      List.forall_mem_cons.mpr ⟨checked_some trivial, List.forall_mem_singleton.mpr ?_⟩⟩⟩
    · exact Nat.lt_of_le_of_lt validId (by decide)
    · exact checked_some (counted peer)

/-- The record of a session that follows another one. -/
theorem follows_checked {our : Bytes32} {peer q : Peer} {old new : SessionRecord P.Key}
    (h : Messenger.Follows (P := P.toPlatform) our peer old new) :
    Change.Checked P.toPlatform ⟨.session q, some new⟩ := checked_some h.bound.self

theorem checkProvisional_fits {record : ProvisionalHandshake} {handle : UInt64}
    (h : Messenger.checkProvisional record = .ok record) :
    Change.Checked (K := P.Key) P.toPlatform ⟨.provisional handle, some record⟩ := by
  unfold Messenger.checkProvisional at h
  split at h
  · cases h
  · next hok =>
    obtain ⟨hne, hle⟩ := not_or.mp hok
    exact checked_some ⟨List.length_pos_iff.mpr (by simpa using hne), Nat.not_lt.mp hle⟩

theorem Work.writes (h : Work start call db rows) (hform : Formed db) :
    ∃ changes, Writes db rows changes := by
  cases h with
  | identity identity called h =>
    exact ⟨_, h.eq, List.nodup_singleton _, List.forall_mem_singleton.mpr (checked_some trivial)⟩
  | contact card called h =>
    exact ⟨_, h.eq, List.nodup_singleton _, List.forall_mem_singleton.mpr (checked_some trivial)⟩
  | initiate identity handle peerBundle bundle ephemeralSk dhs alice called h =>
    refine ⟨_, h.create.eq, ?_, ?_⟩
    · simp [Messenger.createChanges, Core.initiatorSession, Messenger.sideChanges]
    · exact List.forall_mem_cons.mpr ⟨checked_some h.create.bound.self, List.forall_mem_cons.mpr
        ⟨checked_some trivial, List.forall_mem_singleton.mpr (checked_some trivial)⟩⟩
  | respond identity handle bytes handshake record called own answers h =>
    cases h with
    | recorded h =>
      exact ⟨_, h.eq, List.nodup_singleton _,
        List.forall_mem_singleton.mpr (checkProvisional_fits h.decodes)⟩
    | retired peer old named h =>
      exact ⟨_, h.eq, by simp, List.forall_mem_cons.mpr ⟨checked_none, List.forall_mem_cons.mpr
        ⟨checked_none, List.forall_mem_singleton.mpr (checkProvisional_fits h.decodes)⟩⟩⟩
  | first identity handle wire provisional handshake record fresh new m called h =>
    refine ⟨_, h.promote.eq, ?_, List.forall_mem_cons.mpr ⟨follows_checked h.promote.follows, ?_⟩⟩
    · cases ho : record.opk with
      | none => simp [Messenger.promoteChanges, firstContact, consumed, ho, Messenger.sideChanges]
      | some opk =>
        simp [Messenger.promoteChanges, firstContact, consumed, ho, Messenger.sideChanges,
          Write.change, SideWrite.toWrite]
    · refine List.forall_mem_cons.mpr ⟨checked_some trivial, List.forall_mem_cons.mpr ⟨checked_none,
        List.forall_mem_cons.mpr ⟨checked_some trivial, fun c hc => ?_⟩⟩⟩
      cases ho : record.opk with
      | none =>
        simp [firstContact, consumed, ho, Messenger.sideChanges] at hc
      | some opk =>
        simp only [firstContact, consumed, ho] at hc
        obtain rfl := List.mem_singleton.mp hc
        exact checked_some trivial
  | send our ours handle clientId plaintext peer q old new m why h =>
    refine ⟨_, h.eq, by simp [Messenger.sendChanges], List.forall_mem_cons.mpr
      ⟨follows_checked h.follows, List.forall_mem_cons.mpr
        ⟨checked_some ⟨?_, ?_⟩, List.forall_mem_singleton.mpr (checked_some trivial)⟩⟩⟩
    · rw [h.message]
      exact ⟨List.length_pos_iff.mpr h.validId.1, h.validId.2⟩
    · rw [h.message]
  | receive our ours handle wire peer old new m called h =>
    exact ⟨_, h.eq, by simp [Messenger.receiveChanges], List.forall_mem_cons.mpr
      ⟨follows_checked h.follows, List.forall_mem_singleton.mpr (checked_some trivial)⟩⟩
  | ackOut handle id peer called why h =>
    exact ⟨_, h.eq, List.nodup_singleton _, List.forall_mem_singleton.mpr checked_none⟩
  | ackIn handle id peer why h =>
    exact ⟨_, h.eq, by simp, List.forall_mem_cons.mpr
      ⟨checked_none, List.forall_mem_singleton.mpr (checked_some trivial)⟩⟩
  | abandon handle id peer m contact own why h =>
    exact ⟨_, h.eq, by simp, List.forall_mem_cons.mpr
      ⟨checked_none, List.forall_mem_singleton.mpr (checked_some trivial)⟩⟩
  | remove our ours handle peer old why h =>
    exact ⟨_, h.eq, by simp, List.forall_mem_cons.mpr ⟨checked_none, List.forall_mem_cons.mpr
      ⟨checked_none, List.forall_mem_singleton.mpr checked_none⟩⟩⟩
  | chat h => exact h.writes hform

theorem Trans.writes (h : Trans scope db rows) (hform : Formed db) :
    ∃ changes, Writes db rows changes := by
  cases h with
  | call call allowed h =>
    cases h with
    | work h => exact h.writes hform
    | prekeys called identity sk opk h =>
      exact ⟨_, h.eq, List.nodup_singleton _, List.forall_mem_singleton.mpr (checked_some trivial)⟩
  | legacy before our ours handle rec h =>
    exact ⟨_, h.eq, by simp, List.forall_mem_cons.mpr ⟨checked_some h.bound.self,
      List.forall_mem_singleton.mpr (checked_some trivial)⟩⟩

/-! ## Runs -/

/-- The log of the transactions that led to a database: different records in each, all of their form. -/
structure Logged (P : AppPlatform) (log : List (List (Change P.Key))) (db : Db P.Key) : Prop where
  eq : Db.after log = db
  distinct : ∀ changes ∈ log, (changes.map Change.key).Nodup
  checked : ∀ changes ∈ log, ∀ c ∈ changes, c.Checked P.toPlatform

theorem Logged.formed {log : List (List (Change P.Key))} (h : Logged P log db) : Formed db := by
  intro k v hl
  obtain ⟨changes, hc, hv⟩ := List.mem_flatten.mp (Db.ever_after (h.eq ▸ Db.ever_now hl))
  exact h.checked changes hc _ hv v rfl

end Network

/-- What a transaction of the log wrote was stored. -/
theorem Db.ever_of_mem {log : List (List (Change K))}
    (hn : ∀ changes ∈ log, (changes.map Change.key).Nodup) {changes : List (Change K)}
    (hm : changes ∈ log) {k : Key} {v : Row K k} (hc : ⟨k, some v⟩ ∈ changes) :
    (Db.after log).Ever k v := by
  induction log with
  | nil => cases hm
  | cons cs log ih =>
    rcases List.mem_cons.mp hm with rfl | hm
    · exact Db.ever_push.mpr (.inl (Rows.lookup_applyAll_of_mem (hn _ List.mem_cons_self) hc _))
    · exact Db.ever_push.mpr (.inr (ih (fun cs hcs => hn cs (List.mem_cons_of_mem _ hcs)) hm))

namespace Network

variable {P : AppPlatform} {scope : Scope P} {db : Db P.Key}

theorem logged (hv : db.Valid (Trans scope)) : ∃ log, Logged P log db := by
  induction hv with
  | empty =>
    exact ⟨[], rfl, fun _ h => absurd h List.not_mem_nil, fun _ h => absurd h List.not_mem_nil⟩
  | push hv ht ih =>
    obtain ⟨log, h⟩ := ih
    obtain ⟨changes, hw⟩ := ht.writes h.formed
    refine ⟨changes :: log, ?_, List.forall_mem_cons.mpr ⟨hw.distinct, h.distinct⟩,
      List.forall_mem_cons.mpr ⟨hw.checked, h.checked⟩⟩
    rw [Db.after, h.eq, hw.eq]

/-- Of a database whose lengths and positions fit, each write of the log fits. -/
theorem Logged.fits {log : List (List (Change P.Key))} (h : Logged P log db)
    (hs : ∀ (k : Key) (v : Row P.Key k), db.Ever k v → Row.Sized k v) {changes : List (Change P.Key)}
    (hm : changes ∈ log) {c : Change P.Key} (hc : c ∈ changes) (v : Row P.Key c.key)
    (hv : c.value = some v) : Row.Fits P.toPlatform c.key v := by
  refine (h.checked changes hm c hc v hv).fits (hs _ _ ?_)
  rw [← h.eq]
  exact Db.ever_of_mem h.distinct hm (hv ▸ hc)

end Network

/-! ## The store -/

section

variable {P : Platform} {err α : Type}

/-- `uses` carries out the transactions of a log, the last first: each at the database that the ones
before it left, with any actions between them that write nothing. -/
inductive Performs (P : Platform) (names : Set String) :
    List (RowUse err α) → List (List (Change Bytes32)) → Prop
  | nil : Performs P names [] []
  | idle {uses log x} : Performs P names uses log → x.Ok P names (Db.after log).rows →
      (∀ db, (x.onDb db).2 = db) → Performs P names (uses ++ [x]) log
  | write {uses log} (change : Change Bytes32) (nonces : Nonce × Nonce) : Performs P names uses log →
      Performs P names (uses ++ [.write change nonces]) ([change] :: log)
  | transaction {uses log} (errs : TxErrors err)
      {body : ((k : Key) → Except StorageError (Row Bytes32 k)) → Except err (α × List (Change Bytes32))}
      (nonces : Nat → Nonce × Nonce) {a : α} {changes : List (Change Bytes32)} :
      Performs P names uses log →
      (∀ read, (∀ k, k.In names → read k = Choice.read {} (Db.after log).rows k) →
        body read = body (Choice.read {} (Db.after log).rows)) →
      body (Choice.read {} (Db.after log).rows) = .ok (a, changes) →
      Performs P names (uses ++ [.transaction errs body nonces]) (changes :: log)

variable {store : EncryptedStore} {names : Set String} {o : StorageError}

theorem runRows_concat (uses : List (RowUse err α)) (x : RowUse err α) (c : Connection) :
    (store.runRows P o (uses ++ [x]) c).2 = (store.onRows P o x (store.runRows P o uses c).2).2 := by
  induction uses generalizing c with
  | nil => rfl
  | cons y uses ih => exact ih _

theorem Keeps.congr {c : Connection} {db db' : Db Bytes32} (h : Keeps P store names c db)
    (heq : db.rows = db'.rows) : Keeps P store names c db' := ⟨h.begun, heq ▸ h.held⟩

/-- The store keeps the database that the log leads to. The induction is on the actions, the last of
which meets the store that the others left. -/
theorem Performs.keeps (hinj : Set.InjOn (store.keys.keyNameHash store.platform) names)
    (hP : store.platform.AeadCorrect) {uses : List (RowUse err α)} {log : List (List (Change Bytes32))}
    (h : Performs P names uses log) (hw : ∀ changes ∈ log, ∀ c ∈ changes, c.Ok P names) :
    Keeps P store names (store.runRows P o uses ⟨.empty, none⟩).2 (Db.after log) := by
  induction h with
  | nil => exact keeps_empty
  | idle _ hx hidle ih =>
    have hkeeps := (onRows_refines (o := o) hinj hP (ih hw) hx).2
    rw [hidle] at hkeeps
    rwa [runRows_concat]
  | @write _ _ change nonces _ ih =>
    obtain ⟨hchange, hrest⟩ := List.forall_mem_cons.mp hw
    rw [runRows_concat]
    exact (onRows_refines hinj hP (ih hrest) (x := .write change nonces)
      (hchange _ List.mem_cons_self)).2
  | @transaction _ log errs body nonces a changes _ hreads hbody ih =>
    obtain ⟨hchanges, hrest⟩ := List.forall_mem_cons.mp hw
    have hok : BodyOk P names (Db.after log).rows body := by
      refine ⟨hreads, fun a' changes' h => ?_⟩
      obtain ⟨-, rfl⟩ := Prod.mk.inj (Except.ok.inj (hbody.symm.trans h))
      exact hchanges
    have hrows := (txStep_calm (e := errs) hbody).2
    rw [runRows_concat]
    exact (onRows_refines hinj hP (ih hrest) (x := .transaction errs body nonces) hok).2.congr hrows

end

namespace Network

variable {P : AppPlatform} {scope : Scope P}

/-- With the chain keys and message keys that the source stores: 32 bytes. -/
theorem stored {K : Type} (hK : K = Bytes32) {log : List (List (Change K))}
    {store : EncryptedStore} {names : Set String} {o : StorageError}
    (hinj : Set.InjOn (store.keys.keyNameHash store.platform) names) (hP : store.platform.AeadCorrect)
    (hnames : ∀ changes ∈ log, ∀ c ∈ changes, c.key.In names)
    (hfits : ∀ changes ∈ log, ∀ c ∈ changes, ∀ v, c.value = some v → Row.Fits P.toPlatform c.key v)
    {err α : Type} {uses : List (RowUse err α)}
    (huses : Performs P.toPlatform names uses (hK ▸ log : List (List (Change Bytes32)))) :
    Keeps P.toPlatform store names (store.runRows P.toPlatform o uses ⟨.empty, none⟩).2
      (hK ▸ Db.after log : Db Bytes32) := by
  subst hK
  exact huses.keeps hinj hP fun changes hm c hc => ⟨hnames changes hm c hc, hfits changes hm c hc⟩

/-- **The store of a device**: the database of any reachable configuration, of lengths and positions
within the widths of their fields, is what transactions of well-formed records lead to, and an
encrypted store that carries these out keeps it. -/
theorem device_stored {c : DeviceConfig P} (h : Reachable scope c)
    (hs : ∀ (k : Key) (v : Row P.Key k), c.shared.db.Ever k v → Row.Sized k v) :
    ∃ log, Logged P log c.shared.db ∧ ∀ (hK : P.Key = Bytes32) (store : EncryptedStore)
      (names : Set String) (o : StorageError),
      Set.InjOn (store.keys.keyNameHash store.platform) names → store.platform.AeadCorrect →
      (∀ changes ∈ log, ∀ c ∈ changes, c.key.In names) →
      ∀ {err α : Type} (uses : List (RowUse err α)),
        Performs P.toPlatform names uses (hK ▸ log : List (List (Change Bytes32))) →
        Keeps P.toPlatform store names (store.runRows P.toPlatform o uses ⟨.empty, none⟩).2
          (hK ▸ c.shared.db : Db Bytes32) := by
  obtain ⟨log, hlog⟩ := logged h.valid
  refine ⟨log, hlog, fun hK store names o hinj hP hnames err α uses huses => ?_⟩
  have hfits : ∀ changes ∈ log, ∀ c ∈ changes, ∀ v, c.value = some v →
      Row.Fits P.toPlatform c.key v := fun changes hm c hc => hlog.fits hs hm hc
  have hkeeps := stored hK (o := o) hinj hP hnames hfits huses
  rwa [hlog.eq] at hkeeps

end Network

end Arcium
