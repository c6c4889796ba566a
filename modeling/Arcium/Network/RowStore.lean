import Arcium.Network.RowBytes

/-!
# The typed database is kept by the encrypted store

The programs of this development use a database of typed records. Here its actions are carried out as
the source does: a read decrypts and decodes, a write encodes and encrypts, a listing decrypts names,
and a transaction is `BEGIN`, reads, writes up to the first that fails, and `COMMIT`, or a rollback if
anything on the way fails or the process ends.

* `RowUse`: an action; `RowUse.onDb`: on the typed database; `EncryptedStore.onRows`: on the store.
* `RowUse.Ok names`: what the action touches is among `names`, and what it writes fits.
* `store_is_database`: every sequence of actions is answered alike, and keeps the relation `Keeps`.
* `Keeps.read_session`: bytes of a stored session are accepted under the bindings of its record only.
-/

namespace Arcium

variable {P : Platform} {err α : Type}

/-! ## Actions -/

/-- An action on the records, with the nonces that it draws. -/
inductive RowUse (err α : Type) where
  | read (k : Key)
  | list (l : Listing)
  | write (change : Change Bytes32) (nonces : Nonce × Nonce)
  | transaction (errs : TxErrors err)
      (body : ((k : Key) → Except StorageError (Row Bytes32 k)) → Except err (α × List (Change Bytes32)))
      (nonces : Nat → Nonce × Nonce)
  /-- The process ends in a transaction, after `count` writes. -/
  | cut (body : ((k : Key) → Except StorageError (Row Bytes32 k)) → Except err (α × List (Change Bytes32)))
      (nonces : Nat → Nonce × Nonce) (count : Nat)

inductive RowReply (err α : Type) where
  | record (k : Key) (r : Except StorageError (Row Bytes32 k))
  | names (r : Except StorageError (List String))
  | written (r : Except StorageError Unit)
  | ended (r : Except err α)
  | lost

namespace RowUse

/-- On the typed database, where nothing fails. -/
def onDb : RowUse err α → Db Bytes32 → RowReply err α × Db Bytes32
  | read k, db => (.record k (Choice.read {} db.rows k), db)
  | list l, db => (.names (.ok ((l.keys db.rows).map Key.name)), db)
  | write change _, db => (.written (.ok ()), db.push (db.rows.apply change))
  | transaction errs body _, db =>
    let (db, r) := txStep errs body {} db
    (.ended r, db)
  | cut _ _ _, db => (.lost, db)

/-- A sequence of actions on the typed database. -/
def runDb : List (RowUse err α) → Db Bytes32 → List (RowReply err α) × Db Bytes32
  | [], db => ([], db)
  | x :: uses, db =>
    let (r, db) := x.onDb db
    let (rs, db) := runDb uses db
    (r :: rs, db)

end RowUse

namespace EncryptedStore

/-- A failure, as its caller sees it. `o` stands for what is no `StorageError`. -/
def toStorageError (o : StorageError) : StoreFailure → StorageError
  | .error e => e
  | .panicked => o

/-- Decode what `get` returned. `o` is what the caller makes of bytes that the decoder refuses. -/
def decodeReply (P : Platform) (o : StorageError) (k : Key) :
    StoreReply → Except StorageError (Row Bytes32 k)
  | .value (.ok bytes) =>
    match Row.decode P k bytes with
    | some v => .ok v
    | none => .error o
  | .value (.error e) | .done (.error e) => .error (toStorageError o e)
  | .done (.ok ()) => .error o

/-- The operation of a write. -/
def writeOp (change : Change Bytes32) (nonces : Nonce × Nonce) : StoreOp :=
  match change.value with
  | some v => .put change.key.name (Row.encode change.key v) nonces.1 nonces.2
  | none => .delete change.key.name

/-- The operations of the writes of a transaction. -/
def writeOps (nonces : Nat → Nonce × Nonce) (changes : List (Change Bytes32)) : List StoreOp :=
  changes.zipIdx.map fun (change, i) => writeOp change (nonces i)

/-- What `?` makes of a reply to a write. -/
def replyResult : StoreReply → Except StoreFailure Unit
  | .done r => r
  | .value r => r.map fun _ => ()

variable (store : EncryptedStore)

/-- Writes in a transaction, up to the first that fails. -/
def writeAll : List StoreOp → OnConnection Unit
  | [], c => (.ok (), c)
  | op :: ops, c =>
    let (r, c) := store.performInside op c
    match replyResult r with
    | .ok () => writeAll ops c
    | .error e => (.error e, c)

/-- An action on the store. -/
def onRows (P : Platform) (o : StorageError) : RowUse err α → Connection → RowReply err α × Connection
  | .read k, c =>
    let (r, c) := store.perform (.get k.name) c
    (.record k (decodeReply P o k r), c)
  | .list l, c =>
    let (r, c) := store.listKeysWithPrefix l.namespaceName c
    (.names ((r.map fun keys => keys.filter fun key => startsWith key l.pre).mapError
      (toStorageError o)), c)
  | .write change nonces, c =>
    let (r, c) := store.perform (writeOp change nonces) c
    (.written ((replyResult r).mapError (toStorageError o)), c)
  | .transaction errs body nonces, c =>
    match ensureNoOpenTransaction c with
    | some (e, c) => (.ended (.error (errs.onBegin (toStorageError o e))), c)
    | none =>
      match Connection.execBegin c with
      | (.error e, c) => (.ended (.error (errs.onBegin (toStorageError o e))), c)
      | (.ok (), c) =>
        match body fun k => decodeReply P o k (store.performInside (.get k.name) c).1 with
        | .error x => (.ended (.error x), c.dropTransaction)
        | .ok (a, changes) =>
          match store.writeAll (writeOps nonces changes) c with
          | (.error e, c) => (.ended (.error (errs.onWrite (toStorageError o e))), c.dropTransaction)
          | (.ok (), c) =>
            match finish .commit c with
            | (.error e, c) => (.ended (.error (errs.onCommit (toStorageError o e))), c)
            | (.ok (), c) => (.ended (.ok a), c)
  | .cut body nonces count, c =>
    match Connection.execBegin c with
    | (.error _, c) => (.lost, c)
    | (.ok (), c) =>
      match body fun k => decodeReply P o k (store.performInside (.get k.name) c).1 with
      | .error _ => (.lost, c.dropTransaction)
      | .ok (_, changes) =>
        -- The journal puts the table back when the store is next opened.
        let (_, c) := store.writeAll ((writeOps nonces changes).take count) c
        (.lost, c.dropTransaction)

/-- A sequence of actions on the store. -/
def runRows (P : Platform) (o : StorageError) :
    List (RowUse err α) → Connection → List (RowReply err α) × Connection
  | [], c => ([], c)
  | x :: uses, c =>
    let (r, c) := store.onRows P o x c
    let (rs, c) := runRows P o uses c
    (r :: rs, c)

end EncryptedStore

/-! ## What is asked of an action -/

/-- The name and the namespace of a key are among `names`. -/
def Key.In (names : Set String) (k : Key) : Prop := k.name ∈ names ∧ KeyMaterial.namespaceOf k.name ∈ names

/-- A write of a key among `names`, whose record fits. -/
def Change.Ok (P : Platform) (names : Set String) (c : Change Bytes32) : Prop :=
  c.key.In names ∧ ∀ v, c.value = some v → Row.Fits P c.key v

/-- The body of a transaction, at `rows`, reads and writes keys among `names`, and writes what fits. -/
structure BodyOk (P : Platform) (names : Set String) (rows : Rows Bytes32)
    (body : ((k : Key) → Except StorageError (Row Bytes32 k)) → Except err (α × List (Change Bytes32))) :
    Prop where
  reads : ∀ read, (∀ k, k.In names → read k = Choice.read {} rows k) → body read = body (Choice.read {} rows)
  writes : ∀ a changes, body (Choice.read {} rows) = .ok (a, changes) → ∀ c ∈ changes, c.Ok P names

namespace RowUse

/-- An action at `rows` (module doc). -/
def Ok (P : Platform) (names : Set String) (rows : Rows Bytes32) : RowUse err α → Prop
  | read k => k.In names
  | list l => l.namespaceName ∈ names
  | write change _ => change.Ok P names
  | transaction _ body _ | cut body _ _ => BodyOk P names rows body

/-- Each action of a sequence, where it is made. -/
def AllOk (P : Platform) (names : Set String) : List (RowUse err α) → Db Bytes32 → Prop
  | [], _ => True
  | x :: uses, db => x.Ok P names db.rows ∧ AllOk P names uses (x.onDb db).2

end RowUse

/-! ## The relation -/

/-- No transaction is open, and the table holds the records of the database. -/
structure Keeps (P : Platform) (store : EncryptedStore) (names : Set String) (c : Connection)
    (db : Db Bytes32) : Prop where
  begun : c.begun = none
  held : ∃ m, Represents store names c.kv m ∧ (rowFormat P).Holds db.rows m

theorem keeps_empty {store : EncryptedStore} {names : Set String} :
    Keeps P store names ⟨.empty, none⟩ .empty :=
  ⟨rfl, ∅, represents_empty, .empty⟩

/-- A write is the write of the record. -/
theorem holds_apply {rows : Rows Bytes32} {m : PlainMap} (h : (rowFormat P).Holds rows m)
    {names : Set String} {change : Change Bytes32} (hc : change.Ok P names) (nonces : Nonce × Nonce) :
    (PlainMap.perform (EncryptedStore.writeOp change nonces) m).1 = .done (.ok ()) ∧
      (rowFormat P).Holds (rows.apply change) (PlainMap.perform (EncryptedStore.writeOp change nonces) m).2 := by
  obtain ⟨key, value⟩ := change
  cases value with
  | some v => exact ⟨rfl, h.insert (hc.2 v rfl)⟩
  | none => exact ⟨rfl, h.erase key⟩

theorem writeOp_names {names : Set String} {change : Change Bytes32} (hc : change.Ok P names)
    (nonces : Nonce × Nonce) : ∀ name ∈ (EncryptedStore.writeOp change nonces).names, name ∈ names := by
  obtain ⟨⟨hname, hspace⟩, -⟩ := hc
  have hkey : (EncryptedStore.writeOp change nonces).key = change.key.name := by
    unfold EncryptedStore.writeOp
    cases change.value <;> rfl
  intro name hmem
  rw [StoreOp.names, hkey] at hmem
  rcases List.mem_cons.mp hmem with rfl | hmem
  · exact hspace
  · rwa [List.mem_singleton.mp hmem]

section

variable {store : EncryptedStore} {names : Set String} {c : Connection} {rows : Rows Bytes32} {m : PlainMap}
  {o : StorageError} (hinj : Set.InjOn (store.keys.keyNameHash store.platform) names)
  (hP : store.platform.AeadCorrect)
include hinj

/-- A read decrypts and decodes the record. -/
theorem read_refines (hr : Represents store names c.kv m) (hh : (rowFormat P).Holds rows m) {k : Key}
    (hk : k.In names) : ∃ r, store.rowOp (.get k.name) c = (r, c) ∧
      EncryptedStore.decodeReply P o k r = Choice.read {} rows k := by
  have hget : getRow store.platform store.keys k.name c = (m.get k.name, c) := hr.get hinj hk.1
  refine ⟨.value (m.get k.name), by rw [EncryptedStore.rowOp, hget], ?_⟩
  have hread := hh.read k
  unfold PlainMap.get Choice.read
  cases hl : rows.lookup k with
  | some v =>
    have hstored : m.lookup k.name = some (Row.encode k v) := hh.stored k v hl
    have hdecode : Row.decode P k (Row.encode k v) = some v := Row.decode_encode P k v (hh.fits k v hl)
    simp only [hstored, EncryptedStore.decodeReply, hdecode]
  | none =>
    have hmissing : m.lookup k.name = none := hh.missing hl
    simp only [hmissing, EncryptedStore.decodeReply]
    rfl

/-- What the body of a transaction reads is what it reads of the typed database. -/
theorem body_refines {begun : Kv} (hc : c.begun = some begun) (hr : Represents store names c.kv m)
    (hh : (rowFormat P).Holds rows m)
    {body : ((k : Key) → Except StorageError (Row Bytes32 k)) → Except err (α × List (Change Bytes32))}
    (hbody : BodyOk P names rows body) :
    body (fun k => EncryptedStore.decodeReply P o k (store.performInside (.get k.name) c).1) =
      body (Choice.read {} rows) := by
  refine hbody.reads _ fun k hk => ?_
  obtain ⟨r, hop, hread⟩ := read_refines (o := o) hinj hr hh hk
  have hinside : store.performInside (.get k.name) c = (r, c) := by
    rw [← hop]
    simp [EncryptedStore.performInside, EncryptedStore.ensureActive, Connection.isAutocommit, hc]
  rw [hinside, hread]

include hP

theorem write_refines (hr : Represents store names c.kv m) (hh : (rowFormat P).Holds rows m)
    {change : Change Bytes32} (hc : change.Ok P names) (nonces : Nonce × Nonce) :
    ∃ t m', store.rowOp (EncryptedStore.writeOp change nonces) c = (.done (.ok ()), { c with kv := t }) ∧
      Represents store names t m' ∧ (rowFormat P).Holds (rows.apply change) m' := by
  obtain ⟨t, hop, ht⟩ := rowOp_refines hinj hP hr (writeOp_names hc nonces)
  obtain ⟨hreply, hh'⟩ := holds_apply hh hc nonces
  exact ⟨t, _, by rw [hop, hreply], ht, hh'⟩

/-- The writes of a transaction. The invariant is that the table of the open transaction holds the
records with the writes so far. -/
theorem writeAll_refines {begun : Kv} (hc : c.begun = some begun) (hr : Represents store names c.kv m)
    (hh : (rowFormat P).Holds rows m) {l : List (Change Bytes32 × (Nonce × Nonce))}
    (hl : ∀ x ∈ l, x.1.Ok P names) :
    ∃ t m', store.writeAll (l.map fun x => EncryptedStore.writeOp x.1 x.2) c = (.ok (), { c with kv := t }) ∧
      Represents store names t m' ∧ (rowFormat P).Holds (rows.applyAll (l.map Prod.fst)) m' := by
  induction l generalizing c m rows with
  | nil => exact ⟨c.kv, m, rfl, hr, hh⟩
  | cons x l ih =>
    obtain ⟨t, m', hop, ht, hh'⟩ := write_refines hinj hP hr hh (hl x List.mem_cons_self) x.2
    obtain ⟨t', m'', hrest, ht', hh''⟩ := ih (c := { c with kv := t }) hc ht hh'
      fun y hy => hl y (List.mem_cons_of_mem _ hy)
    refine ⟨t', m'', ?_, ht', hh''⟩
    have hinside : store.performInside (EncryptedStore.writeOp x.1 x.2) c =
        (.done (.ok ()), { c with kv := t }) := by
      rw [← hop]
      simp [EncryptedStore.performInside, EncryptedStore.ensureActive, Connection.isAutocommit, hc]
    simp only [List.map_cons, EncryptedStore.writeAll, hinside, EncryptedStore.replyResult, hrest]

end

/-- The writes of a transaction, each with its nonces. -/
theorem writeOps_eq (nonces : Nat → Nonce × Nonce) (changes : List (Change Bytes32)) :
    ∃ l : List (Change Bytes32 × (Nonce × Nonce)), l.map Prod.fst = changes ∧
      EncryptedStore.writeOps nonces changes = l.map fun x => EncryptedStore.writeOp x.1 x.2 := by
  refine ⟨changes.zipIdx.map fun x => (x.1, nonces x.2), ?_, ?_⟩
  · rw [List.map_map]
    exact List.zipIdx_map_fst 0 changes
  · rw [List.map_map]
    rfl

/-- A transaction that nothing fails. -/
theorem txStep_calm {e : TxErrors err} {db : Db Bytes32} {a : α} {changes : List (Change Bytes32)}
    {body : ((k : Key) → Except StorageError (Row Bytes32 k)) → Except err (α × List (Change Bytes32))}
    (h : body (Choice.read {} db.rows) = .ok (a, changes)) :
    (txStep e body {} db).2 = .ok a ∧ (txStep e body {} db).1.rows = db.rows.applyAll changes := by
  unfold txStep
  simp only [h]
  cases changes with
  | nil => exact ⟨rfl, rfl⟩
  | cons c cs => exact ⟨rfl, rfl⟩

section

variable {store : EncryptedStore} {names : Set String} {c : Connection} {db : Db Bytes32}
  {o : StorageError} (hinj : Set.InjOn (store.keys.keyNameHash store.platform) names)
  (hP : store.platform.AeadCorrect)
include hinj hP

/-- The writes of a transaction that has begun: all of `changes`, or as many as `count`. -/
theorem begun_refines (h : Keeps P store names c db) {changes : List (Change Bytes32)}
    (hw : ∀ change ∈ changes, change.Ok P names) (nonces : Nat → Nonce × Nonce) (count : Nat) :
    ∃ t m, store.writeAll ((EncryptedStore.writeOps nonces changes).take count) { c with begun := some c.kv } =
        (.ok (), { kv := t, begun := some c.kv }) ∧
      Represents store names t m ∧ (rowFormat P).Holds (db.rows.applyAll (changes.take count)) m := by
  obtain ⟨m, hr, hh⟩ := h.held
  obtain ⟨l, rfl, hops⟩ := writeOps_eq nonces changes
  obtain ⟨t, m', hall, ht, hh'⟩ := writeAll_refines hinj hP (c := { c with begun := some c.kv })
    (l := l.take count) rfl hr hh fun x hx => hw _ (List.mem_map_of_mem (List.mem_of_mem_take hx))
  refine ⟨t, m', ?_, ht, ?_⟩
  · rw [hops, ← List.map_take, hall]
  · rw [← List.map_take]
    exact hh'

/-- **One action**: the store answers as the typed database, and still holds its records. -/
theorem onRows_refines (h : Keeps P store names c db) {x : RowUse err α} (hx : x.Ok P names db.rows) :
    (store.onRows P o x c).1 = (x.onDb db).1 ∧
      Keeps P store names (store.onRows P o x c).2 (x.onDb db).2 := by
  obtain ⟨kv, begun⟩ := c
  obtain rfl : begun = none := h.begun
  obtain ⟨m, hr, hh⟩ := h.held
  have hensure : EncryptedStore.ensureNoOpenTransaction ⟨kv, none⟩ = none := rfl
  have hbegin : Connection.execBegin ⟨kv, none⟩ = (.ok (), ⟨kv, some kv⟩) := rfl
  cases x with
  | read k =>
    obtain ⟨r, hop, hread⟩ := read_refines (o := o) hinj hr hh hx
    simp only [EncryptedStore.onRows, EncryptedStore.perform, hensure, hop, hread]
    exact ⟨rfl, h⟩
  | list l =>
    have hlist := listKeys_refines hinj hr rfl hx
    simp only [EncryptedStore.onRows, hlist]
    refine ⟨?_, h⟩
    have hkeys := l.keys_eq hh
    rw [PlainMap.keysUnder] at hkeys
    simp only [Except.map, hkeys]
    rfl
  | write change nonces =>
    obtain ⟨t, m', hop, ht, hh'⟩ := write_refines hinj hP hr hh hx nonces
    simp only [EncryptedStore.onRows, EncryptedStore.perform, hensure, hop]
    exact ⟨rfl, rfl, m', ht, hh'⟩
  | transaction errs body nonces =>
    have hbody := body_refines (o := o) hinj (c := ⟨kv, some kv⟩) rfl hr hh hx
    simp only [EncryptedStore.onRows, hensure, hbegin, hbody, RowUse.onDb]
    cases hb : body (Choice.read {} db.rows) with
    | error e =>
      have htx : txStep errs body {} db = (db, .error e) := by
        unfold txStep
        simp only [hb]
      rw [htx]
      exact ⟨rfl, h⟩
    | ok r =>
      obtain ⟨a, changes⟩ := r
      obtain ⟨hres, hrows⟩ := txStep_calm (e := errs) hb
      obtain ⟨t, m', hall, ht, hh'⟩ := begun_refines hinj hP h (hx.writes a changes hb) nonces
        (EncryptedStore.writeOps nonces changes).length
      rw [List.take_length] at hall
      have hcount : changes.take (EncryptedStore.writeOps nonces changes).length = changes := by
        rw [EncryptedStore.writeOps, List.length_map, List.length_zipIdx, List.take_length]
      rw [hcount, ← hrows] at hh'
      simp only [hall, hres]
      exact ⟨rfl, rfl, m', ht, hh'⟩
  | cut body nonces count =>
    have hbody := body_refines (o := o) hinj (c := ⟨kv, some kv⟩) rfl hr hh hx
    simp only [EncryptedStore.onRows, hbegin, hbody, RowUse.onDb]
    cases hb : body (Choice.read {} db.rows) with
    | error e => exact ⟨rfl, h⟩
    | ok r =>
      obtain ⟨a, changes⟩ := r
      obtain ⟨t, m', hall, -, -⟩ := begun_refines hinj hP h (hx.writes a changes hb) nonces count
      simp only [hall]
      -- The rollback puts back the table that the transaction began with.
      exact ⟨trivial, h⟩

theorem runRows_refines (h : Keeps P store names c db) {uses : List (RowUse err α)}
    (huses : RowUse.AllOk P names uses db) :
    (store.runRows P o uses c).1 = (RowUse.runDb uses db).1 ∧
      Keeps P store names (store.runRows P o uses c).2 (RowUse.runDb uses db).2 := by
  induction uses generalizing c db with
  | nil => exact ⟨rfl, h⟩
  | cons x uses ih =>
    obtain ⟨hx, hrest⟩ := huses
    obtain ⟨hreply, hkeeps⟩ := onRows_refines (o := o) hinj hP h hx
    obtain ⟨hreplies, hend⟩ := ih hkeeps hrest
    simp only [EncryptedStore.runRows, RowUse.runDb]
    exact ⟨by rw [hreply, hreplies], hend⟩

end

/-- A session that the store keeps is read under a binding as its record is. -/
theorem Keeps.read_session {store : EncryptedStore} {names : Set String} {c : Connection}
    {db : Db Bytes32} (h : Keeps P store names c db)
    (hinj : Set.InjOn (store.keys.keyNameHash store.platform) names) {peer : Peer}
    {rec : SessionRecord Bytes32} (hl : db.rows.lookup (.session peer) = some rec)
    (hk : (Key.session peer).In names) (binding : SessionBinding) : ∃ bytes,
    store.rowOp (.get (Key.session peer).name) c = (.value (.ok bytes), c) ∧
      decodeSessionBytes bytes binding = decodeSessionCheckpoint rec binding := by
  obtain ⟨m, hr, hh⟩ := h.held
  have hget : getRow store.platform store.keys (Key.session peer).name c =
      (m.get (Key.session peer).name, c) := hr.get hinj hk.1
  have hstored : m.lookup (Key.session peer).name = some rec.layout := hh.stored (.session peer) rec hl
  have hfits : rec.Bound rec.our rec.peer := hh.fits (.session peer) rec hl
  refine ⟨rec.layout, ?_, decodeSessionBytes_row hfits binding⟩
  rw [EncryptedStore.rowOp, hget, PlainMap.get, hstored]

/-- **The encrypted store is the typed database**: a sequence of reads, listings, writes and
transactions, some cut off, is answered by the store as by the typed database, and what the store then
holds is the database, which its records can be read from again. -/
theorem store_is_database (P : Platform) (store : EncryptedStore) (hP : store.platform.AeadCorrect)
    (o : StorageError) (names : Set String)
    (hinj : Set.InjOn (store.keys.keyNameHash store.platform) names) (uses : List (RowUse err α))
    (huses : RowUse.AllOk P names uses .empty) :
    (store.runRows P o uses ⟨.empty, none⟩).1 = (RowUse.runDb uses .empty).1 ∧
      Keeps P store names (store.runRows P o uses ⟨.empty, none⟩).2 (RowUse.runDb uses .empty).2 :=
  runRows_refines hinj hP keeps_empty huses

/-- The transaction of `save_identity`. -/
def saveOnce (identity : Identity) (read : (k : Key) → Except StorageError (Row Bytes32 k)) :
    Except Unit (Unit × List (Change Bytes32)) :=
  match read .identity with
  | .ok _ => .error ()
  | .error _ => .ok ((), [⟨.identity, some identity⟩])

/-- The second identity is refused, and the deletion of the contact is cut off. -/
def someRows : List (RowUse Unit Unit) :=
  let errs : TxErrors Unit := ⟨fun _ => (), fun _ => (), fun _ => ()⟩
  let nonces := (zeroNonce, zeroNonce)
  [.transaction errs (saveOnce ⟨fill 1, fill 2⟩) fun _ => nonces,
    .transaction errs (saveOnce ⟨fill 3, fill 4⟩) fun _ => nonces,
    .write ⟨.contact (fill 5), some (⟨fill 5, fill 6⟩ : Card)⟩ nonces, .list .contacts,
    .cut (fun _ => .ok ((), [⟨.contact (fill 5), none⟩])) (fun _ => nonces) 1,
    .read (.contact (fill 5)), .read .identity]

theorem store_is_database_some :
    (symbolicStore.runRows symbolicPlatform .db someRows ⟨.empty, none⟩).1 =
      [.ended (.ok ()), .ended (.error ()), .written (.ok ()),
        .names (.ok ["contact:v1/" ++ hex (fill 5).val]), .lost,
        .record (.contact (fill 5)) (.ok (⟨fill 5, fill 6⟩ : Card)),
        .record .identity (.ok (⟨fill 1, fill 2⟩ : Identity))] := by
  let names := ["identity/v1", "contact:", "contact:v1/" ++ hex (fill 5).val]
  have hin : ∀ k : Key, k.name ∈ names ∧ KeyMaterial.namespaceOf k.name ∈ names →
      k.In { name | name ∈ names } := fun _ h => h
  have hidentity := hin .identity (by decide +kernel)
  have hcontact := hin (.contact (fill 5)) (by decide +kernel)
  have hdistinct : ∀ a ∈ names, ∀ b ∈ names, symbolicStore.keys.keyNameHash symbolicStore.platform a =
      symbolicStore.keys.keyNameHash symbolicStore.platform b → a = b := by
    decide +kernel
  have hsave : ∀ rows identity, BodyOk symbolicPlatform { name | name ∈ names } rows (saveOnce identity) := by
    intro rows identity
    refine ⟨fun read h => by rw [saveOnce, saveOnce, h .identity hidentity], fun a changes h c hc => ?_⟩
    unfold saveOnce at h
    split at h
    · cases h
    · cases h
      rw [List.mem_singleton.mp hc]
      exact ⟨hidentity, fun _ _ => trivial⟩
  refine (store_is_database symbolicPlatform symbolicStore symbolicStore_aeadCorrect .db
    { name | name ∈ names } (fun a ha b hb h => hdistinct a ha b hb h) someRows
    ⟨hsave _ _, hsave _ _, ⟨hcontact, fun _ _ => trivial⟩, ?_, ⟨fun _ _ => rfl, ?_⟩, hcontact, hidentity,
      trivial⟩).1.trans ?_
  · show "contact:" ∈ names
    decide
  · intro a changes h c hc
    cases h
    rw [List.mem_singleton.mp hc]
    exact ⟨hcontact, fun _ h => by cases h⟩
  · with_unfolding_all rfl

end Arcium
