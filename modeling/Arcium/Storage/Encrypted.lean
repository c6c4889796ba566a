import Arcium.Storage.Store

/-!
# The implementation of the store (`core-storage/src/lib.rs`)

`EncryptedStore` over one SQLite connection. A row is addressed by the hash of the key's namespace and
the hash of the key, and holds the key's name and the value, each encrypted.

* `StorePlatform`: HKDF and the cipher, third-party code.
* `Kv`, `Connection`: the table `kv` and the transaction state, as SQLite keeps them.
* `KeyMaterial`: what is derived from the master key.
* `put`, `get`, `delete`, `listKeysWithPrefix`, and a transaction with what is done inside it
  (`answer`). The nonces that `OsRng` gives are arguments.
-/

namespace Arcium

/-- `str::as_bytes`. -/
def asBytes (s : String) : Bytes := s.toUTF8.data.toList

/-- `String::from_utf8`. -/
def fromUtf8 (b : Bytes) : Option String := String.fromUTF8? ⟨b.toArray⟩

theorem fromUtf8_asBytes (s : String) : fromUtf8 (asBytes s) = some s :=
  dif_pos s.isValidUTF8

theorem asBytes_injective : Function.Injective asBytes := fun s t h => by
  have hs := fromUtf8_asBytes s
  rw [h, fromUtf8_asBytes t] at hs
  exact (Option.some.inj hs).symm

/-- The third-party functions of the store. -/
structure StorePlatform where
  /-- HKDF-SHA256: 32 bytes from a salt, a key and an info. -/
  hkdf : (salt : Bytes) → (key : Bytes32) → (info : Bytes) → Bytes32
  /-- `XChaCha20Poly1305::encrypt`. -/
  cipherEncrypt : Bytes32 → Nonce → (msg aad : Bytes) → Option Bytes
  /-- `XChaCha20Poly1305::decrypt`. -/
  cipherDecrypt : Bytes32 → Nonce → (ct aad : Bytes) → Option Bytes

/-- How an operation ends that does not return. -/
inductive StoreFailure where
  | error (e : StorageError)
  | panicked
  deriving DecidableEq

/-! ## Key material -/

structure KeyMaterial where
  masterKey : Bytes32

namespace KeyMaterial

/-- `namespace_of`: everything up to and including the first `:`, or the whole key. -/
def namespaceOf (key : String) : String :=
  if ':' ∈ key.toList then String.ofList (key.toList.takeWhile (· ≠ ':') ++ [':']) else key

variable (P : StorePlatform) (keys : KeyMaterial)

/-- `NAME_HASH_LEN`. -/
def nameHashLen : Nat := 32

/-- `key_name_hash`. -/
def keyNameHash (s : String) : Bytes32 :=
  P.hkdf (asBytes "core-storage/key-name-hash/v1") keys.masterKey (asBytes s)

/-- `storage_key`. -/
def storageKey (key : String) : Bytes :=
  (keys.keyNameHash P (namespaceOf key)).val ++ (keys.keyNameHash P key).val

/-- `key_name_encryption_subkey`. -/
def keyNameEncryptionSubkey : Bytes32 :=
  P.hkdf (asBytes "core-storage/key-name-enc/v1") keys.masterKey []

def subkey (key : String) : Bytes32 := P.hkdf (asBytes "core-storage/v1") keys.masterKey (asBytes key)

/-- A nonce, and the message encrypted under it. -/
def sealed (key : Bytes32) (nonce : Nonce) (msg aad : Bytes) : Option Bytes :=
  (P.cipherEncrypt key nonce msg aad).map fun ct => nonce.val ++ ct

/-- Split off the nonce, and decrypt. -/
def opened (key : Bytes32) (ctWithNonce aad : Bytes) : Option Bytes :=
  if h : (ctWithNonce.take nonceSize).length = 24 then
    P.cipherDecrypt key ⟨ctWithNonce.take nonceSize, h⟩ (ctWithNonce.drop nonceSize) aad
  else none

/-- `encrypt_key_name`. -/
def encryptKeyName (key : String) (nonce : Nonce) : Except StoreFailure Bytes :=
  match sealed P (keys.keyNameEncryptionSubkey P) nonce (asBytes key) [] with
  | some out => .ok out
  | none => .error .panicked

/-- `decrypt_key_name`. -/
def decryptKeyName (ctWithNonce : Bytes) : Except StoreFailure String :=
  match (opened P (keys.keyNameEncryptionSubkey P) ctWithNonce []).bind fromUtf8 with
  | some key => .ok key
  | none => .error (.error .decryption)

def encrypt (key : String) (plaintext : Bytes) (nonce : Nonce) : Except StoreFailure Bytes :=
  match sealed P (keys.subkey P key) nonce plaintext (asBytes key) with
  | some out => .ok out
  | none => .error (.error .decryption)

def decrypt (key : String) (ctWithNonce : Bytes) : Except StoreFailure Bytes :=
  match opened P (keys.subkey P key) ctWithNonce (asBytes key) with
  | some pt => .ok pt
  | none => .error (.error .decryption)

end KeyMaterial

/-! ## The table -/

structure KvRow where
  k : Bytes
  ek : Bytes
  v : Bytes
  deriving DecidableEq

/-- The table `kv`, with its primary key. -/
structure Kv where
  rows : List KvRow
  primary : (rows.map KvRow.k).Nodup

namespace Kv

def empty : Kv := ⟨[], .nil⟩

/-- `INSERT … ON CONFLICT(k) DO UPDATE SET v = excluded.v`, on the rows. -/
def upsertRows (k ek v : Bytes) (rows : List KvRow) : List KvRow :=
  if k ∈ rows.map KvRow.k then rows.map fun r => if r.k = k then { r with v } else r
  else rows ++ [⟨k, ek, v⟩]

theorem upsertRows_primary {k ek v : Bytes} {rows : List KvRow} (h : (rows.map KvRow.k).Nodup) :
    ((upsertRows k ek v rows).map KvRow.k).Nodup := by
  unfold upsertRows
  split
  · have hsame : (rows.map fun r => if r.k = k then { r with v } else r).map KvRow.k =
        rows.map KvRow.k := by
      rw [List.map_map]
      refine List.map_congr_left fun r _ => ?_
      by_cases hr : r.k = k <;> simp [hr]
    rw [hsame]
    exact h
  · next hnew =>
    rw [List.map_append]
    refine List.nodup_append'.mpr ⟨h, List.nodup_singleton _, fun a ha ha' => ?_⟩
    rw [List.mem_singleton.mp ha'] at ha
    exact hnew ha

def upsert (k ek v : Bytes) (t : Kv) : Kv := ⟨upsertRows k ek v t.rows, upsertRows_primary t.primary⟩

/-- `SELECT v FROM kv WHERE k = ?1`. -/
def select (k : Bytes) (t : Kv) : Option Bytes := (t.rows.find? fun r => r.k = k).map KvRow.v

/-- `DELETE FROM kv WHERE k = ?1`. -/
def delete (k : Bytes) (t : Kv) : Kv :=
  ⟨t.rows.filter fun r => r.k ≠ k, t.primary.sublist (List.filter_sublist.map _)⟩

/-- `SELECT ek FROM kv WHERE substr(k, 1, ?1) = ?2 ORDER BY k`. -/
def selectNames (len : Nat) (hash : Bytes) (t : Kv) : List Bytes :=
  ((t.rows.filter fun r => r.k.take len = hash).mergeSort fun a b => a.k ≤ b.k).map KvRow.ek

end Kv

/-- A connection. -/
structure Connection where
  kv : Kv
  /-- The table at `BEGIN`, while a transaction is open. -/
  begun : Option Kv := none

/-- What an operation returns, and the connection after it. -/
abbrev OnConnection (α : Type) := Connection → Except StoreFailure α × Connection

namespace Connection

def isAutocommit (c : Connection) : Bool := c.begun.isNone

/-- `BEGIN IMMEDIATE`. -/
def execBegin : OnConnection Unit := fun c =>
  match c.begun with
  | none => (.ok (), { c with begun := some c.kv })
  | some _ => (.error (.error .db), c)

/-- `COMMIT`. -/
def execCommit : OnConnection Unit := fun c =>
  match c.begun with
  | none => (.error (.error .db), c)
  | some _ => (.ok (), { c with begun := none })

/-- `ROLLBACK`. -/
def execRollback : OnConnection Unit := fun c =>
  match c.begun with
  | none => (.error (.error .db), c)
  | some kv => (.ok (), { kv })

/-- What `rusqlite` does when it drops a transaction. -/
def dropTransaction (c : Connection) : Connection :=
  if c.isAutocommit then c else (execRollback c).2

end Connection

/-! ## Operations -/

/-- `put_row`. -/
def putRow (P : StorePlatform) (keys : KeyMaterial) (key : String) (value : Bytes)
    (nonce nameNonce : Nonce) : OnConnection Unit := fun c =>
  match keys.encrypt P key value nonce with
  | .error e => (.error e, c)
  | .ok ct =>
    match keys.encryptKeyName P key nameNonce with
    | .error e => (.error e, c)
    | .ok ek => (.ok (), { c with kv := c.kv.upsert (keys.storageKey P key) ek ct })

/-- `get_row`. -/
def getRow (P : StorePlatform) (keys : KeyMaterial) (key : String) : OnConnection Bytes := fun c =>
  match c.kv.select (keys.storageKey P key) with
  | none => (.error (.error .notFound), c)
  | some row => (keys.decrypt P key row, c)

/-- `delete_row`. -/
def deleteRow (P : StorePlatform) (keys : KeyMaterial) (key : String) : OnConnection Unit := fun c =>
  (.ok (), { c with kv := c.kv.delete (keys.storageKey P key) })

/-- What can be done in a transaction or outside one. -/
inductive StoreOp where
  | put (key : String) (value : Bytes) (nonce nameNonce : Nonce)
  | get (key : String)
  | delete (key : String)

/-- What an operation returns. -/
inductive StoreReply where
  | done (r : Except StoreFailure Unit)
  | value (r : Except StoreFailure Bytes)
  deriving DecidableEq

/-- How a transaction ends. -/
inductive Ending where
  | commit
  | rollback
  | drop
  deriving DecidableEq

/-- A use of the store: while a transaction is open the store is borrowed by it. -/
inductive StoreUse where
  | single (op : StoreOp)
  | list (name : String)
  | transaction (ops : List StoreOp) (ending : Ending)

inductive UseReply where
  | single (r : StoreReply)
  | keys (r : Except StoreFailure (List String))
  /-- `transaction` failed. -/
  | refused (e : StoreFailure)
  | transaction (replies : List StoreReply) (ended : Except StoreFailure Unit)
  deriving DecidableEq

/-- `EncryptedStore`: the key material, and the connection it is used with. -/
structure EncryptedStore where
  platform : StorePlatform
  keys : KeyMaterial

namespace EncryptedStore

variable (store : EncryptedStore) {α : Type}

/-- The operations on rows. -/
def rowOp : StoreOp → Connection → StoreReply × Connection
  | .put key value nonce nameNonce, c =>
    let (r, c) := putRow store.platform store.keys key value nonce nameNonce c
    (.done r, c)
  | .get key, c =>
    let (r, c) := getRow store.platform store.keys key c
    (.value r, c)
  | .delete key, c =>
    let (r, c) := deleteRow store.platform store.keys key c
    (.done r, c)

/-- The reply of an operation that fails. -/
def failed : StoreOp → StoreFailure → StoreReply
  | .put _ _ _ _, e => .done (.error e)
  | .get _, e => .value (.error e)
  | .delete _, e => .done (.error e)

/-- `ensure_no_open_transaction`: `none` if there is none. -/
def ensureNoOpenTransaction (c : Connection) : Option (StoreFailure × Connection) :=
  if c.isAutocommit then none
  else some (.error .transactionStateInvalid, (Connection.execRollback c).2)

/-- `EncryptedStore::put`, `get` and `delete`. -/
def perform (op : StoreOp) (c : Connection) : StoreReply × Connection :=
  match ensureNoOpenTransaction c with
  | some (e, c) => (failed op e, c)
  | none => rowOp store op c

/-- `ensure_active`: `none` if the transaction is open. -/
def ensureActive (c : Connection) : Option StoreFailure :=
  if c.isAutocommit then some (.error .transactionStateInvalid) else none

/-- `StoreTransaction::put`, `get` and `delete`. -/
def performInside (op : StoreOp) (c : Connection) : StoreReply × Connection :=
  match ensureActive c with
  | some e => (failed op e, c)
  | none => rowOp store op c

/-- Operations in a transaction. -/
def performAll : List StoreOp → Connection → List StoreReply × Connection
  | [], c => ([], c)
  | op :: ops, c =>
    let (r, c) := performInside store op c
    let (rs, c) := performAll ops c
    (r :: rs, c)

/-- `StoreTransaction::commit`, `rollback`, or neither. `rusqlite` drops the transaction after it. -/
def finish : Ending → OnConnection Unit
  | .commit, c =>
    let (r, c) := Connection.execCommit c
    (r, c.dropTransaction)
  | .rollback, c =>
    let (r, c) := Connection.execRollback c
    (r, c.dropTransaction)
  | .drop, c => (.ok (), c.dropTransaction)

/-- `keys.sort()`. -/
def sortKeys (l : List String) : List String := l.mergeSort fun a b => asBytes a ≤ asBytes b

/-- `list_keys_with_prefix`. -/
def listKeysWithPrefix (name : String) : OnConnection (List String) := fun c =>
  match ensureNoOpenTransaction c with
  | some (e, c) => (.error e, c)
  | none =>
    let rows := c.kv.selectNames KeyMaterial.nameHashLen
      (store.keys.keyNameHash store.platform name).val
    match rows.mapM (store.keys.decryptKeyName store.platform) with
    | .ok keys => (.ok (sortKeys keys), c)
    | .error e => (.error e, c)

/-- One use of the store. -/
def answer : StoreUse → Connection → UseReply × Connection
  | .single op, c =>
    let (r, c) := perform store op c
    (.single r, c)
  | .list name, c =>
    let (r, c) := listKeysWithPrefix store name c
    (.keys r, c)
  | .transaction ops ending, c =>
    match ensureNoOpenTransaction c with
    | some (e, c) => (.refused e, c)
    | none =>
      match Connection.execBegin c with
      | (.error e, c) => (.refused e, c)
      | (.ok (), c) =>
        let (replies, c) := performAll store ops c
        let (ended, c) := finish ending c
        (.transaction replies ended, c)

/-- A sequence of uses. -/
def run : List StoreUse → Connection → List UseReply × Connection
  | [], c => ([], c)
  | x :: uses, c =>
    let (r, c) := answer store x c
    let (rs, c) := run uses c
    (r :: rs, c)

end EncryptedStore

end Arcium
