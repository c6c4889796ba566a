import Arcium.Storage.Encrypted
import Mathlib.Data.Finmap
import Mathlib.Data.Finset.Sort

/-!
# The encrypted store is a plain map

`PlainMap`: a finite map from strings to byte strings, with the same uses as `EncryptedStore`. It has
no rows, hashes or encryption, and a transaction works on a copy.

`Represents names t m`: the table `t` holds `m`. Every operation keeps it, and answers as the map does
(`run_refines`), as long as the names that occur have different hashes.
-/

namespace Arcium

/-- The order of `keys.sort()`. -/
def keyLe (a b : String) : Prop := asBytes a ≤ asBytes b

instance decidableKeyLe : DecidableRel keyLe := fun a b => inferInstanceAs (Decidable (asBytes a ≤ asBytes b))

instance transKeyLe : IsTrans String keyLe := ⟨fun _ _ _ => List.le_trans⟩

instance antisymmKeyLe : Std.Antisymm keyLe := ⟨fun _ _ h h' => asBytes_injective (List.le_antisymm h h')⟩

instance totalKeyLe : Std.Total keyLe := ⟨fun _ _ => List.le_total _ _⟩

/-- A finite map from strings to byte strings. -/
abbrev PlainMap := Finmap fun _ : String => Bytes

namespace PlainMap

/-- The stored keys of a namespace, each once, sorted. -/
def keysIn (name : String) (m : PlainMap) : List String :=
  (m.keys.filter fun key => KeyMaterial.namespaceOf key = name).sort keyLe

/-- The value of a key. -/
def get (key : String) (m : PlainMap) : Except StoreFailure Bytes :=
  match m.lookup key with
  | some value => .ok value
  | none => .error (.error .notFound)

def perform : StoreOp → PlainMap → StoreReply × PlainMap
  | .put key value _ _, m => (.done (.ok ()), m.insert key value)
  | .get key, m => (.value (get key m), m)
  | .delete key, m => (.done (.ok ()), m.erase key)

def performAll : List StoreOp → PlainMap → List StoreReply × PlainMap
  | [], m => ([], m)
  | op :: ops, m =>
    let (r, m) := perform op m
    let (rs, m) := performAll ops m
    (r :: rs, m)

/-- One use: a transaction works on a copy, which a `commit` keeps. -/
def answer : StoreUse → PlainMap → UseReply × PlainMap
  | .single op, m =>
    let (r, m) := perform op m
    (.single r, m)
  | .list name, m => (.keys (.ok (keysIn name m)), m)
  | .transaction ops ending, m =>
    let (replies, copy) := performAll ops m
    (.transaction replies (.ok ()), if ending = .commit then copy else m)

def run : List StoreUse → PlainMap → List UseReply × PlainMap
  | [], m => ([], m)
  | x :: uses, m =>
    let (r, m) := answer x m
    let (rs, m) := run uses m
    (r :: rs, m)

end PlainMap

/-! ## Names and ciphertexts -/

/-- The cipher decrypts what it encrypted, and encrypts every message. -/
def StorePlatform.AeadCorrect (P : StorePlatform) : Prop :=
  ∀ key nonce msg aad, ∃ ct, P.cipherEncrypt key nonce msg aad = some ct ∧
    P.cipherDecrypt key nonce ct aad = some msg

/-- The key of an operation. -/
def StoreOp.key : StoreOp → String
  | .put key _ _ _ | .get key | .delete key => key

/-- The names that an operation hashes. -/
def StoreOp.names (op : StoreOp) : List String := [KeyMaterial.namespaceOf op.key, op.key]

def StoreUse.names : StoreUse → List String
  | .single op => op.names
  | .list name => [name]
  | .transaction ops _ => ops.flatMap StoreOp.names

namespace KeyMaterial

variable {P : StorePlatform} (keys : KeyMaterial)

theorem opened_sealed (hP : P.AeadCorrect) (key : Bytes32) (nonce : Nonce) (msg aad : Bytes) :
    ∃ out, sealed P key nonce msg aad = some out ∧ opened P key out aad = some msg := by
  obtain ⟨ct, he, hd⟩ := hP key nonce msg aad
  have hnonce : (nonce.val ++ ct).take nonceSize = nonce.val := List.take_left' nonce.2
  have hct : (nonce.val ++ ct).drop nonceSize = ct := List.drop_left' nonce.2
  refine ⟨nonce.val ++ ct, by rw [sealed, he]; rfl, ?_⟩
  unfold opened
  simp only [hnonce, hct, nonce.2, dite_true]
  exact hd

theorem encrypt_ok (hP : P.AeadCorrect) (key : String) (value : Bytes) (nonce : Nonce) :
    ∃ ct, keys.encrypt P key value nonce = .ok ct ∧ keys.decrypt P key ct = .ok value := by
  obtain ⟨ct, hs, ho⟩ := opened_sealed hP (keys.subkey P key) nonce value (asBytes key)
  refine ⟨ct, ?_, ?_⟩
  · rw [encrypt, hs]
  · rw [decrypt, ho]

theorem encryptKeyName_ok (hP : P.AeadCorrect) (key : String) (nonce : Nonce) :
    ∃ ek, keys.encryptKeyName P key nonce = .ok ek ∧ keys.decryptKeyName P ek = .ok key := by
  obtain ⟨ek, hs, ho⟩ := opened_sealed hP (keys.keyNameEncryptionSubkey P) nonce (asBytes key) []
  refine ⟨ek, ?_, ?_⟩
  · rw [encryptKeyName, hs]
  · rw [decryptKeyName, ho, Option.bind_some, fromUtf8_asBytes]

variable {keys}

/-- The first half of a row's key. -/
theorem storageKey_take (key : String) :
    (keys.storageKey P key).take nameHashLen = (keys.keyNameHash P (namespaceOf key)).val :=
  List.take_left' (keys.keyNameHash P (namespaceOf key)).2

theorem keyNameHash_eq_of_storageKey {key key' : String}
    (h : keys.storageKey P key = keys.storageKey P key') :
    keys.keyNameHash P key = keys.keyNameHash P key' := by
  have hlen : ∀ k, (keys.keyNameHash P k).val.length = 32 := fun k => (keys.keyNameHash P k).2
  exact Subtype.ext (List.append_inj h (by rw [hlen, hlen])).2

end KeyMaterial

theorem mapM_ok {α β ε : Type} {f : α → Except ε β} {g : α → β} {l : List α}
    (h : ∀ a ∈ l, f a = .ok (g a)) : l.mapM f = .ok (l.map g) := by
  induction l with
  | nil => rfl
  | cons a l ih =>
    rw [List.mapM_cons, h a List.mem_cons_self, ih fun b hb => h b (List.mem_cons_of_mem _ hb)]
    rfl

/-! ## Tables -/

namespace Kv

variable {t : Kv} {k ek v : Bytes} {r r' : KvRow}

theorem eq_of_mem (h : r ∈ t.rows) (h' : r' ∈ t.rows) (hk : r.k = r'.k) : r = r' :=
  List.inj_on_of_nodup_map t.primary h h' hk

theorem select_of_mem (h : r ∈ t.rows) : t.select r.k = some r.v := by
  unfold select
  cases hf : t.rows.find? fun r' => r'.k = r.k with
  | none =>
    have := List.find?_eq_none.mp hf r h
    simp at this
  | some r' =>
    have hk : r'.k = r.k := by simpa using List.find?_some hf
    rw [eq_of_mem (List.mem_of_find?_eq_some hf) h hk]
    rfl

theorem select_eq_none (h : ∀ r ∈ t.rows, r.k ≠ k) : t.select k = none := by
  unfold select
  rw [List.find?_eq_none.mpr fun r hr => by simpa using h r hr]
  rfl

theorem mem_delete : r ∈ (t.delete k).rows ↔ r ∈ t.rows ∧ r.k ≠ k := by
  simp [delete]

/-- What an upsert leaves: the other rows, and one at `k`, with its old name if it had one. -/
theorem mem_upsert (h : r ∈ (t.upsert k ek v).rows) :
    (r ∈ t.rows ∧ r.k ≠ k) ∨ (r.k = k ∧ r.v = v ∧ (r.ek = ek ∨ ∃ old ∈ t.rows, old.k = k ∧ old.ek = r.ek)) := by
  simp only [upsert, upsertRows] at h
  split at h
  · obtain ⟨old, hold, rfl⟩ := List.mem_map.mp h
    by_cases hk : old.k = k
    · rw [if_pos hk]
      exact .inr ⟨hk, rfl, .inr ⟨old, hold, hk, rfl⟩⟩
    · rw [if_neg hk]
      exact .inl ⟨hold, hk⟩
  · next hnew =>
    rcases List.mem_append.mp h with h | h
    · exact .inl ⟨h, fun hk => hnew (hk ▸ List.mem_map_of_mem h)⟩
    · rw [List.mem_singleton.mp h]
      exact .inr ⟨rfl, rfl, .inl rfl⟩

theorem upsert_mem (t : Kv) (k ek v : Bytes) : ∃ r ∈ (t.upsert k ek v).rows, r.k = k := by
  simp only [upsert, upsertRows]
  split
  · next hold =>
    obtain ⟨old, hold, hk⟩ := List.mem_map.mp hold
    refine ⟨_, List.mem_map_of_mem hold, ?_⟩
    rw [if_pos hk]
    exact hk
  · exact ⟨_, List.mem_append_right _ (List.mem_singleton_self _), rfl⟩

theorem upsert_keeps (k ek v : Bytes) (h : r ∈ t.rows) : ∃ r' ∈ (t.upsert k ek v).rows, r'.k = r.k := by
  simp only [upsert, upsertRows]
  split
  · refine ⟨_, List.mem_map_of_mem h, ?_⟩
    split <;> rfl
  · exact ⟨r, List.mem_append_left _ h, rfl⟩

end Kv

/-! ## Refinement -/

/-- The table `t` holds the map `m`, whose keys are among `names` with their namespaces. -/
structure Represents (store : EncryptedStore) (names : Set String) (t : Kv) (m : PlainMap) : Prop where
  /-- Each row is the row of a key: it is in its place, and holds its name and its value. -/
  row : ∀ r ∈ t.rows, ∃ key value, m.lookup key = some value ∧
    r.k = store.keys.storageKey store.platform key ∧
    store.keys.decryptKeyName store.platform r.ek = .ok key ∧
    store.keys.decrypt store.platform key r.v = .ok value
  stored : ∀ key ∈ m, ∃ r ∈ t.rows, r.k = store.keys.storageKey store.platform key
  known : ∀ key ∈ m, key ∈ names ∧ KeyMaterial.namespaceOf key ∈ names

variable {store : EncryptedStore} {names : Set String} {t : Kv} {m : PlainMap} {c : Connection}

theorem represents_empty : Represents store names .empty ∅ where
  row _ h := absurd h List.not_mem_nil
  stored _ h := absurd h Finmap.notMem_empty
  known _ h := absurd h Finmap.notMem_empty

section

variable (hinj : Set.InjOn (store.keys.keyNameHash store.platform) names)
include hinj

theorem storageKey_injOn {key key' : String} (hk : key ∈ names) (hk' : key' ∈ names)
    (h : store.keys.storageKey store.platform key = store.keys.storageKey store.platform key') :
    key = key' :=
  hinj hk hk' (KeyMaterial.keyNameHash_eq_of_storageKey h)

/-- The row of a key that is in the map. -/
theorem Represents.row_of (h : Represents store names t m) {key : String} (hk : key ∈ names)
    {r : KvRow} (hr : r ∈ t.rows) (he : r.k = store.keys.storageKey store.platform key) :
    ∃ value, m.lookup key = some value ∧
      store.keys.decryptKeyName store.platform r.ek = .ok key ∧
      store.keys.decrypt store.platform key r.v = .ok value := by
  obtain ⟨key', value, hl, hk', hn, hv⟩ := h.row r hr
  have hmem : key' ∈ m := Finmap.mem_of_lookup_eq_some hl
  obtain rfl := storageKey_injOn hinj hk (h.known key' hmem).1 (he.symm.trans hk')
  exact ⟨value, hl, hn, hv⟩

theorem Represents.put (hP : store.platform.AeadCorrect) (h : Represents store names c.kv m)
    {key : String} (hk : key ∈ names) (hn : KeyMaterial.namespaceOf key ∈ names) (value : Bytes)
    (nonce nameNonce : Nonce) :
    ∃ t, putRow store.platform store.keys key value nonce nameNonce c = (.ok (), { c with kv := t }) ∧
      Represents store names t (m.insert key value) := by
  obtain ⟨ct, hct, hdec⟩ := KeyMaterial.encrypt_ok store.keys hP key value nonce
  obtain ⟨ek, hek, hname⟩ := KeyMaterial.encryptKeyName_ok store.keys hP key nameNonce
  refine ⟨_, by rw [putRow, hct, hek], ⟨fun r hr => ?_, fun key' hkey' => ?_, fun key' hkey' => ?_⟩⟩
  · rcases Kv.mem_upsert hr with ⟨hr, hne⟩ | ⟨hr, hv, hek'⟩
    · obtain ⟨key', value', hl, hk', hrest⟩ := h.row r hr
      have hne' : key' ≠ key := fun he => hne (he ▸ hk')
      exact ⟨key', value', by rw [Finmap.lookup_insert_of_ne _ hne', hl], hk', hrest⟩
    · refine ⟨key, value, Finmap.lookup_insert _, hr, ?_, by rw [hv, hdec]⟩
      -- The name of a row is not rewritten: it is the one of this key.
      rcases hek' with he | ⟨old, hold, hok, he⟩
      · rw [he, hname]
      · obtain ⟨-, -, hold', -⟩ := h.row_of hinj hk hold hok
        rw [← he, hold']
  · rcases Finmap.mem_insert.mp hkey' with rfl | hkey'
    · exact Kv.upsert_mem _ _ _ _
    · obtain ⟨r, hr, hrk⟩ := h.stored key' hkey'
      obtain ⟨r', hr', hk'⟩ := Kv.upsert_keeps (store.keys.storageKey store.platform key) ek ct hr
      exact ⟨r', hr', hk'.trans hrk⟩
  · rcases Finmap.mem_insert.mp hkey' with rfl | hkey'
    · exact ⟨hk, hn⟩
    · exact h.known key' hkey'

theorem Represents.get (h : Represents store names c.kv m) {key : String} (hk : key ∈ names) :
    getRow store.platform store.keys key c = (m.get key, c) := by
  unfold getRow PlainMap.get
  cases hl : m.lookup key with
  | some value =>
    obtain ⟨r, hr, hrk⟩ := h.stored key (Finmap.mem_of_lookup_eq_some hl)
    obtain ⟨value', hl', -, hv⟩ := h.row_of hinj hk hr hrk
    obtain rfl := Option.some.inj (hl.symm.trans hl')
    rw [← hrk, Kv.select_of_mem hr]
    exact congrArg (·, c) hv
  | none =>
    rw [Kv.select_eq_none fun r hr hrk => ?_]
    obtain ⟨value, hl', -⟩ := h.row_of hinj hk hr hrk
    rw [hl] at hl'
    cases hl'

theorem Represents.delete (h : Represents store names t m) {key : String} (hk : key ∈ names) :
    Represents store names (t.delete (store.keys.storageKey store.platform key)) (m.erase key) where
  row r hr := by
    obtain ⟨hr, hne⟩ := Kv.mem_delete.mp hr
    obtain ⟨key', value, hl, hk', hrest⟩ := h.row r hr
    have hne' : key' ≠ key := fun he => hne (he ▸ hk')
    exact ⟨key', value, by rw [Finmap.lookup_erase_ne hne', hl], hk', hrest⟩
  stored key' hkey' := by
    obtain ⟨hne, hkey'⟩ := Finmap.mem_erase.mp hkey'
    obtain ⟨r, hr, hrk⟩ := h.stored key' hkey'
    refine ⟨r, Kv.mem_delete.mpr ⟨hr, fun he => hne ?_⟩, hrk⟩
    exact storageKey_injOn hinj (h.known key' hkey').1 hk (hrk.symm.trans he)
  known key' hkey' := h.known key' (Finmap.mem_erase.mp hkey').2

/-- An operation on rows answers as the map does. -/
theorem rowOp_refines (hP : store.platform.AeadCorrect) (h : Represents store names c.kv m)
    {op : StoreOp} (hop : ∀ name ∈ op.names, name ∈ names) :
    ∃ t, store.rowOp op c = ((PlainMap.perform op m).1, { c with kv := t }) ∧
      Represents store names t (PlainMap.perform op m).2 := by
  have hn : KeyMaterial.namespaceOf op.key ∈ names := hop _ List.mem_cons_self
  have hk : op.key ∈ names := hop _ (List.mem_cons_of_mem _ (List.mem_singleton_self _))
  cases op with
  | put key value nonce nameNonce =>
    have hput := h.put hinj hP hk hn value nonce nameNonce
    simp only [StoreOp.key] at hput
    obtain ⟨t, hput, ht⟩ := hput
    exact ⟨t, by rw [EncryptedStore.rowOp, hput]; rfl, ht⟩
  | get key =>
    have hget : getRow store.platform store.keys key c = (m.get key, c) := h.get hinj hk
    exact ⟨c.kv, by rw [EncryptedStore.rowOp, hget]; rfl, h⟩
  | delete key => exact ⟨_, rfl, h.delete hinj hk⟩

/-- A row is in the namespace that its key is in. -/
theorem Represents.row_in (h : Represents store names t m) {name : String} (hname : name ∈ names)
    {key : String} (hkey : key ∈ m) {r : KvRow}
    (hr : r.k = store.keys.storageKey store.platform key) :
    r.k.take KeyMaterial.nameHashLen = (store.keys.keyNameHash store.platform name).val ↔
      KeyMaterial.namespaceOf key = name := by
  rw [hr, KeyMaterial.storageKey_take]
  constructor
  · intro heq
    exact hinj (h.known key hkey).2 hname (Subtype.ext heq)
  · rintro rfl
    rfl

/-- The names that a listing decrypts. -/
theorem Represents.listed (h : Represents store names t m) {name : String} (hname : name ∈ names) :
    ∃ l, (t.selectNames KeyMaterial.nameHashLen (store.keys.keyNameHash store.platform name).val).mapM
        (store.keys.decryptKeyName store.platform) = .ok l ∧
      l.Nodup ∧ ∀ key, key ∈ l ↔ key ∈ m ∧ KeyMaterial.namespaceOf key = name := by
  -- The key of each row.
  choose! nameOf value hl hk hn hv using h.row
  have hmem : ∀ r ∈ t.rows, nameOf r ∈ m := fun r hr => Finmap.mem_of_lookup_eq_some (hl r hr)
  have hrows : ∀ r, r ∈ (t.rows.filter fun r => r.k.take KeyMaterial.nameHashLen =
        (store.keys.keyNameHash store.platform name).val).mergeSort (fun a b => a.k ≤ b.k) ↔
      r ∈ t.rows ∧ KeyMaterial.namespaceOf (nameOf r) = name := by
    intro r
    rw [List.mem_mergeSort, List.mem_filter, decide_eq_true_eq]
    exact and_congr_right fun hr => h.row_in hinj hname (hmem r hr) (hk r hr)
  refine ⟨_, (List.mapM_map).trans (mapM_ok fun r hr => hn r ((hrows r).mp hr).1), ?_, fun key => ?_⟩
  · refine List.Nodup.map_on (fun r hr r' hr' heq => ?_) ?_
    · have hr := ((hrows r).mp hr).1
      have hr' := ((hrows r').mp hr').1
      refine Kv.eq_of_mem hr hr' ?_
      rw [hk r hr, hk r' hr', heq]
    · rw [(List.mergeSort_perm _ _).nodup_iff]
      exact (List.Nodup.of_map _ t.primary).filter _
  · rw [List.mem_map]
    constructor
    · rintro ⟨r, hr, rfl⟩
      obtain ⟨hr, hin⟩ := (hrows r).mp hr
      exact ⟨hmem r hr, hin⟩
    · rintro ⟨hkey, hin⟩
      obtain ⟨r, hr, hrk⟩ := h.stored key hkey
      have hsame : nameOf r = key :=
        storageKey_injOn hinj (h.known _ (hmem r hr)).1 (h.known key hkey).1 ((hk r hr).symm.trans hrk)
      exact ⟨r, (hrows r).mpr ⟨hr, hsame ▸ hin⟩, hsame⟩

/-- A listing answers as the map does. -/
theorem listKeys_refines (h : Represents store names c.kv m) (hc : c.begun = none) {name : String}
    (hname : name ∈ names) : store.listKeysWithPrefix name c = (.ok (m.keysIn name), c) := by
  obtain ⟨l, hl, hnodup, hmem⟩ := h.listed hinj hname
  have hsort : EncryptedStore.sortKeys l = m.keysIn name := by
    have hperm : (EncryptedStore.sortKeys l).Perm (m.keysIn name) := by
      refine (List.mergeSort_perm _ _).trans ?_
      refine (List.perm_ext_iff_of_nodup hnodup (Finset.sort_nodup _ _)).mpr fun key => ?_
      rw [Finset.mem_sort, Finset.mem_filter, Finmap.mem_keys, hmem]
    have hsorted : (EncryptedStore.sortKeys l).Pairwise keyLe := by
      have hp : (EncryptedStore.sortKeys l).Pairwise fun a b => decide (asBytes a ≤ asBytes b) = true :=
        List.pairwise_mergeSort (by simpa using fun a b c => List.le_trans)
          (by simpa using fun a b => List.le_total _ _) l
      exact hp.imp fun h => of_decide_eq_true h
    exact hperm.eq_of_pairwise (fun a b _ _ => antisymm) hsorted (Finset.pairwise_sort _ _)
  unfold EncryptedStore.listKeysWithPrefix EncryptedStore.ensureNoOpenTransaction
  rw [Connection.isAutocommit, hc]
  simp only [Option.isNone_none, if_true, hl, hsort]

/-- Operations in a transaction answer as on the copy. -/
theorem performAll_refines (hP : store.platform.AeadCorrect) {begun : Kv} (hc : c.begun = some begun)
    (h : Represents store names c.kv m) {ops : List StoreOp}
    (hops : ∀ op ∈ ops, ∀ name ∈ op.names, name ∈ names) :
    ∃ t, store.performAll ops c = ((PlainMap.performAll ops m).1, { c with kv := t }) ∧
      Represents store names t (PlainMap.performAll ops m).2 := by
  induction ops generalizing c m with
  | nil => exact ⟨c.kv, rfl, h⟩
  | cons op ops ih =>
    obtain ⟨t, hop, ht⟩ := rowOp_refines hinj hP h (hops op List.mem_cons_self)
    have hinside : store.performInside op c = ((PlainMap.perform op m).1, { c with kv := t }) := by
      rw [← hop]
      simp [EncryptedStore.performInside, EncryptedStore.ensureActive, Connection.isAutocommit, hc]
    obtain ⟨t', hrest, ht'⟩ := ih (c := { c with kv := t }) hc ht
      fun op hop => hops op (List.mem_cons_of_mem _ hop)
    refine ⟨t', ?_, ht'⟩
    simp only [EncryptedStore.performAll, hinside, hrest]
    rfl

/-- One use answers as the map does, and leaves no transaction open. -/
theorem answer_refines (hP : store.platform.AeadCorrect) (hc : c.begun = none)
    (h : Represents store names c.kv m) {x : StoreUse} (hx : ∀ name ∈ x.names, name ∈ names) :
    ∃ t, store.answer x c = ((PlainMap.answer x m).1, { kv := t }) ∧
      Represents store names t (PlainMap.answer x m).2 := by
  have hensure : EncryptedStore.ensureNoOpenTransaction c = none := by
    simp [EncryptedStore.ensureNoOpenTransaction, Connection.isAutocommit, hc]
  have hsame : c = { kv := c.kv } := by rw [← hc]
  cases x with
  | single op =>
    obtain ⟨t, hop, ht⟩ := rowOp_refines hinj hP h hx
    refine ⟨t, ?_, ht⟩
    simp only [EncryptedStore.answer, EncryptedStore.perform, hensure, hop, hc]
    rfl
  | list name =>
    refine ⟨c.kv, ?_, h⟩
    have hlist := listKeys_refines hinj h hc (hx name (List.mem_singleton_self _))
    simp only [EncryptedStore.answer, hlist]
    exact congrArg _ hsame
  | transaction ops ending =>
    have hops : ∀ op ∈ ops, ∀ name ∈ op.names, name ∈ names := fun op hop name hname =>
      hx name (List.mem_flatMap.mpr ⟨op, hop, hname⟩)
    have hbegin : Connection.execBegin c = (.ok (), { c with begun := some c.kv }) := by
      simp only [Connection.execBegin, hc]
    obtain ⟨t, hall, ht⟩ := performAll_refines hinj hP (c := { c with begun := some c.kv }) rfl h hops
    simp only [EncryptedStore.answer, hensure, hbegin, hall]
    -- A commit keeps the table, and both other ends put back the one of `BEGIN`.
    cases ending with
    | commit => exact ⟨t, rfl, ht⟩
    | rollback => exact ⟨c.kv, rfl, h⟩
    | drop => exact ⟨c.kv, rfl, h⟩

theorem run_refines (hP : store.platform.AeadCorrect) (hc : c.begun = none)
    (h : Represents store names c.kv m) {uses : List StoreUse}
    (huses : ∀ x ∈ uses, ∀ name ∈ x.names, name ∈ names) :
    (store.run uses c).1 = (PlainMap.run uses m).1 ∧ ∃ t, (store.run uses c).2 = { kv := t } ∧
      Represents store names t (PlainMap.run uses m).2 := by
  induction uses generalizing c m with
  | nil => exact ⟨rfl, c.kv, by rw [EncryptedStore.run, ← hc], h⟩
  | cons x uses ih =>
    obtain ⟨t, hx, ht⟩ := answer_refines hinj hP hc h (huses x List.mem_cons_self)
    obtain ⟨hreplies, hend⟩ := ih (c := { kv := t }) rfl ht
      fun x hx => huses x (List.mem_cons_of_mem _ hx)
    simp only [EncryptedStore.run, PlainMap.run, hx]
    exact ⟨by rw [hreplies], hend⟩

end

/-- Every sequence of uses of a new store is answered as by a plain map, and what the store then holds
is the map. -/
theorem store_is_map (store : EncryptedStore) (hP : store.platform.AeadCorrect) (uses : List StoreUse)
    (hinj : Set.InjOn (store.keys.keyNameHash store.platform)
      { name | name ∈ uses.flatMap StoreUse.names }) :
    (store.run uses ⟨.empty, none⟩).1 = (PlainMap.run uses ∅).1 :=
  (run_refines hinj hP rfl represents_empty fun x hx _ hname =>
    List.mem_flatMap.mpr ⟨x, hx, hname⟩).1

/-- A platform for short names: the hash pads the name, and the tag of a ciphertext is its key, nonce
and associated data. -/
def symbolicStore : EncryptedStore where
  platform :=
    { hkdf := fun _ _ info => ⟨(info ++ List.replicate 32 0).take 32, by simp⟩
      cipherEncrypt := fun key nonce msg aad => some (msg ++ (key.val ++ nonce.val ++ aad))
      cipherDecrypt := fun key nonce ct aad =>
        if (key.val ++ nonce.val ++ aad).isSuffixOf ct
        then some (ct.take (ct.length - (key.val ++ nonce.val ++ aad).length)) else none }
  keys := ⟨default⟩

theorem symbolicStore_aeadCorrect : symbolicStore.platform.AeadCorrect := by
  intro key nonce msg aad
  refine ⟨_, rfl, ?_⟩
  have hs : (key.val ++ nonce.val ++ aad).isSuffixOf (msg ++ (key.val ++ nonce.val ++ aad)) = true := by
    rw [List.isSuffixOf_iff_suffix]
    exact List.suffix_append _ _
  show (if _ then _ else _) = _
  rw [if_pos hs, List.length_append, Nat.add_sub_cancel, List.take_left]

/-- A key and a key that is its namespace, one of them deleted in a transaction that is rolled back. -/
def fewUses : List StoreUse :=
  [.single (.put "c:a" [1] zeroNonce zeroNonce),
    .transaction [.put "c:" [2] zeroNonce zeroNonce, .delete "c:a", .get "c:a", .get "c:"] .rollback,
    .single (.get "c:a"), .single (.get "c:"), .list "c:"]

theorem store_is_map_few : (symbolicStore.run fewUses ⟨.empty, none⟩).1 = (PlainMap.run fewUses ∅).1 ∧
    (symbolicStore.run fewUses ⟨.empty, none⟩).1 =
      [.single (.done (.ok ())),
        .transaction [.done (.ok ()), .done (.ok ()), .value (.error (.error .notFound)),
          .value (.ok [2])] (.ok ()),
        .single (.value (.ok [1])), .single (.value (.error (.error .notFound))),
        .keys (.ok ["c:a"])] := by
  refine ⟨store_is_map symbolicStore symbolicStore_aeadCorrect fewUses ?_, by decide +kernel⟩
  have hdistinct : ∀ a ∈ fewUses.flatMap StoreUse.names, ∀ b ∈ fewUses.flatMap StoreUse.names,
      symbolicStore.keys.keyNameHash symbolicStore.platform a =
        symbolicStore.keys.keyNameHash symbolicStore.platform b → a = b := by
    decide +kernel
  exact fun a ha b hb h => hdistinct a ha b hb h

end Arcium
