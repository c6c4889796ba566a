import Arcium.Base.LittleEndian
import Arcium.Psi.Intersect

/-!
# A query from the client to its result

The client (`arcium-psi/tests/src/client.ts`), the instruction that carries its query
(`arcium-psi/tests/src/program.ts`), and the program that checks it and queues the computation
(`arcium-psi/programs/arcium-psi/src/lib.rs`). The cipher, the key agreement and the evaluation of a
circuit on encrypted arguments are the framework's (`Framework`); what the code relies on is
`Framework.Lawful`.

* `encryptContacts`, `decryptResult`: the client.
* `serializeSharedEncrypted`, `buildSubmitPsiQueryIx`: the bytes of the instruction.
* `submitPsiQuery`: its arguments, checked and put in the order of the circuit.
* `psi_end_to_end`: the client reads, for each of its contacts, whether it is among the server's, or
  it reads that a count is out of range.
-/

namespace Arcium

namespace Psi

/-- `CIPHERTEXTS`. -/
def ciphertextsLen : Nat := batchSize + 1

/-! ## The bytes -/

/-- Blocks, one after the other. -/
def joinBlocks (blocks : List Bytes32) : Bytes := blocks.flatMap Codec.bytes32.enc

/-- Bytes cut into blocks. -/
def splitBlocks (bytes : Bytes) : List Bytes32 := (chunks 32 bytes).map Codec.bytes32.dec

theorem splitBlocks_length (bytes : Bytes) : (splitBlocks bytes).length = bytes.length / 32 := by
  rw [splitBlocks, List.length_map, chunks_length]

theorem joinBlocks_length (blocks : List Bytes32) : (joinBlocks blocks).length = 32 * blocks.length :=
  Codec.bytes32.flatMap_length blocks

theorem splitBlocks_joinBlocks (blocks : List Bytes32) :
    splitBlocks (joinBlocks blocks) = blocks := by
  have h : chunks 32 (joinBlocks blocks) = blocks.map Codec.bytes32.enc :=
    Codec.bytes32.chunks_flatMap (by decide) blocks
  rw [splitBlocks, h, List.map_map]
  exact (List.map_congr_left fun x _ => Codec.bytes32.dec_enc x).trans (List.map_id _)

/-- `SharedEncryptedStruct<11>`. -/
structure SharedEncrypted where
  encryptionKey : Bytes32
  /-- A `u128`. -/
  nonce : Fin (256 ^ 16)
  ciphertexts : { l : List Bytes32 // l.length = ciphertextsLen }

/-- `serializeSharedEncrypted`. -/
def serializeSharedEncrypted (encryptionKey nonce ciphertexts : Bytes) : Except String Bytes :=
  if encryptionKey.length ≠ 32 then .error "encryptionKey must be 32 bytes"
  else if nonce.length ≠ 16 then .error "nonce must be 16 bytes"
  else if ciphertexts.length ≠ ciphertextsLen * 32 then
    .error s!"ciphertexts must be {ciphertextsLen * 32} bytes"
  else .ok (encryptionKey ++ (nonce ++ ciphertexts))

/-- What Borsh reads of a `SharedEncryptedStruct<11>`, and what is left. -/
def readSharedEncrypted (bytes : Bytes) : Option (SharedEncrypted × Bytes) :=
  if h : 48 + ciphertextsLen * 32 ≤ bytes.length then
    some ({ encryptionKey := Codec.bytes32.read bytes 0
            nonce := (Codec.littleEndian 16).read bytes 32
            ciphertexts := ⟨splitBlocks (slice bytes 48 (ciphertextsLen * 32)), by
              rw [splitBlocks_length, slice_length h, Nat.mul_div_cancel _ (by decide)]⟩ },
      bytes.drop (48 + ciphertextsLen * 32))
  else none

/-- The data of `buildSubmitPsiQueryIx`, where `disc` is `DISC_SUBMIT_PSI_QUERY`. -/
def buildSubmitPsiQueryIx (disc : { b : Bytes // b.length = 8 })
    (clientEncKey clientNonce clientCiphertexts serverEncKey serverNonce serverCiphertexts : Bytes)
    (computationOffset : UInt64) : Except String Bytes := do
  let client ← serializeSharedEncrypted clientEncKey clientNonce clientCiphertexts
  let server ← serializeSharedEncrypted serverEncKey serverNonce serverCiphertexts
  return disc.val ++ (client ++ (server ++ leBytes 8 computationOffset.toNat))

/-! ## The program -/

/-- The errors of `PsiError` that a computation can meet. -/
inductive QueryError where
  | uninitializedEncryptionKey
  deriving DecidableEq

/-- An argument of a computation (`ArgBuilder`). -/
inductive Arg where
  | x25519Pubkey (key : Bytes32)
  | plaintextU128 (n : Fin (256 ^ 16))
  | encryptedU64 (ciphertext : Bytes32)

/-- The arguments of one `Enc<Shared, T>`. -/
def SharedEncrypted.args (x : SharedEncrypted) : List Arg :=
  .x25519Pubkey x.encryptionKey :: .plaintextU128 x.nonce :: x.ciphertexts.val.map .encryptedU64

theorem repeatKey_length (n : UInt8) : (List.replicate 32 n).length = 32 := List.length_replicate

/-- A key of one byte, repeated. -/
def repeatKey (n : UInt8) : Bytes32 := ⟨List.replicate 32 n, repeatKey_length n⟩

/-- A key that is all zeros. -/
def zeroKey : Bytes32 := repeatKey 0

/-- `submit_psi_query`: the arguments of the computation that it queues. -/
def submitPsiQuery (clientData serverData : SharedEncrypted) : Except QueryError (List Arg) :=
  if clientData.encryptionKey = zeroKey then .error .uninitializedEncryptionKey
  else if serverData.encryptionKey = zeroKey then .error .uninitializedEncryptionKey
  else .ok (clientData.args ++ serverData.args)

/-- The arguments of the instruction, read from the data after its discriminator. -/
def readSubmitPsiQuery (data : Bytes) : Option (SharedEncrypted × SharedEncrypted × UInt64) := do
  let (clientData, rest) ← readSharedEncrypted (data.drop 8)
  let (serverData, rest) ← readSharedEncrypted rest
  if rest.length < 8 then none
  return (clientData, serverData, UInt64.ofNat (ofLe (rest.take 8)))

/-! ## The framework -/

/-- `PsiResult`. -/
structure PsiResult where
  nonce : Bytes
  ciphertexts : Bytes
  deriving DecidableEq

/-- The framework. -/
structure Framework (F : Type) where
  publicKey : Bytes32 → Bytes32
  sharedSecret : (privateKey publicKey : Bytes32) → Bytes32
  /-- `RescueCipher(secret).encrypt(values, nonce)`. -/
  encrypt : (secret : Bytes32) → (nonce : Bytes) → List Int → List Bytes32
  /-- `RescueCipher(secret).decrypt(chunks, nonce)`. -/
  decrypt : (secret : Bytes32) → (nonce : Bytes) → List Bytes32 → List Int
  /-- The field element that a circuit reads of a decrypted value. -/
  field : Int → F
  /-- The `u64` that a circuit reads of a decrypted value. -/
  u64 : Int → UInt64
  /-- The evaluation of a circuit by nodes that hold a key, on the arguments of a computation. -/
  eval : (mxe : Bytes32) → (ClientContacts F → ServerContacts F → MatchResult) → List Arg → PsiResult

section Framework

variable {F : Type} (W : Framework F)

/-- `BaseField25519::from_usize`. -/
def Framework.fromUsize (n : Nat) : F := W.field n

/-- `to_arcis` of an `Enc<Shared, ClientContacts>`. -/
def Framework.toArcis (mxe : Bytes32) (x : SharedEncrypted) : ClientContacts F :=
  let values := W.decrypt (W.sharedSecret mxe x.encryptionKey) (leBytes 16 x.nonce) x.ciphertexts.val
  { hashes := .ofFn fun i => W.u64 (values.getD i 0)
    count := W.field (values.getD batchSize 0) }

/-- A flag as it is encrypted. -/
def flag (b : Bool) : Int := if b then 1 else 0

/-- `owner.from_arcis` of a `MatchResult`: it is encrypted with the next nonce of the owner. -/
def Framework.fromArcis (mxe : Bytes32) (owner : SharedEncrypted) (r : MatchResult) : PsiResult :=
  let nonce := leBytes 16 ((owner.nonce.val + 1) % 2 ^ 128)
  { nonce
    ciphertexts := joinBlocks
      (W.encrypt (W.sharedSecret mxe owner.encryptionKey) nonce
        (r.matched.toList.map flag ++ [flag r.valid])) }

/-- What the code relies on: both sides agree on a secret; what was encrypted is decrypted, block by
block; a circuit reads values as they are; and it is evaluated on what its arguments encrypt, the
result encrypted for the owner of the first. -/
structure Framework.Lawful : Prop where
  agree : ∀ a b, W.sharedSecret a (W.publicKey b) = W.sharedSecret b (W.publicKey a)
  decrypts : ∀ secret nonce (l : List Int), nonce.length = 16 →
    (∀ v ∈ l, 0 ≤ v ∧ v < (fieldOrder : Int)) →
    W.decrypt secret nonce (W.encrypt secret nonce l) = l
  blocks : ∀ secret nonce (l : List Int), nonce.length = 16 →
    (W.encrypt secret nonce l).length = l.length
  field : FieldImages W.fromUsize
  u64 : ∀ n : UInt64, W.u64 n.toNat = n
  eval : ∀ mxe circuit clientData serverData,
    W.eval mxe circuit (clientData.args ++ serverData.args) =
      W.fromArcis mxe clientData (circuit (W.toArcis mxe clientData) (W.toArcis mxe serverData))

/-- What comes of the data of an instruction: the program refuses it, or the nodes answer. -/
def answerQuery [DecidableEq F] (mxe : Bytes32) (data : Bytes) :
    Option (Except QueryError PsiResult) := do
  let (clientData, serverData, _) ← readSubmitPsiQuery data
  return (submitPsiQuery clientData serverData).map (W.eval mxe (psiIntersect W.fromUsize))

end Framework

/-! ## The client -/

/-- The values of `contactInputPlaintext`: the hashes, the padding and the count. -/
def contactInput (phoneHashes : List Int) : List Int :=
  phoneHashes ++ List.replicate (batchSize - phoneHashes.length) 0 ++ [(phoneHashes.length : Int)]

/-- `contactInputPlaintext`. -/
def contactInputPlaintext (phoneHashes : List Int) : Except String (List Int) :=
  if batchSize < phoneHashes.length then
    .error s!"at most {batchSize} contacts per query, got {phoneHashes.length}"
  else
    match phoneHashes.find? fun hash => hash < 0 ∨ 2 ^ 64 ≤ hash with
    | some hash => .error s!"contact hash is not a u64: {hash}"
    | none => .ok (contactInput phoneHashes)

/-- `PsiRequest`. -/
structure PsiRequest where
  count : Nat
  nonce : Bytes
  ciphertexts : Bytes
  deriving DecidableEq

/-- `resultNonceFor`. -/
def resultNonceFor (request : PsiRequest) : Except String Bytes :=
  if request.nonce.length ≠ 16 then .error "request nonce must be 16 bytes"
  else .ok (leBytes 16 ((ofLe request.nonce + 1) % 2 ^ 128))

/-- `decryptResult`, from the decrypted values on. -/
def readResult (values : List Int) (count : Nat) : Except String (List Bool) :=
  if ¬ values.all fun v => v = 0 ∨ v = 1 then .error "result holds a value other than 0 or 1"
  else if values[batchSize]? ≠ some 1 then
    .error "the circuit rejected a count: the result is invalid"
  else if ((values.take batchSize).drop count).any (· ≠ 0) then
    .error "a padding slot is set in the result"
  else .ok ((values.take count).map fun v => decide (v = 1))

section Client

variable {F : Type} (W : Framework F)

/-- `encryptContacts`. -/
def encryptContacts (phoneHashes : List Int) (sharedSecret : Bytes32) (nonce : Bytes) :
    Except String PsiRequest := do
  let values ← contactInputPlaintext phoneHashes
  return { count := phoneHashes.length, nonce
           ciphertexts := joinBlocks (W.encrypt sharedSecret nonce values) }

/-- `decryptResult`. -/
def decryptResult (result : PsiResult) (sharedSecret : Bytes32) (request : PsiRequest) :
    Except String (List Bool) := do
  if batchSize < request.count then throw s!"request count out of range: {request.count}"
  if result.ciphertexts.length ≠ ciphertextsLen * 32 then
    throw s!"result must be {ciphertextsLen * 32} bytes, got {result.ciphertexts.length}"
  let expectedNonce ← resultNonceFor request
  if result.nonce ≠ expectedNonce then throw "result nonce does not follow the request nonce"
  readResult (W.decrypt sharedSecret result.nonce (splitBlocks result.ciphertexts)) request.count

end Client

/-! ## The instruction carries what was given to it -/

/-- The 400 bytes of a `SharedEncryptedStruct<11>`. -/
def SharedEncrypted.bytes (x : SharedEncrypted) : Bytes :=
  Codec.bytes32.enc x.encryptionKey ++
    ((Codec.littleEndian 16).enc x.nonce ++ joinBlocks x.ciphertexts.val)

theorem serializeSharedEncrypted_eq (x : SharedEncrypted) :
    serializeSharedEncrypted x.encryptionKey.val (leBytes 16 x.nonce) (joinBlocks x.ciphertexts.val) =
      .ok x.bytes := by
  have hkey : x.encryptionKey.val.length = 32 := x.encryptionKey.property
  have hnonce : (leBytes 16 x.nonce).length = 16 := leBytes_length 16 _
  have hblocks : (joinBlocks x.ciphertexts.val).length = ciphertextsLen * 32 := by
    rw [joinBlocks_length, x.ciphertexts.property, Nat.mul_comm]
  rw [serializeSharedEncrypted, if_neg (not_not.mpr hkey), if_neg (not_not.mpr hnonce),
    if_neg (not_not.mpr hblocks)]
  rfl

theorem SharedEncrypted.bytes_length (x : SharedEncrypted) :
    x.bytes.length = 48 + ciphertextsLen * 32 := by
  rw [SharedEncrypted.bytes, List.length_append, List.length_append, Codec.enc_length,
    Codec.enc_length, joinBlocks_length, x.ciphertexts.property]
  rfl

theorem readSharedEncrypted_bytes (x : SharedEncrypted) (rest : Bytes) :
    readSharedEncrypted (x.bytes ++ rest) = some (x, rest) := by
  have hlen : 48 + ciphertextsLen * 32 ≤ (x.bytes ++ rest).length := by
    rw [List.length_append, x.bytes_length]
    exact Nat.le_add_right _ _
  have hdrop : (x.bytes ++ rest).drop (48 + ciphertextsLen * 32) = rest :=
    List.drop_left' x.bytes_length
  have hblocks : (joinBlocks x.ciphertexts.val).length = ciphertextsLen * 32 := by
    rw [joinBlocks_length, x.ciphertexts.property, Nat.mul_comm]
  rw [readSharedEncrypted, dif_pos hlen, hdrop]
  simp only [SharedEncrypted.bytes, List.append_assoc]
  have hkey := Codec.bytes32.read_here x.encryptionKey
    ((Codec.littleEndian 16).enc x.nonce ++ (joinBlocks x.ciphertexts.val ++ rest))
  have hnonce := (Codec.littleEndian 16).read_append (Codec.bytes32.enc_length x.encryptionKey)
    x.nonce (joinBlocks x.ciphertexts.val ++ rest)
  have hslice : slice (Codec.bytes32.enc x.encryptionKey ++ ((Codec.littleEndian 16).enc x.nonce ++
      (joinBlocks x.ciphertexts.val ++ rest))) 48 (ciphertextsLen * 32) =
      joinBlocks x.ciphertexts.val := by
    rw [Codec.slice_past _ _ _ (by decide), Codec.slice_past _ _ _ (by decide)]
    exact List.take_left' hblocks
  simp only [Codec.bytes32_width] at hnonce
  simp only [hkey, hnonce, hslice, splitBlocks_joinBlocks]

/-- **What the program reads of the instruction is what the client put in it.** -/
theorem readSubmitPsiQuery_build (disc : { b : Bytes // b.length = 8 })
    (clientData serverData : SharedEncrypted) (offset : UInt64) :
    ∃ data, buildSubmitPsiQueryIx disc clientData.encryptionKey.val (leBytes 16 clientData.nonce)
        (joinBlocks clientData.ciphertexts.val) serverData.encryptionKey.val
        (leBytes 16 serverData.nonce) (joinBlocks serverData.ciphertexts.val) offset = .ok data ∧
      readSubmitPsiQuery data = some (clientData, serverData, offset) := by
  refine ⟨disc.val ++ (clientData.bytes ++ (serverData.bytes ++ leBytes 8 offset.toNat)), ?_, ?_⟩
  · rw [buildSubmitPsiQueryIx, serializeSharedEncrypted_eq, serializeSharedEncrypted_eq]
    rfl
  · have hlen : (leBytes 8 offset.toNat).length = 8 := leBytes_length 8 _
    have hlt : offset.toNat < 256 ^ 8 := offset.toNat_lt
    have hoffset : UInt64.ofNat (ofLe (leBytes 8 offset.toNat)) = offset := by
      rw [ofLe_leBytes, Nat.mod_eq_of_lt hlt, UInt64.ofNat_toNat]
    rw [readSubmitPsiQuery, List.drop_left' disc.property, readSharedEncrypted_bytes]
    simp only [Option.bind_eq_bind, Option.bind_some, readSharedEncrypted_bytes, hlen]
    rw [List.take_of_length_le (Nat.le_of_eq hlen), hoffset]
    rfl

/-! ## What the client encrypts -/

theorem contactInputPlaintext_ok {phoneHashes values : List Int} :
    contactInputPlaintext phoneHashes = .ok values ↔
      phoneHashes.length ≤ batchSize ∧ (∀ h ∈ phoneHashes, 0 ≤ h ∧ h < 2 ^ 64) ∧
      values = contactInput phoneHashes := by
  rw [contactInputPlaintext]
  split
  · next h =>
    refine ⟨fun h' => ?_, fun h' => absurd h'.1 (Nat.not_le_of_lt h)⟩
    cases h'
  · next hlen =>
    have hle := Nat.le_of_not_lt hlen
    split
    · next hash hfind =>
      refine ⟨fun h => ?_, fun h => ?_⟩
      · cases h
      obtain ⟨h0, h1⟩ := h.2.1 hash (List.mem_of_find?_eq_some hfind)
      have hbad := List.find?_some hfind
      simp only [decide_eq_true_eq] at hbad
      omega
    · next hfind =>
      have hall : ∀ h ∈ phoneHashes, 0 ≤ h ∧ h < 2 ^ 64 := by
        intro h hmem
        have hgood := List.find?_eq_none.mp hfind h hmem
        simp only [decide_eq_true_eq] at hgood
        omega
      rw [Except.ok.injEq, and_iff_right hle, and_iff_right hall, eq_comm]

theorem contactInput_length {phoneHashes : List Int} (h : phoneHashes.length ≤ batchSize) :
    (contactInput phoneHashes).length = ciphertextsLen := by
  rw [contactInput, List.length_append, List.length_append, List.length_replicate,
    List.length_singleton, Nat.add_sub_cancel' h]
  rfl

theorem contactInput_lt {phoneHashes : List Int} (hlen : phoneHashes.length ≤ batchSize)
    (h : ∀ v ∈ phoneHashes, 0 ≤ v ∧ v < 2 ^ 64) :
    ∀ v ∈ contactInput phoneHashes, 0 ≤ v ∧ v < (fieldOrder : Int) := by
  have horder : (2 : Int) ^ 64 ≤ (fieldOrder : Int) := by decide
  have hbatch : batchSize = 10 := rfl
  intro v hv
  rw [contactInput, List.mem_append, List.mem_append, List.mem_singleton] at hv
  obtain (hv | hv) | rfl := hv
  · have := h v hv
    omega
  · have := List.eq_of_mem_replicate hv
    omega
  · omega

section Contacts

variable {F : Type} {W : Framework F}

theorem encryptContacts_ok {phoneHashes : List Int} {secret : Bytes32} {nonce : Bytes}
    {request : PsiRequest} :
    encryptContacts W phoneHashes secret nonce = .ok request ↔
      (phoneHashes.length ≤ batchSize ∧ ∀ v ∈ phoneHashes, 0 ≤ v ∧ v < 2 ^ 64) ∧
      request =
        { count := phoneHashes.length, nonce
          ciphertexts := joinBlocks (W.encrypt secret nonce (contactInput phoneHashes)) } := by
  constructor
  · intro h
    cases hvalues : contactInputPlaintext phoneHashes with
    | error e => rw [encryptContacts, hvalues] at h; cases h
    | ok values =>
      rw [encryptContacts, hvalues] at h
      obtain ⟨hlen, hall, rfl⟩ := contactInputPlaintext_ok.mp hvalues
      exact ⟨⟨hlen, hall⟩, (Except.ok.inj h).symm⟩
  · rintro ⟨⟨hlen, hall⟩, rfl⟩
    rw [encryptContacts, contactInputPlaintext_ok.mpr ⟨hlen, hall, rfl⟩]
    rfl

/-- The entries that the circuit reads of what a client with these contacts sent. -/
structure Holds (W : Framework F) (x : ClientContacts F) (phoneHashes : List Int) : Prop where
  counts : Counts W.fromUsize x.count phoneHashes.length
  hashes : ∀ i : Fin batchSize, ∀ v, phoneHashes[(i : Nat)]? = some v →
    ((x.hashes.get i).toNat : Int) = v

/-- **The circuit reads the contacts of the client.** -/
theorem toArcis_encryptContacts (hW : W.Lawful) {a mxe : Bytes32} {x : SharedEncrypted}
    {phoneHashes : List Int} (hlen : phoneHashes.length ≤ batchSize)
    (hall : ∀ v ∈ phoneHashes, 0 ≤ v ∧ v < 2 ^ 64) (hkey : x.encryptionKey = W.publicKey a)
    (hx : x.ciphertexts.val = W.encrypt (W.sharedSecret a (W.publicKey mxe)) (leBytes 16 x.nonce)
      (contactInput phoneHashes)) :
    Holds W (W.toArcis mxe x) phoneHashes := by
  have hvalues : W.decrypt (W.sharedSecret mxe x.encryptionKey) (leBytes 16 x.nonce)
      x.ciphertexts.val = contactInput phoneHashes := by
    rw [hkey, hx, ← hW.agree a mxe]
    exact hW.decrypts _ _ _ (leBytes_length 16 _) (contactInput_lt hlen hall)
  have hfront : (phoneHashes ++ List.replicate (batchSize - phoneHashes.length) 0).length =
      batchSize := by
    rw [List.length_append, List.length_replicate, Nat.add_sub_cancel' hlen]
  refine ⟨⟨hlen, ?_⟩, fun i v hv => ?_⟩
  · have hlast : (contactInput phoneHashes)[batchSize]? = some (phoneHashes.length : Int) := by
      rw [contactInput, List.getElem?_append_right (Nat.le_of_eq hfront), hfront, Nat.sub_self]
      rfl
    simp only [Framework.toArcis, hvalues, List.getD_eq_getElem?_getD, hlast, Option.getD_some,
      Framework.fromUsize]
  · obtain ⟨hi, hvi⟩ := List.getElem?_eq_some_iff.mp hv
    have hget : (contactInput phoneHashes)[(i : Nat)]? = some v := by
      rw [contactInput, List.append_assoc, List.getElem?_append_left hi, hv]
    obtain ⟨h0, h1⟩ := hall v (hvi ▸ List.getElem_mem hi)
    obtain ⟨n, rfl⟩ := Int.eq_ofNat_of_zero_le h0
    have hn : (UInt64.ofNat n).toNat = n := UInt64.toNat_ofNat_of_lt' (by exact_mod_cast h1)
    have hu : W.u64 n = UInt64.ofNat n := by
      rw [← hn, hW.u64, hn]
    show ((W.toArcis mxe x).hashes[i].toNat : Int) = n
    simp only [Framework.toArcis, hvalues, Fin.getElem_fin, Vector.getElem_ofFn,
      List.getD_eq_getElem?_getD, hget, Option.getD_some, hu, hn]

end Contacts

/-! ## What the client reads -/

theorem flag_eq_one (b : Bool) : decide (flag b = 1) = b := by
  cases b <;> rfl

theorem flag_bounds (b : Bool) : flag b = 0 ∨ flag b = 1 := by
  cases b
  · exact .inl rfl
  · exact .inr rfl

/-- The flags of a result are read, if it is valid and nothing is set in the padding. -/
theorem readResult_flags (r : MatchResult) {count : Nat} (hcount : count ≤ batchSize)
    (hpad : ∀ i : Fin batchSize, count ≤ i → r.matched[i] = false) :
    readResult (r.matched.toList.map flag ++ [flag r.valid]) count =
      if r.valid then .ok (r.matched.toList.take count)
      else .error "the circuit rejected a count: the result is invalid" := by
  have hlen : (r.matched.toList.map flag).length = batchSize := by
    rw [List.length_map, Vector.length_toList]
  have hall : (r.matched.toList.map flag ++ [flag r.valid]).all (fun v => v = 0 ∨ v = 1) = true := by
    rw [List.all_eq_true]
    intro v hv
    rw [List.mem_append, List.mem_map, List.mem_singleton] at hv
    obtain ⟨b, -, rfl⟩ | rfl := hv
    · exact decide_eq_true (flag_bounds b)
    · exact decide_eq_true (flag_bounds r.valid)
  have hlast : (r.matched.toList.map flag ++ [flag r.valid])[batchSize]? = some (flag r.valid) := by
    rw [List.getElem?_append_right (Nat.le_of_eq hlen), hlen, Nat.sub_self]
    rfl
  have htake : (r.matched.toList.map flag ++ [flag r.valid]).take batchSize =
      r.matched.toList.map flag := List.take_left' hlen
  have hdrop : ((r.matched.toList.map flag).drop count).any (· ≠ 0) = false := by
    rw [List.any_eq_false]
    intro v hv
    obtain ⟨i, hi, rfl⟩ := List.getElem_of_mem hv
    have hi' : count + i < batchSize := by
      rw [List.length_drop, hlen] at hi
      omega
    have hfalse := hpad ⟨count + i, hi'⟩ (Nat.le_add_right _ _)
    simp only [Fin.getElem_fin] at hfalse
    simp [hfalse, flag]
  have hread : ((r.matched.toList.map flag ++ [flag r.valid]).take count).map
      (fun v => decide (v = 1)) = r.matched.toList.take count := by
    rw [List.take_append_of_le_length (by rw [hlen]; exact hcount), ← List.map_take, List.map_map]
    exact (List.map_congr_left fun b _ => flag_eq_one b).trans (List.map_id _)
  rw [readResult, if_neg (not_not.mpr hall), hlast, htake, hdrop, hread, if_neg Bool.false_ne_true]
  cases r.valid with
  | false => rw [if_pos (by decide)]; rfl
  | true => rw [if_neg (by decide)]; rfl

/-! ## A framework -/

/-- A cipher in counter mode, with a sum for its keystream. -/
def keystream (secret : Bytes32) (nonce : Bytes) (i : Nat) : Int := ofLe secret.val + ofLe nonce + i

/-- Keys that are their own public keys, and this cipher. -/
def sumCipher : Framework (ZMod fieldOrder) where
  publicKey k := k
  sharedSecret a b := Codec.bytes32.dec (leBytes 32 (ofLe a.val + ofLe b.val))
  encrypt secret nonce l := l.mapIdx fun i v =>
    Codec.bytes32.dec (leBytes 32 ((v + keystream secret nonce i) % fieldOrder).toNat)
  decrypt secret nonce l := l.mapIdx fun i b =>
    ((ofLe b.val : Int) - keystream secret nonce i) % fieldOrder
  field v := v
  u64 v := UInt64.ofNat v.toNat
  eval _ _ _ := ⟨[], []⟩

/-- The ciphertext in an argument. -/
def Arg.ciphertext? : Arg → Option Bytes32
  | .encryptedU64 ciphertext => some ciphertext
  | _ => none

/-- The first `Enc<Shared, T>` of the arguments, and what is left. -/
def takeShared : List Arg → Option (SharedEncrypted × List Arg)
  | .x25519Pubkey key :: .plaintextU128 nonce :: args =>
    let ciphertexts := (args.take ciphertextsLen).filterMap Arg.ciphertext?
    if h : ciphertexts.length = ciphertextsLen then
      some ({ encryptionKey := key, nonce, ciphertexts := ⟨ciphertexts, h⟩ },
        args.drop ciphertextsLen)
    else none
  | _ => none

theorem takeShared_args (x : SharedEncrypted) (args : List Arg) :
    takeShared (x.args ++ args) = some (x, args) := by
  have hlen : (x.ciphertexts.val.map Arg.encryptedU64).length = ciphertextsLen := by
    rw [List.length_map, x.ciphertexts.property]
  have hcts : ((x.ciphertexts.val.map Arg.encryptedU64 ++ args).take ciphertextsLen).filterMap
      Arg.ciphertext? = x.ciphertexts.val := by
    rw [List.take_left' hlen, List.filterMap_map]
    exact List.filterMap_some
  have hdrop : (x.ciphertexts.val.map Arg.encryptedU64 ++ args).drop ciphertextsLen = args :=
    List.drop_left' hlen
  simp only [SharedEncrypted.args, List.cons_append, takeShared, hcts, hdrop, x.ciphertexts.property,
    dite_true]

/-- What the two `Enc<Shared, T>` of the arguments give. -/
def withShared (args : List Arg) (f : SharedEncrypted → SharedEncrypted → PsiResult) : PsiResult :=
  ((takeShared args).bind fun c => (takeShared c.2).map fun s => f c.1 s.1).getD ⟨[], []⟩

theorem withShared_args (x y : SharedEncrypted) (f : SharedEncrypted → SharedEncrypted → PsiResult) :
    withShared (x.args ++ y.args) f = f x y := by
  have hy := takeShared_args y []
  rw [List.append_nil] at hy
  rw [withShared, takeShared_args, Option.bind_some, hy]
  rfl

/-- `sumCipher`, with the nodes' part. -/
def sumFramework : Framework (ZMod fieldOrder) :=
  { sumCipher with
    eval := fun mxe circuit args => withShared args fun clientData serverData =>
      sumCipher.fromArcis mxe clientData
        (circuit (sumCipher.toArcis mxe clientData) (sumCipher.toArcis mxe serverData)) }

theorem sumFramework_lawful : sumFramework.Lawful where
  agree a b := by
    show Codec.bytes32.dec (leBytes 32 (ofLe a.val + ofLe b.val)) =
      Codec.bytes32.dec (leBytes 32 (ofLe b.val + ofLe a.val))
    rw [Nat.add_comm]
  decrypts secret nonce l _ hl := by
    show ((l.mapIdx fun i v => Codec.bytes32.dec (leBytes 32
      ((v + keystream secret nonce i) % fieldOrder).toNat)).mapIdx fun i b =>
        ((ofLe b.val : Int) - keystream secret nonce i) % fieldOrder) = l
    apply List.ext_getElem
    · rw [List.length_mapIdx, List.length_mapIdx]
    · intro i _ hi
      obtain ⟨h0, h1⟩ := hl _ (List.getElem_mem hi)
      have hpos : (0 : Int) < fieldOrder := by decide
      have horder : (fieldOrder : Int) < ((256 ^ 32 : Nat) : Int) := by decide
      have hn0 := Int.emod_nonneg (l[i] + keystream secret nonce i) (Int.ne_of_gt hpos)
      have hn1 := Int.emod_lt_of_pos (l[i] + keystream secret nonce i) hpos
      have hblock : (Codec.bytes32.dec (leBytes 32
          ((l[i] + keystream secret nonce i) % fieldOrder).toNat)).val =
          leBytes 32 ((l[i] + keystream secret nonce i) % fieldOrder).toNat :=
        Codec.bytes32.enc_dec _ (leBytes_length 32 _)
      rw [List.getElem_mapIdx, List.getElem_mapIdx, hblock, ofLe_leBytes, Nat.mod_eq_of_lt (by omega),
        Int.toNat_of_nonneg hn0, Int.emod_sub_emod, Int.add_sub_cancel]
      exact Int.emod_eq_of_lt h0 h1
  blocks secret nonce l _ := List.length_mapIdx
  field m n := by
    show ((m : Int) : ZMod fieldOrder) = ((n : Int) : ZMod fieldOrder) ↔ _
    rw [Int.cast_natCast, Int.cast_natCast]
    exact ZMod.natCast_eq_natCast_iff m n fieldOrder
  u64 n := by
    show UInt64.ofNat (n.toNat : Int).toNat = n
    rw [Int.toNat_natCast, UInt64.ofNat_toNat]
  eval mxe circuit clientData serverData :=
    withShared_args clientData serverData fun clientData serverData =>
      sumCipher.fromArcis mxe clientData
        (circuit (sumCipher.toArcis mxe clientData) (sumCipher.toArcis mxe serverData))

section EndToEnd

variable {F : Type} {W : Framework F}

theorem decryptResult_fromArcis (hW : W.Lawful) {a mxe : Bytes32} {x : SharedEncrypted}
    {request : PsiRequest} (hkey : x.encryptionKey = W.publicKey a)
    (hnonce : request.nonce = leBytes 16 x.nonce) (hcount : request.count ≤ batchSize)
    (r : MatchResult) :
    decryptResult W (W.fromArcis mxe x r) (W.sharedSecret a (W.publicKey mxe)) request =
      readResult (r.matched.toList.map flag ++ [flag r.valid]) request.count := by
  have hlen : (r.matched.toList.map flag ++ [flag r.valid]).length = ciphertextsLen := by
    rw [List.length_append, List.length_map, Vector.length_toList]
    rfl
  have hbits : ∀ v ∈ r.matched.toList.map flag ++ [flag r.valid], 0 ≤ v ∧ v < (fieldOrder : Int) := by
    have horder : (1 : Int) < (fieldOrder : Int) := by decide
    intro v hv
    have hv : v = 0 ∨ v = 1 := by
      rw [List.mem_append, List.mem_map, List.mem_singleton] at hv
      obtain ⟨b, -, rfl⟩ | rfl := hv
      · exact flag_bounds b
      · exact flag_bounds r.valid
    omega
  have hnext : (leBytes 16 ((x.nonce.val + 1) % 2 ^ 128)).length = 16 := leBytes_length 16 _
  have hexpected : resultNonceFor request = .ok (leBytes 16 ((x.nonce.val + 1) % 2 ^ 128)) := by
    have hle : ofLe (leBytes 16 x.nonce) = x.nonce := by
      rw [ofLe_leBytes, Nat.mod_eq_of_lt x.nonce.isLt]
    rw [resultNonceFor, hnonce, leBytes_length, if_neg (not_not.mpr rfl), hle]
  have hsecret : W.sharedSecret mxe x.encryptionKey = W.sharedSecret a (W.publicKey mxe) := by
    rw [hkey, hW.agree]
  have hsize : (W.fromArcis mxe x r).ciphertexts.length = ciphertextsLen * 32 := by
    rw [Framework.fromArcis, joinBlocks_length, hW.blocks _ _ _ hnext, hlen, Nat.mul_comm]
  have hplain : W.decrypt (W.sharedSecret a (W.publicKey mxe)) (W.fromArcis mxe x r).nonce
      (splitBlocks (W.fromArcis mxe x r).ciphertexts) =
      r.matched.toList.map flag ++ [flag r.valid] := by
    rw [Framework.fromArcis, splitBlocks_joinBlocks, hsecret]
    exact hW.decrypts _ _ _ hnext hbits
  rw [decryptResult, if_neg (Nat.not_lt_of_le hcount), if_neg (not_not.mpr hsize), hexpected]
  simp only [bind, Except.bind]
  rw [hplain]
  simp [Framework.fromArcis]

/-- Data whose count is in range holds a list. -/
theorem exists_holds {x : ClientContacts F} {k : Nat} (h : Counts W.fromUsize x.count k) :
    ∃ l, Holds W x l := by
  have hlen : ((x.hashes.toList.take k).map fun h => (h.toNat : Int)).length = k := by
    rw [List.length_map, List.length_take, Vector.length_toList, Nat.min_eq_left h.1]
  refine ⟨(x.hashes.toList.take k).map fun h => (h.toNat : Int), by rwa [hlen], fun i v hv => ?_⟩
  obtain ⟨hi, rfl⟩ := List.getElem?_eq_some_iff.mp hv
  rw [List.getElem_map, List.getElem_take, Vector.getElem_toList]
  rfl

variable [DecidableEq F]

/-- Of contacts on both sides, the circuit finds those of the client among the server's. -/
theorem matched_of_holds (hW : W.Lawful) {client : ClientContacts F} {server : ServerContacts F}
    {phoneHashes serverHashes : List Int} (hclient : Holds W client phoneHashes)
    (hserver : Holds W server serverHashes) :
    let r := psiIntersect W.fromUsize client server
    r.valid = true ∧
      r.matched.toList.take phoneHashes.length =
        phoneHashes.map fun v => decide (v ∈ serverHashes) := by
  intro r
  have hinter := psiIntersect_intersection hW.field client server
  refine ⟨hinter.valid.mpr ⟨⟨_, hclient.counts⟩, _, hserver.counts⟩, ?_⟩
  have hlen : phoneHashes.length ≤ batchSize := hclient.counts.1
  apply List.ext_getElem
  · rw [List.length_take, Vector.length_toList, List.length_map, Nat.min_eq_left hlen]
  · intro i h1 h2
    rw [List.length_map] at h2
    have hi : i < batchSize := Nat.lt_of_lt_of_le h2 hlen
    have hmatch := hinter.matched _ _ hclient.counts hserver.counts ⟨i, hi⟩
    have hhash : (client.hashes[(⟨i, hi⟩ : Fin batchSize)].toNat : Int) = phoneHashes[i] :=
      hclient.hashes ⟨i, hi⟩ _ (List.getElem?_eq_getElem h2)
    have hmem : (∃ j : Fin batchSize, j < serverHashes.length ∧
        client.hashes[(⟨i, hi⟩ : Fin batchSize)] = server.hashes[j]) ↔
        phoneHashes[i] ∈ serverHashes := by
      refine ⟨?_, fun hin => ?_⟩
      · rintro ⟨j, hj, heq⟩
        have : (server.hashes[j].toNat : Int) = serverHashes[(j : Nat)] :=
          hserver.hashes j _ (List.getElem?_eq_getElem hj)
        rw [← hhash, heq, this]
        exact List.getElem_mem hj
      · obtain ⟨j, hj, hjv⟩ := List.getElem_of_mem hin
        have hj' : j < batchSize := Nat.lt_of_lt_of_le hj hserver.counts.1
        refine ⟨⟨j, hj'⟩, hj, ?_⟩
        have : (server.hashes[(⟨j, hj'⟩ : Fin batchSize)].toNat : Int) = serverHashes[j] :=
          hserver.hashes ⟨j, hj'⟩ _ (List.getElem?_eq_getElem hj)
        apply UInt64.toNat_inj.mp
        rw [← Int.natCast_inj, hhash, this, hjv]
    rw [and_iff_right h2, hmem] at hmatch
    rw [List.getElem_take, List.getElem_map, Vector.getElem_toList]
    rw [Bool.eq_iff_iff, decide_eq_true_eq]
    exact hmatch

theorem padding_of_holds (hW : W.Lawful) {client : ClientContacts F} {server : ServerContacts F}
    {phoneHashes : List Int} (hclient : Holds W client phoneHashes) (i : Fin batchSize)
    (hi : phoneHashes.length ≤ i) :
    (psiIntersect W.fromUsize client server).matched[i] = false := by
  have hinter := psiIntersect_intersection hW.field client server
  by_contra hset
  rw [Bool.not_eq_false] at hset
  cases hvalid : (psiIntersect W.fromUsize client server).valid with
  | false => exact Bool.false_ne_true ((hinter.closed hvalid i).symm.trans hset)
  | true =>
    obtain ⟨-, s, hs⟩ := hinter.valid.mp hvalid
    have := ((hinter.matched _ s hclient.counts hs i).mp hset).1
    omega

/-- **From the contacts of a client to what it reads of them.** The program reads of its instruction
what it encrypted, the server's data and the offset, and, unless a key is missing, the nodes answer: if
the server's data holds a list, then the client reads which of its contacts are in that list, and if it
holds none, for its count is out of range, then the client reads that. -/
theorem psi_end_to_end (hW : W.Lawful) (disc : { b : Bytes // b.length = 8 }) (a mxe : Bytes32)
    {phoneHashes : List Int} {nonce : Bytes} {request : PsiRequest} (hnonce : nonce.length = 16)
    (hreq : encryptContacts W phoneHashes (W.sharedSecret a (W.publicKey mxe)) nonce = .ok request)
    (server : SharedEncrypted) (offset : UInt64) :
    ∃ data client, buildSubmitPsiQueryIx disc (W.publicKey a).val request.nonce request.ciphertexts
        server.encryptionKey.val (leBytes 16 server.nonce) (joinBlocks server.ciphertexts.val)
        offset = .ok data ∧
      readSubmitPsiQuery data = some (client, server, offset) ∧
      client.encryptionKey = W.publicKey a ∧ leBytes 16 client.nonce = request.nonce ∧
      joinBlocks client.ciphertexts.val = request.ciphertexts ∧
      if W.publicKey a = zeroKey ∨ server.encryptionKey = zeroKey then
        answerQuery W mxe data = some (.error .uninitializedEncryptionKey)
      else
        ∃ result, answerQuery W mxe data = some (.ok result) ∧
          (∀ serverHashes, Holds W (W.toArcis mxe server) serverHashes →
            decryptResult W result (W.sharedSecret a (W.publicKey mxe)) request =
              .ok (phoneHashes.map fun v => decide (v ∈ serverHashes))) ∧
          ((¬ ∃ serverHashes, Holds W (W.toArcis mxe server) serverHashes) →
            decryptResult W result (W.sharedSecret a (W.publicKey mxe)) request =
              .error "the circuit rejected a count: the result is invalid") := by
  obtain ⟨⟨hlen, hall⟩, rfl⟩ := encryptContacts_ok.mp hreq
  have hblocks : (W.encrypt (W.sharedSecret a (W.publicKey mxe)) nonce
      (contactInput phoneHashes)).length = ciphertextsLen := by
    rw [hW.blocks _ _ _ hnonce, contactInput_length hlen]
  let x : SharedEncrypted :=
    { encryptionKey := W.publicKey a, nonce := (Codec.littleEndian 16).dec nonce
      ciphertexts := ⟨_, hblocks⟩ }
  have hx : leBytes 16 x.nonce = nonce := (Codec.littleEndian 16).enc_dec nonce hnonce
  obtain ⟨data, hdata, hread⟩ := readSubmitPsiQuery_build disc x server offset
  rw [hx] at hdata
  refine ⟨data, x, hdata, hread, rfl, hx, rfl, ?_⟩
  have hanswer : answerQuery W mxe data = some ((submitPsiQuery x server).map
      (W.eval mxe (psiIntersect W.fromUsize))) := by
    rw [answerQuery, hread]
    rfl
  rw [hanswer]
  split
  · next hzero =>
    rw [submitPsiQuery]
    split
    · rfl
    · next hclient => rw [if_pos (hzero.resolve_left hclient)]; rfl
  · next hkeys =>
    obtain ⟨hclient, hserver⟩ := not_or.mp hkeys
    have hsubmit : submitPsiQuery x server = .ok (x.args ++ server.args) := by
      rw [submitPsiQuery, if_neg hclient, if_neg hserver]
    have hcontacts : Holds W (W.toArcis mxe x) phoneHashes :=
      toArcis_encryptContacts hW hlen hall rfl (by rw [hx])
    refine ⟨_, by rw [hsubmit]; rfl, fun serverHashes hholds => ?_, fun hnone => ?_⟩
    · obtain ⟨hvalid, hmatched⟩ := matched_of_holds hW hcontacts hholds
      rw [hW.eval, decryptResult_fromArcis hW rfl hx.symm hlen,
        readResult_flags _ hlen (padding_of_holds hW hcontacts), hvalid, if_pos rfl, hmatched]
    · have hinvalid : (psiIntersect W.fromUsize (W.toArcis mxe x)
          (W.toArcis mxe server)).valid = false := by
        rw [← Bool.not_eq_true, (psiIntersect_intersection hW.field _ _).valid]
        rintro ⟨-, s, hs⟩
        exact hnone (exists_holds hs)
      rw [hW.eval, decryptResult_fromArcis hW rfl hx.symm hlen,
        readResult_flags _ hlen (padding_of_holds hW hcontacts), hinvalid, if_neg Bool.false_ne_true]

/-- What the server of the example sends, with the key `3`. -/
def exampleServer : SharedEncrypted :=
  let nonce := (Codec.littleEndian 16).dec (List.replicate 16 6)
  { encryptionKey := sumFramework.publicKey (repeatKey 3), nonce
    ciphertexts := ⟨sumFramework.encrypt
      (sumFramework.sharedSecret (repeatKey 3) (sumFramework.publicKey (repeatKey 2)))
      (leBytes 16 nonce) (contactInput [9, 4, 11]), List.length_mapIdx⟩ }

/-- Two contacts, of which the server has the second, and the offset `12`. -/
theorem psi_end_to_end_two :
    let secret := sumFramework.sharedSecret (repeatKey 1) (sumFramework.publicKey (repeatKey 2))
    ∃ request data client result,
      encryptContacts sumFramework [7, 9] secret (List.replicate 16 5) = .ok request ∧
      buildSubmitPsiQueryIx ⟨List.replicate 8 0, List.length_replicate⟩
        (sumFramework.publicKey (repeatKey 1)).val request.nonce request.ciphertexts
        exampleServer.encryptionKey.val (leBytes 16 exampleServer.nonce)
        (joinBlocks exampleServer.ciphertexts.val) 12 = .ok data ∧
      readSubmitPsiQuery data = some (client, exampleServer, 12) ∧
      answerQuery sumFramework (repeatKey 2) data = some (.ok result) ∧
      decryptResult sumFramework result secret request = .ok [false, true] := by
  intro secret
  obtain ⟨request, hreq⟩ : ∃ request,
      encryptContacts sumFramework [7, 9] secret (List.replicate 16 5) = .ok request :=
    ⟨_, encryptContacts_ok.mpr ⟨⟨by decide, by decide⟩, rfl⟩⟩
  obtain ⟨data, client, hdata, hsent, -, -, -, hif⟩ := psi_end_to_end sumFramework_lawful
    ⟨List.replicate 8 0, List.length_replicate⟩ (repeatKey 1) (repeatKey 2) (by decide) hreq
    exampleServer 12
  have hkeys : ¬ (sumFramework.publicKey (repeatKey 1) = zeroKey ∨
      exampleServer.encryptionKey = zeroKey) := by
    show ¬ (repeatKey 1 = zeroKey ∨ repeatKey 3 = zeroKey)
    decide
  rw [if_neg hkeys] at hif
  obtain ⟨result, hanswer, hread, -⟩ := hif
  have hholds : Holds sumFramework (sumFramework.toArcis (repeatKey 2) exampleServer) [9, 4, 11] :=
    toArcis_encryptContacts sumFramework_lawful (by decide) (by decide) rfl rfl
  exact ⟨request, data, client, result, hreq, hdata, hsent, hanswer, hread _ hholds⟩

end EndToEnd

end Psi

end Arcium
