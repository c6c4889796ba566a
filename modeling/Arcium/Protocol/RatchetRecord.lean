import Arcium.Base.Codec
import Arcium.Protocol.Checkpoint

/-!
# The bytes of a ratchet checkpoint (`core-crypto/src/ratchet/checkpoint.rs`)

`RATCHET_STATE_V1`: 182 bytes of fields at fixed offsets, and 68 bytes for each skipped key. Keys are
`Bytes32` here. `toRecord` is `to_checkpoint` and `fromRecord` is `from_checkpoint`, with
`DoubleRatchet.toCheckpoint` for the checks of the state that they share.

The format is canonical: `fromRecord` undoes `toRecord` (`fromRecord_toRecord`), and accepts nothing
but what `toRecord` writes (`toRecord_fromRecord`).
-/

namespace Arcium

open Codec

/-- `RATCHET_CHECKPOINT_VERSION`. -/
def ratchetCheckpointVersion : UInt8 := 1

/-- `FIXED_LEN`. -/
def fixedLen : Nat := 182

/-- `ENTRY_LEN`. -/
def entryLen : Nat := 68

/-- `RATCHET_CHECKPOINT_MAX_LEN`. -/
def ratchetCheckpointMaxLen : Nat := fixedLen + entryLen * maxSkippedKeys

/-- `FLAG_DHR`. -/
def flagDhr : UInt8 := 1

/-- `FLAG_CKS`. -/
def flagCks : UInt8 := 2

/-- `FLAG_CKR`. -/
def flagCkr : UInt8 := 4

/-- `KNOWN_FLAGS`. -/
def knownFlags : UInt8 := flagDhr ||| flagCks ||| flagCkr

/-- A skipped key: `dh`, `n` and `mk`. -/
def entryCodec : Codec ((PublicKey × UInt32) × Bytes32) := (bytes32.prod u32).prod bytes32

theorem entryCodec_width : entryCodec.width = entryLen := rfl

/-- The presence flags. -/
def presenceFlags (hasDhr hasCks hasCkr : Bool) : UInt8 :=
  (if hasDhr then flagDhr else 0) ||| (if hasCks then flagCks else 0) |||
    (if hasCkr then flagCkr else 0)

/-- `[0u8; 32]`. -/
def zeros : Bytes32 := fill 0

namespace DoubleRatchet

/-- The bytes `to_checkpoint` writes, once the state has passed its checks. -/
def layout (r : DoubleRatchet Bytes32) : Bytes :=
  byte.enc ratchetCheckpointVersion ++
  (byte.enc (presenceFlags r.dhr.isSome r.cks.isSome r.ckr.isSome) ++
  (bytes32.enc r.dhs ++
  (bytes32.enc (r.dhr.getD zeros) ++
  (bytes32.enc r.rk ++
  (bytes32.enc (r.cks.getD zeros) ++
  (bytes32.enc (r.ckr.getD zeros) ++
  (u32.enc r.ns ++
  (u32.enc r.nr ++
  (u32.enc r.pn ++
  (u32.enc (UInt32.ofNat r.maxSkipped) ++
  (u32.enc (UInt32.ofNat r.skipped.len) ++
  r.skipped.entries.flatMap entryCodec.enc)))))))))))

/-- `to_checkpoint`. -/
def toRecord (r : DoubleRatchet Bytes32) : Except CheckpointError Bytes := do
  let r ← r.toCheckpoint
  return r.layout

/-- The checks of `from_checkpoint` on the header: the flags and the number of skipped keys. -/
def checkHeader (record : Bytes) : Except CheckpointError (UInt8 × Nat) := do
  if ratchetCheckpointMaxLen < record.length then throw (.oversized record.length)
  if record.length < fixedLen then throw (.truncated record.length)
  let version := byte.read record 0
  if version ≠ ratchetCheckpointVersion then throw (.unsupportedVersion version)
  let flags := byte.read record 1
  if flags &&& ~~~knownFlags ≠ 0 then throw (.unknownFlags flags)
  let maxSkipped := (u32.read record 174).toNat
  if maxSkipped ≠ maxSkippedKeys then throw (.unexpectedCapacity maxSkipped)
  let count := (u32.read record 178).toNat
  if maxSkippedKeys < count then throw (.tooManySkippedKeys count)
  let expected := fixedLen + entryLen * count
  if record.length ≠ expected then throw (.lengthMismatch expected record.length)
  return (flags, count)

/-- A field that is marked absent is zero. -/
def checkAbsent (record : Bytes) (present : Bool) (off : Nat) (name : String) :
    Except CheckpointError Unit :=
  if !present ∧ (slice record off 32).any (· ≠ 0) then .error (.absentFieldNotZero name) else .ok ()

/-- The loop over the skipped keys of a record. -/
def insertSkipped : List Bytes → IndexMap (PublicKey × UInt32) Bytes32 →
    Except CheckpointError (IndexMap (PublicKey × UInt32) Bytes32)
  | [], skipped => .ok skipped
  | entry :: entries, skipped =>
    let e := entryCodec.dec entry
    if (skipped.get? e.1).isSome then .error .duplicateSkippedKey
    else insertSkipped entries (skipped.insert e.1 e.2)

/-- The key at an offset, if it is marked present. -/
def optional (record : Bytes) (present : Bool) (off : Nat) : Option Bytes32 :=
  if present then some (bytes32.read record off) else none

/-- `from_checkpoint`. -/
def fromRecord (record : Bytes) : Except CheckpointError (DoubleRatchet Bytes32) := do
  let (flags, count) ← checkHeader record
  let hasDhr := flags &&& flagDhr != 0
  let hasCks := flags &&& flagCks != 0
  let hasCkr := flags &&& flagCkr != 0
  let ns := u32.read record 162
  let nr := u32.read record 166
  let pn := u32.read record 170
  checkState hasDhr hasCks hasCkr ns nr pn count
  checkAbsent record hasDhr 34 "dhr"
  checkAbsent record hasCks 98 "cks"
  checkAbsent record hasCkr 130 "ckr"
  if (record.length - fixedLen) % entryLen ≠ 0 then
    throw (.lengthMismatch (fixedLen + entryLen * count) record.length)
  let skipped ← insertSkipped (chunks entryLen (record.drop fixedLen)) .empty
  return {
    dhs := bytes32.read record 2
    dhr := optional record hasDhr 34
    rk := bytes32.read record 66
    cks := optional record hasCks 98
    ckr := optional record hasCkr 130
    ns, nr, pn, skipped
    maxSkipped := maxSkippedKeys }

/-! ## The header -/

/-- What `checkHeader` lets through. -/
structure HeaderOk (record : Bytes) (flags : UInt8) (count : Nat) : Prop where
  length : record.length = fixedLen + entryLen * count
  count_le : count ≤ maxSkippedKeys
  version : byte.read record 0 = ratchetCheckpointVersion
  flagsByte : byte.read record 1 = flags
  known : flags &&& ~~~knownFlags = 0
  capacity : u32.read record 174 = UInt32.ofNat maxSkippedKeys
  countBytes : u32.read record 178 = UInt32.ofNat count

theorem checkHeader_ok {record : Bytes} {flags : UInt8} {count : Nat}
    (h : checkHeader record = .ok (flags, count)) : HeaderOk record flags count := by
  unfold checkHeader at h
  simp only [bind, Except.bind, pure, Except.pure, throw, throwThe, MonadExceptOf.throw] at h
  split_ifs at h with h1 h2 h3 h4 h5 h6 h7
  obtain ⟨rfl, rfl⟩ := Prod.mk.inj (Except.ok.inj h)
  simp only [ne_eq, not_not] at h3 h4 h5 h7
  refine ⟨h7, Nat.not_lt.mp h6, h3, rfl, h4, ?_, (UInt32.ofNat_toNat).symm⟩
  rw [← h5, UInt32.ofNat_toNat]

theorem HeaderOk.check {record : Bytes} {flags : UInt8} {count : Nat}
    (h : HeaderOk record flags count) : checkHeader record = .ok (flags, count) := by
  obtain ⟨h1, h2, h3, h4, h5, h6, h7⟩ := h
  have hlen : ¬ ratchetCheckpointMaxLen < record.length := by
    rw [h1]
    exact Nat.not_lt.mpr (Nat.add_le_add_left (Nat.mul_le_mul_left _ h2) _)
  have hmin : ¬ record.length < fixedLen := by
    rw [h1]
    exact Nat.not_lt.mpr (Nat.le_add_right _ _)
  have hmax : (UInt32.ofNat maxSkippedKeys).toNat = maxSkippedKeys := rfl
  have hcount : (UInt32.ofNat count).toNat = count := by
    rw [UInt32.toNat_ofNat', Nat.mod_eq_of_lt]
    exact Nat.lt_of_le_of_lt h2 (by decide)
  unfold checkHeader
  simp only [bind, Except.bind, pure, Except.pure, throw, throwThe, MonadExceptOf.throw]
  rw [if_neg hlen, if_neg hmin]
  simp only [h3, h4, h5, h6, h7, hmax, hcount, ne_eq, not_true_eq_false, if_false]
  rw [if_neg (Nat.not_lt.mpr h2), if_neg (not_not.mpr h1)]

/-! ## Absent fields -/

theorem checkAbsent_ok {record : Bytes} {present : Bool} {off : Nat} {name : String}
    (h : checkAbsent record present off name = .ok ()) (hl : off + 32 ≤ record.length) :
    bytes32.enc ((optional record present off).getD zeros) = slice record off 32 := by
  unfold checkAbsent at h
  split at h
  · cases h
  · next hz =>
    cases present with
    | true => exact bytes32.enc_read hl
    | false =>
      show List.replicate 32 0 = _
      symm
      rw [List.eq_replicate_iff]
      refine ⟨slice_length hl, fun x hx => ?_⟩
      by_contra hne
      exact hz ⟨rfl, List.any_eq_true.mpr ⟨x, hx, by simpa using hne⟩⟩

theorem checkAbsent_read {record : Bytes} {key : Option Bytes32} {off : Nat}
    (h : bytes32.read record off = key.getD zeros) (hl : off + 32 ≤ record.length) (name : String) :
    checkAbsent record key.isSome off name = .ok () ∧ optional record key.isSome off = key := by
  cases key with
  | some k =>
    refine ⟨rfl, ?_⟩
    show some (bytes32.read record off) = _
    rw [h]
    rfl
  | none =>
    refine ⟨if_neg ?_, rfl⟩
    rintro ⟨-, hz⟩
    have he : slice record off 32 = zeros.val :=
      (bytes32.enc_read hl).symm.trans (congrArg bytes32.enc h)
    rw [he] at hz
    exact absurd hz (by decide)

/-! ## The skipped keys -/

theorem insertSkipped_ok {pieces : List Bytes} {m m' : IndexMap (PublicKey × UInt32) Bytes32}
    (h : insertSkipped pieces m = .ok m') :
    m'.entries = m.entries ++ pieces.map entryCodec.dec := by
  induction pieces generalizing m with
  | nil =>
    cases h
    rw [List.map_nil, List.append_nil]
  | cons piece pieces ih =>
    unfold insertSkipped at h
    dsimp only at h
    split at h
    · cases h
    · next hn =>
      have hk := mt IndexMap.isSome_get?_iff.mpr hn
      rw [ih h, IndexMap.insert_of_not_mem hk, List.map_cons, List.append_assoc]
      rfl

theorem insertSkipped_of_nodup {pieces : List Bytes} {m : IndexMap (PublicKey × UInt32) Bytes32}
    (h : ((m.entries ++ pieces.map entryCodec.dec).map Prod.fst).Nodup) :
    ∃ m', insertSkipped pieces m = .ok m' := by
  induction pieces generalizing m with
  | nil => exact ⟨m, rfl⟩
  | cons piece pieces ih =>
    have hk : (entryCodec.dec piece).1 ∉ m.entries.map Prod.fst := by
      rw [List.map_append, List.nodup_append] at h
      exact fun hm => h.2.2 _ hm _ List.mem_cons_self rfl
    obtain ⟨m', hm'⟩ := @ih (m.insert (entryCodec.dec piece).1 (entryCodec.dec piece).2) (by
      rw [IndexMap.insert_of_not_mem hk, List.append_assoc]
      exact h)
    refine ⟨m', ?_⟩
    unfold insertSkipped
    dsimp only
    rw [if_neg (mt IndexMap.isSome_get?_iff.mp hk)]
    exact hm'

/-! ## What is accepted was written -/

/-- A record is its fixed fields and the bytes after them. -/
theorem fixed_fields {record : Bytes} (h : fixedLen ≤ record.length) :
    byte.enc (byte.read record 0) ++ (byte.enc (byte.read record 1) ++
    (bytes32.enc (bytes32.read record 2) ++ (slice record 34 32 ++
    (bytes32.enc (bytes32.read record 66) ++ (slice record 98 32 ++ (slice record 130 32 ++
    (u32.enc (u32.read record 162) ++ (u32.enc (u32.read record 166) ++
    (u32.enc (u32.read record 170) ++ (u32.enc (u32.read record 174) ++
    (u32.enc (u32.read record 178) ++ record.drop fixedLen))))))))))) = record := by
  have hl : ∀ next, next ≤ 182 → next ≤ record.length := fun next hn => Nat.le_trans hn h
  rw [u32.enc_read_append (show 178 + u32.width = fixedLen from rfl) h,
    u32.enc_read_append (show 174 + u32.width = 178 from rfl) (hl _ (by decide)),
    u32.enc_read_append (show 170 + u32.width = 174 from rfl) (hl _ (by decide)),
    u32.enc_read_append (show 166 + u32.width = 170 from rfl) (hl _ (by decide)),
    u32.enc_read_append (show 162 + u32.width = 166 from rfl) (hl _ (by decide)),
    slice_append_drop record (show 130 + 32 = 162 from rfl),
    slice_append_drop record (show 98 + 32 = 130 from rfl),
    bytes32.enc_read_append (show 66 + bytes32.width = 98 from rfl) (hl _ (by decide)),
    slice_append_drop record (show 34 + 32 = 66 from rfl),
    bytes32.enc_read_append (show 2 + bytes32.width = 34 from rfl) (hl _ (by decide)),
    byte.enc_read_append (show 1 + byte.width = 2 from rfl) (hl _ (by decide)),
    byte.enc_read_append (show 0 + byte.width = 1 from rfl) (hl _ (by decide)), List.drop_zero]

/-- The flags are those of the fields they mark. -/
theorem presenceFlags_eq {flags : UInt8} (h : flags &&& ~~~knownFlags = 0) :
    presenceFlags (flags &&& flagDhr != 0) (flags &&& flagCks != 0) (flags &&& flagCkr != 0) =
      flags := by
  cases flags with
  | ofBitVec flags =>
    cases flags with
    | ofFin flags =>
      revert flags
      decide +kernel

theorem optional_isSome (record : Bytes) (present : Bool) (off : Nat) :
    (optional record present off).isSome = present := by
  cases present <;> rfl

/-- What `from_checkpoint` checks and reads. -/
structure Reads (record : Bytes) (flags : UInt8) (count : Nat) (r : DoubleRatchet Bytes32) :
    Prop where
  header : HeaderOk record flags count
  state : checkState (flags &&& flagDhr != 0) (flags &&& flagCks != 0) (flags &&& flagCkr != 0)
    (u32.read record 162) (u32.read record 166) (u32.read record 170) count = .ok ()
  dhrAbsent : checkAbsent record (flags &&& flagDhr != 0) 34 "dhr" = .ok ()
  cksAbsent : checkAbsent record (flags &&& flagCks != 0) 98 "cks" = .ok ()
  ckrAbsent : checkAbsent record (flags &&& flagCkr != 0) 130 "ckr" = .ok ()
  skipped : insertSkipped (chunks entryLen (record.drop fixedLen)) .empty = .ok r.skipped
  ratchet : r = {
    dhs := bytes32.read record 2
    dhr := optional record (flags &&& flagDhr != 0) 34
    rk := bytes32.read record 66
    cks := optional record (flags &&& flagCks != 0) 98
    ckr := optional record (flags &&& flagCkr != 0) 130
    ns := u32.read record 162
    nr := u32.read record 166
    pn := u32.read record 170
    skipped := r.skipped
    maxSkipped := maxSkippedKeys }

theorem fromRecord_reads {record : Bytes} {r : DoubleRatchet Bytes32}
    (h : fromRecord record = .ok r) : ∃ flags count, Reads record flags count r := by
  unfold fromRecord at h
  simp only [bind, Except.bind, pure, Except.pure, throw, throwThe, MonadExceptOf.throw] at h
  split at h
  · cases h
  · next fc hh =>
    obtain ⟨flags, count⟩ := fc
    dsimp only at h
    split at h
    · cases h
    · next hs =>
      split at h
      · cases h
      · next h1 =>
        split at h
        · cases h
        · next h2 =>
          split at h
          · cases h
          · next h3 =>
            split at h
            · cases h
            · split at h
              · cases h
              · next hsk =>
                cases h
                exact ⟨flags, count, checkHeader_ok hh, hs, h1, h2, h3, hsk, rfl⟩

theorem Reads.fromRecord {record : Bytes} {flags : UInt8} {count : Nat} {r : DoubleRatchet Bytes32}
    (h : Reads record flags count r) : fromRecord record = .ok r := by
  have hmod : ¬ (record.length - fixedLen) % entryLen ≠ 0 := by
    rw [h.header.length, Nat.add_sub_cancel_left, Nat.mul_mod_right]
    exact not_not.mpr rfl
  unfold DoubleRatchet.fromRecord
  simp only [bind, Except.bind, pure, Except.pure, throw, throwThe, MonadExceptOf.throw,
    h.header.check, h.state, h.dhrAbsent, h.cksAbsent, h.ckrAbsent, if_neg hmod, h.skipped]
  rw [← h.ratchet]

/-- The pieces of the entries of a record. -/
theorem Reads.entries {record : Bytes} {flags : UInt8} {count : Nat} {r : DoubleRatchet Bytes32}
    (h : Reads record flags count r) :
    r.skipped.len = count ∧ r.skipped.entries.flatMap entryCodec.enc = record.drop fixedLen := by
  have hlen : (record.drop fixedLen).length = entryLen * count := by
    rw [List.length_drop, h.header.length, Nat.add_sub_cancel_left]
  have he : r.skipped.entries = (chunks entryLen (record.drop fixedLen)).map entryCodec.dec :=
    insertSkipped_ok h.skipped
  constructor
  · rw [IndexMap.len, he, List.length_map, chunks_length, hlen]
    exact Nat.mul_div_cancel_left count (by decide)
  · rw [he]
    exact (entryCodec.flatMap_dec fun c hc => length_of_mem_chunks hc).trans
      (flatten_chunks (by decide) hlen)

/-- **What is accepted was written**: `to_checkpoint` gives back the record that was read. -/
theorem toRecord_fromRecord {record : Bytes} {r : DoubleRatchet Bytes32}
    (h : fromRecord record = .ok r) : r.toRecord = .ok record := by
  obtain ⟨flags, count, hr⟩ := fromRecord_reads h
  obtain ⟨hcount, hent⟩ := hr.entries
  have hl : fixedLen ≤ record.length := by
    rw [hr.header.length]
    exact Nat.le_add_right _ _
  have hfields := fixed_fields hl
  have hle : ∀ off, off + 32 ≤ 182 → off + 32 ≤ record.length := fun off ho => Nat.le_trans ho hl
  rw [hr.header.version, hr.header.flagsByte, hr.header.capacity, hr.header.countBytes, ← hent,
    ← checkAbsent_ok hr.dhrAbsent (hle 34 (by decide)),
    ← checkAbsent_ok hr.cksAbsent (hle 98 (by decide)),
    ← checkAbsent_ok hr.ckrAbsent (hle 130 (by decide))] at hfields
  have hstate := hr.state
  have hflags := presenceFlags_eq hr.header.known
  rw [hr.ratchet]
  unfold toRecord toCheckpoint layout
  simp only [bind, Except.bind, pure, Except.pure, throw, throwThe, MonadExceptOf.throw,
    optional_isSome, hcount, hstate, hflags, ne_eq, not_true_eq_false, if_false]
  rw [hfields]

/-! ## What was written is accepted -/

theorem layout_length (r : DoubleRatchet Bytes32) :
    r.layout.length = fixedLen + entryLen * r.skipped.len := by
  unfold layout
  simp only [List.length_append, Codec.enc_length, byte_width, bytes32_width, u32_width,
    Codec.flatMap_length, entryCodec_width, IndexMap.len, fixedLen]
  omega

/-- What stands where in the bytes of a ratchet. -/
theorem layout_reads (r : DoubleRatchet Bytes32) :
    byte.read r.layout 0 = ratchetCheckpointVersion ∧
    byte.read r.layout 1 = presenceFlags r.dhr.isSome r.cks.isSome r.ckr.isSome ∧
    bytes32.read r.layout 2 = r.dhs ∧ bytes32.read r.layout 34 = r.dhr.getD zeros ∧
    bytes32.read r.layout 66 = r.rk ∧ bytes32.read r.layout 98 = r.cks.getD zeros ∧
    bytes32.read r.layout 130 = r.ckr.getD zeros ∧ u32.read r.layout 162 = r.ns ∧
    u32.read r.layout 166 = r.nr ∧ u32.read r.layout 170 = r.pn ∧
    u32.read r.layout 174 = UInt32.ofNat r.maxSkipped ∧
    u32.read r.layout 178 = UInt32.ofNat r.skipped.len ∧
    r.layout.drop fixedLen = r.skipped.entries.flatMap entryCodec.enc := by
  unfold layout fixedLen
  refine ⟨?_, ?_, ?_, ?_, ?_, ?_, ?_, ?_, ?_, ?_, ?_, ?_, ?_⟩ <;>
    simp (disch := decide) only [read_past, drop_past, byte_width, bytes32_width, u32_width,
      Nat.reduceSub, read_here, List.drop_zero]

theorem presenceFlags_known (d s c : Bool) : presenceFlags d s c &&& ~~~knownFlags = 0 := by
  revert d s c
  decide

theorem presenceFlags_bits (d s c : Bool) :
    (presenceFlags d s c &&& flagDhr != 0) = d ∧ (presenceFlags d s c &&& flagCks != 0) = s ∧
      (presenceFlags d s c &&& flagCkr != 0) = c := by
  revert d s c
  decide

theorem toCheckpoint_checks {K : Type} {r r' : DoubleRatchet K} (h : r.toCheckpoint = .ok r') :
    r.maxSkipped = maxSkippedKeys ∧
      checkState r.dhr.isSome r.cks.isSome r.ckr.isSome r.ns r.nr r.pn r.skipped.len = .ok () := by
  unfold toCheckpoint at h
  simp only [bind, Except.bind, pure, Except.pure, throw, throwThe, MonadExceptOf.throw] at h
  split at h
  · cases h
  · next hm =>
    split at h
    · cases h
    · next hs => exact ⟨not_not.mp hm, hs⟩

theorem toRecord_ok {r : DoubleRatchet Bytes32} {record : Bytes} (h : r.toRecord = .ok record) :
    r.toCheckpoint = .ok r ∧ record = r.layout := by
  unfold toRecord at h
  simp only [bind, Except.bind, pure, Except.pure] at h
  split at h
  · cases h
  · next hc =>
    obtain rfl := toCheckpoint_eq hc
    exact ⟨hc, (Except.ok.inj h).symm⟩

/-- The skipped keys come back in the order in which they were written. -/
theorem insertSkipped_layout (r : DoubleRatchet Bytes32) :
    insertSkipped (chunks entryLen (r.layout.drop fixedLen)) .empty = .ok r.skipped := by
  have hpieces : chunks entryLen (r.layout.drop fixedLen) = r.skipped.entries.map entryCodec.enc := by
    rw [(layout_reads r).2.2.2.2.2.2.2.2.2.2.2.2]
    exact entryCodec.chunks_flatMap (by decide) _
  have hdec : (r.skipped.entries.map entryCodec.enc).map entryCodec.dec = r.skipped.entries := by
    rw [List.map_map]
    exact List.map_id'' entryCodec.dec_enc _
  rw [hpieces]
  obtain ⟨m, hm⟩ := @insertSkipped_of_nodup (r.skipped.entries.map entryCodec.enc) .empty (by
    rw [hdec]
    exact r.skipped.nodup)
  have he := insertSkipped_ok hm
  rw [hdec] at he
  rw [hm, IndexMap.ext_entries he]

theorem layout_is_read {r : DoubleRatchet Bytes32} (h : r.toCheckpoint = .ok r) :
    Reads r.layout (presenceFlags r.dhr.isSome r.cks.isSome r.ckr.isSome) r.skipped.len r := by
  obtain ⟨hmax, hstate⟩ := toCheckpoint_checks h
  have hres := toCheckpoint_resumable h
  obtain ⟨h0, h1, h2, h3, h4, h5, h6, h7, h8, h9, h10, h11, -⟩ := layout_reads r
  obtain ⟨hd, hs, hc⟩ := presenceFlags_bits r.dhr.isSome r.cks.isSome r.ckr.isSome
  have hlen := layout_length r
  have hl : ∀ off, off + 32 ≤ 182 → off + 32 ≤ r.layout.length := by
    intro off ho
    rw [hlen]
    exact Nat.le_trans ho (Nat.le_add_right _ _)
  obtain ⟨a1, o1⟩ := checkAbsent_read h3 (hl 34 (by decide)) "dhr"
  obtain ⟨a2, o2⟩ := checkAbsent_read h5 (hl 98 (by decide)) "cks"
  obtain ⟨a3, o3⟩ := checkAbsent_read h6 (hl 130 (by decide)) "ckr"
  constructor
  · exact ⟨hlen, hres.skipped, h0, h1, presenceFlags_known _ _ _, by rw [h10, hmax], h11⟩
  · rw [hd, hs, hc, h7, h8, h9]
    exact hstate
  · rwa [hd]
  · rwa [hs]
  · rwa [hc]
  · exact insertSkipped_layout r
  · rw [hd, hs, hc, o1, o2, o3, h2, h4, h7, h8, h9, ← hmax]

/-- **What was written is accepted**, with every field and the order of the skipped keys. -/
theorem fromRecord_toRecord {r : DoubleRatchet Bytes32} {record : Bytes}
    (h : r.toRecord = .ok record) : fromRecord record = .ok r := by
  obtain ⟨hc, rfl⟩ := toRecord_ok h
  exact (layout_is_read hc).fromRecord

/-- **Ratchet checkpoints are canonical**: the records that are accepted are those that are written,
and a state has one record. -/
theorem record_canonical (r : DoubleRatchet Bytes32) (record : Bytes) :
    r.toRecord = .ok record ↔ fromRecord record = .ok r :=
  ⟨fromRecord_toRecord, toRecord_fromRecord⟩

end DoubleRatchet

end Arcium
