import Arcium.Base.Codec
import Arcium.Mobile.Formats

/-!
# What is packed is what is unpacked

A bundle, a handshake and a stored prekey record are read back as they were written
(`unpackPrekeyBundle_pack` and its like), and what is read was written (`packPrekeyBundle_unpack` and
its like): of every value one encoding is accepted, and no byte of it is left to choose
(`packing_canonical`).
-/

namespace Arcium

variable {P : AppPlatform}

theorem be64_length (n : UInt64) : (be64 n).length = 8 := rfl

theorem ok_of_bind {ε α β : Type} {x : Except ε α} {f : α → Except ε β} {b : β}
    (h : (x >>= f) = .ok b) : ∃ a, x = .ok a ∧ f a = .ok b := by
  cases x with
  | ok a => exact ⟨a, rfl, h⟩
  | error e => cases h

theorem ok_of_guard {ε β : Type} {c : Prop} [Decidable c] {e : ε} {x : Except ε β} {b : β}
    (h : (if c then throw e else x) = .ok b) : ¬c ∧ x = .ok b := by
  split at h
  · cases h
  · next hc => exact ⟨hc, h⟩

theorem ok_bind {ε α β : Type} {x : Except ε α} {f : α → Except ε β} {a : α} (h : x = .ok a) :
    (x >>= f) = f a := by
  rw [h]
  rfl

/-! ## Fields -/

theorem checkFlags_flag (o : Bool) (refuse : String → CoreError) :
    checkFlags (if o then flagOtp else 0) refuse = .ok o := by
  cases o <;> rfl

/-- A byte of flags with no unknown bit is one that a packer writes. -/
theorem flags_known (flags : UInt8) (h : flags &&& ~~~flagOtp = 0) :
    flags = if (flags &&& flagOtp ≠ 0 : Bool) then flagOtp else 0 := by
  have hall : ∀ v : BitVec 8, UInt8.ofBitVec v &&& ~~~flagOtp = 0 → UInt8.ofBitVec v =
      if (UInt8.ofBitVec v &&& flagOtp ≠ 0 : Bool) then flagOtp else 0 := by decide
  exact hall flags.toBitVec h

theorem checkFlags_ok {flags : UInt8} {refuse : String → CoreError} {o : Bool}
    (h : checkFlags flags refuse = .ok o) : flags = if o then flagOtp else 0 := by
  unfold checkFlags at h
  split at h
  · cases h
  · next hknown =>
    rw [← Except.ok.inj h]
    exact flags_known flags (not_not.mp hknown)

theorem checkVersionAndSuite_ok {version suite : UInt8} {u : Unit}
    (h : checkVersionAndSuite version suite = .ok u) :
    version = protocolVersion ∧ suite = cipherSuite := by
  unfold checkVersionAndSuite at h
  split at h
  · cases h
  · next hboth => exact ⟨not_not.mp fun hv => hboth (.inl hv), not_not.mp fun hs => hboth (.inr hs)⟩

theorem takeN_ok {n : Nat} {bytes : Bytes} {a : { b : Bytes // b.length = n }}
    (h : takeN n bytes = .ok a) : bytes = a.val ++ bytes.drop n := by
  unfold takeN at h
  split at h
  · rw [← Except.ok.inj h]
    exact (List.take_append_drop n bytes).symm
  · cases h

/-- Bytes that are all zero. -/
theorem eq_replicate_of_not_any {bytes : Bytes} {n : Nat} (hlen : bytes.length = n)
    (h : ¬ bytes.any (· ≠ 0) = true) : bytes = List.replicate n 0 := by
  refine List.eq_replicate_iff.mpr ⟨hlen, fun b hb => ?_⟩
  by_contra hne
  exact h (List.any_eq_true.mpr ⟨b, hb, decide_eq_true hne⟩)

theorem be64_ofBe64_take (bytes : Bytes) (h : 8 ≤ bytes.length) :
    be64 (ofBe64 (bytes.take 8)) ++ bytes.drop 8 = bytes := by
  have hread := Codec.u64.enc_dec (bytes.take 8) (List.length_take_of_le h)
  have hbe : be64 (ofBe64 (bytes.take 8)) = bytes.take 8 := hread
  rw [hbe, List.take_append_drop]

theorem getD_cons_drop {bytes : Bytes} {n : Nat} (h : n < bytes.length) :
    bytes.getD n 0 :: bytes.drop (n + 1) = bytes.drop n := by
  rw [List.getD_eq_getElem?_getD, List.getElem?_eq_getElem h, Option.getD_some,
    List.getElem_cons_drop h]

/-- The four bytes that a wire format begins with. -/
theorem header_bytes (bytes : Bytes) (h : 4 ≤ bytes.length) :
    bytes = [bytes.getD 0 0, bytes.getD 1 0, bytes.getD 2 0, bytes.getD 3 0] ++ bytes.drop 4 := by
  obtain ⟨head, rest, hb, hhead⟩ : ∃ head rest, bytes = head ++ rest ∧ head.length = 4 :=
    ⟨bytes.take 4, bytes.drop 4, (List.take_append_drop 4 bytes).symm, List.length_take_of_le h⟩
  obtain ⟨a, b, c, d, rfl⟩ := List.length_eq_four.mp hhead
  rw [hb]
  rfl

theorem pubkeyAt_append (pk : PublicKey) {bytes rest : Bytes} {offset : Nat}
    (h : bytes.drop offset = pk.val ++ rest) : pubkeyAt bytes offset = .ok pk := by
  rw [pubkeyAt, h, take32_append]

theorem pubkeyAt_ok {bytes : Bytes} {offset : Nat} {pk : PublicKey}
    (h : pubkeyAt bytes offset = .ok pk) : take32 (bytes.drop offset) = some pk := by
  unfold pubkeyAt at h
  split at h
  · next hpk => rw [hpk, Except.ok.inj h]
  · cases h

theorem takeN_append {n : Nat} (a : { b : Bytes // b.length = n }) {bytes rest : Bytes}
    (h : bytes = a.val ++ rest) : takeN n bytes = .ok a := by
  subst h
  have h : (a.val ++ rest).take n = a.val := List.take_left' a.2
  unfold takeN
  rw [dif_pos (by rw [h]; exact a.2)]
  simp only [h]

/-- The last field of a bundle. -/
def oneTimePrekeyField (o : Option (UInt64 × PublicKey)) : Bytes :=
  o.elim (List.replicate 40 0) fun opk => be64 opk.1 ++ opk.2.val

theorem oneTimePrekeyField_length (o : Option (UInt64 × PublicKey)) :
    (oneTimePrekeyField o).length = 40 := by
  cases o with
  | none => rfl
  | some opk => rw [oneTimePrekeyField, Option.elim_some, List.length_append, be64_length, opk.2.2]

theorem unpackOneTimePrekey_field {o : Option (UInt64 × PublicKey)} {bytes : Bytes}
    (h : bytes.drop 164 = oneTimePrekeyField o) :
    unpackOneTimePrekey bytes o.isSome = .ok o := by
  cases o with
  | none =>
    rw [Option.isSome_none, unpackOneTimePrekey, h]
    rfl
  | some opk =>
    obtain ⟨id, pk⟩ := opk
    rw [oneTimePrekeyField, Option.elim_some] at h
    have hpk : bytes.drop 172 = pk.val ++ [] := by
      rw [show 172 = 164 + 8 from rfl, ← List.drop_drop, h, List.drop_left' (be64_length id),
        List.append_nil]
    simp only [Option.isSome_some, unpackOneTimePrekey, h, List.take_left' (be64_length id),
      Codec.ofBe64_be64, pubkeyAt_append pk hpk]
    rfl

/-- The id and the key of a one-time prekey that is there. -/
theorem oneTimePrekeyField_some {bytes : Bytes} {offset : Nat} {pk : Bytes32} {rest : Bytes}
    (hlen : bytes.length = offset + 40) (hpk : bytes.drop (offset + 8) = pk.val ++ rest) :
    bytes.drop offset = oneTimePrekeyField (some (ofBe64 ((bytes.drop offset).take 8), pk)) := by
  have htail : (bytes.drop offset).length = 40 := by
    rw [List.length_drop]
    omega
  have hrest : rest = [] := by
    have hlen' := congrArg List.length hpk
    rw [List.length_drop, List.length_append, pk.2] at hlen'
    exact List.length_eq_zero_iff.mp (by omega)
  rw [oneTimePrekeyField, Option.elim_some]
  conv_lhs => rw [← be64_ofBe64_take (bytes.drop offset) (by omega), List.drop_drop, hpk, hrest]
  rw [List.append_nil]

theorem unpackOneTimePrekey_ok {bytes : Bytes} {present : Bool} {o : Option (UInt64 × PublicKey)}
    (hlen : bytes.length = 204) (h : unpackOneTimePrekey bytes present = .ok o) :
    present = o.isSome ∧ bytes.drop 164 = oneTimePrekeyField o := by
  cases present with
  | true =>
    obtain ⟨pk, hpk, ho⟩ := ok_of_bind h
    obtain rfl := Except.ok.inj ho
    exact ⟨rfl, oneTimePrekeyField_some hlen (take32_some (pubkeyAt_ok hpk))⟩
  | false =>
    rw [unpackOneTimePrekey] at h
    split at h
    · cases h
    · next hzero =>
      obtain rfl := Except.ok.inj h
      exact ⟨rfl, eq_replicate_of_not_any (by rw [List.length_drop, hlen]) hzero⟩

theorem unpackStoredOpk_ok {bytes : Bytes} {present : Bool} {o : Option (UInt64 × StaticSecret)}
    (hlen : bytes.length = 138) (h : unpackStoredOpk bytes present = .ok o) :
    present = o.isSome ∧ bytes.drop 98 = oneTimePrekeyField o := by
  cases present with
  | true =>
    obtain ⟨sk, hsk, ho⟩ := ok_of_bind h
    obtain rfl := Except.ok.inj ho
    exact ⟨rfl, oneTimePrekeyField_some hlen (takeN_ok hsk)⟩
  | false =>
    rw [unpackStoredOpk] at h
    split at h
    · cases h
    · next hzero =>
      obtain rfl := Except.ok.inj h
      exact ⟨rfl, eq_replicate_of_not_any (by rw [List.length_drop, hlen]) hzero⟩

theorem unpackStoredOpk_field {o : Option (UInt64 × StaticSecret)} {bytes : Bytes}
    (h : bytes.drop 98 = oneTimePrekeyField o) : unpackStoredOpk bytes o.isSome = .ok o := by
  cases o with
  | none =>
    rw [Option.isSome_none, unpackStoredOpk, h]
    rfl
  | some opk =>
    obtain ⟨id, sk⟩ := opk
    rw [oneTimePrekeyField, Option.elim_some] at h
    have hsk : bytes.drop 106 = sk.val ++ [] := by
      rw [show 106 = 98 + 8 from rfl, ← List.drop_drop, h, List.drop_left' (be64_length id),
        List.append_nil]
    simp only [Option.isSome_some, unpackStoredOpk, h, List.take_left' (be64_length id),
      Codec.ofBe64_be64, takeN_append sk hsk]
    rfl

/-- The last field of a handshake. -/
def opkIdField (o : Option UInt64) : Bytes := o.elim (List.replicate 8 0) be64

theorem opkIdField_length (o : Option UInt64) : (opkIdField o).length = 8 := by
  cases o <;> rfl

theorem unpackOpkId_field {o : Option UInt64} {bytes : Bytes}
    (h : bytes.drop 76 = opkIdField o) : unpackOpkId bytes o.isSome = .ok o := by
  cases o with
  | none =>
    rw [Option.isSome_none, unpackOpkId, h]
    rfl
  | some id =>
    rw [Option.isSome_some, unpackOpkId, h, opkIdField, Option.elim_some,
      List.take_of_length_le (Nat.le_of_eq (be64_length id)), Codec.ofBe64_be64]

theorem unpackOpkId_ok {bytes : Bytes} {present : Bool} {o : Option UInt64}
    (hlen : bytes.length = 84) (h : unpackOpkId bytes present = .ok o) :
    present = o.isSome ∧ bytes.drop 76 = opkIdField o := by
  have htail : (bytes.drop 76).length = 8 := by rw [List.length_drop, hlen]
  cases present with
  | true =>
    obtain rfl := Except.ok.inj h
    refine ⟨rfl, ?_⟩
    have hbytes := be64_ofBe64_take (bytes.drop 76) (Nat.le_of_eq htail.symm)
    rw [List.drop_of_length_le (Nat.le_of_eq htail), List.append_nil] at hbytes
    exact hbytes.symm
  | false =>
    rw [unpackOpkId] at h
    split at h
    · cases h
    · next hzero =>
      obtain rfl := Except.ok.inj h
      exact ⟨rfl, eq_replicate_of_not_any htail hzero⟩

/-! ## Bundles and handshakes -/

theorem packPrekeyBundle_eq (bundle : PrekeyBundle) : packPrekeyBundle bundle =
    [protocolVersion, cipherSuite, if bundle.oneTimePrekey.isSome then flagOtp else 0, 0] ++
      (bundle.identityPk.val ++ (bundle.signingPk.val ++ (bundle.signedPrekeyPk.val ++
        (bundle.signedPrekeySignature.val ++ oneTimePrekeyField bundle.oneTimePrekey)))) := by
  obtain ⟨id, sk, spk, sig, opk⟩ := bundle
  cases opk <;> simp [packPrekeyBundle, oneTimePrekeyField]

/-- A bundle is read as it was written. -/
theorem unpackPrekeyBundle_pack {bundle : PrekeyBundle}
    (hk : P.isVerifyingKey bundle.signingPk = true) :
    unpackPrekeyBundle P (packPrekeyBundle bundle) = .ok bundle := by
  have hb := packPrekeyBundle_eq bundle
  generalize packPrekeyBundle bundle = bytes at hb ⊢
  obtain ⟨id, sk, spk, sig, opk⟩ := bundle
  dsimp only at hb hk
  have hlen : bytes.length = prekeyBundleLen := by
    rw [hb]
    simp [id.2, sk.2, spk.2, sig.2, oneTimePrekeyField_length, prekeyBundleLen]
  have h4 := congrArg (List.drop 4) hb
  have h36 := congrArg (List.drop 32) h4
  have h68 := congrArg (List.drop 32) h36
  have h100 := congrArg (List.drop 32) h68
  have h164 := congrArg (List.drop 64) h100
  simp only [List.drop_drop, List.cons_append, List.nil_append, List.drop_succ_cons, List.drop_zero,
    List.drop_left' id.2, List.drop_left' sk.2, List.drop_left' spk.2, List.drop_left' sig.2,
    Nat.reduceAdd] at h4 h36 h68 h100 h164
  have hflags : bytes.getD 2 0 = if opk.isSome then flagOtp else 0 := by rw [hb]; rfl
  unfold unpackPrekeyBundle
  rw [if_neg (not_not.mpr hlen), ok_bind (by rw [hb]; rfl), hflags,
    ok_bind (checkFlags_flag opk.isSome _), if_neg (by rw [hb]; simp),
    ok_bind (pubkeyAt_append id h4), ok_bind (takeN_append sk h36), if_neg (by simpa using hk),
    ok_bind (pubkeyAt_append spk h68), ok_bind (takeN_append sig h100),
    ok_bind (unpackOneTimePrekey_field h164)]
  rfl

theorem packInitiatorHandshake_eq (handshake : InitiatorHandshake) :
    packInitiatorHandshake handshake =
      [protocolVersion, cipherSuite, if handshake.opkId.isSome then flagOtp else 0, 0] ++
        (handshake.identityPk.val ++ (handshake.ephemeralPk.val ++
          (handshake.spkId ++ opkIdField handshake.opkId))) := by
  obtain ⟨id, epk, spkId, opk⟩ := handshake
  cases opk <;> simp [packInitiatorHandshake, opkIdField]

/-- A handshake is read as it was written. -/
theorem unpackInitiatorHandshake_pack {handshake : InitiatorHandshake}
    (hs : handshake.spkId.length = 8) :
    unpackInitiatorHandshake (packInitiatorHandshake handshake) = .ok handshake := by
  have hb := packInitiatorHandshake_eq handshake
  generalize packInitiatorHandshake handshake = bytes at hb ⊢
  obtain ⟨id, epk, spkId, opk⟩ := handshake
  dsimp only at hb hs
  have hlen : bytes.length = initiatorHandshakeLen := by
    rw [hb]
    simp [id.2, epk.2, hs, opkIdField_length, initiatorHandshakeLen]
  have h4 := congrArg (List.drop 4) hb
  have h36 := congrArg (List.drop 32) h4
  have h68 := congrArg (List.drop 32) h36
  have h76 := congrArg (List.drop 8) h68
  simp only [List.drop_drop, List.cons_append, List.nil_append, List.drop_succ_cons, List.drop_zero,
    List.drop_left' id.2, List.drop_left' epk.2, List.drop_left' hs, Nat.reduceAdd] at h4 h36 h68 h76
  have hflags : bytes.getD 2 0 = if opk.isSome then flagOtp else 0 := by rw [hb]; rfl
  unfold unpackInitiatorHandshake
  rw [if_neg (not_not.mpr hlen), ok_bind (by rw [hb]; rfl), hflags,
    ok_bind (checkFlags_flag opk.isSome _), if_neg (by rw [hb]; simp),
    ok_bind (pubkeyAt_append id h4), ok_bind (pubkeyAt_append epk h36),
    ok_bind (takeN_append ⟨spkId, hs⟩ h68), ok_bind (unpackOpkId_field h76)]
  rfl

/-- What is read of a bundle was written. -/
theorem packPrekeyBundle_unpack {bytes : Bytes} {bundle : PrekeyBundle}
    (h : unpackPrekeyBundle P bytes = .ok bundle) :
    P.isVerifyingKey bundle.signingPk = true ∧ packPrekeyBundle bundle = bytes := by
  unfold unpackPrekeyBundle at h
  dsimp only at h
  obtain ⟨hlen, h⟩ := ok_of_guard h
  obtain ⟨u, hversion, h⟩ := ok_of_bind h
  obtain ⟨hasOtp, hflags, h⟩ := ok_of_bind h
  obtain ⟨hreserved, h⟩ := ok_of_guard h
  obtain ⟨identityPk, hid, h⟩ := ok_of_bind h
  obtain ⟨signingPk, hsign, h⟩ := ok_of_bind h
  obtain ⟨hkey, h⟩ := ok_of_guard h
  obtain ⟨signedPrekeyPk, hspk, h⟩ := ok_of_bind h
  obtain ⟨signature, hsig, h⟩ := ok_of_bind h
  obtain ⟨opk, hopk, h⟩ := ok_of_bind h
  obtain rfl := Except.ok.inj h
  have hlen : bytes.length = 204 := not_not.mp hlen
  obtain ⟨hv, hs⟩ := checkVersionAndSuite_ok hversion
  obtain ⟨rfl, htail⟩ := unpackOneTimePrekey_ok hlen hopk
  have h4 := take32_some (pubkeyAt_ok hid)
  have h36 := takeN_ok hsign
  have h68 := take32_some (pubkeyAt_ok hspk)
  have h100 := takeN_ok hsig
  simp only [List.drop_drop, Nat.reduceAdd] at h4 h36 h68 h100
  have hbytes := header_bytes bytes (by omega)
  rw [hv, hs, checkFlags_ok hflags, not_not.mp hreserved, h4, h36, h68, h100, htail] at hbytes
  exact ⟨by simpa using hkey, (packPrekeyBundle_eq _).trans hbytes.symm⟩

/-- What is read of a handshake was written. -/
theorem packInitiatorHandshake_unpack {bytes : Bytes} {handshake : InitiatorHandshake}
    (h : unpackInitiatorHandshake bytes = .ok handshake) :
    handshake.spkId.length = 8 ∧ packInitiatorHandshake handshake = bytes := by
  unfold unpackInitiatorHandshake at h
  dsimp only at h
  obtain ⟨hlen, h⟩ := ok_of_guard h
  obtain ⟨u, hversion, h⟩ := ok_of_bind h
  obtain ⟨usedOtp, hflags, h⟩ := ok_of_bind h
  obtain ⟨hreserved, h⟩ := ok_of_guard h
  obtain ⟨identityPk, hid, h⟩ := ok_of_bind h
  obtain ⟨ephemeralPk, heph, h⟩ := ok_of_bind h
  obtain ⟨spkId, hspk, h⟩ := ok_of_bind h
  obtain ⟨opkId, hopk, h⟩ := ok_of_bind h
  obtain rfl := Except.ok.inj h
  have hlen : bytes.length = 84 := not_not.mp hlen
  obtain ⟨hv, hs⟩ := checkVersionAndSuite_ok hversion
  obtain ⟨rfl, htail⟩ := unpackOpkId_ok hlen hopk
  have h4 := take32_some (pubkeyAt_ok hid)
  have h36 := take32_some (pubkeyAt_ok heph)
  have h68 := takeN_ok hspk
  simp only [List.drop_drop, Nat.reduceAdd] at h4 h36 h68
  have hbytes := header_bytes bytes (by omega)
  rw [hv, hs, checkFlags_ok hflags, not_not.mp hreserved, h4, h36, h68, htail] at hbytes
  exact ⟨spkId.2, (packInitiatorHandshake_eq _).trans hbytes.symm⟩

/-- The identity key of a handshake is after its header. -/
theorem unpackInitiatorHandshake_identityPk {bytes : Bytes} {handshake : InitiatorHandshake}
    (h : unpackInitiatorHandshake bytes = .ok handshake) :
    take32 (bytes.drop 4) = some handshake.identityPk := by
  obtain ⟨-, rfl⟩ := packInitiatorHandshake_unpack h
  rw [packInitiatorHandshake_eq]
  exact take32_append _ _

/-! ## Stored prekeys -/

theorem packPrekeys_eq (record : PrekeyRecord) : packPrekeys record =
    prekeyRecordVersion :: (record.signedPrekeySk.val ++ (record.signature.val ++
      ((if record.opk.isSome then flagOtp else 0) :: oneTimePrekeyField record.opk))) := by
  obtain ⟨sk, sig, opk⟩ := record
  cases opk <;> simp [packPrekeys, oneTimePrekeyField, List.replicate]

/-- A record is read as it was written. -/
theorem unpackPrekeys_pack (record : PrekeyRecord) : unpackPrekeys (packPrekeys record) = .ok record := by
  have hb := packPrekeys_eq record
  generalize packPrekeys record = bytes at hb ⊢
  obtain ⟨sk, sig, opk⟩ := record
  dsimp only at hb
  have hlen : bytes.length = prekeyRecordLen := by
    rw [hb]
    simp [sk.2, sig.2, oneTimePrekeyField_length, prekeyRecordLen]
  have h1 := congrArg (List.drop 1) hb
  have h33 := congrArg (List.drop 32) h1
  have h97 := congrArg (List.drop 64) h33
  have h98 := congrArg (List.drop 1) h97
  simp only [List.drop_drop, List.drop_succ_cons, List.drop_zero, List.drop_left' sk.2,
    List.drop_left' sig.2, Nat.reduceAdd] at h1 h33 h97 h98
  have hflags : bytes.getD 97 0 = if opk.isSome then flagOtp else 0 := by
    have hlt : 97 < bytes.length := by rw [hlen]; decide
    exact (List.cons.inj ((getD_cons_drop hlt).trans h97)).1
  have hknown : ∀ o : Bool, (if o then flagOtp else 0) &&& ~~~flagOtp = 0 ∧
      ((if o then flagOtp else 0) &&& flagOtp ≠ 0 : Bool) = o := by decide
  obtain ⟨hnone, hset⟩ := hknown opk.isSome
  unfold unpackPrekeys
  dsimp only
  rw [if_neg (not_not.mpr hlen), if_neg (by rw [hb]; simp), ok_bind (takeN_append sk h1),
    ok_bind (takeN_append sig h33), hflags, if_neg (not_not.mpr hnone), hset,
    ok_bind (unpackStoredOpk_field h98)]
  rfl

/-- What is read of a record was written. -/
theorem packPrekeys_unpack {bytes : Bytes} {record : PrekeyRecord}
    (h : unpackPrekeys bytes = .ok record) : packPrekeys record = bytes := by
  unfold unpackPrekeys at h
  dsimp only at h
  obtain ⟨hlen, h⟩ := ok_of_guard h
  obtain ⟨hversion, h⟩ := ok_of_guard h
  obtain ⟨sk, hsk, h⟩ := ok_of_bind h
  obtain ⟨sig, hsig, h⟩ := ok_of_bind h
  obtain ⟨hknown, h⟩ := ok_of_guard h
  obtain ⟨opk, hopk, h⟩ := ok_of_bind h
  obtain rfl := Except.ok.inj h
  have hlen : bytes.length = 138 := not_not.mp hlen
  obtain ⟨hpresent, htail⟩ := unpackStoredOpk_ok hlen hopk
  have h1 := takeN_ok hsk
  have h33 := takeN_ok hsig
  simp only [List.drop_drop, Nat.reduceAdd] at h1 h33
  have h97 := flags_known _ (not_not.mp hknown)
  rw [hpresent] at h97
  rw [packPrekeys_eq, ← htail, ← h97, getD_cons_drop (by omega), ← h33, ← h1, ← not_not.mp hversion,
    getD_cons_drop (by omega), List.drop_zero]

/-! ## The three formats -/

/-- **The X3DH structures are canonical**: bundles, handshakes and stored prekeys. The signing key of a
bundle is one that its type admits, and the id of a signed prekey has eight bytes. -/
theorem packing_canonical (P : AppPlatform) :
    Canonical (fun bundle => P.isVerifyingKey bundle.signingPk = true) packPrekeyBundle
      (fun bytes bundle => unpackPrekeyBundle P bytes = .ok bundle) ∧
    Canonical (fun handshake => handshake.spkId.length = 8) packInitiatorHandshake
      (fun bytes handshake => unpackInitiatorHandshake bytes = .ok handshake) ∧
    Canonical (fun _ => True) packPrekeys (fun bytes record => unpackPrekeys bytes = .ok record) := by
  refine ⟨fun bytes bundle => ⟨fun h => ?_, ?_⟩, fun bytes handshake => ⟨fun h => ?_, ?_⟩,
    fun bytes record => ⟨fun h => ⟨trivial, (packPrekeys_unpack h).symm⟩, ?_⟩⟩
  · obtain ⟨hkey, hbytes⟩ := packPrekeyBundle_unpack h
    exact ⟨hkey, hbytes.symm⟩
  · rintro ⟨hkey, rfl⟩
    exact unpackPrekeyBundle_pack hkey
  · obtain ⟨hid, hbytes⟩ := packInitiatorHandshake_unpack h
    exact ⟨hid, hbytes.symm⟩
  · rintro ⟨hid, rfl⟩
    exact unpackInitiatorHandshake_pack hid
  · rintro ⟨-, rfl⟩
    exact unpackPrekeys_pack record

/-- A one-time prekey with the id 0 is told from none. -/
example :
    unpackInitiatorHandshake (packInitiatorHandshake ⟨default, default, List.replicate 8 0, some 0⟩) =
      .ok ⟨default, default, List.replicate 8 0, some 0⟩ ∧
    unpackInitiatorHandshake (packInitiatorHandshake ⟨default, default, List.replicate 8 0, none⟩) =
      .ok ⟨default, default, List.replicate 8 0, none⟩ := ⟨rfl, rfl⟩

end Arcium
