import Arcium.Crypto.Ratchet
import Mathlib.Logic.Function.Iterate

/-!
# What the ratchet's functions do

One spec lemma for each function of `Arcium/Crypto/Ratchet.lean`, so that proofs about runs never
unfold them.

* `ckAt`, `mkAt`: the chain key and the message key at a position of a chain.
* `skipMessageKeys_eq`, `mem_skipLoop`, `mem_skipLoop_new`: skipping `stop - nr` positions advances
  the chain by as many steps and stores their message keys, before trimming.
* `decrypt_ok`: a successful decrypt used a stored key, or the key at the receiving chain's
  position after switching chains and skipping.
* `decrypt_error_state`: a decrypt that returns an error changes no field.
-/

namespace Arcium

section Chain

variable (C : Crypto)

/-- The chain key `n` steps after `ck`. -/
def ckAt (ck : C.Key) (n : Nat) : C.Key := (fun k => (kdfCk C k).1)^[n] ck

/-- The message key at position `n` of the chain that starts at `ck`. -/
def mkAt (ck : C.Key) (n : Nat) : C.Key := (kdfCk C (ckAt C ck n)).2

@[simp] theorem ckAt_zero (ck : C.Key) : ckAt C ck 0 = ck := rfl

theorem ckAt_succ (ck : C.Key) (n : Nat) : ckAt C ck (n + 1) = (kdfCk C (ckAt C ck n)).1 :=
  Function.iterate_succ_apply' _ _ _

theorem ckAt_add (ck : C.Key) (m n : Nat) : ckAt C ck (m + n) = ckAt C (ckAt C ck m) n := by
  unfold ckAt
  rw [Nat.add_comm, Function.iterate_add_apply]

theorem mkAt_add (ck : C.Key) (m n : Nat) : mkAt C ck (m + n) = mkAt C (ckAt C ck m) n := by
  unfold mkAt
  rw [ckAt_add]

end Chain

namespace DoubleRatchet

variable {C : Crypto} {K : Type}

/-! ## Trimming -/

theorem trimLoop_entries {max fuel : Nat} {m : IndexMap (PublicKey × UInt32) K}
    (h : m.len - max ≤ fuel) : (trimLoop max fuel m).entries = m.entries.drop (m.len - max) := by
  induction fuel generalizing m with
  | zero => simp [trimLoop, show m.len - max = 0 by omega]
  | succ fuel ih =>
    unfold trimLoop
    split
    · next hlt =>
      have hlen := m.len_shiftRemoveFirst
      rw [ih (by omega), hlen]
      show m.entries.tail.drop _ = _
      rw [← List.drop_one, List.drop_drop]
      congr 1
      omega
    · next hge => simp [show m.len - max = 0 by omega]

theorem trimSkipped_entries (r : DoubleRatchet K) :
    (trimSkipped r).skipped.entries = r.skipped.entries.drop (r.skipped.len - r.maxSkipped) :=
  trimLoop_entries (Nat.sub_le _ _)

theorem mem_of_mem_trimSkipped {r : DoubleRatchet K} {e : (PublicKey × UInt32) × K}
    (h : e ∈ (trimSkipped r).skipped.entries) : e ∈ r.skipped.entries := by
  rw [trimSkipped_entries] at h
  exact List.mem_of_mem_drop h

/-! ## Skipping -/

theorem skipLoop_fst (dhr : PublicKey) (count : Nat) (ck : C.Key) (nr : UInt32)
    (sk : IndexMap (PublicKey × UInt32) C.Key) :
    (skipLoop C dhr count ck nr sk).1 = ckAt C ck count := by
  induction count generalizing ck nr sk with
  | zero => rfl
  | succ count ih =>
    rw [skipLoop, ih]
    rfl

theorem skipLoop_nr (dhr : PublicKey) (count : Nat) (ck : C.Key) (nr : UInt32)
    (sk : IndexMap (PublicKey × UInt32) C.Key) :
    (skipLoop C dhr count ck nr sk).2.1 = nr + UInt32.ofNat count := by
  induction count generalizing ck nr sk with
  | zero => simp [skipLoop]
  | succ count ih =>
    rw [skipLoop, ih, UInt32.ofNat_add, UInt32.add_assoc, UInt32.add_comm 1]
    rfl

theorem ofNat_zero : UInt32.ofNat 0 = 0 := rfl

/-- Every key in the table after the loop is an old one or one of the skipped positions'. -/
theorem mem_skipLoop {dhr : PublicKey} {count : Nat} {ck : C.Key} {nr : UInt32}
    {sk : IndexMap (PublicKey × UInt32) C.Key} {e : (PublicKey × UInt32) × C.Key}
    (h : e ∈ (skipLoop C dhr count ck nr sk).2.2.entries) :
    e ∈ sk.entries ∨ ∃ j < count, e = ((dhr, nr + UInt32.ofNat j), mkAt C ck j) := by
  induction count generalizing ck nr sk with
  | zero => exact .inl h
  | succ count ih =>
    rcases ih h with h | ⟨j, hj, rfl⟩
    · rcases IndexMap.mem_insert.mp h with rfl | ⟨h, -⟩
      · exact .inr ⟨0, by omega, by rw [ofNat_zero, UInt32.add_zero]; rfl⟩
      · exact .inl h
    · refine .inr ⟨j + 1, by omega, ?_⟩
      rw [UInt32.ofNat_add, Nat.add_comm j 1, mkAt_add, UInt32.add_assoc, UInt32.add_comm 1]
      rfl

/-- A label that the loop does not write keeps its key. -/
theorem mem_skipLoop_of_mem {dhr : PublicKey} {count : Nat} {ck : C.Key} {nr : UInt32}
    {sk : IndexMap (PublicKey × UInt32) C.Key} {e : (PublicKey × UInt32) × C.Key}
    (he : e ∈ sk.entries) (hne : ∀ j < count, e.1 ≠ (dhr, nr + UInt32.ofNat j)) :
    e ∈ (skipLoop C dhr count ck nr sk).2.2.entries := by
  induction count generalizing ck nr sk with
  | zero => exact he
  | succ count ih =>
    apply ih
    · refine IndexMap.mem_insert.mpr (.inr ⟨he, ?_⟩)
      have h0 := hne 0 (by omega)
      rwa [ofNat_zero, UInt32.add_zero] at h0
    · intro j hj heq
      apply hne (j + 1) (by omega)
      rw [heq, UInt32.ofNat_add, UInt32.add_assoc, UInt32.add_comm 1]
      rfl

/-- The label `nr + j` is not one of the later labels of a loop of at most `2 ^ 32` rounds. -/
theorem label_ne {nr : UInt32} {j i : Nat} (hji : j < i) (hi : i < 2 ^ 32) :
    nr + UInt32.ofNat j ≠ nr + UInt32.ofNat i := by
  intro h
  have h' := congrArg UInt32.toNat ((UInt32.add_right_inj nr).mp h)
  simp only [UInt32.toNat_ofNat'] at h'
  omega

/-- The keys the loop stores are in the table after it. -/
theorem mem_skipLoop_new {dhr : PublicKey} {count : Nat} {ck : C.Key} {nr : UInt32}
    {sk : IndexMap (PublicKey × UInt32) C.Key} (hc : count ≤ 2 ^ 32) {j : Nat} (hj : j < count) :
    ((dhr, nr + UInt32.ofNat j), mkAt C ck j) ∈ (skipLoop C dhr count ck nr sk).2.2.entries := by
  induction count generalizing ck nr sk j with
  | zero => omega
  | succ count ih =>
    cases j with
    | zero =>
      rw [skipLoop]
      apply mem_skipLoop_of_mem
      · exact IndexMap.mem_insert.mpr (.inl (by rw [ofNat_zero, UInt32.add_zero]; rfl))
      · intro i hi heq
        have hlab := @label_ne nr 0 (i + 1) (by omega) (by omega)
        rw [UInt32.ofNat_add, UInt32.add_comm (UInt32.ofNat i), ← UInt32.add_assoc] at hlab
        exact hlab (Prod.mk.inj heq).2
    | succ j =>
      have h := @ih (kdfCk C ck).1 (nr + 1) (sk.insert (dhr, nr) (kdfCk C ck).2) (by omega) j
        (by omega)
      rw [UInt32.add_assoc, UInt32.add_comm 1] at h
      rw [UInt32.ofNat_add, Nat.add_comm j 1, mkAt_add]
      exact h

/-- The table of `skip_message_keys` before it is trimmed. -/
def skipTable (C : Crypto) (dhr : PublicKey) (ck : C.Key) (stop : UInt32)
    (r : DoubleRatchet C.Key) : IndexMap (PublicKey × UInt32) C.Key :=
  (skipLoop C dhr (stop.toNat - r.nr.toNat) ck r.nr r.skipped).2.2

/-- The state of `skip_message_keys` before the table is trimmed. -/
def skipTo (C : Crypto) (dhr : PublicKey) (ck : C.Key) (stop : UInt32) (r : DoubleRatchet C.Key) :
    DoubleRatchet C.Key :=
  { r with
    ckr := some (ckAt C ck (stop.toNat - r.nr.toNat))
    nr := r.nr + UInt32.ofNat (stop.toNat - r.nr.toNat)
    skipped := skipTable C dhr ck stop r }

theorem saturatingAdd_lt {a b stop : UInt32} :
    saturatingAdd a b < stop ↔ a.toNat + b.toNat < stop.toNat := by
  have hs := stop.toNat_lt
  unfold saturatingAdd
  rw [UInt32.lt_iff_toNat_lt]
  split
  · next h => rw [UInt32.toNat_add, Nat.mod_eq_of_lt h]
  · next h =>
    have : (0xFFFFFFFF : UInt32).toNat = 2 ^ 32 - 1 := rfl
    omega

/-- `skip_message_keys` once a receiving chain exists. -/
theorem skipMessageKeys_eq {r : DoubleRatchet C.Key} {dhr : PublicKey} {ck : C.Key}
    (hd : r.dhr = some dhr) (hc : r.ckr = some ck) (stop : UInt32) :
    skipMessageKeys C stop r =
      if saturatingAdd r.nr maxSkip < stop then (.error (.error .skipLimit), r)
      else (.ok (), trimSkipped (skipTo C dhr ck stop r)) := by
  unfold skipMessageKeys
  split
  · rfl
  · simp only [hc, hd]
    split
    · rw [skipLoop_fst, skipLoop_nr]
      unfold skipTo skipTable
      rw [hd]
    · next hge =>
      have h0 : stop.toNat - r.nr.toNat = 0 := by
        have := UInt32.lt_iff_toNat_lt.not.mp hge
        omega
      have hr : skipTo C dhr ck stop r = r := by
        simp only [skipTo, skipTable, h0, skipLoop, ckAt_zero, ofNat_zero, UInt32.add_zero]
        rw [← hc]
      rw [hr]

/-- `skip_message_keys` before a receiving chain exists only checks the limit. -/
theorem skipMessageKeys_none {r : DoubleRatchet C.Key} (hc : r.ckr = none) (stop : UInt32) :
    skipMessageKeys C stop r =
      if saturatingAdd r.nr maxSkip < stop then (.error (.error .skipLimit), r) else (.ok (), r) := by
  unfold skipMessageKeys
  rw [hc]

/-- Skipping changes neither the root key nor our DH key. -/
theorem skipMessageKeys_frame {r r' : DoubleRatchet C.Key} {stop : UInt32}
    (h : skipMessageKeys C stop r = (.ok (), r')) : r'.rk = r.rk ∧ r'.dhs = r.dhs := by
  unfold skipMessageKeys at h
  split at h
  · cases h
  · split at h
    · cases h; exact ⟨rfl, rfl⟩
    · split at h
      · split at h
        · cases h
        · cases h; exact ⟨rfl, rfl⟩
      · cases h; exact ⟨rfl, rfl⟩

/-! ## No function changes `max_skipped` -/

theorem skipMessageKeys_maxSkipped (stop : UInt32) (r : DoubleRatchet C.Key) :
    (skipMessageKeys C stop r).2.maxSkipped = r.maxSkipped := by
  unfold skipMessageKeys
  split
  · rfl
  · split
    · rfl
    · split
      · split <;> rfl
      · rfl

theorem switchChain_maxSkipped (header : Header) (fresh : StaticSecret) (r : DoubleRatchet C.Key) :
    (switchChain C header fresh r).2.maxSkipped = r.maxSkipped := by
  have h := skipMessageKeys_maxSkipped header.pn r
  unfold switchChain
  split
  · rfl
  · split
    · next hs => rw [hs] at h; exact h
    · next hs => rw [hs] at h; exact h

theorem takeMessageKey_maxSkipped (r : DoubleRatchet C.Key) :
    (takeMessageKey C r).2.maxSkipped = r.maxSkipped := by
  unfold takeMessageKey
  split <;> rfl

theorem decryptInner_maxSkipped (header : Header) (ct ad : Bytes) (fresh : StaticSecret)
    (r : DoubleRatchet C.Key) : (decryptInner C header ct ad fresh r).2.maxSkipped = r.maxSkipped := by
  unfold decryptInner
  dsimp only
  split
  · rfl
  · have h1 := switchChain_maxSkipped header fresh r
    split
    · next hs => rw [hs] at h1; exact h1
    · next r1 hs =>
      rw [hs] at h1
      have h2 := skipMessageKeys_maxSkipped header.n r1
      split
      · next hk => rw [hk] at h2; exact h2.trans h1
      · next r2 hk =>
        rw [hk] at h2
        have h3 := takeMessageKey_maxSkipped r2
        split
        · next ht => rw [ht] at h3; exact (h3.trans h2).trans h1
        · next ht => rw [ht] at h3; exact (h3.trans h2).trans h1

/-! ## `encrypt` -/

/-- The ratchet after `encrypt` at the chain key `ck`, whether or not the AEAD fails. -/
def advanceSend (C : Crypto) (ck : C.Key) (r : DoubleRatchet C.Key) : DoubleRatchet C.Key :=
  { r with cks := some (kdfCk C ck).1, ns := r.ns + 1 }

/-- The header of the next message. -/
def nextHeader (C : Crypto) (r : DoubleRatchet C.Key) : Header :=
  { dh := r.ourDhPublic C, pn := r.pn, n := r.ns }

theorem encrypt_eq {r : DoubleRatchet C.Key} {ck : C.Key} (h : r.cks = some ck) (pt ad : Bytes)
    (nonce : Nonce) :
    r.encrypt C pt ad nonce =
      (liftErr ((aeadEncrypt C (kdfCk C ck).2 nonce pt (concatAd ad (r.nextHeader C).toBytes)).map
        fun ct => (r.nextHeader C, ct)), r.advanceSend C ck) := by
  unfold encrypt
  rw [h]
  dsimp only
  unfold nextHeader
  split
  · next he => rw [he]; rfl
  · next he => rw [he]; rfl

theorem encrypt_none {r : DoubleRatchet C.Key} (h : r.cks = none) (pt ad : Bytes) (nonce : Nonce) :
    r.encrypt C pt ad nonce = (.error (.error .notInitialized), r) := by
  unfold encrypt
  rw [h]

/-! ## `decrypt` -/

/-- Putting a snapshot of `r` back into a state with the same capacity gives `r`. -/
theorem restore_snapshot {r r' : DoubleRatchet K} (h : r'.maxSkipped = r.maxSkipped) :
    r'.restore r.snapshot = r := by
  unfold restore snapshot
  rw [h]

/-- **Rollback.** A decrypt that returns an error changes no field of the ratchet. -/
theorem decrypt_error_state {header : Header} {ct ad : Bytes} {fresh : StaticSecret}
    {r r' : DoubleRatchet C.Key} {e : RatchetError}
    (h : decrypt C header ct ad fresh r = (.error (.error e), r')) : r' = r := by
  unfold decrypt at h
  have hm := decryptInner_maxSkipped (C := C) header ct ad fresh r
  split at h
  · cases h
  · next r₁ hi =>
    rw [hi] at hm
    cases h
    exact restore_snapshot hm
  · cases h

theorem skipMessageKeys_not_panic {stop : UInt32} {r r' : DoubleRatchet C.Key} {msg : String}
    (hd : r.ckr.isSome → r.dhr.isSome) :
    skipMessageKeys C stop r ≠ (.error (.panic msg), r') := by
  intro h
  cases hc : r.ckr with
  | none =>
    rw [skipMessageKeys_none hc] at h
    split at h <;> cases h
  | some ck =>
    obtain ⟨dhr, hdhr⟩ := Option.isSome_iff_exists.mp (hd (by rw [hc]; rfl))
    rw [skipMessageKeys_eq hdhr hc] at h
    split at h <;> cases h

/-- The `expect` of `skip_message_keys` does not fail: a receiving chain has a peer key. -/
theorem decrypt_not_panic {header : Header} {ct ad : Bytes} {fresh : StaticSecret}
    {r r' : DoubleRatchet C.Key} {msg : String} (hd : r.ckr.isSome → r.dhr.isSome) :
    decrypt C header ct ad fresh r ≠ (.error (.panic msg), r') := by
  intro h
  unfold decrypt at h
  split at h
  · cases h
  · cases h
  · next hi =>
    unfold decryptInner at hi
    dsimp only at hi
    split at hi
    · obtain ⟨h1, -⟩ := Prod.mk.inj hi
      unfold liftErr at h1
      split at h1 <;> cases h1
    · split at hi
      · -- Closing the old chain.
        next e r₁ hsw =>
        unfold switchChain at hsw
        split at hsw
        · cases hsw
        · split at hsw
          · next hk =>
            cases hsw
            cases hi
            exact skipMessageKeys_not_panic hd hk
          · cases hsw
      · next r₁ hsw =>
        -- Now the peer's key is the message's.
        have hd₁ : r₁.dhr.isSome := by
          unfold switchChain at hsw
          split at hsw
          · next he => cases hsw; rw [he]; rfl
          · split at hsw
            · cases hsw
            · cases hsw; rfl
        split at hi
        · next hk =>
          cases hi
          exact skipMessageKeys_not_panic (fun _ => hd₁) hk
        · next r₂ hk =>
          unfold takeMessageKey at hi
          cases hck : r₂.ckr with
          | none => rw [hck] at hi; cases hi
          | some ck =>
            rw [hck] at hi
            obtain ⟨h1, -⟩ := Prod.mk.inj hi
            unfold liftErr at h1
            split at h1 <;> cases h1

/-- The key with which a decrypt of a message with `header` calls the AEAD, if it gets that far. -/
def messageKey (C : Crypto) (header : Header) (fresh : StaticSecret) (r : DoubleRatchet C.Key) :
    Option C.Key :=
  match r.skipped.get? (header.dh, header.n) with
  | some key => some key
  | none =>
    match switchChain C header fresh r with
    | (.error _, _) => none
    | (.ok (), r) =>
      match skipMessageKeys C header.n r with
      | (.error _, _) => none
      | (.ok (), r) => r.ckr.map fun ck => (kdfCk C ck).2

/-- The state after the chain of the current position was used up to and including it. -/
def advanceRecv (C : Crypto) (ck : C.Key) (r : DoubleRatchet C.Key) : DoubleRatchet C.Key :=
  { r with ckr := some (kdfCk C ck).1, nr := r.nr + 1 }

theorem liftErr_ok {α : Type} {x : Except RatchetError α} {a : α} (h : liftErr x = .ok a) :
    x = .ok a := by
  cases x with
  | ok b => cases h; rfl
  | error e => cases h

theorem decrypt_of_inner_ok {header : Header} {ct ad pt : Bytes} {fresh : StaticSecret}
    {r r' : DoubleRatchet C.Key} :
    decrypt C header ct ad fresh r = (.ok pt, r') ↔
      decryptInner C header ct ad fresh r = (.ok pt, r') := by
  unfold decrypt
  constructor
  · intro h
    split at h
    · next hi => cases h; exact hi
    · cases h
    · cases h
  · intro h
    rw [h]

/-- **Inversion of a successful decrypt**: through a stored key, or through the receiving chain. -/
theorem decrypt_ok {header : Header} {ct ad pt : Bytes} {fresh : StaticSecret}
    {r r' : DoubleRatchet C.Key} (h : decrypt C header ct ad fresh r = (.ok pt, r')) :
    (∃ key, r.skipped.get? (header.dh, header.n) = some key ∧
      aeadDecrypt C key ct (concatAd ad header.toBytes) = .ok pt ∧
      r' = { r with skipped := (r.skipped.swapRemove (header.dh, header.n)).2 }) ∨
    (r.skipped.get? (header.dh, header.n) = none ∧ ∃ r₁ r₂ ck,
      switchChain C header fresh r = (.ok (), r₁) ∧ skipMessageKeys C header.n r₁ = (.ok (), r₂) ∧
      r₂.ckr = some ck ∧ aeadDecrypt C (kdfCk C ck).2 ct (concatAd ad header.toBytes) = .ok pt ∧
      r' = advanceRecv C ck r₂) := by
  rw [decrypt_of_inner_ok] at h
  unfold decryptInner at h
  dsimp only at h
  have hf := r.skipped.swapRemove_fst (header.dh, header.n)
  split at h
  · next key sk hs =>
    rw [hs] at hf
    obtain ⟨h1, rfl⟩ := Prod.mk.inj h
    exact .inl ⟨key, hf.symm, liftErr_ok h1, by rw [hs]⟩
  · next hs =>
    rw [hs] at hf
    refine .inr ⟨hf.symm, ?_⟩
    split at h
    · cases h
    · next r₁ hsw =>
      split at h
      · cases h
      · next r₂ hsk =>
        unfold takeMessageKey at h
        cases hck : r₂.ckr with
        | none => rw [hck] at h; cases h
        | some ck =>
          rw [hck] at h
          obtain ⟨h1, rfl⟩ := Prod.mk.inj h
          exact ⟨r₁, r₂, ck, hsw, hsk, hck, liftErr_ok h1, rfl⟩

/-- A successful decrypt called the AEAD with `messageKey`. -/
theorem decrypt_ok_key {header : Header} {ct ad pt : Bytes} {fresh : StaticSecret}
    {r r' : DoubleRatchet C.Key} (h : decrypt C header ct ad fresh r = (.ok pt, r')) :
    ∃ key, messageKey C header fresh r = some key ∧
      aeadDecrypt C key ct (concatAd ad header.toBytes) = .ok pt := by
  rcases decrypt_ok h with ⟨key, hg, ha, -⟩ | ⟨hg, r₁, r₂, ck, hsw, hsk, hck, ha, -⟩
  · exact ⟨key, by simp [messageKey, hg], ha⟩
  · exact ⟨_, by simp [messageKey, hg, hsw, hsk, hck], ha⟩

/-- A decrypt succeeds if the AEAD does under `messageKey`. -/
theorem decrypt_of_key {header : Header} {ct ad pt : Bytes} {fresh : StaticSecret}
    {r : DoubleRatchet C.Key} {key : C.Key} (hk : messageKey C header fresh r = some key)
    (ha : aeadDecrypt C key ct (concatAd ad header.toBytes) = .ok pt) :
    ∃ r', decrypt C header ct ad fresh r = (.ok pt, r') := by
  simp only [decrypt_of_inner_ok]
  unfold messageKey at hk
  unfold decryptInner
  dsimp only
  have hf := r.skipped.swapRemove_fst (header.dh, header.n)
  cases hs : r.skipped.swapRemove (header.dh, header.n) with
  | mk stored sk =>
    rw [hs] at hf
    rw [← hf] at hk
    cases stored with
    | some k =>
      cases hk
      exact ⟨_, by dsimp only; rw [ha]; rfl⟩
    | none =>
      dsimp only at hk ⊢
      match hsw : switchChain C header fresh r with
      | (.error e, r₁) =>
        rw [hsw] at hk
        cases hk
      | (.ok (), r₁) =>
        rw [hsw] at hk
        dsimp only at hk ⊢
        match hsk : skipMessageKeys C header.n r₁ with
        | (.error e, r₂) =>
          rw [hsk] at hk
          cases hk
        | (.ok (), r₂) =>
          rw [hsk] at hk
          obtain ⟨ck, hck, rfl⟩ := Option.map_eq_some_iff.mp hk
          have ht : takeMessageKey C r₂ = (.ok (kdfCk C ck).2, advanceRecv C ck r₂) := by
            unfold takeMessageKey
            rw [hck]
            rfl
          dsimp only
          rw [ht]
          exact ⟨_, by dsimp only; rw [ha]; rfl⟩

/-! ## What a session sees of a step -/

/-- Skipping does not touch the sending side. -/
theorem skipMessageKeys_sending {r r' : DoubleRatchet C.Key} {stop : UInt32}
    (h : skipMessageKeys C stop r = (.ok (), r')) :
    r'.dhs = r.dhs ∧ r'.dhr = r.dhr ∧ r'.cks = r.cks ∧ r'.ns = r.ns := by
  unfold skipMessageKeys at h
  split at h
  · cases h
  · split at h
    · cases h; exact ⟨rfl, rfl, rfl, rfl⟩
    · split at h
      · split at h
        · cases h
        · next hd => cases h; exact ⟨rfl, rfl, rfl, rfl⟩
      · cases h; exact ⟨rfl, rfl, rfl, rfl⟩

/-- A successful decrypt leaves the sending side alone, or starts a new sending chain because the
peer has a new DH key. -/
theorem decrypt_sending {header : Header} {ct ad pt : Bytes} {fresh : StaticSecret}
    {r r' : DoubleRatchet C.Key} (h : decrypt C header ct ad fresh r = (.ok pt, r')) :
    (r'.dhs = r.dhs ∧ r'.dhr = r.dhr ∧ r'.cks = r.cks ∧ r'.ns = r.ns) ∨
      (r.dhr ≠ some header.dh ∧ r'.dhr = some header.dh ∧ r'.dhs = fresh ∧ r'.cks.isSome ∧
        r'.ns = 0) := by
  rcases decrypt_ok h with ⟨key, -, -, rfl⟩ | ⟨-, r₁, r₂, ck, hsw, hsk, -, -, rfl⟩
  · exact .inl ⟨rfl, rfl, rfl, rfl⟩
  · obtain ⟨h1, h2, h3, h4⟩ := skipMessageKeys_sending hsk
    unfold switchChain at hsw
    split at hsw
    · cases hsw
      exact .inl ⟨h1, h2, h3, h4⟩
    · next hd =>
      split at hsw
      · cases hsw
      · cases hsw
        refine .inr ⟨hd, h2, h1, ?_, h4⟩
        show r₂.cks.isSome
        rw [h3]
        rfl

/-- After a successful decrypt there is a receiving chain, if skipped keys imply one. -/
theorem decrypt_receiving {header : Header} {ct ad pt : Bytes} {fresh : StaticSecret}
    {r r' : DoubleRatchet C.Key} (h : decrypt C header ct ad fresh r = (.ok pt, r'))
    (hr : r.ckr = none → r.skipped.len = 0) : r'.ckr.isSome := by
  rcases decrypt_ok h with ⟨key, hg, -, rfl⟩ | ⟨-, r₁, r₂, ck, -, -, -, -, rfl⟩
  · by_contra hn
    have hlen := hr (Option.not_isSome_iff_eq_none.mp hn)
    have hm := IndexMap.get?_eq_some.mp hg
    rw [List.length_eq_zero_iff.mp hlen] at hm
    cases hm
  · rfl

/-- A successful encrypt takes the next position of the sending chain. -/
theorem encrypt_ok {r r' : DoubleRatchet C.Key} {pt ad : Bytes} {nonce : Nonce}
    {out : Header × Bytes} (h : encrypt C pt ad nonce r = (.ok out, r')) :
    ∃ ck, r.cks = some ck ∧ out.1 = r.nextHeader C ∧ r' = r.advanceSend C ck ∧
      aeadEncrypt C (kdfCk C ck).2 nonce pt (concatAd ad (r.nextHeader C).toBytes) = .ok out.2 := by
  cases hc : r.cks with
  | none =>
    rw [encrypt_none hc] at h
    cases h
  | some ck =>
    rw [encrypt_eq hc] at h
    obtain ⟨h1, rfl⟩ := Prod.mk.inj h
    have h1 := liftErr_ok h1
    cases ha : aeadEncrypt C (kdfCk C ck).2 nonce pt (concatAd ad (r.nextHeader C).toBytes) with
    | error e =>
      rw [ha] at h1
      cases h1
    | ok ct =>
      rw [ha] at h1
      cases h1
      exact ⟨ck, rfl, rfl, rfl, ha⟩

end DoubleRatchet

end Arcium
