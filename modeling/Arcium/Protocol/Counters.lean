import Arcium.Protocol.Checkpoint
import Arcium.Crypto.RatchetSpec

/-!
# Counters and checkpoints (`core-crypto/src/ratchet.rs`, `core-crypto/src/ratchet/checkpoint.rs`)

* `Shaped`: the structural rules of `check_state`. Every call keeps them (`encrypt_shaped`,
  `decrypt_shaped`), so what a call leaves is accepted by `to_checkpoint` unless a counter is
  exhausted (`Shaped.continues`), and no run meets the `expect` of `skip_message_keys`
  (`checkpointed`).
* `debugEncrypt`, `debugDecrypt`: the calls with the arithmetic of a debug build, where `+= 1`
  panics on overflow, and with `while` loops that may take `MAX_SKIP` rounds at most. From a state
  that `check_state` accepts they are the calls of `Arcium/Crypto/Ratchet.lean`, and
  `MAX_RESUMABLE_NR` is the largest bound on `nr` for which that holds (`counters_safe`).
-/

namespace Arcium

namespace DoubleRatchet

variable {C : Crypto} {K : Type}

/-! ## The structural rules -/

/-- The rules of `check_state` about presence and size: every rule but the counters' limits. -/
structure Shaped (r : DoubleRatchet K) : Prop where
  capacity : r.maxSkipped = 2000
  dhr_of_ckr : r.ckr.isSome → r.dhr.isSome
  cks_of_dhr : r.dhr.isSome → r.cks.isSome
  dhr_of_cks : r.cks.isSome → r.dhr.isSome
  no_recv : r.ckr = none → r.nr = 0 ∧ r.pn = 0 ∧ r.skipped.len = 0
  no_send : r.cks = none → r.ns = 0
  skipped : r.skipped.len ≤ 2000

/-- What `check_state` accepts with `bound` in the place of `MAX_RESUMABLE_NR`. -/
structure ResumableUpTo (bound : UInt32) (r : DoubleRatchet K) : Prop where
  shaped : r.Shaped
  ns : r.ns ≠ 0xFFFFFFFF
  nr : r.nr ≤ bound

theorem resumable_iff {r : DoubleRatchet K} : r.Resumable ↔ r.ResumableUpTo maxResumableNr := by
  constructor
  · rintro ⟨h1, h2, h3, h4, h5, h6, h7, h8, h9⟩
    exact ⟨⟨h1, h2, h3, h4, h5, h6, h7⟩, h8, h9⟩
  · rintro ⟨⟨h1, h2, h3, h4, h5, h6, h7⟩, h8, h9⟩
    exact ⟨h1, h2, h3, h4, h5, h6, h7, h8, h9⟩

/-- `to_checkpoint` accepts the state, or refuses it because a counter is exhausted. -/
def Continues (r : DoubleRatchet K) : Prop :=
  r.toCheckpoint = .ok r ∨ ∃ field, r.toCheckpoint = .error (.counterExhausted field)

theorem Shaped.continues {r : DoubleRatchet K} (h : r.Shaped) : r.Continues := by
  obtain ⟨h1, h2, h3, h4, h5, h6, h7⟩ := h
  unfold Continues toCheckpoint checkState
  simp only [bind, Except.bind, pure, Except.pure, throw, throwThe, MonadExceptOf.throw]
  obtain ⟨dhs, dhr, rk, cks, ckr, ns, nr, pn, skipped, maxSkipped⟩ := r
  cases dhr <;> cases cks <;> cases ckr <;> simp_all [maxSkippedKeys]
  · split_ifs <;> simp_all
  · rw [if_neg (Nat.not_lt.mpr h7)]
    split_ifs <;> simp_all

theorem trimSkipped_len (r : DoubleRatchet K) :
    (trimSkipped r).skipped.len = min r.skipped.len r.maxSkipped := by
  show (trimSkipped r).skipped.entries.length = _
  rw [trimSkipped_entries, List.length_drop]
  show r.skipped.len - (r.skipped.len - r.maxSkipped) = _
  omega

theorem initAlice_shaped (sk : C.Key) (their : PublicKey) (dhs : StaticSecret) :
    (initAlice C sk their dhs).Shaped := by
  constructor <;> simp [initAlice, IndexMap.len]

theorem initBob_shaped (sk : C.Key) (our : StaticSecret) : (initBob C sk our).Shaped := by
  constructor <;> simp [initBob, IndexMap.len]

theorem encrypt_shaped {r : DoubleRatchet C.Key} (h : r.Shaped) (pt ad : Bytes) (nonce : Nonce) :
    (encrypt C pt ad nonce r).2.Shaped := by
  cases hc : r.cks with
  | none => rwa [encrypt_none hc]
  | some ck =>
    rw [encrypt_eq hc]
    have hs : r.cks.isSome := by rw [hc]; rfl
    exact ⟨h.capacity, h.dhr_of_ckr, fun _ => rfl, fun _ => h.dhr_of_cks hs, h.no_recv,
      fun hn => absurd hn (Option.some_ne_none _), h.skipped⟩

/-- Skipping keeps the rules: it adds keys only to a receiving chain, and trims. -/
theorem skipMessageKeys_shaped {r r' : DoubleRatchet C.Key} {stop : UInt32} (h : r.Shaped)
    (hs : skipMessageKeys C stop r = (.ok (), r')) :
    r'.Shaped ∧ r'.ckr.isSome = r.ckr.isSome ∧ r'.dhr = r.dhr := by
  cases hc : r.ckr with
  | none =>
    rw [skipMessageKeys_none hc] at hs
    split at hs <;> cases hs
    exact ⟨h, by rw [hc], rfl⟩
  | some ck =>
    obtain ⟨dhr, hd⟩ := Option.isSome_iff_exists.mp (h.dhr_of_ckr (by rw [hc]; rfl))
    rw [skipMessageKeys_eq hd hc] at hs
    split at hs <;> cases hs
    refine ⟨⟨h.capacity, fun _ => ?_, h.cks_of_dhr, h.dhr_of_cks,
      fun hn => absurd hn (Option.some_ne_none _), h.no_send, ?_⟩, rfl, rfl⟩
    · show r.dhr.isSome
      rw [hd]; rfl
    · rw [trimSkipped_len]
      exact Nat.le_trans (Nat.min_le_right _ _) (Nat.le_of_eq h.capacity)

/-- After a step of the DH ratchet there are both chains. -/
theorem dhRatchetStep_shaped {r : DoubleRatchet C.Key} (h : r.Shaped) (dh : PublicKey)
    (fresh : StaticSecret) : (dhRatchetStep C dh fresh r).Shaped :=
  ⟨h.capacity, fun _ => rfl, fun _ => rfl, fun _ => rfl,
    fun hn => absurd hn (Option.some_ne_none _), fun hn => absurd hn (Option.some_ne_none _),
    h.skipped⟩

theorem switchChain_shaped {r r' : DoubleRatchet C.Key} {header : Header} {fresh : StaticSecret}
    (h : r.Shaped) (hs : switchChain C header fresh r = (.ok (), r')) : r'.Shaped := by
  unfold switchChain at hs
  split at hs
  · cases hs; exact h
  · split at hs
    · cases hs
    · next hk =>
      cases hs
      exact dhRatchetStep_shaped (skipMessageKeys_shaped h hk).1 _ _

theorem swapRemove_shaped {r : DoubleRatchet C.Key} (h : r.Shaped) (k : PublicKey × UInt32) :
    { r with skipped := (r.skipped.swapRemove k).2 }.Shaped := by
  have hl := r.skipped.len_swapRemove_le k
  refine ⟨h.capacity, h.dhr_of_ckr, h.cks_of_dhr, h.dhr_of_cks, fun hc => ?_, h.no_send, ?_⟩
  · obtain ⟨h1, h2, h3⟩ := h.no_recv hc
    exact ⟨h1, h2, by show (r.skipped.swapRemove k).2.len = 0; omega⟩
  · exact Nat.le_trans hl h.skipped

theorem advanceRecv_shaped {r : DoubleRatchet C.Key} {ck : C.Key} (h : r.Shaped)
    (hc : r.ckr = some ck) : (advanceRecv C ck r).Shaped :=
  ⟨h.capacity, fun _ => h.dhr_of_ckr (by rw [hc]; rfl), h.cks_of_dhr, h.dhr_of_cks,
    fun hn => absurd hn (Option.some_ne_none _), h.no_send, h.skipped⟩

theorem decrypt_shaped {r : DoubleRatchet C.Key} (h : r.Shaped) (header : Header) (ct ad : Bytes)
    (fresh : StaticSecret) : (decrypt C header ct ad fresh r).2.Shaped := by
  match hd : decrypt C header ct ad fresh r with
  | (.ok pt, r') =>
    rcases decrypt_ok hd with ⟨key, -, -, rfl⟩ | ⟨-, r₁, r₂, ck, hsw, hsk, hck, -, rfl⟩
    · exact swapRemove_shaped h _
    · exact advanceRecv_shaped (skipMessageKeys_shaped (switchChain_shaped h hsw) hsk).1 hck
  | (.error (.error e), r') => rwa [decrypt_error_state hd]
  | (.error (.panic msg), r') => exact absurd hd (decrypt_not_panic h.dhr_of_ckr)

/-! ## Runs of checkpointed calls -/

theorem zero_ne_max : (0 : UInt32) ≠ 0xFFFFFFFF := by decide

variable (C) in
/-- The states a durable session goes through: a call, then a `to_checkpoint` that succeeds. -/
inductive Checkpointed : DoubleRatchet C.Key → Prop
  | alice (sk : C.Key) (their : PublicKey) (dhs : StaticSecret) :
    Checkpointed (initAlice C sk their dhs)
  | bob (sk : C.Key) (our : StaticSecret) : Checkpointed (initBob C sk our)
  | encrypt {r r' : DoubleRatchet C.Key} (pt ad : Bytes) (nonce : Nonce) (h : Checkpointed r)
      (hc : (encrypt C pt ad nonce r).2.toCheckpoint = .ok r') : Checkpointed r'
  | decrypt {r r' : DoubleRatchet C.Key} (header : Header) (ct ad : Bytes) (fresh : StaticSecret)
      (h : Checkpointed r) (hc : (decrypt C header ct ad fresh r).2.toCheckpoint = .ok r') :
      Checkpointed r'

theorem Checkpointed.resumable {r : DoubleRatchet C.Key} (h : Checkpointed C r) : r.Resumable := by
  induction h with
  | alice sk their dhs =>
    exact resumable_iff.mpr ⟨initAlice_shaped sk their dhs, zero_ne_max, UInt32.zero_le⟩
  | bob sk our => exact resumable_iff.mpr ⟨initBob_shaped sk our, zero_ne_max, UInt32.zero_le⟩
  | encrypt pt ad nonce h hc ih =>
    obtain rfl := toCheckpoint_eq hc
    exact toCheckpoint_resumable hc
  | decrypt header ct ad fresh h hc ih =>
    obtain rfl := toCheckpoint_eq hc
    exact toCheckpoint_resumable hc

/-- **Reachable ratchets are checkpointable.** Whatever call comes next, the state it leaves keeps
the structural rules, so its `to_checkpoint` fails only with `CounterExhausted`, and no skipped key
is there twice; and the `expect` of `skip_message_keys` is not met with `None`. -/
theorem checkpointed {r : DoubleRatchet C.Key} (h : Checkpointed C r) :
    (r.toCheckpoint = .ok r ∧ r.Shaped ∧ (r.skipped.entries.map Prod.fst).Nodup) ∧
    (∀ pt ad nonce, (encrypt C pt ad nonce r).2.Shaped ∧ (encrypt C pt ad nonce r).2.Continues) ∧
    ∀ header ct ad fresh, (decrypt C header ct ad fresh r).2.Shaped ∧
      (decrypt C header ct ad fresh r).2.Continues ∧
      ∀ msg, (decrypt C header ct ad fresh r).1 ≠ .error (.panic msg) := by
  have hr := h.resumable
  have hs := (resumable_iff.mp hr).shaped
  refine ⟨⟨toCheckpoint_of_resumable hr, hs, r.skipped.nodup⟩, fun pt ad nonce => ?_,
    fun header ct ad fresh => ?_⟩
  · have he := encrypt_shaped hs pt ad nonce
    exact ⟨he, he.continues⟩
  · have hd := decrypt_shaped hs header ct ad fresh
    exact ⟨hd, hd.continues, fun msg hp => decrypt_not_panic hs.dhr_of_ckr (Prod.ext hp rfl)⟩

/-- Alice after her first message, whatever Bob's next message is: here one that is not hers. -/
theorem checkpointed_sent :
    (decrypt symbolic Net.oneMessage.header Net.oneMessage.ciphertext [] (fill 4)
      (encrypt symbolic [7] [] (fillNonce 3)
        (initAlice symbolic (SymKey.root 0) (fill 2) (fill 1))).2).2.Continues :=
  ((checkpointed (.encrypt [7] [] (fillNonce 3) (.alice (SymKey.root 0) (fill 2) (fill 1)) rfl)).2.2
    _ _ _ _).2.1

/-! ## The debug build -/

/-- `n += 1` in a debug build: `none` is the panic of an overflow. -/
def checkedInc (n : UInt32) : Option UInt32 := if n = 0xFFFFFFFF then none else some (n + 1)

theorem checkedInc_eq {n : UInt32} (h : n ≠ 0xFFFFFFFF) : checkedInc n = some (n + 1) := if_neg h

section Debug

variable (C)

/-- The `while` of `skip_message_keys`, for at most `fuel` rounds: `none` when the counter
overflows, or when the loop wants another round. -/
def debugSkipLoop (dhr : PublicKey) (stop : UInt32) : (fuel : Nat) → (ck : C.Key) → (nr : UInt32) →
    IndexMap (PublicKey × UInt32) C.Key →
    Option (C.Key × UInt32 × IndexMap (PublicKey × UInt32) C.Key)
  | 0, ck, nr, skipped => if nr < stop then none else some (ck, nr, skipped)
  | fuel + 1, ck, nr, skipped =>
    if nr < stop then
      match checkedInc nr with
      | none => none
      | some next =>
        debugSkipLoop dhr stop fuel (kdfCk C ck).1 next (skipped.insert (dhr, nr) (kdfCk C ck).2)
    else some (ck, nr, skipped)

/-- `skip_message_keys` in a debug build, whose loop may take `MAX_SKIP` rounds. -/
def debugSkipMessageKeys (stop : UInt32) (r : DoubleRatchet C.Key) : Outcome C.Key Unit :=
  if saturatingAdd r.nr maxSkip < stop then (.error (.error .skipLimit), r)
  else
    match r.ckr with
    | none => (.ok (), r)
    | some ck =>
      if r.nr < stop then
        match r.dhr with
        | none => (.error (.panic "dhr set when ckr is"), { r with ckr := some (kdfCk C ck).1 })
        | some dhr =>
          match debugSkipLoop C dhr stop maxSkip.toNat ck r.nr r.skipped with
          | none => (.error (.panic "attempt to add with overflow"), r)
          | some s => (.ok (), trimSkipped { r with ckr := some s.1, nr := s.2.1, skipped := s.2.2 })
      else (.ok (), trimSkipped r)

def debugSwitchChain (header : Header) (fresh : StaticSecret) (r : DoubleRatchet C.Key) :
    Outcome C.Key Unit :=
  if r.dhr = some header.dh then (.ok (), r)
  else
    match debugSkipMessageKeys C header.pn r with
    | (.error e, r) => (.error e, r)
    | (.ok (), r) => (.ok (), dhRatchetStep C header.dh fresh r)

def debugTakeMessageKey (r : DoubleRatchet C.Key) : Outcome C.Key C.Key :=
  match r.ckr with
  | none => (.error (.error .notInitialized), r)
  | some ckr =>
    match checkedInc r.nr with
    | none => (.error (.panic "attempt to add with overflow"), r)
    | some next => (.ok (kdfCk C ckr).2, { r with ckr := some (kdfCk C ckr).1, nr := next })

/-- `decrypt_inner` in a debug build. -/
def debugDecryptInner (header : Header) (ciphertext ad : Bytes) (fresh : StaticSecret)
    (r : DoubleRatchet C.Key) : Outcome C.Key Bytes :=
  let fullAd := concatAd ad header.toBytes
  match r.skipped.swapRemove (header.dh, header.n) with
  | (some key, skipped) => (liftErr (aeadDecrypt C key ciphertext fullAd), { r with skipped })
  | (none, _) =>
    match debugSwitchChain C header fresh r with
    | (.error e, r) => (.error e, r)
    | (.ok (), r) =>
      match debugSkipMessageKeys C header.n r with
      | (.error e, r) => (.error e, r)
      | (.ok (), r) =>
        match debugTakeMessageKey C r with
        | (.error e, r) => (.error e, r)
        | (.ok key, r) => (liftErr (aeadDecrypt C key ciphertext fullAd), r)

/-- `decrypt` in a debug build. -/
def debugDecrypt (header : Header) (ciphertext ad : Bytes) (fresh : StaticSecret)
    (r : DoubleRatchet C.Key) : Outcome C.Key Bytes :=
  match debugDecryptInner C header ciphertext ad fresh r with
  | (.ok pt, r') => (.ok pt, r')
  | (.error (.error e), r') => (.error (.error e), r'.restore r.snapshot)
  | (.error (.panic msg), r') => (.error (.panic msg), r')

/-- `encrypt` in a debug build. -/
def debugEncrypt (plaintext ad : Bytes) (nonce : Nonce) (r : DoubleRatchet C.Key) :
    Outcome C.Key (Header × Bytes) :=
  match r.cks with
  | none => (.error (.error .notInitialized), r)
  | some cks =>
    let keys := kdfCk C cks
    let header : Header := { dh := r.ourDhPublic C, pn := r.pn, n := r.ns }
    match checkedInc r.ns with
    | none => (.error (.panic "attempt to add with overflow"), { r with cks := some keys.1 })
    | some next =>
      let r := { r with cks := some keys.1, ns := next }
      match aeadEncrypt C keys.2 nonce plaintext (concatAd ad header.toBytes) with
      | .ok ct => (.ok (header, ct), r)
      | .error e => (.error (.error e), r)

end Debug

/-! ## Where the two builds agree -/

theorem debugEncrypt_eq {r : DoubleRatchet C.Key} (h : r.ns ≠ 0xFFFFFFFF) (pt ad : Bytes)
    (nonce : Nonce) : debugEncrypt C pt ad nonce r = encrypt C pt ad nonce r := by
  unfold debugEncrypt encrypt
  cases r.cks with
  | none => rfl
  | some cks =>
    have hinc := checkedInc_eq h
    generalize checkedInc r.ns = next at hinc ⊢
    subst hinc
    rfl

/-- The loop ends by itself when it has as many rounds as it needs. -/
theorem debugSkipLoop_eq (dhr : PublicKey) (stop : UInt32) {fuel : Nat} {ck : C.Key} {nr : UInt32}
    {sk : IndexMap (PublicKey × UInt32) C.Key} (h : stop.toNat - nr.toNat ≤ fuel) :
    debugSkipLoop C dhr stop fuel ck nr sk =
      some (skipLoop C dhr (stop.toNat - nr.toNat) ck nr sk) := by
  induction fuel generalizing ck nr sk with
  | zero =>
    have hlt : ¬ nr < stop := by
      rw [UInt32.lt_iff_toNat_lt]
      omega
    rw [debugSkipLoop, if_neg hlt, show stop.toNat - nr.toNat = 0 by omega, skipLoop]
  | succ fuel ih =>
    unfold debugSkipLoop
    split
    · next hlt =>
      have hlt := UInt32.lt_iff_toNat_lt.mp hlt
      have hs := stop.toNat_lt
      have hmax : nr ≠ 0xFFFFFFFF := by
        intro he
        have h1 := congrArg UInt32.toNat he
        have h2 : (0xFFFFFFFF : UInt32).toNat = 2 ^ 32 - 1 := rfl
        omega
      have hnext : (nr + 1).toNat = nr.toNat + 1 := by
        rw [UInt32.toNat_add, Nat.mod_eq_of_lt]
        · rfl
        · show nr.toNat + 1 < 2 ^ 32
          omega
      rw [checkedInc_eq hmax]
      dsimp only
      rw [ih (by omega), show stop.toNat - nr.toNat = stop.toNat - (nr + 1).toNat + 1 by omega]
      rfl
    · next hge =>
      have hge := UInt32.lt_iff_toNat_lt.not.mp hge
      rw [show stop.toNat - nr.toNat = 0 by omega, skipLoop]

/-- The limit leaves the loop at most `MAX_SKIP` rounds, from any state at all. -/
theorem debugSkipMessageKeys_eq (stop : UInt32) (r : DoubleRatchet C.Key) :
    debugSkipMessageKeys C stop r = skipMessageKeys C stop r := by
  unfold debugSkipMessageKeys skipMessageKeys
  split
  · rfl
  · next hlim =>
    have hlim := saturatingAdd_lt.not.mp hlim
    cases r.ckr with
    | none => rfl
    | some ck =>
      dsimp only
      split
      · cases r.dhr with
        | none => rfl
        | some dhr => simp only [debugSkipLoop_eq dhr stop (Nat.sub_le_iff_le_add'.mpr (Nat.not_lt.mp hlim))]
      · rfl

theorem debugSwitchChain_eq (header : Header) (fresh : StaticSecret) (r : DoubleRatchet C.Key) :
    debugSwitchChain C header fresh r = switchChain C header fresh r := by
  have hskip := debugSkipMessageKeys_eq header.pn r
  unfold debugSwitchChain switchChain
  generalize debugSkipMessageKeys C header.pn r = skipped at hskip ⊢
  subst hskip
  rfl

theorem debugTakeMessageKey_eq {r : DoubleRatchet C.Key} (h : r.nr ≠ 0xFFFFFFFF) :
    debugTakeMessageKey C r = takeMessageKey C r := by
  unfold debugTakeMessageKey takeMessageKey
  cases r.ckr with
  | none => rfl
  | some ckr => simp only [checkedInc_eq h]

/-- Skipping moves `nr` by `MAX_SKIP` at most. -/
theorem skipMessageKeys_nr {r r' : DoubleRatchet C.Key} {stop : UInt32}
    (h : skipMessageKeys C stop r = (.ok (), r')) :
    ∃ k ≤ 1000, r'.nr = r.nr + UInt32.ofNat k := by
  have h0 : r.nr = r.nr + UInt32.ofNat 0 := by rw [ofNat_zero, UInt32.add_zero]
  unfold skipMessageKeys at h
  split at h
  · cases h
  · next hlim =>
    have hlim := saturatingAdd_lt.not.mp hlim
    have hskip : maxSkip.toNat = 1000 := rfl
    split at h
    · cases h; exact ⟨0, Nat.zero_le _, h0⟩
    · split at h
      · split at h <;> cases h
        exact ⟨stop.toNat - r.nr.toNat, by omega, skipLoop_nr _ _ _ _ _⟩
      · cases h; exact ⟨0, Nat.zero_le _, h0⟩

/-- From a counter within the limit there is room for the skip and for one more message. -/
theorem nr_ne_max {nr : UInt32} (h : nr ≤ maxResumableNr) {k : Nat} (hk : k ≤ 1000) :
    nr + UInt32.ofNat k ≠ 0xFFFFFFFF := by
  intro he
  have he := congrArg UInt32.toNat he
  have hmax : (0xFFFFFFFF : UInt32).toNat = 2 ^ 32 - 1 := rfl
  have h : nr.toNat ≤ 2 ^ 32 - 1002 := UInt32.le_iff_toNat_le.mp h
  rw [UInt32.toNat_add, UInt32.toNat_ofNat'] at he
  omega

theorem switchChain_nr {r r' : DoubleRatchet C.Key} {header : Header} {fresh : StaticSecret}
    (h : switchChain C header fresh r = (.ok (), r')) (hr : r.nr ≤ maxResumableNr) :
    r'.nr ≤ maxResumableNr := by
  unfold switchChain at h
  split at h
  · cases h; exact hr
  · split at h <;> cases h
    exact UInt32.zero_le

theorem debugDecrypt_eq {r : DoubleRatchet C.Key} (h : r.nr ≤ maxResumableNr) (header : Header)
    (ct ad : Bytes) (fresh : StaticSecret) :
    debugDecrypt C header ct ad fresh r = decrypt C header ct ad fresh r := by
  have hi : debugDecryptInner C header ct ad fresh r = decryptInner C header ct ad fresh r := by
    unfold debugDecryptInner decryptInner
    simp only [debugSwitchChain_eq, debugSkipMessageKeys_eq]
    generalize r.skipped.swapRemove (header.dh, header.n) = found
    obtain ⟨_ | key, skipped⟩ := found
    · rcases hsw : switchChain C header fresh r with ⟨_ | _, r₁⟩
      · rfl
      · dsimp only
        rcases hsk : skipMessageKeys C header.n r₁ with ⟨_ | _, r₂⟩
        · rfl
        · dsimp only
          obtain ⟨k, hk, hnr⟩ := skipMessageKeys_nr hsk
          have hne : r₂.nr ≠ 0xFFFFFFFF := by
            rw [hnr]
            exact nr_ne_max (switchChain_nr hsw h) hk
          have htake := debugTakeMessageKey_eq hne
          generalize debugTakeMessageKey C r₂ = taken at htake ⊢
          subst htake
          rfl
    · rfl
  unfold debugDecrypt decrypt
  generalize debugDecryptInner C header ct ad fresh r = res at hi ⊢
  subst hi
  rfl

/-! ## The bound -/

variable (C) in
/-- What the limits on the counters are for: no call overflows a counter or loops for long, and
what it leaves goes on or is refused because a counter is exhausted. -/
structure Safe (r : DoubleRatchet C.Key) : Prop where
  encrypt : ∀ pt ad nonce, debugEncrypt C pt ad nonce r = encrypt C pt ad nonce r
  decrypt : ∀ header ct ad fresh,
    debugDecrypt C header ct ad fresh r = decrypt C header ct ad fresh r
  encrypted : ∀ pt ad nonce, (DoubleRatchet.encrypt C pt ad nonce r).2.Continues
  decrypted : ∀ header ct ad fresh, (DoubleRatchet.decrypt C header ct ad fresh r).2.Continues

theorem ResumableUpTo.safe {r : DoubleRatchet C.Key} (h : r.ResumableUpTo maxResumableNr) :
    Safe C r where
  encrypt := debugEncrypt_eq h.ns
  decrypt := debugDecrypt_eq h.nr
  encrypted pt ad nonce := (encrypt_shaped h.shaped pt ad nonce).continues
  decrypted header ct ad fresh := (decrypt_shaped h.shaped header ct ad fresh).continues

/-- A state one past `MAX_RESUMABLE_NR`. -/
def beyond (key : K) : DoubleRatchet K :=
  { dhs := fill 1, dhr := some (fill 2), rk := key, cks := some key, ckr := some key, ns := 0
    nr := maxResumableNr + 1, pn := 0, skipped := .empty, maxSkipped := 2000 }

/-- The message at the last position of the chain overflows `nr` there, whatever its bytes are. -/
theorem debugDecrypt_beyond (key : C.Key) (ct ad : Bytes) (fresh : StaticSecret) :
    (debugDecrypt C { dh := fill 2, pn := 0, n := 0xFFFFFFFF } ct ad fresh (beyond key)).1 =
      .error (.panic "attempt to add with overflow") := by
  have hg : (beyond key).skipped.get? (fill 2, 0xFFFFFFFF) = none := rfl
  have hlim : ¬ saturatingAdd (beyond key).nr maxSkip < 0xFFFFFFFF := by
    rw [saturatingAdd_lt]
    show ¬ (maxResumableNr + 1).toNat + maxSkip.toNat < (0xFFFFFFFF : UInt32).toNat
    decide
  have hsk := skipMessageKeys_eq (C := C) (show (beyond key).dhr = some (fill 2) from rfl)
    (show (beyond key).ckr = some key from rfl) 0xFFFFFFFF
  rw [if_neg hlim] at hsk
  have hnr : (trimSkipped (skipTo C (fill 2) key 0xFFFFFFFF (beyond key))).nr = 0xFFFFFFFF := by
    show maxResumableNr + 1 + UInt32.ofNat ((0xFFFFFFFF : UInt32).toNat - (maxResumableNr + 1).toNat) = _
    decide
  unfold debugDecrypt debugDecryptInner
  rw [IndexMap.swapRemove_of_none hg]
  have hsw : switchChain C { dh := fill 2, pn := 0, n := 0xFFFFFFFF } fresh (beyond key) =
      (.ok (), beyond key) := if_pos rfl
  simp only [debugSwitchChain_eq, debugSkipMessageKeys_eq, hsw, hsk, debugTakeMessageKey, hnr,
    checkedInc]
  rfl

/-- **Counters cannot overflow** from a state that a checkpoint holds, in any call; and
`MAX_RESUMABLE_NR` is the largest bound on `nr` for which that is so. -/
theorem counters_safe (key : C.Key) :
    (∀ r r' : DoubleRatchet C.Key, r.toCheckpoint = .ok r' → Safe C r') ∧
    ∀ bound : UInt32, (∀ r : DoubleRatchet C.Key, r.ResumableUpTo bound → Safe C r) ↔
      bound ≤ maxResumableNr := by
  constructor
  · intro r r' h
    obtain rfl := toCheckpoint_eq h
    exact (resumable_iff.mp (toCheckpoint_resumable h)).safe
  · intro bound
    constructor
    · intro hsafe
      by_contra hlt
      have hb : maxResumableNr + 1 ≤ bound := by
        have h := UInt32.lt_iff_toNat_lt.mp (UInt32.not_le.mp hlt)
        exact UInt32.le_iff_toNat_le.mpr h
      have hr : (beyond key).ResumableUpTo bound := by
        refine ⟨?_, zero_ne_max, hb⟩
        constructor <;> simp [beyond, IndexMap.len]
      have he := (hsafe _ hr).decrypt { dh := fill 2, pn := 0, n := 0xFFFFFFFF } [] [] (fill 1)
      have hp := debugDecrypt_beyond key [] [] (fill 1)
      rw [he] at hp
      rcases hd : decrypt C { dh := fill 2, pn := 0, n := 0xFFFFFFFF } [] [] (fill 1) (beyond key)
        with ⟨res, r'⟩
      rw [hd] at hp
      obtain rfl : res = _ := hp
      exact decrypt_not_panic hr.shaped.dhr_of_ckr hd
    · intro hb r hr
      exact ResumableUpTo.safe ⟨hr.shaped, hr.ns, UInt32.le_trans hr.nr hb⟩

/-- A state with both counters at their bounds. -/
def atBounds (key : K) : DoubleRatchet K :=
  { beyond key with ns := 0xFFFFFFFE, nr := maxResumableNr }

theorem counters_safe_bounds : Safe symbolic (atBounds (SymKey.root 0)) := by
  have hc : (atBounds (K := symbolic.Key) (SymKey.root 0)).toCheckpoint =
      .ok (atBounds (SymKey.root 0)) := by
    decide +kernel
  exact (counters_safe (C := symbolic) (SymKey.root 0)).1 _ _ hc

end DoubleRatchet

end Arcium
