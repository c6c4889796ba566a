import Arcium.Base.Bytes

/-!
# The hybrid KEM (`core-crypto/src/hybrid.rs`)

X25519 and ML-KEM-768 side by side: a key is derived from both shared secrets and from all that was
exchanged. The two mechanisms and HKDF are third-party code (`HybridPlatform`); keys have an abstract
type, so that assuming them free of collisions is not contradictory.

* `hybridDecaps_eq_none`: what is refused is what has a wrong length.
* `hybrid_agree_iff`: the key is derived from the ciphertext that was made, by the one whose public
  keys it was made for, and from nothing else.
-/

namespace Arcium

/-- `n` bytes. -/
abbrev Raw (n : Nat) := { b : Bytes // b.length = n }

/-- The third-party functions. -/
structure HybridPlatform where
  Key : Type
  /-- `PublicKey::from(&secret)`. -/
  publicKey : Bytes32 → Bytes32
  diffieHellman : (secret : Bytes32) → (publicKey : Bytes32) → Bytes32
  /-- `DecapsulationKey768::from_seed(seed).encapsulation_key()`. -/
  encapsulationKey : (seed : Raw 64) → Raw 1184
  /-- Whether `EncapsulationKey768::new` accepts these bytes. -/
  isEncapsulationKey : Raw 1184 → Bool
  /-- `encapsulate`, with the randomness it draws: a ciphertext and a shared secret. -/
  encapsulate : Raw 1184 → (coins : Bytes32) → Raw 1088 × Bytes32
  /-- `DecapsulationKey768::from_seed(seed).decapsulate`. -/
  decapsulate : (seed : Raw 64) → Raw 1088 → Bytes32
  /-- HKDF-SHA256 with info `HybridKEM/v1`, 64 bytes. -/
  hkdf : Bytes → Key

/-- `HybridPublicKey`. -/
structure HybridPublicKey where
  x25519 : Bytes32
  mlKem : Bytes
  deriving DecidableEq

/-- `HybridSecretKey`. -/
structure HybridSecretKey where
  x25519 : Bytes32
  mlKem : Bytes
  deriving DecidableEq

/-- `X25519_LEN`. -/
def x25519Len : Nat := 32

/-- `try_into`: the bytes, if there are `n` of them. -/
def tryInto (n : Nat) (b : Bytes) : Option (Raw n) := if h : b.length = n then some ⟨b, h⟩ else none

theorem tryInto_some {n : Nat} {b : Bytes} {r : Raw n} : tryInto n b = some r ↔ b = r.val := by
  rw [tryInto]
  split
  · rw [Option.some.injEq, Subtype.ext_iff]
  · next h =>
    refine ⟨fun h' => ?_, fun h' => absurd (h' ▸ r.2) h⟩
    cases h'

theorem tryInto_val {n : Nat} (r : Raw n) : tryInto n r.val = some r := tryInto_some.mpr rfl

section Kem

variable (P : HybridPlatform)

/-- `combine_secrets`. -/
def combineSecrets (x25519Ss mlKemSs ephPk mlCt recipientX25519Pk recipientMlKemPk : Bytes) : P.Key :=
  P.hkdf (x25519Ss ++ mlKemSs ++ ephPk ++ mlCt ++ recipientX25519Pk ++ recipientMlKemPk)

/-- `hybrid_keygen`, with the secrets it draws. -/
def hybridKeygen (x25519Sk : Bytes32) (seed : Raw 64) : HybridPublicKey × HybridSecretKey :=
  ({ x25519 := P.publicKey x25519Sk, mlKem := (P.encapsulationKey seed).val },
    { x25519 := x25519Sk, mlKem := seed.val })

/-- `hybrid_encaps`, with what it draws: the ciphertext and the key. `none` for `HybridError`. -/
def hybridEncaps (pk : HybridPublicKey) (ephSk coins : Bytes32) : Option (Bytes × P.Key) := do
  let ephPk := P.publicKey ephSk
  let x25519Ss := P.diffieHellman ephSk pk.x25519
  let ek ← tryInto 1184 pk.mlKem
  if P.isEncapsulationKey ek then
    let (mlCt, mlSs) := P.encapsulate ek coins
    let shared := combineSecrets P x25519Ss.val mlSs.val ephPk.val mlCt.val pk.x25519.val pk.mlKem
    return (ephPk.val ++ mlCt.val, shared)
  else none

/-- `hybrid_decaps`. -/
def hybridDecaps (sk : HybridSecretKey) (ct : Bytes) : Option P.Key := do
  if ct.length < x25519Len then none
  let ephPk ← tryInto 32 (ct.take x25519Len)
  let x25519Ss := P.diffieHellman sk.x25519 ephPk
  let ourX25519Pk := P.publicKey sk.x25519
  let seed ← tryInto 64 sk.mlKem
  let mlCt ← tryInto 1088 (ct.drop x25519Len)
  let mlSs := P.decapsulate seed mlCt
  return combineSecrets P x25519Ss.val mlSs.val ephPk.val (ct.drop x25519Len) ourX25519Pk.val
    (P.encapsulationKey seed).val

/-- What the two mechanisms promise. -/
structure HybridPlatform.Correct : Prop where
  dh_comm : ∀ a b, P.diffieHellman a (P.publicKey b) = P.diffieHellman b (P.publicKey a)
  decapsulates : ∀ seed coins, P.decapsulate seed (P.encapsulate (P.encapsulationKey seed) coins).1 =
    (P.encapsulate (P.encapsulationKey seed) coins).2

end Kem

section Agreement

variable {P : HybridPlatform}

theorem hybridEncaps_some {pk : HybridPublicKey} {ephSk coins : Bytes32} {ct : Bytes}
    {shared : P.Key} :
    hybridEncaps P pk ephSk coins = some (ct, shared) ↔
      ∃ ek : Raw 1184, pk.mlKem = ek.val ∧ P.isEncapsulationKey ek = true ∧
        ct = (P.publicKey ephSk).val ++ (P.encapsulate ek coins).1.val ∧
        shared = combineSecrets P (P.diffieHellman ephSk pk.x25519).val (P.encapsulate ek coins).2.val
          (P.publicKey ephSk).val (P.encapsulate ek coins).1.val pk.x25519.val ek.val := by
  constructor
  · intro h
    unfold hybridEncaps at h
    cases hek : tryInto 1184 pk.mlKem with
    | none => rw [hek] at h; cases h
    | some ek =>
      rw [hek] at h
      have hpk := tryInto_some.mp hek
      simp only [Option.bind_eq_bind, Option.bind_some] at h
      split at h
      · next hvalid =>
        obtain ⟨hct, hshared⟩ := Prod.mk.inj (Option.some.inj h)
        exact ⟨ek, hpk, hvalid, hct.symm, hpk ▸ hshared.symm⟩
      · cases h
  · rintro ⟨ek, hpk, hvalid, rfl, rfl⟩
    unfold hybridEncaps
    rw [hpk, tryInto_val]
    simp only [Option.bind_eq_bind, Option.bind_some]
    rw [if_pos hvalid]
    rfl

theorem hybridDecaps_some {sk : HybridSecretKey} {ct : Bytes} {shared : P.Key} :
    hybridDecaps P sk ct = some shared ↔
      ∃ (ephPk : Bytes32) (seed : Raw 64) (mlCt : Raw 1088), ct = ephPk.val ++ mlCt.val ∧
        sk.mlKem = seed.val ∧
        shared = combineSecrets P (P.diffieHellman sk.x25519 ephPk).val (P.decapsulate seed mlCt).val
          ephPk.val mlCt.val (P.publicKey sk.x25519).val (P.encapsulationKey seed).val := by
  constructor
  · intro h
    unfold hybridDecaps at h
    split at h
    · cases h
    · cases heph : tryInto 32 (ct.take x25519Len) with
      | none => rw [heph] at h; cases h
      | some ephPk =>
        cases hseed : tryInto 64 sk.mlKem with
        | none => rw [heph, hseed] at h; cases h
        | some seed =>
          cases hct : tryInto 1088 (ct.drop x25519Len) with
          | none => rw [heph, hseed, hct] at h; cases h
          | some mlCt =>
            rw [heph, hseed, hct] at h
            refine ⟨ephPk, seed, mlCt, ?_, tryInto_some.mp hseed, ?_⟩
            · rw [← tryInto_some.mp heph, ← tryInto_some.mp hct, List.take_append_drop]
            · rw [← tryInto_some.mp hct]
              exact (Option.some.inj h).symm
  · rintro ⟨ephPk, seed, mlCt, rfl, hseed, rfl⟩
    have hlen : ¬ (ephPk.val ++ mlCt.val).length < x25519Len := by
      rw [List.length_append, ephPk.2]
      exact Nat.not_lt_of_le (Nat.le_add_right _ _)
    have htake : (ephPk.val ++ mlCt.val).take x25519Len = ephPk.val := List.take_left' ephPk.2
    have hdrop : (ephPk.val ++ mlCt.val).drop x25519Len = mlCt.val := List.drop_left' ephPk.2
    unfold hybridDecaps
    rw [if_neg hlen, htake, hdrop, hseed, tryInto_val, tryInto_val, tryInto_val]
    rfl

/-- A ciphertext is refused for its length only. -/
theorem hybridDecaps_eq_none {sk : HybridSecretKey} {ct : Bytes} :
    hybridDecaps P sk ct = none ↔ ct.length ≠ x25519Len + 1088 ∨ sk.mlKem.length ≠ 64 := by
  rw [← not_iff_not, ← ne_eq, Option.ne_none_iff_exists', not_or, not_not, not_not]
  constructor
  · rintro ⟨shared, h⟩
    obtain ⟨ephPk, seed, mlCt, rfl, hseed, -⟩ := hybridDecaps_some.mp h
    rw [List.length_append, ephPk.2, mlCt.2, hseed]
    exact ⟨rfl, seed.2⟩
  · rintro ⟨hct, hseed⟩
    have heph : (ct.take 32).length = 32 := by
      rw [List.length_take, hct]
      rfl
    have hml : (ct.drop 32).length = 1088 := by
      rw [List.length_drop, hct]
      rfl
    exact ⟨_, hybridDecaps_some.mpr ⟨⟨ct.take 32, heph⟩, ⟨sk.mlKem, hseed⟩, ⟨ct.drop 32, hml⟩,
      (List.take_append_drop 32 ct).symm, rfl, rfl⟩⟩

/-- Keys are equal if all that they were derived from is, for every part has its length. -/
theorem combineSecrets_injective (hkdf : Function.Injective P.hkdf) {x x' m m' e e' r r' : Bytes32}
    {ct ct' : Raw 1088} {ek ek' : Raw 1184}
    (h : combineSecrets P x.val m.val e.val ct.val r.val ek.val =
      combineSecrets P x'.val m'.val e'.val ct'.val r'.val ek'.val) :
    e = e' ∧ ct = ct' ∧ r = r' ∧ ek = ek' := by
  obtain ⟨h, hek⟩ := List.append_inj' (hkdf h) (by rw [ek.2, ek'.2])
  obtain ⟨h, hr⟩ := List.append_inj' h (by rw [r.2, r'.2])
  obtain ⟨h, hct⟩ := List.append_inj' h (by rw [ct.2, ct'.2])
  obtain ⟨-, he⟩ := List.append_inj' h (by rw [e.2, e'.2])
  exact ⟨Subtype.ext he, Subtype.ext hct, Subtype.ext hr, Subtype.ext hek⟩

/-- **One ciphertext and one key pair.** A key that was derived for a public key is derived again from
the very ciphertext that was made with it, by the secret key that this public key belongs to; no other
ciphertext and no other key pair gives it. -/
theorem hybrid_agree_iff (hP : P.Correct) (hkdf : Function.Injective P.hkdf) {pk : HybridPublicKey}
    {ephSk coins : Bytes32} {ct : Bytes} {shared : P.Key}
    (h : hybridEncaps P pk ephSk coins = some (ct, shared)) (sk : HybridSecretKey) (ct' : Bytes) :
    hybridDecaps P sk ct' = some shared ↔
      ct' = ct ∧ ∃ seed : Raw 64, (pk, sk) = hybridKeygen P sk.x25519 seed := by
  obtain ⟨x25519, mlKem⟩ := pk
  obtain ⟨skX, skMl⟩ := sk
  obtain ⟨ek, rfl, -, rfl, rfl⟩ := hybridEncaps_some.mp h
  rw [hybridDecaps_some]
  constructor
  · rintro ⟨ephPk, seed, mlCt, rfl, hseed, hkey⟩
    obtain ⟨heph, hct, hpk, hek⟩ := combineSecrets_injective hkdf hkey
    refine ⟨by rw [heph, hct], seed, ?_⟩
    dsimp only at hseed hpk
    rw [hybridKeygen, hseed, hpk, hek]
  · rintro ⟨rfl, seed, hkeys⟩
    obtain ⟨hpk, hsk⟩ := Prod.mk.inj hkeys
    obtain ⟨rfl, hek⟩ := HybridPublicKey.mk.inj hpk
    obtain ⟨-, rfl⟩ := HybridSecretKey.mk.inj hsk
    obtain rfl := Subtype.ext hek
    refine ⟨P.publicKey ephSk, seed, (P.encapsulate (P.encapsulationKey seed) coins).1, rfl, rfl, ?_⟩
    rw [hP.decapsulates, hP.dh_comm]

/-! ## Mechanisms that keep their promise -/

theorem fillRaw_length (n : Nat) (b : UInt8) : (List.replicate n b).length = n :=
  List.length_replicate

/-- `n` bytes `b`. -/
def fillRaw (n : Nat) (b : UInt8) : Raw n := ⟨List.replicate n b, fillRaw_length n b⟩

theorem xorKeys_length (a b : Bytes32) : (List.zipWith (· ^^^ ·) a.val b.val).length = 32 := by
  rw [List.length_zipWith, a.2, b.2]
  rfl

theorem seedKey_length (seed : Raw 64) : (seed.val ++ List.replicate 1120 0).length = 1184 := by
  rw [List.length_append, seed.2, List.length_replicate]

theorem coinsCiphertext_length (coins : Bytes32) :
    (coins.val ++ List.replicate 1056 0).length = 1088 := by
  rw [List.length_append, coins.2, List.length_replicate]

theorem takeCoins_length (ct : Raw 1088) : (ct.val.take 32).length = 32 := by
  rw [List.length_take, ct.2]
  rfl

/-- Secrets that are their own public keys, a ciphertext that is the secret in it, and a key that is
all that it is derived from. -/
def openHybrid : HybridPlatform where
  Key := Bytes
  publicKey := id
  diffieHellman a b := ⟨List.zipWith (· ^^^ ·) a.val b.val, xorKeys_length a b⟩
  encapsulationKey seed := ⟨seed.val ++ List.replicate 1120 0, seedKey_length seed⟩
  isEncapsulationKey _ := true
  encapsulate _ coins := (⟨coins.val ++ List.replicate 1056 0, coinsCiphertext_length coins⟩, coins)
  decapsulate _ ct := ⟨ct.val.take 32, takeCoins_length ct⟩
  hkdf := id

theorem openHybrid_correct : openHybrid.Correct where
  dh_comm _ _ := Subtype.ext (List.zipWith_comm_of_comm UInt8.xor_comm)
  decapsulates _ coins := Subtype.ext (List.take_left' coins.2)

/-- The receiver derives the key, somebody with another ML-KEM secret does not, and a byte more is
refused. -/
theorem hybrid_agree_iff_some :
    let keys := hybridKeygen openHybrid (fillRaw 32 1) (fillRaw 64 2)
    let other := hybridKeygen openHybrid (fillRaw 32 1) (fillRaw 64 5)
    ∃ ct shared, hybridEncaps openHybrid keys.1 (fillRaw 32 3) (fillRaw 32 4) = some (ct, shared) ∧
      hybridDecaps openHybrid keys.2 ct = some shared ∧
      hybridDecaps openHybrid other.2 ct ≠ some shared ∧
      hybridDecaps openHybrid keys.2 (ct ++ [0]) = none := by
  intro keys other
  obtain ⟨ct, shared, h⟩ : ∃ ct shared,
      hybridEncaps openHybrid keys.1 (fillRaw 32 3) (fillRaw 32 4) = some (ct, shared) :=
    ⟨_, _, hybridEncaps_some.mpr ⟨openHybrid.encapsulationKey (fillRaw 64 2), rfl, rfl, rfl, rfl⟩⟩
  have hagree := hybrid_agree_iff openHybrid_correct Function.injective_id h
  have hdecaps := (hagree keys.2 ct).mpr ⟨rfl, fillRaw 64 2, rfl⟩
  refine ⟨ct, shared, h, hdecaps, fun hother => ?_, hybridDecaps_eq_none.mpr (.inl ?_)⟩
  · obtain ⟨-, seed, hkeys⟩ := (hagree other.2 ct).mp hother
    obtain ⟨hpk, hsk⟩ := Prod.mk.inj hkeys
    have hseed : (fillRaw 64 5).val = seed.val := (HybridSecretKey.mk.inj hsk).2
    have hek := (HybridPublicKey.mk.inj hpk).2
    rw [← Subtype.ext hseed] at hek
    have hhead : (2 : UInt8) = 5 := (List.cons.inj hek).1
    exact absurd hhead (by decide)
  · obtain ⟨ephPk, seed, mlCt, rfl, -⟩ := hybridDecaps_some.mp hdecaps
    simp [ephPk.2, mlCt.2, x25519Len]

end Agreement

end Arcium
