import Mathlib.Data.List.Induction
import Arcium.Crypto.X3dh

/-!
# What an agreement on a root key says (`core-crypto/src/x3dh.rs`)

An initiator accepts a bundle that the relay hands out, and a responder takes the keys of a handshake
that the relay hands out. Neither is told by anyone that the other got what was sent.

X25519 ignores the top bit of a public key, takes its coordinate modulo the prime, and clears what is
of small order, so the relay can change the bytes of a key without changing a secret. `SameKey` is
this relation, in terms of the secrets alone.

* `signedPrekeyObject_injective`: a signature covers one identity, one signing key and one prekey.
* `x3dh_agree`: both sides derive the same root key from each other's keys.
* `x3dh_agree_iff`: of an initiator that knows the signing key of an identity, a responder has the
  root key exactly if it holds the secrets of that identity and got keys that X25519 takes for the
  initiator's. The associated data, which is of bytes, tells whether it got the identity itself.
-/

namespace Arcium

/-- X25519 takes one key for the other: no secret tells them apart. -/
def SameKey (P : AppPlatform) (x y : PublicKey) : Prop :=
  ∀ a, P.diffieHellman a x = P.diffieHellman a y

/-- The assumptions on the key agreement, which are those of an ideal group: it is commutative; what a
secret shares with any key is what two secrets share only if they are the same two keys, as far as
X25519 tells keys apart; and two lists of shared secrets have different root keys. -/
structure AgreementIdeal (P : AppPlatform) : Prop where
  dh_comm : ∀ a b, P.diffieHellman a (P.publicKey b) = P.diffieHellman b (P.publicKey a)
  dh_inj : ∀ a x b c, P.diffieHellman a x = P.diffieHellman b (P.publicKey c) →
    (P.publicKey a = P.publicKey b ∧ SameKey P x (P.publicKey c)) ∨
      (P.publicKey a = P.publicKey c ∧ SameKey P x (P.publicKey b))
  kdf_inj : Function.Injective P.x3dhKdf

/-- The secrets of a device that made a bundle, or that answers a handshake. -/
structure Responder where
  identitySk : StaticSecret
  signedPrekeySk : StaticSecret
  oneTimePrekeySk : Option StaticSecret

/-- The only object that the holder of `signingPk` signed, as far as a signature can tell. -/
def SignedOnly (P : AppPlatform) (signingPk : Bytes32) (signature : Signature) (object : Bytes) :
    Prop :=
  ∀ msg, P.verifyStrict signingPk msg signature = true → msg = object

/-- A signature covers one identity, one signing key and one prekey. -/
theorem signedPrekeyObject_injective {id id' spk spk' : PublicKey} {vk vk' : Bytes32}
    (h : signedPrekeyObject id vk spk = signedPrekeyObject id' vk' spk') :
    id = id' ∧ vk = vk' ∧ spk = spk' := by
  simp only [signedPrekeyObject] at h
  obtain ⟨h, hspk⟩ := List.append_inj' h (by rw [spk.2, spk'.2])
  obtain ⟨h, hvk⟩ := List.append_inj' h (by rw [vk.2, vk'.2])
  exact ⟨Subtype.ext (List.append_cancel_left h), Subtype.ext hvk, Subtype.ext hspk⟩

variable {P : AppPlatform}

theorem SameKey.symm {x y : PublicKey} (h : SameKey P x y) : SameKey P y x := fun a => (h a).symm

theorem SameKey.trans {x y z : PublicKey} (h : SameKey P x y) (h' : SameKey P y z) : SameKey P x z :=
  fun a => (h a).trans (h' a)

theorem SameKey.of_eq {x y : PublicKey} (h : x = y) : SameKey P x y := fun _ => by rw [h]

/-- The keys of two secrets have the same bytes if X25519 takes one for the other. -/
theorem SameKey.eq (hP : AgreementIdeal P) {a b : StaticSecret}
    (h : SameKey P (P.publicKey a) (P.publicKey b)) : P.publicKey a = P.publicKey b := by
  have hab : P.diffieHellman b (P.publicKey a) = P.diffieHellman a (P.publicKey a) :=
    (hP.dh_comm b a).trans (h a).symm
  rcases hP.dh_inj _ _ _ _ hab with ⟨hba, -⟩ | ⟨hba, -⟩
  · exact hba.symm
  · exact hba.symm

/-- The initiator's part of a one-time secret is the responder's, if their prekeys are the same. -/
theorem oneTime_eq (hdh : ∀ a b, P.diffieHellman a (P.publicKey b) = P.diffieHellman b (P.publicKey a))
    {opk : Option StaticSecret} {opkPk : Option PublicKey}
    (h : Option.Rel (SameKey P) opkPk (opk.map P.publicKey)) (ephemeralSk : StaticSecret) :
    opkPk.map (P.diffieHellman ephemeralSk) =
      opk.map fun o => P.diffieHellman o (P.publicKey ephemeralSk) := by
  cases opkPk with
  | none =>
    cases opk with
    | none => rfl
    | some o => simp at h
  | some x =>
    cases opk with
    | none => simp at h
    | some o =>
      rw [Option.map_some, Option.rel_some_some] at h
      rw [Option.map_some, Option.map_some, h, hdh]

/-- What an initiator derives from a bundle. -/
theorem x3dhInitiate_some {aliceSk ephemeralSk : StaticSecret} {alicePk : PublicKey}
    {bundle : PrekeyBundle} {alice : AliceSession P.Key} :
    x3dhInitiate P aliceSk alicePk bundle ephemeralSk = some alice ↔
      verifySignedPrekey P bundle = true ∧
      alice =
        { rootKey := deriveRoot P (P.diffieHellman aliceSk bundle.signedPrekeyPk)
            (P.diffieHellman ephemeralSk bundle.identityPk)
            (P.diffieHellman ephemeralSk bundle.signedPrekeyPk)
            (bundle.oneTimePrekey.map fun opk => P.diffieHellman ephemeralSk opk.2)
          ephemeralPk := P.publicKey ephemeralSk
          theirSignedPrekeyPk := bundle.signedPrekeyPk
          ad := alicePk.val ++ bundle.identityPk.val } := by
  rw [x3dhInitiate]
  split
  · next h => rw [Option.some.injEq, and_iff_right h, eq_comm]
  · next h => simp [h]

/-- Root keys agree only if all their secrets do. -/
theorem deriveRoot_inj (hP : AgreementIdeal P) {d1 d2 d3 e1 e2 e3 : P.Shared}
    {d4 e4 : Option P.Shared} (h : deriveRoot P d1 d2 d3 d4 = deriveRoot P e1 e2 e3 e4) :
    d1 = e1 ∧ d2 = e2 ∧ d3 = e3 ∧ d4 = e4 := by
  obtain ⟨h1, h⟩ := List.cons.inj (hP.kdf_inj h)
  obtain ⟨h2, h⟩ := List.cons.inj h
  obtain ⟨h3, h⟩ := List.cons.inj h
  refine ⟨h1, h2, h3, ?_⟩
  cases d4 with
  | none =>
    cases e4 with
    | none => rfl
    | some e => cases h
  | some d =>
    cases e4 with
    | none => cases h
    | some e => exact congrArg some (List.cons.inj h).1

/-- It is the responder's only then. -/
theorem oneTime_same (hP : AgreementIdeal P) {ephemeralSk : StaticSecret} {opk : Option StaticSecret}
    {opkPk : Option PublicKey} (h : opkPk.map (P.diffieHellman ephemeralSk) =
      opk.map fun o => P.diffieHellman o (P.publicKey ephemeralSk)) :
    Option.Rel (SameKey P) opkPk (opk.map P.publicKey) := by
  cases opkPk with
  | none =>
    cases opk with
    | none => exact .none
    | some o => cases h
  | some x =>
    cases opk with
    | none => cases h
    | some o =>
      obtain ⟨h1, h2⟩ | ⟨-, h2⟩ := hP.dh_inj _ _ _ _ (Option.some.inj h)
      · exact .some (h2.trans (.of_eq h1))
      · exact .some h2

/-- Both sides derive the same root key, if each has keys that X25519 takes for the other's. -/
theorem x3dh_agree (hdh : ∀ a b, P.diffieHellman a (P.publicKey b) = P.diffieHellman b (P.publicKey a))
    {bob : Responder} {bundle : PrekeyBundle} {aliceSk ephemeralSk : StaticSecret}
    {alice : AliceSession P.Key} {theirIdentityPk theirEphemeralPk : PublicKey}
    (h : x3dhInitiate P aliceSk (P.publicKey aliceSk) bundle ephemeralSk = some alice)
    (hid : SameKey P bundle.identityPk (P.publicKey bob.identitySk))
    (hspk : SameKey P bundle.signedPrekeyPk (P.publicKey bob.signedPrekeySk))
    (hopk : Option.Rel (SameKey P) (bundle.oneTimePrekey.map Prod.snd)
      (bob.oneTimePrekeySk.map P.publicKey))
    (hpeer : SameKey P theirIdentityPk (P.publicKey aliceSk))
    (heph : SameKey P theirEphemeralPk alice.ephemeralPk) :
    (x3dhRespond P bob.identitySk (P.publicKey bob.identitySk) bob.signedPrekeySk bob.oneTimePrekeySk
      theirIdentityPk theirEphemeralPk).rootKey = alice.rootKey := by
  obtain ⟨-, rfl⟩ := x3dhInitiate_some.mp h
  have heph : ∀ a, P.diffieHellman a theirEphemeralPk = P.diffieHellman a (P.publicKey ephemeralSk) :=
    heph
  have h1 : P.diffieHellman bob.signedPrekeySk theirIdentityPk =
      P.diffieHellman aliceSk bundle.signedPrekeyPk := by rw [hpeer, hspk, hdh]
  have h2 : P.diffieHellman bob.identitySk theirEphemeralPk =
      P.diffieHellman ephemeralSk bundle.identityPk := by rw [heph, hid, hdh]
  have h3 : P.diffieHellman bob.signedPrekeySk theirEphemeralPk =
      P.diffieHellman ephemeralSk bundle.signedPrekeyPk := by rw [heph, hspk, hdh]
  have h4 : (bob.oneTimePrekeySk.map fun o => P.diffieHellman o theirEphemeralPk) =
      bundle.oneTimePrekey.map fun opk => P.diffieHellman ephemeralSk opk.2 := by
    have hone := oneTime_eq hdh hopk ephemeralSk
    rw [Option.map_map] at hone
    simp only [heph]
    exact hone.symm
  show deriveRoot P _ _ _ _ = deriveRoot P _ _ _ _
  rw [h1, h2, h3, h4]

/-- They do only then: what an initiator made of the keys of `owner` is what a responder has. -/
theorem x3dh_agree_only (hP : AgreementIdeal P) {owner bob : Responder}
    {aliceSk ephemeralSk : StaticSecret} {opk : Option PublicKey}
    {theirIdentityPk theirEphemeralPk : PublicKey}
    (hfresh : P.publicKey ephemeralSk ≠ P.publicKey bob.signedPrekeySk)
    (hroot : deriveRoot P (P.diffieHellman bob.signedPrekeySk theirIdentityPk)
        (P.diffieHellman bob.identitySk theirEphemeralPk)
        (P.diffieHellman bob.signedPrekeySk theirEphemeralPk)
        (bob.oneTimePrekeySk.map fun o => P.diffieHellman o theirEphemeralPk) =
      deriveRoot P (P.diffieHellman aliceSk (P.publicKey owner.signedPrekeySk))
        (P.diffieHellman ephemeralSk (P.publicKey owner.identitySk))
        (P.diffieHellman ephemeralSk (P.publicKey owner.signedPrekeySk))
        (opk.map (P.diffieHellman ephemeralSk))) :
    P.publicKey bob.identitySk = P.publicKey owner.identitySk ∧
      P.publicKey bob.signedPrekeySk = P.publicKey owner.signedPrekeySk ∧
      Option.Rel (SameKey P) opk (bob.oneTimePrekeySk.map P.publicKey) ∧
      SameKey P theirIdentityPk (P.publicKey aliceSk) ∧
      SameKey P theirEphemeralPk (P.publicKey ephemeralSk) := by
  obtain ⟨h1, h2, h3, h4⟩ := deriveRoot_inj hP hroot
  -- the secret of the ephemeral key and the signed prekey says who holds the prekey
  obtain ⟨hswap, -⟩ | ⟨hprekey, heph⟩ := hP.dh_inj _ _ _ _ h3
  · exact absurd hswap.symm hfresh
  · have hidentity : P.publicKey bob.identitySk = P.publicKey owner.identitySk := by
      obtain ⟨hb, he⟩ | ⟨hb, -⟩ := hP.dh_inj _ _ _ _ h2
      · exact hb.trans ((heph.symm.trans he).eq hP)
      · exact hb
    have hpeer : SameKey P theirIdentityPk (P.publicKey aliceSk) := by
      obtain ⟨hb, ht⟩ | ⟨-, ht⟩ := hP.dh_inj _ _ _ _ h1
      · exact ht.trans (.of_eq (hprekey.symm.trans hb))
      · exact ht
    have hone : (bob.oneTimePrekeySk.map fun o => P.diffieHellman o theirEphemeralPk) =
        bob.oneTimePrekeySk.map fun o => P.diffieHellman o (P.publicKey ephemeralSk) :=
      Option.map_congr fun o _ => heph o
    exact ⟨hidentity, hprekey, oneTime_same hP (h4.symm.trans hone), hpeer, heph⟩

/-- **An agreement on the root key is an agreement on who agrees.** An initiator accepts a bundle for
a signing key that it knows, whatever the relay made of it. Whoever answers, with whatever keys the
relay hands it, has the initiator's root key exactly if it holds the secrets of the identity that the
signing key vouches for, and got the initiator's own keys, or ones that X25519 takes for them; so for
the one-time prekey, which nothing signs. The associated data of both sides is the same then exactly
if the responder got the bytes of the initiator's identity key. -/
theorem x3dh_agree_iff (hP : AgreementIdeal P) (owner bob : Responder) {bundle : PrekeyBundle}
    {aliceSk ephemeralSk : StaticSecret} {alice : AliceSession P.Key}
    (hsigned : SignedOnly P bundle.signingPk bundle.signedPrekeySignature
      (signedPrekeyObject (P.publicKey owner.identitySk) bundle.signingPk
        (P.publicKey owner.signedPrekeySk)))
    (h : x3dhInitiate P aliceSk (P.publicKey aliceSk) bundle ephemeralSk = some alice)
    (hfresh : P.publicKey ephemeralSk ≠ P.publicKey bob.signedPrekeySk)
    (theirIdentityPk theirEphemeralPk : PublicKey) :
    let session := x3dhRespond P bob.identitySk (P.publicKey bob.identitySk) bob.signedPrekeySk
      bob.oneTimePrekeySk theirIdentityPk theirEphemeralPk
    (session.rootKey = alice.rootKey ↔
      P.publicKey bob.identitySk = P.publicKey owner.identitySk ∧
      P.publicKey bob.signedPrekeySk = P.publicKey owner.signedPrekeySk ∧
      Option.Rel (SameKey P) (bundle.oneTimePrekey.map Prod.snd)
        (bob.oneTimePrekeySk.map P.publicKey) ∧
      SameKey P theirIdentityPk (P.publicKey aliceSk) ∧
      SameKey P theirEphemeralPk alice.ephemeralPk) ∧
    (session.rootKey = alice.rootKey →
      (session.ad = alice.ad ↔ theirIdentityPk = P.publicKey aliceSk)) := by
  intro session
  obtain ⟨hverified, rfl⟩ := x3dhInitiate_some.mp h
  obtain ⟨hid, -, hspk⟩ := signedPrekeyObject_injective (hsigned _ hverified)
  have hopk : (bundle.oneTimePrekey.map fun opk => P.diffieHellman ephemeralSk opk.2) =
      (bundle.oneTimePrekey.map Prod.snd).map (P.diffieHellman ephemeralSk) := by
    rw [Option.map_map]
    rfl
  have hiff : session.rootKey = deriveRoot P (P.diffieHellman aliceSk bundle.signedPrekeyPk)
      (P.diffieHellman ephemeralSk bundle.identityPk)
      (P.diffieHellman ephemeralSk bundle.signedPrekeyPk)
      (bundle.oneTimePrekey.map fun opk => P.diffieHellman ephemeralSk opk.2) ↔
      P.publicKey bob.identitySk = P.publicKey owner.identitySk ∧
      P.publicKey bob.signedPrekeySk = P.publicKey owner.signedPrekeySk ∧
      Option.Rel (SameKey P) (bundle.oneTimePrekey.map Prod.snd)
        (bob.oneTimePrekeySk.map P.publicKey) ∧
      SameKey P theirIdentityPk (P.publicKey aliceSk) ∧
      SameKey P theirEphemeralPk (P.publicKey ephemeralSk) := by
    constructor
    · intro hroot
      rw [hid, hspk, hopk] at hroot
      exact x3dh_agree_only hP hfresh hroot
    · rintro ⟨h1, h2, h3, hpeer, heph⟩
      exact x3dh_agree hP.dh_comm h (.of_eq (hid.trans h1.symm)) (.of_eq (hspk.trans h2.symm)) h3 hpeer
        heph
  refine ⟨hiff, fun hroot => ?_⟩
  obtain ⟨hbob, -⟩ := hiff.mp hroot
  show theirIdentityPk.val ++ (P.publicKey bob.identitySk).val =
    (P.publicKey aliceSk).val ++ bundle.identityPk.val ↔ _
  rw [hid, hbob, List.append_left_inj]
  exact Subtype.ext_iff.symm

theorem symbolicKdf_injective : Function.Injective symbolicApp.x3dhKdf := by
  have hfold : ∀ (l l' : List (Bytes32 × Bytes32)),
      l.foldl SymKey.rootOf (.root 0) = l'.foldl SymKey.rootOf (.root 0) → l = l' := by
    intro l
    induction l using List.reverseRecOn with
    | nil =>
      intro l' h
      cases l' using List.reverseRecOn with
      | nil => rfl
      | append_singleton l' s => rw [List.foldl_append] at h; cases h
    | append_singleton l s ih =>
      intro l' h
      cases l' using List.reverseRecOn with
      | nil => rw [List.foldl_append] at h; cases h
      | append_singleton l' s' =>
        rw [List.foldl_append, List.foldl_append] at h
        obtain ⟨hk, hs⟩ := SymKey.rootOf.inj h
        rw [ih l' hk, hs]
  exact fun l l' h => hfold l l' h

/-- A key without its top bit, which X25519 does not look at. -/
def clearTop (x : Bytes32) : Bytes32 :=
  ⟨x.val.take 31 ++ [x.val.getLast! &&& 0x7F], by simp [x.2]⟩

theorem clearTop_clearTop (x : Bytes32) : clearTop (clearTop x) = clearTop x := by
  apply Subtype.ext
  simp [clearTop, x.2, UInt8.and_assoc]

/-- The symbolic primitives, with secrets that do not depend on the top bit of a key, where one object
was signed. -/
def oneSigned (object : Bytes) : AppPlatform :=
  { symbolicApp with
    publicKey := clearTop
    diffieHellman := fun secret key => sortPair (clearTop secret) (clearTop key)
    verifyStrict := fun _ msg _ => decide (msg = object) }

theorem oneSigned_sameKey {object : Bytes} {x y : PublicKey} (h : clearTop x = clearTop y) :
    SameKey (oneSigned object) x y := fun a => by
  show sortPair (clearTop a) (clearTop x) = sortPair (clearTop a) (clearTop y)
  rw [h]

theorem oneSigned_ideal (object : Bytes) : AgreementIdeal (oneSigned object) where
  dh_comm a b := by
    show sortPair (clearTop a) (clearTop (clearTop b)) = sortPair (clearTop b) (clearTop (clearTop a))
    rw [clearTop_clearTop, clearTop_clearTop, sortPair_comm]
  dh_inj a x b c h := by
    rcases sortPair_inj h with ⟨ha, hx⟩ | ⟨ha, hx⟩
    · exact .inl ⟨ha, oneSigned_sameKey hx⟩
    · refine .inr ⟨ha.trans (clearTop_clearTop c), oneSigned_sameKey ?_⟩
      exact hx.trans (clearTop_clearTop b).symm
  kdf_inj := symbolicKdf_injective

/-- The bundle of the responder that holds `2` and `3`, with the one-time prekey `4`. -/
def exampleBundle : PrekeyBundle where
  identityPk := fill 2
  signingPk := fill 6
  signedPrekeyPk := fill 3
  signedPrekeySignature := ⟨List.replicate 64 0, List.length_replicate⟩
  oneTimePrekey := some (7, fill 4)

/-- A key with its top bit set. -/
def setTop (n : UInt8) : Bytes32 := ⟨List.replicate 31 n ++ [n ||| 0x80], by simp⟩

/-- An initiator with this bundle, whose keys the relay hands on with their top bits set: the
responder has its root key, but other associated data if the identity key was changed. With another
identity it has another root key. -/
theorem x3dh_agree_iff_some :
    let P := oneSigned (signedPrekeyObject (fill 2) (fill 6) (fill 3))
    let respond := x3dhRespond P (fill 2) (fill 2) (fill 3) (some (fill 4))
    ∃ alice, x3dhInitiate P (fill 1) (fill 1) exampleBundle (fill 5) = some alice ∧
      (respond (fill 1) (setTop 5)).rootKey = alice.rootKey ∧
      (respond (fill 1) (setTop 5)).ad = alice.ad ∧
      (respond (setTop 1) (setTop 5)).rootKey = alice.rootKey ∧
      (respond (setTop 1) (setTop 5)).ad ≠ alice.ad ∧
      (respond (fill 8) (fill 5)).rootKey ≠ alice.rootKey := by
  intro P respond
  obtain ⟨alice, halice⟩ : ∃ alice,
      x3dhInitiate P (fill 1) (fill 1) exampleBundle (fill 5) = some alice :=
    ⟨_, x3dhInitiate_some.mpr ⟨decide_eq_true rfl, rfl⟩⟩
  have hsigned : SignedOnly P exampleBundle.signingPk exampleBundle.signedPrekeySignature
      (signedPrekeyObject (P.publicKey (fill 2)) exampleBundle.signingPk (P.publicKey (fill 3))) :=
    fun msg h => (of_decide_eq_true h).trans (by decide +kernel)
  have hfresh : P.publicKey (fill 5) ≠ P.publicKey (fill 3) := by decide +kernel
  have hagree := x3dh_agree_iff (oneSigned_ideal _) ⟨fill 2, fill 3, some (fill 4)⟩
    ⟨fill 2, fill 3, some (fill 4)⟩ hsigned halice hfresh
  have hephemeral : alice.ephemeralPk = fill 5 := by
    rw [(x3dhInitiate_some.mp halice).2]
    decide +kernel
  have hroot : ∀ identityPk, clearTop identityPk = fill 1 →
      (respond identityPk (setTop 5)).rootKey = alice.rootKey := fun identityPk hpk =>
    (hagree _ _).1.mpr ⟨rfl, rfl, .some (oneSigned_sameKey (by decide +kernel)),
      oneSigned_sameKey (hpk.trans (by decide +kernel)),
      hephemeral ▸ oneSigned_sameKey (by decide +kernel)⟩
  have hsame := hroot (fill 1) (by decide +kernel)
  have hflipped := hroot (setTop 1) (by decide +kernel)
  refine ⟨alice, halice, hsame, ?_, hflipped, fun had => ?_, fun h => ?_⟩
  · exact ((hagree _ _).2 hsame).mpr (by decide +kernel)
  · exact absurd (((hagree _ _).2 hflipped).mp had) (by decide +kernel)
  · have hother : sortPair (clearTop (fill 0)) (clearTop (fill 8)) =
        sortPair (clearTop (fill 0)) (clearTop (clearTop (fill 1))) :=
      ((hagree _ _).1.mp h).2.2.2.1 (fill 0)
    exact absurd hother (by decide +kernel)

end Arcium
