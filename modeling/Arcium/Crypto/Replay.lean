import Arcium.Crypto.RatchetSpec

/-!
# Runs of one ratchet

`Reached`: the states of a ratchet that was set up by `init_alice` or `init_bob` and then used in any
way. On these a decrypt that fails is an `Err`, never a panic, and leaves the ratchet as it was
(`Reached.decrypt_error`); so failing decrypts can be dropped from a run (`replay_genuine`).
-/

namespace Arcium

namespace DoubleRatchet

variable {C : Crypto}

/-- A call on a ratchet, with the randomness it draws. -/
inductive Input where
  | encrypt (plaintext ad : Bytes) (nonce : Nonce)
  | decrypt (header : Header) (ciphertext ad : Bytes) (fresh : StaticSecret)

inductive Output where
  | encrypted (r : Except Abort (Header × Bytes))
  | decrypted (r : Except Abort Bytes)

/-- One call. -/
def call (C : Crypto) (r : DoubleRatchet C.Key) : Input → Output × DoubleRatchet C.Key
  | .encrypt plaintext ad nonce =>
    let o := r.encrypt C plaintext ad nonce
    (.encrypted o.1, o.2)
  | .decrypt header ciphertext ad fresh =>
    let o := r.decrypt C header ciphertext ad fresh
    (.decrypted o.1, o.2)

/-- The states that calls lead to. -/
inductive Reached (C : Crypto) : DoubleRatchet C.Key → Prop
  | alice (sk : C.Key) (theirInitialDh : PublicKey) (dhs : StaticSecret) :
      Reached C (initAlice C sk theirInitialDh dhs)
  | bob (sk : C.Key) (ourInitialDh : StaticSecret) : Reached C (initBob C sk ourInitialDh)
  | call {r : DoubleRatchet C.Key} (input : Input) : Reached C r → Reached C (call C r input).2

/-- A receiving chain has a peer key, also after a successful decrypt. -/
theorem decrypt_dhr {header : Header} {ct ad pt : Bytes} {fresh : StaticSecret}
    {r r' : DoubleRatchet C.Key} (h : decrypt C header ct ad fresh r = (.ok pt, r'))
    (hr : r.ckr.isSome → r.dhr.isSome) (hc : r'.ckr.isSome) : r'.dhr.isSome := by
  rcases decrypt_ok h with ⟨key, -, -, rfl⟩ | ⟨-, r₁, r₂, ck, hsw, hsk, -, -, rfl⟩
  · exact hr hc
  · obtain ⟨-, h2, -, -⟩ := skipMessageKeys_sending hsk
    show r₂.dhr.isSome
    rw [h2]
    unfold switchChain at hsw
    split at hsw
    · next hd =>
      cases hsw
      rw [hd]
      rfl
    · split at hsw
      · cases hsw
      · cases hsw
        rfl

theorem encrypt_frame (plaintext ad : Bytes) (nonce : Nonce) (r : DoubleRatchet C.Key) :
    (r.encrypt C plaintext ad nonce).2.ckr = r.ckr ∧
      (r.encrypt C plaintext ad nonce).2.dhr = r.dhr := by
  cases hc : r.cks with
  | none => simp [encrypt_none hc]
  | some ck => simp [encrypt_eq hc, advanceSend]

theorem Reached.dhr {r : DoubleRatchet C.Key} (h : Reached C r) : r.ckr.isSome → r.dhr.isSome := by
  induction h with
  | alice => exact fun h => nomatch h
  | bob => exact fun h => nomatch h
  | @call r input _ ih =>
    cases input with
    | encrypt plaintext ad nonce =>
      obtain ⟨h1, h2⟩ := encrypt_frame (C := C) plaintext ad nonce r
      show (r.encrypt C plaintext ad nonce).2.ckr.isSome → _
      simp only [DoubleRatchet.call, h1, h2]
      exact ih
    | decrypt header ciphertext ad fresh =>
      show (r.decrypt C header ciphertext ad fresh).2.ckr.isSome → _
      match h : r.decrypt C header ciphertext ad fresh with
      | (.ok pt, r') =>
        simp only [DoubleRatchet.call, h]
        exact decrypt_dhr h ih
      | (.error (.error e), r') =>
        simp only [DoubleRatchet.call, h]
        rw [decrypt_error_state h]
        exact ih
      | (.error (.panic msg), r') => exact absurd h (decrypt_not_panic ih)

/-- A decrypt that fails changes nothing. -/
theorem Reached.decrypt_error {r r' : DoubleRatchet C.Key} (hr : Reached C r) {header : Header}
    {ct ad : Bytes} {fresh : StaticSecret} {a : Abort}
    (h : decrypt C header ct ad fresh r = (.error a, r')) : (∃ e, a = .error e) ∧ r' = r := by
  cases a with
  | error e => exact ⟨⟨e, rfl⟩, decrypt_error_state h⟩
  | panic msg => exact absurd h (decrypt_not_panic hr.dhr)

/-! ## Failing inputs in a run -/

/-- A call of a run, marked if it was inserted by an adversary. -/
structure Event where
  input : Input
  forged : Bool

/-- Run all events; the outputs are those of the events that are not marked. -/
def replay (C : Crypto) : DoubleRatchet C.Key → List Event → List Output × DoubleRatchet C.Key
  | r, [] => ([], r)
  | r, ev :: evs =>
    let o := call C r ev.input
    let rest := replay C o.2 evs
    (if ev.forged then rest.1 else o.1 :: rest.1, rest.2)

/-- `input` is a decrypt that fails on `r`. -/
def Fails (C : Crypto) (r : DoubleRatchet C.Key) (input : Input) : Prop :=
  ∃ header ciphertext ad fresh a, input = .decrypt header ciphertext ad fresh ∧
    (r.decrypt C header ciphertext ad fresh).1 = .error a

/-- Every marked event is a decrypt that fails where it is run. -/
def ForgedFail (C : Crypto) : DoubleRatchet C.Key → List Event → Prop
  | _, [] => True
  | r, ev :: evs => (ev.forged = true → Fails C r ev.input) ∧ ForgedFail C (call C r ev.input).2 evs

/-- The events that are not marked. -/
def genuine (evs : List Event) : List Event := evs.filter fun ev => !ev.forged

theorem Fails.state {r : DoubleRatchet C.Key} {input : Input} (hr : Reached C r)
    (h : Fails C r input) : (call C r input).2 = r := by
  obtain ⟨header, ciphertext, ad, fresh, a, rfl, ha⟩ := h
  match hd : r.decrypt C header ciphertext ad fresh with
  | (.ok pt, r') =>
    rw [hd] at ha
    cases ha
  | (.error a', r') =>
    simp only [call, hd]
    exact (hr.decrypt_error hd).2

/-- Without the failing events a run gives the same outputs and ends in the same state. -/
theorem replay_genuine {r : DoubleRatchet C.Key} (hr : Reached C r) {evs : List Event}
    (h : ForgedFail C r evs) : replay C r (genuine evs) = replay C r evs := by
  induction evs generalizing r with
  | nil => rfl
  | cons ev evs ih =>
    obtain ⟨h1, h2⟩ := h
    have ih := ih (.call ev.input hr) h2
    cases hf : ev.forged with
    | true =>
      -- The event leaves `r` alone, so the rest starts from `r` either way.
      have hs := (h1 hf).state hr
      simp only [genuine, List.filter_cons, hf, Bool.not_true, Bool.false_eq_true, if_false, replay,
        if_true]
      rw [hs] at ih ⊢
      exact ih
    | false =>
      simp only [genuine, List.filter_cons, hf, Bool.not_false, if_true, replay, Bool.false_eq_true,
        if_false]
      rw [← ih]
      rfl

end DoubleRatchet

end Arcium
