import Arcium.Crypto.TwoPartyInv

/-!
# Every step keeps the invariant of two ratchets

A DH step (`Inv.turn`) and an encryption (`Inv.encrypt`) keep `Inv`. A decryption that fails changes
nothing; one that succeeds is a chain of the moves that keep it (`Inv.decrypt`), because the AEAD
opened a message that the peer sent from a known position (`Inv.genuine`). So every run keeps it
(`Inv.of_reach`).
-/

namespace Arcium

open Function (update)

/-! ## One party takes a DH step -/

namespace Hist

variable {C : Crypto} (H : Hist C)

/-- `p` starts the epoch after its peer's. -/
def turn (p : Party) (fresh : StaticSecret) : Hist C :=
  let e := H.cur p
  let keys := kdfRk C (H.root (e + 1)) (C.diffieHellman fresh (H.pub (e + 1)))
  { H with secret := update H.secret (e + 2) fresh, root := update H.root (e + 2) keys.1
           chain := update H.chain (e + 2) keys.2, cur := update H.cur p (e + 2) }

variable {H} {p : Party} {fresh : StaticSecret}

theorem turn_secret_ne {i : Nat} (hi : i ≠ H.cur p + 2) :
    (H.turn p fresh).secret i = H.secret i := Function.update_of_ne hi ..

theorem turn_pub_ne {i : Nat} (hi : i ≠ H.cur p + 2) : (H.turn p fresh).pub i = H.pub i := by
  unfold pub
  rw [turn_secret_ne hi]

theorem turn_pub_self : (H.turn p fresh).pub (H.cur p + 2) = C.publicKey fresh := by
  show C.publicKey (update H.secret (H.cur p + 2) fresh _) = _
  rw [Function.update_self]

theorem turn_root_ne {i : Nat} (hi : i ≠ H.cur p + 2) : (H.turn p fresh).root i = H.root i :=
  Function.update_of_ne hi ..

theorem turn_chain_ne {i : Nat} (hi : i ≠ H.cur p + 2) : (H.turn p fresh).chain i = H.chain i :=
  Function.update_of_ne hi ..

theorem turn_key_ne {i : Nat} (hi : i ≠ H.cur p + 2) (j : Nat) :
    (H.turn p fresh).key i j = H.key i j := by
  unfold key
  rw [turn_chain_ne hi]

theorem turn_cur_self : (H.turn p fresh).cur p = H.cur p + 2 := Function.update_self ..

theorem turn_cur_other : (H.turn p fresh).cur p.other = H.cur p.other :=
  Function.update_of_ne p.ne_other.symm ..

theorem mem_keysOf {k : PublicKey} :
    k ∈ H.keysOf p ↔ ∃ i, i ≤ H.cur p ∧ owner i = p ∧ H.pub i = k := by
  simp only [keysOf, List.mem_map, List.mem_filter, List.mem_reverse, List.mem_range,
    decide_eq_true_eq, Nat.lt_succ_iff, and_assoc]

theorem PartyAt.turn {q : Party} {e : Nat} {r : DoubleRatchet C.Key} (h : H.PartyAt e r)
    (he : e < H.cur q + 2) : (H.turn q fresh).PartyAt e r where
  dhs := by rw [turn_secret_ne (by omega)]; exact h.dhs
  rk := by rw [turn_root_ne (by omega)]; exact h.rk
  dhr := by rw [turn_pub_ne (by omega)]; exact h.dhr
  cks := by rw [turn_chain_ne (by omega)]; exact h.cks
  ckr := by rw [turn_chain_ne (by omega)]; exact h.ckr
  ns := h.ns
  nr := h.nr
  pn := h.pn

end Hist

namespace Inv

variable {C : Crypto} {sk : C.Key} {W : Prop} {H : Hist C} {net : Net C}

/-- A fresh key is the key of no epoch. -/
theorem pub_ne_fresh (h : Inv sk W H net) {p : Party} {fresh : StaticSecret} {i : Nat}
    (hf : net.Fresh fresh) (hi : i ≤ H.cur p) : H.pub i ≠ C.publicKey fresh := by
  intro heq
  apply hf (owner i)
  rw [h.dhKeys, Hist.mem_keysOf]
  refine ⟨i, ?_, rfl, heq⟩
  -- The epochs of both parties end next to each other.
  have hadj := h.adjacent p
  rcases p.eq_or_eq_other (owner i) with ho | ho
  · rw [ho]; exact hi
  · rw [ho]
    rcases hadj with ha | ha
    · omega
    · have : i ≠ H.cur p := by
        rintro rfl
        rw [h.owner_cur] at ho
        exact p.ne_other ho
      omega

theorem keysOf_turn_self (p : Party) (fresh : StaticSecret) (ho : owner (H.cur p) = p) :
    (H.turn p fresh).keysOf p = C.publicKey fresh :: H.keysOf p := by
  have h1 : owner (H.cur p + 1) ≠ p := by
    rw [owner_succ, ho]; exact p.ne_other.symm
  have h2 : owner (H.cur p + 2) = p := by rw [owner_add_two, ho]
  unfold Hist.keysOf
  rw [Hist.turn_cur_self, List.range_succ, List.range_succ, List.reverse_append,
    List.reverse_append]
  simp only [List.reverse_singleton, List.singleton_append, List.filter_cons, h1, h2, decide_true,
    decide_false, if_true, Bool.false_eq_true, if_false, List.map_cons,
    Hist.turn_pub_self, List.cons.injEq,
    true_and]
  apply List.map_congr_left
  intro i hi
  rw [List.mem_filter, List.mem_reverse, List.mem_range] at hi
  exact Hist.turn_pub_ne (by omega)

theorem keysOf_turn_other (p : Party) (fresh : StaticSecret) (hc : H.cur p.other = H.cur p + 1) :
    (H.turn p fresh).keysOf p.other = H.keysOf p.other := by
  unfold Hist.keysOf
  rw [Hist.turn_cur_other]
  apply List.map_congr_left
  intro i hi
  rw [List.mem_filter, List.mem_reverse, List.mem_range] at hi
  exact Hist.turn_pub_ne (by omega)

/-- The ratchet after a DH step with the peer's next key. -/
theorem partyAt_turn (h : Inv sk W H net) (hI : Ideal C sk) {p : Party} (fresh : StaticSecret)
    (hc : H.cur p.other = H.cur p + 1) :
    (H.turn p fresh).PartyAt (H.cur p + 2)
      ((net.ratchet p).dhRatchetStep C (H.pub (H.cur p + 1)) fresh) := by
  have hpt := h.party p
  have hkeys := h.keys_of_le (p := p.other) (i := H.cur p) (by omega)
  have hrecv := h.recv_new p
  have hsent := h.sent_new p (H.cur p + 2) (by omega) (by omega)
  have hdh : kdfRk C (net.ratchet p).rk
      (C.diffieHellman (net.ratchet p).dhs (H.pub (H.cur p + 1))) =
      (H.root (H.cur p + 1), H.chain (H.cur p + 1)) := by
    rw [hpt.rk, hpt.dhs, Hist.pub, hI.dh_comm]
    exact Prod.ext hkeys.1.symm hkeys.2.symm
  refine ⟨?_, ?_, ?_, ?_, ?_, ?_, ?_, ?_⟩
  · show fresh = update H.secret (H.cur p + 2) fresh _
    rw [Function.update_self]
  · show (kdfRk C (kdfRk C _ _).1 _).1 = update H.root (H.cur p + 2) _ _
    rw [Function.update_self, hdh]
  · rw [if_neg (by omega), Hist.turn_pub_ne (by omega)]
    rfl
  · rw [if_neg (by omega)]
    show some (kdfRk C (kdfRk C _ _).1 _).2 =
      some (ckAt C (update H.chain (H.cur p + 2) _ _) (H.sent (H.cur p + 2)))
    rw [Function.update_self, hdh, hsent, ckAt_zero]
  · rw [if_neg (by omega), Hist.turn_chain_ne (by omega)]
    show some (kdfRk C _ _).2 = some (ckAt C (H.chain (H.cur p + 1)) (H.recv (H.cur p + 1)))
    rw [hdh, hrecv, ckAt_zero]
  · show 0 = UInt32.ofNat (H.sent (H.cur p + 2))
    rw [hsent]
    rfl
  · show 0 = UInt32.ofNat (H.recv (H.cur p + 1))
    rw [hrecv]
    rfl
  · show (net.ratchet p).ns = UInt32.ofNat (H.sent (H.cur p))
    exact hpt.ns

/-- **A DH step** with the peer's next key. -/
theorem turn (h : Inv sk W H net) (hI : Ideal C sk) {p : Party} {fresh : StaticSecret}
    (hc : H.cur p.other = H.cur p + 1) (hf : net.Fresh fresh)
    (hclosed : W → H.recv (H.cur p - 1) = H.sent (H.cur p - 1)) :
    Inv sk W (H.turn p fresh)
      { net with
        ratchet := update net.ratchet p
          ((net.ratchet p).dhRatchetStep C (H.pub (H.cur p + 1)) fresh)
        dhKeys := update net.dhKeys p (C.publicKey fresh :: net.dhKeys p) } := by
  have hcs : (H.turn p fresh).cur p = H.cur p + 2 := Hist.turn_cur_self
  have hco : (H.turn p fresh).cur p.other = H.cur p + 1 := by rw [Hist.turn_cur_other, hc]
  have hnew : (H.turn p fresh).pub (H.cur p + 2) = C.publicKey fresh := Hist.turn_pub_self
  have hcur : ∀ q, (H.turn p fresh).cur q ≤ H.cur p + 2 := by
    intro q
    rcases p.eq_or_eq_other q with rfl | rfl <;> omega
  -- Every epoch but the new one is an epoch of the peer, or before it.
  have hold : ∀ i, i ≤ H.cur p + 2 → i = H.cur p + 2 ∨ (i ≠ H.cur p + 2 ∧ i ≤ H.cur p.other) := by
    intro i hi; omega
  have hpassed : ∀ q i j, (H.turn p fresh).Passed q i j → H.Passed q i j ∨ (q = p ∧ i = H.cur p + 1) := by
    intro q i j hp
    have hle := hp.le
    rcases p.eq_or_eq_other q with rfl | rfl
    · by_cases hi : i = H.cur q + 1
      · exact .inr ⟨rfl, hi⟩
      · refine .inl ⟨hp.owner, hp.pos, ?_, hp.lt⟩
        have : i ≠ H.cur q := by
          rintro rfl
          exact q.ne_other (by rw [← hp.owner, h.owner_cur])
        omega
    · rw [hco] at hle
      exact .inl ⟨hp.owner, hp.pos, by omega, hp.lt⟩
  have hmono : ∀ q i j, H.Passed q i j → (H.turn p fresh).Passed q i j := by
    intro q i j hp
    have hle := hp.le
    refine ⟨hp.owner, hp.pos, ?_, hp.lt⟩
    rcases p.eq_or_eq_other q with rfl | rfl
    · omega
    · rw [Hist.turn_cur_other]; exact hle
  have hne : ∀ q i j, H.Passed q i j → i ≠ H.cur p + 2 := by
    intro q i j hp
    have hle := hp.le
    rcases p.eq_or_eq_other q with rfl | rfl <;> omega
  refine
    { root_zero := ?_, sent_zero := h.sent_zero, recv_zero := h.recv_zero, keys := ?_
      owner_cur := ?_, adjacent := ?_, pub_inj := ?_, dhKeys := ?_
      party := ?_, recv_le := h.recv_le, recv_new := ?_, sent_new := ?_, sent := ?_
      sent_nodup := h.sent_nodup, accepted := ?_, accepted_nodup := h.accepted_nodup, table := ?_
      bounded := h.bounded, closed := ?_, settled := ?_ }
  · rw [Hist.turn_root_ne (by omega)]; exact h.root_zero
  · intro q i hi
    have hi' := Nat.le_trans hi (hcur q)
    rw [Hist.turn_root_ne (i := i) (by omega), Hist.turn_pub_ne (i := i) (by omega)]
    rcases hold (i + 1) hi' with he | ⟨hne, hle⟩
    · obtain rfl : i = H.cur p + 1 := by omega
      simp only [Hist.turn, Function.update_self]
    · rw [Hist.turn_root_ne hne, Hist.turn_chain_ne hne, Hist.turn_secret_ne hne]
      exact h.keys p.other i hle
  · intro q
    rcases p.eq_or_eq_other q with rfl | rfl
    · rw [hcs, owner_add_two]; exact h.owner_cur q
    · rw [Hist.turn_cur_other]; exact h.owner_cur _
  · intro q
    rcases p.eq_or_eq_other q with rfl | rfl
    · omega
    · rw [Party.other_other]; omega
  · intro q q' i j hi hj heq
    rcases hold i (Nat.le_trans hi (hcur q)) with rfl | ⟨hne, hle⟩ <;>
      rcases hold j (Nat.le_trans hj (hcur q')) with rfl | ⟨hne', hle'⟩
    · rfl
    · rw [hnew, Hist.turn_pub_ne hne'] at heq
      exact absurd heq.symm (h.pub_ne_fresh hf hle')
    · rw [hnew, Hist.turn_pub_ne hne] at heq
      exact absurd heq (h.pub_ne_fresh hf hle)
    · rw [Hist.turn_pub_ne hne, Hist.turn_pub_ne hne'] at heq
      exact h.pub_inj p.other p.other i j hle hle' heq
  · intro q
    rcases p.eq_or_eq_other q with rfl | rfl
    · simp only [Function.update_self]
      rw [keysOf_turn_self _ _ (h.owner_cur q), h.dhKeys]
    · simp only [Function.update_of_ne p.ne_other.symm]
      rw [keysOf_turn_other _ _ hc, h.dhKeys]
  · intro q
    rcases p.eq_or_eq_other q with rfl | rfl
    · simp only [Function.update_self]
      rw [hcs]
      exact h.partyAt_turn hI fresh hc
    · simp only [Function.update_of_ne p.ne_other.symm]
      rw [Hist.turn_cur_other]
      exact (h.party p.other).turn (by omega)
  · intro q
    have hz : ∀ i, H.cur p + 2 ≤ i → H.recv i = 0 := by
      intro i hi
      have h1 := h.recv_le i
      have h2 := h.sent_new p i (by omega) (by omega)
      omega
    rcases p.eq_or_eq_other q with rfl | rfl
    · exact hz _ (by omega)
    · exact hz _ (by omega)
  · intro q i h1 h2
    have : H.cur p + 2 < i := by
      rcases p.eq_or_eq_other q with rfl | rfl
      · omega
      · rw [Party.other_other] at h2; omega
    exact h.sent_new p i (by omega) (by omega)
  · intro q m hm
    obtain ⟨i, j, hp, hch, hk, hh⟩ := h.sent q m hm
    have hle := hp.le
    have hi : i ≠ H.cur p + 2 := by
      rcases p.eq_or_eq_other q with rfl | rfl <;> omega
    refine ⟨i, j, ⟨hp.owner, hp.pos, ?_, hp.lt⟩, ?_, ?_, ?_⟩
    · rcases p.eq_or_eq_other q with rfl | rfl
      · omega
      · rw [Hist.turn_cur_other]; exact hle
    · rw [Hist.turn_chain_ne hi]; exact hch
    · rw [Hist.turn_key_ne hi]; exact hk
    · rw [hh]; unfold Hist.header; rw [Hist.turn_pub_ne hi]; rfl
  · intro q a ha
    obtain ⟨hex, i, j, hp, hk⟩ := h.accepted q a ha
    exact ⟨hex, i, j, hmono q i j hp, by rw [Hist.turn_key_ne (hne q i j hp)]; exact hk⟩
  · intro q x hx
    have hx' : x ∈ (net.ratchet q).skipped.entries := by
      rcases p.eq_or_eq_other q with rfl | rfl
      · simp only [Function.update_self] at hx; exact hx
      · simp only [Function.update_of_ne p.ne_other.symm] at hx; exact hx
    obtain ⟨i, j, hp, rfl, hnot⟩ := h.table q x hx'
    have hi := hne q i j hp
    exact ⟨i, j, hmono q i j hp, by rw [Hist.turn_key_ne hi, Hist.turn_pub_ne hi],
      by rw [Hist.turn_key_ne hi]; exact hnot⟩
  · intro hW q i ho hle
    rcases p.eq_or_eq_other q with rfl | rfl
    · by_cases hi : i = H.cur q - 1
      · subst hi; exact hclosed hW
      · refine h.closed hW q i ho ?_
        have : i + 2 ≠ H.cur q := by
          intro he
          have := h.owner_cur q
          rw [← he, owner_add_two, ho] at this
          exact q.ne_other this.symm
        omega
    · refine h.closed hW p.other i ho ?_
      omega
  · intro hW q i j hp
    have hsk : ((net.ratchet q).skipped = (update net.ratchet p
        ((net.ratchet p).dhRatchetStep C (H.pub (H.cur p + 1)) fresh) q).skipped) := by
      rcases p.eq_or_eq_other q with rfl | rfl
      · rw [Function.update_self]; rfl
      · rw [Function.update_of_ne p.ne_other.symm]
    rcases hpassed q i j hp with hp' | ⟨rfl, rfl⟩
    · have hi := hne q i j hp'
      rw [Hist.turn_key_ne hi, Hist.turn_pub_ne hi]
      show _ ∨ _ ∈ (update net.ratchet p _ q).skipped.entries ∨ _
      rw [← hsk]
      exact h.settled hW q i j hp'
    · have hlt : j < H.recv (H.cur q + 1) := hp.lt
      rw [h.recv_new q] at hlt
      omega

end Inv

/-! ## One party encrypts -/

namespace Net

variable {C : Crypto} {net : Net C}

theorem encrypt_of_none {p : Party} (h : (net.ratchet p).cks = none) (pt ad : Bytes)
    (nonce : Nonce) : net.encrypt p pt ad nonce = net := by
  unfold encrypt
  rw [DoubleRatchet.encrypt_none h, h]
  simp only [Function.update_eq_self]

/-- An encryption advances the chain, and logs a message unless the AEAD fails. -/
theorem encrypt_of_some {p : Party} {ck : C.Key} (h : (net.ratchet p).cks = some ck) (pt ad : Bytes)
    (nonce : Nonce) :
    ∃ log, net.encrypt p pt ad nonce =
        { net with ratchet := update net.ratchet p ((net.ratchet p).advanceSend C ck)
                   sent := update net.sent p log } ∧
      (log = net.sent p ∨ ∃ m, log = m :: net.sent p ∧ m.chain = ck ∧ m.key = (kdfCk C ck).2 ∧
        m.header = (net.ratchet p).nextHeader C ∧
        aeadEncrypt C m.key nonce m.plaintext (concatAd m.ad m.header.toBytes) =
          .ok m.ciphertext) := by
  unfold encrypt
  rw [DoubleRatchet.encrypt_eq h, h]
  cases hs : aeadEncrypt C (kdfCk C ck).2 nonce pt
      (concatAd ad ((net.ratchet p).nextHeader C).toBytes) with
  | ok ct => exact ⟨_, rfl, .inr ⟨_, rfl, rfl, rfl, rfl, hs⟩⟩
  | error e => exact ⟨_, by rw [Function.update_eq_self]; rfl, .inl rfl⟩

end Net

namespace Hist

variable {C : Crypto} (H : Hist C)

/-- `p` uses the next position of its chain. -/
def send (p : Party) : Hist C :=
  { H with sent := update H.sent (H.cur p) (H.sent (H.cur p) + 1) }

variable {H} {p : Party}

theorem send_sent_self : (H.send p).sent (H.cur p) = H.sent (H.cur p) + 1 := Function.update_self ..

theorem send_sent_ne {i : Nat} (hi : i ≠ H.cur p) : (H.send p).sent i = H.sent i :=
  Function.update_of_ne hi ..

theorem le_send (i : Nat) : H.sent i ≤ (H.send p).sent i := by
  by_cases hi : i = H.cur p
  · subst hi; rw [send_sent_self]; omega
  · exact Nat.le_of_eq (send_sent_ne hi).symm

theorem Sent.send {q : Party} {i j : Nat} (h : H.Sent q i j) : (H.send p).Sent q i j :=
  ⟨h.owner, h.pos, h.le, Nat.lt_of_lt_of_le h.lt (le_send i)⟩

theorem PartyAt.send {e : Nat} {r : DoubleRatchet C.Key} (h : H.PartyAt e r) (h1 : e ≠ H.cur p)
    (h2 : e - 2 ≠ H.cur p) : (H.send p).PartyAt e r where
  dhs := h.dhs
  rk := h.rk
  dhr := h.dhr
  cks := by rw [send_sent_ne h1]; exact h.cks
  ckr := h.ckr
  ns := by rw [send_sent_ne h1]; exact h.ns
  nr := h.nr
  pn := by rw [send_sent_ne h2]; exact h.pn

end Hist

namespace Inv

variable {C : Crypto} {sk : C.Key} {W : Prop} {H : Hist C} {net : Net C}

/-- The header the next encryption of `p` gets. -/
theorem nextHeader_eq (h : Inv sk W H net) (p : Party) :
    (net.ratchet p).nextHeader C = H.header (H.cur p) (H.sent (H.cur p)) := by
  have hpt := h.party p
  unfold DoubleRatchet.nextHeader DoubleRatchet.ourDhPublic Hist.header Hist.pub
  rw [hpt.dhs, hpt.pn, hpt.ns]

/-- **Using the next position** of the sending chain. -/
theorem send (h : Inv sk W H net) (hI : Ideal C sk) {p : Party} (hpos : 1 ≤ H.cur p)
    (hns : W → (net.ratchet p).ns ≠ 0xFFFFFFFF) (log : List (Encryption C.Key))
    (hlog : log = net.sent p ∨ ∃ m, log = m :: net.sent p ∧
      m.chain = ckAt C (H.chain (H.cur p)) (H.sent (H.cur p)) ∧
      m.key = H.key (H.cur p) (H.sent (H.cur p)) ∧
      m.header = H.header (H.cur p) (H.sent (H.cur p))) :
    Inv sk W (H.send p)
      { net with ratchet := update net.ratchet p ((net.ratchet p).advanceSend C
                   (ckAt C (H.chain (H.cur p)) (H.sent (H.cur p))))
                 sent := update net.sent p log } := by
  have hadj := h.adjacent p
  have hcur : ∀ q, H.cur q ≤ H.cur p + 1 := by
    intro q
    rcases p.eq_or_eq_other q with rfl | rfl <;> omega
  have hpt := h.party p
  -- The number of positions of an earlier chain is in no header that changes.
  have hheader : ∀ i j, i ≤ H.cur p + 1 → (H.send p).header i j = H.header i j := by
    intro i j hi
    unfold Hist.header
    rw [Hist.send_sent_ne (by omega)]
    rfl
  have hold : ∀ q, ∀ m ∈ net.sent q, ∃ i j, (H.send p).Sent q i j ∧
      m.chain = ckAt C (H.chain i) j ∧ m.key = H.key i j ∧ m.header = (H.send p).header i j := by
    intro q m hm
    obtain ⟨i, j, hs, hch, hk, hh⟩ := h.sent q m hm
    have hle := Nat.le_trans hs.le (hcur q)
    exact ⟨i, j, hs.send, hch, hk, by rw [hheader i j hle]; exact hh⟩
  have hskip : ∀ q, ((update net.ratchet p ((net.ratchet p).advanceSend C
      (ckAt C (H.chain (H.cur p)) (H.sent (H.cur p)))) q).skipped = (net.ratchet q).skipped) := by
    intro q
    rcases p.eq_or_eq_other q with rfl | rfl
    · rw [Function.update_self]; rfl
    · rw [Function.update_of_ne p.ne_other.symm]
  refine
    { root_zero := h.root_zero, sent_zero := ?_, recv_zero := h.recv_zero, keys := h.keys
      owner_cur := h.owner_cur, adjacent := h.adjacent, pub_inj := h.pub_inj, dhKeys := h.dhKeys
      party := ?_, recv_le := ?_, recv_new := h.recv_new, sent_new := ?_, sent := ?_
      sent_nodup := ?_, accepted := ?_, accepted_nodup := h.accepted_nodup, table := ?_
      bounded := ?_, closed := ?_, settled := ?_ }
  · rw [Hist.send_sent_ne (by omega)]; exact h.sent_zero
  · intro q
    rcases p.eq_or_eq_other q with rfl | rfl
    · simp only [Function.update_self]
      refine ⟨hpt.dhs, hpt.rk, hpt.dhr, ?_, hpt.ckr, ?_, hpt.nr, ?_⟩
      · show some (kdfCk C _).1 =
          if H.cur q = 0 then none else some (ckAt C (H.chain (H.cur q)) ((H.send q).sent (H.cur q)))
        rw [if_neg (by omega), Hist.send_sent_self, ckAt_succ]
      · show (net.ratchet q).ns + 1 = UInt32.ofNat ((H.send q).sent (H.cur q))
        rw [Hist.send_sent_self, UInt32.ofNat_add, hpt.ns]
        rfl
      · show (net.ratchet q).pn = UInt32.ofNat ((H.send q).sent (H.cur q - 2))
        rw [Hist.send_sent_ne (by omega)]
        exact hpt.pn
    · simp only [Function.update_of_ne p.ne_other.symm]
      exact (h.party p.other).send (by omega) (by omega)
  · intro i
    exact Nat.le_trans (h.recv_le i) (Hist.le_send i)
  · intro q i h1 h2
    have hi : i ≠ H.cur p := by
      have h1' : H.cur q < i := h1
      have h2' : H.cur q.other < i := h2
      rcases p.eq_or_eq_other q with rfl | rfl
      · omega
      · rw [Party.other_other] at h2'; omega
    rw [Hist.send_sent_ne hi]
    exact h.sent_new q i h1 h2
  · intro q m hm
    rcases p.eq_or_eq_other q with rfl | rfl
    · simp only [Function.update_self] at hm
      rcases hlog with rfl | ⟨m', rfl, hch, hk, hh⟩
      · exact hold q m hm
      · rcases List.mem_cons.mp hm with rfl | hm
        · refine ⟨H.cur q, H.sent (H.cur q), ⟨h.owner_cur q, hpos, Nat.le_refl _, ?_⟩, hch, hk, ?_⟩
          · rw [Hist.send_sent_self]; omega
          · rw [hheader _ _ (by omega)]; exact hh
        · exact hold q m hm
    · simp only [Function.update_of_ne p.ne_other.symm] at hm
      exact hold p.other m hm
  · intro q
    rcases p.eq_or_eq_other q with rfl | rfl
    · simp only [Function.update_self]
      rcases hlog with rfl | ⟨m', rfl, -, hk, -⟩
      · exact h.sent_nodup q
      · rw [List.map_cons, List.nodup_cons]
        refine ⟨fun hmem => ?_, h.sent_nodup q⟩
        obtain ⟨m, hm, hmk⟩ := List.mem_map.mp hmem
        obtain ⟨i, j, hs, -, hk', -⟩ := h.sent q m hm
        obtain ⟨rfl, rfl⟩ := h.key_inj hI (p := q) (q := q) hpos (Nat.le_refl _) hs.pos hs.le
          (hk.symm.trans (hmk.symm.trans hk'))
        exact Nat.lt_irrefl _ hs.lt
    · simp only [Function.update_of_ne p.ne_other.symm]
      exact h.sent_nodup p.other
  · intro q a ha
    obtain ⟨⟨m, hm, hma⟩, i, j, hp, hk⟩ := h.accepted q a ha
    refine ⟨⟨m, ?_, hma⟩, i, j, ⟨hp.owner, hp.pos, hp.le, hp.lt⟩, hk⟩
    show m ∈ update net.sent p log q.other
    rcases p.eq_or_eq_other q.other with ho | ho
    · rw [ho] at hm ⊢
      rw [Function.update_self]
      rcases hlog with rfl | ⟨m', rfl, -⟩
      · exact hm
      · exact List.mem_cons_of_mem _ hm
    · rw [ho] at hm ⊢
      rw [Function.update_of_ne p.ne_other.symm]
      exact hm
  · intro q x hx
    simp only [hskip] at hx
    obtain ⟨i, j, hp, hrest⟩ := h.table q x hx
    exact ⟨i, j, ⟨hp.owner, hp.pos, hp.le, hp.lt⟩, hrest⟩
  · intro hW i
    by_cases hi : i = H.cur p
    · subst hi
      rw [Hist.send_sent_self]
      have hb := h.bounded hW (H.cur p)
      have hne := hns hW
      rw [hpt.ns] at hne
      have : H.sent (H.cur p) ≠ 2 ^ 32 - 1 := by
        intro he
        rw [he] at hne
        exact hne rfl
      omega
    · rw [Hist.send_sent_ne hi]; exact h.bounded hW i
  · intro hW q i ho hle
    have hi : i ≠ H.cur p := by
      have hle' : i + 3 ≤ H.cur q := hle
      have := hcur q
      omega
    rw [Hist.send_sent_ne hi]
    exact h.closed hW q i ho hle
  · intro hW q i j hp
    simp only [hskip]
    exact h.settled hW q i j ⟨hp.owner, hp.pos, hp.le, hp.lt⟩

theorem encrypt (h : Inv sk W H net) (hI : Ideal C sk) (p : Party) (pt ad : Bytes) (nonce : Nonce)
    (hns : W → (net.ratchet p).ns ≠ 0xFFFFFFFF) : ∃ H', Inv sk W H' (net.encrypt p pt ad nonce) := by
  have hcks := (h.party p).cks
  by_cases h0 : H.cur p = 0
  · rw [if_pos h0] at hcks
    exact ⟨H, by rw [Net.encrypt_of_none hcks]; exact h⟩
  · rw [if_neg h0] at hcks
    obtain ⟨log, heq, hlog⟩ := Net.encrypt_of_some hcks pt ad nonce
    rw [heq]
    refine ⟨H.send p, h.send hI (by omega) hns log ?_⟩
    rcases hlog with hl | ⟨m, hl, hch, hk, hh, -⟩
    · exact .inl hl
    · exact .inr ⟨m, hl, hch, hk, hh.trans (h.nextHeader_eq p)⟩

end Inv

/-! ## One party decrypts -/

namespace DoubleRatchet

variable {C : Crypto}

/-- A `skip_message_keys` that succeeds on a receiving chain. -/
theorem skipMessageKeys_ok {r r' : DoubleRatchet C.Key} {dhr : PublicKey} {ck : C.Key}
    {stop : UInt32} (hd : r.dhr = some dhr) (hc : r.ckr = some ck)
    (h : skipMessageKeys C stop r = (.ok (), r')) :
    r' = (skipTo C dhr ck stop r).trimSkipped ∧
      skipEvicted C stop r = (skipTo C dhr ck stop r).trimEvicted := by
  rw [skipMessageKeys_eq hd hc] at h
  split at h
  · cases h
  · cases h
    exact ⟨rfl, by unfold skipEvicted; rw [hd, hc]⟩

/-- A `skip_message_keys` that succeeds without a receiving chain. -/
theorem skipMessageKeys_ok_none {r r' : DoubleRatchet C.Key} {stop : UInt32} (hc : r.ckr = none)
    (h : skipMessageKeys C stop r = (.ok (), r')) : r' = r ∧ skipEvicted C stop r = [] := by
  rw [skipMessageKeys_none hc] at h
  split at h
  · cases h
  · cases h
    exact ⟨rfl, by unfold skipEvicted; rw [hc]⟩

end DoubleRatchet

namespace Net

variable {C : Crypto} {net : Net C} {p : Party} {header : Header} {ct ad : Bytes}
  {fresh : StaticSecret}

theorem decrypt_of_error {e : RatchetError} {r' : DoubleRatchet C.Key}
    (h : (net.ratchet p).decrypt C header ct ad fresh = (.error (.error e), r')) :
    net.decrypt p header ct ad fresh = net := by
  have hr := DoubleRatchet.decrypt_error_state h
  subst hr
  unfold decrypt
  dsimp only
  rw [h]
  cases (net.ratchet p).messageKey C header fresh with
  | none => simp only [Function.update_eq_self]
  | some key => simp only [Function.update_eq_self]

theorem decrypt_of_ok {pt : Bytes} {key : C.Key} {r' : DoubleRatchet C.Key}
    (hk : (net.ratchet p).messageKey C header fresh = some key)
    (h : (net.ratchet p).decrypt C header ct ad fresh = (.ok pt, r')) :
    net.decrypt p header ct ad fresh =
      { net with
        ratchet := update net.ratchet p r'
        accepted := update net.accepted p
          ({ key, header, ad, plaintext := pt, ciphertext := ct } :: net.accepted p)
        dhKeys := if ((net.ratchet p).skipped.get? (header.dh, header.n)).isSome ∨
              (net.ratchet p).dhr = some header.dh
          then net.dhKeys
          else update net.dhKeys p (C.publicKey fresh :: net.dhKeys p)
        evicted := update net.evicted p
          ((net.ratchet p).decryptEvicted C header fresh ++ net.evicted p) } := by
  unfold decrypt
  dsimp only
  rw [h, hk]

end Net

namespace Inv

variable {C : Crypto} {sk : C.Key} {W : Prop} {H : Hist C} {net : Net C} {p : Party}

/-- Who sent a message under the key of a position. -/
theorem sender_eq (h : Inv sk W H net) (hI : Ideal C sk) {q : Party} {i j : Nat}
    {m : Encryption C.Key} (hm : m ∈ net.sent q) (hi : 1 ≤ i) (hc : i ≤ H.cur p)
    (hk : m.key = H.key i j) : H.Sent q i j ∧ m.header = H.header i j := by
  obtain ⟨i', j', hs, -, hk', hh⟩ := h.sent q m hm
  obtain ⟨rfl, rfl⟩ := h.key_inj hI (p := p) (q := q) hi hc hs.pos hs.le (hk.symm.trans hk')
  exact ⟨hs, hh⟩

/-- **Receiving on the current chain.** If the key at which `skip_message_keys` stops is the key of
a logged message, then the peer sent it. -/
theorem receive (h : Inv sk W H net) (hI : Ideal C sk) {k : Nat} (he : H.cur p = k + 2)
    {n : UInt32} {r₂ : DoubleRatchet C.Key} {ck : C.Key} {q : Party} {m : Encryption C.Key}
    (hs : (net.ratchet p).skipMessageKeys C n = (.ok (), r₂)) (hck : r₂.ckr = some ck)
    (hm : m ∈ net.sent q) (hmk : m.key = (kdfCk C ck).2) :
    q = p.other ∧ ∃ H', Inv sk W H'
      { net with
        ratchet := update net.ratchet p (r₂.advanceRecv C ck)
        accepted := update net.accepted p (m.toMessage :: net.accepted p)
        evicted := update net.evicted p
          ((net.ratchet p).skipEvicted C n ++ net.evicted p) } := by
  have hpt := h.party p
  rw [he] at hpt
  have hdhr : (net.ratchet p).dhr = some (H.pub (k + 1)) := by
    rw [hpt.dhr, if_neg (by omega)]; rfl
  have hckr : (net.ratchet p).ckr = some (ckAt C (H.chain (k + 1)) (H.recv (k + 1))) := by
    rw [hpt.ckr, if_neg (by omega)]; rfl
  obtain ⟨rfl, hev⟩ := DoubleRatchet.skipMessageKeys_ok hdhr hckr hs
  -- Position `v` is where the chain stops.
  obtain ⟨v, hv⟩ : ∃ v, v = H.recv (k + 1) + (n.toNat - (net.ratchet p).nr.toNat) := ⟨_, rfl⟩
  have hckv : ck = ckAt C (H.chain (k + 1)) v := by
    have : some (ckAt C (ckAt C (H.chain (k + 1)) (H.recv (k + 1)))
        (n.toNat - (net.ratchet p).nr.toNat)) = some ck := hck
    rw [hv, ckAt_add]
    exact (Option.some.inj this).symm
  subst hckv
  obtain ⟨hsent, -⟩ := h.sender_eq hI (p := p) (i := k + 1) (j := v) hm (by omega) (by omega) hmk
  have hq : q = p.other := by rw [← hsent.owner]; exact h.owner_pred_cur he.symm
  subst hq
  refine ⟨rfl, (H.setRecv (k + 1) v).setRecv (k + 1) (v + 1), ?_⟩
  have h1 := h.skip hI he hv (Nat.le_of_lt hsent.lt)
  have h2 := h1.take hI (p := p) (e := k) (m := m) he hm
    (by rw [Hist.setRecv_recv]; exact hmk) (by rw [Hist.setRecv_recv]; exact hsent.lt)
  simp only [Hist.setRecv_recv, Function.update_self, Function.update_idem] at h2
  rw [hev]
  exact h2

/-- **A message under a new key is genuine**: a chain the receiver derives for a DH key is a chain
of its peer only if the key is the peer's next one. -/
theorem genuine (h : Inv sk W H net) (hI : Ideal C sk) {x : PublicKey} {fresh : StaticSecret}
    {n : UInt32} {r₀ r₂ : DoubleRatchet C.Key} {ck : C.Key} {q : Party} {m : Encryption C.Key}
    (hrk : r₀.rk = H.root (H.cur p)) (hdhs : r₀.dhs = H.secret (H.cur p))
    (hs : (r₀.dhRatchetStep C x fresh).skipMessageKeys C n = (.ok (), r₂)) (hck : r₂.ckr = some ck)
    (hm : m ∈ net.sent q) (hmk : m.key = (kdfCk C ck).2) :
    H.cur p.other = H.cur p + 1 ∧ x = H.pub (H.cur p + 1) ∧
      m.header = H.header (H.cur p + 1) n.toNat := by
  obtain ⟨rfl, -⟩ := DoubleRatchet.skipMessageKeys_ok rfl rfl hs
  have hckn : ck = ckAt C (kdfRk C (H.root (H.cur p)) (C.diffieHellman (H.secret (H.cur p)) x)).2
      n.toNat := by
    rw [← hrk, ← hdhs]
    exact (Option.some.inj hck).symm
  subst hckn
  obtain ⟨i, j, hsent, -, hk, hh⟩ := h.sent q m hm
  obtain ⟨rfl, rfl, hdh⟩ := h.key_eq hI (p := q) (q := p) hsent.pos hsent.le (Nat.le_refl _)
    (hk.symm.trans hmk)
  have hle := hsent.le
  have hq : q = p.other := by rw [← hsent.owner]; exact h.owner_cur_succ p
  subst hq
  refine ⟨?_, ?_, hh⟩
  · rcases h.adjacent p with ha | ha <;> omega
  · rcases hI.dh_inj _ _ _ _ hdh with ⟨hpub, -⟩ | ⟨-, hx⟩
    · have := h.pub_inj p p.other _ _ (Nat.le_refl _) hle hpub
      omega
    · exact hx

/-- **Closing the receiving chain** at the number of messages the peer sent on it. -/
theorem close (h : Inv sk W H net) (hI : Ideal C sk) {r₀ : DoubleRatchet C.Key}
    (hs : (net.ratchet p).skipMessageKeys C (UInt32.ofNat (H.sent (H.cur p - 1))) = (.ok (), r₀)) :
    ∃ v, Inv sk W (H.setRecv (H.cur p - 1) v)
        { net with
          ratchet := update net.ratchet p r₀
          evicted := update net.evicted p ((net.ratchet p).skipEvicted C
            (UInt32.ofNat (H.sent (H.cur p - 1))) ++ net.evicted p) } ∧
      (W → v = H.sent (H.cur p - 1)) := by
  have hpt := h.party p
  by_cases he : H.cur p ≤ 1
  · have hckr : (net.ratchet p).ckr = none := by rw [hpt.ckr, if_pos he]
    obtain ⟨rfl, hev⟩ := DoubleRatchet.skipMessageKeys_ok_none hckr hs
    have h0 : H.cur p - 1 = 0 := by omega
    refine ⟨H.recv (H.cur p - 1), ?_, fun _ => ?_⟩
    · have hsame : H.setRecv (H.cur p - 1) (H.recv (H.cur p - 1)) = H := by
        unfold Hist.setRecv
        rw [Function.update_eq_self]
      rw [hsame, hev, List.nil_append, Function.update_eq_self, Function.update_eq_self]
      exact h
    · rw [h0, h.recv_zero, h.sent_zero]
  · obtain ⟨k, hk⟩ : ∃ k, H.cur p = k + 2 := ⟨H.cur p - 2, by omega⟩
    rw [hk] at hpt
    have hk1 : H.cur p - 1 = k + 1 := by omega
    rw [hk1] at hs ⊢
    have hdhr : (net.ratchet p).dhr = some (H.pub (k + 1)) := by
      rw [hpt.dhr, if_neg (by omega)]; rfl
    have hckr : (net.ratchet p).ckr = some (ckAt C (H.chain (k + 1)) (H.recv (k + 1))) := by
      rw [hpt.ckr, if_neg (by omega)]; rfl
    obtain ⟨rfl, hev⟩ := DoubleRatchet.skipMessageKeys_ok hdhr hckr hs
    have hnr : (net.ratchet p).nr = UInt32.ofNat (H.recv (k + 1)) := hpt.nr
    obtain ⟨hc1, hc2⟩ := skip_count (h.recv_le (k + 1))
    refine ⟨_, ?_, fun hW => hc2 (h.bounded hW (k + 1))⟩
    rw [hev]
    exact h.skip hI hk (by rw [hnr]) hc1

/-- A successful decryption. -/
theorem decrypt_ok (h : Inv sk W H net) (hI : Ideal C sk) {header : Header} {ct ad pt : Bytes}
    {fresh : StaticSecret} {r' : DoubleRatchet C.Key} (hf : net.Fresh fresh)
    (hu : ∀ key, (net.ratchet p).messageKey C header fresh = some key →
      net.Unforged key ct (concatAd ad header.toBytes))
    (hd : (net.ratchet p).decrypt C header ct ad fresh = (.ok pt, r')) :
    ∃ H', Inv sk W H' (net.decrypt p header ct ad fresh) := by
  obtain ⟨key, hkey, haead⟩ := DoubleRatchet.decrypt_ok_key hd
  obtain ⟨q, m, hm, hmk, hmc, hma, hmp⟩ := hu key hkey pt haead
  obtain ⟨hmad, hmh⟩ := concatAd_injective hma
  have hmsg : m.toMessage = { key, header, ad, plaintext := pt, ciphertext := ct } := by
    rw [← hmk, ← hmc, ← hmad, ← hmh, ← hmp]
  rw [Net.decrypt_of_ok hkey hd, ← hmsg]
  unfold DoubleRatchet.decryptEvicted
  rcases DoubleRatchet.decrypt_ok hd with ⟨k, hg, -, rfl⟩ | ⟨hg, r₁, r₂, ck, hsw, hsk, hck, -, rfl⟩
  · -- The key was stored.
    have hkk : k = key := by
      unfold DoubleRatchet.messageKey at hkey
      rw [hg] at hkey
      exact Option.some.inj hkey
    subst hkk
    obtain ⟨i, j, hp, he, hna⟩ := h.table p _ (IndexMap.get?_eq_some.mp hg)
    obtain ⟨hlab, hk⟩ := Prod.mk.inj he
    have hle := hp.le
    obtain ⟨hsent, -⟩ := h.sender_eq hI (p := p) hm hp.pos (by omega) (hmk.trans hk)
    have hq : q = p.other := by rw [← hsent.owner]; exact hp.owner
    subst hq
    refine ⟨H, ?_⟩
    rw [hg, Option.isSome_some, if_pos (.inl rfl), if_pos rfl, List.nil_append,
      Function.update_eq_self, hlab]
    exact h.takeStored hI hp hm (hmk.trans hk) hna
  · have hkk : (kdfCk C ck).2 = key := by
      unfold DoubleRatchet.messageKey at hkey
      rw [hg, hsw] at hkey
      simp only [hsk, hck, Option.map_some, Option.some.injEq] at hkey
      exact hkey
    subst hkk
    rw [hg, hsw, Option.isSome_none, if_neg Bool.false_ne_true]
    unfold DoubleRatchet.switchChain at hsw
    split at hsw
    · -- The message is on the current chain.
      next hdhr =>
      cases hsw
      rw [if_pos (.inr hdhr), if_pos hdhr, List.append_nil]
      have hpt := h.party p
      have he : 2 ≤ H.cur p := by
        by_contra hlt
        have hckr : (net.ratchet p).ckr = none := by rw [hpt.ckr, if_pos (by omega)]
        obtain ⟨rfl, -⟩ := DoubleRatchet.skipMessageKeys_ok_none hckr hsk
        rw [hckr] at hck
        cases hck
      obtain ⟨k, hk⟩ : ∃ k, H.cur p = k + 2 := ⟨H.cur p - 2, by omega⟩
      obtain ⟨rfl, H', hH'⟩ := h.receive hI hk hsk hck hm hmk
      exact ⟨H', hH'⟩
    · -- The message is on a new chain.
      next hdhr =>
      split at hsw
      · cases hsw
      · next r₀ hcl =>
        cases hsw
        rw [if_neg (by simp [hdhr]), if_neg hdhr]
        have hpt := h.party p
        have hr₀ : r₀.rk = (net.ratchet p).rk ∧ r₀.dhs = (net.ratchet p).dhs :=
          DoubleRatchet.skipMessageKeys_frame hcl
        obtain ⟨hc, hx, hh⟩ := h.genuine hI (p := p) (hr₀.1.trans hpt.rk) (hr₀.2.trans hpt.dhs)
          hsk hck hm hmk
        have hpn : header.pn = UInt32.ofNat (H.sent (H.cur p - 1)) := by
          rw [← hmh, hh]; rfl
        rw [hpn] at hcl ⊢
        obtain ⟨v, h0, hv⟩ := h.close hI hcl
        have h1 := h0.turn hI (p := p) hc hf (by
          intro hW
          show (H.setRecv (H.cur p - 1) v).recv (H.cur p - 1) = H.sent (H.cur p - 1)
          rw [Hist.setRecv_recv, hv hW])
        simp only [Function.update_self, Function.update_idem] at h1
        have hx' : (H.setRecv (H.cur p - 1) v).pub ((H.setRecv (H.cur p - 1) v).cur p + 1) =
            header.dh := hx.symm
        rw [hx'] at h1
        obtain ⟨rfl, H', h2⟩ := h1.receive hI (p := p) (k := H.cur p) (q := q)
          (by rw [Hist.turn_cur_self]; rfl)
          (by simp only [Function.update_self]; exact hsk) hck hm hmk
        simp only [Function.update_self, Function.update_idem] at h2
        rw [List.append_assoc]
        exact ⟨H', h2⟩

theorem decrypt (h : Inv sk W H net) (hI : Ideal C sk) (header : Header) (ct ad : Bytes)
    {fresh : StaticSecret} (hf : net.Fresh fresh)
    (hu : ∀ key, (net.ratchet p).messageKey C header fresh = some key →
      net.Unforged key ct (concatAd ad header.toBytes)) :
    ∃ H', Inv sk W H' (net.decrypt p header ct ad fresh) := by
  cases hd : (net.ratchet p).decrypt C header ct ad fresh with
  | mk res r' =>
    cases res with
    | ok pt => exact h.decrypt_ok hI hf hu hd
    | error e =>
      cases e with
      | error e => exact ⟨H, by rw [Net.decrypt_of_error hd]; exact h⟩
      | panic msg =>
        refine absurd hd (DoubleRatchet.decrypt_not_panic fun hs => ?_)
        have hpt := h.party p
        rw [hpt.ckr] at hs
        rw [hpt.dhr]
        split at hs
        · cases hs
        · rw [if_neg (by omega)]; rfl

end Inv

/-! ## Every run -/

/-- The epochs at the start. -/
def Hist.start (C : Crypto) (sk : C.Key) (a b : StaticSecret) : Hist C where
  secret i := if i = 0 then b else a
  root i := if i = 0 then sk else (kdfRk C sk (C.diffieHellman a (C.publicKey b))).1
  chain _ := (kdfRk C sk (C.diffieHellman a (C.publicKey b))).2
  sent _ := 0
  recv _ := 0
  cur
    | .alice => 1
    | .bob => 0

namespace Inv

variable {C : Crypto} {sk : C.Key} {W : Prop} {a b : StaticSecret}

theorem start (hab : C.publicKey a ≠ C.publicKey b) :
    Inv sk W (Hist.start C sk a b) (Net.start C sk a b) := by
  have hcur : ∀ p i, i ≤ (Hist.start C sk a b).cur p → i = 0 ∨ i = 1 := by
    intro p i hi
    have h1 : i ≤ 1 := by
      cases p with
      | alice => exact hi
      | bob => exact Nat.le_trans hi (Nat.zero_le 1)
    omega
  refine
    { root_zero := rfl, sent_zero := rfl, recv_zero := rfl, keys := ?_
      owner_cur := ?_, adjacent := ?_, pub_inj := ?_, dhKeys := ?_
      party := ?_, recv_le := fun _ => Nat.le_refl _, recv_new := fun _ => rfl
      sent_new := fun _ _ _ _ => rfl, sent := ?_
      sent_nodup := fun _ => List.nodup_nil, accepted := ?_
      accepted_nodup := fun _ => List.nodup_nil, table := ?_
      bounded := fun _ _ => Nat.two_pow_pos 32, closed := fun _ _ _ _ _ => rfl, settled := ?_ }
  · intro p i hi
    obtain rfl : i = 0 := by rcases hcur p _ hi with h | h <;> omega
    rfl
  · intro p
    cases p <;> rfl
  · intro p
    cases p
    · exact .inr rfl
    · exact .inl rfl
  · intro p q i j hi hj heq
    rcases hcur p i hi with rfl | rfl <;> rcases hcur q j hj with rfl | rfl
    · rfl
    · exact absurd heq.symm hab
    · exact absurd heq hab
    · rfl
  · intro p
    cases p <;> rfl
  · intro p
    cases p <;> exact ⟨rfl, rfl, rfl, rfl, rfl, rfl, rfl, rfl⟩
  · intro p m hm
    cases hm
  · intro p m hm
    cases hm
  · intro p x hx
    cases p <;> cases hx
  · intro hW p i j hp
    exact absurd hp.lt (Nat.not_lt_zero _)

/-- **Every run keeps the invariant.** -/
theorem of_reach (hI : Ideal C sk) {guard : UInt32 → Prop} {net : Net C}
    (hr : Net.Reach sk a b guard net) :
    ∃ H, Inv sk (∀ n, guard n → n ≠ 0xFFFFFFFF) H net := by
  induction hr with
  | start hab => exact ⟨_, start hab⟩
  | encrypt p pt ad nonce _ hg ih =>
    obtain ⟨H, h⟩ := ih
    exact h.encrypt hI p pt ad nonce fun hW => hW _ hg
  | decrypt p header ct ad fresh _ hf hu ih =>
    obtain ⟨H, h⟩ := ih
    exact h.decrypt hI header ct ad hf hu

end Inv

end Arcium
