import Arcium.Crypto.TwoParty

/-!
# The invariant of two ratchets

The DH keys of both parties form one sequence of epochs: epoch `0` is Bob's initial key, epoch `1`
Alice's first one, and each later epoch belongs to the party that received a message of the epoch
before it. Every epoch but the first has one sending chain. `Hist` is that sequence, with how far
each chain was used by its sender (`sent`) and by its receiver (`recv`).

`Inv` ties every chain key and every stored key of both ratchets to a position of a chain:

* `Hist.PartyAt`: a ratchet at epoch `e` sends on chain `e` and receives on chain `e - 1`;
* `table`: a stored key is the key of a position that was passed and not decrypted;
* `settled`: a position that was passed was decrypted, or its key is stored, or it was evicted.

A receiver moves on its receiving chain in two ways, and each keeps `Inv`: it skips to a position
(`Inv.skip`), and it uses the current one (`Inv.take`). Both are cases of `Inv.advance`, as is using
a stored key (`Inv.takeStored`).
-/

namespace Arcium

open Function (update)

/-- The party whose DH key epoch `i` is. -/
def owner (i : Nat) : Party := if i % 2 = 1 then .alice else .bob

theorem owner_succ (i : Nat) : owner (i + 1) = (owner i).other := by
  unfold owner
  rcases Nat.mod_two_eq_zero_or_one i with h | h
  · rw [h, show (i + 1) % 2 = 1 by omega]; rfl
  · rw [h, show (i + 1) % 2 = 0 by omega]; rfl

theorem owner_add_two (i : Nat) : owner (i + 2) = owner i := by
  rw [owner_succ, owner_succ, Party.other_other]

/-- The epochs of both parties. -/
structure Hist (C : Crypto) where
  secret : Nat → StaticSecret
  root : Nat → C.Key
  chain : Nat → C.Key
  /-- How many positions of a chain its sender has used. -/
  sent : Nat → Nat
  /-- How many positions of a chain its receiver has passed. -/
  recv : Nat → Nat
  /-- The epoch of each party. -/
  cur : Party → Nat

namespace Hist

variable {C : Crypto} (H : Hist C)

def pub (i : Nat) : PublicKey := C.publicKey (H.secret i)

/-- The message key at position `j` of chain `i`. -/
def key (i j : Nat) : C.Key := mkAt C (H.chain i) j

def header (i j : Nat) : Header :=
  { dh := H.pub i, pn := UInt32.ofNat (H.sent (i - 2)), n := UInt32.ofNat j }

/-- The keys of `p`, newest first. -/
def keysOf (p : Party) : List PublicKey :=
  ((List.range (H.cur p + 1)).reverse.filter (owner · = p)).map H.pub

/-- `p` used position `j` of its chain `i`. -/
structure Sent (p : Party) (i j : Nat) : Prop where
  owner : owner i = p
  pos : 1 ≤ i
  le : i ≤ H.cur p
  lt : j < H.sent i

/-- `p` passed position `j` of the peer's chain `i`. -/
structure Passed (p : Party) (i j : Nat) : Prop where
  owner : Arcium.owner i = p.other
  pos : 1 ≤ i
  le : i + 1 ≤ H.cur p
  lt : j < H.recv i

/-- A ratchet at epoch `e`. Before the first message a party has no receiving chain (`e ≤ 1`), and
Bob no sending chain (`e = 0`). -/
structure PartyAt (e : Nat) (r : DoubleRatchet C.Key) : Prop where
  dhs : r.dhs = H.secret e
  rk : r.rk = H.root e
  dhr : r.dhr = if e = 0 then none else some (H.pub (e - 1))
  cks : r.cks = if e = 0 then none else some (ckAt C (H.chain e) (H.sent e))
  ckr : r.ckr = if e ≤ 1 then none else some (ckAt C (H.chain (e - 1)) (H.recv (e - 1)))
  ns : r.ns = UInt32.ofNat (H.sent e)
  nr : r.nr = UInt32.ofNat (H.recv (e - 1))
  pn : r.pn = UInt32.ofNat (H.sent (e - 2))

end Hist

/-- What ties two ratchets and their log to their epochs. `W` says that no counter wraps. -/
structure Inv {C : Crypto} (sk : C.Key) (W : Prop) (H : Hist C) (net : Net C) : Prop where
  root_zero : H.root 0 = sk
  sent_zero : H.sent 0 = 0
  recv_zero : H.recv 0 = 0
  keys : ∀ p i, i + 1 ≤ H.cur p → (H.root (i + 1), H.chain (i + 1)) =
    kdfRk C (H.root i) (C.diffieHellman (H.secret (i + 1)) (H.pub i))
  owner_cur : ∀ p, owner (H.cur p) = p
  adjacent : ∀ p, H.cur p.other = H.cur p + 1 ∨ H.cur p = H.cur p.other + 1
  pub_inj : ∀ p q i j, i ≤ H.cur p → j ≤ H.cur q → H.pub i = H.pub j → i = j
  dhKeys : ∀ p, net.dhKeys p = H.keysOf p
  party : ∀ p, H.PartyAt (H.cur p) (net.ratchet p)
  recv_le : ∀ i, H.recv i ≤ H.sent i
  recv_new : ∀ p, H.recv (H.cur p + 1) = 0
  sent_new : ∀ p i, H.cur p < i → H.cur p.other < i → H.sent i = 0
  sent : ∀ p, ∀ m ∈ net.sent p, ∃ i j, H.Sent p i j ∧ m.chain = ckAt C (H.chain i) j ∧
    m.key = H.key i j ∧ m.header = H.header i j
  sent_nodup : ∀ p, ((net.sent p).map (·.key)).Nodup
  accepted : ∀ p, ∀ a ∈ net.accepted p, (∃ m ∈ net.sent p.other, m.toMessage = a) ∧
    ∃ i j, H.Passed p i j ∧ a.key = H.key i j
  accepted_nodup : ∀ p, ((net.accepted p).map (·.key)).Nodup
  table : ∀ p, ∀ e ∈ (net.ratchet p).skipped.entries, ∃ i j, H.Passed p i j ∧
    e = ((H.pub i, UInt32.ofNat j), H.key i j) ∧ H.key i j ∉ (net.accepted p).map (·.key)
  bounded : W → ∀ i, H.sent i < 2 ^ 32
  closed : W → ∀ p i, owner i = p.other → i + 3 ≤ H.cur p → H.recv i = H.sent i
  settled : W → ∀ p i j, H.Passed p i j → H.key i j ∈ (net.accepted p).map (·.key) ∨
    ((H.pub i, UInt32.ofNat j), H.key i j) ∈ (net.ratchet p).skipped.entries ∨
    H.key i j ∈ net.evicted p

namespace Inv

variable {C : Crypto} {sk : C.Key} {W : Prop} {H : Hist C} {net : Net C}

/-! ## Keys name positions -/

/-- Epoch `i` exists. -/
theorem keys_of_le (h : Inv sk W H net) {p : Party} {i : Nat} (hi : i + 1 ≤ H.cur p) :
    H.root (i + 1) = (kdfRk C (H.root i) (C.diffieHellman (H.secret (i + 1)) (H.pub i))).1 ∧
      H.chain (i + 1) = (kdfRk C (H.root i) (C.diffieHellman (H.secret (i + 1)) (H.pub i))).2 := by
  rw [← h.keys p i hi]
  exact ⟨rfl, rfl⟩

theorem root_inj (h : Inv sk W H net) (hI : Ideal C sk) {p q : Party} {i j : Nat}
    (hi : i ≤ H.cur p) (hj : j ≤ H.cur q) (he : H.root i = H.root j) : i = j := by
  induction i generalizing j with
  | zero =>
    cases j with
    | zero => rfl
    | succ j =>
      rw [h.root_zero, (h.keys_of_le hj).1] at he
      exact absurd he.symm (hI.hkdf_fst_ne _ _)
  | succ i ih =>
    cases j with
    | zero =>
      rw [h.root_zero, (h.keys_of_le hi).1] at he
      exact absurd he (hI.hkdf_fst_ne _ _)
    | succ j =>
      rw [(h.keys_of_le hi).1, (h.keys_of_le hj).1] at he
      have := ih (by omega) (by omega) (hI.hkdf_fst_inj _ _ _ _ he).1
      rw [this]

/-- A key derived from the root of epoch `e` is the key of a position of chain `e + 1` only. -/
theorem key_eq (h : Inv sk W H net) (hI : Ideal C sk) {p q : Party} {i j e n : Nat} {s : C.Shared}
    (hi : 1 ≤ i) (hp : i ≤ H.cur p) (he : e ≤ H.cur q)
    (hk : H.key i j = mkAt C (kdfRk C (H.root e) s).2 n) :
    i = e + 1 ∧ j = n ∧ s = C.diffieHellman (H.secret (e + 1)) (H.pub e) := by
  obtain ⟨i, rfl⟩ : ∃ i', i = i' + 1 := ⟨i - 1, by omega⟩
  unfold Hist.key at hk
  rw [(h.keys_of_le hp).2] at hk
  obtain ⟨⟨hr, hs⟩, hj⟩ := hI.mkAt_inj hk
  have hie : i = e := h.root_inj hI (p := p) (q := q) (by omega) he hr
  subst hie
  exact ⟨rfl, hj, hs.symm⟩

theorem key_inj (h : Inv sk W H net) (hI : Ideal C sk) {p q : Party} {i j i' j' : Nat}
    (hi : 1 ≤ i) (hp : i ≤ H.cur p) (hi' : 1 ≤ i') (hq : i' ≤ H.cur q)
    (hk : H.key i j = H.key i' j') : i = i' ∧ j = j' := by
  obtain ⟨e, rfl⟩ : ∃ e, i' = e + 1 := ⟨i' - 1, by omega⟩
  have hk' : H.key i j = mkAt C (kdfRk C (H.root e)
      (C.diffieHellman (H.secret (e + 1)) (H.pub e))).2 j' := by
    rw [← (h.keys_of_le hq).2]; exact hk
  obtain ⟨h1, h2, -⟩ := h.key_eq hI (q := q) hi hp (by omega) hk'
  exact ⟨h1, h2⟩

theorem owner_pred_cur (h : Inv sk W H net) {p : Party} {i : Nat} (hi : i + 1 = H.cur p) :
    owner i = p.other := by
  have := h.owner_cur p
  rw [← hi, owner_succ] at this
  rw [← this, Party.other_other]

theorem owner_cur_succ (h : Inv sk W H net) (p : Party) : owner (H.cur p + 1) = p.other := by
  rw [owner_succ, h.owner_cur]

/-- A position a party has passed exists at the peer. -/
theorem le_of_passed (h : Inv sk W H net) {p : Party} {i j : Nat} (hp : H.Passed p i j) :
    i ≤ H.cur p.other := by
  have := hp.le
  rcases h.adjacent p with e | e <;> omega

theorem passed_sent (h : Inv sk W H net) {p : Party} {i j : Nat} (hp : H.Passed p i j) :
    H.Sent p.other i j :=
  ⟨hp.owner, hp.pos, h.le_of_passed hp, Nat.lt_of_lt_of_le hp.lt (h.recv_le i)⟩

end Inv

/-! ## One party advances on its receiving chain -/

namespace Hist

variable {C : Crypto} (H : Hist C)

/-- The receiver of chain `i` has passed `v` positions of it. -/
def setRecv (i v : Nat) : Hist C := { H with recv := update H.recv i v }

@[simp] theorem setRecv_recv (i v : Nat) : (H.setRecv i v).recv i = v := Function.update_self ..

theorem setRecv_recv_ne {i k : Nat} (v : Nat) (h : k ≠ i) : (H.setRecv i v).recv k = H.recv k :=
  Function.update_of_ne h ..

variable {H}

theorem le_setRecv {i v : Nat} (hv : H.recv i ≤ v) (k : Nat) : H.recv k ≤ (H.setRecv i v).recv k := by
  by_cases hk : k = i
  · subst hk; rwa [setRecv_recv]
  · exact Nat.le_of_eq (H.setRecv_recv_ne v hk).symm

theorem Passed.setRecv {p : Party} {i j k v : Nat} (h : H.Passed p i j) (hv : H.recv k ≤ v) :
    (H.setRecv k v).Passed p i j :=
  ⟨h.owner, h.pos, h.le, Nat.lt_of_lt_of_le h.lt (le_setRecv hv i)⟩

theorem PartyAt.setRecv {e k v : Nat} {r : DoubleRatchet C.Key} (h : H.PartyAt e r)
    (hk : k ≠ e - 1) : (H.setRecv k v).PartyAt e r where
  dhs := h.dhs
  rk := h.rk
  dhr := h.dhr
  cks := h.cks
  ckr := by rw [H.setRecv_recv_ne v hk.symm]; exact h.ckr
  ns := h.ns
  nr := by rw [H.setRecv_recv_ne v hk.symm]; exact h.nr
  pn := h.pn

end Hist

namespace Inv

variable {C : Crypto} {sk : C.Key} {W : Prop} {H : Hist C} {net : Net C}

/-- The peer of the receiver of chain `e + 1` is at epoch `e + 1` or `e + 3`. -/
theorem cur_other (h : Inv sk W H net) {p : Party} {e : Nat} (he : H.cur p = e + 2) :
    H.cur p.other = e + 1 ∨ H.cur p.other = e + 3 := by
  rcases h.adjacent p with h1 | h1 <;> omega

/-- **A receiver moves on.** It passes positions of its receiving chain up to `v`, accepts messages,
stores and drops keys. -/
theorem advance (h : Inv sk W H net) {p : Party} {e v : Nat} (r : DoubleRatchet C.Key)
    (acc : List (Message C.Key)) (ev : List C.Key) (he : H.cur p = e + 2) (hle : H.recv (e + 1) ≤ v) (hs : v ≤ H.sent (e + 1))
    (hr : (H.setRecv (e + 1) v).PartyAt (e + 2) r)
    (hacc : ∀ a ∈ acc, (∃ m ∈ net.sent p.other, m.toMessage = a) ∧
      ∃ i j, (H.setRecv (e + 1) v).Passed p i j ∧ a.key = H.key i j)
    (hnodup : (acc.map (·.key)).Nodup)
    (htable : ∀ x ∈ r.skipped.entries, ∃ i j, (H.setRecv (e + 1) v).Passed p i j ∧
      x = ((H.pub i, UInt32.ofNat j), H.key i j) ∧ H.key i j ∉ acc.map (·.key))
    (hset : W → ∀ i j, (H.setRecv (e + 1) v).Passed p i j → H.key i j ∈ acc.map (·.key) ∨
      ((H.pub i, UInt32.ofNat j), H.key i j) ∈ r.skipped.entries ∨ H.key i j ∈ ev) :
    Inv sk W (H.setRecv (e + 1) v)
      { net with ratchet := update net.ratchet p r, accepted := update net.accepted p acc
                 evicted := update net.evicted p ev } := by
  have hown : owner (e + 1) = p.other := h.owner_pred_cur he.symm
  have hco := h.cur_other he
  -- The peer receives on other chains.
  have hback : ∀ i j, (H.setRecv (e + 1) v).Passed p.other i j → H.Passed p.other i j := by
    intro i j hp
    have hne : i ≠ e + 1 := by
      rintro rfl
      exact p.ne_other (by simpa [hown] using hp.owner.symm)
    refine ⟨hp.owner, hp.pos, hp.le, ?_⟩
    have := hp.lt
    rwa [H.setRecv_recv_ne v hne] at this
  refine
    { root_zero := h.root_zero, sent_zero := h.sent_zero, recv_zero := ?_, keys := h.keys
      owner_cur := h.owner_cur, adjacent := h.adjacent, pub_inj := h.pub_inj, dhKeys := h.dhKeys
      party := ?_, recv_le := ?_, recv_new := ?_, sent_new := h.sent_new, sent := ?_
      sent_nodup := h.sent_nodup, accepted := ?_, accepted_nodup := ?_, table := ?_
      bounded := h.bounded, closed := ?_, settled := ?_ }
  · rw [H.setRecv_recv_ne v (by omega)]; exact h.recv_zero
  · intro q
    rcases p.eq_or_eq_other q with rfl | rfl
    · show (H.setRecv (e + 1) v).PartyAt (H.cur q) (update net.ratchet q r q)
      rw [Function.update_self, he]
      exact hr
    · show (H.setRecv (e + 1) v).PartyAt (H.cur p.other) (update net.ratchet p r p.other)
      rw [Function.update_of_ne p.ne_other.symm]
      exact (h.party p.other).setRecv (by omega)
  · intro i
    by_cases hi : i = e + 1
    · subst hi; rw [Hist.setRecv_recv]; exact hs
    · rw [H.setRecv_recv_ne v hi]; exact h.recv_le i
  · intro q
    show (H.setRecv (e + 1) v).recv (H.cur q + 1) = 0
    rw [H.setRecv_recv_ne v ?_]
    · exact h.recv_new q
    · rcases p.eq_or_eq_other q with rfl | rfl <;> omega
  · intro q m hm
    obtain ⟨i, j, hp, hrest⟩ := h.sent q m hm
    exact ⟨i, j, ⟨hp.owner, hp.pos, hp.le, hp.lt⟩, hrest⟩
  · intro q a ha
    rcases p.eq_or_eq_other q with rfl | rfl
    · simp only [Function.update_self] at ha
      exact hacc a ha
    · simp only [Function.update_of_ne p.ne_other.symm] at ha
      obtain ⟨hm, i, j, hp, hk⟩ := h.accepted p.other a ha
      exact ⟨hm, i, j, hp.setRecv hle, hk⟩
  · intro q
    rcases p.eq_or_eq_other q with rfl | rfl
    · simp only [Function.update_self]
      exact hnodup
    · simp only [Function.update_of_ne p.ne_other.symm]
      exact h.accepted_nodup p.other
  · intro q x hx
    rcases p.eq_or_eq_other q with rfl | rfl
    · simp only [Function.update_self] at hx ⊢
      exact htable x hx
    · simp only [Function.update_of_ne p.ne_other.symm] at hx ⊢
      obtain ⟨i, j, hp, hrest⟩ := h.table p.other x hx
      exact ⟨i, j, hp.setRecv hle, hrest⟩
  · intro hW q i hi hc
    rw [H.setRecv_recv_ne v ?_]
    · exact h.closed hW q i hi hc
    · rintro rfl
      rcases p.eq_or_eq_other q with rfl | rfl
      · have : e + 1 + 3 ≤ H.cur q := hc
        omega
      · exact p.ne_other (by simpa [hown] using hi.symm)
  · intro hW q i j hp
    rcases p.eq_or_eq_other q with rfl | rfl
    · simp only [Function.update_self]
      exact hset hW i j hp
    · simp only [Function.update_of_ne p.ne_other.symm]
      exact h.settled hW p.other i j (hback i j hp)

/-- A position of the receiving chain that was not passed is in no log. -/
theorem key_not_accepted (h : Inv sk W H net) (hI : Ideal C sk) {p : Party} {e j : Nat}
    (he : H.cur p = e + 2) (hj : H.recv (e + 1) ≤ j) :
    H.key (e + 1) j ∉ (net.accepted p).map (·.key) := by
  intro hmem
  obtain ⟨a, ha, hk⟩ := List.mem_map.mp hmem
  obtain ⟨-, i, j', hp, hk'⟩ := h.accepted p a ha
  have hle := hp.le
  obtain ⟨rfl, rfl⟩ := h.key_inj hI (p := p) (q := p) (by omega) (by omega) hp.pos (by omega)
    (hk.symm.trans hk')
  have := hp.lt
  omega

/-- A position that is now passed was passed before, or is one of the new ones. -/
theorem passed_setRecv {p : Party} {i j k v : Nat} (hp : (H.setRecv k v).Passed p i j) :
    H.Passed p i j ∨ (i = k ∧ H.recv k ≤ j ∧ j < v) := by
  have hlt := hp.lt
  by_cases hi : i = k
  · subst hi
    rw [Hist.setRecv_recv] at hlt
    by_cases hj : j < H.recv i
    · exact .inl ⟨hp.owner, hp.pos, hp.le, hj⟩
    · exact .inr ⟨rfl, by omega, hlt⟩
  · rw [H.setRecv_recv_ne v hi] at hlt
    exact .inl ⟨hp.owner, hp.pos, hp.le, hlt⟩

/-- The new positions are passed. -/
theorem passed_new (h : Inv sk W H net) {p : Party} {e j v : Nat} (he : H.cur p = e + 2)
    (hj : j < v) : (H.setRecv (e + 1) v).Passed p (e + 1) j :=
  ⟨h.owner_pred_cur he.symm, by omega, by show e + 1 + 1 ≤ H.cur p; omega,
    by rwa [Hist.setRecv_recv]⟩

/-- Accepting a message of the peer under the key of a passed position. -/
theorem accepted_cons (h : Inv sk W H net) {p : Party} {e v i j : Nat} {m : Encryption C.Key}
    (hle : H.recv (e + 1) ≤ v) (hm : m ∈ net.sent p.other) (hk : m.key = H.key i j)
    (hp : (H.setRecv (e + 1) v).Passed p i j) :
    ∀ a ∈ m.toMessage :: net.accepted p, (∃ m ∈ net.sent p.other, m.toMessage = a) ∧
      ∃ i j, (H.setRecv (e + 1) v).Passed p i j ∧ a.key = H.key i j := by
  intro a ha
  rcases List.mem_cons.mp ha with rfl | ha
  · exact ⟨⟨m, hm, rfl⟩, i, j, hp, hk⟩
  · obtain ⟨hex, i, j, hp, hk⟩ := h.accepted p a ha
    exact ⟨hex, i, j, hp.setRecv hle, hk⟩

/-- **Using the current position** of the receiving chain. -/
theorem take (h : Inv sk W H net) (hI : Ideal C sk) {p : Party} {e : Nat} {m : Encryption C.Key}
    (he : H.cur p = e + 2) (hm : m ∈ net.sent p.other)
    (hk : m.key = H.key (e + 1) (H.recv (e + 1))) (hlt : H.recv (e + 1) < H.sent (e + 1)) :
    Inv sk W (H.setRecv (e + 1) (H.recv (e + 1) + 1))
      { net with
        ratchet := update net.ratchet p
          ((net.ratchet p).advanceRecv C (ckAt C (H.chain (e + 1)) (H.recv (e + 1))))
        accepted := update net.accepted p (m.toMessage :: net.accepted p) } := by
  have hpt := h.party p
  rw [he] at hpt
  have hnew := h.passed_new he (Nat.lt_succ_self (H.recv (e + 1)))
  have hle : H.recv (e + 1) ≤ H.recv (e + 1) + 1 := Nat.le_succ _
  have hna := h.key_not_accepted hI he (Nat.le_refl _)
  have key := h.advance
    ((net.ratchet p).advanceRecv C (ckAt C (H.chain (e + 1)) (H.recv (e + 1))))
    (m.toMessage :: net.accepted p) (net.evicted p) he hle hlt ?party
    (h.accepted_cons hle hm hk hnew) ?nodup ?table ?settled
  · simpa only [Function.update_eq_self] using key
  case party =>
    refine ⟨hpt.dhs, hpt.rk, hpt.dhr, hpt.cks, ?_, hpt.ns, ?_, hpt.pn⟩
    · show some (kdfCk C _).1 = _
      rw [if_neg (by omega), ← ckAt_succ]
      show _ = some (ckAt C (H.chain (e + 1)) ((H.setRecv (e + 1) _).recv (e + 1)))
      rw [Hist.setRecv_recv]
    · show (net.ratchet p).nr + 1 = UInt32.ofNat ((H.setRecv (e + 1) _).recv (e + 1))
      rw [Hist.setRecv_recv, UInt32.ofNat_add, hpt.nr]
      rfl
  case nodup =>
    rw [List.map_cons, List.nodup_cons]
    exact ⟨by rw [hk]; exact hna, h.accepted_nodup p⟩
  case table =>
    intro x hx
    obtain ⟨i, j, hp, rfl, hnot⟩ := h.table p x hx
    refine ⟨i, j, hp.setRecv hle, rfl, ?_⟩
    rw [List.map_cons, List.mem_cons, not_or]
    refine ⟨fun heq => ?_, hnot⟩
    have hle' := hp.le
    obtain ⟨rfl, rfl⟩ := h.key_inj hI (p := p) (q := p) hp.pos (by omega) (by omega) (by omega)
      (heq.trans hk)
    exact Nat.lt_irrefl _ hp.lt
  case settled =>
    intro hW i j hp
    rw [List.map_cons, List.mem_cons]
    rcases passed_setRecv hp with hp | ⟨rfl, h1, h2⟩
    · rcases h.settled hW p i j hp with hs | hs | hs
      · exact .inl (.inr hs)
      · exact .inr (.inl hs)
      · exact .inr (.inr hs)
    · have : j = H.recv (e + 1) := by omega
      subst this
      exact .inl (.inl hk.symm)

/-- **Using a stored key.** -/
theorem takeStored (h : Inv sk W H net) (hI : Ideal C sk) {p : Party} {i j : Nat}
    {m : Encryption C.Key} (hp : H.Passed p i j) (hm : m ∈ net.sent p.other)
    (hk : m.key = H.key i j) (hna : H.key i j ∉ (net.accepted p).map (·.key)) :
    Inv sk W H
      { net with
        ratchet := update net.ratchet p { net.ratchet p with
          skipped := ((net.ratchet p).skipped.swapRemove (H.pub i, UInt32.ofNat j)).2 }
        accepted := update net.accepted p (m.toMessage :: net.accepted p) } := by
  have hle' := hp.le
  have hpos := hp.pos
  obtain ⟨e, he⟩ : ∃ e, H.cur p = e + 2 := ⟨H.cur p - 2, by omega⟩
  have hsame : H.setRecv (e + 1) (H.recv (e + 1)) = H := by
    unfold Hist.setRecv
    rw [Function.update_eq_self]
  have hpt := h.party p
  rw [he] at hpt
  have key := h.advance { net.ratchet p with
      skipped := ((net.ratchet p).skipped.swapRemove (H.pub i, UInt32.ofNat j)).2 }
    (m.toMessage :: net.accepted p) (net.evicted p) he (Nat.le_refl _) (h.recv_le _) ?party
    (h.accepted_cons (Nat.le_refl _) hm hk (hsame.symm ▸ hp)) ?nodup ?table ?settled
  · simpa only [Function.update_eq_self, hsame] using key
  case party =>
    rw [hsame]
    exact ⟨hpt.dhs, hpt.rk, hpt.dhr, hpt.cks, hpt.ckr, hpt.ns, hpt.nr, hpt.pn⟩
  case nodup =>
    rw [List.map_cons, List.nodup_cons]
    exact ⟨by rw [hk]; exact hna, h.accepted_nodup p⟩
  case table =>
    intro x hx
    obtain ⟨hx, hne⟩ := IndexMap.mem_swapRemove.mp hx
    obtain ⟨i', j', hp', rfl, hnot⟩ := h.table p x hx
    refine ⟨i', j', hsame.symm ▸ hp', rfl, ?_⟩
    rw [List.map_cons, List.mem_cons, not_or]
    refine ⟨fun heq => ?_, hnot⟩
    have hle'' := hp'.le
    obtain ⟨rfl, rfl⟩ := h.key_inj hI (p := p) (q := p) hp'.pos (by omega) hpos (by omega)
      (heq.trans hk)
    exact hne rfl
  case settled =>
    intro hW i' j' hp'
    rw [hsame] at hp'
    rw [List.map_cons, List.mem_cons]
    rcases h.settled hW p i' j' hp' with hs | hs | hs
    · exact .inl (.inr hs)
    · by_cases hkey : H.key i' j' = H.key i j
      · exact .inl (.inl (hkey.trans hk.symm))
      · refine .inr (.inl (IndexMap.mem_swapRemove.mpr ⟨hs, fun heq => hkey ?_⟩))
        -- Labels name positions while no counter wraps.
        have hle'' := hp'.le
        obtain ⟨hpub, hn⟩ := Prod.mk.inj heq
        have hi := h.pub_inj p p i' i (by omega) (by omega) hpub
        subst hi
        have hj := congrArg UInt32.toNat hn
        have hb := h.bounded hW i'
        have hr := h.recv_le i'
        have h1 := hp.lt
        have h2 := hp'.lt
        simp only [UInt32.toNat_ofNat'] at hj
        rw [show j' = j by omega]
    · exact .inr (.inr hs)

/-- The number of positions that `skip_message_keys` passes, from position `v` to the number of
position `s`. -/
theorem skip_count {v s : Nat} (hvs : v ≤ s) :
    v + ((UInt32.ofNat s).toNat - (UInt32.ofNat v).toNat) ≤ s ∧
      (s < 2 ^ 32 → v + ((UInt32.ofNat s).toNat - (UInt32.ofNat v).toNat) = s) := by
  simp only [UInt32.toNat_ofNat']
  omega

/-- **Skipping** on the receiving chain. -/
theorem skip (h : Inv sk W H net) (hI : Ideal C sk) {p : Party} {e v : Nat} {stop : UInt32}
    (he : H.cur p = e + 2)
    (hv : v = H.recv (e + 1) + (stop.toNat - (net.ratchet p).nr.toNat))
    (hs : v ≤ H.sent (e + 1)) :
    let r := (net.ratchet p).skipTo C (H.pub (e + 1))
      (ckAt C (H.chain (e + 1)) (H.recv (e + 1))) stop
    Inv sk W (H.setRecv (e + 1) v)
      { net with
        ratchet := update net.ratchet p r.trimSkipped
        evicted := update net.evicted p (r.trimEvicted ++ net.evicted p) } := by
  intro r
  have hpt := h.party p
  rw [he] at hpt
  have hnr : (net.ratchet p).nr = UInt32.ofNat (H.recv (e + 1)) := hpt.nr
  have hle : H.recv (e + 1) ≤ v := by omega
  -- What a key of the table is after the loop, before trimming.
  have hlabel : ∀ j, (net.ratchet p).nr + UInt32.ofNat j = UInt32.ofNat (H.recv (e + 1) + j) := by
    intro j; rw [hnr, UInt32.ofNat_add]
  have hkey : ∀ j, mkAt C (ckAt C (H.chain (e + 1)) (H.recv (e + 1))) j =
      H.key (e + 1) (H.recv (e + 1) + j) := by
    intro j; rw [Hist.key, mkAt_add]
  have key := h.advance r.trimSkipped (net.accepted p) (r.trimEvicted ++ net.evicted p) he hle hs
    ?party ?acc (h.accepted_nodup p) ?table ?settled
  · simpa only [Function.update_eq_self] using key
  case party =>
    refine ⟨hpt.dhs, hpt.rk, hpt.dhr, hpt.cks, ?_, hpt.ns, ?_, hpt.pn⟩
    · show some (ckAt C _ _) = _
      rw [if_neg (by omega), ← ckAt_add, ← hv]
      show _ = some (ckAt C (H.chain (e + 1)) ((H.setRecv (e + 1) v).recv (e + 1)))
      rw [Hist.setRecv_recv]
    · show (net.ratchet p).nr + UInt32.ofNat _ = UInt32.ofNat ((H.setRecv (e + 1) v).recv (e + 1))
      rw [hlabel, ← hv, Hist.setRecv_recv]
  case acc =>
    intro a ha
    obtain ⟨hex, i, j, hp, hk⟩ := h.accepted p a ha
    exact ⟨hex, i, j, hp.setRecv hle, hk⟩
  case table =>
    intro x hx
    rcases DoubleRatchet.mem_skipLoop (DoubleRatchet.mem_of_mem_trimSkipped hx) with hx | ⟨j, hj, rfl⟩
    · obtain ⟨i, j, hp, rfl, hnot⟩ := h.table p x hx
      exact ⟨i, j, hp.setRecv hle, rfl, hnot⟩
    · refine ⟨e + 1, H.recv (e + 1) + j, h.passed_new he (by omega), ?_, ?_⟩
      · rw [hlabel, hkey]
      · exact h.key_not_accepted hI he (by omega)
  case settled =>
    intro hW i j hp
    -- Before trimming the key is stored, unless it was decrypted or evicted earlier.
    have hstored : H.key i j ∈ (net.accepted p).map (·.key) ∨
        ((H.pub i, UInt32.ofNat j), H.key i j) ∈ r.skipped.entries ∨
        H.key i j ∈ net.evicted p := by
      rcases passed_setRecv hp with hp | ⟨rfl, h1, h2⟩
      · rcases h.settled hW p i j hp with hs' | hs' | hs'
        · exact .inl hs'
        · refine .inr (.inl (DoubleRatchet.mem_skipLoop_of_mem hs' fun j' hj' heq => ?_))
          obtain ⟨hpub, hn⟩ := Prod.mk.inj heq
          have hle' := hp.le
          have hi := h.pub_inj p p i (e + 1) (by omega) (by omega) hpub
          subst hi
          have hn := congrArg UInt32.toNat (hn.trans (hlabel j'))
          have hb := h.bounded hW (e + 1)
          have hlt := hp.lt
          simp only [UInt32.toNat_ofNat'] at hn
          omega
        · exact .inr (.inr hs')
      · have hlt := stop.toNat_lt
        have hmem := @DoubleRatchet.mem_skipLoop_new C (H.pub (e + 1))
          (stop.toNat - (net.ratchet p).nr.toNat) (ckAt C (H.chain (e + 1)) (H.recv (e + 1)))
          (net.ratchet p).nr (net.ratchet p).skipped (by omega) (j - H.recv (e + 1)) (by omega)
        rw [hlabel, hkey, show H.recv (e + 1) + (j - H.recv (e + 1)) = j by omega] at hmem
        exact .inr (.inl hmem)
    rcases hstored with hs' | hs' | hs'
    · exact .inl hs'
    · rw [← List.take_append_drop (r.skipped.len - r.maxSkipped) r.skipped.entries] at hs'
      rcases List.mem_append.mp hs' with ht | hd
      · exact .inr (.inr (List.mem_append_left _ (List.mem_map.mpr ⟨_, ht, rfl⟩)))
      · refine .inr (.inl ?_)
        rw [DoubleRatchet.trimSkipped_entries]
        exact hd
    · exact .inr (.inr (List.mem_append_right _ hs'))

end Inv

end Arcium
