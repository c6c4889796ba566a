import Arcium.Crypto.TwoPartyStep
import Arcium.Crypto.Symbolic
import Mathlib.Data.List.Pairwise

/-!
# What two ratchets deliver

Over every run of two ratchets and an active network (`Net.Reach`):

* **Authenticity** (`Net.accepted_authentic`): a party decrypts only what its peer encrypted, with
  that header and associated data, and each encryption at most once.
* **Completeness** (`Net.delivery_complete`): a genuine message that was not decrypted yet is
  decrypted whenever its key is stored, or it is ahead on the current chain or on the peer's next
  one within the skip limits; and there is no other place where it can be, short of an eviction.
-/

namespace Arcium

namespace Net

variable {C : Crypto} {sk : C.Key} {a b : StaticSecret} {guard : UInt32 → Prop} {net : Net C}

/-! ## Authenticity -/

/-- Two encryptions of one party under one header have one key, while no counter wraps. -/
theorem header_inj {W : Prop} {H : Hist C} (h : Inv sk W H net) (hW : W) {p : Party}
    {m m' : Encryption C.Key} (hm : m ∈ net.sent p) (hm' : m' ∈ net.sent p)
    (hh : m.header = m'.header) : m.key = m'.key := by
  obtain ⟨i, j, hs, -, hk, he⟩ := h.sent p m hm
  obtain ⟨i', j', hs', -, hk', he'⟩ := h.sent p m' hm'
  rw [he, he'] at hh
  have hi := h.pub_inj p p i i' hs.le hs'.le (congrArg Header.dh hh)
  subst hi
  have hj : (UInt32.ofNat j).toNat = (UInt32.ofNat j').toNat :=
    congrArg (fun h : Header => h.n.toNat) hh
  have hb := h.bounded hW i
  have h1 := hs.lt
  have h2 := hs'.lt
  simp only [UInt32.toNat_ofNat'] at hj
  rw [hk, hk', show j = j' by omega]

/-- Keys name the log's entries. -/
theorem nodup_of_keys {l : List (Message C.Key)} (h : (l.map (·.key)).Nodup) : l.Nodup :=
  List.Nodup.of_map _ h

/-- What a party has decrypted, its peer has encrypted. -/
theorem Reach.accepted_sent (hI : Ideal C sk) (hr : Reach sk a b guard net) (p : Party) :
    ∀ m ∈ net.accepted p, ∃ s ∈ net.sent p.other, s.toMessage = m := by
  obtain ⟨H, h⟩ := Inv.of_reach hI hr
  exact fun m hm => (h.accepted p m hm).1

/-- **A party decrypts only what its peer encrypted, and that once.** The log of what `p` decrypted
is a part of the log of what its peer encrypted, message for message (the same header, associated
data, plaintext, ciphertext and key); if no counter wraps, no header and ciphertext is in it twice. -/
theorem accepted_authentic (hI : Ideal C sk) (hr : Reach sk a b guard net) (p : Party) :
    (∀ m ∈ net.accepted p, ∃ s ∈ net.sent p.other, s.toMessage = m) ∧
      (net.accepted p).Subperm ((net.sent p.other).map (·.toMessage)) ∧
      ((∀ n, guard n → n ≠ 0xFFFFFFFF) →
        ((net.accepted p).map fun m => (m.header, m.ciphertext)).Nodup) := by
  obtain ⟨H, h⟩ := Inv.of_reach hI hr
  have hmem := hr.accepted_sent hI p
  have hnd := nodup_of_keys (h.accepted_nodup p)
  refine ⟨hmem, ?_, fun hW => ?_⟩
  · apply List.subperm_of_subset hnd
    intro m hm
    obtain ⟨s, hs, rfl⟩ := hmem m hm
    exact List.mem_map.mpr ⟨s, hs, rfl⟩
  · refine hnd.map_on fun m hm m' hm' heq => ?_
    obtain ⟨s, hs, rfl⟩ := hmem m hm
    obtain ⟨s', hs', rfl⟩ := hmem m' hm'
    have hk := header_inj h hW hs hs' (Prod.mk.inj heq).1
    exact List.inj_on_of_nodup_map (h.accepted_nodup p) hm hm' hk

/-- Bob reads a message of Alice, with the symbolic primitives. -/
theorem accepted_authentic_oneRead : (oneRead.accepted .bob).length = 1 ∧
    ∀ m ∈ oneRead.accepted .bob, ∃ s ∈ oneRead.sent .alice, s.toMessage = m :=
  ⟨by decide, (accepted_authentic (symbolic_ideal 0)
    (@reach_oneRead (fun _ => True) trivial) .bob).1⟩

/-! ## Completeness -/

/-- Its key is in the skipped table. -/
def Stored (net : Net C) (p : Party) (key : C.Key) : Prop :=
  key ∈ (net.ratchet p).skipped.entries.map Prod.snd

/-- It is ahead on the receiving chain, within `MAX_SKIP`. -/
def Ahead (net : Net C) (p : Party) (h : Header) : Prop :=
  (net.ratchet p).dhr = some h.dh ∧ (net.ratchet p).nr ≤ h.n ∧
    h.n.toNat ≤ (net.ratchet p).nr.toNat + maxSkip.toNat

/-- `k` is a key of `p`'s peer that is newer than the one `p` has. -/
def Newer (net : Net C) (p : Party) (k : PublicKey) : Prop :=
  ∃ newer older, net.dhKeys p.other = newer ++ older ∧ k ∈ newer ∧
    ∀ d, (net.ratchet p).dhr = some d → d ∈ older

/-- It is on a newer chain, and both skips stay within `MAX_SKIP`. -/
def OnNewChain (net : Net C) (p : Party) (h : Header) : Prop :=
  net.Newer p h.dh ∧ h.pn.toNat ≤ (net.ratchet p).nr.toNat + maxSkip.toNat ∧
    h.n.toNat ≤ maxSkip.toNat

/-- Where `p` can decrypt a message. -/
def Deliverable (net : Net C) (p : Party) (m : Message C.Key) : Prop :=
  net.Stored p m.key ∨ net.Ahead p m.header ∨ net.OnNewChain p m.header

/-- A skip limit stands between `p` and the message. -/
def SkipExceeded (net : Net C) (p : Party) (h : Header) : Prop :=
  ((net.ratchet p).dhr = some h.dh ∧ (net.ratchet p).nr.toNat + maxSkip.toNat < h.n.toNat) ∨
    (net.Newer p h.dh ∧ ((net.ratchet p).nr.toNat + maxSkip.toNat < h.pn.toNat ∨
      maxSkip.toNat < h.n.toNat))

/-- `p` has missed no chain of its peer: at most the newest is unknown to it. -/
def NoChainMissed (net : Net C) (p : Party) : Prop :=
  match (net.ratchet p).dhr with
  | none => (net.dhKeys p.other).length = 1
  | some d => ∃ newer older, net.dhKeys p.other = newer ++ d :: older ∧ newer.length ≤ 1

/-- The receiving chain of `p` is the sending chain of its peer: at every position of a message
under the same DH key, and at the peer's current position. -/
def ChainsAgree (net : Net C) (p : Party) : Prop :=
  ∀ ck, (net.ratchet p).ckr = some ck →
    (∀ m ∈ net.sent p.other, (net.ratchet p).dhr = some m.header.dh →
      (net.ratchet p).nr ≤ m.header.n →
      m.chain = ckAt C ck (m.header.n.toNat - (net.ratchet p).nr.toNat)) ∧
    ((net.ratchet p).dhr = some ((net.ratchet p.other).ourDhPublic C) →
      (net.ratchet p).nr ≤ (net.ratchet p.other).ns ∧
      (net.ratchet p.other).cks = some (ckAt C ck
        ((net.ratchet p.other).ns.toNat - (net.ratchet p).nr.toNat)))

/-- What a party logged is what its AEAD sealed. -/
theorem Reach.sealed (hr : Reach sk a b guard net) :
    ∀ q, ∀ m ∈ net.sent q, ∃ nonce,
      aeadEncrypt C m.key nonce m.plaintext (concatAd m.ad m.header.toBytes) = .ok m.ciphertext := by
  induction hr with
  | start _ => intro q m hm; cases hm
  | @encrypt net p pt ad nonce _ _ ih =>
    intro q m hm
    cases hc : (net.ratchet p).cks with
    | none =>
      rw [encrypt_of_none hc] at hm
      exact ih q m hm
    | some ck =>
      obtain ⟨log, heq, hlog⟩ := encrypt_of_some hc pt ad nonce
      rw [heq] at hm
      rcases p.eq_or_eq_other q with rfl | rfl
      · simp only [Function.update_self] at hm
        rcases hlog with rfl | ⟨m', rfl, -, -, -, hs⟩
        · exact ih q m hm
        · rcases List.mem_cons.mp hm with rfl | hm
          · exact ⟨nonce, hs⟩
          · exact ih q m hm
      · simp only [Function.update_of_ne p.ne_other.symm] at hm
        exact ih _ m hm
  | @decrypt net p header ct ad fresh _ _ _ ih =>
    intro q m hm
    have hs : (net.decrypt p header ct ad fresh).sent = net.sent := by
      unfold Net.decrypt
      dsimp only
      split <;> rfl
    rw [hs] at hm
    exact ih q m hm

end Net

namespace Inv

variable {C : Crypto} {sk : C.Key} {W : Prop} {H : Hist C} {net : Net C} {p : Party}

/-- A number names its position while no counter wraps. -/
theorem toNat_label (h : Inv sk W H net) (hW : W) {i j : Nat} (hj : j ≤ H.sent i) :
    (UInt32.ofNat j).toNat = j := by
  have := h.bounded hW i
  rw [UInt32.toNat_ofNat']
  omega

/-- The stored key of a genuine message's label is its key. -/
theorem stored_key (h : Inv sk W H net) (hW : W) {q : Party} {i j : Nat} (hs : H.Sent q i j)
    {key : C.Key}
    (hg : (net.ratchet p).skipped.get? (H.pub i, UInt32.ofNat j) = some key) :
    key = H.key i j := by
  obtain ⟨i', j', hp, he, -⟩ := h.table p _ (IndexMap.get?_eq_some.mp hg)
  obtain ⟨hlab, hk⟩ := Prod.mk.inj he
  obtain ⟨hpub, hn⟩ := Prod.mk.inj hlab
  have hle := hp.le
  have hi := h.pub_inj q p i i' hs.le (by omega) hpub
  subst hi
  have hj := congrArg UInt32.toNat hn
  rw [h.toNat_label hW (Nat.le_of_lt hs.lt),
    h.toNat_label hW (Nat.le_of_lt (h.passed_sent hp).lt)] at hj
  rw [hk, hj]

/-- A stored key of a genuine message has the message's label. -/
theorem stored_label (h : Inv sk W H net) (hI : Ideal C sk) {q : Party} {i j : Nat}
    (hs : H.Sent q i j) (hst : net.Stored p (H.key i j)) :
    (net.ratchet p).skipped.get? (H.pub i, UInt32.ofNat j) = some (H.key i j) := by
  obtain ⟨⟨lab, key⟩, he, hk⟩ := List.mem_map.mp hst
  obtain ⟨i', j', hp, heq, -⟩ := h.table p _ he
  obtain ⟨rfl, rfl⟩ := Prod.mk.inj heq
  have hle := hp.le
  obtain ⟨rfl, rfl⟩ := h.key_inj hI (p := p) (q := q) hp.pos (by omega) hs.pos hs.le hk
  exact IndexMap.get?_eq_some.mpr he

/-- The key of a message on a newer chain belongs to the peer's next epoch. -/
theorem newer_epoch (h : Inv sk W H net) {i : Nat} (ho : owner i = p.other) (hpos : 1 ≤ i)
    (hle : i ≤ H.cur p.other) (hn : net.Newer p (H.pub i)) : i = H.cur p + 1 := by
  obtain ⟨newer, older, hkeys, hmem, hold⟩ := hn
  have hadj := h.adjacent p
  by_cases h0 : H.cur p = 0
  · omega
  have hd : (net.ratchet p).dhr = some (H.pub (H.cur p - 1)) := by
    rw [(h.party p).dhr, if_neg h0]
  -- The peer's keys are listed from its newest epoch down.
  rw [h.dhKeys] at hkeys
  unfold Hist.keysOf at hkeys
  obtain ⟨l₁, l₂, hl, rfl, rfl⟩ := List.map_eq_append_iff.mp hkeys
  have hpw : (l₁ ++ l₂).Pairwise (· > ·) := by
    rw [← hl]
    exact (List.pairwise_reverse.mpr List.pairwise_lt_range).filter _
  have hin : ∀ x ∈ l₁ ++ l₂, x ≤ H.cur p.other := by
    intro x hx
    rw [← hl, List.mem_filter, List.mem_reverse, List.mem_range] at hx
    omega
  obtain ⟨x, hx, hxp⟩ := List.mem_map.mp hmem
  obtain ⟨y, hy, hyp⟩ := List.mem_map.mp (hold _ hd)
  have hxi := h.pub_inj p.other p.other x i (hin x (List.mem_append_left _ hx)) hle hxp
  have hye := h.pub_inj p.other p y (H.cur p - 1) (hin y (List.mem_append_right _ hy)) (by omega) hyp
  have hgt := (List.pairwise_append.mp hpw).2.2 x hx y hy
  have hne : i ≠ H.cur p := by
    rintro rfl
    rw [h.owner_cur] at ho
    exact p.ne_other ho
  omega

/-- The newest key of a party comes first. -/
theorem keysOf_eq (h : Inv sk W H net) (q : Party) :
    H.keysOf q = H.pub (H.cur q) :: (H.keysOf q).tail := by
  unfold Hist.keysOf
  rw [List.range_succ, List.reverse_append, List.reverse_singleton, List.singleton_append,
    List.filter_cons_of_pos (by simp [h.owner_cur q])]
  rfl

/-- A position of the peer's newest epoch is on a newer chain. -/
theorem newer_of_epoch (h : Inv sk W H net) (hc : H.cur p.other = H.cur p + 1) :
    net.Newer p (H.pub (H.cur p + 1)) := by
  have hmem : ∀ d, (net.ratchet p).dhr = some d → d ∈ (H.keysOf p.other).tail := by
    intro d hd
    by_cases h0 : H.cur p = 0
    · rw [(h.party p).dhr, if_pos h0] at hd
      cases hd
    · rw [(h.party p).dhr, if_neg h0] at hd
      obtain rfl := Option.some.inj hd
      have hin : H.pub (H.cur p - 1) ∈ H.keysOf p.other :=
        Hist.mem_keysOf.mpr ⟨_, by omega, h.owner_pred_cur (by omega), rfl⟩
      rw [h.keysOf_eq, hc] at hin
      rcases List.mem_cons.mp hin with heq | hin
      · have := h.pub_inj p p.other _ _ (by omega) (by omega) heq
        omega
      · exact hin
  refine ⟨[H.pub (H.cur p + 1)], (H.keysOf p.other).tail, ?_, by simp, hmem⟩
  rw [h.dhKeys, h.keysOf_eq, hc]
  rfl

/-- The key with which a message ahead on the receiving chain is opened. -/
theorem messageKey_ahead (h : Inv sk W H net) (hW : W) {i j : Nat} (hs : H.Sent p.other i j)
    (fresh : StaticSecret)
    (hg : (net.ratchet p).skipped.get? (H.pub i, UInt32.ofNat j) = none)
    (ha : net.Ahead p (H.header i j)) :
    (net.ratchet p).messageKey C (H.header i j) fresh = some (H.key i j) := by
  obtain ⟨hd, hle, hlim⟩ := ha
  have hpt := h.party p
  have h0 : H.cur p ≠ 0 := by
    intro h0
    rw [hpt.dhr, if_pos h0] at hd
    cases hd
  have hi : H.cur p - 1 = i := by
    have hd' := hpt.dhr
    rw [hd, if_neg h0] at hd'
    exact (h.pub_inj p.other p i _ hs.le (by omega) (Option.some.inj hd')).symm
  have hpos := hs.pos
  have hckr : (net.ratchet p).ckr = some (ckAt C (H.chain i) (H.recv i)) := by
    rw [hpt.ckr, if_neg (by omega), hi]
  have hnr : (net.ratchet p).nr.toNat = H.recv i := by
    rw [hpt.nr, hi]; exact h.toNat_label hW (h.recv_le i)
  have hn : (H.header i j).n.toNat = j := h.toNat_label hW (Nat.le_of_lt hs.lt)
  have hrj : H.recv i ≤ j := by
    have := UInt32.le_iff_toNat_le.mp hle
    omega
  have hsk : ¬ DoubleRatchet.saturatingAdd (net.ratchet p).nr maxSkip < (H.header i j).n := by
    rw [DoubleRatchet.saturatingAdd_lt]; omega
  have hsw : (net.ratchet p).switchChain C (H.header i j) fresh = (.ok (), net.ratchet p) := by
    unfold DoubleRatchet.switchChain
    rw [if_pos hd]
  have hskip := DoubleRatchet.skipMessageKeys_eq hd hckr (H.header i j).n
  rw [if_neg hsk] at hskip
  unfold DoubleRatchet.messageKey
  have hg' : (net.ratchet p).skipped.get? ((H.header i j).dh, (H.header i j).n) = none := hg
  rw [hg', hsw]
  simp only [hskip]
  show (some (ckAt C (ckAt C (H.chain i) (H.recv i)) _)).map _ = _
  rw [hn, hnr, ← ckAt_add, show H.recv i + (j - H.recv i) = j by omega]
  rfl

/-- The key with which a message on the peer's next chain is opened. -/
theorem messageKey_newChain (h : Inv sk W H net) (hI : Ideal C sk) (hW : W) {i j : Nat}
    (hs : H.Sent p.other i j) (fresh : StaticSecret)
    (hg : (net.ratchet p).skipped.get? (H.pub i, UInt32.ofNat j) = none)
    (hn : net.OnNewChain p (H.header i j)) :
    (net.ratchet p).messageKey C (H.header i j) fresh = some (H.key i j) := by
  obtain ⟨hnew, hpn, hlim⟩ := hn
  have hi := h.newer_epoch hs.owner hs.pos hs.le hnew
  subst hi
  have hpt := h.party p
  have hle := hs.le
  have hne : (net.ratchet p).dhr ≠ some (H.header (H.cur p + 1) j).dh := by
    rw [hpt.dhr]
    split
    · exact nofun
    · intro heq
      have := h.pub_inj p p.other _ _ (by omega) hle (Option.some.inj heq)
      omega
  -- Closing the old chain succeeds, and leaves the root key and our DH key alone.
  obtain ⟨r₀, hcl⟩ : ∃ r₀, (net.ratchet p).skipMessageKeys C (H.header (H.cur p + 1) j).pn =
      (.ok (), r₀) := by
    have hlim' : ¬ DoubleRatchet.saturatingAdd (net.ratchet p).nr maxSkip <
        (H.header (H.cur p + 1) j).pn := by rw [DoubleRatchet.saturatingAdd_lt]; omega
    by_cases he : H.cur p ≤ 1
    · have hckr : (net.ratchet p).ckr = none := by rw [hpt.ckr, if_pos he]
      exact ⟨_, by rw [DoubleRatchet.skipMessageKeys_none hckr, if_neg hlim']⟩
    · have hckr := hpt.ckr
      have hdhr := hpt.dhr
      rw [if_neg he] at hckr
      rw [if_neg (by omega)] at hdhr
      exact ⟨_, by rw [DoubleRatchet.skipMessageKeys_eq hdhr hckr, if_neg hlim']⟩
  obtain ⟨hrk, hdhs⟩ := DoubleRatchet.skipMessageKeys_frame hcl
  have hsw : (net.ratchet p).switchChain C (H.header (H.cur p + 1) j) fresh =
      (.ok (), r₀.dhRatchetStep C (H.pub (H.cur p + 1)) fresh) := by
    unfold DoubleRatchet.switchChain
    rw [if_neg hne, hcl]
    rfl
  have hchain : (kdfRk C r₀.rk (C.diffieHellman r₀.dhs (H.pub (H.cur p + 1)))).2 =
      H.chain (H.cur p + 1) := by
    rw [hrk, hdhs, hpt.rk, hpt.dhs, Hist.pub, hI.dh_comm]
    exact (h.keys_of_le hle).2.symm
  have hnum : (H.header (H.cur p + 1) j).n.toNat = j := h.toNat_label hW (Nat.le_of_lt hs.lt)
  have hlim' : ¬ DoubleRatchet.saturatingAdd
      (r₀.dhRatchetStep C (H.pub (H.cur p + 1)) fresh).nr maxSkip <
        (H.header (H.cur p + 1) j).n := by
    rw [DoubleRatchet.saturatingAdd_lt]
    omega
  have hskip := DoubleRatchet.skipMessageKeys_eq
    (r := r₀.dhRatchetStep C (H.pub (H.cur p + 1)) fresh) rfl rfl (H.header (H.cur p + 1) j).n
  rw [if_neg hlim'] at hskip
  unfold DoubleRatchet.messageKey
  have hg' : (net.ratchet p).skipped.get? ((H.header (H.cur p + 1) j).dh,
      (H.header (H.cur p + 1) j).n) = none := hg
  rw [hg', hsw]
  simp only [hskip]
  show (some (ckAt C (kdfRk C r₀.rk _).2 ((H.header (H.cur p + 1) j).n.toNat - 0))).map _ = _
  rw [hchain, hnum]
  rfl

theorem messageKey_deliverable (h : Inv sk W H net) (hI : Ideal C sk) (hW : W) {i j : Nat}
    {m : Message C.Key} (hs : H.Sent p.other i j) (hk : m.key = H.key i j)
    (hh : m.header = H.header i j) (fresh : StaticSecret) (hd : net.Deliverable p m) :
    (net.ratchet p).messageKey C m.header fresh = some m.key := by
  unfold Net.Deliverable at hd
  rw [hh, hk] at hd ⊢
  cases hg : (net.ratchet p).skipped.get? (H.pub i, UInt32.ofNat j) with
  | some key =>
    unfold DoubleRatchet.messageKey
    have hg' : (net.ratchet p).skipped.get? ((H.header i j).dh, (H.header i j).n) = some key := hg
    rw [hg', h.stored_key hW hs hg]
  | none =>
    rcases hd with hd | hd | hd
    · rw [h.stored_label hI hs hd] at hg
      cases hg
    · exact h.messageKey_ahead hW hs fresh hg hd
    · exact h.messageKey_newChain hI hW hs fresh hg hd

/-- Every position of the peer is deliverable, or behind a limit, or was evicted, unless it was
decrypted. -/
theorem classify (h : Inv sk W H net) (hW : W) {i j : Nat} {m : Message C.Key}
    (hs : H.Sent p.other i j) (hk : m.key = H.key i j) (hh : m.header = H.header i j)
    (hna : m.key ∉ (net.accepted p).map (·.key)) :
    net.Deliverable p m ∨ net.SkipExceeded p m.header ∨ m.key ∈ net.evicted p := by
  unfold Net.Deliverable
  rw [hk] at hna
  rw [hh, hk]
  have hpt := h.party p
  have hle := hs.le
  have hn : (H.header i j).n.toNat = j := h.toNat_label hW (Nat.le_of_lt hs.lt)
  have hpassed : H.Passed p i j → net.Stored p (H.key i j) ∨ H.key i j ∈ net.evicted p := by
    intro hp
    rcases h.settled hW p i j hp with h1 | h1 | h1
    · exact absurd h1 hna
    · exact .inl (List.mem_map.mpr ⟨_, h1, rfl⟩)
    · exact .inr h1
  have hne : i ≠ H.cur p := by
    rintro rfl
    exact p.ne_other (by rw [← hs.owner, h.owner_cur])
  have hne2 : i + 2 ≠ H.cur p := by
    intro he
    apply p.ne_other
    rw [← hs.owner, ← owner_add_two i, he, h.owner_cur]
  have hadj := h.adjacent p
  have hcases : i = H.cur p + 1 ∨ i + 1 = H.cur p ∨ i + 3 ≤ H.cur p := by omega
  rcases hcases with rfl | he | he
  · -- The peer's next chain.
    have hnew := h.newer_of_epoch (p := p) (by omega)
    by_cases h1 : (H.header (H.cur p + 1) j).pn.toNat ≤ (net.ratchet p).nr.toNat + maxSkip.toNat
    · by_cases h2 : (H.header (H.cur p + 1) j).n.toNat ≤ maxSkip.toNat
      · exact .inl (.inr (.inr ⟨hnew, h1, h2⟩))
      · exact .inr (.inl (.inr ⟨hnew, .inr (by omega)⟩))
    · exact .inr (.inl (.inr ⟨hnew, .inl (by omega)⟩))
  · -- The current chain.
    have hd : (net.ratchet p).dhr = some (H.header i j).dh := by
      rw [hpt.dhr, if_neg (by omega), ← he]; rfl
    have hnr : (net.ratchet p).nr.toNat = H.recv i := by
      rw [hpt.nr, ← he]; exact h.toNat_label hW (h.recv_le i)
    by_cases hj : j < H.recv i
    · rcases hpassed ⟨hs.owner, hs.pos, by omega, hj⟩ with h1 | h1
      · exact .inl (.inl h1)
      · exact .inr (.inr h1)
    · by_cases hlim : (H.header i j).n.toNat ≤ (net.ratchet p).nr.toNat + maxSkip.toNat
      · exact .inl (.inr (.inl ⟨hd, UInt32.le_iff_toNat_le.mpr (by omega), hlim⟩))
      · exact .inr (.inl (.inl ⟨hd, by omega⟩))
  · -- A closed chain.
    have hclosed := h.closed hW p i hs.owner he
    have hlt := hs.lt
    rcases hpassed ⟨hs.owner, hs.pos, by omega, by omega⟩ with h1 | h1
    · exact .inl (.inl h1)
    · exact .inr (.inr h1)

theorem noChainMissed (h : Inv sk W H net) (p : Party) : net.NoChainMissed p := by
  have hpt := h.party p
  have hadj := h.adjacent p
  unfold Net.NoChainMissed
  rw [h.dhKeys]
  by_cases h0 : H.cur p = 0
  · have hd : (net.ratchet p).dhr = none := by rw [hpt.dhr, if_pos h0]
    rw [hd]
    have h1 : H.cur p.other = 1 := by omega
    have hp : p = .bob := by
      have := h.owner_cur p
      rw [h0] at this
      exact this.symm
    subst hp
    unfold Hist.keysOf
    rw [h1]
    rfl
  · have hd : (net.ratchet p).dhr = some (H.pub (H.cur p - 1)) := by rw [hpt.dhr, if_neg h0]
    rw [hd]
    rcases hadj with ha | ha
    · -- The peer is one key ahead.
      obtain ⟨k, hk⟩ : ∃ k, H.cur p = k + 1 := ⟨H.cur p - 1, by omega⟩
      have hk1 : owner k = p.other := h.owner_pred_cur hk.symm
      have hk2 : owner (k + 1) ≠ p.other := by
        rw [owner_succ, hk1, Party.other_other]
        exact p.ne_other
      have hk3 : owner (k + 2) = p.other := by rw [owner_add_two, hk1]
      refine ⟨[H.pub (k + 2)], ((List.range k).reverse.filter (owner · = p.other)).map H.pub, ?_,
        by simp⟩
      unfold Hist.keysOf
      rw [ha, hk, List.range_succ, List.range_succ, List.range_succ]
      simp [hk1, hk2, hk3]
    · refine ⟨[], (H.keysOf p.other).tail, ?_, by simp⟩
      rw [List.nil_append, show H.cur p - 1 = H.cur p.other by omega]
      exact h.keysOf_eq p.other

theorem chainsAgree (h : Inv sk W H net) (hW : W) (p : Party) : net.ChainsAgree p := by
  intro ck hck
  have hpt := h.party p
  have hadj := h.adjacent p
  have he : ¬ H.cur p ≤ 1 := by
    intro he
    rw [hpt.ckr, if_pos he] at hck
    cases hck
  have hckr : ck = ckAt C (H.chain (H.cur p - 1)) (H.recv (H.cur p - 1)) := by
    have hc := hpt.ckr
    rw [hck, if_neg he] at hc
    exact Option.some.inj hc
  have hd : (net.ratchet p).dhr = some (H.pub (H.cur p - 1)) := by
    rw [hpt.dhr, if_neg (by omega)]
  have hnr : (net.ratchet p).nr.toNat = H.recv (H.cur p - 1) := by
    rw [hpt.nr]; exact h.toNat_label hW (h.recv_le _)
  refine ⟨fun m hm hdm hle => ?_, fun hdo => ?_⟩
  · obtain ⟨i, j, hs, hch, -, hh⟩ := h.sent p.other m hm
    rw [hd, hh] at hdm
    have hi := h.pub_inj p p.other _ i (by omega) hs.le (Option.some.inj hdm)
    subst hi
    have hn : m.header.n.toNat = j := by
      rw [hh]; exact h.toNat_label hW (Nat.le_of_lt hs.lt)
    have hrj : H.recv (H.cur p - 1) ≤ j := by
      have := UInt32.le_iff_toNat_le.mp hle
      omega
    rw [hch, hckr, ← ckAt_add, hn, hnr,
      show H.recv (H.cur p - 1) + (j - H.recv (H.cur p - 1)) = j by omega]
  · have hpo := h.party p.other
    have hi : H.cur p - 1 = H.cur p.other := by
      rw [hd] at hdo
      unfold DoubleRatchet.ourDhPublic at hdo
      rw [hpo.dhs] at hdo
      exact h.pub_inj p p.other _ _ (by omega) (Nat.le_refl _) (Option.some.inj hdo)
    have hns : (net.ratchet p.other).ns.toNat = H.sent (H.cur p.other) := by
      rw [hpo.ns]; exact h.toNat_label hW (Nat.le_refl _)
    have hle := h.recv_le (H.cur p.other)
    rw [hi] at hnr hckr
    refine ⟨UInt32.le_iff_toNat_le.mpr (by omega), ?_⟩
    rw [hpo.cks, if_neg (by omega), hckr, ← ckAt_add, hns, hnr,
      show H.recv (H.cur p.other) + (H.sent (H.cur p.other) - H.recv (H.cur p.other)) =
        H.sent (H.cur p.other) by omega]

end Inv

namespace Net

variable {C : Crypto} {sk : C.Key} {a b : StaticSecret} {net : Net C}

/-- A genuine message that was not decrypted is decrypted where it is deliverable, and is deliverable
unless a limit is exceeded or its key was evicted. -/
theorem Reach.sent_delivers (hI : Ideal C sk) (hA : AeadCorrect C)
    (hr : Reach sk a b (· ≠ 0xFFFFFFFF) net) (p : Party) :
    ∀ m ∈ net.sent p.other, m.toMessage ∉ net.accepted p →
      (net.Deliverable p m.toMessage → ∀ fresh, ∃ r',
        (net.ratchet p).decrypt C m.header m.ciphertext m.ad fresh = (.ok m.plaintext, r')) ∧
      (net.Deliverable p m.toMessage ∨ net.SkipExceeded p m.header ∨ m.key ∈ net.evicted p) := by
  obtain ⟨H, h⟩ := Inv.of_reach hI hr
  intro m hm hna
  obtain ⟨i, j, hs, -, hk, hh⟩ := h.sent p.other m hm
  refine ⟨fun hd fresh => ?_, h.classify (fun _ hn => hn) hs hk hh fun hmem => hna ?_⟩
  · obtain ⟨nonce, hseal⟩ := hr.sealed p.other m hm
    exact DoubleRatchet.decrypt_of_key
      (h.messageKey_deliverable hI (fun _ hn => hn) hs hk hh fresh hd) (hA.decrypt hseal)
  · obtain ⟨a, ha, hak⟩ := List.mem_map.mp hmem
    obtain ⟨⟨m', hm', rfl⟩, -⟩ := h.accepted p a ha
    have : m' = m := List.inj_on_of_nodup_map (h.sent_nodup p.other) hm' hm hak
    rw [← this]
    exact ha

/-- **Completeness under any delivery order.** Over runs in which nobody encrypts at the last
message number: a genuine message that was not decrypted is decrypted if its key is stored, or it
is ahead on the receiving chain or on a newer one within the limits; it always is, unless a limit
is exceeded or its key was evicted; no chain of the peer is missed; and the receiving chain is the
peer's sending chain.

Decrypting needs that DH is commutative and the AEAD correct. That DH and the KDFs are injective too,
as in `Ideal`, is for the network: whatever it makes of the messages, what a party has decrypted is
known by its key. -/
theorem delivery_complete (hI : Ideal C sk) (hA : AeadCorrect C)
    (hr : Reach sk a b (· ≠ 0xFFFFFFFF) net) (p : Party) :
    (∀ m ∈ net.sent p.other, m.toMessage ∉ net.accepted p →
      (net.Deliverable p m.toMessage → ∀ fresh, ∃ r',
        (net.ratchet p).decrypt C m.header m.ciphertext m.ad fresh = (.ok m.plaintext, r')) ∧
      (net.Deliverable p m.toMessage ∨ net.SkipExceeded p m.header ∨ m.key ∈ net.evicted p)) ∧
    net.NoChainMissed p ∧ net.ChainsAgree p := by
  obtain ⟨H, h⟩ := Inv.of_reach hI hr
  exact ⟨hr.sent_delivers hI hA p, h.noChainMissed p, h.chainsAgree (fun _ hn => hn) p⟩

/-- Alice's first message, which Bob has not read, is on a newer chain, and Bob can decrypt it. -/
theorem delivery_complete_oneSent : oneSent.OnNewChain .bob oneMessage.header ∧
    ∀ fresh, ∃ r', (oneSent.ratchet .bob).decrypt symbolic oneMessage.header
      oneMessage.ciphertext oneMessage.ad fresh = (.ok oneMessage.plaintext, r') := by
  have hnew : oneSent.OnNewChain .bob oneMessage.header :=
    ⟨⟨[fill 1], [], rfl, List.mem_singleton.mpr rfl, nofun⟩, by decide, by decide⟩
  have h := delivery_complete (symbolic_ideal 0) symbolic_aeadCorrect
    (reach_oneSent (by decide)) .bob
  exact ⟨hnew, (h.1 oneMessage (List.mem_singleton.mpr rfl) nofun).1 (.inr (.inr hnew))⟩

end Net

end Arcium
