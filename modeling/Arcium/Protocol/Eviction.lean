import Arcium.Base.TableLog
import Arcium.Protocol.Counters

/-!
# Which skipped keys are evicted (`core-crypto/src/ratchet.rs`)

`skipOps` and `decryptOps` are what a call does to the table of skipped keys, operation by operation
(`skipMessageKeys_ops`, `decrypt_ops`); a refused `decrypt` puts its snapshot back and does nothing.
`Run` is a run of a ratchet with the log of these operations.

`trim_skipped` evicts the first entry, and `decrypt_inner` takes a key out with `swap_remove`, which
moves the last entry into its place. So the order of insertion is kept as long as the keys that are
used up are among the last two entries. A key that is skipped again, which takes a peer that goes back
to an old DH key, is put in the place of the old one. `evictsOldest` is about the runs that do neither.
After a key before the last two is used up, the youngest key may be the first to go:
`run_evicts_youngest`.
-/

namespace Arcium

namespace DoubleRatchet

variable {C : Crypto} {K : Type}

/-! ## The operations of a call -/

section Ops

variable (C)

/-- What `count` rounds of the loop of `skip_message_keys` insert. -/
def skipEntries (dhr : PublicKey) : (count : Nat) → (ck : C.Key) → (nr : UInt32) →
    List ((PublicKey × UInt32) × C.Key)
  | 0, _, _ => []
  | count + 1, ck, nr =>
    ((dhr, nr), (kdfCk C ck).2) :: skipEntries dhr count (kdfCk C ck).1 (nr + 1)

/-- What `skip_message_keys` does to the table. -/
def skipOps (stop : UInt32) (r : DoubleRatchet C.Key) : List (MapOp (PublicKey × UInt32) C.Key) :=
  if saturatingAdd r.nr maxSkip < stop then []
  else
    match r.ckr, r.dhr with
    | some ck, some dhr =>
      Dated.inserts (skipEntries C dhr (stop.toNat - r.nr.toNat) ck r.nr) ++
        List.replicate ((skipTable C dhr ck stop r).len - r.maxSkipped) .evict
    | _, _ => []

/-- What a successful `decrypt` does to the table. -/
def decryptOps (header : Header) (fresh : StaticSecret) (r : DoubleRatchet C.Key) :
    List (MapOp (PublicKey × UInt32) C.Key) :=
  if (r.skipped.get? (header.dh, header.n)).isSome then [.consume (header.dh, header.n)]
  else
    (if r.dhr = some header.dh then [] else skipOps C header.pn r) ++
      skipOps C header.n (switchChain C header fresh r).2

end Ops

/-- The labels of the positions `a` to `b - 1` of a chain. -/
def labels (dhr : PublicKey) (a b : Nat) : List (PublicKey × UInt32) :=
  (List.range' a (b - a)).map fun i => (dhr, UInt32.ofNat i)

theorem skipEntries_labels (dhr : PublicKey) (count a : Nat) (ck : C.Key) :
    (skipEntries C dhr count ck (UInt32.ofNat a)).map Prod.fst = labels dhr a (a + count) := by
  rw [labels, Nat.add_sub_cancel_left]
  induction count generalizing a ck with
  | zero => rfl
  | succ count ih =>
    rw [List.range'_succ, List.map_cons, ← ih (a + 1), skipEntries, List.map_cons, UInt32.ofNat_add]
    rfl

theorem mem_labels {dhr : PublicKey} {a b : Nat} {k : PublicKey × UInt32} (hb : b ≤ 2 ^ 32)
    (h : k ∈ labels dhr a b) : k.1 = dhr ∧ a ≤ k.2.toNat ∧ k.2.toNat < b := by
  obtain ⟨i, hi, rfl⟩ := List.mem_map.mp h
  rw [List.mem_range'_1] at hi
  have hlt : (UInt32.ofNat i).toNat = i := by rw [UInt32.toNat_ofNat', Nat.mod_eq_of_lt (by omega)]
  refine ⟨rfl, ?_⟩
  show a ≤ (UInt32.ofNat i).toNat ∧ (UInt32.ofNat i).toNat < b
  omega

theorem labels_nodup (dhr : PublicKey) {a b : Nat} (hb : b ≤ 2 ^ 32) : (labels dhr a b).Nodup := by
  refine List.Nodup.map_on (fun i hi j hj he => ?_) List.nodup_range'
  have h := congrArg UInt32.toNat (Prod.mk.inj he).2
  rw [List.mem_range'_1] at hi hj
  rwa [UInt32.toNat_ofNat', UInt32.toNat_ofNat', Nat.mod_eq_of_lt (by omega),
    Nat.mod_eq_of_lt (by omega)] at h

theorem labels_length (dhr : PublicKey) (a b : Nat) : (labels dhr a b).length = b - a := by
  rw [labels, List.length_map, List.length_range']

theorem labels_getElem? (dhr : PublicKey) {a b i : Nat} (h : i < b - a) :
    (labels dhr a b)[i]? = some (dhr, UInt32.ofNat (a + i)) := by
  rw [labels, List.getElem?_map, List.getElem?_range' h, Nat.one_mul, Option.map_some]

theorem skipLoop_table (dhr : PublicKey) (count : Nat) (ck : C.Key) (nr : UInt32)
    (sk : IndexMap (PublicKey × UInt32) C.Key) : (skipLoop C dhr count ck nr sk).2.2 =
      (skipEntries C dhr count ck nr).foldl (fun m e => m.insert e.1 e.2) sk := by
  induction count generalizing ck nr sk with
  | zero => rfl
  | succ count ih => exact ih _ _ _

theorem trimSkipped_ops {r : DoubleRatchet K} {d : Dated (PublicKey × UInt32) K}
    (h : d.map = r.skipped) :
    ((List.replicate (r.skipped.len - r.maxSkipped) .evict).foldl Dated.apply d).map =
      (trimSkipped r).skipped := by
  apply IndexMap.ext_entries
  rw [trimSkipped_entries, Dated.foldl_evict_entries, h]

theorem skipMessageKeys_ops {r r' : DoubleRatchet C.Key} {stop : UInt32} (hr : r.Shaped)
    (h : skipMessageKeys C stop r = (.ok (), r')) {d : Dated (PublicKey × UInt32) C.Key}
    (hd : d.map = r.skipped) : ((skipOps C stop r).foldl Dated.apply d).map = r'.skipped := by
  unfold skipOps
  cases hc : r.ckr with
  | none =>
    rw [skipMessageKeys_none hc] at h
    split at h <;> cases h
    next hlim => rw [if_neg hlim]; exact hd
  | some ck =>
    obtain ⟨dhr, hdhr⟩ := Option.isSome_iff_exists.mp (hr.dhr_of_ckr (by rw [hc]; rfl))
    rw [skipMessageKeys_eq hdhr hc] at h
    split at h <;> cases h
    next hlim =>
      rw [if_neg hlim, hdhr]
      dsimp only
      rw [List.foldl_append]
      refine trimSkipped_ops (r := skipTo C dhr ck stop r) ?_
      rw [Dated.foldl_inserts_map, hd]
      exact (skipLoop_table _ _ _ _ _).symm

theorem decrypt_ops {header : Header} {ct ad pt : Bytes} {fresh : StaticSecret}
    {r r' : DoubleRatchet C.Key} (hr : r.Shaped)
    (h : decrypt C header ct ad fresh r = (.ok pt, r')) {d : Dated (PublicKey × UInt32) C.Key}
    (hd : d.map = r.skipped) :
    ((decryptOps C header fresh r).foldl Dated.apply d).map = r'.skipped := by
  unfold decryptOps
  rcases decrypt_ok h with ⟨key, hg, -, rfl⟩ | ⟨hg, r₁, r₂, ck, hsw, hsk, -, -, rfl⟩
  · rw [hg]
    show (d.map.swapRemove _).2 = _
    rw [hd]
  · rw [hg, Option.isSome_none, if_neg Bool.false_ne_true, List.foldl_append, hsw]
    refine skipMessageKeys_ops (switchChain_shaped hr hsw) hsk ?_
    unfold switchChain at hsw
    split at hsw
    · next he =>
      cases hsw
      rw [if_pos he]
      exact hd
    · next hne =>
      rw [if_neg hne]
      split at hsw
      · cases hsw
      · next hk =>
        cases hsw
        exact skipMessageKeys_ops hr hk hd

/-! ## The keys that a call skips -/

theorem consume_not_mem_skipOps (stop : UInt32) (r : DoubleRatchet C.Key) (k : PublicKey × UInt32) :
    .consume k ∉ skipOps C stop r := by
  intro h
  unfold skipOps Dated.inserts at h
  split at h
  · cases h
  · split at h
    · rcases List.mem_append.mp h with h | h
      · obtain ⟨e, -, he⟩ := List.mem_map.mp h
        cases he
      · cases List.eq_of_mem_replicate h
    · cases h

theorem inserted_skipOps (stop : UInt32) (r : DoubleRatchet C.Key) :
    (skipOps C stop r).filterMap MapOp.inserted = [] ∨ ∃ dhr, r.dhr = some dhr ∧
      (skipOps C stop r).filterMap MapOp.inserted =
        labels dhr r.nr.toNat (r.nr.toNat + (stop.toNat - r.nr.toNat)) := by
  unfold skipOps
  split
  · exact .inl rfl
  · split
    · next ck dhr hck hdhr =>
      refine .inr ⟨dhr, hdhr, ?_⟩
      have hevict : ∀ count, (List.replicate count (MapOp.evict (α := PublicKey × UInt32)
          (β := C.Key))).filterMap MapOp.inserted = [] := fun count =>
        List.filterMap_eq_nil_iff.mpr fun op hop => by rw [List.eq_of_mem_replicate hop]; rfl
      rw [List.filterMap_append, hevict, List.append_nil, Dated.inserted_inserts]
      have hnr : r.nr = UInt32.ofNat r.nr.toNat := UInt32.ofNat_toNat.symm
      rw [← skipEntries_labels dhr _ r.nr.toNat ck, ← hnr]
    · exact .inl rfl

theorem inserted_skipOps_nodup (stop : UInt32) (r : DoubleRatchet C.Key) :
    ((skipOps C stop r).filterMap MapOp.inserted).Nodup := by
  rcases inserted_skipOps stop r with h | ⟨dhr, -, h⟩
  · rw [h]
    exact List.nodup_nil
  · rw [h]
    refine labels_nodup _ ?_
    have := stop.toNat_lt
    have := r.nr.toNat_lt
    omega

theorem mem_inserted_skipOps {stop : UInt32} {r : DoubleRatchet C.Key} {k : PublicKey × UInt32}
    (h : k ∈ (skipOps C stop r).filterMap MapOp.inserted) :
    r.dhr = some k.1 ∧ r.nr ≤ k.2 ∧ k.2 < stop := by
  rcases inserted_skipOps stop r with he | ⟨dhr, hdhr, he⟩
  · rw [he] at h
    cases h
  · rw [he] at h
    have := stop.toNat_lt
    have := r.nr.toNat_lt
    obtain ⟨hk, hge, hlt⟩ := mem_labels (by omega) h
    rw [UInt32.le_iff_toNat_le, UInt32.lt_iff_toNat_lt]
    exact ⟨hk ▸ hdhr, hge, by omega⟩

/-- `decrypt` of a message with this header skips the key `k`, if it uses up none. -/
def Skips (r : DoubleRatchet K) (header : Header) (k : PublicKey × UInt32) : Prop :=
  if r.dhr = some header.dh then k.1 = header.dh ∧ r.nr ≤ k.2 ∧ k.2 < header.n
  else (r.dhr = some k.1 ∧ r.nr ≤ k.2 ∧ k.2 < header.pn) ∨ (k.1 = header.dh ∧ k.2 < header.n)

/-- Where the receiving chain stands after step 2 of `decrypt_inner`. -/
theorem switchChain_ok {header : Header} {fresh : StaticSecret} {r r' : DoubleRatchet C.Key}
    (h : switchChain C header fresh r = (.ok (), r')) :
    (r.dhr = some header.dh ∧ r' = r) ∨
      (r.dhr ≠ some header.dh ∧ r'.dhr = some header.dh ∧ r'.nr = 0) := by
  unfold switchChain at h
  split at h
  · next he =>
    cases h
    exact .inl ⟨he, rfl⟩
  · next hne =>
    split at h
    · cases h
    · cases h
      exact .inr ⟨hne, rfl, rfl⟩

/-- The keys that a call puts in are those that it skips, each once. -/
theorem inserted_decryptOps {header : Header} {ct ad pt : Bytes} {fresh : StaticSecret}
    {r r' : DoubleRatchet C.Key} (h : decrypt C header ct ad fresh r = (.ok pt, r'))
    (hnot : (header.dh, header.n) ∉ r.skipped.entries.map Prod.fst) :
    ((decryptOps C header fresh r).filterMap MapOp.inserted).Nodup ∧
      (∀ k ∈ (decryptOps C header fresh r).filterMap MapOp.inserted, Skips r header k) ∧
      ∀ k, .consume k ∉ decryptOps C header fresh r := by
  have hnone : ¬ (r.skipped.get? (header.dh, header.n)).isSome = true := fun hs =>
    hnot (IndexMap.isSome_get?_iff.mp hs)
  rcases decrypt_ok h with ⟨key, hg, -⟩ | ⟨-, r₁, r₂, ck, hsw, -⟩
  · rw [hg] at hnone
    exact absurd rfl hnone
  · unfold decryptOps Skips
    rw [if_neg hnone, hsw, List.filterMap_append]
    rcases switchChain_ok hsw with ⟨he, rfl⟩ | ⟨hne, hdhr, hnr⟩
    · simp only [if_pos he, List.filterMap_nil, List.nil_append]
      refine ⟨inserted_skipOps_nodup _ _, fun k hk => ?_, consume_not_mem_skipOps _ _⟩
      obtain ⟨hd, hge, hlt⟩ := mem_inserted_skipOps hk
      exact ⟨(Option.some.inj (he.symm.trans hd)).symm, hge, hlt⟩
    · simp only [if_neg hne]
      have hsecond : ∀ k ∈ (skipOps C header.n r₁).filterMap MapOp.inserted,
          k.1 = header.dh ∧ k.2 < header.n := fun k hk => by
        obtain ⟨hd, -, hlt⟩ := mem_inserted_skipOps hk
        exact ⟨(Option.some.inj (hdhr.symm.trans hd)).symm, hlt⟩
      refine ⟨?_, fun k hk => ?_, fun k hk => ?_⟩
      · refine List.nodup_append.mpr ⟨inserted_skipOps_nodup _ _, inserted_skipOps_nodup _ _, ?_⟩
        rintro k hk l hl rfl
        exact hne ((mem_inserted_skipOps hk).1.trans (congrArg some (hsecond k hl).1))
      · rcases List.mem_append.mp hk with hk | hk
        · exact .inl (mem_inserted_skipOps hk)
        · exact .inr (hsecond k hk)
      · rcases List.mem_append.mp hk with hk | hk
        · exact consume_not_mem_skipOps _ _ _ hk
        · exact consume_not_mem_skipOps _ _ _ hk

/-! ## Runs -/

section Runs

variable (C)

/-- A run of a ratchet, in which every decrypt that succeeds is `allowed`, and the log of what
happens to its skipped keys. A checkpoint may be restored between any two calls. -/
inductive Run (allowed : DoubleRatchet C.Key → Header → Prop) :
    List (MapOp (PublicKey × UInt32) C.Key) → DoubleRatchet C.Key → Prop
  | alice (sk : C.Key) (their : PublicKey) (dhs : StaticSecret) :
    Run allowed [] (initAlice C sk their dhs)
  | bob (sk : C.Key) (our : StaticSecret) : Run allowed [] (initBob C sk our)
  | encrypt {log : List (MapOp (PublicKey × UInt32) C.Key)} {r : DoubleRatchet C.Key} (pt ad : Bytes)
      (nonce : Nonce) (h : Run allowed log r) : Run allowed log (encrypt C pt ad nonce r).2
  | decrypt {log : List (MapOp (PublicKey × UInt32) C.Key)} {r r' : DoubleRatchet C.Key}
      {header : Header} {ct ad pt : Bytes} {fresh : StaticSecret} (h : Run allowed log r)
      (ha : allowed r header) (hd : decrypt C header ct ad fresh r = (.ok pt, r')) :
      Run allowed (log ++ decryptOps C header fresh r) r'
  | refuse {log : List (MapOp (PublicKey × UInt32) C.Key)} {r r' : DoubleRatchet C.Key}
      {header : Header} {ct ad : Bytes} {fresh : StaticSecret} {e : RatchetError}
      (h : Run allowed log r) (hd : decrypt C header ct ad fresh r = (.error (.error e), r')) :
      Run allowed log r'
  | restore {log : List (MapOp (PublicKey × UInt32) C.Key)} {r r' : DoubleRatchet C.Key}
      (h : Run allowed log r) (hc : r.toCheckpoint = .ok r') : Run allowed log r'

end Runs

variable {allowed : DoubleRatchet C.Key → Header → Prop}
  {log : List (MapOp (PublicKey × UInt32) C.Key)} {r : DoubleRatchet C.Key}

theorem Run.shaped (h : Run C allowed log r) : r.Shaped := by
  induction h with
  | alice sk their dhs => exact initAlice_shaped sk their dhs
  | bob sk our => exact initBob_shaped sk our
  | encrypt pt ad nonce h ih => exact encrypt_shaped ih pt ad nonce
  | @decrypt log r r' header ct ad pt fresh h ha hd ih =>
    have hs := decrypt_shaped ih header ct ad fresh
    rw [hd] at hs
    exact hs
  | refuse h hd ih => rwa [decrypt_error_state hd]
  | restore h hc ih => rwa [toCheckpoint_eq hc]

/-- The log says what is in the table. -/
theorem Run.table (h : Run C allowed log r) : (Dated.play log).map = r.skipped := by
  induction h with
  | alice sk their dhs => rfl
  | bob sk our => rfl
  | @encrypt log r pt ad nonce h ih =>
    rw [ih]
    cases hc : r.cks with
    | none => rw [encrypt_none hc]
    | some ck => rw [encrypt_eq hc]; rfl
  | decrypt h ha hd ih =>
    rw [Dated.play_append]
    exact decrypt_ops h.shaped hd ih
  | refuse h hd ih => rwa [decrypt_error_state hd]
  | restore h hc ih => rwa [toCheckpoint_eq hc]

/-! ## Runs that keep the order -/

/-- `decrypt` of a message with this header leaves the keys in order. -/
structure KeepsOrder (r : DoubleRatchet K) (header : Header) : Prop where
  /-- A skipped key that it names is the last or the last but one of the table. -/
  last : (header.dh, header.n) ∈ r.skipped.entries.map Prod.fst →
    r.skipped.len ≤ r.skipped.entries.findIdx (·.1 = (header.dh, header.n)) + 2
  /-- If it names none, then no key is skipped again that is still in the table. -/
  once : (header.dh, header.n) ∉ r.skipped.entries.map Prod.fst →
    ∀ k ∈ r.skipped.entries.map Prod.fst, ¬ Skips r header k

theorem Run.alwaysOrdered (h : Run C KeepsOrder log r) : Dated.AlwaysOrdered log := by
  induction h with
  | alice sk their dhs => exact Dated.alwaysOrdered_nil
  | bob sk our => exact Dated.alwaysOrdered_nil
  | encrypt pt ad nonce h ih => exact ih
  | @decrypt log r r' header ct ad pt fresh h ha hd ih =>
    have hages : r.skipped.entries.map Prod.fst = (Dated.play log).ages := by
      rw [← ih.last, h.table]
    by_cases hk : (header.dh, header.n) ∈ r.skipped.entries.map Prod.fst
    · have hle := ha.last hk
      rw [← h.table] at hle
      unfold decryptOps
      rw [if_pos (IndexMap.isSome_get?_iff.mpr hk)]
      rw [hages] at hk
      exact ih.snoc ((Dated.ordered_consume ih.last hk).mpr hle)
    · obtain ⟨honce, hskips, hconsume⟩ := inserted_decryptOps hd hk
      refine ih.append _ hconsume honce fun k hin hold => ?_
      rw [← hages] at hold
      exact ha.once hk k hold (hskips k hin)
  | refuse h hd ih => exact ih
  | restore h hc ih => exact ih

/-! ## Runs on one chain -/

variable (C) in
/-- Every key opens something. -/
def Opens : Prop := ∀ (key : C.Key) (aad : Bytes), ∃ ct, aeadDecrypt C key ct aad = .ok []

theorem symbolic_opens : Opens symbolic := by
  intro key aad
  obtain ⟨ct, hct⟩ : ∃ ct, aeadEncrypt symbolic key (fillNonce 0) [] aad = .ok ct := ⟨_, rfl⟩
  exact ⟨ct, symbolic_aeadCorrect.decrypt hct⟩

/-- Where a run stands: its state receives on the chain of `dhr`, at position `a`, and has skipped
keys of earlier positions only. -/
structure At (C : Crypto) (allowed : DoubleRatchet C.Key → Header → Prop)
    (log : List (MapOp (PublicKey × UInt32) C.Key)) (dhr : PublicKey) (a : Nat)
    (r : DoubleRatchet C.Key) : Prop where
  run : Run C allowed log r
  dhr : r.dhr = some dhr
  ckr : r.ckr.isSome
  nr : r.nr = UInt32.ofNat a
  earlier : ∀ k ∈ r.skipped.entries.map Prod.fst, k.2.toNat < a

section Chain

variable {dhr : PublicKey} {a b : Nat}

theorem At.nodup (h : At C allowed log dhr a r) (hb : b ≤ 2 ^ 32) :
    (r.skipped.entries.map Prod.fst ++ labels dhr a b).Nodup := by
  refine List.nodup_append.mpr ⟨r.skipped.nodup, labels_nodup dhr hb, ?_⟩
  rintro k hk l hl rfl
  have := h.earlier k hk
  have := (mem_labels hb hl).2.1
  omega

theorem At.nr_toNat (h : At C allowed log dhr a r) (ha : a < 2 ^ 32) : r.nr.toNat = a := by
  rw [h.nr, UInt32.toNat_ofNat', Nat.mod_eq_of_lt ha]

theorem At.not_skipped (h : At C allowed log dhr a r) (hab : a ≤ b) (hb : b < 2 ^ 32) :
    (dhr, UInt32.ofNat b) ∉ r.skipped.entries.map Prod.fst := by
  intro hm
  have hlt := h.earlier _ hm
  rw [UInt32.toNat_ofNat', Nat.mod_eq_of_lt hb] at hlt
  omega

/-- The message at position `b` keeps the order: only keys from position `a` on are skipped. -/
theorem At.keepsOrder (h : At C allowed log dhr a r) (hab : a ≤ b) (hb : b < 2 ^ 32) (pn : UInt32) :
    KeepsOrder r { dh := dhr, pn, n := UInt32.ofNat b } := by
  refine ⟨fun hm => absurd hm (h.not_skipped hab hb), fun _ k hk hs => ?_⟩
  unfold Skips at hs
  rw [if_pos h.dhr, UInt32.le_iff_toNat_le, h.nr_toNat (by omega)] at hs
  have := h.earlier k hk
  omega

/-- The keys that it skips come behind those that are there. -/
theorem At.skipTable_entries (h : At C allowed log dhr a r) (hab : a ≤ b) (hb : b < 2 ^ 32)
    (ck : C.Key) :
    (skipEntries C dhr (b - a) ck (UInt32.ofNat a)).map Prod.fst = labels dhr a b ∧
      (skipTable C dhr ck (UInt32.ofNat b) r).entries =
        r.skipped.entries ++ skipEntries C dhr (b - a) ck (UInt32.ofNat a) := by
  have hlabels : (skipEntries C dhr (b - a) ck (UInt32.ofNat a)).map Prod.fst = labels dhr a b := by
    rw [skipEntries_labels, Nat.add_sub_cancel' hab]
  have hn := h.nodup (b := b) (by omega)
  rw [← hlabels] at hn
  refine ⟨hlabels, ?_⟩
  rw [skipTable, skipLoop_table, h.nr_toNat (by omega), UInt32.toNat_ofNat', Nat.mod_eq_of_lt hb,
    h.nr, ← Dated.foldl_inserts_map ⟨r.skipped, []⟩]
  exact (Dated.foldl_inserts (d := ⟨r.skipped, []⟩) _ hn (List.nodup_append.mp hn).2.1).1

/-- It can be read: the keys before its own are skipped, and the chain goes on behind it. -/
theorem At.decrypts (h : At C allowed log dhr a r) (hC : Opens C) (header : Header)
    (hd : header.dh = dhr) (hlim : ¬ saturatingAdd r.nr maxSkip < header.n)
    (hnew : (dhr, header.n) ∉ r.skipped.entries.map Prod.fst) {ck : C.Key} (hck : r.ckr = some ck) :
    ∃ ct ck' pt, decrypt C header ct [] (fill 0) r =
      (.ok pt, advanceRecv C ck' (trimSkipped (skipTo C dhr ck header.n r))) := by
  subst hd
  have hg : r.skipped.get? (header.dh, header.n) = none := by
    rwa [← Option.not_isSome_iff_eq_none, IndexMap.isSome_get?_iff]
  have hsw : switchChain C header (fill 0) r = (.ok (), r) := if_pos h.dhr
  have hsk := skipMessageKeys_eq h.dhr hck header.n
  rw [if_neg hlim] at hsk
  obtain ⟨ct, hct⟩ := hC (kdfCk C (ckAt C ck (header.n.toNat - r.nr.toNat))).2
    (concatAd [] header.toBytes)
  have hkey : messageKey C header (fill 0) r =
      some (kdfCk C (ckAt C ck (header.n.toNat - r.nr.toNat))).2 := by
    simp only [messageKey, hg, hsw, hsk]
    rfl
  obtain ⟨r', hr'⟩ := decrypt_of_key hkey hct
  rcases decrypt_ok hr' with ⟨key, hk, -, -⟩ | ⟨-, r₁, r₂, ck', hsw', hsk', -, -, rfl⟩
  · rw [hg] at hk
    cases hk
  · obtain rfl : r = r₁ := by rw [hsw] at hsw'; cases hsw'; rfl
    obtain rfl : trimSkipped (skipTo C header.dh ck header.n r) = r₂ := by
      rw [hsk] at hsk'
      cases hsk'
      rfl
    exact ⟨ct, ck', _, hr'⟩

/-- The message at position `b`: the keys from `a` on are skipped. -/
theorem At.receive (hallow : ∀ r header, KeepsOrder r header → allowed r header)
    (h : At C allowed log dhr a r) (hC : Opens C) (hab : a ≤ b) (hlim : b ≤ a + 1000)
    (hb : b + 1 < 2 ^ 32) :
    ∃ entries r', entries.map Prod.fst = labels dhr a b ∧
      r'.skipped.entries = (r.skipped.entries ++ entries).drop (r.skipped.len + (b - a) - 2000) ∧
      At C allowed (log ++ (Dated.inserts entries ++
        List.replicate (r.skipped.len + (b - a) - 2000) .evict)) dhr (b + 1) r' := by
  obtain ⟨ck, hck⟩ := Option.isSome_iff_exists.mp h.ckr
  have hna : r.nr.toNat = a := h.nr_toNat (by omega)
  have hnb : (UInt32.ofNat b).toNat = b := by rw [UInt32.toNat_ofNat', Nat.mod_eq_of_lt (by omega)]
  have hl : ¬ saturatingAdd r.nr maxSkip < UInt32.ofNat b := by
    rw [saturatingAdd_lt, hna, hnb]
    have : maxSkip.toNat = 1000 := rfl
    omega
  have hnew := h.not_skipped hab (by omega)
  let header : Header := { dh := dhr, pn := 0, n := UInt32.ofNat b }
  obtain ⟨ct, ck', pt, hr'⟩ := h.decrypts hC header rfl hl hnew hck
  obtain ⟨hlabels, htable⟩ := h.skipTable_entries hab (by omega) ck
  generalize hentries : skipEntries C dhr (b - a) ck (UInt32.ofNat a) = entries at hlabels htable
  have hlen : entries.length = b - a := by
    rw [← List.length_map (f := Prod.fst), hlabels, labels_length]
  have hcount : (skipTable C dhr ck (UInt32.ofNat b) r).len = r.skipped.len + (b - a) := by
    rw [IndexMap.len, htable, List.length_append, hlen, IndexMap.len]
  have hops : decryptOps C header (fill 0) r =
      Dated.inserts entries ++ List.replicate (r.skipped.len + (b - a) - 2000) .evict := by
    have hg : (r.skipped.get? (dhr, UInt32.ofNat b)).isSome = false :=
      Bool.eq_false_iff.mpr fun hs => hnew (IndexMap.isSome_get?_iff.mp hs)
    unfold decryptOps skipOps switchChain
    rw [hg, if_neg Bool.false_ne_true, if_pos h.dhr, if_pos h.dhr, if_neg hl, hck, h.dhr,
      List.nil_append]
    dsimp only
    rw [hcount, h.run.shaped.capacity, hna, hnb, h.nr, hentries]
  have hrun := h.run.decrypt (hallow r header (h.keepsOrder hab (by omega) 0)) hr'
  rw [hops] at hrun
  have hleft : (trimSkipped (skipTo C dhr ck (UInt32.ofNat b) r)).skipped.entries =
      (r.skipped.entries ++ entries).drop (r.skipped.len + (b - a) - 2000) := by
    rw [trimSkipped_entries]
    show (skipTable C dhr ck (UInt32.ofNat b) r).entries.drop
      ((skipTable C dhr ck (UInt32.ofNat b) r).len - r.maxSkipped) = _
    rw [hcount, htable, h.run.shaped.capacity]
  refine ⟨entries, advanceRecv C ck' (trimSkipped (skipTo C dhr ck (UInt32.ofNat b) r)), hlabels,
    hleft, hrun, h.dhr, rfl, ?_, fun k hk => ?_⟩
  · show r.nr + UInt32.ofNat ((UInt32.ofNat b).toNat - r.nr.toNat) + 1 = _
    rw [hna, hnb, h.nr, ← UInt32.ofNat_add, Nat.add_sub_cancel' hab, UInt32.ofNat_add]
    rfl
  · change k ∈ (trimSkipped (skipTo C dhr ck (UInt32.ofNat b) r)).skipped.entries.map Prod.fst at hk
    rw [hleft, List.map_drop] at hk
    have hk := List.mem_of_mem_drop hk
    rw [List.map_append, hlabels] at hk
    rcases List.mem_append.mp hk with hk | hk
    · have := h.earlier k hk
      omega
    · have := (mem_labels (by omega) hk).2.2
      omega

/-- A message whose key was skipped. -/
theorem At.consume {i : UInt32} (h : At C allowed log dhr a r) (hC : Opens C)
    (ha : allowed r { dh := dhr, pn := 0, n := i })
    (hi : (dhr, i) ∈ r.skipped.entries.map Prod.fst) :
    ∃ r', r'.skipped.len + 1 = r.skipped.len ∧ At C allowed (log ++ [.consume (dhr, i)]) dhr a r' := by
  let header : Header := { dh := dhr, pn := 0, n := i }
  obtain ⟨key, hg⟩ := Option.isSome_iff_exists.mp (IndexMap.isSome_get?_iff.mpr hi)
  obtain ⟨ct, hct⟩ := hC key (concatAd [] header.toBytes)
  have hkey : messageKey C header (fill 0) r = some key := by
    simp only [messageKey]
    rw [hg]
  obtain ⟨r', hr'⟩ := decrypt_of_key hkey hct
  have hrun := h.run.decrypt ha hr'
  unfold decryptOps at hrun
  rw [if_pos (IndexMap.isSome_get?_iff.mpr hi)] at hrun
  rcases decrypt_ok hr' with ⟨key, -, -, rfl⟩ | ⟨hn, -⟩
  · refine ⟨_, IndexMap.len_swapRemove hi, hrun, h.dhr, h.ckr, h.nr, fun k hk => ?_⟩
    obtain ⟨e, he, rfl⟩ := List.mem_map.mp hk
    exact h.earlier _ (List.mem_map_of_mem (IndexMap.mem_swapRemove.mp he).1)
  · rw [hg] at hn
    cases hn

end Chain

/-- Bob has read Alice's first message. -/
theorem at_first {allowed : DoubleRatchet symbolic.Key → Header → Prop}
    (hallow : ∀ r header, KeepsOrder r header → allowed r header) :
    ∃ r, r.skipped.entries = [] ∧ At symbolic allowed [] (fill 1) 1 r := by
  have hops : decryptOps symbolic Net.oneMessage.header (fill 4)
      (initBob symbolic (SymKey.root 0) (fill 2)) = [] := rfl
  have hpt : (decrypt symbolic Net.oneMessage.header Net.oneMessage.ciphertext [] (fill 4)
      (initBob symbolic (SymKey.root 0) (fill 2))).1 = .ok [7] := by decide +kernel
  have hdhr : (decrypt symbolic Net.oneMessage.header Net.oneMessage.ciphertext [] (fill 4)
      (initBob symbolic (SymKey.root 0) (fill 2))).2.dhr = some (fill 1) := by decide +kernel
  have hckr : (decrypt symbolic Net.oneMessage.header Net.oneMessage.ciphertext [] (fill 4)
      (initBob symbolic (SymKey.root 0) (fill 2))).2.ckr.isSome := by decide +kernel
  have hnr : (decrypt symbolic Net.oneMessage.header Net.oneMessage.ciphertext [] (fill 4)
      (initBob symbolic (SymKey.root 0) (fill 2))).2.nr = 1 := by decide +kernel
  match hd : decrypt symbolic Net.oneMessage.header Net.oneMessage.ciphertext [] (fill 4)
      (initBob symbolic (SymKey.root 0) (fill 2)) with
  | (res, r) =>
    rw [hd] at hpt hdhr hckr hnr
    obtain rfl : res = .ok [7] := hpt
    have hbob : Run symbolic allowed [] (initBob symbolic (SymKey.root 0) (fill 2)) :=
      .bob (C := symbolic) (SymKey.root 0) (fill 2)
    have hkeeps : KeepsOrder (initBob symbolic (SymKey.root 0) (fill 2)) Net.oneMessage.header :=
      ⟨fun hm => absurd hm List.not_mem_nil, fun _ _ hk => absurd hk List.not_mem_nil⟩
    have hrun := hbob.decrypt (hallow _ _ hkeeps) hd
    rw [hops] at hrun
    have hnone : r.skipped.entries = [] := by
      rw [← hrun.table]
      rfl
    refine ⟨r, hnone, hrun, hdhr, hckr, hnr, fun k hk => ?_⟩
    rw [hnone] at hk
    cases hk

/-- Bob has skipped two thousand messages: the table is full. -/
theorem at_full {allowed : DoubleRatchet symbolic.Key → Header → Prop}
    (hallow : ∀ r header, KeepsOrder r header → allowed r header) :
    ∃ old r, old.map Prod.fst = labels (fill 1) 1 1001 ++ labels (fill 1) 1002 2002 ∧
      r.skipped.entries = old ∧ At symbolic allowed (Dated.inserts old) (fill 1) 2003 r := by
  obtain ⟨r₀, he₀, h₀⟩ := at_first hallow
  have hlen₀ : r₀.skipped.len = 0 := congrArg List.length he₀
  obtain ⟨old₁, r₁, hl₁, he₁, h₁⟩ := h₀.receive hallow symbolic_opens (b := 1001) (by omega) (by omega)
    (by omega)
  rw [hlen₀, he₀] at he₁
  rw [hlen₀] at h₁
  have hlen₁ : r₁.skipped.len = 1000 := by
    rw [IndexMap.len, he₁]
    show old₁.length = _
    rw [← List.length_map (f := Prod.fst), hl₁, labels_length]
  obtain ⟨old₂, r₂, hl₂, he₂, h₂⟩ := h₁.receive hallow symbolic_opens (b := 2002) (by omega) (by omega)
    (by omega)
  rw [hlen₁, he₁] at he₂
  rw [hlen₁] at h₂
  refine ⟨old₁ ++ old₂, r₂, by rw [List.map_append, hl₁, hl₂], he₂, ?_⟩
  have hi : Dated.inserts old₁ ++ Dated.inserts old₂ = Dated.inserts (old₁ ++ old₂) :=
    (List.map_append ..).symm
  rw [← hi]
  simpa using h₂

/-! ## Runs that evict the oldest key -/

/-- **Oldest first.** In a run that uses up none but the last two keys of the table, and skips none
again that is still in the table, each eviction takes a key that came in before all that remain. In
such a run, using up the key of a further message keeps the order if and only if the condition allows
it. -/
theorem evictsOldest (h : Run C KeepsOrder log r) :
    Dated.EvictsOldest log ∧ ∀ header : Header, (header.dh, header.n) ∈ (Dated.play log).ages →
      (((Dated.play log).consume (header.dh, header.n)).Ordered ↔ KeepsOrder r header) := by
  have ho := h.alwaysOrdered
  refine ⟨ho.evicts, fun header hk => ?_⟩
  have hages : r.skipped.entries.map Prod.fst = (Dated.play log).ages := by
    rw [← ho.last, h.table]
  rw [Dated.ordered_consume ho.last hk, h.table]
  rw [← hages] at hk
  exact ⟨fun hle => ⟨fun _ => hle, fun hn => absurd hk hn⟩, fun hkeeps => hkeeps.last hk⟩

/-- Bob reads the last but one of two thousand skipped messages and then skips two more: the key that
leaves is the oldest. -/
theorem evictsOldest_full : ∃ log r, Run symbolic KeepsOrder log r ∧ .evict ∈ log ∧
    Dated.EvictsOldest log := by
  obtain ⟨old, r, hl, he, h⟩ := at_full fun _ _ hk => hk
  have hlen : r.skipped.len = 2000 := by
    rw [IndexMap.len, he, ← List.length_map (f := Prod.fst), hl, List.length_append, labels_length,
      labels_length]
  have hk : (r.skipped.entries.map Prod.fst)[1998]? = some (fill 1, 2000) := by
    rw [he, hl, List.getElem?_append_right (by rw [labels_length]; omega), labels_length]
    exact labels_getElem? (fill 1) (by omega)
  have hmem : (fill 1, 2000) ∈ r.skipped.entries.map Prod.fst := List.mem_of_getElem? hk
  have hkeeps : KeepsOrder r { dh := fill 1, pn := 0, n := 2000 } := by
    refine ⟨fun _ => ?_, fun hn => absurd hmem hn⟩
    rw [Dated.findIdx_of_getElem? hk]
    omega
  obtain ⟨r₁, hlen₁, h₁⟩ := h.consume symbolic_opens hkeeps hmem
  obtain ⟨later, r₂, -, -, h₂⟩ := h₁.receive (fun _ _ hk => hk) symbolic_opens (b := 2005) (by omega)
    (by omega) (by omega)
  have hone : r₁.skipped.len + (2005 - 2003) - 2000 = 1 := by omega
  rw [hone] at h₂
  refine ⟨_, r₂, h₂.run, ?_, (evictsOldest h₂.run).1⟩
  exact List.mem_append_right _ (List.mem_append_right _ List.mem_cons_self)

/-! ## A run that evicts the youngest key -/

theorem exists_ends {γ : Type} {l : List γ} (h : 3 ≤ l.length) :
    ∃ first second others last, l = first :: second :: (others ++ [last]) := by
  match l with
  | first :: second :: x :: rest =>
    refine ⟨first, second, (x :: rest).dropLast, (x :: rest).getLast (List.cons_ne_nil _ _), ?_⟩
    rw [List.dropLast_append_getLast]

/-- **A run that evicts the youngest key.** Bob skips two thousand messages, reads the first of them
and then one three positions further on: the key that leaves is the last of the two thousand. -/
theorem run_evicts_youngest : ∃ log r, Run symbolic (fun _ _ => True) log r ∧
    ¬ Dated.EvictsOldest log := by
  obtain ⟨old, r, hl, he, h⟩ := at_full (fun _ _ _ => trivial)
  have hlen : r.skipped.len = 2000 := by
    rw [IndexMap.len, he, ← List.length_map (f := Prod.fst), hl, List.length_append, labels_length,
      labels_length]
  obtain ⟨first, second, others, last, hends⟩ := exists_ends (l := old) (by
    rw [← he]
    exact (by omega : 3 ≤ r.skipped.len))
  have hfirst : first.1 = (fill 1, 1) := by
    rw [hends] at hl
    exact (List.cons.inj hl).1
  -- The first of them is used up, and two more keys do not fit.
  obtain ⟨r₁, hlen₁, h₁⟩ := h.consume (i := 1) symbolic_opens trivial (by
    rw [he, hends, ← hfirst]
    exact List.mem_cons_self)
  obtain ⟨later, r₂, hl₂, -, h₂⟩ := h₁.receive (fun _ _ _ => trivial) symbolic_opens (b := 2005)
    (by omega) (by omega) (by omega)
  have hn : ((first :: second :: (others ++ [last]) ++ later).map Prod.fst).Nodup := by
    rw [← hends, List.map_append, hl₂, ← he]
    exact h.nodup (by omega)
  refine ⟨_, r₂, h₂.run, ?_⟩
  have hnot := Dated.not_evictsOldest hn []
  rw [← hends, hfirst] at hnot
  have hone : r₁.skipped.len + (2005 - 2003) - 2000 = 1 := by omega
  rw [hone]
  simpa only [List.append_assoc, List.singleton_append, List.cons_append, List.nil_append,
    List.replicate_one] using hnot

end DoubleRatchet

end Arcium
