import Arcium.Base.RecordFormat
import Arcium.Protocol.SessionBytes
import Arcium.Network.ChatBytes
import Arcium.Network.KeyNames
import Arcium.Mobile.Packing
import Arcium.Mobile.Core

/-!
# The bytes of every record

`rowFormat P`: how each record of `Row` is named (`Key.name`) and encoded, kind by kind. The encoders
and decoders are the source's; the two of `SESSION_CHECKPOINT_V1` leave the binding to the reader
(`decodeSessionBytes_row`).

A listing of the store gives names in the order of their bytes. For hexadecimal names, and for numbers
of 20 digits, this is the order of what they are made of (`hex_lt`, `decimal20_lt`), so a listing gives
the records of the typed database in its own order (`Listing.keys_eq`).
-/

namespace Arcium

open Codec KeyNames

/-! ## Formats without a decoder of their own -/

/-- The record of `save_identity`: the signing secret, then the X25519 secret. -/
def encodeIdentity (identity : Identity) : Bytes := identity.signingKey.val ++ identity.dhKey.val

/-- `identity_from_record`, on the bytes of a record. -/
def decodeIdentity (bytes : Bytes) : Except CoreError Identity :=
  if bytes.length ≠ 64 then
    .error (.identityUnreadable s!"the record is {bytes.length} bytes, expected 64")
  else .ok { signingKey := bytes32.read bytes 0, dhKey := bytes32.read bytes 32 }

/-- `Card::encode`. -/
def encodeCard (card : Card) : Bytes := byte.enc 0x01 ++ (bytes32.enc card.dhPk ++ bytes32.enc card.signingPk)

/-- `decode_seq`. -/
def decodeSeq (bytes : Bytes) : Except CoreError Nat :=
  if bytes.length ≠ 8 then .error (Chat.corrupt "index") else .ok (ofBe64 bytes).toNat

/-- The session in a record, whose binding is read off the record itself. -/
def decodeSession (bytes : Bytes) : Option (SessionRecord Bytes32) :=
  let our := bytes32.read bytes 17
  let peer := bytes32.read bytes 49
  match decodeSessionBytes bytes ⟨our, peer⟩ with
  | .ok r => some { role := r.role, generation := r.generation, our, peer, ad := r.session.ad
                    ratchet := r.session.ratchet }
  | .error _ => none

theorem decodeIdentity_encode (identity : Identity) :
    decodeIdentity (encodeIdentity identity) = .ok identity := by
  have hlen : (encodeIdentity identity).length = 64 := by
    rw [encodeIdentity, List.length_append, identity.signingKey.2, identity.dhKey.2]
  have hsign : bytes32.read (encodeIdentity identity) 0 = identity.signingKey :=
    bytes32.read_here identity.signingKey identity.dhKey.val
  have hdh : bytes32.read (encodeIdentity identity) 32 = identity.dhKey := by
    have h := bytes32.read_append identity.signingKey.2 identity.dhKey []
    rwa [List.append_nil] at h
  rw [decodeIdentity, if_neg (not_not.mpr hlen), hsign, hdh]

theorem decodeCard_encode (card : Card) : Core.decodeCard (encodeCard card) = .ok card := by
  have hlen : (encodeCard card).length = 65 := by
    simp only [encodeCard, List.length_append, Codec.enc_length, byte_width, bytes32_width]
  have hdh : (encodeCard card).drop 1 = card.dhPk.val ++ card.signingPk.val := rfl
  have hsign : (encodeCard card).drop 33 = card.signingPk.val ++ [] := by
    rw [show 33 = 1 + 32 from rfl, ← List.drop_drop, hdh, List.drop_left' card.dhPk.2, List.append_nil]
  unfold Core.decodeCard
  rw [if_neg (not_not.mpr hlen), if_neg (by simp [encodeCard, byte]),
    ok_bind (takeN_append card.dhPk hdh), ok_bind (takeN_append card.signingPk hsign)]
  rfl

theorem decodeSeq_encode {seq : Nat} (h : seq < 2 ^ 64) : decodeSeq (be64 (UInt64.ofNat seq)) = .ok seq := by
  rw [decodeSeq, if_neg (not_not.mpr (be64_length _)), ofBe64_be64, UInt64.toNat_ofNat',
    Nat.mod_eq_of_lt h]

theorem decodeSession_layout {rec : SessionRecord Bytes32} (h : rec.Bound rec.our rec.peer) :
    decodeSession rec.layout = some rec := by
  have hr := h.reads
  unfold decodeSession
  simp only [hr.our, hr.peer, h.decodeBytes]
  rfl

/-- A stored session is read under a binding as the record is. -/
theorem decodeSessionBytes_row {rec : SessionRecord Bytes32} (h : rec.Bound rec.our rec.peer)
    (binding : SessionBinding) :
    decodeSessionBytes rec.layout binding = decodeSessionCheckpoint rec binding := by
  rw [h.reads.decode]
  unfold decodeSessionCheckpoint
  simp only [bind, Except.bind, pure, Except.pure, throw, throwThe, MonadExceptOf.throw,
    if_neg (not_not.mpr h.ad), DoubleRatchet.toCheckpoint_of_resumable h.ratchet]
  rfl

/-! ## All of them -/

namespace Row

/-- The bytes of a record. -/
def encode : (k : Key) → Row Bytes32 k → Bytes
  | .session _, (rec : SessionRecord Bytes32) => rec.layout
  | .handle _, (peer : Peer) => Messenger.encodeHandle peer
  | .handshake _, (handshake : Bytes) => handshake
  | .provisional _, (p : ProvisionalHandshake) => Messenger.provisionalLayout p
  | .outbox _ _, (m : OutgoingMessage) => Messenger.encodeOutboxBytes m
  | .inbox _ _, (m : IncomingMessage) => Messenger.encodeInboxBytes m
  | .seen _ _, (id : MessageId) => Messenger.encodeIdRecord Messenger.seenMagic id
  | .sendid _ _, (r : SendRecord) => Messenger.encodeSendRecord r
  | .identity, (identity : Identity) => encodeIdentity identity
  | .prekeys, (record : PrekeyRecord) => packPrekeys record
  | .contact _, (card : Card) => encodeCard card
  | .chatMeta _, (m : ChatMeta) => Chat.encodeMeta m
  | .chatEntry _ _, (e : Entry) => Chat.encodeEntry e
  | .chatOut _ _, (seq : Nat) => be64 (UInt64.ofNat seq)
  | .chatRaw _ _, _ => []
  | .chatIn _ _, (seq : Nat) => be64 (UInt64.ofNat seq)

/-- A record from its bytes. The handshake of `hsout:v1/` is stored as it is, and of the claim of
`send_text` only the presence is looked at. -/
def decode (P : Platform) : (k : Key) → Bytes → Option (Row Bytes32 k)
  | .session _, b => decodeSession b
  | .handle _, b => (Messenger.decodeHandle b).toOption
  | .handshake _, b => some b
  | .provisional _, b => (Messenger.decodeProvisional b).toOption
  | .outbox _ _, b => (Messenger.decodeOutboxBytes P b).toOption
  | .inbox _ _, b => (Messenger.decodeInboxBytes b).toOption
  | .seen _ _, b => (Messenger.decodeIdRecord Messenger.seenMagic b "seen").toOption
  | .sendid _ _, b => (Messenger.decodeSendRecord b).toOption
  | .identity, b => (decodeIdentity b).toOption
  | .prekeys, b => (unpackPrekeys b).toOption
  | .contact _, b => (Core.decodeCard b).toOption
  | .chatMeta _, b => (Chat.decodeMeta b).toOption
  | .chatEntry _ seq, b => (Chat.decodeEntry seq b).toOption
  | .chatOut _ _, b => (decodeSeq b).toOption
  | .chatRaw _ _, _ => some ()
  | .chatIn _ _, b => (decodeSeq b).toOption

/-- The records that the fields of their formats have room for. -/
def Fits {K : Type} (P : Platform) : (k : Key) → Row K k → Prop
  | .session _, (rec : SessionRecord K) => rec.Bound rec.our rec.peer
  | .provisional _, (p : ProvisionalHandshake) =>
    1 ≤ p.handshake.length ∧ p.handshake.length ≤ Messenger.maxProvisionalHandshakeLen
  | .outbox _ _, (m : OutgoingMessage) => Messenger.OutboxFits P m
  | .inbox _ _, (m : IncomingMessage) => m.plaintext.length < 2 ^ 32
  | .chatMeta _, (m : ChatMeta) => Chat.MetaFits m
  | .chatEntry _ seq, (e : Entry) =>
    seq < 2 ^ 64 ∧ e.seq = seq ∧ e.appId.length < 256 ∧ e.messageId.length < 256
  | .chatOut _ _, (seq : Nat) | .chatIn _ _, (seq : Nat) => seq < 2 ^ 64
  | _, _ => True

theorem decode_encode (P : Platform) (k : Key) (v : Row Bytes32 k) (h : Fits P k v) :
    decode P k (encode k v) = some v := by
  have hok : ∀ {ε α : Type} {x : Except ε α} {a : α}, x = .ok a → x.toOption = some a := by
    rintro ε α x a rfl
    rfl
  cases k with
  | session => exact decodeSession_layout h
  | handle => exact hok ((Messenger.handle_canonical _ v).mpr ⟨trivial, rfl⟩)
  | handshake => rfl
  | provisional => exact hok ((Messenger.provisional_canonical _ v).mpr ⟨h, rfl⟩)
  | outbox => exact hok ((Messenger.outbox_canonical P _ v).mpr ⟨h, rfl⟩)
  | inbox => exact hok ((Messenger.inbox_canonical _ v).mpr ⟨h, rfl⟩)
  | seen => exact hok ((Messenger.idRecord_canonical _ _ _ v).mpr ⟨trivial, rfl⟩)
  | sendid => exact hok ((Messenger.sendRecord_canonical _ v).mpr ⟨trivial, rfl⟩)
  | identity => exact hok (decodeIdentity_encode v)
  | prekeys => exact hok (unpackPrekeys_pack v)
  | contact => exact hok (decodeCard_encode v)
  | chatMeta => exact hok ((Chat.meta_canonical _ v).mpr ⟨h, rfl⟩)
  | chatEntry peer seq => exact hok ((Chat.entry_canonical seq _ v).mpr ⟨h.2, rfl⟩)
  | chatOut | chatIn => exact hok (decodeSeq_encode h)
  | chatRaw => rfl

end Row

/-- The records of the application in bytes. -/
def rowFormat (P : Platform) : RecordFormat Key (Row Bytes32) where
  name := Key.name
  name_injective := Key.name_injective
  Fits := Row.Fits P
  encode := Row.encode
  decode := Row.decode P
  decode_encode := Row.decode_encode P

theorem holdsNames {P : Platform} {rows : Rows Bytes32} {m : PlainMap} (h : (rowFormat P).Holds rows m) :
    HoldsNames rows m := h.mem_iff

/-! ## The order of names -/

/-- The byte of an ASCII character. -/
def charByte (c : Char) : UInt8 := c.val.toUInt8

theorem asBytes_append (s t : String) : asBytes (s ++ t) = asBytes s ++ asBytes t := by
  unfold asBytes
  rw [String.toUTF8_eq_toByteArray, String.toByteArray_append]
  simp

theorem asBytes_ofList {l : List Char} (h : ∀ c ∈ l, c.utf8Size = 1) :
    asBytes (String.ofList l) = l.map charByte := by
  have hbytes : l.flatMap String.utf8EncodeChar = l.map charByte := by
    induction l with
    | nil => rfl
    | cons c l ih =>
      rw [List.flatMap_cons, String.utf8EncodeChar_eq_singleton (h c List.mem_cons_self),
        ih fun c' hc' => h c' (List.mem_cons_of_mem _ hc')]
      rfl
  unfold asBytes
  rw [String.toUTF8_eq_toByteArray, String.toByteArray_ofList, List.utf8Encode, hbytes]
  simp

/-- The bytes of two digits. -/
theorem hexPair_lt {a b : UInt8} (h : a < b) (r r' : Bytes) :
    (hexPair a).map charByte ++ r < (hexPair b).map charByte ++ r' := by
  have hdigit : ∀ i j : Fin 16, i < j →
      charByte (hexDigit (UInt8.ofNat i)) < charByte (hexDigit (UInt8.ofNat j)) := by decide
  have hdigit : ∀ x y : UInt8, x.toNat < y.toNat → y.toNat < 16 →
      charByte (hexDigit x) < charByte (hexDigit y) := by
    intro x y hxy hy
    simpa only [UInt8.ofNat_toNat] using hdigit ⟨x.toNat, by omega⟩ ⟨y.toNat, hy⟩ hxy
  have ha := a.toNat_lt
  have hb := b.toNat_lt
  have hab : a.toNat < b.toNat := UInt8.lt_iff_toNat_lt.mp h
  show charByte (hexDigit (a / 16)) :: charByte (hexDigit (a % 16)) :: r <
    charByte (hexDigit (b / 16)) :: charByte (hexDigit (b % 16)) :: r'
  rw [List.cons_lt_cons_iff]
  by_cases hhigh : a.toNat / 16 < b.toNat / 16
  · exact .inl (hdigit _ _ (by simpa using hhigh) (by simp; omega))
  · refine .inr ⟨?_, ?_⟩
    · have heq : a / 16 = b / 16 := UInt8.toNat_inj.mp (by simp; omega)
      rw [heq]
    · rw [List.cons_lt_cons_iff]
      exact .inl (hdigit _ _ (by simp; omega) (by simp; omega))

theorem isDigit_bounds {c : Char} (h : c.isDigit = true) : 48 ≤ c.toNat ∧ c.toNat ≤ 57 :=
  Char.isDigit_iff_toNat.mp h

theorem isDigit_utf8Size {c : Char} (h : c.isDigit = true) : c.utf8Size = 1 := by
  have hc := isDigit_bounds h
  rw [Char.utf8Size_eq_one_iff, UInt32.le_iff_toNat_le]
  show c.toNat ≤ 127
  omega

theorem hexDigit_utf8Size (n : UInt8) : (hexDigit n).utf8Size = 1 := by
  have hall : ∀ v : BitVec 8, (hexDigit (UInt8.ofBitVec v)).utf8Size = 1 := by decide
  exact hall n.toBitVec

theorem asBytes_hex (bytes : Bytes) :
    asBytes (hex bytes) = bytes.flatMap fun b => (hexPair b).map charByte := by
  rw [hex, asBytes_ofList, List.map_flatMap]
  intro c hc
  obtain ⟨b, -, hb⟩ := List.mem_flatMap.mp hc
  rcases List.mem_cons.mp hb with rfl | hb
  · exact hexDigit_utf8Size _
  · rw [List.mem_singleton.mp hb]
    exact hexDigit_utf8Size _

/-- Hexadecimal names stand in the order of their bytes. -/
theorem hex_lt {a b : Bytes} (h : a < b) : asBytes (hex a) < asBytes (hex b) := by
  rw [asBytes_hex, asBytes_hex]
  induction a generalizing b with
  | nil =>
    cases b with
    | nil => exact absurd h (List.lt_irrefl [])
    | cons y b => exact List.nil_lt_cons _ _
  | cons x a ih =>
    cases b with
    | nil => exact absurd h (List.not_lt_nil _)
    | cons y b =>
      rw [List.flatMap_cons, List.flatMap_cons]
      rcases List.cons_lt_cons_iff.mp h with hxy | ⟨rfl, hrest⟩
      · exact hexPair_lt hxy _ _
      · exact List.append_left_lt (ih hrest)

theorem ofDigitChars_cons_zero (c : Char) (l : List Char) :
    Nat.ofDigitChars 10 (c :: l) 0 = 10 ^ l.length * (c.toNat - 48) + Nat.ofDigitChars 10 l 0 := by
  rw [Nat.ofDigitChars_cons, Nat.ofDigitChars_eq_ofDigitChars_zero, Nat.mul_zero, Nat.zero_add]
  rfl

theorem ofDigitChars_lt {l : List Char} (h : ∀ c ∈ l, c.isDigit = true) :
    Nat.ofDigitChars 10 l 0 < 10 ^ l.length := by
  induction l with
  | nil => decide
  | cons c l ih =>
    have ih := ih fun c' hc' => h c' (List.mem_cons_of_mem _ hc')
    have hc := isDigit_bounds (h c List.mem_cons_self)
    have hd : 10 ^ l.length * (c.toNat - 48) ≤ 10 ^ l.length * 9 :=
      Nat.mul_le_mul_left _ (Nat.sub_le_sub_right hc.2 48)
    rw [ofDigitChars_cons_zero, List.length_cons, Nat.pow_succ]
    omega

/-- Of numbers with equally many digits, the smaller one has the smaller digits in front. -/
theorem digits_lt {l l' : List Char} (hlen : l.length = l'.length) (hl : ∀ c ∈ l, c.isDigit = true)
    (hl' : ∀ c ∈ l', c.isDigit = true)
    (h : Nat.ofDigitChars 10 l 0 < Nat.ofDigitChars 10 l' 0) : l.map charByte < l'.map charByte := by
  induction l generalizing l' with
  | nil =>
    rw [List.length_eq_zero_iff.mp hlen.symm] at h
    exact absurd h (Nat.lt_irrefl _)
  | cons c l ih =>
    cases l' with
    | nil => cases hlen
    | cons c' l' =>
      have hsame : l.length = l'.length := Nat.succ.inj hlen
      have hl₁ := fun d hd => hl d (List.mem_cons_of_mem _ hd)
      have hl₁' := fun d hd => hl' d (List.mem_cons_of_mem _ hd)
      have hc := isDigit_bounds (hl c List.mem_cons_self)
      have hc' := isDigit_bounds (hl' c' List.mem_cons_self)
      have hlt := ofDigitChars_lt hl₁
      have hlt' := ofDigitChars_lt hl₁'
      rw [ofDigitChars_cons_zero, ofDigitChars_cons_zero, hsame] at h
      rw [hsame] at hlt
      rw [List.map_cons, List.map_cons, List.cons_lt_cons_iff]
      rcases Nat.lt_trichotomy c.toNat c'.toNat with hcc | hcc | hcc
      · left
        rw [UInt8.lt_iff_toNat_lt]
        show c.toNat % 256 < c'.toNat % 256
        omega
      · obtain rfl := Char.toNat_inj.mp hcc
        exact .inr ⟨rfl, ih hsame hl₁ hl₁' (by omega)⟩
      · -- A larger first digit outweighs the rest.
        have hd : 10 ^ l'.length * (c'.toNat - 48 + 1) ≤ 10 ^ l'.length * (c.toNat - 48) :=
          Nat.mul_le_mul_left _ (by omega)
        rw [Nat.mul_succ] at hd
        omega

theorem decimal20_length {n : Nat} (h : n < 10 ^ 20) : (decimal20 n).toList.length = 20 := by
  have hlen := (Nat.length_toDigits_le_iff (b := 10) (k := 20) (by decide) (by decide)).mpr h
  rw [decimal20, String.toList_ofList, List.length_append, List.length_replicate]
  omega

/-- Numbers of at most 20 digits stand in their order. -/
theorem decimal20_lt {m n : Nat} (h : m < n) (hn : n < 10 ^ 20) :
    asBytes (decimal20 m) < asBytes (decimal20 n) := by
  have hbytes : ∀ k, asBytes (decimal20 k) = (decimal20 k).toList.map charByte := by
    intro k
    conv_lhs => rw [← String.ofList_toList (s := decimal20 k)]
    exact asBytes_ofList fun c hc => isDigit_utf8Size (decimal20_isDigit hc)
  rw [hbytes, hbytes]
  refine digits_lt ?_ (fun _ => decimal20_isDigit) (fun _ => decimal20_isDigit) ?_
  · rw [decimal20_length (h.trans hn), decimal20_length hn]
  · rw [ofDigitChars_decimal20, ofDigitChars_decimal20]
    exact h

/-! ## Listings -/

/-- What the application lists. -/
inductive Listing where
  | outbox (peer : Peer)
  | inbox (peer : Peer)
  | contacts
  | entries (peer : Peer)

namespace Listing

/-- The namespace that is listed. -/
def namespaceName : Listing → String
  | outbox _ => outboxNamespace
  | inbox _ => inboxNamespace
  | contacts => "contact:"
  | entries peer => entryNamespace peer

/-- What the names begin with that are kept. -/
def pre : Listing → String
  | outbox peer => outboxPrefix peer
  | inbox peer => inboxPrefix peer
  | contacts => "contact:v1/"
  | entries _ => ""

/-- The keys that the typed database gives for it. -/
def keys {K : Type} (rows : Rows K) : Listing → List Key
  | outbox peer => (rows.idsOf (Rows.outboxId peer)).map (.outbox peer)
  | inbox peer => (rows.idsOf (Rows.inboxId peer)).map (.inbox peer)
  | contacts => rows.contacts.map .contact
  | entries peer => (rows.chatSeqs peer).map (.chatEntry peer)

end Listing

theorem keyLe_append (pre : String) {s t : String} (h : asBytes s < asBytes t ∨ s = t) :
    keyLe (pre ++ s) (pre ++ t) := by
  unfold keyLe
  rw [asBytes_append, asBytes_append]
  rcases h with h | rfl
  · exact List.append_left_le (List.le_of_lt h)
  · exact List.le_refl _

theorem keyLe_hex (pre : String) {a b : Bytes} (h : a ≤ b) : keyLe (pre ++ hex a) (pre ++ hex b) := by
  refine keyLe_append pre ?_
  rcases List.le_iff_lt_or_eq.mp h with h | rfl
  · exact .inl (hex_lt h)
  · exact .inr rfl

/-- What is sorted by `le` gives names in order. -/
theorem names_sorted {α : Type} {le : α → α → Bool} (htrans : ∀ a b c, le a b → le b c → le a c)
    (htotal : ∀ a b, le a b || le b a) {l : List α} {name : α → String}
    (h : ∀ a ∈ l, ∀ b ∈ l, le a b → keyLe (name a) (name b)) :
    ((l.mergeSort le).map name).Pairwise keyLe := by
  rw [List.pairwise_map]
  refine List.Pairwise.imp_of_mem (fun ha hb hle => ?_) (List.pairwise_mergeSort htrans htotal l)
  exact h _ (List.mem_mergeSort.mp ha) _ (List.mem_mergeSort.mp hb) hle

theorem ids_sorted (pre : String) (l : List MessageId) :
    ((l.mergeSort fun a b => a.val ≤ b.val).map fun id => pre ++ hex id.val).Pairwise keyLe := by
  refine names_sorted ?_ ?_ fun a _ b _ hle => keyLe_hex pre (of_decide_eq_true hle)
  · simpa using fun a _ b _ c _ => List.le_trans
  · simpa using fun a _ b _ => List.le_total _ _

/-- The positions in use are 64-bit numbers. -/
theorem chatSeq_lt {P : Platform} {rows : Rows Bytes32} {m : PlainMap} (h : (rowFormat P).Holds rows m)
    {peer : Peer} {seq : Nat} (hs : seq ∈ rows.keys.filterMap fun
      | .chatEntry p seq => if p = peer then some seq else none
      | _ => none) : seq < 2 ^ 64 := by
  obtain ⟨k, hk, hseq⟩ := List.mem_filterMap.mp hs
  obtain ⟨v, hv⟩ := Option.isSome_iff_exists.mp (AList.lookup_isSome.mpr (AList.mem_keys.mpr hk))
  have hfits := h.fits k v hv
  cases k with
  | chatEntry p seq' =>
    dsimp only at hseq
    split at hseq
    · obtain rfl := Option.some.inj hseq
      exact hfits.1
    · cases hseq
  | _ => cases hseq

/-- A listing of the store is the listing of the typed database, in the same order. -/
theorem Listing.keys_eq {P : Platform} {rows : Rows Bytes32} {m : PlainMap}
    (h : (rowFormat P).Holds rows m) (l : Listing) :
    PlainMap.keysUnder l.namespaceName l.pre m = (l.keys rows).map Key.name := by
  have hsorted : (PlainMap.keysUnder l.namespaceName l.pre m).Pairwise keyLe :=
    (Finset.pairwise_sort _ _).filter _
  have hnames := holdsNames h
  suffices (PlainMap.keysUnder l.namespaceName l.pre m).Perm ((l.keys rows).map Key.name) ∧
      ((l.keys rows).map Key.name).Pairwise keyLe from
    this.1.eq_of_pairwise (fun a b _ _ => antisymm) hsorted this.2
  cases l with
  | outbox peer =>
    simp only [keys, List.map_map]
    exact ⟨outbox_listing hnames peer, ids_sorted (outboxPrefix peer) _⟩
  | inbox peer =>
    simp only [keys, List.map_map]
    exact ⟨inbox_listing hnames peer, ids_sorted (inboxPrefix peer) _⟩
  | contacts =>
    simp only [keys, List.map_map]
    exact ⟨contacts_listing hnames, ids_sorted "contact:v1/" _⟩
  | entries peer =>
    simp only [keys, List.map_map]
    have hall : PlainMap.keysUnder (entryNamespace peer) "" m = PlainMap.keysIn (entryNamespace peer) m :=
      List.filter_eq_self.mpr fun s _ => startsWith_iff.mpr (List.nil_prefix)
    refine ⟨?_, ?_⟩
    · show (PlainMap.keysUnder (entryNamespace peer) "" m).Perm _
      rw [hall]
      exact entries_listing hnames peer
    · refine names_sorted ?_ ?_ fun a ha b hb hle => ?_
      · simpa using fun a b c => Nat.le_trans
      · simpa using fun a b => Nat.le_total a b
      · refine keyLe_append (entryNamespace peer) ?_
        rcases Nat.lt_or_eq_of_le (of_decide_eq_true hle) with hlt | rfl
        · exact .inl (decimal20_lt hlt (Nat.lt_trans (chatSeq_lt h hb) (by decide)))
        · exact .inr rfl

end Arcium
