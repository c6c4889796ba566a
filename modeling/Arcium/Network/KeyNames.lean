import Arcium.Storage.PlainMap
import Arcium.Protocol.PendingLists
import Arcium.Mobile.Formats
import Arcium.Network.Wire

/-!
# The names of the records (`messaging/records.rs`, `network/chat.rs`)

What a `Key` is called in the store. A name is a label for its kind, then the hexadecimal digits of
the arguments: only the last argument has a variable length, and no label is a prefix of another.

* `Key.name`: the key functions of the source, one for each constructor.
* `PlainMap.keysUnder`: the names that a listing of the store gives, in a namespace and with a prefix.

`keys_separate`: names are injective, a listing gives the records of one peer and kind, and the
client ids of texts, receipts and the opener are apart.
-/

namespace Arcium

/-! ## Formats -/

/-- The format `02x` of a byte. -/
def hexPair (b : UInt8) : List Char := [hexDigit (b / 16), hexDigit (b % 16)]

/-- `hex`. -/
def hex (bytes : Bytes) : String := String.ofList (bytes.flatMap hexPair)

/-- The format `016x`. -/
def hex64 (n : UInt64) : String := hex (be64 n)

/-- The format `020`. -/
def decimal20 (n : Nat) : String :=
  String.ofList (List.replicate (20 - (Nat.toDigits 10 n).length) '0' ++ Nat.toDigits 10 n)

/-- `str::parse::<u64>`. -/
def parseU64 (s : List Char) : Option Nat :=
  let digits := if s.head? = some '+' then s.tail else s
  if digits.isEmpty ∨ ¬ digits.all Char.isDigit ∨ 2 ^ 64 ≤ Nat.ofDigitChars 10 digits 0 then none
  else some (Nat.ofDigitChars 10 digits 0)

theorem hexPair_injective {a b : UInt8} (h : hexPair a = hexPair b) : a = b := by
  have hdigit : ∀ i j : Fin 16, hexDigit (UInt8.ofNat i) = hexDigit (UInt8.ofNat j) → i = j := by
    decide
  have hdigit : ∀ x y : UInt8, x.toNat < 16 → y.toNat < 16 → hexDigit x = hexDigit y →
      x.toNat = y.toNat := by
    intro x y hx hy he
    exact Fin.mk.inj_iff.mp
      (hdigit ⟨x.toNat, hx⟩ ⟨y.toNat, hy⟩ (by simpa only [UInt8.ofNat_toNat] using he))
  unfold hexPair at h
  obtain ⟨hhigh, hlow⟩ := List.cons.inj h
  have ha := a.toNat_lt
  have hb := b.toNat_lt
  have hhigh := hdigit _ _ (by simp; omega) (by simp; omega) hhigh
  have hlow := hdigit _ _ (by simp; omega) (by simp; omega) (List.cons.inj hlow).1
  apply UInt8.toNat_inj.mp
  simp only [UInt8.toNat_div, UInt8.toNat_mod, UInt8.reduceToNat] at hhigh hlow
  omega

theorem hexPairs_injective {a b : Bytes} (h : a.flatMap hexPair = b.flatMap hexPair) : a = b := by
  induction a generalizing b with
  | nil =>
    cases b with
    | nil => rfl
    | cons y b => cases h
  | cons x a ih =>
    cases b with
    | nil => cases h
    | cons y b =>
      rw [List.flatMap_cons, List.flatMap_cons] at h
      obtain ⟨hx, hrest⟩ := List.append_inj h rfl
      rw [hexPair_injective hx, ih hrest]

theorem hex_injective : Function.Injective hex := fun _ _ h =>
  hexPairs_injective (String.ofList_inj.mp h)

theorem hex_length (bytes : Bytes) : (hex bytes).toList.length = 2 * bytes.length := by
  rw [hex, String.toList_ofList]
  induction bytes with
  | nil => rfl
  | cons x bytes ih =>
    rw [List.flatMap_cons, List.length_append, ih, List.length_cons]
    show 2 + _ = _
    omega

theorem hex64_injective : Function.Injective hex64 := fun a b h => by
  rw [← Codec.ofBe64_be64 a, hex_injective h, Codec.ofBe64_be64]

/-- The digits of a number, with zeros before them, are read back. -/
theorem ofDigitChars_decimal20 (n : Nat) : Nat.ofDigitChars 10 (decimal20 n).toList 0 = n := by
  rw [decimal20, String.toList_ofList, Nat.ofDigitChars_append, Nat.ofDigitChars_replicate_zero,
    Nat.mul_zero, Nat.ofDigitChars_ten_toDigits]

theorem decimal20_injective : Function.Injective decimal20 := fun a b h => by
  rw [← ofDigitChars_decimal20 a, h, ofDigitChars_decimal20]

theorem decimal20_isDigit {n : Nat} {c : Char} (h : c ∈ (decimal20 n).toList) : c.isDigit = true := by
  rw [decimal20, String.toList_ofList] at h
  rcases List.mem_append.mp h with h | h
  · rw [List.eq_of_mem_replicate h]
    rfl
  · exact Nat.isDigit_of_mem_toDigits (by omega) (by omega) h

theorem parseU64_decimal20 {n : Nat} (h : n < 2 ^ 64) : parseU64 (decimal20 n).toList = some n := by
  have hne : (decimal20 n).toList ≠ [] := by
    rw [decimal20, String.toList_ofList]
    exact fun he => Nat.toDigits_ne_nil (List.append_eq_nil_iff.mp he).2
  have hplus : (decimal20 n).toList.head? ≠ some '+' := fun he => by
    have := decimal20_isDigit (List.mem_of_head? he)
    revert this
    decide
  have hall : (decimal20 n).toList.all Char.isDigit = true :=
    List.all_eq_true.mpr fun _ hc => decimal20_isDigit hc
  unfold parseU64
  simp only [if_neg hplus, ofDigitChars_decimal20]
  rw [if_neg]
  rw [List.isEmpty_iff, hall]
  rintro (he | he | he)
  · exact hne he
  · exact he rfl
  · omega

/-! ## The key functions -/

namespace KeyNames

/-- `session_storage_key`. -/
def sessionStorageKey (peer : Peer) : String := "session:v1/" ++ hex peer.val

/-- `handle_key`. -/
def handleKey (handle : UInt64) : String := "handle:v1/" ++ hex64 handle

/-- `handshake_key`. -/
def handshakeKey (peer : Peer) : String := "hsout:v1/" ++ hex peer.val

/-- `provisional_key`. -/
def provisionalKey (handle : UInt64) : String := "hsin:v1/" ++ hex64 handle

/-- `OUTBOX_NAMESPACE`. -/
def outboxNamespace : String := "outbox:"

/-- `INBOX_NAMESPACE`. -/
def inboxNamespace : String := "inbox:"

/-- `outbox_prefix`. -/
def outboxPrefix (peer : Peer) : String := outboxNamespace ++ "v1/" ++ hex peer.val ++ "/"

/-- `inbox_prefix`. -/
def inboxPrefix (peer : Peer) : String := inboxNamespace ++ "v1/" ++ hex peer.val ++ "/"

/-- `outbox_key`. -/
def outboxKey (peer : Peer) (id : MessageId) : String := outboxPrefix peer ++ hex id.val

/-- `inbox_key`. -/
def inboxKey (peer : Peer) (id : MessageId) : String := inboxPrefix peer ++ hex id.val

/-- `seen_key`. -/
def seenKey (peer : Peer) (id : MessageId) : String := "seen:v1/" ++ hex peer.val ++ "/" ++ hex id.val

/-- `sendid_key`. -/
def sendidKey (peer : Peer) (clientId : Bytes) : String :=
  "sendid:v1/" ++ hex peer.val ++ "/" ++ hex clientId

/-- `IDENTITY_KEY`. -/
def identityKey : String := "identity/v1"

/-- `PREKEYS_KEY`. -/
def prekeysKey : String := "prekeys/v2"

/-- `contact_key`. -/
def contactKey (dhPk : Peer) : String := "contact:v1/" ++ hex dhPk.val

/-- `meta_key`. -/
def metaKey (peer : Peer) : String := "chat-meta:v1/" ++ hex peer.val

/-- `entry_namespace`. -/
def entryNamespace (peer : Peer) : String := "chat-e.v1." ++ hex peer.val ++ ":"

/-- `entry_key`. -/
def entryKey (peer : Peer) (seq : Nat) : String := entryNamespace peer ++ decimal20 seq

/-- `out_key`. -/
def outKey (peer : Peer) (appId : Bytes) : String := "chat-o:v1/" ++ hex peer.val ++ "/" ++ hex appId

/-- `raw_claim_key`. -/
def rawClaimKey (peer : Peer) (appId : Bytes) : String :=
  "chat-r:v1/" ++ hex peer.val ++ "/" ++ hex appId

/-- `in_key`. -/
def inKey (peer : Peer) (messageId : Bytes) : String :=
  "chat-i:v1/" ++ hex peer.val ++ "/" ++ hex messageId

end KeyNames

open KeyNames

/-- The name of a record in the store. -/
def Key.name : Key → String
  | session peer => sessionStorageKey peer
  | handle n => handleKey n
  | handshake peer => handshakeKey peer
  | provisional n => provisionalKey n
  | outbox peer id => outboxKey peer id
  | inbox peer id => inboxKey peer id
  | seen peer id => seenKey peer id
  | sendid peer clientId => sendidKey peer clientId
  | identity => identityKey
  | prekeys => prekeysKey
  | contact peer => contactKey peer
  | chatMeta peer => metaKey peer
  | chatEntry peer seq => entryKey peer seq
  | chatOut peer appId => outKey peer appId
  | chatRaw peer appId => rawClaimKey peer appId
  | chatIn peer id => inKey peer id

/-! ## A name gives its key -/

/-- The kinds of records. -/
inductive KeyKind where
  | session
  | handle
  | handshake
  | provisional
  | outbox
  | inbox
  | seen
  | sendid
  | identity
  | prekeys
  | contact
  | chatMeta
  | chatEntry
  | chatOut
  | chatRaw
  | chatIn
  deriving DecidableEq

/-- What the names of one kind begin with. -/
def KeyKind.label : KeyKind → List Char
  | session => "session:v1/".toList
  | handle => "handle:v1/".toList
  | handshake => "hsout:v1/".toList
  | provisional => "hsin:v1/".toList
  | outbox => "outbox:v1/".toList
  | inbox => "inbox:v1/".toList
  | seen => "seen:v1/".toList
  | sendid => "sendid:v1/".toList
  | identity => "identity/v1".toList
  | prekeys => "prekeys/v2".toList
  | contact => "contact:v1/".toList
  | chatMeta => "chat-meta:v1/".toList
  | chatEntry => "chat-e.v1.".toList
  | chatOut => "chat-o:v1/".toList
  | chatRaw => "chat-r:v1/".toList
  | chatIn => "chat-i:v1/".toList

/-- No label is a prefix of another. -/
theorem KeyKind.label_prefix {a b : KeyKind} (h : a.label <+: b.label) : a = b := by
  cases a <;> cases b <;> first | rfl | exact absurd h (by decide)

namespace Key

def kind : Key → KeyKind
  | session _ => .session
  | handle _ => .handle
  | handshake _ => .handshake
  | provisional _ => .provisional
  | outbox _ _ => .outbox
  | inbox _ _ => .inbox
  | seen _ _ => .seen
  | sendid _ _ => .sendid
  | identity => .identity
  | prekeys => .prekeys
  | contact _ => .contact
  | chatMeta _ => .chatMeta
  | chatEntry _ _ => .chatEntry
  | chatOut _ _ => .chatOut
  | chatRaw _ _ => .chatRaw
  | chatIn _ _ => .chatIn

/-- A peer and a last argument. -/
def peerAnd (peer : Peer) (sep : Char) (last : String) : List Char :=
  (hex peer.val).toList ++ sep :: last.toList

/-- What follows the label. -/
def rest : Key → List Char
  | session peer | handshake peer | contact peer | chatMeta peer => (hex peer.val).toList
  | handle n | provisional n => (hex64 n).toList
  | outbox peer id | inbox peer id | seen peer id => peerAnd peer '/' (hex id.val)
  | sendid peer id | chatOut peer id | chatRaw peer id | chatIn peer id => peerAnd peer '/' (hex id)
  | chatEntry peer seq => peerAnd peer ':' (decimal20 seq)
  | identity | prekeys => []

theorem peerAnd_toList (label : String) (peer : Peer) {sep : String} {c : Char} (last : String)
    (h : sep.toList = [c]) :
    (label ++ hex peer.val ++ sep ++ last).toList = label.toList ++ peerAnd peer c last := by
  rw [String.toList_append, String.toList_append, String.toList_append, h, List.append_assoc,
    List.append_assoc]
  rfl

theorem slash_toList : "/".toList = ['/'] := by decide

theorem colon_toList : ":".toList = [':'] := by decide

theorem outbox_label : (outboxNamespace ++ "v1/").toList = KeyKind.outbox.label := by decide

theorem inbox_label : (inboxNamespace ++ "v1/").toList = KeyKind.inbox.label := by decide

theorem name_toList (k : Key) : k.name.toList = k.kind.label ++ k.rest := by
  cases k with
  | session | handle | handshake | provisional | contact | chatMeta => exact String.toList_append
  | identity | prekeys => exact (List.append_nil _).symm
  | outbox peer id =>
    exact (peerAnd_toList _ peer (hex id.val) slash_toList).trans (congrArg (· ++ _) outbox_label)
  | inbox peer id =>
    exact (peerAnd_toList _ peer (hex id.val) slash_toList).trans (congrArg (· ++ _) inbox_label)
  | seen peer id => exact peerAnd_toList _ peer (hex id.val) slash_toList
  | sendid peer id | chatOut peer id | chatRaw peer id | chatIn peer id =>
    exact peerAnd_toList _ peer (hex id) slash_toList
  | chatEntry peer seq => exact peerAnd_toList _ peer (decimal20 seq) colon_toList

theorem outboxPrefix_toList (peer : Peer) :
    (outboxPrefix peer).toList = KeyKind.outbox.label ++ peerAnd peer '/' "" := by
  rw [← outbox_label, ← peerAnd_toList _ _ _ slash_toList, String.append_empty]
  rfl

theorem inboxPrefix_toList (peer : Peer) :
    (inboxPrefix peer).toList = KeyKind.inbox.label ++ peerAnd peer '/' "" := by
  rw [← inbox_label, ← peerAnd_toList _ _ _ slash_toList, String.append_empty]
  rfl

/-- A name with a label is of the kind that has this label. -/
theorem kind_of_prefix {k : Key} {a : KeyKind} (h : a.label <+: k.name.toList) : k.kind = a := by
  rw [name_toList] at h
  rcases List.prefix_or_prefix_of_prefix h (List.prefix_append _ _) with h | h
  · exact (KeyKind.label_prefix h).symm
  · exact KeyKind.label_prefix h

theorem peerAnd_inj {p q : Peer} {sep : Char} {s t : String}
    (h : peerAnd p sep s = peerAnd q sep t) : p = q ∧ s = t := by
  have hlen : (hex p.val).toList.length = (hex q.val).toList.length := by
    rw [hex_length, hex_length, p.property, q.property]
  obtain ⟨hp, hs⟩ := List.append_inj h hlen
  refine ⟨Subtype.ext (hex_injective (String.toList_inj.mp hp)), ?_⟩
  exact String.toList_inj.mp (List.cons.inj hs).2

theorem peerAnd_prefix (p : Peer) (sep : Char) (s : String) : peerAnd p sep "" <+: peerAnd p sep s := by
  refine (List.prefix_append_right_inj _).mpr ⟨s.toList, rfl⟩

theorem eq_of_peerAnd_prefix {p q : Peer} {sep : Char} {s : String}
    (h : peerAnd p sep "" <+: peerAnd q sep s) : p = q := by
  obtain ⟨t, h⟩ := h
  have hlen : (hex p.val).toList.length = (hex q.val).toList.length := by
    rw [hex_length, hex_length, p.property, q.property]
  unfold peerAnd at h
  rw [List.append_assoc] at h
  exact Subtype.ext (hex_injective (String.toList_inj.mp (List.append_inj h hlen).1))

theorem rest_inj {k k' : Key} (hkind : k.kind = k'.kind) (h : k.rest = k'.rest) : k = k' := by
  cases k <;> cases k' <;> simp only [kind, reduceCtorEq] at hkind
  case session.session | handshake.handshake | contact.contact | chatMeta.chatMeta =>
    rw [Subtype.ext (hex_injective (String.toList_inj.mp h))]
  case handle.handle | provisional.provisional => rw [hex64_injective (String.toList_inj.mp h)]
  case outbox.outbox | inbox.inbox | seen.seen =>
    obtain ⟨rfl, hid⟩ := peerAnd_inj h
    rw [Subtype.ext (hex_injective hid)]
  case sendid.sendid | chatOut.chatOut | chatRaw.chatRaw | chatIn.chatIn =>
    obtain ⟨rfl, hid⟩ := peerAnd_inj h
    rw [hex_injective hid]
  case chatEntry.chatEntry =>
    obtain ⟨rfl, hseq⟩ := peerAnd_inj h
    rw [decimal20_injective hseq]
  all_goals rfl

/-- No two records have one name. -/
theorem name_injective : Function.Injective Key.name := by
  intro k k' h
  have hlist := congrArg String.toList h
  have hkind : k'.kind = k.kind := by
    refine kind_of_prefix ?_
    rw [← hlist, name_toList]
    exact List.prefix_append _ _
  rw [name_toList, name_toList, hkind] at hlist
  exact rest_inj hkind.symm (List.append_cancel_left hlist)

end Key

/-! ## Listings -/

/-- `str::starts_with`. -/
def startsWith (s pre : String) : Bool := pre.toList.isPrefixOf s.toList

/-- `str::strip_prefix`. -/
def stripPrefix (s pre : String) : Option (List Char) :=
  if startsWith s pre then some (s.toList.drop pre.toList.length) else none

/-- `keys_under`. -/
def PlainMap.keysUnder (namespaceName pre : String) (m : PlainMap) : List String :=
  (PlainMap.keysIn namespaceName m).filter fun key => startsWith key pre

/-- The store holds a record under each name of `rows`, and no others. -/
def HoldsNames {K : Type} (rows : Rows K) (m : PlainMap) : Prop :=
  ∀ s, s ∈ m ↔ ∃ k ∈ rows, k.name = s

namespace KeyMaterial

theorem namespaceOf_of_colon {s : String} {a b : List Char} (h : s.toList = a ++ ':' :: b)
    (ha : ':' ∉ a) : namespaceOf s = String.ofList (a ++ [':']) := by
  have htake : s.toList.takeWhile (· ≠ ':') = a := by
    rw [h, List.takeWhile_append_of_pos fun c hc => decide_eq_true (ne_of_mem_of_not_mem hc ha),
      List.takeWhile_cons_of_neg (by decide), List.append_nil]
  rw [namespaceOf, if_pos (by rw [h]; simp), htake]

/-- A namespace begins its key, up to its colon. -/
theorem prefix_of_namespaceOf {s : String} {a : List Char} (h : namespaceOf s = String.ofList (a ++ [':'])) :
    a <+: s.toList := by
  unfold namespaceOf at h
  split at h
  · rw [← List.append_cancel_right (String.ofList_inj.mp h)]
    exact List.takeWhile_prefix _
  · rw [h, String.toList_ofList]
    exact List.prefix_append _ _

end KeyMaterial

theorem colon_not_mem_hex (bytes : Bytes) : ':' ∉ (hex bytes).toList := by
  have hdigit : ∀ i : Fin 16, ':' ≠ hexDigit (UInt8.ofNat i) := by decide
  have hdigit : ∀ x : UInt8, x.toNat < 16 → ':' ≠ hexDigit x := fun x hx => by
    have h := hdigit ⟨x.toNat, hx⟩
    rwa [UInt8.ofNat_toNat] at h
  rw [hex, String.toList_ofList]
  intro h
  obtain ⟨x, -, hx⟩ := List.mem_flatMap.mp h
  have hlt := x.toNat_lt
  rcases List.mem_cons.mp hx with he | hx
  · exact hdigit _ (by simp; omega) he
  · exact hdigit _ (by simp; omega) (List.mem_singleton.mp hx)

section

variable {K : Type} {rows : Rows K} {m : PlainMap}

theorem mem_keysIn {name s : String} :
    s ∈ PlainMap.keysIn name m ↔ s ∈ m ∧ KeyMaterial.namespaceOf s = name := by
  rw [PlainMap.keysIn, Finset.mem_sort, Finset.mem_filter, Finmap.mem_keys]

theorem startsWith_iff {s pre : String} : startsWith s pre = true ↔ pre.toList <+: s.toList :=
  List.isPrefixOf_iff_prefix

/-- A listing with a prefix that begins with a label gives names of this kind. -/
theorem mem_keysUnder (h : HoldsNames rows m) {a : KeyKind} {name pre s : String}
    (hname : ∀ k : Key, k.kind = a → KeyMaterial.namespaceOf k.name = name)
    (hpre : a.label <+: pre.toList) :
    s ∈ PlainMap.keysUnder name pre m ↔
      ∃ k ∈ rows, k.kind = a ∧ pre.toList <+: k.name.toList ∧ k.name = s := by
  rw [PlainMap.keysUnder, List.mem_filter, mem_keysIn, startsWith_iff, h]
  constructor
  · rintro ⟨⟨⟨k, hk, rfl⟩, -⟩, hs⟩
    exact ⟨k, hk, Key.kind_of_prefix (hpre.trans hs), hs, rfl⟩
  · rintro ⟨k, hk, hkind, hs, rfl⟩
    exact ⟨⟨⟨k, hk, rfl⟩, hname k hkind⟩, hs⟩

/-- A listing gives, in its own order, the names of the records that a view of the rows selects. -/
theorem listing_perm {α : Type} {f : Key → Option α} {g : α → Key} {le : α → α → Bool}
    {l : List String} (hf : ∀ k a, f k = some a ↔ k = g a) (hl : l.Nodup)
    (hmem : ∀ s, s ∈ l ↔ ∃ a, g a ∈ rows ∧ (g a).name = s) :
    l.Perm (((rows.keys.filterMap f).mergeSort le).map fun a => (g a).name) := by
  have hg : Function.Injective fun a => (g a).name := by
    intro a b h
    have hk : g a = g b := Key.name_injective h
    have ha := (hf (g a) a).mpr rfl
    rw [hk, (hf (g b) b).mpr rfl] at ha
    exact (Option.some.inj ha).symm
  have hids : ((rows.keys.filterMap f).mergeSort le).Nodup := by
    rw [(List.mergeSort_perm _ _).nodup_iff]
    refine List.Nodup.filterMap (fun k k' a h h' => ?_) rows.keys_nodup
    rw [(hf k a).mp h, (hf k' a).mp h']
  refine (List.perm_ext_iff_of_nodup hl (hids.map hg)).mpr fun s => ?_
  rw [hmem, List.mem_map]
  refine exists_congr fun a => and_congr_left' ?_
  rw [List.mem_mergeSort, List.mem_filterMap]
  constructor
  · exact fun h => ⟨g a, AList.mem_keys.mp h, (hf _ a).mpr rfl⟩
  · rintro ⟨k, hk, h⟩
    rw [← (hf k a).mp h]
    exact AList.mem_keys.mpr hk

theorem keysUnder_nodup {name pre : String} : (PlainMap.keysUnder name pre m).Nodup :=
  (Finset.sort_nodup _ _).filter _

theorem namespaceOf_name {k : Key} {a b : List Char} (h : k.kind.label = a ++ ':' :: b) (ha : ':' ∉ a) :
    KeyMaterial.namespaceOf k.name = String.ofList (a ++ [':']) := by
  refine KeyMaterial.namespaceOf_of_colon (b := b ++ k.rest) ?_ ha
  rw [Key.name_toList, h, List.append_assoc]
  rfl

/-- The names of one peer's messages, of one kind. -/
theorem messages_listing (h : HoldsNames rows m) {a : KeyKind} {g : Peer → MessageId → Key}
    (hkind : ∀ k : Key, k.kind = a ↔ ∃ p id, k = g p id)
    (hname : ∀ p id, (g p id).name.toList = a.label ++ Key.peerAnd p '/' (hex id.val))
    {c d : List Char} (hlabel : a.label = c ++ ':' :: d) (hc : ':' ∉ c)
    {peer : Peer} {pre : String} (hpre : pre.toList = a.label ++ Key.peerAnd peer '/' "") (s : String) :
    s ∈ PlainMap.keysUnder (String.ofList (c ++ [':'])) pre m ↔
      ∃ id, g peer id ∈ rows ∧ (g peer id).name = s := by
  rw [mem_keysUnder h (a := a) (fun k hk => namespaceOf_name (hk ▸ hlabel) hc)
    (hpre ▸ List.prefix_append _ _), hpre]
  constructor
  · rintro ⟨k, hk, hka, hs, rfl⟩
    obtain ⟨p, id, rfl⟩ := (hkind k).mp hka
    rw [hname, List.prefix_append_right_inj] at hs
    obtain rfl := Key.eq_of_peerAnd_prefix hs
    exact ⟨id, hk, rfl⟩
  · rintro ⟨id, hk, rfl⟩
    refine ⟨_, hk, (hkind _).mpr ⟨peer, id, rfl⟩, ?_, rfl⟩
    rw [hname, List.prefix_append_right_inj]
    exact Key.peerAnd_prefix _ _ _

/-- The pending messages to a peer. -/
theorem outbox_listing (h : HoldsNames rows m) (peer : Peer) :
    (PlainMap.keysUnder outboxNamespace (outboxPrefix peer) m).Perm
      ((rows.idsOf (Rows.outboxId peer)).map (outboxKey peer)) := by
  refine listing_perm (Rows.outboxId_iff peer) keysUnder_nodup fun s => ?_
  refine messages_listing h (a := .outbox) (g := .outbox) (c := "outbox".toList) (fun k => ?_)
    (fun p id => Key.name_toList (.outbox p id)) (d := "v1/".toList) rfl (by decide)
    (Key.outboxPrefix_toList peer) s
  cases k <;> simp [Key.kind]

/-- The pending messages from a peer. -/
theorem inbox_listing (h : HoldsNames rows m) (peer : Peer) :
    (PlainMap.keysUnder inboxNamespace (inboxPrefix peer) m).Perm
      ((rows.idsOf (Rows.inboxId peer)).map (inboxKey peer)) := by
  refine listing_perm (Rows.inboxId_iff peer) keysUnder_nodup fun s => ?_
  refine messages_listing h (a := .inbox) (g := .inbox) (c := "inbox".toList) (fun k => ?_)
    (fun p id => Key.name_toList (.inbox p id)) (d := "v1/".toList) rfl (by decide)
    (Key.inboxPrefix_toList peer) s
  cases k <;> simp [Key.kind]

/-- The pinned contacts. -/
theorem contacts_listing (h : HoldsNames rows m) :
    (PlainMap.keysUnder "contact:" "contact:v1/" m).Perm (rows.contacts.map contactKey) := by
  refine listing_perm (g := .contact) (fun k p => ?_) keysUnder_nodup fun s => ?_
  · cases k <;> simp
  · have hlabel : KeyKind.contact.label = "contact".toList ++ ':' :: "v1/".toList := rfl
    have hname : "contact:" = String.ofList ("contact".toList ++ [':']) := by decide
    rw [hname, mem_keysUnder h (a := .contact)
      (fun k hk => namespaceOf_name (hk ▸ hlabel) (by decide)) List.prefix_rfl]
    constructor
    · rintro ⟨k, hk, hka, -, rfl⟩
      cases k <;> simp only [Key.kind, reduceCtorEq] at hka
      exact ⟨_, hk, rfl⟩
    · rintro ⟨p, hk, rfl⟩
      refine ⟨_, hk, rfl, ?_, rfl⟩
      rw [Key.name_toList]
      exact List.prefix_append _ _

theorem entryNamespace_eq (peer : Peer) :
    entryNamespace peer = String.ofList (KeyKind.chatEntry.label ++ (hex peer.val).toList ++ [':']) := by
  rw [← String.toList_inj, String.toList_ofList, entryNamespace, String.toList_append,
    String.toList_append, Key.colon_toList]
  rfl

theorem namespaceOf_entryKey (peer : Peer) (seq : Nat) :
    KeyMaterial.namespaceOf (entryKey peer seq) = entryNamespace peer := by
  rw [entryNamespace_eq]
  refine KeyMaterial.namespaceOf_of_colon (b := (decimal20 seq).toList) ?_ ?_
  · have h := Key.name_toList (.chatEntry peer seq)
    rw [List.append_assoc]
    exact h
  · intro hc
    rcases List.mem_append.mp hc with hc | hc
    · exact absurd hc (by decide)
    · exact colon_not_mem_hex _ hc

/-- The entries of a conversation: they have a namespace of their own. -/
theorem entries_listing (h : HoldsNames rows m) (peer : Peer) :
    (PlainMap.keysIn (entryNamespace peer) m).Perm ((rows.chatSeqs peer).map (entryKey peer)) := by
  refine listing_perm (g := .chatEntry peer) (fun k seq => ?_) (Finset.sort_nodup _ _) fun s => ?_
  · cases k with
    | chatEntry p seq' => by_cases hp : p = peer <;> simp [hp]
    | _ => simp
  · rw [mem_keysIn, h]
    constructor
    · rintro ⟨⟨k, hk, rfl⟩, hs⟩
      have hpre := KeyMaterial.prefix_of_namespaceOf (hs.trans (entryNamespace_eq peer))
      have hka := Key.kind_of_prefix ((List.prefix_append _ _).trans hpre)
      cases k with
      | chatEntry p seq =>
        have hns := (namespaceOf_entryKey p seq).symm.trans hs
        rw [entryNamespace_eq, entryNamespace_eq] at hns
        have hhex := List.append_cancel_left (List.append_cancel_right (String.ofList_inj.mp hns))
        obtain rfl := Subtype.ext (hex_injective (String.toList_inj.mp hhex))
        exact ⟨seq, hk, rfl⟩
      | _ => simp only [Key.kind, reduceCtorEq] at hka
    · rintro ⟨seq, hk, rfl⟩
      exact ⟨⟨_, hk, rfl⟩, namespaceOf_entryKey peer seq⟩

end

/-- What `entries` reads off a listed name. -/
theorem stripPrefix_entryKey (peer : Peer) {seq : Nat} (h : seq < 2 ^ 64) :
    (stripPrefix (entryKey peer seq) (entryNamespace peer)).bind parseU64 = some seq := by
  have hlist : (entryKey peer seq).toList = (entryNamespace peer).toList ++ (decimal20 seq).toList :=
    String.toList_append
  unfold stripPrefix
  rw [if_pos (startsWith_iff.mpr (hlist ▸ List.prefix_append _ _)), hlist, List.drop_left]
  exact parseU64_decimal20 h

/-! ## Client ids -/

namespace ClientId

theorem receipt_inj {a b : MessageId} {m n : UInt64} (h : receipt a m = receipt b n) :
    a = b ∧ m = n := by
  have htail := (List.cons.inj h).2
  obtain ⟨hid, hround⟩ := List.append_inj htail (a.property.trans b.property.symm)
  refine ⟨Subtype.ext hid, ?_⟩
  -- A round is left out if it is 0.
  split at hround
  · split at hround
    · rw [← Codec.ofBe64_be64 m, hround, Codec.ofBe64_be64]
    · cases hround
  · next hm =>
    split at hround
    · cases hround
    · next hn =>
      have hzero : ∀ k : UInt64, ¬ 0 < k → k = 0 := fun k hk =>
        UInt64.le_antisymm (UInt64.not_lt.mp hk) (UInt64.zero_le)
      rw [hzero m hm, hzero n hn]

theorem receipt_length_le (id : MessageId) (round : UInt64) : (receipt id round).length ≤ 64 := by
  rw [receipt, List.length_cons, List.length_append, id.property]
  split
  · show 32 + 8 + 1 ≤ 64
    decide
  · decide

/-- The ids of the network layer are reserved. -/
theorem isReserved_text (appId : Bytes) : isReserved (text appId) = true := by
  simp [isReserved, text]

theorem isReserved_receipt (id : MessageId) (round : UInt64) : isReserved (receipt id round) = true := by
  simp [isReserved, receipt]

theorem isReserved_opener : isReserved opener = true := by decide

theorem opener_ne {first : UInt8} {rest : Bytes} (h : first ≠ 'o'.toNat.toUInt8) :
    first :: rest ≠ opener := fun he => h (List.cons.inj he).1

/-- The ids of texts, receipts and the opener are apart from each other, and from every id that
`is_reserved` lets through. -/
structure Separate : Prop where
  texts : Function.Injective text
  receipts : ∀ a b m n, receipt a m = receipt b n → a = b ∧ m = n
  text_receipt : ∀ appId id round, text appId ≠ receipt id round
  text_opener : ∀ appId, text appId ≠ opener
  receipt_opener : ∀ id round, receipt id round ≠ opener
  text_length : ∀ appId : Bytes, appId.length ≤ 63 → (text appId).length ≤ 64
  receipt_length : ∀ id round, (receipt id round).length ≤ 64
  opener_length : opener.length ≤ 64
  others : ∀ id, isReserved id = false →
    (∀ appId, id ≠ text appId) ∧ (∀ mid round, id ≠ receipt mid round) ∧ id ≠ opener

theorem separate : Separate where
  texts _ _ := text_inj
  receipts _ _ _ _ := receipt_inj
  text_receipt _ _ _ := text_ne_receipt rfl
  text_opener _ := opener_ne (by decide)
  receipt_opener _ _ := opener_ne (by decide)
  text_length _ h := Nat.succ_le_succ h
  receipt_length := receipt_length_le
  opener_length := by decide
  others id h := by
    have hne : ∀ {cid : Bytes}, isReserved cid = true → id ≠ cid := by
      rintro cid hc rfl
      rw [h] at hc
      cases hc
    exact ⟨fun _ => hne (isReserved_text _), fun _ _ => hne (isReserved_receipt _ _),
      hne isReserved_opener⟩

end ClientId

/-! ## All of them -/

/-- No two records have one name, and a listing gives the records of one peer and kind. -/
structure KeysSeparate : Prop where
  names : Function.Injective Key.name
  outbox : ∀ {K : Type} (rows : Rows K) (m : PlainMap), HoldsNames rows m → ∀ peer,
    (PlainMap.keysUnder outboxNamespace (outboxPrefix peer) m).Perm
      ((rows.idsOf (Rows.outboxId peer)).map (outboxKey peer))
  inbox : ∀ {K : Type} (rows : Rows K) (m : PlainMap), HoldsNames rows m → ∀ peer,
    (PlainMap.keysUnder inboxNamespace (inboxPrefix peer) m).Perm
      ((rows.idsOf (Rows.inboxId peer)).map (inboxKey peer))
  contacts : ∀ {K : Type} (rows : Rows K) (m : PlainMap), HoldsNames rows m →
    (PlainMap.keysUnder "contact:" "contact:v1/" m).Perm (rows.contacts.map contactKey)
  entries : ∀ {K : Type} (rows : Rows K) (m : PlainMap), HoldsNames rows m → ∀ peer,
    (PlainMap.keysIn (entryNamespace peer) m).Perm ((rows.chatSeqs peer).map (entryKey peer))
  seqs : ∀ peer seq, seq < 2 ^ 64 →
    (stripPrefix (entryKey peer seq) (entryNamespace peer)).bind parseU64 = some seq
  clientIds : ClientId.Separate

/-- **Names are apart**: of the records in the store, of the listings, and of what the network layer
sends. -/
theorem keys_separate : KeysSeparate where
  names := Key.name_injective
  outbox _ _ := outbox_listing
  inbox _ _ := inbox_listing
  contacts _ _ := contacts_listing
  entries _ _ := entries_listing
  seqs peer _ := stripPrefix_entryKey peer
  clientIds := ClientId.separate

end Arcium
