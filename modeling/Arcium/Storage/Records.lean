import Arcium.Crypto.Ratchet
import Mathlib.Data.List.AList

/-!
# The records of the database

Every record the application keeps in its encrypted store, as a typed value under a typed key: the
key functions of `core-protocol/src/messaging/records.rs`, `checkpoint.rs` and
`mobile-ffi/src/network/chat.rs` are the constructors of `Key`, and `Row k` is the type of the
record at `k`. A layout (magic, version, lengths) is not part of a record here; a check that relates
the fields of one (an id to its wire, an AD to its identities) is, where the record is read.

`Rows` is the database: a finite map from keys to records.
-/

namespace Arcium

/-- `MessageId`. -/
abbrev MessageId := Bytes32

/-- A peer: its X25519 identity key. -/
abbrev Peer := Bytes32

/-! ## Records of `core-protocol` -/

inductive SessionRole where
  | initiator
  | responder
  deriving DecidableEq, Repr

/-- `SESSION_CHECKPOINT_V1`. -/
structure SessionRecord (K : Type) where
  role : SessionRole
  generation : UInt64
  our : Bytes32
  peer : Peer
  ad : Bytes
  ratchet : DoubleRatchet K
  deriving DecidableEq

/-- `OUTBOX_RECORD_V1`: a committed outgoing message. -/
structure OutgoingMessage where
  messageId : MessageId
  clientMessageId : Bytes
  generation : UInt64
  wire : Bytes
  deriving DecidableEq

/-- `INBOX_RECORD_V1`: a committed incoming message. -/
structure IncomingMessage where
  messageId : MessageId
  generation : UInt64
  plaintext : Bytes
  deriving DecidableEq

/-- `SENDID_RECORD_V1`: what became of a logical message. -/
inductive SendRecord where
  /-- `SENDID_MAGIC`. -/
  | sent (id : MessageId)
  /-- `ABANDONED_MAGIC`. -/
  | abandoned (id : MessageId)
  deriving DecidableEq

/-- The message a send record names. -/
def SendRecord.id : SendRecord → MessageId
  | sent id => id
  | abandoned id => id

/-- `PROVISIONAL_HANDSHAKE_RECORD_V1`. -/
structure ProvisionalHandshake where
  peerIdentityPk : Peer
  handshake : Bytes
  deriving DecidableEq

/-! ## Records of `mobile-ffi` -/

/-- An Ed25519 signature. -/
abbrev Signature := { b : Bytes // b.length = 64 }

structure Identity where
  dhKey : StaticSecret
  signingKey : Bytes32
  deriving DecidableEq

/-- `PrekeyRecordV2`. -/
structure PrekeyRecord where
  signedPrekeySk : StaticSecret
  signature : Signature
  opk : Option (UInt64 × StaticSecret)
  deriving DecidableEq

/-- A pinned contact card. -/
structure Card where
  dhPk : Peer
  signingPk : Bytes32
  deriving DecidableEq

inductive ChatEntryState where
  | queued
  | pending
  | transmitted
  | delivered
  | notDelivered
  | received
  deriving DecidableEq, Repr

/-- A chat history entry. Its position is a `u64`, and the counter (`ChatMeta`) is never exhausted. -/
structure Entry where
  seq : Nat
  outgoing : Bool
  state : ChatEntryState
  atMs : UInt64
  appId : Bytes
  messageId : Bytes
  text : Bytes
  deriving DecidableEq

/-- `Meta`: what a conversation keeps beside its entries. Its counters are `u64` in the source, as are
the positions in `chat-o` and `chat-i` records; they stay below 2^64 as long as a conversation has no
2^64 entries. -/
structure ChatMeta where
  lastSeq : Nat := 0
  seenSeq : Nat := 0
  flags : UInt8 := 0
  name : String := ""
  note : String := ""
  deriving DecidableEq

/-! ## Keys -/

inductive Key where
  /-- `session:v1/`. -/
  | session (peer : Peer)
  /-- `handle:v1/`. -/
  | handle (handle : UInt64)
  /-- `hsout:v1/`. -/
  | handshake (peer : Peer)
  /-- `hsin:v1/`. -/
  | provisional (handle : UInt64)
  | outbox (peer : Peer) (id : MessageId)
  | inbox (peer : Peer) (id : MessageId)
  | seen (peer : Peer) (id : MessageId)
  | sendid (peer : Peer) (clientId : Bytes)
  | identity
  | prekeys
  | contact (peer : Peer)
  /-- `chat-meta:v1/`. -/
  | chatMeta (peer : Peer)
  /-- `chat-e.v1.`. -/
  | chatEntry (peer : Peer) (seq : Nat)
  /-- `chat-o:v1/`. -/
  | chatOut (peer : Peer) (appId : Bytes)
  /-- `chat-r:v1/`. -/
  | chatRaw (peer : Peer) (appId : Bytes)
  /-- `chat-i:v1/`. -/
  | chatIn (peer : Peer) (id : Bytes)
  deriving DecidableEq

namespace Key

/-- The namespace that `SideWrite` refuses. -/
def isSession : Key → Bool
  | session _ => true
  | _ => false

/-- A record that the `Messenger` keeps. -/
def isMessenger : Key → Bool
  | session _ | handle _ | handshake _ | provisional _ | outbox _ _ | inbox _ _ | seen _ _
  | sendid _ _ => true
  | _ => false

/-- A record about one message. -/
def isMessage : Key → Bool
  | outbox _ _ | inbox _ _ | seen _ _ | sendid _ _ => true
  | _ => false

theorem isMessenger_of_isMessage {k : Key} (h : k.isMessage = true) : k.isMessenger = true := by
  cases k <;> first | rfl | cases h

end Key

/-- The type of the record at a key. -/
def Row (K : Type) : Key → Type
  | .session _ => SessionRecord K
  | .handle _ => Peer
  | .handshake _ => Bytes
  | .provisional _ => ProvisionalHandshake
  | .outbox _ _ => OutgoingMessage
  | .inbox _ _ => IncomingMessage
  | .seen _ _ => MessageId
  | .sendid _ _ => SendRecord
  | .identity => Identity
  | .prekeys => PrekeyRecord
  | .contact _ => Card
  | .chatMeta _ => ChatMeta
  | .chatEntry _ _ => Entry
  | .chatOut _ _ => Nat
  | .chatRaw _ _ => Unit
  | .chatIn _ _ => Nat

instance {K : Type} [DecidableEq K] : (k : Key) → DecidableEq (Row K k)
  | .session _ => inferInstanceAs (DecidableEq (SessionRecord K))
  | .handle _ => inferInstanceAs (DecidableEq Peer)
  | .handshake _ => inferInstanceAs (DecidableEq Bytes)
  | .provisional _ => inferInstanceAs (DecidableEq ProvisionalHandshake)
  | .outbox _ _ => inferInstanceAs (DecidableEq OutgoingMessage)
  | .inbox _ _ => inferInstanceAs (DecidableEq IncomingMessage)
  | .seen _ _ => inferInstanceAs (DecidableEq MessageId)
  | .sendid _ _ => inferInstanceAs (DecidableEq SendRecord)
  | .identity => inferInstanceAs (DecidableEq Identity)
  | .prekeys => inferInstanceAs (DecidableEq PrekeyRecord)
  | .contact _ => inferInstanceAs (DecidableEq Card)
  | .chatMeta _ => inferInstanceAs (DecidableEq ChatMeta)
  | .chatEntry _ _ => inferInstanceAs (DecidableEq Entry)
  | .chatOut _ _ => inferInstanceAs (DecidableEq Nat)
  | .chatRaw _ _ => inferInstanceAs (DecidableEq Unit)
  | .chatIn _ _ => inferInstanceAs (DecidableEq Nat)

/-! ## The database -/

/-- The database. -/
abbrev Rows (K : Type) := AList (Row K)

/-- One write: the record at `key` becomes `value`, or is deleted. -/
structure Change (K : Type) where
  key : Key
  value : Option (Row K key)

namespace Rows

variable {K : Type}

def apply (rows : Rows K) (c : Change K) : Rows K :=
  match c.value with
  | some v => rows.insert c.key v
  | none => rows.erase c.key

/-- The writes of one transaction, in order. -/
def applyAll (rows : Rows K) (cs : List (Change K)) : Rows K := cs.foldl apply rows

@[simp] theorem lookup_apply_self (rows : Rows K) (k : Key) (v : Option (Row K k)) :
    (rows.apply ⟨k, v⟩).lookup k = v := by
  cases v with
  | some v => exact AList.lookup_insert rows
  | none => exact AList.lookup_erase k rows

theorem lookup_apply_ne (rows : Rows K) {k : Key} {c : Change K} (h : k ≠ c.key) :
    (rows.apply c).lookup k = rows.lookup k := by
  unfold apply
  split
  · exact AList.lookup_insert_ne h
  · exact AList.lookup_erase_ne h

@[simp] theorem applyAll_nil (rows : Rows K) : rows.applyAll [] = rows := rfl

@[simp] theorem applyAll_cons (rows : Rows K) (c : Change K) (cs : List (Change K)) :
    rows.applyAll (c :: cs) = (rows.apply c).applyAll cs := rfl

theorem applyAll_append (rows : Rows K) (cs cs' : List (Change K)) :
    rows.applyAll (cs ++ cs') = (rows.applyAll cs).applyAll cs' := List.foldl_append

/-- A transaction leaves the records alone that it does not name. -/
theorem lookup_applyAll_ne (rows : Rows K) {k : Key} {cs : List (Change K)}
    (h : ∀ c ∈ cs, k ≠ c.key) : (rows.applyAll cs).lookup k = rows.lookup k := by
  induction cs generalizing rows with
  | nil => rfl
  | cons c cs ih =>
    rw [applyAll_cons, ih _ fun c' hc' => h c' (List.mem_cons_of_mem _ hc'),
      lookup_apply_ne rows (h c List.mem_cons_self)]

/-- The last write of a transaction to a record is what is left. -/
theorem lookup_applyAll_head (rows : Rows K) {k : Key} (v : Option (Row K k))
    {cs : List (Change K)} (h : ∀ c ∈ cs, k ≠ c.key) :
    (rows.applyAll (⟨k, v⟩ :: cs)).lookup k = v := by
  rw [applyAll_cons, lookup_applyAll_ne _ h, lookup_apply_self]

/-- Of writes to different records, each leaves its record. -/
theorem lookup_applyAll_of_mem {cs : List (Change K)} (hn : (cs.map Change.key).Nodup) {k : Key}
    {v : Option (Row K k)} (h : ⟨k, v⟩ ∈ cs) (rows : Rows K) : (rows.applyAll cs).lookup k = v := by
  induction cs generalizing rows with
  | nil => exact absurd h List.not_mem_nil
  | cons c cs ih =>
    rw [List.map_cons, List.nodup_cons] at hn
    rcases List.mem_cons.mp h with rfl | h
    · exact lookup_applyAll_head rows v fun c hc heq => hn.1 (List.mem_map.mpr ⟨c, hc, heq.symm⟩)
    · exact ih hn.2 h _

/-- A record was there before, or was written. -/
theorem lookup_applyAll_some {rows : Rows K} {cs : List (Change K)} {k : Key} {v : Row K k}
    (h : (rows.applyAll cs).lookup k = some v) : ⟨k, some v⟩ ∈ cs ∨ rows.lookup k = some v := by
  induction cs generalizing rows with
  | nil => exact .inr h
  | cons c cs ih =>
    rcases ih h with h | h
    · exact .inl (List.mem_cons_of_mem _ h)
    · by_cases hk : k = c.key
      · obtain ⟨key, value⟩ := c
        subst hk
        rw [lookup_apply_self] at h
        exact .inl (h ▸ List.mem_cons_self)
      · exact .inr ((lookup_apply_ne rows hk).symm.trans h)

/-- Of a record that `p` selects, only the writes that `p` selects matter. -/
theorem lookup_applyAll_filter (p : Key → Bool) {k : Key} (hk : p k = true) (cs : List (Change K))
    (rows : Rows K) :
    (rows.applyAll cs).lookup k = (rows.applyAll (cs.filter fun c => p c.key)).lookup k := by
  suffices ∀ rows rows' : Rows K, rows.lookup k = rows'.lookup k →
      (rows.applyAll cs).lookup k = (rows'.applyAll (cs.filter fun c => p c.key)).lookup k from
    this rows rows rfl
  induction cs with
  | nil => exact fun _ _ h => h
  | cons c cs ih =>
    intro rows rows' h
    by_cases hp : p c.key = true
    · rw [List.filter_cons, if_pos hp]
      refine ih _ _ ?_
      by_cases hc : k = c.key
      · subst hc
        rw [lookup_apply_self, lookup_apply_self]
      · rw [lookup_apply_ne _ hc, lookup_apply_ne _ hc, h]
    · rw [List.filter_cons, if_neg hp]
      refine ih _ _ ?_
      rw [lookup_apply_ne _ fun hc => hp (hc ▸ hk), h]

/-- The ids in a namespace of `peer`, in the order `list_keys_with_prefix` returns them. -/
def idsOf (rows : Rows K) (idOf : Key → Option MessageId) : List MessageId :=
  (rows.keys.filterMap idOf).mergeSort fun a b => a.val ≤ b.val

def outboxId (peer : Peer) : Key → Option MessageId
  | .outbox p id => if p = peer then some id else none
  | _ => none

def inboxId (peer : Peer) : Key → Option MessageId
  | .inbox p id => if p = peer then some id else none
  | _ => none

/-- The pinned contacts, in the order of their keys. -/
def contacts (rows : Rows K) : List Peer :=
  (rows.keys.filterMap fun
    | .contact p => some p
    | _ => none).mergeSort fun a b => a.val ≤ b.val

/-- The positions of the chat entries of `peer`, in order. -/
def chatSeqs (rows : Rows K) (peer : Peer) : List Nat :=
  (rows.keys.filterMap fun
    | .chatEntry p seq => if p = peer then some seq else none
    | _ => none).mergeSort fun a b => a ≤ b

end Rows

end Arcium
