import Arcium.Base.Codec
import Arcium.Storage.Records

/-!
# What the network layer puts on the wire (`mobile-ffi/src/network/wire.rs`)

`Envelope` is what the relay stores and sees; its sender is not authenticated. `Payload` is the
plaintext inside a ratchet message. `client_id` names what the network layer sends through the
outbox: the first byte keeps texts, receipts and the opener apart (`ClientId.text_ne_receipt`).
-/

namespace Arcium

/-! ## Envelopes -/

inductive Envelope where
  | handshake (sender : Peer) (handshake : Bytes)
  | message (sender : Peer) (wire : Bytes)
  deriving DecidableEq

namespace Envelope

/-- `MAGIC`: `ARN1`. -/
def magic : Bytes := [0x41, 0x52, 0x4E, 0x31]

def sender : Envelope → Peer
  | handshake sender _ => sender
  | message sender _ => sender

def encode : Envelope → Bytes
  | handshake sender body => magic ++ 1 :: (sender.val ++ body)
  | message sender body => magic ++ 2 :: (sender.val ++ body)

/-- `None` for anything that is not a well-formed `ENVELOPE_V1`. -/
def decode (bytes : Bytes) : Option Envelope :=
  if bytes.length < 37 ∨ bytes.take 4 ≠ magic then none
  else
    match bytes.drop 4 with
    | kind :: rest =>
      match take32 rest with
      | none => none
      | some sender =>
        if kind = 1 then some (handshake sender (rest.drop 32))
        else if kind = 2 then some (message sender (rest.drop 32))
        else none
    | [] => none

theorem decode_encode (e : Envelope) : decode e.encode = some e := by
  have hm : magic.length = 4 := rfl
  have hlen : ∀ (kind : UInt8) (sender : Peer) (body : Bytes),
      ¬ (magic ++ kind :: (sender.val ++ body)).length < 37 := by
    intro kind sender body
    simp only [List.length_append, List.length_cons, hm, sender.property]
    omega
  have htake : ∀ rest : Bytes, (magic ++ rest).take 4 = magic := fun rest => List.take_left' hm
  have hdrop : ∀ rest : Bytes, (magic ++ rest).drop 4 = rest := fun rest => List.drop_left' hm
  cases e with
  | handshake sender body =>
    unfold decode encode
    rw [if_neg (by rw [htake]; simpa using hlen 1 sender body), hdrop]
    simp [take32_append, List.drop_left' sender.property]
  | message sender body =>
    unfold decode encode
    rw [if_neg (by rw [htake]; simpa using hlen 2 sender body), hdrop]
    simp [take32_append, List.drop_left' sender.property]

theorem encode_decode {bytes : Bytes} {e : Envelope} (h : decode bytes = some e) : e.encode = bytes := by
  unfold decode at h
  split at h
  · cases h
  · next hok =>
    obtain ⟨-, hmagic⟩ := not_or.mp hok
    have hbytes := List.take_append_drop 4 bytes
    rw [not_not.mp hmagic] at hbytes
    split at h
    · next kind rest hdrop =>
      split at h
      · cases h
      · next sender hsender =>
        have hrest := take32_some hsender
        rw [hdrop, hrest] at hbytes
        split at h
        · next hkind =>
          obtain rfl := Option.some.inj h
          subst hkind
          exact hbytes
        · split at h
          · next hkind =>
            obtain rfl := Option.some.inj h
            subst hkind
            exact hbytes
          · cases h
    · cases h

/-- Envelopes have one encoding. -/
theorem canonical : Canonical (fun _ => True) encode (fun bytes e => decode bytes = some e) := by
  intro bytes e
  constructor
  · exact fun h => ⟨trivial, (encode_decode h).symm⟩
  · rintro ⟨-, rfl⟩
    exact decode_encode e

end Envelope

/-! ## Payloads -/

inductive Payload where
  | text (text : Bytes)
  | receipt (ids : List MessageId)
  | opener
  deriving DecidableEq

namespace Payload

/-- `MAX_RECEIPT_IDS`. -/
def maxReceiptIds : Nat := 256

def encode : Payload → Bytes
  | text t => 1 :: t
  | receipt ids => 2 :: (be16 (UInt16.ofNat ids.length) ++ ids.flatMap fun id => id.val)
  | opener => [3]

/-- The ids of a receipt: `count` chunks of 32 bytes. -/
def chunks : Nat → Bytes → List MessageId
  | 0, _ => []
  | count + 1, bytes =>
    match take32 bytes with
    | some id => id :: chunks count (bytes.drop 32)
    | none => []

/-- `None` for an unknown type or a malformed receipt. -/
def decode : Bytes → Option Payload
  | [] => none
  | kind :: rest =>
    if kind = 1 then some (text rest)
    else if kind = 2 then
      match rest with
      | c0 :: c1 :: ids =>
        let count := (ofBe16 c0 c1).toNat
        if count = 0 ∨ maxReceiptIds < count ∨ ids.length ≠ count * 32 then none
        else some (receipt (chunks count ids))
      | _ => none
    else if kind = 3 ∧ rest = [] then some opener
    else none

theorem chunks_flatMap (ids : List MessageId) :
    chunks ids.length (ids.flatMap fun id => id.val) = ids := by
  induction ids with
  | nil => rfl
  | cons id ids ih =>
    simp only [List.length_cons, List.flatMap_cons, chunks, take32_append,
      List.drop_left' id.property, ih]

theorem flatMap_length (ids : List MessageId) :
    (ids.flatMap fun id => id.val).length = ids.length * 32 := by
  induction ids with
  | nil => rfl
  | cons id ids ih =>
    rw [List.flatMap_cons, List.length_append, ih, id.property, List.length_cons]
    omega

/-- What a sender can encode: a receipt names one to `MAX_RECEIPT_IDS` messages. -/
def Valid : Payload → Prop
  | receipt ids => 1 ≤ ids.length ∧ ids.length ≤ maxReceiptIds
  | _ => True

theorem decode_encode {p : Payload} (h : p.Valid) : decode p.encode = some p := by
  cases p with
  | text t => rfl
  | opener => rfl
  | receipt ids =>
    obtain ⟨h1, h2⟩ := h
    unfold maxReceiptIds at h2
    have hc : (UInt16.ofNat ids.length).toNat = ids.length := by
      rw [UInt16.toNat_ofNat']
      omega
    have hlen := flatMap_length ids
    have hne : ¬ (ids.length = 0 ∨ maxReceiptIds < ids.length ∨
        (ids.flatMap fun id => id.val).length ≠ ids.length * 32) := by
      unfold maxReceiptIds
      omega
    simp only [decode, encode, be16, List.cons_append, List.nil_append]
    rw [if_neg (by decide), if_pos trivial, ofBe16_be16, hc, if_neg hne, chunks_flatMap]

/-- The ids of a receipt that is long enough. -/
theorem flatMap_chunks {count : Nat} {bytes : Bytes} (h : bytes.length = count * 32) :
    (chunks count bytes).length = count ∧ (chunks count bytes).flatMap (fun id => id.val) = bytes := by
  induction count generalizing bytes with
  | zero =>
    rw [Nat.zero_mul] at h
    exact ⟨rfl, (List.length_eq_zero_iff.mp h).symm⟩
  | succ count ih =>
    have hhead : (bytes.take 32).length = 32 := List.length_take_of_le (by omega)
    have hid : take32 bytes = some ⟨bytes.take 32, hhead⟩ := dif_pos hhead
    obtain ⟨hlen, hflat⟩ := ih (show (bytes.drop 32).length = count * 32 by rw [List.length_drop]; omega)
    unfold chunks
    rw [hid]
    dsimp only
    rw [List.length_cons, hlen, List.flatMap_cons, hflat, List.take_append_drop]
    exact ⟨rfl, rfl⟩

theorem encode_decode {bytes : Bytes} {p : Payload} (h : decode bytes = some p) :
    p.Valid ∧ p.encode = bytes := by
  unfold decode at h
  split at h
  · cases h
  · next kind rest =>
    split at h
    · next hkind =>
      obtain rfl := Option.some.inj h
      exact ⟨trivial, hkind ▸ rfl⟩
    · split at h
      · next hkind =>
        split at h
        · next c0 c1 ids =>
          dsimp only at h
          split at h
          · cases h
          · next hok =>
            obtain ⟨hpos, hmax, hlen⟩ : ¬ (ofBe16 c0 c1).toNat = 0 ∧
                ¬ maxReceiptIds < (ofBe16 c0 c1).toNat ∧ ids.length = (ofBe16 c0 c1).toNat * 32 := by
              simpa only [not_or, not_not] using hok
            obtain ⟨hcount, hflat⟩ := flatMap_chunks hlen
            obtain rfl := Option.some.inj h
            refine ⟨⟨by omega, by omega⟩, ?_⟩
            rw [encode, hcount, hflat, UInt16.ofNat_toNat, Codec.be16_ofBe16, hkind]
            rfl
        · cases h
      · split at h
        · next hkind =>
          obtain rfl := Option.some.inj h
          exact ⟨trivial, by rw [hkind.1, hkind.2]; rfl⟩
        · cases h

/-- Payloads have one encoding. -/
theorem canonical : Canonical Valid encode (fun bytes p => decode bytes = some p) := by
  intro bytes p
  constructor
  · intro h
    obtain ⟨hvalid, hbytes⟩ := encode_decode h
    exact ⟨hvalid, hbytes.symm⟩
  · rintro ⟨hvalid, rfl⟩
    exact decode_encode hvalid

end Payload

/-! ## Client ids -/

namespace ClientId

/-- `TEXT`, `RECEIPT` and `OPEN`. -/
def textByte : UInt8 := 't'.toNat.toUInt8

def receiptByte : UInt8 := 'r'.toNat.toUInt8

def opener : Bytes := ['o'.toNat.toUInt8]

/-- `is_reserved`. -/
def isReserved (id : Bytes) : Bool :=
  id == opener || id.head? == some textByte || id.head? == some receiptByte

def text (appId : Bytes) : Bytes := textByte :: appId

/-- The receipt for `id`. `round` above 0 names a later receipt for the same message. -/
def receipt (id : MessageId) (round : UInt64) : Bytes :=
  receiptByte :: (id.val ++ if 0 < round then be64 round else [])

theorem text_ne_receipt {appId cid : Bytes} (h : cid.head? = some receiptByte) : text appId ≠ cid := by
  rintro rfl
  simp only [text, List.head?_cons, Option.some.injEq] at h
  exact absurd h (by decide)

theorem text_inj {a b : Bytes} (h : text a = text b) : a = b := (List.cons.inj h).2

end ClientId

end Arcium
