import Mathlib.Algebra.Ring.Nat
import Arcium.Base.Reader
import Arcium.Relay.Server

/-!
# The relay's messages (`relay/src/protocol.rs`)

Frames, and the bodies of requests and responses. A request says with its first byte how the rest is
laid out (`Request.decode_ok`); a response is laid out as its request asks for (`Response.decode_ok`).
In both, what is accepted is what is written.

An ITEMS response is a status byte, a count of two bytes, and for each envelope its number, its length
and its bytes.
-/

namespace Arcium

namespace Relay

/-- `ProtocolError`. What the operating system says of a stream that fails is left out. -/
inductive ProtocolError where
  | malformed
  | tooLarge (len : Nat)
  | io
  deriving DecidableEq

/-! ## Frames -/

/-- `write_frame`: the bytes it writes. -/
def writeFrame (body : Bytes) : Except ProtocolError Bytes :=
  if maxFrame < body.length then .error (.tooLarge body.length)
  else .ok (be32 (UInt32.ofNat body.length) ++ body)

theorem writeFrame_ok {body : Bytes} (h : body.length ≤ maxFrame) :
    writeFrame body = .ok (be32 (UInt32.ofNat body.length) ++ body) := if_neg (Nat.not_lt.mpr h)

theorem writeFrame_error {body : Bytes} {e : ProtocolError} :
    writeFrame body = .error e ↔ maxFrame < body.length ∧ e = .tooLarge body.length := by
  unfold writeFrame
  split
  · next h => rw [Except.error.injEq, and_iff_right h, eq_comm]
  · next h => simp [h]

/-- `read_frame`, from a stream that ends after these bytes: the frame, unless the stream ends before
one begins, and what is left of the stream. -/
def readFrame (stream : Bytes) : Except ProtocolError (Option Bytes × Bytes) :=
  if stream.length < 4 then .ok (none, [])
  else
    let len := (Codec.u32.read stream 0).toNat
    if maxFrame < len then .error (.tooLarge len)
    else if (stream.drop 4).length < len then .error .io
    else .ok (some (slice stream 4 len), stream.drop (4 + len))

/-- A frame is read back, and what follows it is left. -/
theorem readFrame_append {body bytes : Bytes} (h : writeFrame body = .ok bytes) (rest : Bytes) :
    readFrame (bytes ++ rest) = .ok (some body, rest) := by
  unfold writeFrame at h
  split at h
  · cases h
  · next hfits =>
    have hle := Nat.not_lt.mp hfits
    obtain rfl := Except.ok.inj h
    have hlen : (UInt32.ofNat body.length).toNat = body.length := by
      rw [UInt32.toNat_ofNat', Nat.mod_eq_of_lt]
      exact Nat.lt_of_le_of_lt hle (by decide)
    have hread : Codec.u32.read (be32 (UInt32.ofNat body.length) ++ body ++ rest) 0 =
        UInt32.ofNat body.length := by
      rw [List.append_assoc]
      exact Codec.u32.read_here _ _
    have hdrop : (be32 (UInt32.ofNat body.length) ++ body ++ rest).drop 4 = body ++ rest := by
      rw [List.append_assoc]
      exact List.drop_left' rfl
    have hslice : slice (be32 (UInt32.ofNat body.length) ++ body ++ rest) 4 body.length = body := by
      rw [slice, hdrop, List.take_left]
    have hrest : (be32 (UInt32.ofNat body.length) ++ body ++ rest).drop (4 + body.length) = rest := by
      rw [← List.drop_drop, hdrop, List.drop_left]
    have hmore : ¬ (body ++ rest).length < body.length := by
      rw [List.length_append]
      omega
    have hfour : ¬ (be32 (UInt32.ofNat body.length) ++ body ++ rest).length < 4 := by
      rw [List.append_assoc, List.length_append, be32_length]
      omega
    unfold readFrame
    simp only [hread, hlen, hdrop, hslice, hrest, if_neg hfour, if_neg hfits, if_neg hmore]

/-! ## The cursor -/

/-- `Cursor::u8`. -/
def readU8 : Reader ProtocolError UInt8 := Reader.field .malformed Codec.byte

/-- `Cursor::u16`. -/
def readU16 : Reader ProtocolError UInt16 := Reader.field .malformed Codec.u16

/-- `Cursor::u32`. -/
def readU32 : Reader ProtocolError UInt32 := Reader.field .malformed Codec.u32

/-- `Cursor::u64`. -/
def readU64 : Reader ProtocolError UInt64 := Reader.field .malformed Codec.u64

/-- `Cursor::key`. -/
def readKey : Reader ProtocolError Key := Reader.field .malformed Codec.bytes32

section Cursor

variable {b r : Bytes}

theorem readU8_ok {n : UInt8} : readU8 b = .ok (n, r) ↔ b = n :: r := Reader.field_ok

theorem readU16_ok {n : UInt16} : readU16 b = .ok (n, r) ↔ b = be16 n ++ r := Reader.field_ok

theorem readU64_ok {n : UInt64} : readU64 b = .ok (n, r) ↔ b = be64 n ++ r := Reader.field_ok

theorem readKey_ok {k : Key} : readKey b = .ok (k, r) ↔ b = k.val ++ r := Reader.field_ok

theorem readSeqs_ok {seqs : List UInt64} :
    Reader.counted .malformed Counter.u16 readU64 b = .ok (seqs, r) ↔
      seqs.length < 65536 ∧ b = be16 (UInt16.ofNat seqs.length) ++ (seqs.flatMap be64 ++ r) := by
  have hexact : readU64.Exact (fun _ => True) be64 := Reader.field_exact _ Codec.u64
  rw [Reader.counted_exact hexact b seqs r, List.append_assoc]
  exact and_congr_left fun _ => and_iff_left fun _ _ => trivial

end Cursor

/-! ## Requests -/

namespace Request

/-- `Request::encode`. -/
def encode : Request → Bytes
  | putBundle owner bundle => 1 :: (owner.val ++ bundle)
  | getBundle owner => 2 :: owner.val
  | send recipient envelope => 3 :: (recipient.val ++ envelope)
  | fetch recipient max => 4 :: (recipient.val ++ be16 max)
  | delete recipient seqs =>
    5 :: (recipient.val ++ (be16 (UInt16.ofNat seqs.length) ++ seqs.flatMap be64))
  | fetchAfter recipient after max => 6 :: (recipient.val ++ (be64 after ++ be16 max))

/-- The operation and its arguments. -/
def read : Reader ProtocolError Request := do
  let op ← readU8
  if op = 1 then return putBundle (← readKey) (← Reader.rest)
  else if op = 2 then return getBundle (← readKey)
  else if op = 3 then return send (← readKey) (← Reader.rest)
  else if op = 4 then return fetch (← readKey) (← readU16)
  else if op = 5 then
    let recipient ← readKey
    let seqs ← Reader.counted .malformed Counter.u16 readU64
    return delete recipient seqs
  else if op = 6 then return fetchAfter (← readKey) (← readU64) (← readU16)
  else throw .malformed

/-- `Request::decode`. -/
def decode (body : Bytes) : Except ProtocolError Request :=
  Reader.parse (do
    let req ← read
    Reader.finish .malformed
    return req) body

/-- The numbers of a DELETE can be counted in two bytes. -/
def Fits : Request → Prop
  | delete _ seqs => seqs.length < 65536
  | _ => True

instance : DecidablePred Fits
  | delete _ seqs => inferInstanceAs (Decidable (seqs.length < 65536))
  | putBundle _ _ | getBundle _ | send _ _ | fetch _ _ | fetchAfter _ _ _ => .isTrue trivial

/-- The last argument is all that is left of the body. -/
def isOpen : Request → Bool
  | putBundle _ _ | send _ _ => true
  | _ => false

/-- It is a GET_BUNDLE. -/
def isGetBundle : Request → Bool
  | getBundle _ => true
  | _ => false

/-- Of a string, the operation and its arguments are what `encode` writes. -/
theorem read_ok {b r : Bytes} {req : Request} :
    read b = .ok (req, r) ↔ req.Fits ∧ (req.isOpen = true → r = []) ∧ b = req.encode ++ r := by
  constructor
  · intro h
    unfold read at h
    simp only [Reader.ite_ok, Reader.bind_ok, Reader.pure_ok, Reader.throw_ok, Reader.rest_ok, readU8_ok,
      readKey_ok, readU16_ok, readU64_ok, readSeqs_ok] at h
    obtain ⟨op, _, rfl, h⟩ := h
    rcases h with ⟨rfl, h⟩ | ⟨-, h⟩
    · obtain ⟨owner, _, rfl, bundle, _, ⟨rfl, rfl⟩, rfl, rfl⟩ := h
      exact ⟨trivial, fun _ => rfl, by simp [encode]⟩
    rcases h with ⟨rfl, h⟩ | ⟨-, h⟩
    · obtain ⟨owner, _, rfl, rfl, rfl⟩ := h
      exact ⟨trivial, fun hopen => (by cases hopen), by simp [encode]⟩
    rcases h with ⟨rfl, h⟩ | ⟨-, h⟩
    · obtain ⟨recipient, _, rfl, envelope, _, ⟨rfl, rfl⟩, rfl, rfl⟩ := h
      exact ⟨trivial, fun _ => rfl, by simp [encode]⟩
    rcases h with ⟨rfl, h⟩ | ⟨-, h⟩
    · obtain ⟨recipient, _, rfl, max, _, rfl, rfl, rfl⟩ := h
      exact ⟨trivial, fun hopen => (by cases hopen), by simp [encode]⟩
    rcases h with ⟨rfl, h⟩ | ⟨-, h⟩
    · obtain ⟨recipient, _, rfl, seqs, _, ⟨hfits, rfl⟩, rfl, rfl⟩ := h
      exact ⟨hfits, fun hopen => (by cases hopen), by simp [encode]⟩
    rcases h with ⟨rfl, h⟩ | ⟨-, h⟩
    · obtain ⟨recipient, _, rfl, after, _, rfl, max, _, rfl, rfl, rfl⟩ := h
      exact ⟨trivial, fun hopen => (by cases hopen), by simp [encode]⟩
    · cases h
  · rintro ⟨hfits, hopen, rfl⟩
    unfold read
    cases req with
    | putBundle owner bundle =>
      obtain rfl := hopen rfl
      rw [encode, List.append_nil, Reader.bind_run (readU8_ok.mpr rfl), if_pos rfl,
        Reader.bind_run (readKey_ok.mpr rfl)]
      rfl
    | getBundle owner =>
      rw [encode, List.cons_append, Reader.bind_run (readU8_ok.mpr rfl), if_neg (by decide), if_pos rfl,
        Reader.bind_run (readKey_ok.mpr rfl)]
      rfl
    | send recipient envelope =>
      obtain rfl := hopen rfl
      rw [encode, List.append_nil, Reader.bind_run (readU8_ok.mpr rfl), if_neg (by decide),
        if_neg (by decide), if_pos rfl, Reader.bind_run (readKey_ok.mpr rfl)]
      rfl
    | fetch recipient max =>
      rw [encode, List.cons_append, Reader.bind_run (readU8_ok.mpr rfl), if_neg (by decide), if_neg (by decide),
        if_neg (by decide), if_pos rfl, Reader.bind_run (readKey_ok.mpr (List.append_assoc ..)),
        Reader.bind_run (readU16_ok.mpr rfl)]
      rfl
    | delete recipient seqs =>
      rw [encode, List.cons_append, Reader.bind_run (readU8_ok.mpr rfl), if_neg (by decide), if_neg (by decide),
        if_neg (by decide), if_neg (by decide), if_pos rfl,
        Reader.bind_run (readKey_ok.mpr (List.append_assoc ..)),
        Reader.bind_run (readSeqs_ok.mpr ⟨hfits, List.append_assoc ..⟩)]
      rfl
    | fetchAfter recipient after max =>
      rw [encode, List.cons_append, Reader.bind_run (readU8_ok.mpr rfl), if_neg (by decide), if_neg (by decide),
        if_neg (by decide), if_neg (by decide), if_neg (by decide), if_pos rfl,
        Reader.bind_run (readKey_ok.mpr (List.append_assoc ..)),
        Reader.bind_run (readU64_ok.mpr (List.append_assoc ..)), Reader.bind_run (readU16_ok.mpr rfl)]
      rfl

/-- Of a body, `decode` accepts what `encode` writes. -/
theorem decode_ok {body : Bytes} {req : Request} :
    decode body = .ok req ↔ req.Fits ∧ body = req.encode := by
  unfold decode
  simp only [Reader.parse_ok, Reader.bind_ok, Reader.pure_ok, Reader.finish_ok, read_ok]
  constructor
  · rintro ⟨_, _, _, ⟨hfits, -, rfl⟩, _, _, ⟨rfl, rfl⟩, rfl, rfl⟩
    exact ⟨hfits, List.append_nil _⟩
  · rintro ⟨hfits, rfl⟩
    exact ⟨[], req, [], ⟨hfits, fun _ => rfl, (List.append_nil _).symm⟩, (), [], ⟨rfl, rfl⟩, rfl, rfl⟩

/-- Nothing may follow the arguments of an operation that ends. -/
theorem decode_append {req : Request} (hfits : req.Fits) (hclosed : req.isOpen = false) {t : Bytes}
    (ht : t ≠ []) : decode (req.encode ++ t) = .error .malformed := by
  have hread : read (req.encode ++ t) = .ok (req, t) :=
    read_ok.mpr ⟨hfits, fun hopen => absurd hopen (by rw [hclosed]; decide), rfl⟩
  unfold decode Reader.parse
  rw [Reader.bind_run hread]
  cases t with
  | nil => exact absurd rfl ht
  | cons x t => rfl

end Request

/-! ## Responses -/

namespace ErrorCode

/-- The status byte of an error. -/
def status : ErrorCode → UInt8
  | badRequest => 2
  | tooLarge => 3
  | full => 4

end ErrorCode

namespace Response

/-- One envelope of an ITEMS response. -/
def encodeItem (item : UInt64 × Bytes) : Bytes :=
  be64 item.1 ++ be32 (UInt32.ofNat item.2.length) ++ item.2

/-- `Response::encode`. -/
def encode : Response → Bytes
  | .ok => [0]
  | .bundle b => 0 :: b
  | .notFound => [1]
  | .accepted seq => 0 :: be64 seq
  | .items l => 0 :: (be16 (UInt16.ofNat l.length) ++ l.flatMap encodeItem)
  | .error code => [code.status]

@[simp] theorem encodeItem_length (item : UInt64 × Bytes) :
    (encodeItem item).length = 12 + item.2.length := by
  simp only [encodeItem, be64, be32, List.length_append, List.length_cons, List.length_nil]

theorem encode_items_length (l : List (UInt64 × Bytes)) :
    (encode (.items l)).length = 3 + (l.map fun x => 12 + x.2.length).sum := by
  simp only [encode, be16, List.length_cons, List.length_append, List.length_nil,
    List.length_flatMap, encodeItem_length]
  omega

/-- One envelope of an ITEMS response, read. -/
def readItem : Reader ProtocolError (UInt64 × Bytes) := do
  let seq ← readU64
  let envelope ← Reader.sized .malformed Counter.u32
  return (seq, envelope)

/-- `Response::decode`, as far as it reads. -/
def read (req : Request) : Reader ProtocolError Response := do
  let status ← readU8
  if status = 0 then
    match req with
    | .putBundle _ _ | .delete _ _ => return ok
    | .getBundle _ => return bundle (← Reader.rest)
    | .send _ _ => return accepted (← readU64)
    | .fetch _ _ | .fetchAfter _ _ _ =>
      return .items (← Reader.counted .malformed Counter.u16 readItem)
  else if status = 1 ∧ req.isGetBundle then return notFound
  else if status = 2 then return error .badRequest
  else if status = 3 then return error .tooLarge
  else if status = 4 then return error .full
  else throw .malformed

/-- `Response::decode`. -/
def decode (req : Request) (body : Bytes) : Except ProtocolError Response :=
  Reader.parse (do
    let resp ← read req
    Reader.finish .malformed
    return resp) body

/-- The envelopes can be counted in two bytes, and their lengths in four. -/
structure Fits (l : List (UInt64 × Bytes)) : Prop where
  count : l.length < 65536
  lengths : ∀ x ∈ l, x.2.length < 2 ^ 32

/-- The responses that a request may get. -/
inductive Answers : Request → Response → Prop
  | published (owner : Key) (b : Bytes) : Answers (.putBundle owner b) .ok
  | deleted (recipient : Key) (seqs : List UInt64) : Answers (.delete recipient seqs) .ok
  | bundle (owner : Key) (b : Bytes) : Answers (.getBundle owner) (.bundle b)
  | notFound (owner : Key) : Answers (.getBundle owner) .notFound
  | accepted (recipient : Key) (envelope : Bytes) (seq : UInt64) :
      Answers (.send recipient envelope) (.accepted seq)
  | fetched (recipient : Key) (max : UInt16) {l : List (UInt64 × Bytes)} (h : Fits l) :
      Answers (.fetch recipient max) (.items l)
  | fetchedAfter (recipient : Key) (after : UInt64) (max : UInt16) {l : List (UInt64 × Bytes)}
      (h : Fits l) : Answers (.fetchAfter recipient after max) (.items l)
  | refused (req : Request) (code : ErrorCode) : Answers req (.error code)

theorem readItem_exact : readItem.Exact (fun x => x.2.length < 2 ^ 32) encodeItem := by
  intro b x r
  obtain ⟨seq, envelope⟩ := x
  unfold readItem encodeItem
  simp only [Reader.bind_ok, Reader.pure_ok, readU64_ok, Prod.mk.injEq, List.append_assoc]
  constructor
  · rintro ⟨seq', _, rfl, envelope', _, h, ⟨rfl, rfl⟩, rfl⟩
    obtain ⟨hlen, rfl⟩ := (Reader.sized_exact _ _ _).mp h
    exact ⟨hlen, by rw [List.append_assoc]; rfl⟩
  · rintro ⟨hlen, rfl⟩
    exact ⟨seq, _, rfl, envelope, r,
      (Reader.sized_exact _ _ _).mpr ⟨hlen, (List.append_assoc ..).symm⟩, ⟨rfl, rfl⟩, rfl⟩

/-- The envelopes of an ITEMS response. -/
theorem readItems_ok {b r : Bytes} {l : List (UInt64 × Bytes)} :
    Reader.counted .malformed Counter.u16 readItem b = .ok (l, r) ↔
      Fits l ∧ b = be16 (UInt16.ofNat l.length) ++ (l.flatMap encodeItem ++ r) := by
  rw [Reader.counted_exact readItem_exact b l r, List.append_assoc]
  exact and_congr_left fun _ => ⟨fun h => ⟨h.1, h.2⟩, fun h => ⟨h.1, h.2⟩⟩

/-- What is read of a body that is read to its end. -/
theorem read_ok {req : Request} {body : Bytes} {resp : Response} :
    read req body = .ok (resp, []) ↔ Answers req resp ∧ body = resp.encode := by
  constructor
  · intro h
    unfold read at h
    simp only [Reader.ite_ok, Reader.bind_ok, Reader.pure_ok, Reader.throw_ok, readU8_ok] at h
    obtain ⟨status, _, rfl, h⟩ := h
    rcases h with ⟨rfl, h⟩ | ⟨-, h⟩
    · cases req with
      | putBundle owner b =>
        obtain ⟨rfl, rfl⟩ := Reader.pure_ok.mp h
        exact ⟨.published owner b, rfl⟩
      | getBundle owner =>
        simp only [Reader.bind_ok, Reader.pure_ok, Reader.rest_ok] at h
        obtain ⟨b, _, ⟨rfl, rfl⟩, rfl, -⟩ := h
        exact ⟨.bundle owner _, rfl⟩
      | send recipient envelope =>
        simp only [Reader.bind_ok, Reader.pure_ok, readU64_ok] at h
        obtain ⟨seq, _, rfl, rfl, rfl⟩ := h
        exact ⟨.accepted recipient envelope seq, by rw [List.append_nil]; rfl⟩
      | fetch recipient max =>
        simp only [Reader.bind_ok, Reader.pure_ok, readItems_ok] at h
        obtain ⟨l, _, ⟨hl, rfl⟩, rfl, rfl⟩ := h
        exact ⟨.fetched recipient max hl, by rw [List.append_nil]; rfl⟩
      | delete recipient seqs =>
        obtain ⟨rfl, rfl⟩ := Reader.pure_ok.mp h
        exact ⟨.deleted recipient seqs, rfl⟩
      | fetchAfter recipient after max =>
        simp only [Reader.bind_ok, Reader.pure_ok, readItems_ok] at h
        obtain ⟨l, _, ⟨hl, rfl⟩, rfl, rfl⟩ := h
        exact ⟨.fetchedAfter recipient after max hl, by rw [List.append_nil]; rfl⟩
    rcases h with ⟨⟨rfl, hget⟩, rfl, rfl⟩ | ⟨-, h⟩
    · cases req with
      | getBundle owner => exact ⟨.notFound owner, rfl⟩
      | _ => cases hget
    rcases h with ⟨rfl, rfl, rfl⟩ | ⟨-, h⟩
    · exact ⟨.refused req .badRequest, rfl⟩
    rcases h with ⟨rfl, rfl, rfl⟩ | ⟨-, h⟩
    · exact ⟨.refused req .tooLarge, rfl⟩
    rcases h with ⟨rfl, rfl, rfl⟩ | ⟨-, h⟩
    · exact ⟨.refused req .full, rfl⟩
    · cases h
  · rintro ⟨h, rfl⟩
    unfold read
    cases h with
    | published owner b => rfl
    | deleted recipient seqs => rfl
    | bundle owner b => rfl
    | notFound owner => rfl
    | accepted recipient envelope seq =>
      rw [encode, Reader.bind_run (readU8_ok.mpr rfl), if_pos rfl]
      exact Reader.bind_run (readU64_ok.mpr (List.append_nil _).symm)
    | fetched recipient max hl =>
      rw [encode, Reader.bind_run (readU8_ok.mpr rfl), if_pos rfl]
      exact Reader.bind_run (readItems_ok.mpr ⟨hl, by rw [List.append_nil]⟩)
    | fetchedAfter recipient after max hl =>
      rw [encode, Reader.bind_run (readU8_ok.mpr rfl), if_pos rfl]
      exact Reader.bind_run (readItems_ok.mpr ⟨hl, by rw [List.append_nil]⟩)
    | refused req code => cases code <;> rfl

/-- Of a body, `decode` accepts what `encode` writes of a response to the request. -/
theorem decode_ok {req : Request} {body : Bytes} {resp : Response} :
    decode req body = .ok resp ↔ Answers req resp ∧ body = resp.encode := by
  rw [← read_ok]
  unfold decode
  simp only [Reader.parse_ok, Reader.bind_ok, Reader.pure_ok, Reader.finish_ok]
  constructor
  · rintro ⟨_, _, _, h, _, _, ⟨rfl, rfl⟩, rfl, rfl⟩
    exact h
  · intro h
    exact ⟨[], resp, [], h, (), [], ⟨rfl, rfl⟩, rfl, rfl⟩

end Response

end Relay

end Arcium
