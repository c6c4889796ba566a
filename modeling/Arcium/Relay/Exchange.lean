import Arcium.Relay.Fetching
import Mathlib.Algebra.Order.BigOperators.Group.List
import Mathlib.Algebra.Order.Group.Nat

/-!
# Requests and responses (`relay/src/protocol.rs`, `relay/src/server.rs`)

A relay in a state that it can reach answers a request with a response of that request's layout, which
fits in one frame (`handle_answers`). So what either side writes is what the other reads
(`relay_codec`).
-/

namespace Arcium

namespace Relay

variable {config : Config} {now : Nat} {s : State} {log : List Handled} {request : Request}

/-! ## What a relay answers -/

theorem store_bundles (key : Key) (envelope : Bytes) :
    (store s key envelope now config).2.bundles = s.bundles := by
  have halert : (if config.alerts envelope then { s with canaryHits := s.canaryHits + 1 }
      else s).bundles = s.bundles := by
    split <;> rfl
  unfold store
  dsimp only
  generalize (if config.alerts envelope then { s with canaryHits := s.canaryHits + 1 } else s) = s₁
    at halert ⊢
  split
  · exact halert
  · split
    · exact halert
    · split
      · exact halert
      · exact halert

/-- A request leaves the bundles alone, or publishes one that is not too large. -/
theorem handle_bundles (config : Config) (now : Nat) (request : Request) (s : State) :
    (handle config now request s).2.bundles = s.bundles ∨
    ∃ owner bundle, bundle.length ≤ maxBundle ∧
      (handle config now request s).2.bundles = Function.update s.bundles owner (some bundle) := by
  cases request with
  | putBundle owner bundle =>
    unfold handle
    dsimp only
    split
    · exact .inl rfl
    · next hfits => exact .inr ⟨owner, bundle, Nat.not_lt.mp hfits, rfl⟩
  | getBundle owner =>
    unfold handle
    dsimp only
    split
    · exact .inl rfl
    · exact .inl rfl
  | send key envelope =>
    unfold handle
    dsimp only
    split
    · exact .inl rfl
    · exact .inl (store_bundles key envelope)
  | fetch key max => exact .inl rfl
  | fetchAfter key after max => exact .inl rfl
  | delete key seqs => exact .inl rfl

/-- The relay stores only bundles of the allowed size. -/
theorem Serves.smallBundle (h : Serves config log s) {owner : Key} {bundle : Bytes}
    (hb : s.bundles owner = some bundle) : bundle.length ≤ maxBundle := by
  induction h with
  | start hs =>
    obtain ⟨rfl, -⟩ := serve_ok hs
    cases hb
  | @handled log s h now request ih =>
    rcases handle_bundles config now request s with hsame | ⟨owner', bundle', hle, hput⟩
    · exact ih (hsame ▸ hb)
    · rw [hput] at hb
      by_cases howner : owner = owner'
      · subst howner
        rw [Function.update_self] at hb
        exact Option.some.inj hb ▸ hle
      · rw [Function.update_of_ne howner] at hb
        exact ih hb

theorem store_answers (key : Key) (envelope : Bytes) :
    Response.Answers (.send key envelope) (store s key envelope now config).1 ∧
      (store s key envelope now config).1.encode.length ≤ maxFrame := by
  have haccepted : ∀ seq, (Response.accepted seq).encode.length ≤ maxFrame := fun seq =>
    show 9 ≤ maxFrame by decide
  have hfull : (Response.error .full).encode.length ≤ maxFrame := by decide
  unfold store
  dsimp only
  generalize (if config.alerts envelope then { s with canaryHits := s.canaryHits + 1 } else s) = s₁
  split
  · exact ⟨.accepted .., haccepted _⟩
  · split
    · exact ⟨.refused .., hfull⟩
    · split
      · exact ⟨.refused .., hfull⟩
      · exact ⟨.accepted .., haccepted _⟩

theorem page_fits (config : Config) (s : State) (key : Key) (after : UInt64) (max : UInt16) (now : Nat) :
    Response.Fits (page config s key after max now) ∧
      (Response.encode (.items (page config s key after max now))).length ≤ maxFrame := by
  obtain ⟨hcount, hlen⟩ := (page_longest config s key after max now).holds
  refine ⟨⟨by omega, fun x hx => ?_⟩, hlen⟩
  rw [Response.encode_items_length] at hlen
  have hx : 12 + x.2.length ≤ ((page config s key after max now).map fun x => 12 + x.2.length).sum :=
    List.le_sum_of_mem (List.mem_map_of_mem hx)
  have hframe : maxFrame < 2 ^ 32 := by decide
  omega

/-- What a relay answers, the request's sender can read. -/
theorem handle_answers (h : Serves config log s) (now : Nat) (request : Request) :
    Response.Answers request (handle config now request s).1 ∧
      (handle config now request s).1.encode.length ≤ maxFrame := by
  have hok : (Response.encode .ok).length ≤ maxFrame := by decide
  have hnotFound : (Response.encode .notFound).length ≤ maxFrame := by decide
  have htooLarge : (Response.encode (.error .tooLarge)).length ≤ maxFrame := by decide
  cases request with
  | putBundle owner bundle =>
    unfold handle
    dsimp only
    split
    · exact ⟨.refused .., htooLarge⟩
    · exact ⟨.published .., hok⟩
  | getBundle owner =>
    unfold handle
    dsimp only
    split
    · next b hb =>
      have hle := h.smallBundle hb
      have hframe : 1 + maxBundle ≤ maxFrame := by decide
      refine ⟨.bundle .., ?_⟩
      show b.length + 1 ≤ maxFrame
      omega
    · exact ⟨.notFound .., hnotFound⟩
  | send key envelope =>
    unfold handle
    dsimp only
    split
    · exact ⟨.refused .., htooLarge⟩
    · exact store_answers key envelope
  | fetch key max =>
    obtain ⟨hfits, hlen⟩ := page_fits config s key 0 max now
    exact ⟨.fetched key max hfits, hlen⟩
  | fetchAfter key after max =>
    obtain ⟨hfits, hlen⟩ := page_fits config s key after max now
    exact ⟨.fetchedAfter key after max hfits, hlen⟩
  | delete key seqs => exact ⟨.deleted .., hok⟩

/-! ## Both sides -/

/-- Which operations take all that is left of the body is told by the first byte. -/
theorem Request.isOpen_iff (req : Request) :
    req.isOpen = true ↔ req.encode.head? = some 1 ∨ req.encode.head? = some 3 := by
  cases req <;> simp [Request.encode, Request.isOpen]

/-- A body that lacks its last bytes is not accepted. -/
theorem Request.decode_missing {req req' : Request} (hfits : req.Fits) (hclosed : req.isOpen = false)
    {body t : Bytes} (ht : t ≠ []) (hbody : req.encode = body ++ t) :
    Request.decode body ≠ .ok req' := by
  intro h
  obtain ⟨hfits', rfl⟩ := Request.decode_ok.mp h
  have hhead : req'.encode.head? = req.encode.head? := by
    rw [hbody]
    cases req' <;> rfl
  have hclosed' : req'.isOpen = false := by
    rw [← Bool.not_eq_true, Request.isOpen_iff, hhead, ← Request.isOpen_iff, hclosed]
    exact Bool.false_ne_true
  have hok := Request.decode_ok.mpr ⟨hfits, hbody.symm⟩
  rw [Request.decode_append hfits' hclosed' ht] at hok
  cases hok

/-- What is written is read, and nothing else is. -/
structure RequestCodec : Prop where
  decodes : ∀ req : Request, req.Fits → Request.decode req.encode = .ok req
  encodes : ∀ body req, Request.decode body = .ok req → req.Fits ∧ req.encode = body
  trailing : ∀ req : Request, req.Fits → req.isOpen = false → ∀ t, t ≠ [] →
    Request.decode (req.encode ++ t) = .error .malformed
  missing : ∀ req : Request, req.Fits → req.isOpen = false → ∀ body t, t ≠ [] →
    req.encode = body ++ t → ∀ req', Request.decode body ≠ .ok req'

/-- **The relay and its clients understand each other**: requests, the responses of a relay in a state
that it can reach, and frames. -/
theorem relay_codec : RequestCodec ∧
    (∀ config log s, Serves config log s → ∀ now body request, Request.decode body = .ok request →
      (handle config now request s).1.encode.length ≤ maxFrame ∧
      Response.decode request (handle config now request s).1.encode =
        .ok (handle config now request s).1) ∧
    (∀ body : Bytes, body.length ≤ maxFrame → ∃ bytes, writeFrame body = .ok bytes) ∧
    ∀ body bytes rest, writeFrame body = .ok bytes →
      readFrame (bytes ++ rest) = .ok (some body, rest) := by
  refine ⟨⟨?_, ?_, ?_, ?_⟩, ?_, ?_, fun body bytes rest h => readFrame_append h rest⟩
  · exact fun req hfits => Request.decode_ok.mpr ⟨hfits, rfl⟩
  · intro body req h
    obtain ⟨hfits, rfl⟩ := Request.decode_ok.mp h
    exact ⟨hfits, rfl⟩
  · exact fun req hfits hclosed t ht => Request.decode_append hfits hclosed ht
  · exact fun req hfits hclosed body t ht hbody req' => Request.decode_missing hfits hclosed ht hbody
  · intro config log s h now body request _
    obtain ⟨hanswers, hlen⟩ := handle_answers h now request
    exact ⟨hlen, Response.decode_ok.mpr ⟨hanswers, rfl⟩⟩
  · intro body hle
    exact ⟨_, if_neg (Nat.not_lt.mpr hle)⟩

/-- A FETCH of two envelopes, of which the request and the response are read back. -/
theorem relay_codec_fetch : ∃ log s, Serves {} log s ∧
    Request.decode (Request.fetch default 2).encode = .ok (.fetch default 2) ∧
    (handle {} 2 (.fetch default 2) s).1 = .items [(1, [7]), (2, [8])] ∧
    Response.decode (.fetch default 2) (handle {} 2 (.fetch default 2) s).1.encode =
      .ok (handle {} 2 (.fetch default 2) s).1 := by
  have h₀ : Serves {} [] { nextSeq := 1 } := .start rfl
  have h := (h₀.handled 0 (.send default [7])).handled 1 (.send default [8])
  have hreq := relay_codec.1.decodes (.fetch default 2) trivial
  exact ⟨_, _, h, hreq, by decide +kernel, (relay_codec.2.1 _ _ _ h 2 _ _ hreq).2⟩

end Relay

end Arcium
