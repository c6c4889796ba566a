import Arcium.Relay.Exchange

/-!
# Connections to the relay (`relay/src/client.rs`, `relay/src/server.rs`)

Any number of clients, each on a connection of its own, and the relay, which reads a frame, handles it
under the lock of its state and writes a frame. A connection may lose the end of what is under way in
either direction, and may be given up on either side at any time; a client that is not ours may write
any bytes.

* `callResult`, `methodResult`: the client's `call`, and its methods.
* `Step`: one step of a client, of the relay, or of the network.
* `Conn.Sound`: what the callers of the client see to. They drop a connection at its first error; it
  is enough that they do not use it after an error that may leave a response under way.
* `Over`, `Phase`: what became of the calls of a client of ours, and where it stands.
* `calls_are_served`: in every run the calls of a client of ours are handled in order and each at most
  once, and a call that gets a response gets the relay's response to this call.
-/

namespace Arcium

namespace Relay

variable {config : Config}

/-! ## The client -/

/-- `ClientError`. -/
inductive ClientError where
  | network
  | protocol (e : ProtocolError)
  | refused (code : ErrorCode)
  | unexpected
  deriving DecidableEq

/-- `From<ProtocolError> for ClientError`. -/
def ClientError.ofProtocol : ProtocolError → ClientError
  | .io => network
  | e => protocol e

/-- A response, as `call` returns it. -/
def callReturns : Response → Except ClientError Response
  | .error code => .error (.refused code)
  | r => .ok r

/-- `call`, from the body of the response on. -/
def callResult (req : Request) (body : Bytes) : Except ClientError Response :=
  match Response.decode req body with
  | .ok response => callReturns response
  | .error e => .error (.ofProtocol e)

/-- What the methods of the client return. -/
inductive Reply where
  | done
  | bundle (b : Option Bytes)
  | seq (n : UInt64)
  | items (l : List (UInt64 × Bytes))
  deriving DecidableEq

/-- `put_bundle`, `get_bundle`, `send`, `fetch`, `fetch_after` and `delete`, after `call`. -/
def methodResult : Request → Response → Except ClientError Reply
  | .putBundle _ _, .ok => .ok .done
  | .getBundle _, .bundle b => .ok (.bundle (some b))
  | .getBundle _, .notFound => .ok (.bundle none)
  | .send _ _, .accepted seq => .ok (.seq seq)
  | .fetch _ _, .items l => .ok (.items l)
  | .fetchAfter _ _ _, .items l => .ok (.items l)
  | .delete _ _, .ok => .ok .done
  | _, _ => .error .unexpected

/-- A method whose call returns gets a response that it expects. -/
theorem methodResult_of_answers {req : Request} {response r : Response}
    (h : Response.Answers req response) (hr : callReturns response = .ok r) :
    ∃ reply, methodResult req r = .ok reply := by
  cases h with
  | refused code => cases hr
  | _ =>
    cases hr
    exact ⟨_, rfl⟩

/-! ## Connections -/

/-- A connection. What its client called and what that returned is there for the statements. -/
structure Conn where
  /-- Its client is the one of `client.rs`. -/
  ours : Bool
  /-- Written by the client, and not yet read by the relay. -/
  up : Bytes := []
  /-- Written by the relay, and not yet read by the client. -/
  down : Bytes := []
  clientOpen : Bool := true
  serverOpen : Bool := true
  /-- The call that waits for its response. -/
  waiting : Option Request := none
  calls : List Request := []
  results : List (Except ClientError Response) := []

/-- The relay and the connections to it, with the requests it handled, the last first, each with its
connection. -/
structure Net where
  relay : State
  log : List (Nat × Handled) := []
  conns : Nat → Option Conn := fun _ => none

namespace Net

def setConn (n : Net) (i : Nat) (c : Conn) : Net :=
  { n with conns := Function.update n.conns i (some c) }

/-- What was handled on connection `i`, in order. -/
def handledOn (n : Net) (i : Nat) : List Handled := ((n.log.filter (·.1 = i)).map Prod.snd).reverse

end Net

/-- What `connection` does with a frame: the response, and the request if it is one. -/
def respond (config : Config) (now : Nat) (body : Bytes) (s : State) : Response × Option Handled × State :=
  match Request.decode body with
  | .ok req =>
    let (response, s') := handle config now req s
    (response, some ⟨now, req, s, response, s'⟩, s')
  | .error _ => (.error .badRequest, none, s)

/-- The network after `connection` has read a frame of connection `i`, which is left as `c`. -/
def Net.responded (n : Net) (config : Config) (now : Nat) (body : Bytes) (i : Nat) (c : Conn) : Net :=
  let (_, handled, s) := respond config now body n.relay
  { n.setConn i c with relay := s, log := (handled.map (i, ·)).toList ++ n.log }

/-- Errors that leave the connection as it was before the call. -/
def ClientError.Harmless : ClientError → Prop
  | .refused _ => True
  | .protocol (.tooLarge _) => True
  | _ => False

/-- Every call on it has returned, or has failed without a trace. -/
def Conn.Sound (c : Conn) : Prop := ∀ e, .error e ∈ c.results → e.Harmless

/-- One step (module doc). Clients of ours call on connections that are `usable`. -/
inductive Step (config : Config) (usable : Conn → Prop) : Net → Net → Prop
  | connect {n : Net} (i : Nat) (ours : Bool) (h : n.conns i = none) :
      Step config usable n (n.setConn i { ours })
  /-- The first half of `call`. -/
  | call {n : Net} (i : Nat) (c : Conn) (req : Request) (bytes : Bytes) (h : n.conns i = some c)
      (hours : c.ours = true) (hopen : c.clientOpen = true) (hidle : c.waiting = none)
      (husable : usable c) (hframe : writeFrame req.encode = .ok bytes) :
      Step config usable n (n.setConn i
        { c with up := c.up ++ bytes, waiting := some req, calls := c.calls ++ [req] })
  /-- `call` of a request that `write_frame` refuses: nothing is written. -/
  | tooLarge {n : Net} (i : Nat) (c : Conn) (req : Request) (e : ProtocolError)
      (h : n.conns i = some c) (hours : c.ours = true) (hopen : c.clientOpen = true)
      (hidle : c.waiting = none) (husable : usable c) (hframe : writeFrame req.encode = .error e) :
      Step config usable n (n.setConn i
        { c with calls := c.calls ++ [req], results := c.results ++ [.error (.ofProtocol e)] })
  /-- Some other client. -/
  | write {n : Net} (i : Nat) (c : Conn) (bytes : Bytes) (h : n.conns i = some c)
      (hours : c.ours = false) : Step config usable n (n.setConn i { c with up := c.up ++ bytes })
  | lose {n : Net} (i : Nat) (c : Conn) (up down : Bytes) (h : n.conns i = some c) (hup : up <+: c.up)
      (hdown : down <+: c.down) : Step config usable n (n.setConn i { c with up, down })
  /-- `connection` reads a frame and writes the response. -/
  | serve {n : Net} (i : Nat) (c : Conn) (now : Nat) (body rest bytes : Bytes) (h : n.conns i = some c)
      (hopen : c.serverOpen = true) (hread : readFrame c.up = .ok (some body, rest))
      (hframe : writeFrame (respond config now body n.relay).1.encode = .ok bytes) :
      Step config usable n
        (n.responded config now body i { c with up := rest, down := c.down ++ bytes })
  /-- `connection` reads a frame, and cannot write the response. -/
  | serveInVain {n : Net} (i : Nat) (c : Conn) (now : Nat) (body rest : Bytes) (h : n.conns i = some c)
      (hopen : c.serverOpen = true) (hread : readFrame c.up = .ok (some body, rest)) :
      Step config usable n (n.responded config now body i { c with up := rest, serverOpen := false })
  /-- `connection` ends: the stream ends or times out, a frame is too large, or the relay stops. -/
  | serverEnd {n : Net} (i : Nat) (c : Conn) (h : n.conns i = some c) :
      Step config usable n (n.setConn i { c with serverOpen := false })
  /-- The second half of `call`. -/
  | reply {n : Net} (i : Nat) (c : Conn) (req : Request) (body rest : Bytes) (h : n.conns i = some c)
      (hwaits : c.waiting = some req) (hread : readFrame c.down = .ok (some body, rest)) :
      Step config usable n (n.setConn i
        { c with
          down := rest
          waiting := none
          results := c.results ++ [callResult req body] })
  /-- The response is not read, or not to its end: the stream breaks, ends, times out, or has a frame
  that is too large. -/
  | fail {n : Net} (i : Nat) (c : Conn) (req : Request) (e : ClientError) (down : Bytes)
      (h : n.conns i = some c) (hwaits : c.waiting = some req) (hdown : down <:+ c.down)
      (he : e = .network ∨
        ∃ len, readFrame c.down = .error (.tooLarge len) ∧ e = .protocol (.tooLarge len)) :
      Step config usable n (n.setConn i
        { c with down, waiting := none, results := c.results ++ [.error e] })
  /-- The client drops the connection. -/
  | close {n : Net} (i : Nat) (c : Conn) (h : n.conns i = some c) (hidle : c.waiting = none) :
      Step config usable n (n.setConn i { c with clientOpen := false })

/-- The networks of all runs of a relay that `serve` starts. -/
inductive Runs (config : Config) (usable : Conn → Prop) : Net → Prop
  | start {s : State} (h : serve config = .ok s) : Runs config usable { relay := s }
  | step {n n' : Net} (h : Runs config usable n) (hstep : Step config usable n n') :
      Runs config usable n'

/-! ## Frames that are cut off -/

theorem readFrame_nil : readFrame [] = .ok (none, []) := rfl

/-- What is left of a frame: only if it is whole, it is read. -/
theorem readFrame_prefix {body bytes p : Bytes} (h : writeFrame body = .ok bytes) (hp : p <+: bytes) :
    readFrame p = .ok (none, []) ∨ readFrame p = .error .io ∨
      (p = bytes ∧ readFrame p = .ok (some body, [])) := by
  have hwhole := readFrame_append h []
  rw [List.append_nil] at hwhole
  unfold writeFrame at h
  split at h
  · cases h
  · next hfits =>
    have hle := Nat.not_lt.mp hfits
    obtain rfl := Except.ok.inj h
    obtain ⟨t, ht⟩ := hp
    have hcount := congrArg List.length ht
    rw [List.length_append, List.length_append, be32_length] at hcount
    by_cases hshort : p.length < 4
    · left
      rw [readFrame, if_pos hshort]
    · by_cases hrest : t = []
      · rw [hrest, List.append_nil] at ht
        exact .inr (.inr ⟨ht, ht ▸ hwhole⟩)
      · right
        left
        have hread : (Codec.u32.read p 0).toNat = body.length := by
          have hsame : slice p 0 4 = slice (p ++ t) 0 4 := by
            rw [slice, slice, List.drop_zero, List.drop_zero,
              List.take_append_of_le_length (Nat.not_lt.mp hshort)]
          have hcodec : Codec.u32.read p 0 = Codec.u32.read (p ++ t) 0 := congrArg Codec.u32.dec hsame
          rw [hcodec, ht]
          have hhere : Codec.u32.read (be32 (UInt32.ofNat body.length) ++ body) 0 =
              UInt32.ofNat body.length := Codec.u32.read_here _ _
          rw [hhere, UInt32.toNat_ofNat', Nat.mod_eq_of_lt (Nat.lt_of_le_of_lt hle (by decide))]
        have hpos := List.length_pos_iff.mpr hrest
        unfold readFrame
        simp only [hread, if_neg hshort, if_neg hfits]
        rw [if_pos]
        rw [List.length_drop]
        omega

theorem readFrame_some_take {body bytes p body' rest : Bytes} (h : writeFrame body = .ok bytes)
    (hp : p <+: bytes) (hr : readFrame p = .ok (some body', rest)) :
    p = bytes ∧ body' = body ∧ rest = [] := by
  rcases readFrame_prefix h hp with hn | hn | ⟨hwhole, hn⟩
  · rw [hn] at hr
    cases hr
  · rw [hn] at hr
    cases hr
  · rw [hn] at hr
    cases hr
    exact ⟨hwhole, rfl, rfl⟩

/-! ## What the relay answers a client of ours -/

/-- The numbers of a DELETE that cannot be counted in two bytes are not read. -/
theorem Request.decode_unfit {req : Request} (h : ¬ req.Fits) :
    ∃ e, Request.decode req.encode = .error e := by
  cases hd : Request.decode req.encode with
  | error e => exact ⟨e, rfl⟩
  | ok req' =>
    obtain ⟨hfits, he⟩ := Request.decode_ok.mp hd
    cases req with
    | delete recipient seqs =>
      cases req' with
      | delete recipient' seqs' =>
        have hlen := congrArg List.length he
        simp only [Request.encode, List.length_cons, List.length_append, List.length_flatMap, be64,
          be16, List.length_nil, List.map_const', List.sum_replicate_nat, recipient.2,
          recipient'.2] at hlen
        have hsame : seqs.length = seqs'.length := by omega
        exact absurd (show seqs.length < 65536 from hsame ▸ hfits) h
      | _ => simp [Request.encode] at he
    | _ => exact absurd trivial h

theorem respond_fits {now : Nat} {req : Request} {s : State} (h : req.Fits) :
    respond config now req.encode s = ((handle config now req s).1,
      some ⟨now, req, s, (handle config now req s).1, (handle config now req s).2⟩,
      (handle config now req s).2) := by
  rw [respond, Request.decode_ok.mpr ⟨h, rfl⟩]

theorem respond_unfit {now : Nat} {req : Request} {s : State} (h : ¬ req.Fits) :
    respond config now req.encode s = (.error .badRequest, none, s) := by
  obtain ⟨e, he⟩ := Request.decode_unfit h
  rw [respond, he]

theorem Serves.respond {log : List Handled} {s : State} (h : Serves config log s) (now : Nat)
    (body : Bytes) :
    Serves config ((respond config now body s).2.1.toList ++ log)
      (respond config now body s).2.2 := by
  unfold Relay.respond
  split
  · exact h.handled now _
  · exact h

/-! ## Where a client stands -/

/-- What became of a call. -/
inductive Over where
  | handled (x : Handled)
  /-- The relay could not read the request. -/
  | unread (req : Request)
  /-- `write_frame` refused the request. -/
  | unsent (req : Request)

namespace Over

def request : Over → Request
  | handled x => x.request
  | unread req => req
  | unsent req => req

def returned : Over → Except ClientError Response
  | handled x => callReturns x.response
  | unread _ => .error (.refused .badRequest)
  | unsent req => .error (.protocol (.tooLarge req.encode.length))

def handled? : Over → Option Handled
  | handled x => some x
  | _ => none

/-- A request is handled if it can be. -/
def Ok : Over → Prop
  | handled _ => True
  | unread req => ¬ req.Fits
  | unsent req => maxFrame < req.encode.length

/-- The frame of a response that the client reads as the relay gave it. -/
def Framed (o : Over) (bytes : Bytes) : Prop :=
  ∃ response, writeFrame response.encode = .ok bytes ∧
    Response.decode o.request response.encode = .ok response ∧ o.returned = callReturns response

/-- What the relay makes of a request. -/
theorem of_respond {log : List Handled} {s : State} (h : Serves config log s) (now : Nat)
    (req : Request) : ∃ o : Over, o.request = req ∧ o.Ok ∧
      o.handled?.toList = (respond config now req.encode s).2.1.toList ∧
      ∃ bytes, o.Framed bytes ∧ writeFrame (respond config now req.encode s).1.encode = .ok bytes ∧
        o.returned = callReturns (respond config now req.encode s).1 := by
  by_cases hfits : req.Fits
  · rw [respond_fits hfits]
    obtain ⟨hanswers, hlen⟩ := handle_answers h now req
    have hframe := writeFrame_ok hlen
    exact ⟨.handled ⟨now, req, s, _, _⟩, rfl, trivial, rfl, _,
      ⟨_, hframe, Response.decode_ok.mpr ⟨hanswers, rfl⟩, rfl⟩, hframe, rfl⟩
  · rw [respond_unfit hfits]
    have hframe : writeFrame (Response.error .badRequest).encode = .ok _ := writeFrame_ok (by decide)
    exact ⟨.unread req, rfl, hfits, rfl, _,
      ⟨_, hframe, Response.decode_ok.mpr ⟨.refused _ _, rfl⟩, rfl⟩, hframe, rfl⟩

end Over

/-- A call under way whose request is still in `up`, or what is left of it. -/
structure Asked (ended : List Over) (c : Conn) (req : Request) : Prop where
  calls : c.calls = ended.map Over.request ++ [req]
  up : ∃ bytes, writeFrame req.encode = .ok bytes ∧ c.up <+: bytes

/-- Where a client of ours stands, of whose calls the relay or `write_frame` is done with `ended`. -/
inductive Phase (ended : List Over) (c : Conn) : Prop
  | idle (waiting : c.waiting = none) (calls : c.calls = ended.map Over.request)
      (results : c.results = ended.map Over.returned) (up : c.up = []) (down : c.down = [])
  | asked (req : Request) (waiting : c.waiting = some req) (asked : Asked ended c req)
      (results : c.results = ended.map Over.returned) (down : c.down = [])
  | answered (before : List Over) (o : Over) (bytes : Bytes) (split : ended = before ++ [o])
      (waiting : c.waiting = some o.request) (calls : c.calls = ended.map Over.request)
      (results : c.results = before.map Over.returned) (up : c.up = []) (framed : o.Framed bytes)
      (down : c.down <+: bytes)
  /-- The last call failed, and its request may still be handled. -/
  | failedAsked (req : Request) (waiting : c.waiting = none) (asked : Asked ended c req)
      (results : c.results = ended.map Over.returned ++ [.error .network])
  /-- The last call failed, and the relay is done with its request. -/
  | failedAnswered (before : List Over) (o : Over) (split : ended = before ++ [o])
      (waiting : c.waiting = none) (calls : c.calls = ended.map Over.request)
      (results : c.results = before.map Over.returned ++ [.error .network]) (up : c.up = [])

/-- Where a client of ours stands, of whose requests `handled` were handled. -/
structure Stands (handled : List Handled) (ended : List Over) (c : Conn) : Prop where
  handled : ended.filterMap Over.handled? = handled
  ok : ∀ o ∈ ended, o.Ok
  phase : Phase ended c

/-- The relay's state is one that it can reach, and each client of ours is in one of the phases. -/
structure NetInv (config : Config) (n : Net) : Prop where
  serves : Serves config (n.log.map Prod.snd) n.relay
  unused : ∀ i, n.conns i = none → n.handledOn i = []
  ours : ∀ i c, n.conns i = some c → c.ours = true → ∃ ended, Stands (n.handledOn i) ended c

namespace Net

variable {n : Net} {i j : Nat} {c c' : Conn}

theorem setConn_conns : (n.setConn i c).conns i = some c := Function.update_self _ _ _

theorem setConn_conns_ne (h : j ≠ i) : (n.setConn i c).conns j = n.conns j :=
  Function.update_of_ne h _ _

theorem responded_conns {now : Nat} {body : Bytes} :
    (n.responded config now body i c).conns = Function.update n.conns i (some c) := rfl

theorem handledOn_responded {now : Nat} {body : Bytes} :
    (n.responded config now body i c).handledOn j =
      n.handledOn j ++ if j = i then (respond config now body n.relay).2.1.toList else [] := by
  have hlog : (n.responded config now body i c).log =
      ((respond config now body n.relay).2.1.map (i, ·)).toList ++ n.log := rfl
  rw [handledOn, hlog]
  cases (respond config now body n.relay).2.1 with
  | none => simp [handledOn]
  | some x =>
    by_cases hij : i = j
    · simp [handledOn, hij]
    · simp [handledOn, hij, Ne.symm hij]

end Net

/-! ## One step -/

/-- Losing the end of a stream, or giving the connection up, changes no phase. -/
theorem Phase.weaken {ended : List Over} {c c' : Conn} (h : Phase ended c)
    (hcalls : c'.calls = c.calls) (hresults : c'.results = c.results) (hwaiting : c'.waiting = c.waiting)
    (hup : c'.up <+: c.up) (hdown : c'.down <+: c.down) : Phase ended c' := by
  have hempty : ∀ {a b : Bytes}, a <+: b → b = [] → a = [] := fun ha hb => List.prefix_nil.mp (hb ▸ ha)
  have hasked : ∀ {req}, Asked ended c req → Asked ended c' req := fun ha => by
    obtain ⟨bytes, hframe, hp⟩ := ha.up
    exact ⟨hcalls.trans ha.calls, bytes, hframe, hup.trans hp⟩
  cases h with
  | idle waiting calls results up down =>
    exact .idle (hwaiting.trans waiting) (hcalls.trans calls) (hresults.trans results) (hempty hup up)
      (hempty hdown down)
  | asked req waiting asked results down =>
    exact .asked req (hwaiting.trans waiting) (hasked asked) (hresults.trans results) (hempty hdown down)
  | answered before o bytes split waiting calls results up framed down =>
    exact .answered before o bytes split (hwaiting.trans waiting) (hcalls.trans calls)
      (hresults.trans results) (hempty hup up) framed (hdown.trans down)
  | failedAsked req waiting asked results =>
    exact .failedAsked req (hwaiting.trans waiting) (hasked asked) (hresults.trans results)
  | failedAnswered before o split waiting calls results up =>
    exact .failedAnswered before o split (hwaiting.trans waiting) (hcalls.trans calls)
      (hresults.trans results) (hempty hup up)

/-- A client that waits for nothing, on a connection that is sound, is idle. -/
theorem Phase.of_sound {ended : List Over} {c : Conn} (h : Phase ended c) (hidle : c.waiting = none)
    (hsound : c.Sound) : c.calls = ended.map Over.request ∧ c.results = ended.map Over.returned ∧
      c.up = [] ∧ c.down = [] := by
  have hlost : .error .network ∉ c.results := fun hm => hsound _ hm
  cases h with
  | idle waiting calls results up down => exact ⟨calls, results, up, down⟩
  | asked req waiting asked results down =>
    rw [waiting] at hidle
    cases hidle
  | answered before o bytes split waiting calls results up framed down =>
    rw [waiting] at hidle
    cases hidle
  | failedAsked req waiting asked results =>
    rw [results] at hlost
    exact absurd (List.mem_append_right _ List.mem_cons_self) hlost
  | failedAnswered before o split waiting calls results up =>
    rw [results] at hlost
    exact absurd (List.mem_append_right _ List.mem_cons_self) hlost

/-- A frame that the relay reads of a client of ours is the request of its last call. -/
theorem Phase.read {ended : List Over} {c : Conn} {body rest : Bytes} (h : Phase ended c)
    (hread : readFrame c.up = .ok (some body, rest)) :
    ∃ req, Asked ended c req ∧ body = req.encode ∧ rest = [] ∧
      ((c.waiting = some req ∧ c.results = ended.map Over.returned ∧ c.down = []) ∨
        (c.waiting = none ∧ c.results = ended.map Over.returned ++ [.error .network])) := by
  have hnot : c.up ≠ [] := by
    intro hup
    rw [hup, readFrame_nil] at hread
    cases hread
  have hasked : ∀ req, Asked ended c req → body = req.encode ∧ rest = [] := by
    intro req ha
    obtain ⟨bytes, hframe, hp⟩ := ha.up
    exact (readFrame_some_take hframe hp hread).2
  cases h with
  | idle waiting calls results up down => exact absurd up hnot
  | answered before o bytes split waiting calls results up framed down => exact absurd up hnot
  | failedAnswered before o split waiting calls results up => exact absurd up hnot
  | asked req waiting asked results down =>
    obtain ⟨hbody, hrest⟩ := hasked req asked
    exact ⟨req, asked, hbody, hrest, .inl ⟨waiting, results, down⟩⟩
  | failedAsked req waiting asked results =>
    obtain ⟨hbody, hrest⟩ := hasked req asked
    exact ⟨req, asked, hbody, hrest, .inr ⟨waiting, results⟩⟩

/-- The relay has read a request of a client of ours, and the response is on its way, or lost. -/
theorem Stands.served {ended : List Over} {n : Net} {i now : Nat} {c c' : Conn} {body rest : Bytes}
    (h : Stands (n.handledOn i) ended c) (hserves : Serves config (n.log.map Prod.snd) n.relay)
    (hread : readFrame c.up = .ok (some body, rest)) (hcalls : c'.calls = c.calls)
    (hresults : c'.results = c.results) (hwaiting : c'.waiting = c.waiting) (hup : c'.up = rest)
    (hdown : c.down = [] → ∀ bytes,
      writeFrame (respond config now body n.relay).1.encode = .ok bytes → c'.down <+: bytes) :
    ∃ ended', Stands (n.handledOn i ++ (respond config now body n.relay).2.1.toList) ended' c' := by
  obtain ⟨req, hasked, rfl, rfl, hcase⟩ := h.phase.read hread
  obtain ⟨o, rfl, hok, hhandled, bytes, hframed, hframe, -⟩ := Over.of_respond hserves now req
  have hc : c'.calls = (ended ++ [o]).map Over.request := by
    rw [hcalls, hasked.calls, List.map_append]
    rfl
  refine ⟨ended ++ [o], ?_, ?_, ?_⟩
  · rw [List.filterMap_append, h.handled, ← hhandled]
    cases hx : o.handled? <;> simp [hx]
  · intro o' ho'
    rcases List.mem_append.mp ho' with ho' | ho'
    · exact h.ok o' ho'
    · obtain rfl := List.mem_singleton.mp ho'
      exact hok
  · rcases hcase with ⟨hw, hr, hd⟩ | ⟨hw, hr⟩
    · exact .answered ended o bytes rfl (hwaiting.trans hw) hc (hresults.trans hr) hup hframed
        (hdown hd bytes hframe)
    · exact .failedAnswered ended o rfl (hwaiting.trans hw) hc (hresults.trans hr) hup

theorem NetInv.setConn {n : Net} {i : Nat} {c : Conn} (h : NetInv config n)
    (hc : c.ours = true → ∃ ended, Stands (n.handledOn i) ended c) : NetInv config (n.setConn i c) where
  serves := h.serves
  unused j hj := by
    by_cases hji : j = i
    · subst hji
      rw [Net.setConn_conns] at hj
      cases hj
    · rw [Net.setConn_conns_ne hji] at hj
      exact h.unused j hj
  ours j c' hj hours := by
    by_cases hji : j = i
    · subst hji
      rw [Net.setConn_conns] at hj
      obtain rfl := Option.some.inj hj
      exact hc hours
    · rw [Net.setConn_conns_ne hji] at hj
      exact h.ours j c' hj hours

/-- A client of ours moves on, and nothing is handled. -/
theorem NetInv.moved {n : Net} {i : Nat} {c c' : Conn} (h : NetInv config n) (hi : n.conns i = some c)
    (hours : c'.ours = c.ours) (hphase : ∀ ended, Phase ended c → Phase ended c') :
    NetInv config (n.setConn i c') :=
  h.setConn fun ho => by
    obtain ⟨ended, hended⟩ := h.ours i c hi (hours ▸ ho)
    exact ⟨ended, hended.handled, hended.ok, hphase ended hended.phase⟩

/-- The relay has read a frame. -/
theorem NetInv.responded {n : Net} {i now : Nat} {c c' : Conn} {body : Bytes} (h : NetInv config n)
    (hi : n.conns i = some c) (hours : c'.ours = c.ours)
    (hc : ∀ ended, Stands (n.handledOn i) ended c → ∃ ended',
      Stands (n.handledOn i ++ (respond config now body n.relay).2.1.toList) ended' c') :
    NetInv config (n.responded config now body i c') where
  serves := by
    have hlog : (n.responded config now body i c').log.map Prod.snd =
        (respond config now body n.relay).2.1.toList ++ n.log.map Prod.snd := by
      show (((respond config now body n.relay).2.1.map (i, ·)).toList ++ n.log).map Prod.snd = _
      cases (respond config now body n.relay).2.1 <;> rfl
    rw [hlog]
    exact h.serves.respond now body
  unused j hj := by
    rw [Net.responded_conns] at hj
    by_cases hji : j = i
    · subst hji
      rw [Function.update_self] at hj
      cases hj
    · rw [Function.update_of_ne hji] at hj
      rw [Net.handledOn_responded, if_neg hji, List.append_nil]
      exact h.unused j hj
  ours j c'' hj ho := by
    rw [Net.responded_conns] at hj
    rw [Net.handledOn_responded]
    by_cases hji : j = i
    · subst hji
      rw [Function.update_self] at hj
      obtain rfl := Option.some.inj hj
      obtain ⟨ended, hended⟩ := h.ours j c hi (hours ▸ ho)
      rw [if_pos rfl]
      exact hc ended hended
    · rw [Function.update_of_ne hji] at hj
      rw [if_neg hji, List.append_nil]
      exact h.ours j c'' hj ho

/-- The response that waits for a client of ours is read as the relay gave it. -/
theorem Phase.reply {ended : List Over} {c c' : Conn} {req : Request} {body rest : Bytes}
    (h : Phase ended c) (hwaits : c.waiting = some req) (hread : readFrame c.down = .ok (some body, rest))
    (hcalls : c'.calls = c.calls) (hresults : c'.results = c.results ++ [callResult req body])
    (hwaiting : c'.waiting = none) (hup : c'.up = c.up) (hdown : c'.down = rest) : Phase ended c' := by
  have hnone : c.down ≠ [] := by
    intro hd
    rw [hd, readFrame_nil] at hread
    cases hread
  cases h with
  | idle waiting calls results up down => exact absurd down hnone
  | asked req' waiting asked results down => exact absurd down hnone
  | failedAsked req' waiting asked results =>
    rw [waiting] at hwaits
    cases hwaits
  | failedAnswered before o split waiting calls results up =>
    rw [waiting] at hwaits
    cases hwaits
  | answered before o bytes split waiting calls results up framed down =>
    rw [waiting] at hwaits
    obtain rfl := Option.some.inj hwaits
    obtain ⟨response, hframe, hreads, hreturned⟩ := framed
    obtain ⟨-, rfl, rfl⟩ := readFrame_some_take hframe down hread
    have hresult : callResult o.request response.encode = o.returned := by
      rw [callResult, hreads, hreturned]
    refine .idle hwaiting (hcalls.trans calls) ?_ (hup.trans up) hdown
    rw [hresults, results, hresult, split, List.map_append]
    rfl

/-- A call of ours that fails: it is never a frame of the relay that is too large. -/
theorem Phase.fail {ended : List Over} {c c' : Conn} {req : Request} {e : ClientError}
    (h : Phase ended c) (hwaits : c.waiting = some req)
    (he : e = .network ∨ ∃ len, readFrame c.down = .error (.tooLarge len) ∧ e = .protocol (.tooLarge len))
    (hcalls : c'.calls = c.calls) (hresults : c'.results = c.results ++ [.error e])
    (hwaiting : c'.waiting = none) (hup : c'.up = c.up) : Phase ended c' := by
  cases h with
  | idle waiting calls results up down =>
    rw [waiting] at hwaits
    cases hwaits
  | failedAsked req' waiting asked results =>
    rw [waiting] at hwaits
    cases hwaits
  | failedAnswered before o split waiting calls results up =>
    rw [waiting] at hwaits
    cases hwaits
  | asked req' waiting asked results down =>
    have hnetwork : e = .network := by
      rcases he with he | ⟨len, hlarge, -⟩
      · exact he
      · rw [down, readFrame_nil] at hlarge
        cases hlarge
    subst hnetwork
    obtain ⟨bytes, hframe, hp⟩ := asked.up
    exact .failedAsked req' hwaiting ⟨hcalls.trans asked.calls, bytes, hframe, hup ▸ hp⟩
      (by rw [hresults, results])
  | answered before o bytes split waiting calls results up framed down =>
    have hnetwork : e = .network := by
      obtain ⟨response, hframe, -, -⟩ := framed
      rcases he with he | ⟨len, hlarge, -⟩
      · exact he
      · rcases readFrame_prefix hframe down with hn | hn | ⟨-, hn⟩
        all_goals
          rw [hn] at hlarge
          cases hlarge
    subst hnetwork
    exact .failedAnswered before o split hwaiting (hcalls.trans calls) (by rw [hresults, results])
      (hup.trans up)

theorem NetInv.step {n n' : Net} (h : NetInv config n) (hstep : Step config Conn.Sound n n') :
    NetInv config n' := by
  cases hstep with
  | connect i ours hi =>
    refine h.setConn fun _ => ⟨[], ?_, nofun, .idle rfl rfl rfl rfl rfl⟩
    rw [h.unused i hi]
    rfl
  | call i c req bytes hi hours hopen hidle husable hframe =>
    refine h.moved hi rfl fun ended hphase => ?_
    obtain ⟨calls, results, up, down⟩ := hphase.of_sound hidle husable
    refine .asked req rfl ⟨by rw [calls], bytes, hframe, ?_⟩ results down
    rw [up, List.nil_append]
  | tooLarge i c req e hi hours hopen hidle husable hframe =>
    refine h.setConn fun _ => ?_
    obtain ⟨ended, hended⟩ := h.ours i c hi hours
    obtain ⟨calls, results, up, down⟩ := hended.phase.of_sound hidle husable
    obtain ⟨hlarge, rfl⟩ := writeFrame_error.mp hframe
    refine ⟨ended ++ [.unsent req], ?_, fun o ho => ?_, .idle hidle ?_ ?_ up down⟩
    · rw [List.filterMap_append, hended.handled]
      exact List.append_nil _
    · rcases List.mem_append.mp ho with ho | ho
      · exact hended.ok o ho
      · obtain rfl := List.mem_singleton.mp ho
        exact hlarge
    · rw [calls, List.map_append]
      rfl
    · rw [results, List.map_append]
      rfl
  | write i c bytes hi hours =>
    refine h.setConn fun ho => ?_
    rw [hours] at ho
    cases ho
  | lose i c up down hi hup hdown =>
    exact h.moved hi rfl fun ended hphase => hphase.weaken rfl rfl rfl hup hdown
  | serve i c now body rest bytes hi hopen hread hframe =>
    refine h.responded hi rfl fun ended hended => hended.served h.serves hread rfl rfl rfl rfl ?_
    intro hd bytes' hframe'
    rw [hframe] at hframe'
    obtain rfl := Except.ok.inj hframe'
    show c.down ++ bytes <+: bytes
    rw [hd, List.nil_append]
  | serveInVain i c now body rest hi hopen hread =>
    refine h.responded hi rfl fun ended hended => hended.served h.serves hread rfl rfl rfl rfl ?_
    intro hd _ _
    show c.down <+: _
    rw [hd]
    exact List.nil_prefix
  | serverEnd i c hi =>
    exact h.moved hi rfl fun ended hphase =>
      hphase.weaken rfl rfl rfl (List.prefix_refl _) (List.prefix_refl _)
  | reply i c req body rest hi hwaits hread =>
    exact h.moved hi rfl fun ended hphase => hphase.reply hwaits hread rfl rfl rfl rfl rfl
  | fail i c req e down hi hwaits hdown he =>
    exact h.moved hi rfl fun ended hphase => hphase.fail hwaits he rfl rfl rfl rfl
  | close i c hi hidle =>
    exact h.moved hi rfl fun ended hphase =>
      hphase.weaken rfl rfl rfl (List.prefix_refl _) (List.prefix_refl _)

theorem Runs.inv {n : Net} (h : Runs config Conn.Sound n) : NetInv config n := by
  induction h with
  | start hs =>
    refine ⟨.start hs, fun i _ => rfl, fun i c hi _ => ?_⟩
    cases hi
  | step h hstep ih => exact ih.step hstep

/-! ## Every run -/

/-- What the calls of a client of ours came to, where `handled` is what was handled on its
connection. -/
structure CallsServed (handled : List Handled) (ended : List Over) (c : Conn) : Prop where
  /-- What was handled are calls of the client, in their order. -/
  handled : ended.filterMap Over.handled? = handled
  /-- A request that was not handled is too large for a frame, or cannot be read. -/
  ok : ∀ o ∈ ended, o.Ok
  /-- Each call is handled at most once, or one of these. -/
  once : ended.map Over.request <+: c.calls
  outstanding : c.calls.length ≤ ended.length + 1
  /-- A call that is not the last has returned. -/
  returned : c.calls.length = c.results.length + c.waiting.toList.length
  /-- A call returns what became of it; besides that, only the last one can fail. -/
  answered : ∃ n ≤ ended.length, ∃ lost, c.results = (ended.take n).map Over.returned ++ lost ∧
    (lost = [] ∨ lost = [.error .network] ∧ c.waiting = none)
  /-- No method sees a response that it does not expect. -/
  expected : ∀ o ∈ ended, ∀ r, o.returned = .ok r → ∃ reply, methodResult o.request r = .ok reply

theorem Serves.answers {log : List Handled} {s : State} (h : Serves config log s) :
    ∀ x ∈ log, Response.Answers x.request x.response := by
  induction h with
  | start hs => exact fun x hx => absurd hx List.not_mem_nil
  | handled h now request ih =>
    intro x hx
    rcases List.mem_cons.mp hx with rfl | hx
    · exact (handle_answers h now request).1
    · exact ih x hx

theorem Stands.calls_served {handled : List Handled} {ended : List Over} {c : Conn}
    (h : Stands handled ended c) (hanswers : ∀ x ∈ handled, Response.Answers x.request x.response) :
    CallsServed handled ended c := by
  have hexpected : ∀ o ∈ ended, ∀ r, o.returned = .ok r →
      ∃ reply, methodResult o.request r = .ok reply := by
    intro o ho r hr
    cases o with
    | handled x =>
      refine methodResult_of_answers (hanswers x ?_) hr
      rw [← h.handled]
      exact List.mem_filterMap.mpr ⟨_, ho, rfl⟩
    | unread req => cases hr
    | unsent req => cases hr
  have hall : ∀ {l : List Over}, l.take l.length = l := List.take_length
  obtain ⟨hhandled, hok, hphase⟩ := h
  cases hphase with
  | idle waiting calls results up down =>
    refine ⟨hhandled, hok, by rw [calls], by rw [calls]; simp, by rw [calls, results, waiting]; simp,
      ⟨ended.length, Nat.le_refl _, [], by rw [results, hall, List.append_nil], .inl rfl⟩, hexpected⟩
  | asked req waiting asked results down =>
    refine ⟨hhandled, hok, by rw [asked.calls]; exact List.prefix_append _ _,
      by rw [asked.calls]; simp, by rw [asked.calls, results, waiting]; simp,
      ⟨ended.length, Nat.le_refl _, [], by rw [results, hall, List.append_nil], .inl rfl⟩, hexpected⟩
  | answered before o bytes split waiting calls results up framed down =>
    have htake : ended.take before.length = before := by rw [split, List.take_left]
    refine ⟨hhandled, hok, by rw [calls], by rw [calls]; simp,
      by rw [calls, results, waiting, split]; simp,
      ⟨before.length, by rw [split]; simp, [], by rw [results, htake, List.append_nil], .inl rfl⟩,
      hexpected⟩
  | failedAsked req waiting asked results =>
    refine ⟨hhandled, hok, by rw [asked.calls]; exact List.prefix_append _ _,
      by rw [asked.calls]; simp, by rw [asked.calls, results, waiting]; simp,
      ⟨ended.length, Nat.le_refl _, _, by rw [results, hall], .inr ⟨rfl, waiting⟩⟩, hexpected⟩
  | failedAnswered before o split waiting calls results up =>
    have htake : ended.take before.length = before := by rw [split, List.take_left]
    refine ⟨hhandled, hok, by rw [calls], by rw [calls]; simp,
      by rw [calls, results, waiting, split]; simp,
      ⟨before.length, by rw [split]; simp, _, by rw [results, htake], .inr ⟨rfl, waiting⟩⟩, hexpected⟩

/-! ## A call that nothing disturbs -/

/-- What such a call returns, and the relay's state after it. -/
def callAlone (config : Config) (now : Nat) (req : Request) (s : State) :
    Except ClientError Response × State :=
  if maxFrame < req.encode.length then (.error (.protocol (.tooLarge req.encode.length)), s)
  else if req.Fits then (callReturns (handle config now req s).1, (handle config now req s).2)
  else (.error (.refused .badRequest), s)

theorem callAlone_respond {now : Nat} {req : Request} {s : State}
    (hlen : req.encode.length ≤ maxFrame) : callAlone config now req s =
      (callReturns (respond config now req.encode s).1, (respond config now req.encode s).2.2) := by
  rw [callAlone, if_neg (Nat.not_lt.mpr hlen)]
  split
  · next hfits => rw [respond_fits hfits]
  · next hfits =>
    rw [respond_unfit hfits]
    rfl

/-- It leaves the connection as it was. -/
theorem callAlone_harmless {now : Nat} {req : Request} {s : State} {e : ClientError}
    (h : (callAlone config now req s).1 = .error e) : e.Harmless := by
  unfold callAlone at h
  split at h
  · obtain rfl := Except.error.inj h
    trivial
  · split at h
    · dsimp only at h
      unfold callReturns at h
      split at h
      · obtain rfl := Except.error.inj h
        trivial
      · cases h
    · obtain rfl := Except.error.inj h
      trivial

/-- A connection that a client of ours can call on. -/
structure Conn.Ready (c : Conn) : Prop where
  ours : c.ours = true
  client : c.clientOpen = true
  server : c.serverOpen = true
  idle : c.waiting = none
  sound : c.Sound

theorem Conn.Ready.after {c c' : Conn} (h : c.Ready) {now : Nat} {req : Request} {s : State}
    (hours : c'.ours = c.ours) (hclient : c'.clientOpen = c.clientOpen)
    (hserver : c'.serverOpen = c.serverOpen) (hidle : c'.waiting = none)
    (hresults : c'.results = c.results ++ [(callAlone config now req s).1]) : c'.Ready where
  ours := hours.trans h.ours
  client := hclient.trans h.client
  server := hserver.trans h.server
  idle := hidle
  sound e he := by
    rw [hresults] at he
    rcases List.mem_append.mp he with he | he
    · exact h.sound e he
    · exact callAlone_harmless (List.mem_singleton.mp he).symm

theorem Runs.call_returns {n : Net} (h : Runs config Conn.Sound n) {i : Nat} {c : Conn}
    (hi : n.conns i = some c) (hc : c.Ready) (req : Request) (now : Nat) :
    ∃ n' c', Runs config Conn.Sound n' ∧ n'.conns i = some c' ∧ c'.Ready ∧
      n'.relay = (callAlone config now req n.relay).2 ∧ c'.calls = c.calls ++ [req] ∧
      c'.results = c.results ++ [(callAlone config now req n.relay).1] := by
  by_cases hlen : req.encode.length ≤ maxFrame
  · obtain ⟨bytes, hframe⟩ : ∃ bytes, writeFrame req.encode = .ok bytes := ⟨_, writeFrame_ok hlen⟩
    obtain ⟨ended, hended⟩ := h.inv.ours i c hi hc.ours
    obtain ⟨-, -, hup, hdown⟩ := hended.phase.of_sound hc.idle hc.sound
    have hcall := h.step (.call i c req bytes hi hc.ours hc.client hc.idle hc.sound hframe)
    have hread : readFrame (c.up ++ bytes) = .ok (some req.encode, []) := by
      rw [hup, List.nil_append]
      simpa only [List.append_nil] using readFrame_append hframe []
    obtain ⟨o, rfl, -, -, reply, hframed, hwritten, hreturned⟩ :=
      Over.of_respond h.inv.serves now req
    have hserve := hcall.step (.serve i _ now _ [] reply Net.setConn_conns hc.server hread hwritten)
    obtain ⟨response, hresponse, hreads, hsame⟩ := hframed
    have hreply : readFrame (c.down ++ reply) = .ok (some response.encode, []) := by
      rw [hdown, List.nil_append]
      simpa only [List.append_nil] using readFrame_append hresponse []
    have hdone := hserve.step (.reply i _ o.request response.encode []
      (Net.responded_conns ▸ Function.update_self _ _ _) rfl hreply)
    have hresults : c.results ++ [callResult o.request response.encode] =
        c.results ++ [(callAlone config now o.request n.relay).1] := by
      rw [callAlone_respond hlen, callResult, hreads, ← hreturned, hsame]
    refine ⟨_, _, hdone, Net.setConn_conns, hc.after rfl rfl rfl rfl hresults, ?_, rfl, hresults⟩
    rw [callAlone_respond hlen]
    rfl
  · have hlarge := Nat.not_le.mp hlen
    have hframe := writeFrame_error.mpr ⟨hlarge, rfl⟩
    have hresult : callAlone config now req n.relay =
        (.error (.protocol (.tooLarge req.encode.length)), n.relay) := if_pos hlarge
    have hdone := h.step (.tooLarge i c req _ hi hc.ours hc.client hc.idle hc.sound hframe)
    have hresults : c.results ++ [.error (.protocol (.tooLarge req.encode.length))] =
        c.results ++ [(callAlone config now req n.relay).1] := by rw [hresult]
    refine ⟨_, _, hdone, Net.setConn_conns, hc.after rfl rfl rfl hc.idle hresults, ?_, rfl, hresults⟩
    rw [hresult]
    rfl

/-- **Calls are served in order, at most once, and with their own responses**, in every run of any
number of clients and connections, in which ours call only on connections that are `Sound`: the
relay's state is that of the requests it handled one after the other, and on each connection of a
client of ours these are its calls. A call that nothing disturbs returns what the relay's handler
answers, unless `write_frame` refuses it, or it is a DELETE of too many numbers to count; and then the
connection can be used again. -/
theorem calls_are_served {n : Net} (h : Runs config Conn.Sound n) :
    Serves config (n.log.map Prod.snd) n.relay ∧
    (∀ i c, n.conns i = some c → c.ours = true → ∃ ended, CallsServed (n.handledOn i) ended c) ∧
    ∀ i c, n.conns i = some c → c.Ready → ∀ req now,
      ∃ n' c', Runs config Conn.Sound n' ∧ n'.conns i = some c' ∧ c'.Ready ∧
        n'.relay = (callAlone config now req n.relay).2 ∧ c'.calls = c.calls ++ [req] ∧
        c'.results = c.results ++ [(callAlone config now req n.relay).1] := by
  refine ⟨h.inv.serves, fun i c hi hours => ?_, fun i c hi hc req now => h.call_returns hi hc req now⟩
  obtain ⟨ended, hended⟩ := h.inv.ours i c hi hours
  refine ⟨ended, hended.calls_served fun x hx => h.inv.serves.answers x ?_⟩
  obtain ⟨y, hy, rfl⟩ := List.mem_map.mp (List.mem_reverse.mp hx)
  exact List.mem_map_of_mem (List.mem_filter.mp hy).1

theorem exists_tooLarge : ∃ req : Request, maxFrame < req.encode.length := by
  refine ⟨.send default (List.replicate maxFrame 0), ?_⟩
  rw [Request.encode, List.length_cons, List.length_append, List.length_replicate]
  omega

/-- A frame of another client that is no request, a call with an envelope that no frame can hold, and
a call on the same connection. -/
theorem calls_are_served_two : ∃ n c ended len, Runs {} Conn.Sound n ∧ n.conns 0 = some c ∧
    c.results = [.error (.protocol (.tooLarge len)), .ok (.accepted 1)] ∧
    CallsServed (n.handledOn 0) ended c := by
  have h₀ : Runs {} Conn.Sound { relay := { nextSeq := 1 } } := .start rfl
  have h₁ := (h₀.step (.connect 0 true rfl)).step (.connect 1 false rfl)
  have h₂ := h₁.step (.write 1 { ours := false } [0, 0, 0, 1, 9] rfl rfl)
  have h₃ := h₂.step (.serve 1 { ours := false, up := [0, 0, 0, 1, 9] } 0 [9] [] [0, 0, 0, 1, 2] rfl rfl
    (by decide +kernel) (by decide +kernel))
  have hready : ({ ours := true } : Conn).Ready := ⟨rfl, rfl, rfl, rfl, nofun⟩
  obtain ⟨large, hlarge⟩ := exists_tooLarge
  obtain ⟨n, c, hn, hc, hready, hrelay, -, hresults⟩ :=
    (calls_are_served h₃).2.2 0 { ours := true } rfl hready large 0
  rw [callAlone, if_pos hlarge] at hrelay hresults
  obtain ⟨n', c', hn', hc', hready', -, -, hresults'⟩ :=
    (calls_are_served hn).2.2 0 c hc hready (.send default [7]) 0
  have hanswer : (callAlone {} 0 (.send default [7]) { nextSeq := 1 }).1 = .ok (.accepted 1) := by
    decide +kernel
  have hrelay' : n.relay = { nextSeq := 1 } := hrelay
  rw [hrelay', hanswer, hresults] at hresults'
  obtain ⟨ended, hended⟩ := (calls_are_served hn').2.1 0 c' hc' hready'.ours
  exact ⟨n', c', ended, _, hn', hc', hresults', hended⟩

end Relay

end Arcium
