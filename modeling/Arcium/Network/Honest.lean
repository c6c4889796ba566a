import Arcium.Network.RoundSpec
import Arcium.Relay.Pages

/-!
# Programs that talk to an honest relay

`Served config p s r a tr s' r'`: `p` ran from device `s` and relay `r` to `a`, `s'` and `r'`, and each
of its requests was answered by `Relay.handle` (`tr` lists them, with the state of the relay at that
moment). Between two actions other programs may work on the device, and others may send the relay any
requests.
-/

namespace Arcium

open Conc

/-- The request as the relay gets it. A connection is not a request. -/
def Request.toRelay : Request → Option Relay.Request
  | .connect => none
  | .putBundle owner bundle => some (.putBundle owner bundle)
  | .getBundle owner => some (.getBundle owner)
  | .send recipient envelope => some (.send recipient envelope)
  | .fetchAfter recipient after max => some (.fetchAfter recipient after max)
  | .delete recipient items => some (.delete recipient (items.map fun x => x.1))

/-- `ErrorCode`, as `{:?}` shows it. -/
def Relay.ErrorCode.text : Relay.ErrorCode → String
  | .badRequest => "BadRequest"
  | .tooLarge => "TooLarge"
  | .full => "Full"

/-- What the client makes of a response (`relay/src/client.rs`). -/
def answerOf : Relay.Response → Answer
  | .ok | .notFound | .accepted _ => {}
  | .bundle b => { bundle := some b }
  | .items items => { items }
  | .error code => { fault := some ("relay refused the request: " ++ code.text) }

/-- At time `now` the relay answers a request, going from `r` to `r'`. -/
def Replies (config : Relay.Config) (now : Nat) (request : Request) (r : Relay.State)
    (answer : Answer) (r' : Relay.State) : Prop :=
  match request.toRelay with
  | none => answer = {} ∧ r' = r
  | some q => answer = answerOf (Relay.handle config now q r).1 ∧ r' = (Relay.handle config now q r).2

/-- A request, when the relay got it and in which state it was then, and its answer. -/
structure Exchange where
  request : Request
  now : Nat
  relay : Relay.State
  answer : Answer

variable {K M α β : Type}

/-- A run of `p` whose requests the relay answers (module doc). -/
inductive Served (config : Relay.Config) :
    Prog Choice (Device K M) α → Device K M → Relay.State → α → List Exchange → Device K M →
      Relay.State → Prop
  | ret (a : α) (s : Device K M) (r : Relay.State) : Served config (.ret a) s r a [] s r
  | silent {upd : Choice → Device K M → Device K M}
      {next : Choice → Device K M → Prog Choice (Device K M) α} {s s₁ s' : Device K M}
      {r r₁ r' : Relay.State} {a : α} {tr : List Exchange} (e : Choice) (device : s.db.Le s₁.db)
      (relay : Relay.Moves config r r₁) (asked : (upd e s₁).asked = s₁.asked)
      (rest : Served config (next e s₁) (upd e s₁) r₁ a tr s' r') :
      Served config (.act upd next) s r a tr s' r'
  | asks {upd : Choice → Device K M → Device K M}
      {next : Choice → Device K M → Prog Choice (Device K M) α} {s s₁ s' : Device K M}
      {r r₁ r₂ r' : Relay.State} {a : α} {tr : List Exchange} (e : Choice) (request : Request)
      (now : Nat) (device : s.db.Le s₁.db) (relay : Relay.Moves config r r₁)
      (asked : (upd e s₁).asked = (request, e.relay) :: s₁.asked)
      (answered : Replies config now request r₁ e.relay r₂)
      (rest : Served config (next e s₁) (upd e s₁) r₂ a tr s' r') :
      Served config (.act upd next) s r a (⟨request, now, r₁, e.relay⟩ :: tr) s' r'

theorem Replies.moves {config : Relay.Config} {now : Nat} {request : Request} {r r' : Relay.State}
    {answer : Answer} (h : Replies config now request r answer r') : Relay.Moves config r r' := by
  unfold Replies at h
  split at h
  · rw [h.2]
    exact .refl
  · next q _ => exact .single ⟨now, q, h.2⟩

namespace Served

variable {config : Relay.Config} {s s' : Device K M} {r r' : Relay.State} {tr : List Exchange}

theorem of_bind {p : Prog Choice (Device K M) α} {f : α → Prog Choice (Device K M) β} {b : β}
    (h : Served config (p.bind f) s r b tr s' r') :
    ∃ a tr₁ tr₂ s₁ r₁, Served config p s r a tr₁ s₁ r₁ ∧ Served config (f a) s₁ r₁ b tr₂ s' r' ∧
      tr = tr₁ ++ tr₂ := by
  induction p generalizing s r tr with
  | ret a => exact ⟨a, [], tr, s, r, .ret a s r, h, rfl⟩
  | act upd next ih =>
    cases h with
    | silent e device relay asked rest =>
      obtain ⟨a, tr₁, tr₂, s₁, r₁, h1, h2, rfl⟩ := ih e _ rest
      exact ⟨a, tr₁, tr₂, s₁, r₁, .silent e device relay asked h1, h2, rfl⟩
    | asks e request now device relay asked answered rest =>
      obtain ⟨a, tr₁, tr₂, s₁, r₁, h1, h2, rfl⟩ := ih e _ rest
      exact ⟨a, _, tr₂, s₁, r₁, .asks e request now device relay asked answered h1, h2, rfl⟩

/-- The relay went on by requests. -/
theorem moves {p : Prog Choice (Device K M) α} {a : α} (h : Served config p s r a tr s' r') :
    Relay.Moves config r r' := by
  induction h with
  | ret a s r => exact .refl
  | silent e device relay asked rest ih => exact relay.trans ih
  | asks e request now device relay asked answered rest ih =>
    exact relay.trans (answered.moves.trans ih)

/-- A program that may ask nothing asks nothing. -/
theorem nothing {p : Prog Choice (Device K M) α} {a : α} {T : Db K → Rows K → Prop}
    {Q : α → List (Device K M × Device K M) → Device K M → Prop}
    {t : List (Device K M × Device K M)}
    (hp : Prog.WP (fun s s' : Device K M => s.db.Le s'.db) (fun _ => True)
      (Acts (fun _ _ => False) T) Q p t s) (h : Served config p s r a tr s' r') : tr = [] := by
  induction h generalizing t with
  | ret a s r => rfl
  | silent e device relay asked rest ih => exact ih (hp _ device trivial e).2
  | asks e request now device relay asked answered rest ih =>
    rcases (hp _ device trivial e).1.asks with hsame | ⟨x, hx, -⟩
    · rw [asked] at hsame
      simp at hsame
    · exact hx.elim

/-- One action that asks. -/
theorem of_ask {err : Type} {request : Request} {view : Answer → Except err α} {a : Except err α}
    (h : Served config (ask request view : Run K M err α).run s r a tr s' r') :
    ∃ x : Exchange, tr = [x] ∧ x.request = request ∧ Relay.Moves config r x.relay ∧
      Replies config x.now request x.relay x.answer r' ∧ a = view x.answer := by
  cases h with
  | silent e device relay asked rest =>
    simp at asked
  | asks e request' now device relay asked answered rest =>
    simp only [List.cons.injEq, Prod.mk.injEq, and_true] at asked
    obtain rfl := asked
    cases rest with
    | ret => exact ⟨_, rfl, rfl, relay, answered, rfl⟩

end Served

end Arcium
