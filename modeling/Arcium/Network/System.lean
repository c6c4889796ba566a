import Arcium.Network.Device
import Arcium.Network.RoundSpec

/-!
# One device

`system`: the public interface of any number of `ArciumCore` and `NetworkMessenger` instances on one
store, their calls interleaved at every read, transaction and request. A call can be cut off at any
action, an instance can restart without its memory, and the relay answers whatever it likes.

`contract`: every transaction of a call is one of `Step`, and what it asks the relay to delete is
what `Asks` allows.
-/

namespace Arcium

open Conc

namespace Network

variable {P : AppPlatform} {scope : Scope P}

/-- What a call returns. -/
inductive Res where
  | unit (r : Except CoreError Unit)
  | flag (r : Except CoreError Bool)
  | bytes (r : Except CoreError Bytes)
  | handshake (r : Except CoreError (Option Bytes))
  | sent (r : Except CoreError SendOutcome)
  | received (r : Except CoreError Received)
  | outgoing (r : Except CoreError (List OutgoingMessage))
  | incoming (r : Except CoreError (List IncomingMessage))
  | recovered (r : Except CoreError (Option Recovery))
  | peer (r : Except CoreError Peer)
  | peers (r : Except CoreError (List Peer))
  | text (r : Except CoreError SentText)
  | texts (r : Except CoreError (List (MessageId × Bytes)))
  | ids (r : Except CoreError (List MessageId))
  | entries (r : Except CoreError (List Entry))
  | entry (r : Except CoreError Entry)
  | report (r : SyncReport)

/-- The code of a call. -/
def body : Call → Prog Choice (Device P.Key Memory) Res
  | .saveIdentity identity => returning .unit (Core.saveIdentity identity : Core P _).run
  | .establishPrekeys => returning .unit (Core.establishPrekeys : Core P _).run
  | .exportPrekeyBundle => returning .bytes (Core.exportPrekeyBundle : Core P _).run
  | .establishSessionInitiator i sessionId peerBundle =>
    returning .bytes (Core.establishSessionInitiator i sessionId peerBundle : Core P _).run
  | .establishSessionResponder i sessionId handshake =>
    returning .unit (Core.establishSessionResponder i sessionId handshake : Core P _).run
  | .initiatorHandshake sessionId =>
    returning .handshake (Core.initiatorHandshake sessionId : Core P _).run
  | .hasSession sessionId => returning .flag (Core.hasSession sessionId : Core P _).run
  | .sendMessage i sessionId clientMessageId plaintext =>
    returning .sent (Core.sendMessage i sessionId clientMessageId plaintext : Core P _).run
  | .removeSession i sessionId => returning .unit (Core.removeSession i sessionId : Core P _).run
  | .pendingOutgoing sessionId => returning .outgoing (Core.pendingOutgoing sessionId : Core P _).run
  | .receiveMessage i sessionId message =>
    returning .received (Core.receiveCommitted i sessionId message : Core P _).run
  | .pendingIncoming sessionId => returning .incoming (Core.pendingCommitted sessionId : Core P _).run
  | .acknowledgeIncoming sessionId messageId =>
    returning .flag (Core.acknowledgeIncoming sessionId messageId : Core P _).run
  | .recoverSession i sessionId =>
    returning .recovered (Core.recoverSession i sessionId : Core P _).run
  | .contactCard => returning .bytes (Core.contactCard : Core P _).run
  | .addContact card => returning .peer (Core.addContact card : Core P _).run
  | .contacts => returning .peers (Core.contacts : Core P _).run
  | .publishPrekeys => returning .unit (publishPrekeys : Core P _).run
  | .startSession i peer => returning .unit (startSession i peer : Core P _).run
  | .sendText i peer clientMessageId text =>
    returning .text (sendText i peer clientMessageId text : Core P _).run
  | .receivedTexts peer => returning .texts (pendingTexts peer : Core P _).run
  | .markRead peer messageId => returning .flag (markRead peer messageId : Core P _).run
  | .undelivered peer => returning .ids (undelivered peer : Core P _).run
  | .sync i => returning .report (sync i : Prog Choice (Device P.Key Memory) _)
  | .addNamedContact card name => returning .peer (Chat.addNamedContact card name : Core P _).run
  | .renameContact peer name => returning .unit (Chat.renameContact peer name : Core P _).run
  | .chatEntries i peer => returning .entries (Chat.chatEntries i peer : Core P _).run
  | .chatSend i peer appId text => returning .entry (Chat.chatSend i peer appId text : Core P _).run
  | .markSeen peer => returning .unit (Chat.markSeen peer : Core P _).run
  | .resolveSessionConflict i peer =>
    returning .unit (Chat.resolveSessionConflict i peer : Core P _).run
  | .syncConversations i =>
    returning .report (Chat.syncConversations i : Prog Choice (Device P.Key Memory) _)

/-- The calls `calls` on one device. -/
def system (P : AppPlatform) (calls : Call → Prop) :
    System Choice (Device P.Key Memory) Call Res where
  body := body
  allowed := calls
  env s s' := ∃ i, s' = { s with mem := Function.update s.mem i {} }

/-- A configuration of one device. -/
abbrev DeviceConfig (P : AppPlatform) := Config Choice (Device P.Key Memory) Call Res

/-- The configurations of every run that starts with the store of `scope`. -/
structure Reachable (scope : Scope P) (c : DeviceConfig P) : Prop where
  started : scope.start.Valid (Trans scope)
  run : (system P scope.calls).Reach (Config.init ⟨scope.start, fun _ => {}, []⟩) c

/-! ## The contract -/

/-- Every card is stored under the key it names. -/
theorem filed {db : Db P.Key} (hv : db.Valid (Trans scope)) : Filed db := by
  induction hv with
  | empty => exact fun _ _ h => (Db.not_ever_empty h).elim
  | push hv ht ih =>
    intro peer card h
    rcases Db.ever_push.mp h with h | h
    · rcases ht.contact h with h | h
      · exact ih peer card (Db.ever_now h)
      · exact h.symm
    · exact ih peer card h

/-- What is known of the store while a call runs. -/
structure Sound (scope : Scope P) (db : Db P.Key) : Prop where
  valid : db.Valid (Trans scope)
  started : scope.start.Le db

theorem Sound.push {call : Call} {db : Db P.Key} {rows : Rows P.Key} (h : Sound scope db)
    (hc : scope.calls call) (ht : Step scope.start call db rows) : Sound scope (db.push rows) :=
  ⟨.push h.valid (.call call hc ht), h.started.trans (Db.le_push _ _)⟩

/-- A call that only runs. -/
theorem Runs.ends {I : Db P.Key → Prop} {A : Db P.Key → Request × Answer → Prop}
    {T : Db P.Key → Rows P.Key → Prop} {α : Type} {mk : Except CoreError α → Res} {p : Core P α}
    {db : Db P.Key} (h : Runs I A T p db) : Ends I A T (fun _ _ _ => True) (returning mk p.run) [] db :=
  Sat.returning ((h []).mono fun _ _ _ _ => trivial)

theorem Runs.works {I : Db P.Key → Prop} {A : Db P.Key → Request × Answer → Prop} {start : Db P.Key}
    {call : Call} {α : Type} {mk : Except CoreError α → Res} {p : Core P α} {db : Db P.Key}
    (h : Runs I A (Work start call) p db) :
    Ends I A (Step start call) (fun _ _ _ => True) (returning mk p.run) [] db :=
  Runs.ends (Meets.step h)

-- Elaborating a rule looks into its program; names are not to be trimmed then.
seal Chat.checkedName in
/-- Every call keeps to its transactions. -/
theorem body_ends (call : Call) {db : Db P.Key} (h : Sound scope db) :
    Ends (Sound scope) (Asks db) (Step scope.start call) (fun _ _ _ => True) (body call) [] db := by
  have hs := h.started
  have hA := asks_free db
  have hI : ∀ db, Sound scope db → Filed db := fun _ h => filed h.valid
  have refl := Db.Le.refl db
  cases call with
  | saveIdentity identity => exact Runs.works (saveIdentity_runs rfl)
  | establishPrekeys => exact Runs.ends (establishPrekeys_runs trivial)
  | exportPrekeyBundle => exact Runs.works exportPrekeyBundle_runs
  | establishSessionInitiator i sessionId peerBundle =>
    exact Runs.works (establishSessionInitiator_runs i fun _ _ _ _ => .inl ⟨i, rfl⟩)
  | establishSessionResponder i sessionId bytes =>
    exact Runs.works (Meets.runs (establishSessionResponder_gives hs i ⟨rfl, rfl⟩ fun _ _ h => h.elim))
  | initiatorHandshake sessionId => exact Runs.works (initiatorHandshake_runs sessionId)
  | hasSession sessionId => exact Runs.works (hasSession_runs sessionId)
  | sendMessage i sessionId clientId plaintext =>
    refine Runs.works ?_
    unfold Core.sendMessage
    dsimp only
    split
    · exact throw_gives
    · next hf => exact Meets.runs (sendCommitted_gives i fun _ _ => .raw i _ _ rfl (by simpa using hf))
  | removeSession i sessionId => exact Runs.works (removeSession_runs i fun _ _ => .inl ⟨i, rfl⟩)
  | pendingOutgoing sessionId => exact Runs.works (Meets.runs (pendingOutgoing_gives sessionId))
  | receiveMessage i sessionId wire =>
    exact Runs.works (Meets.runs (receiveCommitted_gives i ⟨rfl, rfl⟩))
  | pendingIncoming sessionId => exact Runs.works (Meets.runs (pendingCommitted_gives sessionId))
  | acknowledgeIncoming sessionId bytes =>
    exact Runs.works (acknowledgeIncoming_runs fun _ hid _ _ => .raw (.inl (hid ▸ rfl)))
  | recoverSession i sessionId => exact Runs.works (recoverSession_runs i sessionId)
  | contactCard => exact Runs.works contactCard_runs
  | addContact card => exact Runs.works (addContact_runs ⟨card, .inl rfl⟩)
  | contacts => exact Runs.works contacts_runs
  | publishPrekeys => exact Runs.ends (publishPrekeys_runs hA trivial)
  | startSession i peer => exact Runs.works (startSession_runs hI hA i rfl)
  | sendText i peer clientId text => exact Runs.works (sendText_runs i rfl)
  | receivedTexts peer => exact Runs.works (Meets.runs (pendingTexts_gives peer))
  | markRead peer bytes => exact Runs.works (markRead_runs rfl)
  | undelivered peer => exact Runs.works (undelivered_runs peer)
  | sync i =>
    have hc : (Call.sync i).Syncs := trivial
    exact Ends.returning (reportOf_ends (syncRound_rounds hs refl hc i) [])
  | addNamedContact card name => exact Runs.works (addNamedContact_runs rfl)
  | renameContact peer name => exact Runs.works (renameContact_runs rfl)
  | chatEntries i peer => exact Runs.works (chatEntries_runs i rfl)
  | chatSend i peer appId text => exact Runs.works (chatSend_runs i rfl)
  | markSeen peer => exact Runs.works (markSeen_runs rfl)
  | resolveSessionConflict i peer => exact Runs.works (resolveSessionConflict_runs i rfl)
  | syncConversations i =>
    exact Ends.returning (reportOf_ends (syncConversationsRound_rounds hI hs refl i rfl) [])

/-- What every call of every instance keeps to. -/
def contract (scope : Scope P) : Contract (system P scope.calls) where
  I s := Sound scope s.db
  R s s' := s.db.Le s'.db
  G call s₀ s s' := Acts (Asks s₀.db) (Step scope.start call) s s'
  Q _ _ _ _ _ := True
  refl s := Db.Le.refl _
  trans _ _ _ := Db.Le.trans
  guarantee call _ s s' hc hI hG := by
    rcases hG.moves with hG | ⟨rows, ht, hG⟩
    · rw [hG]
      exact ⟨hI, Db.Le.refl _⟩
    · rw [hG]
      exact ⟨hI.push hc ht, Db.le_push _ _⟩
  env s s' hI he := by
    obtain ⟨i, rfl⟩ := he
    exact ⟨hI, Db.Le.refl _⟩
  triple call s _ hI := body_ends call hI [] s.mem s.asked rfl

theorem Reachable.holds {c : DeviceConfig P} (h : Reachable scope c) : (contract scope).Holds c :=
  Contract.sound (show (contract scope).I _ from ⟨h.started, Db.Le.refl _⟩) h.run

theorem Reachable.valid {c : DeviceConfig P} (h : Reachable scope c) :
    c.shared.db.Valid (Trans scope) := h.holds.inv.valid

end Network

end Arcium
