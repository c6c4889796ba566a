import Arcium.Network.Pinning

/-!
# One-time prekeys are used once

The prekey record changes in two ways: `establish_prekeys` stores a new one, and the transaction that
stores a responder session replaces the one-time prekey it was derived from. So a one-time prekey
whose secret was drawn once is used by one session, in any interleaving of any number of cores.

* `Draws`: a transaction that stores a new one-time prekey. `FreshPrekeys`: they are all distinct.
* `FirstMessage.Commits`: a transaction that stores a responder session derived from a one-time prekey.
* `prekeys_once`: the use of each, in every reachable configuration.
-/

namespace Arcium

open Conc

namespace Network

variable {P : AppPlatform} {scope : Scope P} {call : Call} {db : Db P.Key} {rows : Rows P.Key}
  {c : DeviceConfig P}

/-- The transaction stores `opk`, drawn for it, as the one-time prekey. -/
inductive Draws (db : Db P.Key) (rows : Rows P.Key) (opk : UInt64 × StaticSecret) : Prop
  | established (identity : Identity) (signedPrekeySk : StaticSecret)
      (h : PrekeysTx identity signedPrekeySk opk db rows)
  | rotated (identity : Identity) (handle : UInt64) (wire : Bytes)
      (provisional : ProvisionalHandshake) (handshake : InitiatorHandshake) (record : PrekeyRecord)
      (used : UInt64 × StaticSecret) (new : SessionRecord P.Key) (m : IncomingMessage)
      (h : FirstTx identity handle wire provisional handshake record opk new m db rows)
      (had : record.opk = some used)

/-- Fresh prekeys are distinct: no one-time prekey was stored with the id or the secret of an
earlier one. -/
def FreshPrekeys (db : Db P.Key) : Prop :=
  ∀ (db₀ : Db P.Key) (rows : Rows P.Key) (opk : UInt64 × StaticSecret), (db₀.push rows).Le db →
    Draws db₀ rows opk → ∀ (record : PrekeyRecord) (opk' : UInt64 × StaticSecret),
      db₀.Ever .prekeys record → record.opk = some opk' → opk'.1 ≠ opk.1 ∧ opk'.2 ≠ opk.2

theorem FreshPrekeys.mono {db db' : Db P.Key} (h : FreshPrekeys db') (hle : db.Le db') :
    FreshPrekeys db := fun db₀ rows opk h₀ => h db₀ rows opk (h₀.trans hle)

/-- A first message that was accepted, and what it was accepted with. -/
structure FirstMessage (P : AppPlatform) where
  identity : Identity
  handle : UInt64
  wire : Bytes
  provisional : ProvisionalHandshake
  handshake : InitiatorHandshake
  record : PrekeyRecord
  /-- The one-time prekey that replaces the one of `record`. -/
  fresh : UInt64 × StaticSecret
  session : SessionRecord P.Key
  message : IncomingMessage

namespace FirstMessage

variable (f : FirstMessage P)

def peer : Peer := f.handshake.identityPk

/-- The transaction stores the session. -/
def Commits (db : Db P.Key) (rows : Rows P.Key) : Prop :=
  FirstTx f.identity f.handle f.wire f.provisional f.handshake f.record f.fresh f.session f.message
    db rows

/-- The session that X3DH gives, which the message is decrypted on. -/
def candidate : SessionRecord P.Key :=
  Messenger.candidateRecord (P := P.toPlatform) (Core.dhPublicKey P f.identity)
    (firstContact f.identity f.handle f.provisional f.handshake f.record f.fresh)

end FirstMessage

/-! ## What a first message does -/

section

variable {identity : Identity} {handle : UInt64} {wire : Bytes} {provisional : ProvisionalHandshake}
  {handshake : InitiatorHandshake} {record : PrekeyRecord} {fresh opk : UInt64 × StaticSecret}
  {new : SessionRecord P.Key} {m : IncomingMessage}

/-- The prekeys that it was answered with are the stored ones. -/
theorem FirstTx.prekeys_before
    (h : FirstTx identity handle wire provisional handshake record fresh new m db rows)
    (ho : record.opk = some opk) : db.rows.lookup .prekeys = some record := by
  have hmem : (⟨.prekeys, .exactly record, .put (Core.rotated record fresh), rfl⟩ : SideWrite P.Key) ∈
      consumed record fresh := by
    rw [consumed, ho]
    exact List.mem_singleton_self _
  exact h.promote.required _ hmem

theorem FirstTx.prekeys_after
    (h : FirstTx identity handle wire provisional handshake record fresh new m db rows)
    (ho : record.opk = some opk) : rows.lookup .prekeys = some (Core.rotated record fresh) := by
  have hafter := Rows.lookup_apply_self db.rows .prekeys (some (Core.rotated record fresh))
  rw [h.lookup_app rfl, consumed, ho]
  exact hafter

end

/-! ## The prekey record -/

/-- A prekey that is drawn is stored. -/
theorem Draws.stored {opk : UInt64 × StaticSecret} (h : Draws db rows opk) :
    ∃ record : PrekeyRecord, rows.lookup .prekeys = some record ∧ record.opk = some opk := by
  cases h with
  | established identity sk h =>
    refine ⟨prekeyRecord P identity sk opk, ?_, rfl⟩
    rw [h.eq]
    exact Rows.lookup_apply_self db.rows .prekeys (some _)
  | rotated identity handle wire provisional handshake record used new m h had =>
    exact ⟨_, h.prekeys_after had, rfl⟩

/-- The prekeys stay, or a new one-time prekey is stored. -/
theorem Trans.prekeys (h : Trans scope db rows) : rows.lookup .prekeys = db.rows.lookup .prekeys ∨
    ∃ opk, Draws db rows opk := by
  have kept : ∀ {cs : List (Change P.Key)}, rows = db.rows.applyAll cs →
      (∀ c ∈ cs, Key.prekeys ≠ c.key) → rows.lookup .prekeys = db.rows.lookup .prekeys := fun heq hcs =>
    heq ▸ Rows.lookup_applyAll_ne _ hcs
  cases h with
  | legacy before our ours handle rec h => exact .inl (h.app rfl)
  | call call allowed h =>
    cases h.app with
    | same h => exact .inl (h _ rfl)
    | identity identity h => exact .inl (kept h.eq (by simp))
    | prekeys called identity sk opk h => exact .inr ⟨opk, .established identity sk h⟩
    | contact card h => exact .inl (kept h.eq (by simp))
    | consumed identity handle wire provisional handshake record opk fresh new m called h used after =>
      exact .inr ⟨fresh, .rotated _ _ _ _ _ _ _ _ _ h used⟩
    | chat h => cases h <;> next eq => exact .inl (kept eq (by simp))

/-- A one-time prekey that was replaced is not stored again. -/
theorem opk_gone {db₁ : Db P.Key} {rows₁ : Rows P.Key} {opk : UInt64 × StaticSecret}
    {record : PrekeyRecord} (hv : db.Valid (Trans scope)) (hf : FreshPrekeys db)
    (hle : (db₁.push rows₁).Le db) (hbefore : db₁.Ever .prekeys record) (ho : record.opk = some opk)
    (hafter : ∀ (r : PrekeyRecord) o, rows₁.lookup .prekeys = some r → r.opk = some o → o.2 ≠ opk.2) :
    ∀ (r : PrekeyRecord) o, db.rows.lookup .prekeys = some r → r.opk = some o → o.2 ≠ opk.2 := by
  induction hv with
  | empty => exact absurd (Db.le_empty hle) (by simp [Db.push, Db.empty, Db.all])
  | push hv ht ih =>
    rcases Db.le_push_cases hle with heq | hle
    · obtain ⟨-, rfl⟩ := Db.push_inj heq
      exact hafter
    · intro r o hr hro
      rcases ht.prekeys with hsame | ⟨o', hdraw⟩
      · exact ih (hf.mono (Db.le_push _ _)) hle r o (hsame ▸ hr) hro
      · obtain ⟨r', hr', ho'⟩ := hdraw.stored
        obtain rfl := Option.some.inj (hr'.symm.trans hr)
        obtain rfl := Option.some.inj (ho'.symm.trans hro)
        have hever := hbefore.mono ((Db.le_push db₁ rows₁).trans hle)
        exact (hf _ _ _ (Db.Le.refl _) hdraw _ _ hever ho).2.symm

/-! ## Where a session comes from -/

/-- A session that appears is an initiator's, or of an older build, or made with a first message. -/
theorem Trans.session_new (h : Trans scope db rows) {peer : Peer} {rec : SessionRecord P.Key}
    (hnone : db.rows.lookup (.session peer) = none) (hl : rows.lookup (.session peer) = some rec) :
    rec.role = .initiator ∨ Messenger.LegacyUnconfirmed rec ∨
      ∃ f : FirstMessage P, f.Commits db rows ∧ f.peer = peer ∧ f.session = rec := by
  have gone : ∀ {old : SessionRecord P.Key}, Messenger.Unchanged (P := P.toPlatform) db peer old → False := by
    rintro old ⟨found, hf, -⟩
    rw [hnone] at hf
    cases hf
  cases h.session_origin hl with
  | kept h =>
    rw [hnone] at h
    cases h
  | initiated identity handle peerBundle bundle ephemeralSk dhs alice h peer_eq role => exact .inl role
  | promoted identity handle wire provisional handshake record fresh m h peer_eq =>
    exact .inr (.inr ⟨⟨identity, handle, wire, provisional, handshake, record, fresh, rec, m⟩, h,
      peer_eq, rfl⟩)
  | sent our handle clientId plaintext dest old m h => exact (gone h.unchanged).elim
  | received our handle wire old m h => exact (gone h.unchanged).elim
  | legacy before unconfirmed => exact .inr (.inl unconfirmed)

/-- A first message is the only one of its transaction. -/
theorem FirstMessage.Commits.unique {f g : FirstMessage P} (hf : f.Commits db rows)
    (hg : g.Commits db rows) : f.peer = g.peer ∧ f.session = g.session := by
  have hnone := hf.promote.noSession
  have hsession := hf.session_after
  have hmem := session_written hnone hsession hg.promote.eq
  rcases FirstTx.mem_changes hmem with hm | hm | hm | hm | hm
  · injection hm with hkey hval
    injection hkey with hpeer
    exact ⟨hpeer, Option.some.inj hval⟩
  all_goals cases hm

/-! ## Every run -/

/-- What becomes of the one-time prekeys of a device. -/
structure UsedOnce (c : DeviceConfig P) : Prop where
  /-- A secret is part of the root key of one session. -/
  once : ∀ (db₁ db₂ : Db P.Key) rows₁ rows₂ (f g : FirstMessage P) opk₁ opk₂,
    (db₁.push rows₁).Le c.shared.db → (db₂.push rows₂).Le c.shared.db →
    f.Commits db₁ rows₁ → g.Commits db₂ rows₂ →
    f.record.opk = some opk₁ → g.record.opk = some opk₂ → opk₁.2 = opk₂.2 →
    db₁ = db₂ ∧ rows₁ = rows₂ ∧ f.peer = g.peer ∧ f.session = g.session
  /-- No other session is derived from a prekey. -/
  sources : ∀ (db : Db P.Key) rows peer (rec : SessionRecord P.Key), (db.push rows).Le c.shared.db →
    db.rows.lookup (.session peer) = none → rows.lookup (.session peer) = some rec →
    rec.role = .initiator ∨ Messenger.LegacyUnconfirmed rec ∨
      ∃ f : FirstMessage P, f.Commits db rows ∧ f.peer = peer ∧ f.session = rec
  /-- The record changes by `establish_prekeys`, or with the session that is derived from it: its
  message decrypts. -/
  changes : ∀ call s s', Performed c call s s' →
    s'.db.rows.lookup .prekeys ≠ s.db.rows.lookup .prekeys →
    (call.EstablishesPrekeys ∧ ∃ identity sk opk, PrekeysTx identity sk opk s.db s'.db.rows) ∨
      ∃ (f : FirstMessage P) (opk : UInt64 × StaticSecret), call.Receives f.handle f.wire ∧
        f.Commits s.db s'.db.rows ∧ f.record.opk = some opk ∧
        s.db.rows.lookup .prekeys = some f.record ∧
        s'.db.rows.lookup .prekeys = some (Core.rotated f.record f.fresh) ∧
        s'.db.rows.lookup (.session f.peer) = some f.session ∧
        ∃ freshDh, Messenger.Decrypts (P := P.toPlatform) f.candidate f.session f.wire freshDh
          f.message.plaintext

/-- The earlier of two uses replaced its prekey, and its secret does not come back. -/
theorem FirstMessage.Commits.not_again {db₁ db₂ : Db P.Key} {rows₁ rows₂ : Rows P.Key}
    {f g : FirstMessage P} {opk₁ opk₂ : UInt64 × StaticSecret} (hv : db₂.Valid (Trans scope))
    (hfresh : FreshPrekeys db₂) (hle : (db₁.push rows₁).Le db₂) (hf : f.Commits db₁ rows₁)
    (hg : g.Commits db₂ rows₂) (h₁ : f.record.opk = some opk₁) (h₂ : g.record.opk = some opk₂) :
    opk₂.2 ≠ opk₁.2 := by
  have hbefore : db₁.Ever .prekeys f.record := Db.ever_now (hf.prekeys_before h₁)
  refine opk_gone hv hfresh hle hbefore h₁ (fun r o hr ho => ?_) g.record opk₂ (hg.prekeys_before h₂) h₂
  obtain rfl := Option.some.inj ((hf.prekeys_after h₁).symm.trans hr)
  obtain rfl := Option.some.inj ho
  have hdraw : Draws db₁ rows₁ f.fresh := .rotated _ _ _ _ _ _ opk₁ _ _ hf h₁
  exact (hfresh db₁ rows₁ f.fresh hle hdraw f.record opk₁ hbefore h₁).2.symm

/-- **A one-time prekey is used once.** -/
theorem prekeys_once (h : Reachable scope c) (hf : FreshPrekeys c.shared.db) : UsedOnce c where
  once db₁ db₂ rows₁ rows₂ f g opk₁ opk₂ hle₁ hle₂ h₁ h₂ ho₁ ho₂ heq := by
    rcases Db.le_total hle₁ hle₂ with hle | hle
    · rcases Db.le_push_cases hle with he | hle
      · obtain ⟨rfl, rfl⟩ := Db.push_inj he
        exact ⟨rfl, rfl, h₁.unique h₂⟩
      · have hle' : db₂.Le c.shared.db := (Db.le_push _ _).trans hle₂
        exact absurd heq.symm (h₁.not_again (h.valid.le hle') (hf.mono hle') hle h₂ ho₁ ho₂)
    · rcases Db.le_push_cases hle with he | hle
      · obtain ⟨rfl, rfl⟩ := Db.push_inj he
        exact ⟨rfl, rfl, h₁.unique h₂⟩
      · have hle' : db₁.Le c.shared.db := (Db.le_push _ _).trans hle₁
        exact absurd heq (h₂.not_again (h.valid.le hle') (hf.mono hle') hle h₁ ho₂ ho₁)
  sources db rows peer rec hle hnone hl := (h.valid.le hle).of_push.2.session_new hnone hl
  changes call s s' ha hne := by
    obtain ⟨-, -, hmoves⟩ := h.acted ha
    rcases hmoves with hs | ⟨rows, hstep, hs⟩
    · exact absurd (by rw [hs]) hne
    · rw [hs, Db.push_rows] at hne ⊢
      have kept : ∀ {cs : List (Change P.Key)}, rows = s.db.rows.applyAll cs →
          (∀ c ∈ cs, Key.prekeys ≠ c.key) → False := fun heq hcs =>
        hne (heq ▸ Rows.lookup_applyAll_ne _ hcs)
      cases hstep.app with
      | same h => exact absurd (h _ rfl) hne
      | identity identity h => exact (kept h.eq (by simp)).elim
      | prekeys called identity sk opk h => exact .inl ⟨called, identity, sk, opk, h⟩
      | contact card h => exact (kept h.eq (by simp)).elim
      | consumed identity handle wire provisional handshake record opk fresh new m called h used after =>
        exact .inr ⟨⟨identity, handle, wire, provisional, handshake, record, fresh, new, m⟩, opk,
          called, h, used, h.prekeys_before used, h.prekeys_after used, h.session_after,
          h.promote.decrypts⟩
      | chat h => cases h <;> next eq => exact (kept eq (by simp)).elim

/-! ## A run -/

namespace FirstRun

def own : Identity := ⟨fill 1, fill 2⟩

/-- The device that sends the first message. -/
def peer : Identity := ⟨fill 3, fill 4⟩

/-- The prekeys that are drawn, and the one-time prekey that comes next. -/
def record : PrekeyRecord := prekeyRecord symbolicApp own (fill 101) (2, fill 103)

def fresh : UInt64 × StaticSecret := (4, fill 105)

/-- The session that the peer starts. -/
def started : Option (NewSession symbolicApp.Key) :=
  let bundle := Core.bundleOf symbolicApp own record
  (x3dhInitiate symbolicApp peer.dhKey (Core.dhPublicKey symbolicApp peer) bundle (fill 20)).map
    fun alice => Core.initiatorSession 7 (Core.dhPublicKey symbolicApp peer) bundle alice (fill 21)

def handshakeBytes : Bytes := (started.bind fun s => s.initialOutbound).getD []

def wire : Bytes :=
  match started with
  | none => []
  | some s =>
    match (DoubleRatchet.encrypt symbolicApp.toCrypto [7] s.session.ad zeroNonce s.session.ratchet).1 with
    | .ok out => Messenger.wireOf out
    | .error _ => []

def handshake : InitiatorHandshake where
  identityPk := Core.dhPublicKey symbolicApp peer
  ephemeralPk := symbolicApp.publicKey (fill 20)
  spkId := spkId symbolicApp (symbolicApp.publicKey record.signedPrekeySk)
  opkId := some 2

def first : FirstContact symbolicApp.Key :=
  firstContact (P := symbolicApp) own 7 (provisionalOf handshake handshakeBytes) handshake record fresh

def candidate : SessionRecord symbolicApp.Key :=
  Messenger.candidateRecord (P := symbolicApp.toPlatform) (Core.dhPublicKey symbolicApp own) first

def session : SessionRecord symbolicApp.Key :=
  match Messenger.splitWire wire with
  | .error _ => candidate
  | .ok (header, ciphertext) =>
    { candidate with
      generation := 1
      ratchet := (candidate.ratchet.decrypt symbolicApp.toCrypto header ciphertext candidate.ad (fill 107)).2 }

def message : IncomingMessage where
  messageId := Messenger.messageId symbolicApp.toPlatform wire
  generation := 1
  plaintext := [7]

def writes : List (List (Change symbolicApp.Key)) :=
  [Messenger.promoteChanges (P := symbolicApp.toPlatform) first session message,
    [⟨.provisional 7, some (provisionalOf handshake handshakeBytes)⟩], [⟨.prekeys, some record⟩],
    [⟨.identity, some own⟩]]

def anything : Scope symbolicApp where
  calls _ := True

/-- The prekeys are stored, and a handshake and its first message arrive. -/
def run : Option (DeviceConfig symbolicApp) :=
  (system symbolicApp anything.calls).runCalls
    ((List.range 30).map fun n => { secret := fill (UInt8.ofNat (100 + n)), id := UInt64.ofNat n })
    (Config.init ⟨anything.start, fun _ => {}, []⟩)
    [.saveIdentity own, .establishPrekeys, .establishSessionResponder 0 7 handshakeBytes,
      .receiveMessage 0 7 wire]

theorem run_facts : ∃ c, run = some c ∧ Reachable anything c ∧ c.shared.db = Db.after writes := by
  have hdb : run.map (fun c => c.shared.db.entries) = some (Db.after writes).entries := by
    decide +kernel
  obtain ⟨c, hc, hdb⟩ := Option.map_eq_some_iff.mp hdb
  exact ⟨c, hc, ⟨.empty, System.Reach.runCalls .refl (fun _ => rfl) (fun _ _ => trivial) hc⟩,
    Db.entries_inj hdb⟩

/-- The prekeys that are stored. -/
def stored (db : Db symbolicApp.Key) : Option PrekeyRecord :=
  let record : Option PrekeyRecord := db.rows.lookup Key.prekeys
  record

theorem stored_writes : stored (Db.after writes) = some (Core.rotated record fresh) := by decide +kernel

/-- Nothing is drawn when the handshake is recorded. -/
theorem not_draws {opk : UInt64 × StaticSecret} :
    ¬ Draws (Db.after writes.tail.tail) (Db.after writes.tail).rows opk := by
  intro h
  cases h with
  | established identity sk h =>
    have hnone : (Db.after writes.tail).rows.lookup (.provisional 7) = none := by
      rw [h.eq, Rows.lookup_applyAll_ne _ (by simp)]
      rfl
    have hsome : (Db.after writes.tail).rows.lookup (.provisional 7) =
        some (provisionalOf handshake handshakeBytes) := Rows.lookup_apply_self _ _ (some _)
    rw [hnone] at hsome
    cases hsome
  | rotated identity handle wire provisional handshake record used new m h had =>
    have hm := Db.ever_after (Db.ever_now h.session_after)
    simp [writes] at hm

/-- The two prekeys are distinct, and nothing else is drawn. -/
theorem freshPrekeys : FreshPrekeys (Db.after writes) := by
  intro db₀ rows opk hle hdraw record' opk' hever ho
  rcases Db.le_push_cases hle with heq | hle
  · obtain ⟨rfl, rfl⟩ := Db.push_inj heq
    obtain ⟨r, hr, hopk⟩ := hdraw.stored
    have hr' : r = Core.rotated record fresh := Option.some.inj (hr.symm.trans stored_writes)
    obtain rfl : opk = fresh := by
      rw [hr'] at hopk
      exact (Option.some.inj hopk).symm
    have hm := Db.ever_after hever
    simp only [List.flatten_cons, List.flatten_nil, List.append_nil, List.mem_append,
      List.mem_singleton] at hm
    rcases hm with hm | hm | hm <;> cases hm
    obtain rfl : opk' = (2, fill 103) := (Option.some.inj ho).symm
    decide
  rcases Db.le_push_cases hle with heq | hle
  · obtain ⟨rfl, rfl⟩ := Db.push_inj heq
    exact (not_draws hdraw).elim
  -- No prekeys were stored before the first ones.
  have hnone : ∀ {record : PrekeyRecord}, (Db.after [[⟨.identity, some own⟩]] : Db symbolicApp.Key).Ever
      .prekeys record → False := fun he => by
    have hm := Db.ever_after he
    simp at hm
  rcases Db.le_push_cases hle with heq | hle
  · obtain ⟨rfl, rfl⟩ := Db.push_inj heq
    exact (hnone hever).elim
  · exact (hnone (hever.mono ((Db.le_push _ _).trans hle))).elim

end FirstRun

/-- In the run the first message used the one-time prekey 2, and 4 is stored in its place. -/
theorem prekeys_once_firstRun : ∃ c : DeviceConfig symbolicApp, Reachable FirstRun.anything c ∧
    FirstRun.stored c.shared.db = some (Core.rotated FirstRun.record FirstRun.fresh) ∧ UsedOnce c := by
  obtain ⟨c, -, hr, hdb⟩ := FirstRun.run_facts
  exact ⟨c, hr, hdb ▸ FirstRun.stored_writes, prekeys_once hr (hdb ▸ FirstRun.freshPrekeys)⟩

end Network

end Arcium
