import Arcium.Conc.Exclusion
import Arcium.Network.System

/-!
# Publishing and the prekeys

`put_bundle` looks whether prekeys are stored, creates them if not, and publishes their bundle, each
in a lock region of its own. Two such calls that both find none both create prekeys, and the second
replaces the first's (`publishing_replaces`). If calls that can create prekeys do not overlap while
none are stored (`publishing.Apart`), no call but `establish_prekeys` itself ever replaces them
(`prekeys_kept`).
-/

namespace Arcium

open Conc

namespace Network

variable {P : AppPlatform} {scope : Scope P} {call : Call} {start db : Db P.Key} {rows : Rows P.Key}

/-! ## What transactions do to the prekeys -/

/-- A promotion used the one-time prekey of `record`. -/
def Rotates (record : PrekeyRecord) (db : Db P.Key) (rows : Rows P.Key) : Prop :=
  ∃ identity handle wire provisional handshake fresh new m,
    FirstTx identity handle wire provisional handshake record fresh new m db rows ∧
      rows.lookup .prekeys = some (Core.rotated record fresh)

/-- The prekeys that are stored stay, or a promotion rotates them. -/
def KeepsPrekeys (db : Db P.Key) (rows : Rows P.Key) : Prop :=
  ∀ record : PrekeyRecord, db.rows.lookup .prekeys = some record →
    rows.lookup .prekeys = some record ∨ Rotates record db rows

/-- No prekeys are stored. -/
def NoPrekeys (db : Db P.Key) : Prop := db.rows.lookup .prekeys = none

theorem FirstTx.prekeys {identity : Identity} {handle : UInt64} {wire : Bytes}
    {provisional : ProvisionalHandshake} {handshake : InitiatorHandshake} {record : PrekeyRecord}
    {fresh : UInt64 × StaticSecret} {new : SessionRecord P.Key} {m : IncomingMessage}
    (h : FirstTx identity handle wire provisional handshake record fresh new m db rows) :
    rows.lookup .prekeys = db.rows.lookup .prekeys ∨
      db.rows.lookup .prekeys = some record ∧ Rotates record db rows := by
  have hk := h.lookup_app (k := .prekeys) rfl
  cases ho : record.opk with
  | none =>
    rw [consumed, ho] at hk
    exact .inl hk
  | some opk =>
    have hw : (⟨.prekeys, .exactly record, .put (Core.rotated record fresh), rfl⟩ :
        SideWrite P.Key) ∈ (firstContact identity handle provisional handshake record fresh).extra := by
      simp [firstContact, consumed, ho]
    refine .inr ⟨h.promote.required _ hw, _, _, _, _, _, fresh, _, _, h, ?_⟩
    rw [hk, consumed, ho]
    exact Rows.lookup_applyAll_head _ _ (by simp)

theorem Work.prekeys (h : Work start call db rows) : rows.lookup .prekeys = db.rows.lookup .prekeys ∨
    ∃ record : PrekeyRecord, db.rows.lookup .prekeys = some record ∧ Rotates record db rows := by
  -- The other transactions do not write prekeys.
  have kept : ∀ {cs : List (Change P.Key)}, rows = db.rows.applyAll cs →
      (∀ c ∈ cs, Key.prekeys ≠ c.key) → rows.lookup .prekeys = db.rows.lookup .prekeys ∨
        ∃ record : PrekeyRecord, db.rows.lookup .prekeys = some record ∧ Rotates record db rows := by
    intro cs heq hne
    rw [heq, Rows.lookup_applyAll_ne _ hne]
    exact .inl rfl
  cases h with
  | identity identity called h => exact kept h.eq (by simp)
  | contact card called h => exact kept h.eq (by simp)
  | initiate identity handle peerBundle bundle ephemeralSk dhs alice called h =>
    refine kept h.create.eq ?_
    simp [Messenger.createChanges, Core.initiatorSession, Messenger.sideChanges]
  | respond identity handle bytes handshake record called own answers h =>
    cases h with
    | recorded h => exact kept h.eq (by simp)
    | retired peer old named h => exact kept h.eq (by simp)
  | first identity handle wire provisional handshake record fresh new m called h =>
    exact h.prekeys.imp_right fun h => ⟨record, h⟩
  | send our ours handle clientId plaintext peer q old new m why h =>
    exact kept h.eq (by simp [Messenger.sendChanges])
  | receive our ours handle wire peer old new m called h =>
    exact kept h.eq (by simp [Messenger.receiveChanges])
  | ackOut handle id peer called why h => exact kept h.eq (by simp)
  | ackIn handle id peer why h => exact kept h.eq (by simp)
  | abandon handle id peer m contact own why h => exact kept h.eq (by simp)
  | remove our ours handle peer old why h => exact kept h.eq (by simp)
  | chat h =>
    cases h with
    | described peer _ f _ _ eq => exact kept eq (by simp)
    | advanced peer seq state id e e' _ _ _ eq => exact kept eq (by simp)
    | received peer _ m text now _ _ _ eq => exact kept eq (by simp)
    | claimed i peer appId text _ _ eq => exact kept eq (by simp)
    | queued i peer appId text now _ _ _ _ eq => exact kept eq (by simp)

theorem Work.keepsPrekeys (h : Work start call db rows) : KeepsPrekeys db rows := by
  intro record hl
  rcases h.prekeys with hs | ⟨record', hl', hr⟩
  · exact .inl (hs.trans hl)
  · obtain rfl := Option.some.inj (hl.symm.trans hl')
    exact .inr hr

/-- Work neither stores the first prekeys nor removes them. -/
theorem Work.noPrekeys (h : Work start call db rows) :
    rows.lookup .prekeys = none ↔ db.rows.lookup .prekeys = none := by
  rcases h.prekeys with hs | ⟨record, hl, _, _, _, _, _, _, _, _, _, hr⟩
  · rw [hs]
  · rw [hr, hl]
    simp

theorem Step.noPrekeys (h : Step start call db rows) (hn : rows.lookup .prekeys = none) :
    db.rows.lookup .prekeys = none := by
  cases h with
  | work h => exact h.noPrekeys.mp hn
  | prekeys called identity sk opk h =>
    rw [h.eq, Rows.lookup_applyAll_head _ _ (by simp)] at hn
    cases hn

/-! ## Careful programs -/

/-- The environment does not store the first prekeys. -/
def Rely (s s' : Device P.Key Memory) : Prop :=
  s.db.Le s'.db ∧ (NoPrekeys s.db → NoPrekeys s'.db)

/-- A transaction of `call` that keeps the prekeys. -/
def Guards (scope : Scope P) (call : Call) (db : Db P.Key) (rows : Rows P.Key) : Prop :=
  Step scope.start call db rows ∧ KeepsPrekeys db rows

theorem Sound.moves (h : Sound scope db) (hc : scope.calls call) {db' : Db P.Key}
    (hm : Moves (Guards scope call) db db') : Sound scope db' := by
  rcases hm with heq | ⟨rows, hg, heq⟩
  · rw [heq]
    exact h
  · rw [heq]
    exact h.push hc hg.1

/-- In an environment that does not store the first prekeys, `p` keeps the prekeys. -/
def Careful {α : Type} (scope : Scope P) (call : Call) (p : Prog Choice (Device P.Key Memory) α) : Prop :=
  ∀ tr s, Sound scope s.db → Prog.WP Rely (fun s => Sound scope s.db)
    (fun s s' => Moves (Guards scope call) s.db s'.db) (fun _ _ s' => Sound scope s'.db) p tr s

variable {α β : Type}

namespace Careful

theorem ret (a : α) : Careful scope call (.ret a) := fun _ _ hs => hs

theorem bind {p : Prog Choice (Device P.Key Memory) α} {f : α → Prog Choice (Device P.Key Memory) β}
    (h : Careful scope call p) (hf : ∀ a, Careful scope call (f a)) :
    Careful scope call (p.bind f) := fun tr s hs =>
  Prog.WP.bind ((h tr s hs).mono (fun _ _ hg => hg) fun a tr s' hs' => hf a tr s' hs')

/-- Work is careful. -/
theorem of_ends {p : Prog Choice (Device P.Key Memory) α} (hc : scope.calls call)
    (h : ∀ db, Sound scope db → ∃ A, ∀ tr,
      Ends (Sound scope) A (Work scope.start call) (fun _ _ _ => True) p tr db) :
    Careful scope call p := by
  intro tr s hs
  obtain ⟨A, hA⟩ := h s.db hs
  have hw := hA (dbs tr) tr s.mem s.asked rfl
  have hmoves : ∀ s s' : Device P.Key Memory, Acts A (Work scope.start call) s s' →
      Moves (Guards scope call) s.db s'.db := by
    intro s s' ha
    rcases ha.moves with heq | ⟨rows, hwork, heq⟩
    · exact .inl heq
    · exact .inr ⟨rows, ⟨.work hwork, hwork.keepsPrekeys⟩, heq⟩
  have hkept := hw.kept (fun s s' hI ha => ?_) hs
  · exact (hkept.rely fun _ _ h => h.1).mono hmoves fun _ _ _ h => h.2
  · rcases ha.moves with heq | ⟨rows, hwork, heq⟩
    · rw [heq]
      exact hI
    · rw [heq]
      exact hI.push hc (.work hwork)

theorem of_core {p : Core P α} (hc : scope.calls call) (h : ∀ db, Sound scope db →
    Runs (Sound scope) (Asks db) (Work scope.start call) p db) : Careful scope call p.run :=
  of_ends hc fun db hs => ⟨Asks db, fun tr => ((h db hs) tr).mono fun _ _ _ _ => trivial⟩

theorem of_round {x : Round P α} (hc : scope.calls call) (h : ∀ db, Sound scope db →
    Rounds (Sound scope) (Asks db) (Work scope.start call) x db) (report : SyncReport) :
    Careful scope call (x.run.run report) :=
  of_ends hc fun db hs => ⟨Asks db, fun tr t mem asked ht =>
    (h db hs report tr t mem asked ht).mono (fun _ _ hg => hg) fun _ _ _ _ => trivial⟩

theorem op_bind {x : Core P α} {f : α → Core P β} (h : Careful scope call x.run)
    (hf : ∀ a, Careful scope call (f a).run) : Careful scope call (x >>= f).run :=
  h.bind fun r => by
    cases r with
    | ok a => exact hf a
    | error e => exact ret _

theorem round_bind {x : Round P α} {f : α → Round P β}
    (h : ∀ report, Careful scope call (x.run.run report))
    (hf : ∀ a report, Careful scope call ((f a).run.run report)) (report : SyncReport) :
    Careful scope call ((x >>= f).run.run report) :=
  (h report).bind fun r => by
    obtain ⟨r, report⟩ := r
    cases r with
    | ok a => exact hf a report
    | error e => exact ret _

theorem round_core {p : Core P α} (h : Careful scope call p.run) (report : SyncReport) :
    Careful scope call ((Round.core p).run.run report) :=
  h.bind fun _ => ret _

theorem reportOf {x : Round P Unit} (h : ∀ report, Careful scope call (x.run.run report)) :
    Careful scope call (reportOf x) :=
  (h {}).bind fun r => by
    obtain ⟨r, report⟩ := r
    cases r <;> exact ret _

end Careful

/-! ## Publishing -/

/-- A program that writes nothing leaves a store without prekeys as it is. -/
theorem looks_careful {err : Type} {p : Run P.Key Memory err α}
    {Q : Except err α → List (Device P.Key Memory × Device P.Key Memory) → Device P.Key Memory → Prop}
    {tr : List (Device P.Key Memory × Device P.Key Memory)} {s : Device P.Key Memory}
    {A : Db P.Key → Request × Answer → Prop}
    (h : Prog.WP (fun s s' : Device P.Key Memory => s.db.Le s'.db) (fun s => Sound scope s.db)
      (Acts A fun _ _ => False) Q p.run tr s) (hs : Sound scope s.db) (hn : NoPrekeys s.db) :
    Prog.WP Rely (fun s => Sound scope s.db) (fun s s' => Moves (Guards scope call) s.db s'.db)
      (fun r tr s' => Q r tr s' ∧ Sound scope s'.db ∧ NoPrekeys s'.db) p.run tr s := by
  have hsame : ∀ s s' : Device P.Key Memory, Acts A (fun _ _ => False) s s' → s'.db = s.db := by
    intro s s' ha
    rcases ha.moves with heq | ⟨rows, hf, -⟩
    · exact heq
    · exact hf.elim
  generalize p.run = q at h
  induction q generalizing tr s with
  | ret a => exact ⟨h, hs, hn⟩
  | act upd next ih =>
    intro s' hR hI e
    obtain ⟨hg, hnext⟩ := h s' hR.1 hI e
    have heq := hsame _ _ hg
    refine ⟨.inl heq, ih e s' ?_ ?_ hnext⟩
    · rw [heq]
      exact hI
    · rw [heq]
      exact hR.2 hn

/-- The first part of `establish_prekeys`, which writes nothing. -/
theorem newPrekeys_gives {I : Db P.Key → Prop} {A : Db P.Key → Request × Answer → Prop}
    {T : Db P.Key → Rows P.Key → Prop} :
    Meets I A T (Gives fun x db => db.Ever .identity x.1) (do
      let identity ← Core.requireIdentity
      let sk ← draw Choice.secret
      let opk ← Core.newOneTimePrekey
      return (identity, sk, opk) : Core P _) db :=
  requireIdentity_gives.gives_seq fun _ _ _ hid =>
    Meets.gives_seq (V := fun _ _ => True) (.draw fun _ _ _ _ => gives_ok trivial) fun _ _ h₂ _ =>
      newOneTimePrekey_runs.gives_seq fun _ _ h₃ _ => .pure (gives_ok (hid.mono (h₂.trans h₃)))

theorem establishPrekeys_eq : (Core.establishPrekeys : Core P _) = (do
    let identity ← Core.requireIdentity
    let sk ← draw Choice.secret
    let opk ← Core.newOneTimePrekey
    return (identity, sk, opk)) >>= fun x => tx Core.storeErrors fun _ =>
      .ok ((), [⟨.prekeys, some (prekeyRecord P x.1 x.2.1 x.2.2)⟩]) := by
  simp only [Core.establishPrekeys, bind_assoc, pure_bind]
  rfl

/-- A transaction commits what its body decides on, or nothing. -/
theorem txStep_moves {err : Type} {errs : TxErrors err} {T : Db P.Key → Rows P.Key → Prop}
    {body : ((k : Key) → Except StorageError (Row P.Key k)) → Except err (α × List (Change P.Key))}
    {e : Choice} (h : ∀ a cs, body (e.read db.rows) = .ok (a, cs) → T db (db.rows.applyAll cs)) :
    Moves T db (txStep errs body e db).1 := by
  unfold txStep
  cases e.beginFault with
  | some f => exact .inl rfl
  | none =>
    dsimp only
    split
    · exact .inl rfl
    · exact .inl rfl
    next a c cs hb =>
    cases e.writeFault with
    | some f => exact .inl rfl
    | none =>
      dsimp only
      split
      · exact .inr ⟨_, h a _ hb, rfl⟩
      · exact .inr ⟨_, h a _ hb, rfl⟩
      · exact .inl rfl

/-- `establish_prekeys` replaces nothing if none are stored and nobody else stores them. -/
theorem establishPrekeys_careful (hc : scope.calls call) (he : call.EstablishesPrekeys)
    {tr : List (Device P.Key Memory × Device P.Key Memory)} {s : Device P.Key Memory}
    (hs : Sound scope s.db) (hn : NoPrekeys s.db) :
    Prog.WP Rely (fun s => Sound scope s.db) (fun s s' => Moves (Guards scope call) s.db s'.db)
      (fun _ _ s' => Sound scope s'.db) (Core.establishPrekeys : Core P _).run tr s := by
  rw [establishPrekeys_eq]
  refine Op.wp_bind ((looks_careful (A := fun _ _ => True)
    (newPrekeys_gives (dbs tr) tr s.mem s.asked rfl) hs hn).mono (fun _ _ hg => hg) ?_)
  rintro (e | ⟨identity, sk, opk⟩) tr₁ s₁ ⟨hid, hs₁, hn₁⟩
  · exact hs₁
  have hid : s₁.db.Ever .identity identity := hid _ rfl
  intro s₂ hR hs₂ e
  -- When the transaction begins, none are stored still.
  have hn₂ : s₂.db.rows.lookup .prekeys = none := hR.2 hn₁
  have hmoves : Moves (Guards scope call) s₂.db (txStep (α := Unit) Core.storeErrors
      (fun _ => .ok ((), [⟨.prekeys, some (prekeyRecord P identity sk opk)⟩])) e s₂.db).1 :=
    txStep_moves fun _ _ h => by
      cases h
      refine ⟨.prekeys he identity sk opk ⟨hid.mono hR.1, rfl⟩, fun record hl => ?_⟩
      rw [hn₂] at hl
      cases hl
  exact ⟨hmoves, hs₂.moves hc hmoves⟩

theorem putBundle_careful (hc : scope.calls call) (he : call.EstablishesPrekeys) :
    Careful scope call (putBundle : Core P _).run := by
  intro tr s hs
  refine Op.wp_bind (Prog.WP.atomic fun s₁ _ hs₁ e => ⟨.inl rfl, ?_⟩)
  have export_careful := Careful.of_core hc fun db _ =>
    exportBundle_runs (I := Sound scope) (T := Work scope.start call) (asks_free db)
  dsimp only
  split
  · exact export_careful _ _ hs₁
  · next hm =>
    refine Op.wp_bind ((establishPrekeys_careful hc he hs₁ ((e.reads _).missing _ hm)).mono
      (fun _ _ hg => hg) fun r tr s₂ hs₂ => ?_)
    cases r with
    | ok _ => exact export_careful _ _ hs₂
    | error _ => exact hs₂
  · exact hs₁

theorem publishPrekeys_careful (hc : scope.calls call) (he : call.EstablishesPrekeys) :
    Careful scope call (publishPrekeys : Core P _).run :=
  .op_bind (.of_core hc fun db _ => connect_runs (asks_free db)) fun _ => putBundle_careful hc he

/-! ## Rounds -/

theorem syncRound_careful (hc : scope.calls call) (hs : call.Syncs) (i : Nat) (report : SyncReport) :
    Careful scope call ((syncRound i : Round P _).run.run report) := by
  have last : ∀ report, Careful scope call ((do
      let after ← Round.core sessions
      publishPending i after : Round P _).run.run report) :=
    Careful.of_round hc fun db _ => (InRound.core sessions_runs).gives_seq fun after _ _ _ =>
      publishPending_rounds (asks_free db) hs i after
  have scan_careful : ∀ our pass until_ report,
      Careful scope call ((scan i our pass until_ : Round P _).run.run report) :=
    fun our pass until_ => Careful.of_round hc fun db hsound =>
      scan_rounds hsound.started (Db.Le.refl db) hs i our pass until_
  refine Careful.round_bind (Careful.of_round hc fun _ _ => InRound.core sessions_runs)
    (fun before => ?_) report
  refine Careful.round_bind (Careful.of_round hc fun _ _ => settleSessions_rounds hs i before) fun _ => ?_
  refine Careful.round_bind (Careful.of_round hc fun db _ => InRound.core (connect_runs (asks_free db)))
    fun _ => ?_
  refine Careful.round_bind (Careful.round_core (putBundle_careful hc hs.establishesPrekeys)) fun _ => ?_
  refine Careful.round_bind (Careful.of_round hc fun db _ =>
    publishPending_rounds (asks_free db) hs i before) fun _ => ?_
  refine Careful.round_bind (Careful.of_round hc fun _ _ => (InRound.core (Meets.runs ourIdentityPk_gives)))
    fun our => ?_
  refine Careful.round_bind (scan_careful our .handshakes _) fun reached => ?_
  cases reached with
  | some reached => exact Careful.round_bind (scan_careful our .messages reached) fun _ => last
  | none => exact last

theorem syncInto_careful (hc : scope.calls call) (hs : call.Syncs) (i : Nat) (report : SyncReport) :
    Careful scope call ((Chat.syncInto i : Round P _).run.run report) := by
  refine Careful.round_bind (Careful.round_core ?_) (fun _ => Careful.of_round hc fun _ _ => tally_rounds _)
    report
  exact (Careful.reportOf (syncRound_careful hc hs i)).bind fun _ => .ret _

theorem syncConversationsRound_careful (hc : scope.calls call) (i : Nat)
    (hcall : call = .syncConversations i) (report : SyncReport) :
    Careful scope call ((Chat.syncConversationsRound i : Round P _).run.run report) := by
  have hs : call.Syncs := by rw [hcall]; trivial
  have hr : ∀ peer, call.Refreshes peer := fun _ => by rw [hcall]; trivial
  have hst : ∀ peer, call.Starts peer := fun _ => by rw [hcall]; trivial
  have hI : ∀ db, Sound scope db → Filed db := fun _ h => filed h.valid
  have refresh_careful : ∀ peers report,
      Careful scope call ((Chat.refreshAll i peers : Round P _).run.run report) :=
    fun peers => Careful.of_round hc fun _ _ => refreshAll_rounds hr i peers
  refine Careful.round_bind (Careful.of_round hc fun _ _ => InRound.core contacts_runs)
    (fun peers => ?_) report
  refine Careful.round_bind (refresh_careful peers) fun _ => ?_
  refine Careful.round_bind (syncInto_careful hc hs i) fun _ => ?_
  refine Careful.round_bind (Careful.of_round hc fun db _ =>
    startAll_rounds hI (asks_free db) i peers hr hst hs.describes) fun started => ?_
  refine Careful.round_bind (refresh_careful peers) fun committed => ?_
  split
  · exact Careful.round_bind (syncInto_careful hc hs i) fun _ =>
      Careful.round_bind (refresh_careful peers) fun _ => fun _ => .ret _
  · exact fun _ => .ret _

/-! ## Runs -/

/-- In an environment that does not store the first prekeys, a call keeps the prekeys, unless it is
`establish_prekeys` itself. -/
theorem body_careful (hc : scope.calls call) (he : call.EstablishesPrekeys) :
    call = .establishPrekeys ∨ Careful scope call (body (P := P) call) := by
  cases call with
  | establishPrekeys => exact .inl rfl
  | publishPrekeys => exact .inr ((publishPrekeys_careful hc he).bind fun _ => .ret _)
  | sync i =>
    exact .inr ((Careful.reportOf (syncRound_careful hc he i)).bind fun _ => .ret _)
  | syncConversations i =>
    exact .inr ((Careful.reportOf (syncConversationsRound_careful hc i rfl)).bind fun _ => .ret _)
  | _ => exact he.elim

/-- The calls that can create prekeys, and what they do if they do not overlap while there are
none. -/
def publishing (scope : Scope P) : Exclusion (contract scope) where
  excl := Call.EstablishesPrekeys
  fresh s := NoPrekeys s.db
  own call s s' := call = .establishPrekeys ∨ Moves (Guards scope call) s.db s'.db
  used call s₀ s s' _ _ hG hf := by
    rcases hG.moves with heq | ⟨rows, ht, heq⟩
    · exact heq ▸ hf
    · rw [heq] at hf
      exact ht.noPrekeys hf
  others call s₀ s s' _ he _ hG hf := by
    rcases hG.moves with heq | ⟨rows, ht, heq⟩
    · exact heq.symm ▸ hf
    · rw [heq]
      cases ht with
      | work h => exact h.noPrekeys.mpr hf
      | prekeys called => exact absurd called he
  env s s' _ hs := by
    obtain ⟨i, rfl⟩ := hs
    exact Iff.rfl
  triple call s hc he hI := by
    rcases body_careful (P := P) hc he with rfl | h
    · exact (Prog.WP.rely ((contract scope).triple _ s hc hI) fun _ _ h => h.1).mono
        (fun _ _ _ => .inl rfl) fun _ _ _ _ => trivial
    · exact (h [] s hI).mono (fun _ _ hm => .inr hm) fun _ _ _ _ => trivial

/-- A step that may replace the prekeys: an action of `establish_prekeys`, or a promotion that
rotates them. -/
def Replaces (record : PrekeyRecord) (c c' : DeviceConfig P) : Prop :=
  Acted c c' .establishPrekeys ∨ Rotates record c.shared.db c'.shared.db.rows

/-- What a handshake against `bundle` says of its prekeys. -/
structure Against (P : AppPlatform) (bundle : PrekeyBundle) (handshake : InitiatorHandshake) : Prop where
  signed : handshake.spkId = spkId P bundle.signedPrekeyPk
  oneTime : handshake.opkId = bundle.oneTimePrekey.map Prod.fst

/-- A record answers the handshakes against its bundle. -/
theorem Against.answerable {identity : Identity} {record : PrekeyRecord} {handshake : InitiatorHandshake}
    (h : Against P (Core.bundleOf P identity record) handshake) :
    Core.checkAnswerable P record handshake = .ok () := by
  obtain ⟨hs, ho⟩ := h
  unfold Core.checkAnswerable
  rw [hs, ho]
  cases hr : record.opk <;> simp [Core.bundleOf, hr]

/-- Only bundles of records that are or were stored are published. -/
def Publishes (db : Db P.Key) (x : Request × Answer) : Prop :=
  ∀ owner bytes, x.1 = .putBundle owner bytes → ∃ identity record, db.Ever .identity identity ∧
    db.Ever .prekeys record ∧ bytes = packPrekeyBundle (Core.bundleOf P identity record)

theorem exportPrekeyBundle_gives {I : Db P.Key → Prop} {A : Db P.Key → Request × Answer → Prop}
    {T : Db P.Key → Rows P.Key → Prop} :
    Meets I A T (Gives fun bytes db => ∃ identity record, db.Ever .identity identity ∧
      db.Ever .prekeys record ∧ bytes = packPrekeyBundle (Core.bundleOf P identity record))
      (Core.exportPrekeyBundle : Core P _) db :=
  requireIdentity_gives.gives_seq fun identity _ _ hid => (get_gives _).gives_seq fun record _ hle hr =>
    .pure (gives_ok ⟨identity, record, hid.mono hle, hr, rfl⟩)

theorem putBundle_publishes {I : Db P.Key → Prop} (hc : call.EstablishesPrekeys) :
    Runs I Publishes (Step start call) (putBundle : Core P _) db := by
  have publish : ∀ db', Runs I Publishes (Step start call) (do
      let bundle ← Core.exportPrekeyBundle
      let our ← Core.ourIdentityPk
      Network.request (.putBundle our bundle) fun _ => () : Core P _) db' := by
    refine fun db' => exportPrekeyBundle_gives.gives_seq fun bundle db₁ _ hb => ?_
    refine ourIdentityPk_gives.gives_seq fun our db₂ h₂ _ => request_runs fun db₃ _ h₃ => ?_
    obtain ⟨identity, record, hi, hr, rfl⟩ := hb
    intro owner bytes heq
    cases heq
    exact ⟨identity, record, hi.mono (h₂.trans h₃), hr.mono (h₂.trans h₃), rfl⟩
  refine Meets.gives_seq (V := fun _ _ => True) (.find (fun _ _ _ => gives_ok trivial)
    fun _ _ _ _ _ => gives_error) fun o _ _ _ => ?_
  dsimp only
  split
  · exact (establishPrekeys_runs hc).gives_seq fun _ _ _ _ => publish _
  · exact publish _

/-- What holds of the prekeys in a configuration `c` of a run. -/
structure PublishingKeeps (scope : Scope P) (c : DeviceConfig P) : Prop where
  /-- No step replaces the stored record, unless it may. -/
  step : ∀ c', (system P scope.calls).Step c c' → ∀ record : PrekeyRecord,
    c.shared.db.rows.lookup .prekeys = some record →
      c'.shared.db.rows.lookup .prekeys = some record ∨ Replaces record c c'
  /-- Only bundles of stored records are published, -/
  published : ∀ call : Call, call.EstablishesPrekeys →
    Runs (Sound scope) Publishes (Step scope.start call) (putBundle : Core P _) c.shared.db
  /-- and they stay answerable as long as no step may replace the record. -/
  answerable : ∀ (record : PrekeyRecord) c', c.shared.db.rows.lookup .prekeys = some record →
    (system P scope.calls).RunsBy
      (fun a b => (publishing scope).Apart a b ∧ ¬ Replaces record a b) c c' →
      c'.shared.db.rows.lookup .prekeys = some record ∧ ∀ identity handshake,
        Against P (Core.bundleOf P identity record) handshake →
          Core.checkAnswerable P record handshake = .ok ()

/-- The configurations of the runs in which calls that can create prekeys do not overlap while there
are none. -/
structure ReachableApart (scope : Scope P) (c : DeviceConfig P) : Prop where
  started : scope.start.Valid (Trans scope)
  run : (system P scope.calls).RunsBy (publishing scope).Apart
    (Config.init ⟨scope.start, fun _ => {}, []⟩) c

theorem ReachableApart.step {c c' : DeviceConfig P} (h : ReachableApart scope c)
    (hs : (system P scope.calls).Step c c') {record : PrekeyRecord}
    (hl : c.shared.db.rows.lookup .prekeys = some record) :
    c'.shared.db.rows.lookup .prekeys = some record ∨ Replaces record c c' := by
  have hI : (contract scope).I (Device.mk scope.start (fun _ => {}) []) := ⟨h.started, Db.Le.refl _⟩
  rcases Exclusion.step_own hI h.run hs with heq | henv | ⟨call, hacted, hc, ⟨s, hG⟩, hown⟩
  · exact .inl (heq ▸ hl)
  · obtain ⟨i, heq⟩ := henv
    rw [heq]
    exact .inl hl
  have keeps : KeepsPrekeys c.shared.db c'.shared.db.rows ∨ call = .establishPrekeys := by
    by_cases he : call.EstablishesPrekeys
    · rcases hown he with hcall | heq | ⟨rows, hg, heq⟩
      · exact .inr hcall
      · exact .inl fun _ hl => .inl (heq ▸ hl)
      · rw [heq]
        exact .inl hg.2
    · rcases hG.moves with heq | ⟨rows, ht, heq⟩
      · exact .inl fun _ hl => .inl (heq ▸ hl)
      · rw [heq]
        cases ht with
        | work h => exact .inl h.keepsPrekeys
        | prekeys called => exact absurd called he
  rcases keeps with hk | rfl
  · exact (hk record hl).imp_right .inr
  · exact .inr (.inl hacted)

/-- **Publishing keeps the prekeys**, in the runs in which calls that can create them do not overlap
while there are none. -/
theorem prekeys_kept {c : DeviceConfig P} (h : ReachableApart scope c) : PublishingKeeps scope c where
  step c' hs record hl := h.step hs hl
  published call hc := putBundle_publishes hc
  answerable record c' hl hr := by
    suffices c'.shared.db.rows.lookup .prekeys = some record ∧ ReachableApart scope c' from
      ⟨this.1, fun _ _ ha => ha.answerable⟩
    induction hr with
    | refl => exact ⟨hl, h⟩
    | step _ hs hok ih =>
      exact ⟨(ih.2.step hs ih.1).resolve_right hok.2, ih.2.started, .step ih.2.run hs hok.1⟩

/-! ## A run that keeps them, and one that does not -/

namespace TwoPublish

def identity : Identity := ⟨fill 1, fill 2⟩

/-- Prekeys are created only by publishing. -/
def ours : Scope symbolicApp where
  calls call := call = .saveIdentity identity ∨ call = .publishPrekeys

/-- Thread `i` takes `n` actions, and draws `secret`. -/
def go (i n : Nat) (secret : StaticSecret) : List (System.Turn Choice Call) :=
  List.replicate n (.advance i { secret })

/-- Thread 1 finds no prekeys; thread 2 creates some; thread 1 is about to. -/
def schedule : List (System.Turn Choice Call) :=
  .invoke 0 (.saveIdentity identity) :: go 0 2 default ++
  .invoke 1 .publishPrekeys :: go 1 2 default ++
  .invoke 2 .publishPrekeys :: go 2 7 (fill 3) ++ go 1 4 (fill 4)

def before : Option (DeviceConfig symbolicApp) :=
  (system symbolicApp ours.calls).play (Config.init ⟨ours.start, fun _ => {}, []⟩) schedule

def after : Option (DeviceConfig symbolicApp) :=
  before.bind fun c => (system symbolicApp ours.calls).turn c (.advance 1 {})

/-- The secret of the signed prekey. -/
def signed (c : DeviceConfig symbolicApp) : Option StaticSecret :=
  (c.shared.db.rows.lookup Key.prekeys : Option PrekeyRecord).map PrekeyRecord.signedPrekeySk

theorem signed_before : before.map signed = some (some (fill 3)) := by decide +kernel

theorem signed_after : after.map signed = some (some (fill 4)) := by decide +kernel

/-- Thread 1 is about to publish the prekeys that it created. -/
def created : Option (DeviceConfig symbolicApp) :=
  ((system symbolicApp ours.calls).runCalls (List.replicate 12 {})
    (Config.init ⟨ours.start, fun _ => {}, []⟩) [.saveIdentity identity]).bind fun c =>
    ((system symbolicApp ours.calls).turn c (.invoke 1 .publishPrekeys)).bind fun c =>
      (system symbolicApp ours.calls).play c (go 1 7 (fill 3))

/-- Thread 2 finds them and publishes them; then thread 1 does. -/
def published (c : DeviceConfig symbolicApp) : Option (DeviceConfig symbolicApp) :=
  ((system symbolicApp ours.calls).turn c (.invoke 2 .publishPrekeys)).bind fun c =>
    (system symbolicApp ours.calls).play c (go 2 7 (fill 4) ++ go 1 5 (fill 5))

theorem signed_created : created.map signed = some (some (fill 3)) := by decide +kernel

theorem signed_published : (created.bind published).map (fun c => (signed c, c.done.length)) =
    some (some (fill 3), 3) := by decide +kernel

end TwoPublish

/-- Two calls of `publish_prekeys` that overlap, of which the second starts once the first has stored
its prekeys: both publish these. -/
theorem prekeys_kept_overlapping : ∃ c : DeviceConfig symbolicApp, ReachableApart TwoPublish.ours c ∧
    TwoPublish.signed c = some (fill 3) ∧ c.done.length = 3 ∧ PublishingKeeps TwoPublish.ours c := by
  obtain ⟨c₂, hcreated, hsigned⟩ := Option.map_eq_some_iff.mp TwoPublish.signed_created
  obtain ⟨c, hpublished, hboth⟩ := Option.map_eq_some_iff.mp TwoPublish.signed_published
  rw [hcreated, Option.bind_some] at hpublished
  obtain ⟨c₀, h₀, h⟩ := Option.bind_eq_some_iff.mp hcreated
  obtain ⟨c₁, h₁, h₂⟩ := Option.bind_eq_some_iff.mp h
  obtain ⟨c₃, h₃, h₄⟩ := Option.bind_eq_some_iff.mp hpublished
  have hpublish : ∀ i j call, System.Turn.invoke (ε := Choice) i .publishPrekeys = .invoke j call →
      TwoPublish.ours.calls call := by
    rintro i j call ⟨⟩
    exact .inr rfl
  have r₀ := System.RunsBy.runCalls (fun _ _ => Exclusion.apart_quiet (publishing TwoPublish.ours))
    (fun _ _ => Exclusion.apart_idle _) .refl (fun _ => rfl) (fun call hcall => by
      exact .inl (List.mem_singleton.mp hcall)) h₀
  have hidle : ∀ i, c₀.threads i = none := congrFun (System.runCalls_threads _ h₀)
  have r₁ := r₀.step (.turn (hpublish 1) h₁) (Exclusion.apart_idle _ hidle)
  have r₂ := r₁.advances (fun _ _ => Exclusion.apart_quiet _) (by simp [TwoPublish.go]) h₂
  have r₃ := r₂.step (.turn (hpublish 2) h₃) fun _ _ _ _ _ hfresh => by
    rw [TwoPublish.signed, show c₂.shared.db.rows.lookup .prekeys = none from hfresh] at hsigned
    cases hsigned
  have r₄ := r₃.advances (fun _ _ => Exclusion.apart_quiet _) (by simp [TwoPublish.go]) h₄
  have hr : ReachableApart TwoPublish.ours c := ⟨.empty, r₄⟩
  exact ⟨c, hr, (Prod.mk.inj hboth).1, (Prod.mk.inj hboth).2, prekeys_kept hr⟩

/-- Two calls of `publish_prekeys` that both find no prekeys: the second replaces those of the
first. -/
theorem publishing_replaces : ∃ c : DeviceConfig symbolicApp, Reachable TwoPublish.ours c ∧
    ¬ PublishingKeeps TwoPublish.ours c := by
  obtain ⟨c, hc, hbefore⟩ := Option.map_eq_some_iff.mp TwoPublish.signed_before
  obtain ⟨c', hc', hafter⟩ := Option.map_eq_some_iff.mp TwoPublish.signed_after
  rw [TwoPublish.after, hc, Option.bind_some] at hc'
  have hr : Reachable TwoPublish.ours c := by
    refine ⟨.empty, System.Reach.play .refl (fun i call hcall => ?_) hc⟩
    simp only [TwoPublish.schedule, TwoPublish.go, List.replicate, List.cons_append,
      List.nil_append, List.mem_cons, List.not_mem_nil, System.Turn.invoke.injEq, reduceCtorEq,
      false_or, or_false] at hcall
    rcases hcall with ⟨-, rfl⟩ | ⟨-, rfl⟩ | ⟨-, rfl⟩
    · exact .inl rfl
    · exact .inr rfl
    · exact .inr rfl
  have hstep := System.Step.turn (by rintro i call ⟨⟩) hc'
  refine ⟨c, hr, fun h => ?_⟩
  obtain ⟨record, hl, hsk⟩ := Option.map_eq_some_iff.mp hbefore
  obtain ⟨record', hl', hsk'⟩ := Option.map_eq_some_iff.mp hafter
  have hne : record'.signedPrekeySk ≠ record.signedPrekeySk := by
    rw [hsk, hsk']
    decide
  rcases h.step c' hstep record hl with hkept | ⟨i, t, t', ht, -, hcall, -⟩ | ⟨_, _, _, _, _, fresh, _, _, -, hrot⟩
  · obtain rfl := Option.some.inj (hl'.symm.trans hkept)
    exact hne rfl
  · -- Nobody called `establish_prekeys`.
    rcases (hr.holds.running i t ht).1 with heq | heq
    · rw [hcall] at heq
      cases heq
    · rw [hcall] at heq
      cases heq
  · -- A rotation keeps the signed prekey.
    obtain rfl := Option.some.inj (hl'.symm.trans hrot)
    exact hne rfl

end Network

end Arcium
