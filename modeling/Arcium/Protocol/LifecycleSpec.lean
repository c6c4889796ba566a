import Arcium.Protocol.MessengerSpec

/-!
# The triples of creation, promotion, retirement and removal

The operations that create or end a session, and those that only read: which transactions each can
commit (`Tx`), and what a released message says about the database.
-/

namespace Arcium

open Conc

/-! ## Refusals -/

section Refusal

variable {P : Platform} {T : Db P.Key → Rows P.Key → Prop} {tr : Trace P.Key} {db : Db P.Key}

/-- An error other than the one of a commit of unknown outcome is a refusal: nothing was written
from `tr` on. -/
def RefusedQuiet {α : Type} (tr : Trace P.Key) (r : Except MessagingError α) (tr' : Trace P.Key) :
    Prop :=
  ∀ e, r = .error e → (∀ f, e ≠ .repeatableOutcomeUnknown f) → Quiet tr → Quiet tr'

theorem Looked.refusedQuiet {α : Type} {tr' : Trace P.Key} {db' : Db P.Key}
    {r : Except MessagingError α} (h : Looked tr db tr' db') : RefusedQuiet tr r tr' :=
  fun _ _ _ => h.quiet

/-- A transaction that ends an operation which only looked before. -/
theorem Once.refusedQuiet {α : Type} {D : Except MessagingError α → Prop} {tr₁ tr' : Trace P.Key}
    {db₁ db' : Db P.Key} {r : Except MessagingError α} (hl : Looked tr db tr₁ db₁)
    (hD : ∀ r, D r → ∃ a, r = .ok a)
    (h : Once T D (∃ f, · = .error (Messenger.repeatable.onCommit f)) (fun _ => True) tr₁ db₁ r tr' db') :
    RefusedQuiet tr r tr' := by
  intro e he hne hq
  cases h with
  | written le step hr =>
    rcases hr with hr | ⟨f, hr⟩
    · obtain ⟨a, ha⟩ := hD _ hr
      cases ha.symm.trans he
    · cases hr.symm.trans he
      exact absurd rfl (hne f)
  | failed looked hr => exact looked.quiet (hl.quiet hq)

end Refusal

namespace Messenger

variable {P : Platform} {our : Bytes32} {I : Db P.Key → Prop}
  {A : Db P.Key → Request × Answer → Prop} {T : Db P.Key → Rows P.Key → Prop}
  {tr : Trace P.Key} {db : Db P.Key}

/-! ## Creation -/

theorem classifyTaken_sat (handle : UInt64) (peer : Peer) :
    Sat I A T (LookPost tr db fun _ _ => True) (classifyTaken handle peer) tr db := by
  refine Sat.bind (Sat.find (fun db₁ hle _ => ?_) fun db₁ hle _ f _ => ⟨.step hle, trivial⟩)
  cases db₁.rows.lookup (.handle handle) with
  | some p => exact Sat.pure ⟨.step hle, trivial⟩
  | none => exact Sat.pure ⟨.step hle, trivial⟩

/-- What `create_session` writes beside the session record, `extra` aside. -/
theorem createSide_ok {handle : UInt64} {peer : Peer} {initial : Option Bytes}
    {side : List (SideWrite P.Key)} (h : createSide handle peer initial = .ok side) :
    sideChanges side = ⟨.handle handle, some peer⟩ ::
        initial.toList.map (fun b => ⟨.handshake peer, some b⟩) ∧
      ∀ rows : Rows P.Key, (∀ w ∈ side, w.toWrite.expect.Holds P rows) →
        rows.lookup (.handle handle) = none ∧
          (initial.isSome → rows.lookup (.handshake peer) = none) := by
  cases initial with
  | none =>
    obtain rfl := Except.ok.inj h
    refine ⟨rfl, fun rows hw => ⟨hw _ List.mem_cons_self, nofun⟩⟩
  | some b =>
    obtain rfl := Except.ok.inj h
    refine ⟨rfl, fun rows hw => ⟨hw _ List.mem_cons_self, fun _ => ?_⟩⟩
    exact hw _ (List.mem_cons_of_mem _ List.mem_cons_self)

theorem createTx_of_batch {new : NewSession P.Key} {side : List (SideWrite P.Key)}
    {record : SessionRecord P.Key} {db₁ : Db P.Key} (hx : AppOnly new.extra)
    (hside : createSide new.handle new.session.peerIdentityPk new.initialOutbound = .ok side)
    (henc : encodeSessionCheckpoint new.session new.role our 0 = .ok record)
    (hb : BatchHolds new.session.peerIdentityPk .absent (side ++ new.extra) db₁) :
    CreateTx our new db₁
      (db₁.rows.applyAll (batchChanges new.session.peerIdentityPk record (side ++ new.extra))) := by
  obtain ⟨rfl, hbound⟩ := encodeParts_ok henc
  obtain ⟨hch, hholds⟩ := createSide_ok hside
  obtain ⟨h1, h2⟩ := hholds db₁.rows fun w hw => hb.side w (List.mem_append_left _ hw)
  exact
    { bound := hbound
      noSession := hb.session
      noHandle := h1
      noHandshake := h2
      extra := hx
      eq := by
        rw [batchChanges, List.filterMap_append]
        show db₁.rows.applyAll (_ :: (sideChanges side ++ sideChanges new.extra)) = _
        rw [hch]
        rfl }

theorem createSession_sat (i : Nat) {new : NewSession P.Key} (hx : AppOnly new.extra) :
    Sat I A (CreateTx our new) (fun _ _ _ => True) (createSession i our new) tr db := by
  refine lift_sat (fun side hside => ?_) fun _ _ => trivial
  refine Sat.attempt_seq (DurableSession.createWith_sat fun record db₁ henc _ _ hb =>
    createTx_of_batch hx hside henc hb) fun r tr₁ db₁ _ => ?_
  have hc : Sat I A (CreateTx our new) (fun _ _ _ => True) (do
      throw (← classifyTaken new.handle new.session.peerIdentityPk) : Do P Unit) tr₁ db₁ :=
    Sat.seq (classifyTaken_sat _ _) (fun _ _ _ _ => trivial) fun _ _ _ _ => Sat.throw trivial
  match r with
  | .ok _ => exact Sat.remember fun _ _ _ => trivial
  | .error .alreadyExists => exact hc
  | .error (.sideConflict 0 _) => exact hc
  | .error (.sideConflict (index + 1) conflict) =>
    dsimp only
    split
    · exact Sat.throw trivial
    · exact Sat.throw trivial
  | .error (.outcomeUnknown f) => exact markUnresolved_sat _ _ _ _ fun _ _ => trivial
  | .error (.invalid e) => exact Sat.throw trivial
  | .error (.store e) => exact Sat.throw trivial
  | .error (.notCommitted e) => exact Sat.throw trivial
  | .error (.sideWrite e) => exact Sat.throw trivial
  | .error .staleTransition => exact Sat.throw trivial

/-! ## Promotion -/

/-- What a first message writes beside the session record, `extra` aside. -/
theorem firstSide_ok {handle : UInt64} {peer : Peer} {provisional : ProvisionalHandshake}
    {m : IncomingMessage} {side : List (SideWrite P.Key)}
    (h : firstSide handle peer provisional m = .ok side) :
    sideChanges side = [⟨.handle handle, some peer⟩, ⟨.provisional handle, none⟩,
        ⟨.inbox peer m.messageId, some m⟩] ∧
      ∀ rows : Rows P.Key, (∀ w ∈ side, w.toWrite.expect.Holds P rows) →
        rows.lookup (.handle handle) = none ∧
          rows.lookup (.provisional handle) = some provisional ∧
          rows.lookup (.inbox peer m.messageId) = none ∧
          rows.lookup (.seen peer m.messageId) = none := by
  obtain rfl := Except.ok.inj h
  refine ⟨rfl, fun rows hw => ?_⟩
  simp only [List.mem_cons, List.not_mem_nil, or_false, forall_eq_or_imp, forall_eq] at hw
  exact hw

/-- How the promotion of a first message ends. -/
inductive PromotePost (our : Bytes32) (first : FirstContact P.Key) (wire : Bytes)
    (tr : Trace P.Key) (db : Db P.Key) (r : Except MessagingError (Option Received))
    (tr' : Trace P.Key) (db' : Db P.Key) : Prop
  | promoted (db₁ : Db P.Key) (rows : Rows P.Key) (new : SessionRecord P.Key) (m : IncomingMessage)
      (le : db.Le db₁) (step : PromoteTx our first wire db₁ new m rows)
      (le' : (db₁.push rows).Le db') (hr : r = .ok (some (.accepted m)) ∨ ∃ e, r = .error e)
  | taken (looked : Looked tr db tr' db') (hr : r = .ok none)
  | refused (looked : Looked tr db tr' db') (e : MessagingError) (hr : r = .error e)

theorem candidate_ok {session : Session P.Key} {candidate : ProvisionalSession P.Key}
    (h : ProvisionalSession.new P session .responder our = .ok candidate) :
    ∃ record, encodeSessionCheckpoint session .responder our 0 = .ok record ∧
      candidate = ⟨DurableSession.new P session .responder our 0 record⟩ := by
  simp only [ProvisionalSession.new, bind, Except.bind, pure, Except.pure] at h
  split at h
  · cases h
  · next record henc => exact ⟨record, henc, (Except.ok.inj h).symm⟩

theorem required_of_holds {w : SideWrite P.Key} {rows : Rows P.Key}
    (h : w.toWrite.expect.Holds P rows) : Required w rows := by
  obtain ⟨key, expect, action, hs⟩ := w
  cases expect with
  | absent => exact h
  | exactly want => exact h

theorem promoteTx_of_batch {first : FirstContact P.Key} {wire : Bytes} {header : Header}
    {ciphertext : Bytes} {fresh : StaticSecret} {record : SessionRecord P.Key}
    {staged : StagedTransition P.Key Bytes} {m : IncomingMessage} {side : List (SideWrite P.Key)}
    {db₁ : Db P.Key} (hx : AppOnly first.extra)
    (hnames : first.provisional.peerIdentityPk = first.session.peerIdentityPk)
    (hw : splitWire wire = .ok (header, ciphertext))
    (henc : encodeSessionCheckpoint first.session .responder our 0 = .ok record)
    (hst : (DurableSession.new P first.session .responder our 0 record).stageDecrypt P header
      ciphertext fresh = .ok staged)
    (hm : m = { messageId := messageId P wire, generation := staged.generation
                plaintext := staged.output })
    (hside : firstSide first.handle first.session.peerIdentityPk first.provisional m = .ok side)
    (hb : BatchHolds first.session.peerIdentityPk .absent (side ++ first.extra) db₁) :
    PromoteTx our first wire db₁ staged.record m (db₁.rows.applyAll
      (batchChanges first.session.peerIdentityPk staged.record (side ++ first.extra))) := by
  obtain ⟨rfl, hcand⟩ := encodeParts_ok henc
  obtain ⟨hroom, hgen, -, hop, hrec, hbound⟩ := DurableSession.stage_ok hst
  obtain ⟨hch, hholds⟩ := firstSide_ok hside
  obtain ⟨h1, h2, h3, h4⟩ := hholds db₁.rows fun w hw => hb.side w (List.mem_append_left _ hw)
  exact
    { candidate := hcand
      follows :=
        { room := hroom
          eq := by rw [hrec]; rfl
          bound := hbound }
      decrypts := ⟨fresh, header, ciphertext, hw, by rw [hrec, hm]; exact hop⟩
      message := by rw [hm, hrec]; simp [hgen]
      noSession := hb.session
      noHandle := h1
      provisional := h2
      names := hnames
      noInbox := h3
      noSeen := h4
      extra := hx
      required := fun w hw => required_of_holds (hb.side w (List.mem_append_right _ hw))
      eq := by
        rw [batchChanges, List.filterMap_append]
        show db₁.rows.applyAll (_ :: (sideChanges side ++ sideChanges first.extra)) = _
        rw [hch]
        rfl }

theorem checkProvisional_ok {p p' : ProvisionalHandshake} (h : checkProvisional p = .ok p') :
    p' = p := by
  unfold checkProvisional at h
  split at h
  · cases h
  · exact (Except.ok.inj h).symm

/-- A first message whose place is taken: by a session of its own peer, or not. -/
theorem taken_sat {first : FirstContact P.Key} {wire : Bytes} {tr₁ : Trace P.Key}
    {db₁ : Db P.Key} (hl : Looked tr db tr₁ db₁) :
    Sat I A T (PromotePost our first wire tr db)
      (takenFirst first.handle first.session.peerIdentityPk) tr₁ db₁ := by
  refine Sat.seq (classifyTaken_sat _ _) (fun e _ _ h => .refused (hl.trans h.1) e rfl)
    fun e tr₂ db₂ h₂ => ?_
  have hl₂ := hl.trans h₂.1
  split
  · refine Sat.seq (peerOf_sat _) (fun e _ _ h => .refused (hl₂.trans h.1) e rfl)
      fun p tr₃ db₃ h₃ => ?_
    split
    · exact Sat.pure (.taken (hl₂.trans h₃.1) rfl)
    · exact Sat.throw (.refused (hl₂.trans h₃.1) _ rfl)
  · exact Sat.throw (.refused hl₂ _ rfl)

theorem promoteFirst_sat (i : Nat) {first : FirstContact P.Key} {wire : Bytes}
    (hx : AppOnly first.extra) :
    Sat I A (fun db rows => (∃ new m, PromoteTx our first wire db new m rows) ∨
        ∃ peer old new m, ReceiveTx our first.handle wire db peer old new m rows)
      (PromotePost our first wire tr db) (promoteFirst i our first wire) tr db := by
  refine Sat.seq (requireResolved_sat i first.handle) (fun e _ _ h => .refused h.1 e rfl)
    fun _ tr₁ db₁ h₁ => ?_
  obtain ⟨hl₁, -⟩ := h₁
  dsimp only
  split
  · exact Sat.bind (Sat.throw (.refused hl₁ _ rfl))
  · next hnames =>
    have hnames := not_not.mp hnames
    refine lift_sat (fun hc hw => ?_) fun e _ => .refused hl₁ _ rfl
    refine lift_sat (fun candidate hcand => ?_) fun e _ => .refused hl₁ _ rfl
    refine Sat.bind (Sat.draw fun db₂ hle₂ _ fresh => ?_)
    have hl₂ : Looked tr db ((db₂, db₂) :: tr₁) db₂ := hl₁.trans (.step hle₂)
    refine lift_sat (fun staged hst => ?_) fun e _ => .refused hl₂ _ rfl
    refine lift_sat (fun provisional hp => ?_) fun e _ => .refused hl₂ _ rfl
    obtain rfl := checkProvisional_ok hp
    refine lift_sat (fun side hside => ?_) fun e he => nomatch he
    obtain ⟨record, henc, rfl⟩ := candidate_ok hcand
    refine Sat.attempt_seq (Sat.weaken (ProvisionalSession.promoteWith_sat
      (T := fun db rows => PromoteTx our first wire db staged.record
        { messageId := messageId P wire, generation := staged.generation
          plaintext := staged.output } rows)
      fun db₃ _ _ hb => promoteTx_of_batch hx hnames hw henc hst rfl hside hb)
      fun db rows h => .inl ⟨_, _, h⟩) fun r tr₃ db₃ h => ?_
    cases h with
    | written le step hr =>
      rcases hr with ⟨s', rfl⟩ | ⟨f, rfl⟩
      · exact Sat.pure (.promoted _ _ _ _ (hl₂.le.trans le) step (Db.Le.refl _) (.inl rfl))
      · exact markUnresolved_sat _ _ _ _ fun db₄ hle₄ =>
          .promoted _ _ _ _ (hl₂.le.trans le) step hle₄ (.inr ⟨_, rfl⟩)
    | failed hl₃ hr =>
      obtain ⟨e, rfl⟩ := hr
      have hl := hl₂.trans hl₃
      match e with
      | .alreadyExists => exact taken_sat hl
      | .sideConflict 0 _ => exact taken_sat hl
      | .sideConflict (index + 1) conflict =>
        dsimp only
        split
        · exact Sat.throw (.refused hl _ rfl)
        · exact Sat.throw (.refused hl _ rfl)
      | .outcomeUnknown f =>
        exact markUnresolved_sat _ _ _ _ fun db₄ hle₄ => .refused (hl.trans (.step hle₄)) _ rfl
      | .invalid e => exact Sat.throw (.refused hl _ rfl)
      | .store e => exact Sat.throw (.refused hl _ rfl)
      | .notCommitted e => exact Sat.throw (.refused hl _ rfl)
      | .sideWrite e => exact Sat.throw (.refused hl _ rfl)
      | .staleTransition => exact Sat.throw (.refused hl _ rfl)

/-! ## Retirement and removal -/

theorem txRequire_ok {rows : Rows P.Key} {read : (k : Key) → Except StorageError (Row P.Key k)}
    (hr : Reads rows read) {k : Key} {same : Row P.Key k → Bool}
    (h : txRequire read k same = .ok ()) : ∃ v, rows.lookup k = some v ∧ same v = true := by
  unfold txRequire at h
  split at h
  · next v hv =>
    split at h
    · next hs => exact ⟨v, hr.found _ _ hv, hs⟩
    · cases h
  · cases h
  · cases h
  · cases h

theorem txAbsent_ok {rows : Rows P.Key} {read : (k : Key) → Except StorageError (Row P.Key k)}
    (hr : Reads rows read) {k : Key} {reason : String} (h : txAbsent read k reason = .ok ()) :
    rows.lookup k = none := by
  unfold txAbsent at h
  split at h
  · next hv => exact hr.missing _ hv
  · cases h
  · cases h
  · cases h

/-- The transaction of `retire_legacy` checks all it says. -/
theorem retireTx_ok {old : SessionRecord P.Key} {handle : UInt64} {peer : Peer}
    {provisional : ProvisionalHandshake} {validated : ValidatedRecord P.Key} {rows : Rows P.Key}
    {read : (k : Key) → Except StorageError (Row P.Key k)} (hr : Reads rows read) {a : Unit}
    {cs : List (Change P.Key)}
    (h : retireTx (.ofRecord P old) handle peer provisional validated read = .ok (a, cs)) :
    (∃ found : SessionRecord P.Key, rows.lookup (.session peer) = some found ∧
        P.recordDigest found = P.recordDigest old) ∧
      rows.lookup (.handle handle) = some peer ∧ rows.lookup (.handshake peer) = none ∧
      rows.lookup (.provisional handle) = none ∧
      rows.lookup validated.key = some validated.value ∧
      cs = [⟨.session peer, none⟩, ⟨.handle handle, none⟩, ⟨.provisional handle, some provisional⟩] := by
  simp only [retireTx, bind, Except.bind] at h
  split at h
  · cases h
  next h1 =>
  split at h
  · cases h
  next h2 =>
  split at h
  · cases h
  next h3 =>
  split at h
  · cases h
  next h4 =>
  split at h
  · cases h
  next h5 =>
  obtain ⟨v, hv, hve⟩ := txRequire_ok hr h5
  obtain rfl : v = validated.value := of_decide_eq_true hve
  obtain ⟨found, hf, hd⟩ := txRequire_ok hr h1
  obtain ⟨p, hp, hpe⟩ := txRequire_ok hr h2
  change Peer at p
  obtain rfl : p = peer := of_decide_eq_true hpe
  exact ⟨⟨found, hf, (DurableSession.ofRecord_holdsRecord old found).mp hd⟩, hp,
    txAbsent_ok hr h3, txAbsent_ok hr h4, hv, (congrArg Prod.snd (Except.ok.inj h)).symm⟩

/-- The handshake was stored under the handle at some time from `db` to `db'`. -/
def Held (handle : UInt64) (record : ProvisionalHandshake) (db db' : Db P.Key) : Prop :=
  ∃ db₁ : Db P.Key, db.Le db₁ ∧ db₁.Le db' ∧ db₁.rows.lookup (.provisional handle) = some record

/-- How `record_provisional_handshake` ends. -/
structure RecordPost (handle : UInt64) (record : ProvisionalHandshake) (tr : Trace P.Key)
    (db : Db P.Key) (r : Except MessagingError Unit) (tr' : Trace P.Key) (db' : Db P.Key) : Prop where
  refused : RefusedQuiet tr r tr'
  held : r = .ok () → Held handle record db db'

theorem retireLegacy_sat (i : Nat) (handle : UInt64) {provisional : ProvisionalHandshake}
    (hd : checkProvisional provisional = .ok provisional) (validated : ValidatedRecord P.Key) :
    Sat I A (fun db rows => ∃ peer old, RetireTx our handle provisional validated db peer old rows)
      (RecordPost handle provisional tr db) (retireLegacy i our handle provisional validated) tr db := by
  have refused : ∀ {tr' : Trace P.Key} {db' : Db P.Key} {e : MessagingError}, Looked tr db tr' db' →
      RecordPost handle provisional tr db (.error e) tr' db' := fun h => ⟨h.refusedQuiet, nofun⟩
  refine Sat.seq (requireResolved_sat i handle) (fun _ _ _ h => refused h.1)
    fun _ tr₁ db₁ h₁ => ?_
  dsimp only
  split
  · exact Sat.bind (Sat.throw (refused h₁.1))
  · refine Sat.attempt_seq (load_sat our handle) fun r tr₂ db₂ h₂ => ?_
    have hl₂ := h₁.1.trans h₂.1
    split
    · exact Sat.throw (refused hl₂)
    · exact Sat.throw (refused hl₂)
    · exact Sat.throw (refused hl₂)
    · next s peer =>
      obtain ⟨old, rfl, hload⟩ := h₂.2 _ _ rfl
      split
      · exact Sat.bind (Sat.throw (refused hl₂))
      next hleg =>
      refine Sat.bind (Sat.keysUnder (fun db₃ hle₃ _ => ?_) fun _ hle₃ _ _ =>
        refused (hl₂.trans (.step hle₃)))
      have hl₃ := hl₂.trans (.step hle₃)
      dsimp only [After]
      split
      · exact Sat.bind (Sat.throw (refused hl₃))
      next hout =>
      refine Sat.bind (Sat.keysUnder (fun db₄ hle₄ _ => ?_) fun _ hle₄ _ _ =>
        refused (hl₃.trans (.step hle₄)))
      have hl₄ := hl₃.trans (.step hle₄)
      dsimp only [After]
      split
      · exact Sat.throw (refused hl₄)
      next hin =>
      refine Sat.tx (fun db₅ hle₅ _ read hr => ?_) fun db₅ hle₅ _ f => refused (hl₄.trans (.step hle₅))
      have hl₅ := hl₄.trans (Looked.step hle₅)
      match h : retireTx (.ofRecord P old) handle peer provisional validated read with
      | .error e => exact refused hl₅
      | .ok (a, cs) =>
      obtain ⟨hfound, hh, hhs, hpr, hval, rfl⟩ := retireTx_ok hr h
      have hheld : (db₅.rows.applyAll [⟨.session peer, none⟩, ⟨.handle handle, none⟩,
          ⟨.provisional handle, some provisional⟩]).lookup (.provisional handle) = some provisional := by
        rw [Rows.applyAll_cons, Rows.applyAll_cons]
        exact Rows.lookup_applyAll_head _ _ (by simp)
      have hstep : RetireTx our handle provisional validated db₅ peer old
          (db₅.rows.applyAll [⟨.session peer, none⟩, ⟨.handle handle, none⟩,
            ⟨.provisional handle, some provisional⟩]) :=
        { decodes := hd
          loaded := hload.mono (hle₃.trans (hle₄.trans hle₅))
          unchanged := hfound
          legacy := (DurableSession.ofRecord_isLegacyUnconfirmed old).mp (by simpa using hleg)
          idle := ⟨db₃, db₄, hload.mono hle₃, hle₄, hle₅, by simpa using hout, by simpa using hin⟩
          registered := hh
          noHandshake := hhs
          noProvisional := hpr
          validated := hval
          eq := rfl }
      exact
        { step := ⟨peer, old, hstep⟩
          ok := ⟨nofun, fun _ => ⟨_, hl₅.le.trans (Db.le_push _ _), Db.Le.refl _, hheld⟩⟩
          unknownStored := fun f => ⟨fun e he hne => absurd (Except.error.inj he).symm (hne f), nofun⟩
          unknownLost := fun f => refused hl₅
          writeFault := fun f => refused hl₅ }

theorem removeSessionTx_ok {old : SessionRecord P.Key} {handle : UInt64} {peer : Peer}
    {rows : Rows P.Key} {read : (k : Key) → Except StorageError (Row P.Key k)} (hr : Reads rows read)
    {a : Unit} {cs : List (Change P.Key)}
    (h : removeSessionTx (.ofRecord P old) handle peer read = .ok (a, cs)) :
    (∃ found : SessionRecord P.Key, rows.lookup (.session peer) = some found ∧
        P.recordDigest found = P.recordDigest old) ∧
      cs = [⟨.session peer, none⟩, ⟨.handle handle, none⟩, ⟨.handshake peer, none⟩] := by
  simp only [removeSessionTx, bind, Except.bind] at h
  split at h
  · cases h
  · next v hv =>
    have hl := txFind_ok hr hv
    cases v with
    | none => cases h
    | some found =>
      dsimp only at h
      split at h
      · cases h
      · next hd =>
        refine ⟨⟨found, hl, ?_⟩, (congrArg Prod.snd (Except.ok.inj h)).symm⟩
        exact (DurableSession.ofRecord_holdsRecord old found).mp (by simpa using hd)

theorem removeSession_sat (i : Nat) (handle : UInt64) :
    Sat I A (fun db rows => ∃ peer old, RemoveTx our handle db peer old rows)
      (fun r tr' _ => RefusedQuiet tr r tr') (removeSession i our handle) tr db := by
  refine Sat.seq (requireResolved_sat i handle) (fun _ _ _ h => h.1.refusedQuiet)
    fun _ tr₁ db₁ h₁ => ?_
  refine Sat.seq (load_sat our handle) (fun _ _ _ h => (h₁.1.trans h.1).refusedQuiet)
    fun sp tr₂ db₂ h₂ => ?_
  have hl₂ := h₁.1.trans h₂.1
  obtain ⟨s, peer⟩ := sp
  obtain ⟨old, rfl, hload⟩ := h₂.2 _ _ rfl
  dsimp only
  split
  · exact Sat.bind (Sat.throw hl₂.refusedQuiet)
  · next hrec =>
    refine Sat.bind (Sat.keysUnder (fun db₃ hle₃ _ => ?_) fun _ hle₃ _ _ =>
      (hl₂.trans (.step hle₃)).refusedQuiet)
    have hl₃ := hl₂.trans (.step hle₃)
    dsimp only [After]
    split
    · exact Sat.throw hl₃.refusedQuiet
    · next hpend =>
      refine (Sat.tx_once fun db₄ read a cs hle₄ _ hr h _ => ?_).mono fun _ _ _ h =>
        h.refusedQuiet hl₃ fun _ h => h
      obtain ⟨hfound, rfl⟩ := removeSessionTx_ok hr h
      exact ⟨peer, old,
        { loaded := hload.mono (hle₃.trans hle₄)
          unchanged := hfound
          unconfirmed := by simpa using hrec
          idle := ⟨db₃, hload.mono hle₃, hle₄, List.length_eq_zero_iff.mp (Nat.eq_zero_of_not_pos hpend)⟩
          eq := rfl }⟩

/-- What the transaction of `record_provisional_handshake` decides: to go on with a retirement, or
that the handshake is stored, now or before. -/
inductive ProvisionalDecision (handle : UInt64) (record : ProvisionalHandshake)
    (rows : Rows P.Key) : Bool → List (Change P.Key) → Prop
  | retire (named : rows.lookup (.handle handle) = some record.peerIdentityPk) :
      ProvisionalDecision handle record rows true []
  | stored (h : rows.lookup (.provisional handle) = some record) :
      ProvisionalDecision handle record rows false []
  | record (noHandle : rows.lookup (.handle handle) = none)
      (noSession : rows.lookup (.session record.peerIdentityPk) = none) :
      ProvisionalDecision handle record rows false [⟨.provisional handle, some record⟩]

theorem provisionalTx_ok {handle : UInt64} {record : ProvisionalHandshake} {rows : Rows P.Key}
    {read : (k : Key) → Except StorageError (Row P.Key k)} (hr : Reads rows read) {retire : Bool}
    {cs : List (Change P.Key)} (h : provisionalTx handle record read = .ok (retire, cs)) :
    ProvisionalDecision handle record rows retire cs := by
  simp only [provisionalTx, bind, Except.bind] at h
  split at h
  · cases h
  next v hv =>
  have hl := txFind_ok hr hv
  cases v with
  | some p =>
    dsimp only at h
    split at h
    · next hp =>
      obtain ⟨rfl, rfl⟩ := Prod.mk.inj (Except.ok.inj h)
      exact .retire (hp ▸ hl)
    · cases h
  | none =>
    dsimp only at h
    split at h
    · cases h
    · cases h
    · next hs =>
      have hs := hr.missing _ hs
      split at h
      · next stored hst =>
        split at h
        · next heq =>
          obtain ⟨rfl, rfl⟩ := Prod.mk.inj (Except.ok.inj h)
          exact .stored (heq ▸ hr.found _ _ hst)
        · obtain ⟨rfl, rfl⟩ := Prod.mk.inj (Except.ok.inj h)
          exact .record hl hs
      · obtain ⟨rfl, rfl⟩ := Prod.mk.inj (Except.ok.inj h)
        exact .record hl hs
      · obtain ⟨rfl, rfl⟩ := Prod.mk.inj (Except.ok.inj h)
        exact .record hl hs
      · cases h
    · cases h

/-- What the transaction of `record_provisional_handshake` leaves. -/
def DecisionPost (handle : UInt64) (record : ProvisionalHandshake) (tr : Trace P.Key)
    (db : Db P.Key) : Except MessagingError Bool → Trace P.Key → Db P.Key → Prop
  | .ok true, tr', db' => Looked tr db tr' db' ∧
    db'.rows.lookup (.handle handle) = some record.peerIdentityPk
  | .ok false, _, db' => Held handle record db db'
  | .error e, tr', _ => RefusedQuiet tr (.error e : Except MessagingError Unit) tr'

theorem decision_sat (handle : UInt64) {record : ProvisionalHandshake}
    (hd : checkProvisional record = .ok record) :
    Sat I A (ProvisionalTx handle record) (DecisionPost handle record tr db)
      (tx repeatable (provisionalTx handle record) : Do P Bool) tr db := by
  refine Sat.tx (fun db₁ hle _ read hr => ?_) fun db₁ hle _ f => (Looked.step hle).refusedQuiet
  match h : provisionalTx handle record read with
  | .error e => exact (Looked.step hle).refusedQuiet
  | .ok (retire, cs) =>
    cases provisionalTx_ok hr h with
    | retire named => exact ⟨.step hle, named⟩
    | stored hst => exact ⟨db₁, hle, Db.Le.refl _, hst⟩
    | record noHandle noSession =>
      have hheld : (db₁.rows.applyAll [⟨.provisional handle, some record⟩]).lookup
          (.provisional handle) = some record := Rows.lookup_applyAll_head _ _ (by simp)
      exact
        { step := ⟨hd, noHandle, noSession, rfl⟩
          ok := ⟨_, hle.trans (Db.le_push _ _), Db.Le.refl _, hheld⟩
          unknownStored := fun f e he hne => absurd (Except.error.inj he).symm (hne f)
          unknownLost := fun f => (Looked.step hle).refusedQuiet
          writeFault := fun f => (Looked.step hle).refusedQuiet }

/-- A retirement follows only after the handle was found to name the peer of the handshake. -/
theorem recordProvisionalHandshake_sat (i : Nat) (handle : UInt64)
    (provisional : ProvisionalHandshake) (validated : ValidatedRecord P.Key) :
    Sat I A (fun db' rows => ProvisionalTx handle provisional db' rows ∨
        (∃ db₀ : Db P.Key, db.Le db₀ ∧ db₀.Le db' ∧
          db₀.rows.lookup (.handle handle) = some provisional.peerIdentityPk) ∧
        ∃ peer old, RetireTx our handle provisional validated db' peer old rows)
      (RecordPost handle provisional tr db)
      (recordProvisionalHandshake i our handle provisional validated) tr db := by
  refine lift_sat (fun record hrec => ?_) fun _ _ => ⟨(Looked.refl tr db).refusedQuiet, nofun⟩
  obtain rfl := checkProvisional_ok hrec
  refine Sat.seq ((decision_sat handle hrec).weaken fun _ _ h => .inl h) (fun e tr₁ db₁ h => ?_)
    fun retire tr₁ db₁ h => ?_
  · exact ⟨h, nofun⟩
  · cases retire with
    | false => exact Sat.pure ⟨nofun, fun _ => h⟩
    | true =>
      obtain ⟨hl, hn⟩ := h
      refine ((retireLegacy_sat i handle hrec validated).weaken_from fun db₂ rows hle _ h =>
        .inr ⟨⟨db₁, hl.le, hle, hn⟩, h⟩).mono fun r tr₂ db₂ h₂ => ?_
      refine ⟨fun e he hne hq => h₂.refused e he hne (hl.quiet hq), fun hr => ?_⟩
      obtain ⟨db₃, h3, h4, h5⟩ := h₂.held hr
      exact ⟨db₃, hl.le.trans h3, h4, h5⟩

/-! ## Listings -/

theorem readListed_sat (k : Key) :
    Sat I A T (LookPost tr db fun r db' => ∀ v, r = .ok v → db'.Ever k v) (readListed k) tr db := by
  refine Sat.bind (Sat.find (fun db₁ hle _ => ?_) fun db₁ hle _ f _ => ⟨.step hle, nofun⟩)
  cases h : db₁.rows.lookup k with
  | some v => exact Sat.pure ⟨.step hle, fun _ hv => Except.ok.inj hv ▸ Db.ever_now h⟩
  | none => exact Sat.throw ⟨.step hle, nofun⟩

/-- Every message of a listing was read from the store. -/
theorem readEach_sat {α : Type} {read : MessageId → Do P α} {R : α → Db P.Key → Prop}
    (hR : ∀ a db db', R a db → db.Le db' → R a db')
    (hread : ∀ id tr db, Sat I A T (LookPost tr db fun r db' => ∀ a, r = .ok a → R a db')
      (read id) tr db) (ids : List MessageId) :
    Sat I A T (LookPost tr db fun r db' => ∀ as, r = .ok as → ∀ a ∈ as, R a db')
      (readEach read ids) tr db := by
  induction ids generalizing tr db with
  | nil =>
    refine Sat.pure ⟨.refl tr db, ?_⟩
    rintro _ ⟨⟩ a ha
    cases ha
  | cons id ids ih =>
    refine Sat.seq (hread id tr db) (fun e _ _ h => ⟨h.1, nofun⟩) fun a tr₁ db₁ h₁ => ?_
    refine Sat.seq ih (fun e _ _ h => ⟨h₁.1.trans h.1, nofun⟩) fun as tr₂ db₂ h₂ => ?_
    refine Sat.pure ⟨h₁.1.trans h₂.1, ?_⟩
    rintro _ ⟨⟩ b hb
    rcases List.mem_cons.mp hb with rfl | hb
    · exact hR _ _ _ (h₁.2 _ rfl) h₂.1.le
    · exact h₂.2 as rfl b hb

theorem pendingOutgoingFor_sat (peer : Peer) :
    Sat I A T (LookPost tr db fun r db' => ∀ ms, r = .ok ms → ∀ m ∈ ms, ∃ id,
        db'.Ever (.outbox peer id) m) (pendingOutgoingFor peer) tr db := by
  refine Sat.bind (Sat.keysUnder (fun db₁ hle₁ _ => ?_) fun db₁ hle₁ _ f => ⟨.step hle₁, nofun⟩)
  refine Sat.seq (readEach_sat (R := fun m db => ∃ id, db.Ever (.outbox peer id) m)
    (fun m db db' ⟨id, h⟩ hle => ⟨id, h.mono hle⟩) (fun id tr db => ?_) _)
    (fun e _ _ h => ⟨.trans (.step hle₁) h.1, nofun⟩) fun ms tr₂ db₂ h₂ => ?_
  · refine Sat.seq (readListed_sat _) (fun e _ _ h => ⟨h.1, nofun⟩) fun m tr₁ db₁ h₁ => ?_
    cases hd : decodeOutbox P m with
    | error e => exact Sat.throw ⟨h₁.1, nofun⟩
    | ok m' =>
      obtain ⟨rfl, -⟩ := decodeOutbox_ok hd
      refine Sat.pure ⟨h₁.1, ?_⟩
      rintro _ ⟨⟩
      exact ⟨id, h₁.2 _ rfl⟩
  · refine Sat.pure ⟨.trans (.step hle₁) h₂.1, ?_⟩
    rintro _ ⟨⟩ m hm
    exact h₂.2 ms rfl m (List.mem_mergeSort.mp hm)

theorem pendingIncomingFor_sat (peer : Peer) :
    Sat I A T (LookPost tr db fun r db' => ∀ ms, r = .ok ms → ∀ m ∈ ms, ∃ id,
        db'.Ever (.inbox peer id) m) (pendingIncomingFor peer) tr db := by
  refine Sat.bind (Sat.keysUnder (fun db₁ hle₁ _ => ?_) fun db₁ hle₁ _ f => ⟨.step hle₁, nofun⟩)
  refine Sat.seq (readEach_sat (R := fun m db => ∃ id, db.Ever (.inbox peer id) m)
    (fun m db db' ⟨id, h⟩ hle => ⟨id, h.mono hle⟩) (fun id tr db => ?_) _)
    (fun e _ _ h => ⟨.trans (.step hle₁) h.1, nofun⟩) fun ms tr₂ db₂ h₂ => ?_
  · exact (readListed_sat _).mono fun r tr₁ db₁ h₁ => ⟨h₁.1, fun m hm => ⟨id, h₁.2 m hm⟩⟩
  · refine Sat.pure ⟨.trans (.step hle₁) h₂.1, ?_⟩
    rintro _ ⟨⟩ m hm
    exact h₂.2 ms rfl m (List.mem_mergeSort.mp hm)

/-! ## Other reads -/

theorem provisionalHandshake_sat (handle : UInt64) :
    Sat I A T (LookPost tr db fun r db' => ∀ p, r = .ok (some p) →
      db'.rows.lookup (.provisional handle) = some p) (provisionalHandshake handle : Do P _) tr db := by
  refine Sat.bind (Sat.find (fun db₁ hle _ => ?_) fun db₁ hle _ f _ => ⟨.step hle, nofun⟩)
  cases hp : db₁.rows.lookup (.provisional handle) with
  | none => exact Sat.pure ⟨.step hle, nofun⟩
  | some p =>
    refine lift_sat (fun q hq => Sat.pure ⟨.step hle, fun p' hp' => ?_⟩) fun _ _ => ⟨.step hle, nofun⟩
    obtain rfl := checkProvisional_ok hq
    obtain rfl := Option.some.inj (Except.ok.inj hp')
    exact hp

theorem hasReceived_sat (handle : UInt64) :
    Sat I A T (LookPost tr db fun r db' => ∀ b, r = .ok b → ∃ p old, Loaded our db' handle p old ∧
        b = old.ratchet.hasReceivingChain) (hasReceived our handle : Do P _) tr db := by
  refine Sat.seq (load_sat our handle) (fun e _ _ h => ⟨h.1, nofun⟩) fun sp tr₁ db₁ h => ?_
  obtain ⟨s, p⟩ := sp
  obtain ⟨old, rfl, hl⟩ := h.2 _ _ rfl
  refine Sat.pure ⟨h.1, ?_⟩
  rintro _ ⟨⟩
  exact ⟨p, old, hl, by simp⟩

theorem isLegacyUnconfirmed_sat (handle : UInt64) :
    Sat I A T (LookPost tr db fun _ _ => True) (isLegacyUnconfirmed our handle : Do P _) tr db := by
  refine Sat.attempt_seq (load_sat our handle) fun r tr₁ db₁ h => ?_
  split
  · exact Sat.pure ⟨h.1, trivial⟩
  · exact Sat.pure ⟨h.1, trivial⟩
  · exact Sat.pure ⟨h.1, trivial⟩
  · exact Sat.pure ⟨h.1, trivial⟩
  · exact Sat.throw ⟨h.1, trivial⟩

theorem initialOutbound_sat (handle : UInt64) :
    Sat I A T (LookPost tr db fun _ _ => True) (initialOutbound handle : Do P _) tr db :=
  Sat.seq (requirePeer_sat handle) (fun _ _ _ h => ⟨h.1, trivial⟩) fun _ _ _ h =>
    Sat.find (fun _ hle _ => ⟨h.1.trans (.step hle), trivial⟩)
      fun _ hle _ _ _ => ⟨h.1.trans (.step hle), trivial⟩

/-! ## Recovery -/

/-- Each of `keys` was missing when it was read, one after the other. -/
def MissingInTurn : List Key → Db P.Key → Db P.Key → Prop
  | [], db, db' => db.Le db'
  | k :: keys, db, db' => ∃ db₁ : Db P.Key, db.Le db₁ ∧ db₁.rows.lookup k = none ∧
    MissingInTurn keys db₁ db'

/-- One of `keys` was there when it was read. -/
def FoundOne (keys : List Key) (db db' : Db P.Key) : Prop :=
  ∃ k ∈ keys, ∃ db₁ : Db P.Key, db.Le db₁ ∧ db₁.Le db' ∧ (db₁.rows.lookup k).isSome

theorem MissingInTurn.mono {keys : List Key} {db₀ db₁ db₂ : Db P.Key}
    (h : MissingInTurn keys db db₁) (hle : db₀.Le db) (hle' : db₁.Le db₂) :
    MissingInTurn keys db₀ db₂ := by
  induction keys generalizing db db₀ with
  | nil => exact hle.trans (Db.Le.trans h hle')
  | cons k keys ih =>
    obtain ⟨db₃, h3, hk, h⟩ := h
    exact ⟨db₃, hle.trans h3, hk, ih h (Db.Le.refl _)⟩

theorem anyStored_sat (keys : List Key) :
    Sat I A T (LookPost tr db fun r db' => ∀ b, r = .ok b →
        (b = true → FoundOne keys db db') ∧ (b = false → MissingInTurn keys db db'))
      (anyStored keys : Do P Bool) tr db := by
  induction keys generalizing tr db with
  | nil =>
    refine Sat.pure ⟨.refl tr db, ?_⟩
    rintro _ ⟨⟩
    exact ⟨nofun, fun _ => Db.Le.refl db⟩
  | cons key keys ih =>
    refine Sat.bind (Sat.find (fun db₁ hle _ => ?_) fun db₁ hle _ f _ => ⟨.step hle, nofun⟩)
    refine Sat.seq ih (fun e _ _ h => ⟨.trans (.step hle) h.1, nofun⟩)
      fun b tr₂ db₂ h₂ => Sat.pure ⟨.trans (.step hle) h₂.1, ?_⟩
    obtain ⟨htrue, hfalse⟩ := h₂.2 b rfl
    rintro _ ⟨⟩
    refine ⟨fun hb => ?_, fun hb => ?_⟩
    · rcases Bool.or_eq_true_iff.mp hb with hb | hb
      · obtain ⟨k, hk, db₃, h3, h4, h5⟩ := htrue hb
        exact ⟨k, List.mem_cons_of_mem _ hk, db₃, hle.trans h3, h4, h5⟩
      · exact ⟨key, List.mem_cons_self, db₁, hle, h₂.1.le, hb⟩
    · obtain ⟨hb, hn⟩ := Bool.or_eq_false_iff.mp hb
      exact ⟨db₁, hle, by simpa using hn, hfalse hb⟩

theorem requirePeer_gone_sat (handle : UInt64) :
    Sat I A T (LookPost tr db fun r db' => ∀ h, r = .error (.noSession h) →
        db'.rows.lookup (.handle handle) = none) (requirePeer handle : Do P Peer) tr db := by
  refine Sat.bind (Sat.find (fun db₁ hle _ => ?_) fun db₁ hle _ f _ => ⟨.step hle, nofun⟩)
  cases h : db₁.rows.lookup (.handle handle) with
  | none => exact Sat.throw ⟨.step hle, fun _ _ => h⟩
  | some p => exact Sat.pure ⟨.step hle, nofun⟩

/-- A load that finds no session found that the handle names nobody. -/
theorem load_gone_sat (handle : UInt64) :
    Sat I A T (LookPost tr db fun r db' => ∀ h, r = .error (.noSession h) →
        ∃ db₁ : Db P.Key, db.Le db₁ ∧ db₁.Le db' ∧ db₁.rows.lookup (.handle handle) = none)
      (load our handle) tr db := by
  refine Sat.seq (requirePeer_gone_sat handle) (fun e tr₁ db₁ h => ⟨h.1, ?_⟩) fun p tr₁ db₁ h => ?_
  · rintro h' ⟨⟩
    exact ⟨db₁, h.1.le, Db.Le.refl _, h.2 h' rfl⟩
  · refine Sat.seq (loadFor_sat handle p) (fun e tr₂ db₂ h₂ => ⟨h.1.trans h₂.1, ?_⟩)
      fun s tr₂ db₂ h₂ => Sat.pure ⟨h.1.trans h₂.1, nofun⟩
    rintro h' ⟨⟩
    cases h₂.2

theorem allAbsent_ok {rows : Rows P.Key} {read : (k : Key) → Except StorageError (Row P.Key k)}
    (hr : Reads rows read) {keys : List Key} (h : allAbsent read keys = .ok true) :
    ∀ k ∈ keys, rows.lookup k = none := by
  induction keys with
  | nil => exact fun k hk => nomatch hk
  | cons key keys ih =>
    unfold allAbsent at h
    split at h
    · next hk =>
      intro k hm
      rcases List.mem_cons.mp hm with rfl | hm
      · exact hr.missing _ hk
      · exact ih h k hm
    · cases h
    · cases h
    · cases h

/-- One read showed the session, the handle and the records under `keys` missing. -/
structure RetiredSince (handle : UInt64) (peer : Peer) (keys : List Key) (rows : Rows P.Key) :
    Prop where
  session : rows.lookup (.session peer) = none
  handle : rows.lookup (.handle handle) = none
  keys : ∀ k ∈ keys, rows.lookup k = none

theorem retiredSince_sat (handle : UInt64) (peer : Peer) (keys : List Key) :
    Sat I A T (LookPost tr db fun r db' => r = .ok true → RetiredSince handle peer keys db'.rows)
      (retiredSince handle peer keys : Do P Bool) tr db := by
  refine Sat.tx (fun db₁ hle _ read hr => ?_) fun db₁ hle _ f => ⟨.step hle, nofun⟩
  simp only [bind, Except.bind]
  split
  · exact ⟨.step hle, nofun⟩
  · next b hb =>
    cases b with
    | false => exact ⟨.step hle, nofun⟩
    | true =>
      have hall := allAbsent_ok hr hb
      have hret : RetiredSince handle peer keys db₁.rows :=
        { session := hall _ List.mem_cons_self
          handle := hall _ (List.mem_cons_of_mem _ List.mem_cons_self)
          keys := fun k hk => hall k (List.mem_cons_of_mem _ (List.mem_cons_of_mem _ hk)) }
      simp only [Bool.not_true, Bool.false_eq_true, if_false]
      split <;> exact ⟨.step hle, fun _ => hret⟩

/-- What a report of `recover` on the mark `u` rests on. -/
inductive RecoverPost (handle : UInt64) (u : Unresolved) (db db' : Db P.Key) (rep : Recovery) : Prop
  | found (committed : rep.artifactCommitted = true) (h : FoundOne u.artifactKeys db db')
  | missing (committed : rep.artifactCommitted = false) (h : MissingInTurn u.artifactKeys db db')
  | created (committed : rep.artifactCommitted = false) (creates : u.createsSession = true)
      (db₁ : Db P.Key) (le : db.Le db₁) (le' : db₁.Le db')
      (gone : db₁.rows.lookup (.handle handle) = none)
  | retired (committed : rep.artifactCommitted = false) (peer : Peer)
      (creates : u.createsSession = false) (legacy : u.stagedOnLegacy = some peer) (db₁ : Db P.Key)
      (le : db.Le db₁) (le' : db₁.Le db') (h : RetiredSince handle peer u.artifactKeys db₁.rows)

theorem RecoverPost.mono {handle : UInt64} {u : Unresolved} {db₀ db' : Db P.Key} {rep : Recovery}
    (h : RecoverPost handle u db db' rep) (hle : db₀.Le db) : RecoverPost handle u db₀ db' rep := by
  cases h with
  | found committed h =>
    obtain ⟨k, hk, db₁, h1, h2, h3⟩ := h
    exact .found committed ⟨k, hk, db₁, hle.trans h1, h2, h3⟩
  | missing committed h => exact .missing committed (h.mono hle (Db.Le.refl _))
  | created committed creates db₁ le le' gone =>
    exact .created committed creates db₁ (hle.trans le) le' gone
  | retired committed peer creates legacy db₁ le le' h =>
    exact .retired committed peer creates legacy db₁ (hle.trans le) le' h

theorem recoverFrom_sat (i : Nat) (handle : UInt64) (mark : Option Unresolved) :
    Sat I A T (LookPost tr db fun r db' => ∀ u rep, mark = some u → r = .ok (some rep) →
        RecoverPost handle u db db' rep) (recoverFrom i our handle mark : Do P _) tr db := by
  cases mark with
  | none => exact Sat.pure ⟨.refl tr db, nofun⟩
  | some u =>
    refine Sat.seq (anyStored_sat _) (fun e _ _ h => ⟨h.1, nofun⟩) fun b tr₂ db₂ h₂ => ?_
    obtain ⟨hl₂, hb⟩ := h₂
    obtain ⟨htrue, hfalse⟩ := hb b rfl
    have hclear : ∀ {tr₀ : Trace P.Key} {db₀ : Db P.Key} (rep : Recovery), Looked tr db tr₀ db₀ →
        (∀ db', db₀.Le db' → RecoverPost handle u db db' rep) →
        Sat I A T (LookPost tr db fun r db' => ∀ u' rep, some u = some u' → r = .ok (some rep) →
            RecoverPost handle u' db db' rep)
          (do clearUnresolved i handle; return some rep : Do P _) tr₀ db₀ := fun rep hl hp =>
      Sat.bind (Sat.remember fun db₅ hle₅ _ => Sat.pure ⟨hl.trans (.step hle₅), by
        rintro _ _ ⟨⟩ ⟨⟩
        exact hp db₅ hle₅⟩)
    refine Sat.attempt_seq (load_gone_sat handle) fun r tr₃ db₃ h₃ => ?_
    have hl₃ := hl₂.trans h₃.1
    split
    · refine hclear _ hl₃ fun db' hle => ?_
      cases b with
      | true =>
        obtain ⟨k, hk, db₄, h4, h5, h6⟩ := htrue rfl
        exact .found rfl ⟨k, hk, db₄, h4, h5.trans (h₃.1.le.trans hle), h6⟩
      | false => exact .missing rfl ((hfalse rfl).mono (Db.Le.refl _) (h₃.1.le.trans hle))
    · next h =>
      obtain ⟨db₄, h4, h5, h6⟩ := h₃.2 _ rfl
      dsimp only
      split
      · next hc =>
        exact hclear _ hl₃ fun db' hle => .created rfl hc db₄ (hl₂.le.trans h4) (h5.trans hle) h6
      · next hc =>
        split
        · exact Sat.throw ⟨hl₃, nofun⟩
        · next peer hleg =>
          refine Sat.seq (retiredSince_sat _ _ _) (fun e _ _ h => ⟨hl₃.trans h.1, nofun⟩)
            fun b tr₄ db₄ h₄ => ?_
          have hl₄ := hl₃.trans h₄.1
          cases b with
          | false => exact Sat.bind (Sat.throw ⟨hl₄, nofun⟩)
          | true =>
            exact hclear _ hl₄ fun db' hle => .retired rfl peer (by simpa using hc) hleg db₄ hl₄.le
              hle (h₄.2 rfl)
    · exact Sat.throw ⟨hl₃, nofun⟩

end Messenger

end Arcium
