import Arcium.Network.Transition

/-!
# The records of a device, over every history

What follows for the records of one device from `Trans` alone.

* `AppChange`: how a transaction changes the records that the messenger does not keep.
* `Ours.unique`: a device has one identity, so every history of the application is one of the
  messenger under that identity (`exists_our`).
* `SessionOrigin`, `Trans.handle_origin`: where a session and a handle come from.
-/

namespace Arcium

namespace Network

variable {P : AppPlatform} {scope : Scope P} {call : Call} {db db' : Db P.Key} {rows : Rows P.Key}

/-! ## The messenger's records and the others -/

/-- A transaction that only writes records of the messenger leaves the others alone. -/
theorem lookup_app {cs : List (Change P.Key)} (h : rows = db.rows.applyAll cs)
    (hcs : ∀ c ∈ cs, c.key.isMessenger = true) {k : Key} (hk : k.isMessenger = false) :
    rows.lookup k = db.rows.lookup k := by
  rw [h]
  refine Rows.lookup_applyAll_ne _ fun c hc heq => ?_
  rw [heq, hcs c hc] at hk
  cases hk

theorem appTx_of_eq {cs : List (Change P.Key)} (h : rows = db.rows.applyAll cs)
    (hcs : ∀ c ∈ cs, c.key.isMessenger = false) : Messenger.AppTx (P := P.toPlatform) db rows := by
  intro k hk
  rw [h]
  refine Rows.lookup_applyAll_ne _ fun c hc heq => ?_
  have hc' := hcs c hc
  rw [← heq, hk] at hc'
  cases hc'

theorem ChatTx.app (h : ChatTx call db rows) : Messenger.AppTx (P := P.toPlatform) db rows := by
  cases h with
  | described peer _ f _ _ eq => exact appTx_of_eq eq (by simp [Key.isMessenger])
  | advanced peer seq state id e e' _ _ _ eq => exact appTx_of_eq eq (by simp [Key.isMessenger])
  | received peer _ m text now _ _ _ eq => exact appTx_of_eq eq (by simp [Key.isMessenger])
  | claimed i peer appId text _ _ eq => exact appTx_of_eq eq (by simp [Key.isMessenger])
  | queued i peer appId text now _ _ _ _ eq => exact appTx_of_eq eq (by simp [Key.isMessenger])

/-- How a transaction changes the records that the messenger does not keep. -/
inductive AppChange (call : Call) (db : Db P.Key) (rows : Rows P.Key) : Prop
  | same (h : ∀ k : Key, k.isMessenger = false → rows.lookup k = db.rows.lookup k)
  | identity (identity : Identity) (h : IdentityTx identity db rows)
  | prekeys (called : call.EstablishesPrekeys) (identity : Identity) (signedPrekeySk : StaticSecret)
      (opk : UInt64 × StaticSecret) (h : PrekeysTx identity signedPrekeySk opk db rows)
  | contact (card : Card) (h : ContactTx card db rows)
  | consumed (identity : Identity) (handle : UInt64) (wire : Bytes)
      (provisional : ProvisionalHandshake) (handshake : InitiatorHandshake) (record : PrekeyRecord)
      (opk fresh : UInt64 × StaticSecret) (new : SessionRecord P.Key) (m : IncomingMessage)
      (called : call.Receives handle wire)
      (h : FirstTx identity handle wire provisional handshake record fresh new m db rows)
      (used : record.opk = some opk)
      (after : ∀ k : Key, k.isMessenger = false → rows.lookup k =
        (db.rows.applyAll [⟨.prekeys, some (Core.rotated record fresh)⟩]).lookup k)
  | chat (h : ChatTx call db rows)

/-- Of a record that is not the messenger's, only the extra writes of a first message matter. -/
theorem FirstTx.lookup_app {identity : Identity} {handle : UInt64} {wire : Bytes}
    {provisional : ProvisionalHandshake} {handshake : InitiatorHandshake} {record : PrekeyRecord}
    {fresh : UInt64 × StaticSecret} {new : SessionRecord P.Key} {m : IncomingMessage}
    (h : FirstTx identity handle wire provisional handshake record fresh new m db rows) {k : Key}
    (hk : k.isMessenger = false) : rows.lookup k =
      (db.rows.applyAll (Messenger.sideChanges (consumed record fresh))).lookup k := by
  have hp : (!k.isMessenger) = true := by simp [hk]
  rw [h.promote.eq, Rows.lookup_applyAll_filter (fun k => !k.isMessenger) hp,
    Rows.lookup_applyAll_filter (fun k => !k.isMessenger) hp (Messenger.sideChanges _)]
  simp [Messenger.promoteChanges, firstContact, Key.isMessenger]

theorem FirstTx.app {identity : Identity} {handle : UInt64} {wire : Bytes}
    {provisional : ProvisionalHandshake} {handshake : InitiatorHandshake} {record : PrekeyRecord}
    {fresh : UInt64 × StaticSecret} {new : SessionRecord P.Key} {m : IncomingMessage}
    (called : call.Receives handle wire)
    (h : FirstTx identity handle wire provisional handshake record fresh new m db rows) :
    AppChange call db rows := by
  cases ho : record.opk with
  | none =>
    refine .same fun k hm => ?_
    rw [h.lookup_app hm, consumed, ho]
    rfl
  | some opk =>
    refine .consumed _ _ _ _ _ record opk fresh new m called h ho fun k hm => ?_
    rw [h.lookup_app hm, consumed, ho]
    rfl

theorem Work.app {start : Db P.Key} (h : Work start call db rows) : AppChange call db rows := by
  have msg : ∀ {cs : List (Change P.Key)}, rows = db.rows.applyAll cs →
      (∀ c ∈ cs, c.key.isMessenger = true) → AppChange call db rows := fun h hcs =>
    .same fun _ hk => lookup_app h hcs hk
  cases h with
  | identity identity called h => exact .identity identity h
  | contact card called h => exact .contact card h
  | initiate identity handle peerBundle bundle ephemeralSk dhs alice called h =>
    refine msg h.create.eq ?_
    simp [Messenger.createChanges, Core.initiatorSession, Messenger.sideChanges, Key.isMessenger]
  | respond identity handle bytes handshake record called own answers h =>
    cases h with
    | recorded h => exact msg h.eq (by simp [Key.isMessenger])
    | retired peer old named h => exact msg h.eq (by simp [Key.isMessenger])
  | first identity handle wire provisional handshake record fresh new m called h => exact h.app called
  | send our ours handle clientId plaintext peer q old new m why h =>
    exact msg h.eq (by simp [Messenger.sendChanges, Key.isMessenger])
  | receive our ours handle wire peer old new m called h =>
    exact msg h.eq (by simp [Messenger.receiveChanges, Key.isMessenger])
  | ackOut handle id peer called why h => exact msg h.eq (by simp [Key.isMessenger])
  | ackIn handle id peer why h => exact msg h.eq (by simp [Key.isMessenger])
  | abandon handle id peer m contact own why h => exact msg h.eq (by simp [Key.isMessenger])
  | remove our ours handle peer old why h => exact msg h.eq (by simp [Key.isMessenger])
  | chat h => exact .chat h

theorem Step.app {start : Db P.Key} (h : Step start call db rows) : AppChange call db rows := by
  cases h with
  | work h => exact h.app
  | prekeys called identity sk opk h => exact .prekeys called identity sk opk h

/-- A session of an older build is all that its transaction stores. -/
theorem LegacyTx.app {our : Bytes32} {handle : UInt64} {rec : SessionRecord P.Key}
    (h : LegacyTx our handle rec db rows) {k : Key} (hk : k.isMessenger = false) :
    rows.lookup k = db.rows.lookup k :=
  lookup_app h.eq (by simp [Key.isMessenger]) hk

/-! ## The identity and the contacts -/

/-- The records that are written once: the identity, and the cards of contacts. -/
def Fixed : Key → Prop
  | .identity | .contact _ => True
  | _ => False

theorem Fixed.isMessenger {k : Key} (hk : Fixed k) : k.isMessenger = false := by
  cases k with
  | identity => rfl
  | contact peer => rfl
  | _ => exact hk.elim

/-- A fixed record stays, whatever else is written. -/
theorem Step.fixed_kept {start : Db P.Key} (h : Step start call db rows) {k : Key} (hk : Fixed k)
    {v : Row P.Key k} (hv : db.rows.lookup k = some v) : rows.lookup k = some v := by
  have written : ∀ {cs : List (Change P.Key)}, rows = db.rows.applyAll cs →
      (∀ c ∈ cs, Fixed c.key → db.rows.lookup c.key = none) → rows.lookup k = some v := by
    intro cs heq hcs
    rw [heq, Rows.lookup_applyAll_ne]
    · exact hv
    · rintro c hc rfl
      rw [hcs c hc hk] at hv
      cases hv
  cases h.app with
  | same h => exact (h k hk.isMessenger).trans hv
  | identity identity h => exact written h.eq (by simpa using fun _ => h.none)
  | prekeys _ _ _ _ h => exact written h.eq (by simp [Fixed])
  | contact card h => exact written h.eq (by simpa using fun _ => h.none)
  | consumed _ _ _ _ _ _ _ _ _ _ _ _ _ after =>
    rw [after k hk.isMessenger, Rows.lookup_applyAll_ne]
    · exact hv
    · rintro c hc rfl
      cases List.mem_singleton.mp hc
      exact hk.elim
  | chat h => cases h <;> next eq => exact written eq (by simp [Fixed])

theorem Trans.fixed_kept (h : Trans scope db rows) {k : Key} (hk : Fixed k) {v : Row P.Key k}
    (hv : db.rows.lookup k = some v) : rows.lookup k = some v := by
  cases h with
  | call call _ h => exact h.fixed_kept hk hv
  | legacy _ our _ handle rec h => exact (h.app hk.isMessenger).trans hv

/-- A fixed record that was stored is stored. -/
theorem fixed_stored (hv : db.Valid (Trans scope)) {k : Key} (hk : Fixed k) {v : Row P.Key k}
    (h : db.Ever k v) : db.rows.lookup k = some v := by
  induction hv with
  | empty => exact (Db.not_ever_empty h).elim
  | push hv ht ih =>
    rcases Db.ever_push.mp h with h | h
    · exact h
    · exact ht.fixed_kept hk (ih h)

/-- The identity that was stored is the one that is stored. -/
theorem identity_stored (hv : db.Valid (Trans scope)) {identity : Identity}
    (h : db.Ever .identity identity) : db.rows.lookup .identity = some identity :=
  fixed_stored hv (k := .identity) trivial h

/-- A card that a transaction leaves was there, or is stored under the key it names. -/
theorem Trans.contact (h : Trans scope db rows) {peer : Peer} {card : Card}
    (hl : rows.lookup (.contact peer) = some card) :
    db.rows.lookup (.contact peer) = some card ∨ peer = card.dhPk := by
  cases h with
  | legacy _ our _ handle rec h => exact .inl ((h.app rfl).symm.trans hl)
  | call call _ h =>
    cases h.app with
    | same h => exact .inl ((h _ rfl).symm.trans hl)
    | identity _ h =>
      rw [h.eq, Rows.lookup_applyAll_ne _ (by simp)] at hl
      exact .inl hl
    | prekeys _ _ _ _ h =>
      rw [h.eq, Rows.lookup_applyAll_ne _ (by simp)] at hl
      exact .inl hl
    | contact card' h =>
      rw [h.eq] at hl
      rcases Rows.lookup_applyAll_some hl with hm | hl
      · cases List.mem_singleton.mp hm
        exact .inr rfl
      · exact .inl hl
    | consumed _ _ _ _ _ _ _ _ _ _ _ _ _ after =>
      rw [after _ rfl, Rows.lookup_applyAll_ne _ (by simp)] at hl
      exact .inl hl
    | chat h =>
      cases h <;> next eq =>
        rw [eq, Rows.lookup_applyAll_ne _ (by simp)] at hl
        exact .inl hl

/-- A device has one identity. -/
theorem Ours.unique (hv : db.Valid (Trans scope)) {a b : Bytes32} (ha : Ours db a)
    (hb : Ours db b) : a = b := by
  obtain ⟨ia, ha, rfl⟩ := ha
  obtain ⟨ib, hb, rfl⟩ := hb
  have heq := (identity_stored hv ha).symm.trans (identity_stored hv hb)
  rw [Option.some.inj heq]

/-! ## The history as one of the messenger -/

/-- A session of an older build is one that its caller created. -/
theorem LegacyTx.messenger {our : Bytes32} {handle : UInt64} {rec : SessionRecord P.Key}
    (h : LegacyTx our handle rec db rows) : Messenger.Trans (P := P.toPlatform) our db rows := by
  obtain ⟨hrole, hgen, -⟩ := h.unconfirmed
  have hrec : Messenger.newRecord (P := P.toPlatform) our ⟨handle, rec.session, rec.role, none, []⟩ = rec := by
    have := h.bound.ours
    cases rec
    simp_all [Messenger.newRecord, SessionRecord.session]
  refine .create ⟨handle, rec.session, rec.role, none, []⟩
    { bound := by rw [hrec]; exact h.bound
      noSession := h.noSession
      noHandle := h.noHandle
      noHandshake := by intro h; cases h
      extra := by intro w hw; cases hw
      eq := ?_ }
  rw [h.eq, Messenger.createChanges, hrec]
  rfl

theorem Work.messenger {start : Db P.Key} {our : Bytes32} (h : Work start call db rows)
    (hour : ∀ o, Ours db o → o = our) : Messenger.Trans (P := P.toPlatform) our db rows := by
  have hid : ∀ identity, db.Ever .identity identity → Core.dhPublicKey P identity = our :=
    fun identity he => hour _ ⟨identity, he, rfl⟩
  cases h with
  | identity identity called h => exact .app (appTx_of_eq h.eq (by simp [Key.isMessenger]))
  | contact card called h => exact .app (appTx_of_eq h.eq (by simp [Key.isMessenger]))
  | initiate identity handle peerBundle bundle ephemeralSk dhs alice called h =>
    obtain rfl := hid identity h.stored
    exact .create _ h.create
  | respond identity handle bytes handshake record called own answers h =>
    obtain rfl := hid identity answers.stored
    cases h with
    | recorded h => exact .provisional _ _ h
    | retired peer old named h => exact .retire _ _ _ _ _ h
  | first identity handle wire provisional handshake record fresh new m called h =>
    obtain rfl := hid identity h.answers.stored
    exact .promote _ _ _ _ h.promote
  | send o ours handle clientId plaintext peer q old new m why h =>
    obtain rfl := hour o ours
    exact .send _ _ _ _ _ _ _ _ h
  | receive o ours handle wire peer old new m called h =>
    obtain rfl := hour o ours
    exact .receive _ _ _ _ _ _ h
  | ackOut handle id peer called why h => exact .ackOut _ _ _ h
  | ackIn handle id peer why h => exact .ackIn _ _ _ h
  | abandon handle id peer m contact own why h => exact .abandon _ _ _ _ h
  | remove o ours handle peer old why h =>
    obtain rfl := hour o ours
    exact .remove _ _ _ h
  | chat h => exact .app h.app

theorem Step.messenger {start : Db P.Key} {our : Bytes32} (h : Step start call db rows)
    (hour : ∀ o, Ours db o → o = our) : Messenger.Trans (P := P.toPlatform) our db rows := by
  cases h with
  | work h => exact h.messenger hour
  | prekeys called identity sk opk h => exact .app (appTx_of_eq h.eq (by simp [Key.isMessenger]))

theorem Trans.messenger {our : Bytes32} (h : Trans scope db rows) (hour : ∀ o, Ours db o → o = our) :
    Messenger.Trans (P := P.toPlatform) our db rows := by
  cases h with
  | call call _ h => exact h.messenger hour
  | legacy _ o ours handle rec h =>
    obtain rfl := hour o ours
    exact h.messenger

/-- The history is one of the messenger. -/
theorem valid_messenger {our : Bytes32} (hv : db.Valid (Trans scope)) (hour : ∀ o, Ours db o → o = our) :
    db.Valid (Messenger.Trans (P := P.toPlatform) our) := by
  induction hv with
  | empty => exact .empty
  | push hv ht ih =>
    have hour' := fun o ho => hour o (Ours.mono ho (Db.le_push _ _))
    exact .push (ih hour') (ht.messenger hour')

theorem exists_our (hv : db.Valid (Trans scope)) :
    ∃ our, (∀ o, Ours db o → o = our) ∧ db.Valid (Messenger.Trans (P := P.toPlatform) our) := by
  by_cases h : ∃ our, Ours db our
  · obtain ⟨our, ho⟩ := h
    have hour := fun o (h : Ours db o) => h.unique hv ho
    exact ⟨our, hour, valid_messenger hv hour⟩
  · have hour : ∀ o, Ours db o → o = default := fun o ho => absurd ⟨o, ho⟩ h
    exact ⟨default, hour, valid_messenger hv hour⟩

/-! ## Where sessions and handles come from -/

/-- The batch of a first message: the messenger's records, and perhaps the prekeys. -/
theorem FirstTx.mem_changes {identity : Identity} {handle : UInt64}
    {provisional : ProvisionalHandshake} {handshake : InitiatorHandshake} {record : PrekeyRecord}
    {fresh : UInt64 × StaticSecret} {new : SessionRecord P.Key} {m : IncomingMessage}
    {c : Change P.Key} (hc : c ∈ Messenger.promoteChanges (P := P.toPlatform)
      (firstContact identity handle provisional handshake record fresh) new m) :
    c = ⟨.session handshake.identityPk, some new⟩ ∨
      c = ⟨.handle handle, some handshake.identityPk⟩ ∨ c = ⟨.provisional handle, none⟩ ∨
      c = ⟨.inbox handshake.identityPk m.messageId, some m⟩ ∨
      c = ⟨.prekeys, some (Core.rotated record fresh)⟩ := by
  simp only [Messenger.promoteChanges, List.mem_cons] at hc
  rcases hc with hc | hc | hc | hc | hc
  · exact .inl hc
  · exact .inr (.inl hc)
  · exact .inr (.inr (.inl hc))
  · exact .inr (.inr (.inr (.inl hc)))
  · simp only [firstContact, consumed] at hc
    split at hc
    · cases hc
    · exact .inr (.inr (.inr (.inr (List.mem_singleton.mp hc))))

theorem FirstTx.session_after {identity : Identity} {handle : UInt64} {wire : Bytes}
    {provisional : ProvisionalHandshake} {handshake : InitiatorHandshake} {record : PrekeyRecord}
    {fresh : UInt64 × StaticSecret} {new : SessionRecord P.Key} {m : IncomingMessage}
    (h : FirstTx identity handle wire provisional handshake record fresh new m db rows) :
    rows.lookup (.session handshake.identityPk) = some new := by
  rw [h.promote.eq, Messenger.lookup_promoteChanges new m h.promote.extra _ rfl]
  exact Rows.lookup_applyAll_head _ _ (by simp)

/-- Where the session `rec` of `p` comes from, that a transaction leaves. -/
inductive SessionOrigin (scope : Scope P) (db : Db P.Key) (rows : Rows P.Key) (p : Peer)
    (rec : SessionRecord P.Key) : Prop
  | kept (h : db.rows.lookup (.session p) = some rec)
  | initiated (identity : Identity) (handle : UInt64) (peerBundle : Bytes) (bundle : PrekeyBundle)
      (ephemeralSk dhs : StaticSecret) (alice : AliceSession P.Key)
      (h : InitiateTx identity handle peerBundle bundle ephemeralSk dhs alice db rows)
      (peer_eq : bundle.identityPk = p) (role : rec.role = .initiator)
  | promoted (identity : Identity) (handle : UInt64) (wire : Bytes)
      (provisional : ProvisionalHandshake) (handshake : InitiatorHandshake) (record : PrekeyRecord)
      (fresh : UInt64 × StaticSecret) (m : IncomingMessage)
      (h : FirstTx identity handle wire provisional handshake record fresh rec m db rows)
      (peer_eq : handshake.identityPk = p)
  | sent (our : Bytes32) (handle : UInt64) (clientId plaintext : Bytes) (dest : Peer)
      (old : SessionRecord P.Key) (m : OutgoingMessage)
      (h : Messenger.SendTx (P := P.toPlatform) our handle clientId plaintext db dest p old rec m rows)
  | received (our : Bytes32) (handle : UInt64) (wire : Bytes) (old : SessionRecord P.Key)
      (m : IncomingMessage)
      (h : Messenger.ReceiveTx (P := P.toPlatform) our handle wire db p old rec m rows)
  | legacy (before : (db.push rows).Le scope.start) (unconfirmed : Messenger.LegacyUnconfirmed rec)

theorem Trans.session_origin (h : Trans scope db rows) {p : Peer} {rec : SessionRecord P.Key}
    (hl : rows.lookup (.session p) = some rec) : SessionOrigin scope db rows p rec := by
  -- Either the record is in the batch, or it was there before.
  have written : ∀ {cs : List (Change P.Key)}, rows = db.rows.applyAll cs →
      (⟨.session p, some rec⟩ ∈ cs → SessionOrigin scope db rows p rec) →
      SessionOrigin scope db rows p rec := by
    intro cs heq hw
    rw [heq] at hl
    rcases Rows.lookup_applyAll_some hl with h | h
    · exact hw h
    · exact .kept h
  cases h with
  | legacy before our ours handle rec' h =>
    refine written h.eq fun hm => ?_
    rcases List.mem_cons.mp hm with hm | hm
    · cases hm
      exact .legacy before h.unconfirmed
    · simp at hm
  | call call allowed h =>
    rcases h with h | ⟨called, identity, sk, opk, h⟩
    rotate_left
    · exact written h.eq (by simp)
    cases h with
    | identity identity called h => exact written h.eq (by simp)
    | contact card called h => exact written h.eq (by simp)
    | initiate identity handle peerBundle bundle ephemeralSk dhs alice called h =>
      refine written h.create.eq fun hm => ?_
      rcases List.mem_cons.mp hm with hm | hm
      · cases hm
        exact .initiated _ _ _ _ _ _ _ h rfl rfl
      · simp [Core.initiatorSession, Messenger.sideChanges] at hm
    | respond identity handle bytes handshake record called own answers h =>
      cases h with
      | recorded h => exact written h.eq (by simp)
      | retired peer old named h =>
        refine written h.eq fun hm => ?_
        simp only [List.mem_cons, List.not_mem_nil, or_false] at hm
        rcases hm with hm | hm | hm <;> cases hm
    | first identity handle wire provisional handshake record fresh new m called h =>
      refine written h.promote.eq fun hm => ?_
      rcases FirstTx.mem_changes hm with hm | hm | hm | hm | hm <;> cases hm
      exact .promoted _ _ _ _ _ _ _ _ h rfl
    | send our ours handle clientId plaintext peer q old new m why h =>
      refine written h.eq fun hm => ?_
      rcases List.mem_cons.mp hm with hm | hm
      · cases hm
        exact .sent _ _ _ _ _ _ _ h
      · simp at hm
    | receive our ours handle wire peer old new m called h =>
      refine written h.eq fun hm => ?_
      rcases List.mem_cons.mp hm with hm | hm
      · cases hm
        exact .received _ _ _ _ _ h
      · simp at hm
    | ackOut handle id peer called why h => exact written h.eq (by simp)
    | ackIn handle id peer why h => exact written h.eq (by simp)
    | abandon handle id peer m contact own why h => exact written h.eq (by simp)
    | remove our ours handle peer old why h =>
      refine written h.eq fun hm => ?_
      simp only [List.mem_cons, List.not_mem_nil, or_false] at hm
      rcases hm with hm | hm | hm <;> cases hm
    | chat h => exact .kept ((h.app _ rfl).symm.trans hl)

/-- The transaction stores a session with `p`, who had none. -/
def NewSessionOf (db : Db P.Key) (rows : Rows P.Key) (p : Peer) : Prop :=
  db.rows.lookup (.session p) = none ∧ ∃ rec : SessionRecord P.Key, rows.lookup (.session p) = some rec

/-- A handle that a transaction leaves was there, or comes with a session. -/
theorem Trans.handle_origin (h : Trans scope db rows) {handle : UInt64} {p : Peer}
    (hl : rows.lookup (.handle handle) = some p) :
    db.rows.lookup (.handle handle) = some p ∨ NewSessionOf db rows p := by
  have written : ∀ {cs : List (Change P.Key)}, rows = db.rows.applyAll cs →
      (⟨.handle handle, some p⟩ ∈ cs → NewSessionOf db rows p) →
      db.rows.lookup (.handle handle) = some p ∨ NewSessionOf db rows p := by
    intro cs heq hw
    rw [heq] at hl
    exact (Rows.lookup_applyAll_some hl).symm.imp_right hw
  cases h with
  | legacy before our ours h' rec' h =>
    refine written h.eq fun hm => ?_
    simp only [List.mem_cons, List.not_mem_nil, or_false] at hm
    rcases hm with hm | hm <;> cases hm
    refine ⟨h.noSession, rec', ?_⟩
    rw [h.eq]
    exact Rows.lookup_applyAll_head _ _ (by simp)
  | call call allowed h =>
    rcases h with h | ⟨called, identity, sk, opk, h⟩
    rotate_left
    · exact written h.eq (by simp)
    cases h with
    | identity identity called h => exact written h.eq (by simp)
    | contact card called h => exact written h.eq (by simp)
    | initiate identity h' peerBundle bundle ephemeralSk dhs alice called h =>
      refine written h.create.eq fun hm => ?_
      simp only [Messenger.createChanges, Core.initiatorSession, Messenger.sideChanges,
        Option.toList_some, List.map_cons, List.map_nil, List.filterMap_nil, List.append_nil,
        List.mem_cons, List.not_mem_nil, or_false] at hm
      rcases hm with hm | hm | hm <;> cases hm
      refine ⟨h.create.noSession, Messenger.newRecord (P := P.toPlatform) (Core.dhPublicKey P identity)
        (Core.initiatorSession handle (Core.dhPublicKey P identity) bundle alice dhs), ?_⟩
      rw [h.create.eq]
      refine Rows.lookup_applyAll_head _ _ ?_
      simp [Core.initiatorSession, Messenger.sideChanges]
    | respond identity h' bytes handshake record called own answers h =>
      cases h with
      | recorded h => exact written h.eq (by simp)
      | retired peer old named h =>
        refine written h.eq fun hm => ?_
        simp only [List.mem_cons, List.not_mem_nil, or_false] at hm
        rcases hm with hm | hm | hm <;> cases hm
    | first identity h' wire provisional handshake record fresh new m called h =>
      refine written h.promote.eq fun hm => ?_
      rcases FirstTx.mem_changes hm with hm | hm | hm | hm | hm <;> cases hm
      exact ⟨h.promote.noSession, new, h.session_after⟩
    | send our ours h' clientId plaintext peer q old new m why h =>
      exact written h.eq (by simp [Messenger.sendChanges])
    | receive our ours h' wire peer old new m called h =>
      exact written h.eq (by simp [Messenger.receiveChanges])
    | ackOut h' id peer called why h => exact written h.eq (by simp)
    | ackIn h' id peer why h => exact written h.eq (by simp)
    | abandon h' id peer m contact own why h => exact written h.eq (by simp)
    | remove our ours h' peer old why h =>
      refine written h.eq fun hm => ?_
      simp only [List.mem_cons, List.not_mem_nil, or_false] at hm
      rcases hm with hm | hm | hm <;> cases hm
    | chat h => exact .inl ((h.app _ rfl).symm.trans hl)

end Network

end Arcium
