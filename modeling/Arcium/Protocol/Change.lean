import Arcium.Protocol.Transition

/-!
# What a transaction does to one record

For each kind of record of the messenger, every way in which a transaction of `Trans` can change it.
The invariants are proved from these lists, one case each.
-/

namespace Arcium

namespace Messenger

variable {P : Platform} {our : Bytes32} {db : Db P.Key} {rows : Rows P.Key}

theorem sideChanges_key {extra : List (SideWrite P.Key)} {c : Change P.Key}
    (hc : c ∈ sideChanges extra) : ∃ w ∈ extra, w.key = c.key := by
  simp only [sideChanges, List.mem_filterMap] at hc
  obtain ⟨w, hw, hc⟩ := hc
  refine ⟨w, hw, ?_⟩
  unfold Write.change at hc
  split at hc
  · cases hc; rfl
  · cases hc; rfl
  · cases hc

/-- Extra records of the application leave the messenger's records alone. -/
theorem lookup_sideChanges {extra : List (SideWrite P.Key)} (hx : AppOnly extra) {k : Key}
    (hk : k.isMessenger = true) (rows : Rows P.Key) :
    (rows.applyAll (sideChanges extra)).lookup k = rows.lookup k := by
  refine Rows.lookup_applyAll_ne rows fun c hc heq => ?_
  obtain ⟨w, hw, hkey⟩ := sideChanges_key hc
  have happ := hx w hw
  rw [hkey, ← heq, hk] at happ
  cases happ

theorem lookup_createChanges (our : Bytes32) {new : NewSession P.Key} (hx : AppOnly new.extra)
    (k : Key) (hk : k.isMessenger = true) (rows : Rows P.Key) :
    (rows.applyAll (createChanges our new)).lookup k = (rows.applyAll
      (⟨.session new.session.peerIdentityPk, some (newRecord our new)⟩ ::
        ⟨.handle new.handle, some new.session.peerIdentityPk⟩ ::
        (new.initialOutbound.toList.map fun b =>
          ⟨.handshake new.session.peerIdentityPk, some b⟩))).lookup k :=
  (congrArg (AList.lookup k) (Rows.applyAll_append rows _ _)).trans (lookup_sideChanges hx hk _)

theorem lookup_promoteChanges {first : FirstContact P.Key} (new : SessionRecord P.Key)
    (m : IncomingMessage) (hx : AppOnly first.extra) (k : Key) (hk : k.isMessenger = true)
    (rows : Rows P.Key) :
    (rows.applyAll (promoteChanges first new m)).lookup k = (rows.applyAll
      [⟨.session first.session.peerIdentityPk, some new⟩,
        ⟨.handle first.handle, some first.session.peerIdentityPk⟩,
        ⟨.provisional first.handle, none⟩,
        ⟨.inbox first.session.peerIdentityPk m.messageId, some m⟩]).lookup k :=
  (congrArg (AList.lookup k) (Rows.applyAll_append rows [_, _, _, _] _)).trans (lookup_sideChanges hx hk _)

/-- The handshake of a new session is the only record its optional write touches. -/
theorem lookup_handshakes {peer : Peer} {k : Key} (hk : k ≠ .handshake peer) (o : Option Bytes)
    (rows : Rows P.Key) :
    (rows.applyAll (o.toList.map fun b => ⟨.handshake peer, some b⟩)).lookup k = rows.lookup k := by
  refine Rows.lookup_applyAll_ne rows fun c hc => ?_
  obtain ⟨b, -, rfl⟩ := List.mem_map.mp hc
  exact hk

/-! ## Sessions -/

/-- The transactions that end the session `old` of `peer`. -/
inductive EndTx (our : Bytes32) (db : Db P.Key) (peer : Peer) (old : SessionRecord P.Key)
    (rows : Rows P.Key) : Prop
  | remove (handle : UInt64) (h : RemoveTx our handle db peer old rows)
  | retire (handle : UInt64) (record : ProvisionalHandshake) (validated : ValidatedRecord P.Key)
      (h : RetireTx our handle record validated db peer old rows)

/-- How a transaction changes the session record of `peer`. -/
inductive SessionChange (our : Bytes32) (db : Db P.Key) (rows : Rows P.Key) (peer : Peer) : Prop
  | same (h : rows.lookup (.session peer) = db.rows.lookup (.session peer))
  | created (new : SessionRecord P.Key) (before : db.rows.lookup (.session peer) = none)
      (after : rows.lookup (.session peer) = some new) (generation : new.generation = 0)
      (bound : new.Bound our peer)
  | promoted (first : FirstContact P.Key) (wire : Bytes) (new : SessionRecord P.Key)
      (m : IncomingMessage) (h : PromoteTx our first wire db new m rows)
      (peer_eq : first.session.peerIdentityPk = peer)
      (before : db.rows.lookup (.session peer) = none)
      (after : rows.lookup (.session peer) = some new)
  | sent (handle : UInt64) (clientId plaintext : Bytes) (dest : Peer) (old new : SessionRecord P.Key)
      (m : OutgoingMessage) (h : SendTx our handle clientId plaintext db dest peer old new m rows)
      (after : rows.lookup (.session peer) = some new)
  | received (handle : UInt64) (wire : Bytes) (old new : SessionRecord P.Key) (m : IncomingMessage)
      (h : ReceiveTx our handle wire db peer old new m rows)
      (after : rows.lookup (.session peer) = some new)
  | ended (old : SessionRecord P.Key) (ever : db.Ever (.session peer) old)
      (unchanged : Unchanged db peer old) (unconfirmed : old.ratchet.hasReceivingChain = false)
      (after : rows.lookup (.session peer) = none) (tx : EndTx our db peer old rows)

theorem LegacyUnconfirmed.hasReceivingChain {rec : SessionRecord P.Key}
    (h : LegacyUnconfirmed rec) : rec.ratchet.hasReceivingChain = false := by
  obtain ⟨-, -, h⟩ := h
  simp only [DoubleRatchet.isInitialResponderState, Bool.and_eq_true] at h
  simpa [DoubleRatchet.hasReceivingChain] using h.1.1.1.1.2

/-- A transaction changes one session record, if any. -/
theorem Trans.one_session (h : Trans our db rows) :
    ∃ p, SessionChange our db rows p ∧
      ∀ q, q ≠ p → rows.lookup (.session q) = db.rows.lookup (.session q) := by
  have hsame : (∀ q, rows.lookup (.session q) = db.rows.lookup (.session q)) →
      ∃ p, SessionChange our db rows p ∧
        ∀ q, q ≠ p → rows.lookup (.session q) = db.rows.lookup (.session q) := fun h =>
    ⟨our, .same (h our), fun q _ => h q⟩
  cases h with
  | create new h =>
    have hl := fun q => lookup_createChanges our h.extra (.session q) rfl db.rows
    rw [← h.eq] at hl
    refine ⟨new.session.peerIdentityPk, .created _ h.noSession ?_ rfl h.bound, fun q hq => ?_⟩
    · rw [hl, Rows.applyAll_cons, Rows.applyAll_cons, lookup_handshakes (by simp),
        Rows.lookup_apply_ne _ (by simp)]
      exact Rows.lookup_apply_self _ _ _
    · rw [hl, Rows.applyAll_cons, Rows.applyAll_cons, lookup_handshakes (by simp),
        Rows.lookup_apply_ne _ (by simp), Rows.lookup_apply_ne _ (by simpa using hq)]
  | provisional handle record h =>
    refine hsame fun q => ?_
    rw [h.eq]
    exact Rows.lookup_applyAll_ne _ (by simp)
  | retire handle record validated p old h =>
    refine ⟨p, .ended old h.loaded.ever h.unchanged h.legacy.hasReceivingChain ?_ (.retire _ _ _ h),
      fun q hq => ?_⟩
    · rw [h.eq]
      exact Rows.lookup_applyAll_head _ _ (by simp)
    · rw [h.eq]
      exact Rows.lookup_applyAll_ne _ (by simp [hq])
  | promote first wire new m h =>
    have hl := fun q => lookup_promoteChanges new m h.extra (.session q) rfl db.rows
    rw [← h.eq] at hl
    refine ⟨first.session.peerIdentityPk, .promoted first wire new m h rfl h.noSession ?_,
      fun q hq => ?_⟩
    · rw [hl]
      exact Rows.lookup_applyAll_head _ _ (by simp)
    · rw [hl]
      exact Rows.lookup_applyAll_ne _ (by simp [hq])
  | send handle clientId plaintext dest p old new m h =>
    refine ⟨p, .sent _ _ _ _ _ _ _ h ?_, fun q hq => ?_⟩
    · rw [h.eq]
      exact Rows.lookup_applyAll_head _ _ (by simp)
    · rw [h.eq]
      exact Rows.lookup_applyAll_ne _ (by simp [sendChanges, hq])
  | receive handle wire p old new m h =>
    refine ⟨p, .received _ _ _ _ _ h ?_, fun q hq => ?_⟩
    · rw [h.eq]
      exact Rows.lookup_applyAll_head _ _ (by simp)
    · rw [h.eq]
      exact Rows.lookup_applyAll_ne _ (by simp [receiveChanges, hq])
  | ackOut handle id p h =>
    refine hsame fun q => ?_
    rw [h.eq]
    exact Rows.lookup_applyAll_ne _ (by simp)
  | ackIn handle id p h =>
    refine hsame fun q => ?_
    rw [h.eq]
    exact Rows.lookup_applyAll_ne _ (by simp)
  | abandon handle id p m h =>
    refine hsame fun q => ?_
    rw [h.eq]
    exact Rows.lookup_applyAll_ne _ (by simp)
  | remove handle p old h =>
    refine ⟨p, .ended old h.loaded.ever h.unchanged h.unconfirmed ?_ (.remove _ h), fun q hq => ?_⟩
    · rw [h.eq]
      exact Rows.lookup_applyAll_head _ _ (by simp)
    · rw [h.eq]
      exact Rows.lookup_applyAll_ne _ (by simp [hq])
  | app h => exact hsame fun q => h _ rfl

theorem Trans.session (h : Trans our db rows) (peer : Peer) : SessionChange our db rows peer := by
  obtain ⟨p, hp, hne⟩ := h.one_session
  by_cases hpe : peer = p
  · exact hpe ▸ hp
  · exact .same (hne peer hpe)

/-! ## Messages -/

/-- `rows` has the message records of `db` after `cs`. -/
def MessagesAfter (db : Db P.Key) (rows : Rows P.Key) (cs : List (Change P.Key)) : Prop :=
  ∀ k : Key, k.isMessage = true → rows.lookup k = (db.rows.applyAll cs).lookup k

/-- The transactions that accept the message `m` of `peer`. -/
inductive AcceptTx (our : Bytes32) (db : Db P.Key) (peer : Peer) (m : IncomingMessage)
    (rows : Rows P.Key) : Prop
  | receive (handle : UInt64) (wire : Bytes) (old new : SessionRecord P.Key)
      (h : ReceiveTx our handle wire db peer old new m rows)
  | promote (first : FirstContact P.Key) (wire : Bytes) (new : SessionRecord P.Key)
      (h : PromoteTx our first wire db new m rows) (peer_eq : first.session.peerIdentityPk = peer)

/-- How a transaction changes the records about messages. -/
inductive MessageChange (our : Bytes32) (db : Db P.Key) (rows : Rows P.Key) : Prop
  | same (after : MessagesAfter db rows [])
  | sent (peer : Peer) (m : OutgoingMessage) (wire : messageId P m.wire = m.messageId)
      (noOutbox : db.rows.lookup (.outbox peer m.messageId) = none)
      (noSendid : db.rows.lookup (.sendid peer m.clientMessageId) = none)
      (after : MessagesAfter db rows [⟨.outbox peer m.messageId, some m⟩,
        ⟨.sendid peer m.clientMessageId, some (.sent m.messageId)⟩])
      (tx : ∃ handle clientId plaintext q old new,
        SendTx our handle clientId plaintext db peer q old new m rows)
  | accepted (peer : Peer) (m : IncomingMessage)
      (noInbox : db.rows.lookup (.inbox peer m.messageId) = none)
      (noSeen : db.rows.lookup (.seen peer m.messageId) = none)
      (after : MessagesAfter db rows [⟨.inbox peer m.messageId, some m⟩])
      (tx : AcceptTx our db peer m rows)
  | acknowledgedOut (peer : Peer) (id : MessageId)
      (after : MessagesAfter db rows [⟨.outbox peer id, none⟩])
      (tx : ∃ handle, AckOutTx handle id db peer rows)
  | acknowledgedIn (peer : Peer) (id : MessageId) (m : IncomingMessage)
      (stored : db.rows.lookup (.inbox peer id) = some m)
      (after : MessagesAfter db rows [⟨.inbox peer id, none⟩, ⟨.seen peer id, some id⟩])
      (tx : ∃ handle, AckInTx handle id db peer rows)
  | abandoned (peer : Peer) (id : MessageId) (m : OutgoingMessage)
      (stored : db.rows.lookup (.outbox peer id) = some m)
      (after : MessagesAfter db rows [⟨.outbox peer id, none⟩,
        ⟨.sendid peer m.clientMessageId, some (.abandoned id)⟩])
      (tx : ∃ handle, AbandonTx handle id db peer m rows)

/-- Writes to other records do not count. -/
theorem messagesAfter_of_eq {cs : List (Change P.Key)} (h : rows = db.rows.applyAll cs) :
    MessagesAfter db rows (cs.filter fun c => c.key.isMessage) := by
  intro k hk
  rw [h]
  exact Rows.lookup_applyAll_filter Key.isMessage hk cs db.rows

theorem Trans.messages (h : Trans our db rows) : MessageChange our db rows := by
  cases h with
  | create new h =>
    refine .same fun k hk => ?_
    have hk' := Key.isMessenger_of_isMessage hk
    rw [h.eq, lookup_createChanges our h.extra k hk', Rows.applyAll_cons, Rows.applyAll_cons,
      lookup_handshakes, Rows.lookup_apply_ne, Rows.lookup_apply_ne]
    · rfl
    all_goals rintro rfl; cases hk
  | provisional handle record h => exact .same (messagesAfter_of_eq h.eq)
  | retire handle record validated p old h => exact .same (messagesAfter_of_eq h.eq)
  | promote first wire new m h =>
    refine .accepted _ m h.noInbox h.noSeen (fun k hk => ?_) (.promote _ _ _ h rfl)
    rw [h.eq, lookup_promoteChanges new m h.extra k (Key.isMessenger_of_isMessage hk)]
    exact Rows.lookup_applyAll_filter Key.isMessage hk _ _
  | send handle clientId plaintext dest q old new m h =>
    have hm := h.message
    refine .sent dest m ?_ h.noOutbox ?_ (messagesAfter_of_eq h.eq) ⟨_, _, _, _, _, _, h⟩
    · rw [hm]
    · rw [hm]
      exact h.noSendid
  | receive handle wire p old new m h =>
    exact .accepted p m h.noInbox h.noSeen (messagesAfter_of_eq h.eq) (.receive _ _ _ _ h)
  | ackOut handle id p h => exact .acknowledgedOut p id (messagesAfter_of_eq h.eq) ⟨handle, h⟩
  | ackIn handle id p h =>
    obtain ⟨m, hm, -⟩ := h.stored
    exact .acknowledgedIn p id m hm (messagesAfter_of_eq h.eq) ⟨handle, h⟩
  | abandon handle id p m h =>
    exact .abandoned p id m h.stored (messagesAfter_of_eq h.eq) ⟨handle, h⟩
  | remove handle p old h => exact .same (messagesAfter_of_eq h.eq)
  | app h => exact .same fun k hk => h k (Key.isMessenger_of_isMessage hk)

end Messenger

end Arcium
