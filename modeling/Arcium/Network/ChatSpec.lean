import Arcium.Network.CoreSpec

/-!
# The rules of the conversations

For each operation of `network.rs` and `network/chat.rs`, which of the transactions of `Work` it
commits and why, and what its result says about the history.
-/

namespace Arcium

open Conc

namespace Network

variable {P : AppPlatform} {start : Db P.Key} {call : Call} {I : Db P.Key → Prop}
  {A : Db P.Key → Request × Answer → Prop} {T : Db P.Key → Rows P.Key → Prop} {db : Db P.Key}
  {α β : Type}

/-! ## Records of a conversation -/

theorem metaOf_gives (peer : Peer) :
    Meets I A T (Gives fun m db => m = {} ∨ db.Ever (.chatMeta peer) m)
      (Chat.metaOf peer : Core P _) db := by
  refine (Meets.find (R := Gives fun v db' => ∀ w, v = some w → db'.Ever (.chatMeta peer) w)
    (fun db' _ _ => gives_ok fun w hw => Db.ever_now hw) fun _ _ _ _ _ => gives_error).gives_seq
    fun v db' _ hv => ?_
  cases v with
  | some w => exact .pure (gives_ok (.inr (hv w rfl)))
  | none => exact .pure (gives_ok (.inl rfl))

theorem getMeta_ok {rows : Rows P.Key} {read : (k : Key) → Except StorageError (Row P.Key k)}
    (hr : Reads rows read) {peer : Peer} {m : ChatMeta} (h : Chat.getMeta read peer = .ok m) :
    metaAt rows peer = m := by
  simp only [Chat.getMeta, bind, Except.bind] at h
  split at h
  · cases h
  next v hv =>
  have hl := getOpt_ok hr hv
  cases v with
  | some w =>
    obtain rfl : w = m := Except.ok.inj h
    simp only [metaAt, hl]
    rfl
  | none =>
    obtain rfl := Except.ok.inj h
    simp only [metaAt, hl]
    rfl

theorem updateMeta_runs {peer : Peer} {f : ChatMeta → ChatMeta} (hc : call.Describes peer)
    (hf : ∀ m, (f m).lastSeq = m.lastSeq) (hs : ∀ m, Chat.Short m → Chat.Short (f m)) :
    Runs I A (Work start call) (Chat.updateMeta peer f : Core P _) db := by
  refine .tx (fun db' read a c cs _ _ hr h => ?_) fun _ _ _ _ _ _ _ => trivial
  simp only [Chat.updateMetaTx, bind, Except.bind] at h
  split at h
  · cases h
  next m hm =>
  obtain rfl := getMeta_ok hr hm
  split at h
  · cases h
    exact ⟨.chat (.described peer hc f hf hs rfl), trivial⟩
  · cases h

theorem setFlag_runs {peer : Peer} {flag : UInt8} (hc : call.Describes peer) :
    Runs I A (Work start call) (Chat.setFlag peer flag : Core P _) db :=
  updateMeta_runs hc (fun _ => rfl) fun _ h => h.withFlags

theorem readEntries_gives (peer : Peer) (seqs : List Nat) :
    Meets I A T (Gives fun es db => ∀ e ∈ es, ∃ seq, db.Ever (.chatEntry peer seq) e)
      (Chat.readEntries peer seqs : Core P _) db := by
  induction seqs generalizing db with
  | nil => exact .pure (gives_ok fun _ h => nomatch h)
  | cons seq seqs ih =>
    refine (get_gives _).gives_seq fun e db₁ h₁ he => ih.gives_seq fun es db₂ h₂ hes => ?_
    refine .pure (gives_ok fun e' h' => ?_)
    rcases List.mem_cons.mp h' with rfl | h'
    · exact ⟨seq, he.mono h₂⟩
    · exact hes e' h'

theorem entries_gives (peer : Peer) :
    Meets I A T (Gives fun es db => ∀ e ∈ es, ∃ seq, db.Ever (.chatEntry peer seq) e)
      (Chat.entries peer : Core P _) db := by
  refine Meets.gives_seq (V := fun _ _ => True)
    (.keysUnder (fun _ _ _ => gives_ok trivial) fun _ _ _ _ => gives_error) fun seqs db₁ _ _ => ?_
  refine (readEntries_gives peer seqs).gives_seq fun es db₂ _ hes => .pure (gives_ok fun e he => ?_)
  exact hes e (List.mem_mergeSort.mp he)

theorem advance_runs {peer : Peer} {seq : Nat} {state : ChatEntryState} {id : Option MessageId}
    (why : ∀ db', db.Le db' → AdvanceWhy call db' peer seq state id) :
    Runs I A (Work start call) (Chat.advance peer seq state id : Core P _) db := by
  refine .tx (fun db' read a c cs hle _ hr h => ?_) fun _ _ _ _ _ _ _ => trivial
  simp only [Chat.advanceTx] at h
  split at h
  · cases h
  next e he =>
  split at h
  · next e' he' =>
    cases h
    exact ⟨.chat (.advanced peer seq state id e e' (hr.found _ _ he) he' (why db' hle) rfl), trivial⟩
  · cases h

/-- A received text that is recorded has its place in the history. -/
theorem recordIncoming_gives {peer : Peer} {m : IncomingMessage} {text : Bytes}
    (hc : call.Refreshes peer) (ha : AcceptedFrom db (localSessionHandle P peer) m)
    (hp : Payload.decode m.plaintext = some (.text text)) :
    Meets I A (Work start call) (Gives fun _ db => ∃ seq : Nat, db.Ever (.chatIn peer m.messageId.val) seq)
      (Chat.recordIncoming peer m.messageId text : Core P _) db := by
  refine Meets.gives_seq (V := fun _ _ => True) (.draw fun _ _ _ _ => gives_ok trivial)
    fun now db₁ h₁ _ => ?_
  refine .tx (fun db' read a c cs hle _ hr h => ?_) fun db' read a hle _ hr h => ?_
  · simp only [Chat.recordIncomingTx, bind, Except.bind] at h
    split at h
    · cases h
    next v hv =>
    have hl := getOpt_ok hr hv
    split at h
    · cases h
    next hn =>
    split at h
    · cases h
    next mt hm =>
    obtain rfl := getMeta_ok hr hm
    cases h
    refine ⟨.chat (.received peer hc m text now (ha.mono (h₁.trans hle)) hp ?_ rfl),
      (metaAt db'.rows peer).lastSeq + 1, Db.ever_now ?_⟩
    · cases v with
      | none => exact hl
      | some x => exact absurd rfl hn
    · rw [Db.push_rows, Rows.applyAll_cons]
      exact Rows.lookup_applyAll_head _ _ (by simp)
  · simp only [Chat.recordIncomingTx, bind, Except.bind] at h
    split at h
    · cases h
    next v hv =>
    have hl := getOpt_ok hr hv
    split at h
    · next hs =>
      obtain ⟨seq, rfl⟩ := Option.isSome_iff_exists.mp hs
      exact ⟨seq, Db.ever_now hl⟩
    · split at h
      · cases h
      · cases h

theorem claimForSendText_gives (i : Nat) {peer : Peer} {appId text : Bytes}
    (hc : call = .sendText i peer appId text) :
    Meets I A (Work start call) (Gives fun _ db => db.Ever (.chatRaw peer appId) ())
      (Chat.claimForSendText peer appId : Core P _) db := by
  refine .tx (fun db' read a c cs hle _ hr h => ?_) fun db' read a hle _ hr h => ?_
  · simp only [Chat.claimForSendTextTx, bind, Except.bind] at h
    split at h
    · cases h
    next v hv =>
    have hl := getOpt_ok hr hv
    split at h
    · cases h
    next hn =>
    obtain rfl : v = none := by simpa using hn
    dsimp only [pure, Except.pure] at h
    split at h
    · cases h
    split at h
    · cases h
      refine ⟨.chat (.claimed i peer appId text hc hl rfl), Db.ever_now ?_⟩
      exact Rows.lookup_applyAll_head _ _ (by simp)
    · cases h
  · simp only [Chat.claimForSendTextTx, bind, Except.bind] at h
    split at h
    · cases h
    split at h
    · cases h
    dsimp only [pure, Except.pure] at h
    split at h
    · cases h
    next v hv =>
    have hl := getOpt_ok hr hv
    split at h
    · cases h
    next hn =>
    cases v with
    | none => exact absurd rfl hn
    | some x => exact Db.ever_now hl

/-- What `chat_send` commits. -/
theorem queue_runs (i : Nat) {peer : Peer} {appId text : Bytes} {sentRaw : Bool} {now : UInt64}
    (hc : call = .chatSend i peer appId text) (hid : appId.length ≤ 63) :
    Runs I A (Work start call)
      (tx Core.storeErrors (Chat.queueTx peer appId text sentRaw now) : Core P _) db := by
  refine .tx (fun db' read a c cs _ _ hr h => ?_) fun _ _ _ _ _ _ _ => trivial
  simp only [Chat.queueTx, bind, Except.bind] at h
  split at h
  · cases h
  next v hv =>
  have hl := getOpt_ok hr hv
  cases v with
  | some seq => cases h
  | none =>
    dsimp only [pure, Except.pure] at h
    split at h
    · cases h
    next w hw =>
    have hw' := getOpt_ok hr hw
    split at h
    · cases h
    next hn =>
    split at h
    · cases h
    next m hm =>
    obtain rfl := getMeta_ok hr hm
    cases h
    refine ⟨.chat (.queued i peer appId text now hc hid hl ?_ rfl), trivial⟩
    cases w with
    | none => exact hw'
    | some x => simp at hn

/-! ## The relay -/

/-- Every request is allowed but a deletion. -/
def Free (A : Db P.Key → Request × Answer → Prop) : Prop :=
  ∀ db request answer, (∀ recipient items, request ≠ .delete recipient items) → A db (request, answer)

theorem asks_free (since : Db P.Key) : Free (Asks since) := by
  intro db request answer h
  cases request with
  | delete recipient items => exact absurd rfl (h recipient items)
  | _ => trivial

theorem request_runs {request : Request} {view : Answer → α}
    (hA : ∀ db' answer, db.Le db' → A db' (request, answer)) :
    Runs I A T (Network.request request view : Core P α) db := by
  refine .ask fun db' hle _ answer => ⟨hA db' answer hle, ?_⟩
  split
  · exact gives_error
  · exact gives_ok trivial

theorem connect_runs (hA : Free A) : Runs I A T (connect : Core P _) db :=
  request_runs fun _ _ _ => hA _ _ _ nofun

theorem requireContact_runs (peer : Peer) : Runs I A T (requireContact peer : Core P _) db := by
  refine (pinned_runs peer).gives_seq fun o _ _ _ => ?_
  split
  · exact .pure (gives_ok trivial)
  · exact .throw gives_error

/-- The last part of `put_bundle`. -/
theorem exportBundle_runs (hA : Free A) : Runs I A T (do
    let bundle ← Core.exportPrekeyBundle
    let our ← Core.ourIdentityPk
    Network.request (.putBundle our bundle) fun _ => () : Core P _) db :=
  exportPrekeyBundle_runs.gives_seq fun _ _ _ _ => ourIdentityPk_gives.gives_seq fun _ _ _ _ =>
    request_runs fun _ _ _ => hA _ _ _ nofun

theorem putBundle_runs (hA : Free A) (hc : call.EstablishesPrekeys) :
    Runs I A (Step start call) (putBundle : Core P _) db := by
  refine Meets.gives_seq (V := fun _ _ => True) (.find (fun _ _ _ => gives_ok trivial)
    fun _ _ _ _ _ => gives_error) fun o _ _ _ => ?_
  dsimp only
  split
  · exact (establishPrekeys_runs hc).gives_seq fun _ _ _ _ => exportBundle_runs hA
  · exact exportBundle_runs hA

theorem publishPrekeys_runs (hA : Free A) (hc : call.EstablishesPrekeys) :
    Runs I A (Step start call) (publishPrekeys : Core P _) db :=
  (connect_runs hA).gives_seq fun _ _ _ _ => putBundle_runs hA hc

/-- Every card is stored under the key it names. -/
def Filed (db : Db P.Key) : Prop := ∀ peer card, db.Ever (.contact peer) card → card.dhPk = peer

theorem requireContact_gives (hI : ∀ db, I db → Filed db) (peer : Peer) :
    Meets I A T (Gives fun card db' => card.dhPk = peer ∧ db'.Ever (.contact peer) card)
      (requireContact peer : Core P _) db := by
  refine Meets.gives_seq
    (V := fun o db' => ∀ card, o = some card → card.dhPk = peer ∧ db'.Ever (.contact peer) card)
    (.find (fun db' _ h => gives_ok fun card hc => ?_) fun _ _ _ _ _ => gives_error) fun o _ _ h => ?_
  · exact ⟨hI db' h peer card (Db.ever_now hc), Db.ever_now hc⟩
  cases o with
  | some card => exact .pure (gives_ok (h card rfl))
  | none => exact .throw gives_error

theorem startSession_runs (hI : ∀ db, I db → Filed db) (hA : Free A) (i : Nat) {peer : Peer}
    (hc : call.Starts peer) : Runs I A (Work start call) (startSession i peer : Core P _) db := by
  refine (requireContact_gives hI peer).gives_seq fun card db₁ _ ⟨hcard, hpinned⟩ => ?_
  refine (hasSession_runs _).gives_seq fun found db₂ h₂ _ => ?_
  dsimp only
  split
  · exact throw_gives
  refine (connect_runs hA).gives_seq fun _ db₃ h₃ _ => ?_
  refine Meets.gives_seq (V := fun _ _ => True) (request_runs fun _ _ _ => hA _ _ _ nofun)
    fun bundle db₄ h₄ _ => ?_
  split
  · exact .throw gives_error
  refine lift_gives fun parsed hp => ?_
  split
  · exact throw_gives
  next hne =>
  obtain ⟨hid, hsk⟩ := not_or.mp hne
  have hid := not_not.mp hid
  refine (establishSessionInitiator_runs i fun db' hle bundle hb => .inr ⟨peer, rfl, ?_⟩).gives_seq
    fun _ _ _ _ => ?_
  · obtain rfl := Except.ok.inj (hp.symm.trans hb)
    have hstored := hpinned.mono (h₂.trans (h₃.trans (h₄.trans hle)))
    exact ⟨hid.trans hcard, ⟨card, hstored, hid, not_not.mp hsk⟩, hc⟩
  · refine (sendCommitted_gives i fun db' _ => .opener peer rfl hc).gives_seq fun _ _ _ _ => ?_
    exact .pure (gives_ok trivial)

/-! ## Texts -/

/-- What `send_text` reports about a text. -/
def TextSays (db : Db P.Key) (peer : Peer) (appId : Bytes) (s : SentText) : Prop :=
  ∃ q o, Named db (localSessionHandle P peer) q ∧ s = sentText o ∧
    ((∃ m, o = .sent m ∧ db.Ever (.outbox q m.messageId) m ∧
        m.clientMessageId = ClientId.text appId) ∨
      ∃ db₀ : Db P.Key, db₀.Le db ∧
        Messenger.PriorAt (P := P.toPlatform) db₀.rows q (ClientId.text appId) o)

theorem TextSays.mono {db' : Db P.Key} {peer : Peer} {appId : Bytes} {s : SentText}
    (h : TextSays db peer appId s) (hle : db.Le db') : TextSays db' peer appId s := by
  obtain ⟨q, o, hn, hs, h⟩ := h
  refine ⟨q, o, hn.mono hle, hs, h.imp ?_ ?_⟩
  · rintro ⟨m, ho, he, hm⟩
    exact ⟨m, ho, he.mono hle, hm⟩
  · rintro ⟨db₀, h₀, h⟩
    exact ⟨db₀, h₀.trans hle, h⟩

theorem SendSays.text {peer : Peer} {appId : Bytes} {o : SendOutcome}
    (h : SendSays db (localSessionHandle P peer) (ClientId.text appId) o) :
    TextSays db peer appId (sentText o) := by
  cases h with
  | sent q m named stored client index => exact ⟨q, _, named, rfl, .inl ⟨m, rfl, stored, client⟩⟩
  | prior q _ named db₀ le h => exact ⟨q, o, named, rfl, .inr ⟨db₀, le, h⟩⟩

theorem sendCommittedText_gives (i : Nat) {peer : Peer} {appId text : Bytes}
    (why : ∀ db', db.Le db' → TextWhy call db' peer appId text) :
    Meets I A (Work start call) (Gives fun s db => TextSays db peer appId s)
      (sendCommittedText i peer appId text : Core P _) db := by
  refine (requireContact_runs peer).gives_seq fun _ _ h₁ _ => ?_
  refine (sendCommitted_gives i fun db' hle => .text peer appId text rfl
    (why db' (h₁.trans hle))).gives_seq fun o _ _ ho => .pure (gives_ok ho.text)

theorem sendText_runs (i : Nat) {peer : Peer} {appId text : Bytes}
    (hc : call = .sendText i peer appId text) :
    Runs I A (Work start call) (sendText i peer appId text : Core P _) db := by
  refine (requireContact_runs peer).gives_seq fun _ _ _ _ => ?_
  split
  · exact throw_gives
  refine (claimForSendText_gives i hc).gives_seq fun _ _ _ h => ?_
  exact Meets.runs (sendCommittedText_gives i fun db' hle => .claimed i hc (h.mono hle))

/-- The texts among accepted messages, each with its message. -/
def TextsOf (db : Db P.Key) (peer : Peer) (texts : List (MessageId × Bytes)) : Prop :=
  ∀ x ∈ texts, ∃ m : IncomingMessage, AcceptedFrom db (localSessionHandle P peer) m ∧
    m.messageId = x.1 ∧ Payload.decode m.plaintext = some (.text x.2)

theorem pendingTexts_gives (peer : Peer) :
    Meets I A T (Gives fun texts db => TextsOf db peer texts) (pendingTexts peer : Core P _) db := by
  refine (pendingCommitted_gives _).gives_seq fun ms _ _ h => .pure (gives_ok fun x hx => ?_)
  obtain ⟨m, hm, hx⟩ := List.mem_filterMap.mp hx
  split at hx
  · next text hp =>
    obtain rfl := Option.some.inj hx
    exact ⟨m, h m hm, rfl, hp⟩
  · cases hx

theorem undelivered_runs (peer : Peer) : Runs I A T (undelivered peer : Core P _) db :=
  (pendingOutgoing_gives _).gives_seq fun _ _ _ _ => .pure (gives_ok trivial)

theorem markRead_runs {peer : Peer} {bytes : Bytes} (hc : call = .markRead peer bytes) :
    Runs I A (Work start call) (markRead peer bytes : Core P _) db :=
  acknowledgeIncoming_runs fun _ hid _ _ => .raw (.inr ⟨peer, rfl, hid ▸ hc⟩)

/-! ## Refreshing -/

theorem recordTexts_runs {peer : Peer} (hc : call.Refreshes peer) (texts : List (MessageId × Bytes))
    (h : TextsOf db peer texts) :
    Runs I A (Work start call) (Chat.recordTexts peer texts : Core P _) db := by
  induction texts generalizing db with
  | nil => exact .pure (gives_ok trivial)
  | cons x texts ih =>
    obtain ⟨id, text⟩ := x
    obtain ⟨m, ha, rfl, hp⟩ := h _ List.mem_cons_self
    refine (recordIncoming_gives hc ha hp).gives_seq fun _ db₁ h₁ hist => ?_
    obtain ⟨seq, hist⟩ := hist
    refine (acknowledgeIncoming_runs fun id' hid db' hle => ?_).gives_seq fun _ db₂ h₂ _ =>
      ih fun y hy => ?_
    · obtain rfl := Subtype.ext hid
      exact .recorded peer hc m text rfl (ha.mono (h₁.trans hle)) rfl hp ⟨seq, hist.mono hle⟩
    · obtain ⟨m', ha', hm'⟩ := h y (List.mem_cons_of_mem _ hy)
      exact ⟨m', ha'.mono (h₁.trans h₂), hm'⟩

theorem wasSent_runs (i : Nat) (bytes : Bytes) : Runs I A T (wasSent i bytes : Core P _) db := by
  unfold wasSent
  split
  · exact .remembered fun _ _ _ _ => gives_ok trivial
  · exact .pure (gives_ok trivial)

theorem settleEntry_runs (i : Nat) {peer : Peer} (hc : call.Refreshes peer)
    (pending : List MessageId) (e : Entry) (he : ∃ key, db.Ever (.chatEntry peer key) e) :
    Runs I A (Work start call) (Chat.settleEntry i peer pending e : Core P _) db := by
  obtain ⟨key, he⟩ := he
  unfold Chat.settleEntry
  split
  · refine (priorSend_gives peer _).gives_seq fun o db₁ h₁ hp => ?_
    split
    · next state hs =>
      refine advance_runs fun db' hle => ?_
      cases o with
      | none => cases hs
      | some o =>
        obtain ⟨db₀, h₀, hp⟩ := hp o rfl
        exact .settled hc key e o state (he.mono (h₁.trans hle)) rfl ⟨db₀, h₀.trans hle, hp⟩ hs
    · exact .pure (gives_ok trivial)
  · split
    · refine (wasSent_runs i _).gives_seq fun sent _ _ _ => ?_
      split
      · exact advance_runs fun db' _ => .transmitted hc
      · exact .pure (gives_ok trivial)
    · exact .pure (gives_ok trivial)

theorem refreshEntry_runs (i : Nat) {peer : Peer} (hc : call.Refreshes peer) (canSend : Bool)
    (pending : List MessageId) (e : Entry) (r : Chat.Refresh) (ho : e.outgoing = true)
    (he : ∃ key, db.Ever (.chatEntry peer key) e) :
    Runs I A (Work start call) (Chat.refreshEntry i peer canSend pending e r : Core P _) db := by
  have committed : Runs I A (Work start call) (Chat.settleEntry i peer pending e : Core P _) db :=
    settleEntry_runs i hc pending e he
  obtain ⟨key, he⟩ := he
  unfold Chat.refreshEntry
  split
  · split
    · refine (sendCommittedText_gives i fun db' hle => .queued hc key e (he.mono hle) ho rfl rfl).gives_seq
        fun s db₁ h₁ hs => ?_
      refine (advance_runs fun db' hle => ?_).gives_seq fun _ _ _ _ => .pure (gives_ok trivial)
      exact .sent hc key e s (he.mono (h₁.trans hle)) rfl ho (hs.mono hle)
    · exact .pure (gives_ok trivial)
  · exact committed.gives_seq fun _ _ _ _ => .pure (gives_ok trivial)
  · exact committed.gives_seq fun _ _ _ _ => .pure (gives_ok trivial)
  · exact .pure (gives_ok trivial)

theorem refreshEntries_runs (i : Nat) {peer : Peer} (hc : call.Refreshes peer) (canSend : Bool)
    (pending : List MessageId) (es : List Entry) (r : Chat.Refresh)
    (hes : ∀ e ∈ es, ∃ key, db.Ever (.chatEntry peer key) e) :
    Runs I A (Work start call) (Chat.refreshEntries i peer canSend pending es r : Core P _) db := by
  induction es generalizing db r with
  | nil => exact .pure (gives_ok trivial)
  | cons e es ih =>
    have rest : ∀ db', db.Le db' → ∀ e ∈ es, ∃ key, db'.Ever (.chatEntry peer key) e :=
      fun db' hle e he => (hes e (List.mem_cons_of_mem _ he)).imp fun _ h => h.mono hle
    unfold Chat.refreshEntries
    split
    · next ho =>
      exact (refreshEntry_runs i hc canSend pending e r ho (hes e List.mem_cons_self)).gives_seq
        fun r' db' hle _ => ih r' (rest db' hle)
    · exact ih r (rest db (Db.Le.refl _))

theorem refresh_runs (i : Nat) {peer : Peer} (hc : call.Refreshes peer) :
    Runs I A (Work start call) (Chat.refresh i peer : Core P _) db := by
  have entries : ∀ (canSend : Bool) (pending : List MessageId) (db : Db P.Key),
      Runs I A (Work start call) (do
        Chat.refreshEntries i peer canSend pending (← Chat.entries peer) {} : Core P _) db :=
    fun canSend pending db => (entries_gives peer).gives_seq fun es _ _ hes =>
      refreshEntries_runs i hc canSend pending es {} hes
  refine (hasSession_runs _).gives_seq fun found db₁ _ _ => ?_
  dsimp only
  split
  · refine (pendingTexts_gives peer).gives_seq fun texts _ _ ht => ?_
    refine (recordTexts_runs hc texts ht).gives_seq fun _ _ _ _ => ?_
    refine (pendingOutgoing_gives _).gives_seq fun ms _ _ _ => ?_
    exact (isLegacyUnconfirmed_runs _).gives_seq fun legacy _ _ _ => entries _ _ _
  · exact entries _ _ _

theorem chatEntries_runs (i : Nat) {peer : Peer} (hc : call.Refreshes peer) :
    Runs I A (Work start call) (Chat.chatEntries i peer : Core P _) db :=
  (requireContact_runs peer).gives_seq fun _ _ _ _ => (refresh_runs i hc).gives_seq fun _ _ _ _ =>
    Meets.runs (entries_gives peer)

theorem chatSend_runs (i : Nat) {peer : Peer} {appId text : Bytes}
    (hc : call = .chatSend i peer appId text) :
    Runs I A (Work start call) (Chat.chatSend i peer appId text : Core P _) db := by
  refine (requireContact_runs peer).gives_seq fun _ _ _ _ => ?_
  dsimp only
  split
  · exact throw_gives
  next hid =>
  split
  · exact throw_gives
  refine (priorSend_gives peer _).gives_seq fun o _ _ _ => ?_
  refine Meets.gives_seq (V := fun _ _ => True) (.draw fun _ _ _ _ => gives_ok trivial) fun now _ _ _ => ?_
  refine (queue_runs i hc (Nat.not_lt.mp fun hlt => hid (.inr hlt))).gives_seq fun seq _ _ _ => ?_
  refine (refresh_runs i (by rw [hc]; rfl)).gives_seq fun _ _ _ _ => Meets.runs (get_gives _)

/-! ## Conflicts -/

theorem giveUpEntries_runs {peer : Peer} (es : List Entry)
    (why : ∀ db', db.Le db' → GivesUp call db' peer) :
    Runs I A (Work start call) (Chat.giveUpEntries peer es : Core P _) db := by
  induction es generalizing db with
  | nil => exact .pure (gives_ok trivial)
  | cons e es ih =>
    unfold Chat.giveUpEntries
    dsimp only
    split
    · exact (advance_runs fun db' hle => .givenUp (why db' hle)).gives_seq fun _ db' hle _ =>
        ih fun db'' hle' => why db'' (hle.trans hle')
    · exact ih why

theorem abandonAll_runs {peer : Peer} (ms : List OutgoingMessage)
    (why : ∀ db', db.Le db' → GivesUp call db' peer) :
    Runs I A (Work start call) (Chat.abandonAll (localSessionHandle P peer) ms : Core P _) db := by
  induction ms generalizing db with
  | nil => exact .pure (gives_ok trivial)
  | cons m ms ih =>
    exact (abandonOutgoing_runs why).gives_seq fun _ db' hle _ =>
      ih fun db'' hle' => why db'' (hle.trans hle')

theorem awaitPeer_runs {peer : Peer} (hc : call.Describes peer) :
    Runs I A (Work start call) (Chat.awaitPeer peer : Core P _) db :=
  updateMeta_runs hc (fun _ => rfl) fun _ h => h.withFlags.withFlags.withNote (by decide)

theorem resolveSessionConflict_runs (i : Nat) {peer : Peer}
    (hc : call = .resolveSessionConflict i peer) :
    Runs I A (Work start call) (Chat.resolveSessionConflict i peer : Core P _) db := by
  have hd : call.Describes peer := by rw [hc]; rfl
  refine (requireContact_runs peer).gives_seq fun _ _ _ _ => ?_
  refine (metaOf_gives peer).gives_seq fun m db₁ _ hm => ?_
  dsimp only
  split
  · exact throw_gives
  next hflag =>
  have hm : db₁.Ever (.chatMeta peer) m := by
    rcases hm with rfl | hm
    · exact absurd (by decide) hflag
    · exact hm
  refine ourIdentityPk_gives.gives_seq fun our db₂ h₂ ho => ?_
  split
  · exact throw_gives
  next hlt =>
  have why : ∀ db', db₂.Le db' → GivesUp call db' peer := fun db' hle =>
    ⟨⟨i, hc⟩, ⟨m, hm.mono (h₂.trans hle), hflag⟩, our, ho.mono hle, hlt⟩
  refine (hasSession_runs _).gives_seq fun found db₃ h₃ _ => ?_
  split
  · exact awaitPeer_runs hd
  refine (confirmed_runs _).gives_seq fun c db₄ h₄ _ => ?_
  split
  · exact updateMeta_runs hd (fun _ => rfl) fun _ h => h.withFlags
  refine (updateMeta_runs hd (fun _ => by rfl) fun _ h => by exact h.withFlags).gives_seq
    fun _ db₅ h₅ _ => ?_
  refine (entries_gives peer).gives_seq fun es db₆ h₆ _ => ?_
  have h₆ := h₃.trans (h₄.trans (h₅.trans h₆))
  refine (giveUpEntries_runs es fun db' hle => why db' (h₆.trans hle)).gives_seq fun _ db₇ h₇ _ => ?_
  refine (pendingOutgoing_gives _).gives_seq fun ms db₈ h₈ _ => ?_
  have h₈ := h₆.trans (h₇.trans h₈)
  refine (abandonAll_runs ms fun db' hle => why db' (h₈.trans hle)).gives_seq fun _ db₉ h₉ _ => ?_
  refine (removeSession_runs i fun db' hle => .inr ⟨peer, rfl, why db' (h₈.trans (h₉.trans hle))⟩).gives_seq
    fun _ _ _ _ => awaitPeer_runs hd

theorem checkedName_short {name name' : String} (h : Chat.checkedName name = .ok name') :
    name'.utf8ByteSize < 2 ^ 16 := by
  unfold Chat.checkedName at h
  dsimp only at h
  split at h
  · cases h
  · next hn =>
    obtain rfl := Except.ok.inj h
    have hle := Nat.not_lt.mp fun hlt => hn (.inr hlt)
    exact Nat.lt_of_le_of_lt hle (by decide)

seal Chat.checkedName in
theorem addNamedContact_runs {card : Bytes} {name : String}
    (hc : call = .addNamedContact card name) :
    Runs I A (Work start call) (Chat.addNamedContact card name : Core P _) db := by
  refine lift_gives fun name' hn => ?_
  refine (addContact_runs ⟨card, .inr ⟨name, hc⟩⟩).gives_seq fun peer _ _ _ => ?_
  have hd : call.Describes peer := by rw [hc]; trivial
  exact (updateMeta_runs hd (fun _ => by rfl) fun _ h => by exact h.withName (checkedName_short hn)).gives_seq
    fun _ _ _ _ => .pure (gives_ok trivial)

seal Chat.checkedName in
theorem renameContact_runs {peer : Peer} {name : String} (hc : call = .renameContact peer name) :
    Runs I A (Work start call) (Chat.renameContact peer name : Core P _) db :=
  have hd : call.Describes peer := by rw [hc]; rfl
  lift_gives fun _ hn => (requireContact_runs peer).gives_seq fun _ _ _ _ =>
    updateMeta_runs hd (fun _ => rfl) fun _ h => h.withName (checkedName_short hn)

theorem markSeen_runs {peer : Peer} (hc : call = .markSeen peer) :
    Runs I A (Work start call) (Chat.markSeen peer : Core P _) db :=
  have hd : call.Describes peer := by rw [hc]; rfl
  (requireContact_runs peer).gives_seq fun _ _ _ _ =>
    updateMeta_runs hd (fun _ => rfl) fun _ h => ⟨Nat.le_refl _, h.name, h.note⟩

end Network

end Arcium
