import Mathlib.Data.List.Induction
import Mathlib.Logic.Function.Basic
import Arcium.Base.Bytes

/-!
# The users of the program (`init_user`, `submit_query`)

The program (`arcium-psi/programs/arcium-psi/src/lib.rs`) keeps one account for each user, at an
address derived from the user's key, with the nonce of its last query. A transaction is a list of
instructions; if one is refused, then none of them happens.

* `Instruction.exec`: an instruction, with what the framework checks of its accounts.
* `Chain.submit`: a transaction, and the queries that were accepted so far.
* `queries_in_order`: over any transactions, what an account holds is what its owner asked.
-/

namespace Arcium

namespace Psi

abbrev Pubkey := Bytes32

/-- `UserState`. -/
structure UserState where
  owner : Pubkey
  queriesMade : UInt64
  lastNonce : UInt64
  bump : UInt8
  deriving DecidableEq

/-- Why an instruction fails. -/
inductive ProgramError where
  /-- `PsiError::NonceReused`. -/
  | nonceReused
  /-- The framework refuses the accounts. -/
  | constraint
  deriving DecidableEq

/-- The instructions, with their accounts: the state of the user and who must sign. -/
inductive Instruction where
  | initUser (userState payer : Pubkey)
  | submitQuery (userState owner : Pubkey) (encryptedContacts : Bytes) (nonce : UInt64)

/-- The accounts of the program. -/
abbrev Ledger := Pubkey → Option UserState

/-- `u64::saturating_add` of 1. -/
def saturatingSucc (n : UInt64) : UInt64 :=
  if n.toNat + 1 < UInt64.size then n + 1 else n

/-- `init_user`, of an account that was just created: its bytes are zero. -/
def initUser (payer : Pubkey) (bump : UInt8) : UserState :=
  { owner := payer, queriesMade := 0, lastNonce := 0, bump }

/-- `submit_query`. -/
def submitQuery (userState : UserState) (nonce : UInt64) : Except ProgramError UserState :=
  if userState.lastNonce < nonce then
    .ok { userState with
      lastNonce := nonce
      queriesMade := saturatingSucc userState.queriesMade }
  else .error .nonceReused

/-- A transaction. -/
structure Transaction where
  signers : List Pubkey
  instructions : List Instruction

/-- A query, and who signed it. -/
structure Query where
  account : Pubkey
  owner : Pubkey
  nonce : UInt64
  signers : List Pubkey
  deriving DecidableEq

def Instruction.query (signers : List Pubkey) : Instruction → Option Query
  | .initUser _ _ => none
  | .submitQuery account owner _ nonce => some { account, owner, nonce, signers }

section Program

-- `find_program_address` of `b"user"` and a key
variable (userPda : Pubkey → Pubkey × UInt8)

/-- An instruction. `init` creates the account at the address of the payer, and no other; `has_one` is
that the account's owner is the one that signs. -/
def Instruction.exec (signers : List Pubkey) (accounts : Ledger) :
    Instruction → Except ProgramError Ledger
  | .initUser userState payer =>
    if payer ∉ signers then .error .constraint
    else if userState ≠ (userPda payer).1 then .error .constraint
    else if (accounts userState).isSome then .error .constraint
    else .ok (Function.update accounts userState (some (Psi.initUser payer (userPda payer).2)))
  | .submitQuery userState owner _ nonce =>
    if owner ∉ signers then .error .constraint
    else
      match accounts userState with
      | none => .error .constraint
      | some s =>
        if s.owner ≠ owner then .error .constraint
        else (Psi.submitQuery s nonce).map fun s => Function.update accounts userState (some s)

/-- Instructions, one after the other. -/
def execAll (signers : List Pubkey) : List Instruction → Ledger → Except ProgramError Ledger
  | [], accounts => .ok accounts
  | ix :: ixs, accounts => do execAll signers ixs (← ix.exec userPda signers accounts)

/-- The accounts, and the queries that were accepted. -/
structure Chain where
  accounts : Ledger
  accepted : List Query

/-- Before any transaction. -/
def Chain.genesis : Chain := ⟨fun _ => none, []⟩

/-- A transaction. -/
def Chain.submit (c : Chain) (tx : Transaction) : Chain :=
  match execAll userPda tx.signers tx.instructions c.accounts with
  | .ok accounts => ⟨accounts, c.accepted ++ tx.instructions.filterMap (Instruction.query tx.signers)⟩
  | .error _ => c

/-- Transactions, one after the other. -/
def Chain.run (c : Chain) (txs : List Transaction) : Chain := txs.foldl (Chain.submit userPda) c

end Program

/-! ## What an account holds -/

/-- The nonces of the accepted queries of an account. -/
def noncesOf (accepted : List Query) (account : Pubkey) : List UInt64 :=
  (accepted.filter (·.account = account)).map Query.nonce

/-- What is held for one account, from the accepted queries: they are its owner's, each with a nonce
above the one before, and they are counted. -/
structure UserState.Tells (userPda : Pubkey → Pubkey × UInt8) (account : Pubkey)
    (accepted : List Query) (s : UserState) : Prop where
  address : userPda s.owner = (account, s.bump)
  owned : ∀ q ∈ accepted, q.account = account → q.owner = s.owner ∧ s.owner ∈ q.signers
  increasing : (0 :: noncesOf accepted account).Pairwise (· < ·)
  last : s.lastNonce = (noncesOf accepted account).getLastD 0
  counted : s.queriesMade.toNat = (noncesOf accepted account).length

/-- No query is accepted without an account, and every account tells what was accepted. -/
structure Chain.Inv (userPda : Pubkey → Pubkey × UInt8) (c : Chain) : Prop where
  absent : ∀ account, c.accounts account = none → ∀ q ∈ c.accepted, q.account ≠ account
  tells : ∀ account s, c.accounts account = some s → s.Tells userPda account c.accepted

theorem noncesOf_append (accepted more : List Query) (account : Pubkey) :
    noncesOf (accepted ++ more) account = noncesOf accepted account ++ noncesOf more account := by
  rw [noncesOf, List.filter_append, List.map_append]
  rfl

theorem noncesOf_other {accepted : List Query} {account : Pubkey}
    (h : ∀ q ∈ accepted, q.account ≠ account) : noncesOf accepted account = [] := by
  have hnone : accepted.filter (·.account = account) = [] :=
    List.filter_eq_nil_iff.mpr fun q hq => by simpa using h q hq
  rw [noncesOf, hnone, List.map_nil]

theorem noncesOf_self (q : Query) : noncesOf [q] q.account = [q.nonce] := by
  simp [noncesOf]

theorem pairwise_concat {l : List UInt64} {n : UInt64} (h : l.Pairwise (· < ·))
    (hn : ∀ m ∈ l, m < n) : (l ++ [n]).Pairwise (· < ·) :=
  List.pairwise_append.mpr ⟨h, List.pairwise_singleton _ _, fun m hm _ hk =>
    List.mem_singleton.mp hk ▸ hn m hm⟩

/-- The last of numbers that increase is the greatest. -/
theorem last_lt_iff {l : List UInt64} (h : (0 :: l).Pairwise (· < ·)) (n : UInt64) :
    l.getLastD 0 < n ↔ ∀ m ∈ 0 :: l, m < n := by
  induction l using List.reverseRecOn with
  | nil => simp
  | append_singleton l k ih =>
    rw [← List.cons_append] at h
    have hk : ∀ m ∈ 0 :: l, m < k := fun m hm =>
      (List.pairwise_append.mp h).2.2 m hm k (List.mem_singleton_self k)
    rw [List.getLastD_concat, ← List.cons_append]
    refine ⟨fun hlt m hm => ?_, fun hall =>
      hall k (List.mem_append_right _ (List.mem_singleton_self k))⟩
    rcases List.mem_append.mp hm with hm | hm
    · exact UInt64.lt_trans (hk m hm) hlt
    · exact List.mem_singleton.mp hm ▸ hlt

/-- Numbers that increase from zero are no more than the last. -/
theorem length_le_last {l : List UInt64} (h : (0 :: l).Pairwise (· < ·)) :
    l.length ≤ (l.getLastD 0).toNat := by
  induction l using List.reverseRecOn with
  | nil => simp
  | append_singleton l k ih =>
    rw [← List.cons_append] at h
    obtain ⟨hl, -, hk⟩ := List.pairwise_append.mp h
    have hlast : l.getLastD 0 < k :=
      (last_lt_iff hl k).mpr fun m hm => hk m hm k (List.mem_singleton_self k)
    have hle := ih hl
    rw [UInt64.lt_iff_toNat_lt] at hlast
    rw [List.getLastD_concat, List.length_append, List.length_singleton]
    omega

section Steps

variable {userPda : Pubkey → Pubkey × UInt8} {signers : List Pubkey}

theorem submitQuery_ok {s s' : UserState} {nonce : UInt64} :
    submitQuery s nonce = .ok s' ↔ s.lastNonce < nonce ∧
      s' = { s with lastNonce := nonce, queriesMade := saturatingSucc s.queriesMade } := by
  rw [submitQuery]
  split
  · next h => simp [h, eq_comm]
  · next h => simp [h]

/-- What an instruction did that was not refused. -/
theorem Instruction.exec_ok {ix : Instruction} {accounts accounts' : Ledger}
    (h : ix.exec userPda signers accounts = .ok accounts') :
    (∃ payer, ix = .initUser (userPda payer).1 payer ∧ accounts (userPda payer).1 = none ∧
      accounts' = Function.update accounts (userPda payer).1
        (some (Psi.initUser payer (userPda payer).2))) ∨
    ∃ account s contacts nonce, ix = .submitQuery account s.owner contacts nonce ∧
      s.owner ∈ signers ∧ accounts account = some s ∧ s.lastNonce < nonce ∧
      accounts' = Function.update accounts account
        (some { s with lastNonce := nonce, queriesMade := saturatingSucc s.queriesMade }) := by
  cases ix with
  | initUser account payer =>
    simp only [Instruction.exec] at h
    split at h
    · cases h
    · split at h
      · cases h
      · next haddr =>
        split at h
        · cases h
        · next hfree =>
          obtain rfl := not_not.mp haddr
          exact .inl ⟨payer, rfl, Option.not_isSome_iff_eq_none.mp hfree, (Except.ok.inj h).symm⟩
  | submitQuery account owner contacts nonce =>
    simp only [Instruction.exec] at h
    split at h
    · cases h
    · next hsigned =>
      split at h
      · cases h
      · next s hs =>
        split at h
        · cases h
        · next howner =>
          obtain rfl := not_not.mp howner
          cases hq : Psi.submitQuery s nonce with
          | error e => rw [hq] at h; cases h
          | ok s' =>
            rw [hq] at h
            obtain ⟨hlt, rfl⟩ := submitQuery_ok.mp hq
            exact .inr ⟨account, s, contacts, nonce, rfl, not_not.mp hsigned, hs, hlt,
              (Except.ok.inj h).symm⟩

theorem saturatingSucc_toNat {n m : UInt64} (h : n.toNat < m.toNat) :
    (saturatingSucc n).toNat = n.toNat + 1 := by
  have hm := m.toNat_lt
  have hsize : UInt64.size = 2 ^ 64 := rfl
  rw [saturatingSucc, if_pos (by omega), UInt64.toNat_add]
  exact Nat.mod_eq_of_lt (by rw [show (1 : UInt64).toNat = 1 from rfl]; omega)

/-- An account of which nothing was asked yet. -/
theorem UserState.Tells.init (payer : Pubkey) {accepted : List Query}
    (h : ∀ q ∈ accepted, q.account ≠ (userPda payer).1) :
    (Psi.initUser payer (userPda payer).2).Tells userPda (userPda payer).1 accepted where
  address := rfl
  owned q hq hacc := absurd hacc (h q hq)
  increasing := by
    rw [noncesOf_other h]
    exact List.pairwise_singleton _ _
  last := by rw [noncesOf_other h]; rfl
  counted := by rw [noncesOf_other h]; rfl

/-- Queries of another account. -/
theorem UserState.Tells.other {s : UserState} {account : Pubkey} {accepted more : List Query}
    (h : s.Tells userPda account accepted) (hmore : ∀ q ∈ more, q.account ≠ account) :
    s.Tells userPda account (accepted ++ more) := by
  have hnonces : noncesOf (accepted ++ more) account = noncesOf accepted account := by
    rw [noncesOf_append, noncesOf_other hmore, List.append_nil]
  refine ⟨h.address, fun p hp hacc => ?_, hnonces ▸ h.increasing, hnonces ▸ h.last,
    hnonces ▸ h.counted⟩
  rcases List.mem_append.mp hp with hp | hp
  · exact h.owned p hp hacc
  · exact absurd hacc (hmore p hp)

/-- A query that is accepted. -/
theorem UserState.Tells.query {s : UserState} {account : Pubkey} {accepted : List Query}
    (h : s.Tells userPda account accepted) {nonce : UInt64} (hlt : s.lastNonce < nonce)
    (hsigned : s.owner ∈ signers) :
    ({ s with lastNonce := nonce, queriesMade := saturatingSucc s.queriesMade } : UserState).Tells
      userPda account (accepted ++ [{ account, owner := s.owner, nonce, signers }]) := by
  have hnonces : noncesOf (accepted ++ [{ account, owner := s.owner, nonce, signers }]) account =
      noncesOf accepted account ++ [nonce] := by
    rw [noncesOf_append, noncesOf_self { account, owner := s.owner, nonce, signers }]
  have hcount : s.queriesMade.toNat < nonce.toNat := by
    have hle := length_le_last h.increasing
    rw [← h.last, ← h.counted] at hle
    rw [UInt64.lt_iff_toNat_lt] at hlt
    omega
  refine ⟨h.address, fun p hp hacc => ?_, ?_, ?_, ?_⟩
  · rcases List.mem_append.mp hp with hp | hp
    · exact h.owned p hp hacc
    · obtain rfl := List.mem_singleton.mp hp
      exact ⟨rfl, hsigned⟩
  · rw [hnonces, ← List.cons_append]
    rw [h.last] at hlt
    exact pairwise_concat h.increasing ((last_lt_iff h.increasing nonce).mp hlt)
  · rw [hnonces, List.getLastD_concat]
  · rw [hnonces, List.length_append, List.length_singleton, ← h.counted]
    exact saturatingSucc_toNat hcount

/-- One account is written, and all that was accepted is about it. -/
theorem Chain.Inv.update {accounts : Ledger} {accepted more : List Query} {account : Pubkey}
    {s : UserState} (hc : Chain.Inv userPda ⟨accounts, accepted⟩)
    (hmore : ∀ q ∈ more, q.account = account) (hs : s.Tells userPda account (accepted ++ more)) :
    Chain.Inv userPda ⟨Function.update accounts account (some s), accepted ++ more⟩ := by
  refine ⟨fun other hnone p hp => ?_, fun other t ht => ?_⟩
  · change Function.update accounts account (some s) other = none at hnone
    have hne : other ≠ account := by
      rintro rfl
      rw [Function.update_self] at hnone
      cases hnone
    rw [Function.update_of_ne hne] at hnone
    rcases List.mem_append.mp hp with hp | hp
    · exact hc.absent other hnone p hp
    · exact hmore p hp ▸ hne.symm
  · change Function.update accounts account (some s) other = some t at ht
    by_cases hacc : other = account
    · subst hacc
      rw [Function.update_self] at ht
      exact Option.some.inj ht ▸ hs
    · rw [Function.update_of_ne hacc] at ht
      exact (hc.tells other t ht).other fun q hq => hmore q hq ▸ Ne.symm hacc

/-- **One instruction.** -/
theorem Instruction.exec_inv {ix : Instruction} {accounts accounts' : Ledger} {accepted : List Query}
    (h : ix.exec userPda signers accounts = .ok accounts')
    (hc : Chain.Inv userPda ⟨accounts, accepted⟩) :
    Chain.Inv userPda ⟨accounts', accepted ++ (ix.query signers).toList⟩ := by
  obtain ⟨payer, rfl, hfree, rfl⟩ | ⟨account, s, contacts, nonce, rfl, hsigned, hs, hlt, rfl⟩ :=
    Instruction.exec_ok h
  · refine hc.update (fun q hq => absurd hq List.not_mem_nil) ?_
    exact (UserState.Tells.init payer (hc.absent _ hfree)).other
      fun q hq => absurd hq List.not_mem_nil
  · refine hc.update (fun q hq => ?_) ((hc.tells account s hs).query hlt hsigned)
    obtain rfl := List.mem_singleton.mp hq
    rfl

theorem execAll_inv {ixs : List Instruction} {accounts accounts' : Ledger} {accepted : List Query}
    (h : execAll userPda signers ixs accounts = .ok accounts')
    (hc : Chain.Inv userPda ⟨accounts, accepted⟩) :
    Chain.Inv userPda ⟨accounts', accepted ++ ixs.filterMap (Instruction.query signers)⟩ := by
  induction ixs generalizing accounts accepted with
  | nil =>
    obtain rfl := Except.ok.inj h
    rwa [List.filterMap_nil, List.append_nil]
  | cons ix ixs ih =>
    cases hix : ix.exec userPda signers accounts with
    | error e => rw [execAll, hix] at h; cases h
    | ok next =>
      rw [execAll, hix] at h
      have hall := ih h (Instruction.exec_inv hix hc)
      have hlist : (ix :: ixs).filterMap (Instruction.query signers) =
          (ix.query signers).toList ++ ixs.filterMap (Instruction.query signers) := by
        rw [List.filterMap_cons]
        cases ix.query signers <;> rfl
      rwa [hlist, ← List.append_assoc]

/-- **Transactions.** -/
theorem Chain.run_inv {c : Chain} (hc : c.Inv userPda) (txs : List Transaction) :
    (c.run userPda txs).Inv userPda := by
  induction txs generalizing c with
  | nil => exact hc
  | cons tx txs ih =>
    refine ih ?_
    unfold Chain.submit
    split
    · next h => exact execAll_inv h hc
    · exact hc

end Steps

theorem Chain.genesis_inv (userPda : Pubkey → Pubkey × UInt8) : Chain.genesis.Inv userPda where
  absent _ _ q hq := absurd hq List.not_mem_nil
  tells _ _ h := by cases h

/-- **Whatever the transactions, an account holds what its owner asked**: it is at the address of its
owner, who signed every query that was accepted for it; their nonces increase, so none was accepted
twice; and they are counted, for the counter is never saturated. A query is accepted exactly if the
owner signs it and its nonce is positive and above all of those before it. -/
theorem queries_in_order (userPda : Pubkey → Pubkey × UInt8) (txs : List Transaction) :
    let c := Chain.genesis.run userPda txs
    c.Inv userPda ∧
    ∀ signers account owner contacts nonce,
      (∃ accounts, (Instruction.submitQuery account owner contacts nonce).exec userPda signers
        c.accounts = .ok accounts) ↔
      owner ∈ signers ∧ (∃ s, c.accounts account = some s ∧ s.owner = owner) ∧
        ∀ n ∈ 0 :: noncesOf c.accepted account, n < nonce := by
  intro c
  have hc : c.Inv userPda := Chain.run_inv (Chain.genesis_inv userPda) txs
  refine ⟨hc, fun signers account owner contacts nonce => ⟨?_, ?_⟩⟩
  · rintro ⟨accounts, h⟩
    obtain ⟨payer, hix, -⟩ | ⟨_, s, _, _, hix, hsigned, hs, hlt, -⟩ := Instruction.exec_ok h
    · cases hix
    · cases hix
      have ht := hc.tells account s hs
      rw [ht.last] at hlt
      exact ⟨hsigned, ⟨s, hs, rfl⟩, (last_lt_iff ht.increasing nonce).mp hlt⟩
  · rintro ⟨hsigned, ⟨s, hs, rfl⟩, hall⟩
    have ht := hc.tells account s hs
    have hlt : s.lastNonce < nonce := by
      rw [ht.last]
      exact (last_lt_iff ht.increasing nonce).mpr hall
    simp only [Instruction.exec, hs]
    rw [if_neg (not_not.mpr hsigned), if_neg (not_not.mpr rfl), submitQuery_ok.mpr ⟨hlt, rfl⟩]
    exact ⟨_, rfl⟩

end Psi

end Arcium
