import Arcium.Network.Messenger
import Arcium.Protocol.Recovery

/-!
# Rules for the programs of the application

What the application's programs are proved to do is about the history of the database, and so stays
true as the history grows. `Meets I A T R p db`: from `db` on, every action of `p` is one that `A`
and `T` allow, and `p` ends with a result and a database in `R`. `InRound` is the same of a part of a
round, whatever its report says.

* `Gives R`: if there is a value, it is in `R`.
* `Meets.seq`, `InRound.seq`: what is known after the first part is known in the second.
-/

namespace Arcium

open Conc

section Meets

variable {K M err α β : Type}

/-- The rule of a program by what it ends with (module doc). -/
def Meets (I : Db K → Prop) (A : Db K → Request × Answer → Prop) (T : Db K → Rows K → Prop)
    (R : Except err α → Db K → Prop) (p : Run K M err α) (db : Db K) : Prop :=
  ∀ tr, Sat I A T (fun r _ db' => R r db') p tr db

/-- Only values matter. -/
def Gives (R : α → Db K → Prop) (r : Except err α) (db : Db K) : Prop := ∀ a, r = .ok a → R a db

theorem gives_ok {R : α → Db K → Prop} {a : α} {db : Db K} (h : R a db) :
    Gives R (.ok a : Except err α) db := fun _ ha => Except.ok.inj ha ▸ h

theorem gives_error {R : α → Db K → Prop} {e : err} {db : Db K} :
    Gives R (.error e : Except err α) db := nofun

namespace Meets

variable {I : Db K → Prop} {A : Db K → Request × Answer → Prop} {T X : Db K → Rows K → Prop}
  {R U : Except err α → Db K → Prop} {S : Except err β → Db K → Prop} {p x : Run K M err α}
  {f : α → Run K M err β} {db : Db K}

theorem of_sat {Q : Trace K → Except err α → Trace K → Db K → Prop}
    (h : ∀ tr, Sat I A T (Q tr) p tr db) (hQ : ∀ tr r tr' db', Q tr r tr' db' → R r db') :
    Meets I A T R p db := fun tr => (h tr).mono fun r tr' db' hr => hQ tr r tr' db' hr

theorem mono (h : Meets I A T R p db) (hR : ∀ r db', db.Le db' → R r db' → U r db') :
    Meets I A T U p db :=
  fun tr => (h tr).up.mono fun r _ db' hr => hR r db' hr.2 hr.1

theorem weaken (h : Meets I A T R p db)
    (hT : ∀ db' rows, db.Le db' → I db' → T db' rows → X db' rows) : Meets I A X R p db :=
  fun tr => (h tr).weaken_from hT

theorem pure {a : α} (h : R (.ok a) db) : Meets I A T R (pure a : Run K M err α) db :=
  fun _ => Sat.pure h

theorem throw {e : err} (h : R (.error e) db) : Meets I A T R (throw e : Run K M err α) db :=
  fun _ => Sat.throw h

theorem seq (hx : Meets I A T R x db) (he : ∀ e db', db.Le db' → R (.error e) db' → S (.error e) db')
    (hf : ∀ a db', db.Le db' → R (.ok a) db' → Meets I A T S (f a) db') :
    Meets I A T S (x >>= f) db := fun tr =>
  Sat.seq (hx tr).up (fun e _ db' h => he e db' h.2 h.1) fun a tr' db' h => hf a db' h.2 h.1 tr'

/-- A part whose errors do not matter. -/
theorem gives_seq {V : α → Db K → Prop} {W : β → Db K → Prop}
    (hx : Meets I A T (Gives V) x db)
    (hf : ∀ a db', db.Le db' → V a db' → Meets I A T (Gives W) (f a) db') :
    Meets I A T (Gives W) (x >>= f) db :=
  hx.seq (fun _ _ _ _ => gives_error) fun a db' hle h => hf a db' hle (h a rfl)

/-- Run `p` and go on with its result, error or not. -/
theorem attempt {err' : Type} {p : Run K M err' α} {R : Except err' α → Db K → Prop}
    {S : Except err (Except err' α) → Db K → Prop} (h : Meets I A T R p db)
    (hS : ∀ r db', db.Le db' → R r db' → S (.ok r) db') :
    Meets I A T S (Op.attempt p.run : Run K M err _) db := fun tr =>
  Sat.attempt ((h tr).up.mono fun r _ db' hr => hS r db' hr.2 hr.1)

theorem mapError {err' : Type} {g : err' → err} {p : Run K M err' α}
    (h : Meets I A T (fun r db => R (r.mapError g) db) p db) :
    Meets I A T R (Op.mapError g p.run : Run K M err _) db := fun tr => Sat.mapError (h tr)

theorem find {toErr : StorageError → err} {k : Key} {R : Except err (Option (Row K k)) → Db K → Prop}
    (hv : ∀ db', db.Le db' → I db' → R (.ok (db'.rows.lookup k)) db')
    (hf : ∀ db', db.Le db' → I db' → ∀ f, f ≠ .notFound → R (.error (toErr f)) db') :
    Meets I A T R (Arcium.find toErr k : Run K M err _) db := fun _ => Sat.find hv hf

theorem keysUnder {toErr : StorageError → err} {view : Rows K → α}
    (hv : ∀ db', db.Le db' → I db' → R (.ok (view db'.rows)) db')
    (hf : ∀ db', db.Le db' → I db' → ∀ f, R (.error (toErr f)) db') :
    Meets I A T R (Arcium.keysUnder toErr view : Run K M err α) db := fun _ => Sat.keysUnder hv hf

theorem draw {view : Choice → α} (h : ∀ db', db.Le db' → I db' → ∀ a, R (.ok a) db') :
    Meets I A T R (Arcium.draw view : Run K M err α) db := fun _ => Sat.draw h

theorem remembered {i : Nat} {view : M → α} (h : ∀ db', db.Le db' → I db' → ∀ a, R (.ok a) db') :
    Meets I A T R (Arcium.remembered i view : Run K M err α) db := fun _ => Sat.remembered h

theorem remember {i : Nat} {change : M → M} {R : Except err Unit → Db K → Prop}
    (h : ∀ db', db.Le db' → I db' → R (.ok ()) db') :
    Meets I A T R (Arcium.remember i change : Run K M err Unit) db := fun _ => Sat.remember h

theorem ask {request : Request} {view : Answer → Except err α}
    (h : ∀ db', db.Le db' → I db' → ∀ answer, A db' (request, answer) ∧ R (view answer) db') :
    Meets I A T R (Arcium.ask request view : Run K M err α) db := fun _ => Sat.ask h

/-- A transaction: what it writes is a transition, and then what it returns holds after it. -/
theorem tx {errs : TxErrors err}
    {body : ((k : Key) → Except StorageError (Row K k)) → Except err (α × List (Change K))}
    {V : α → Db K → Prop}
    (hw : ∀ db' read a c cs, db.Le db' → I db' → Reads db'.rows read →
      body read = .ok (a, c :: cs) → T db' (db'.rows.applyAll (c :: cs)) ∧
        V a (db'.push (db'.rows.applyAll (c :: cs))))
    (hq : ∀ db' read a, db.Le db' → I db' → Reads db'.rows read → body read = .ok (a, []) → V a db') :
    Meets I A T (Gives V) (Arcium.tx errs body : Run K M err α) db := by
  refine fun tr => Sat.tx (fun db' hle hI read hr => ?_) fun _ _ _ _ => gives_error
  match h : body read with
  | .error x => exact gives_error
  | .ok (a, []) => exact gives_ok (hq db' read a hle hI hr h)
  | .ok (a, c :: cs) =>
    obtain ⟨hs, hv⟩ := hw db' read a c cs hle hI hr h
    exact
      { step := hs
        ok := gives_ok hv
        unknownStored := fun f => gives_error
        unknownLost := fun f => gives_error
        writeFault := fun f => gives_error }

/-- What two rules say of the result. -/
theorem and {A' : Db K → Request × Answer → Prop} (h : Meets I A T R p db)
    (h' : Meets I A' X U p db) : Meets I A T (fun r db' => R r db' ∧ U r db') p db := by
  intro tr t mem asked ht
  exact (h tr t mem asked ht).and (h' tr t mem asked ht)

/-- How the program ended. -/
theorem ended (h : Meets I A T R p db) :
    Meets I A T (fun r db' => R r db' ∧ Ended db db' p r) p db := by
  intro tr t mem asked ht
  exact ((h tr t mem asked ht).ran).mono (fun _ _ hg => hg) fun r t s hr =>
    ⟨hr.1, _, s, Db.Le.refl _, Db.Le.refl _, hr.2⟩

end Meets

end Meets

/-! ## Rounds -/

section Round

variable {P : AppPlatform} {α β : Type}

/-- The rule of a part of a round (module doc). -/
def InRound (I : Db P.Key → Prop) (A : Db P.Key → Request × Answer → Prop)
    (T : Db P.Key → Rows P.Key → Prop) (R : Except CoreError α → Db P.Key → Prop) (x : Round P α)
    (db : Db P.Key) : Prop :=
  ∀ report tr, Ends I A T (fun r _ db' => R r.1 db') (x.run report) tr db

namespace InRound

variable {I : Db P.Key → Prop} {A : Db P.Key → Request × Answer → Prop}
  {T : Db P.Key → Rows P.Key → Prop} {R U : Except CoreError α → Db P.Key → Prop}
  {S : Except CoreError β → Db P.Key → Prop} {V : α → Db P.Key → Prop} {W : β → Db P.Key → Prop}
  {x : Round P α} {f : α → Round P β} {db : Db P.Key}

theorem pure {a : α} (h : R (.ok a) db) : InRound I A T R (pure a : Round P α) db := by
  rintro report tr t mem asked rfl
  exact h

theorem throw {e : CoreError} (h : R (.error e) db) :
    InRound I A T R (throw e : Round P α) db := by
  rintro report tr t mem asked rfl
  exact h

theorem tally {g : SyncReport → SyncReport} {R : Except CoreError Unit → Db P.Key → Prop}
    (h : R (.ok ()) db) : InRound I A T R (Round.tally g : Round P Unit) db := by
  rintro report tr t mem asked rfl
  exact h

theorem core {p : Core P α} (h : Meets I A T R p db) : InRound I A T R (Round.core p) db :=
  fun _ tr t mem asked ht => Prog.WP.bind (h tr t mem asked ht)

theorem mono (h : InRound I A T R x db) (hR : ∀ r db', db.Le db' → R r db' → U r db') :
    InRound I A T U x db := by
  intro report tr t mem asked ht
  refine (Prog.WP.up (R := fun s s' : Device P.Key Memory => s.db.Le s'.db) (fun _ => Db.Le.refl _)
    (fun _ _ _ => Db.Le.trans) (fun _ _ hg => Sat.Moves.le hg.moves) (h report tr t mem asked ht)).mono
    (fun _ _ hg => hg) fun r t s hr => hR _ _ hr.2 hr.1

theorem weaken {X : Db P.Key → Rows P.Key → Prop} (h : InRound I A T R x db)
    (hT : ∀ db rows, T db rows → X db rows) : InRound I A X R x db := by
  intro report tr t mem asked ht
  exact (h report tr t mem asked ht).mono (fun _ _ hg => hg.imp (fun _ h => h) fun rows => hT _ rows)
    fun _ _ _ hq => hq

theorem seq (hx : InRound I A T R x db)
    (he : ∀ e db', db.Le db' → R (.error e) db' → S (.error e) db')
    (hf : ∀ a db', db.Le db' → R (.ok a) db' → InRound I A T S (f a) db') :
    InRound I A T S (x >>= f) db := by
  intro report tr t mem asked ht
  have hup := hx.mono (U := fun r db' => R r db' ∧ db.Le db') fun r db' hle h => ⟨h, hle⟩
  refine Prog.WP.bind ((hup report tr t mem asked ht).mono (fun _ _ hg => hg) fun r t s hr => ?_)
  obtain ⟨r, report⟩ := r
  cases r with
  | ok a => exact hf a s.db hr.2 hr.1 report (dbs t) t s.mem s.asked rfl
  | error e => exact he e s.db hr.2 hr.1

/-- A part whose errors do not matter. -/
theorem gives_seq (hx : InRound I A T (Gives V) x db)
    (hf : ∀ a db', db.Le db' → V a db' → InRound I A T (Gives W) (f a) db') :
    InRound I A T (Gives W) (x >>= f) db :=
  hx.seq (fun _ _ _ _ => gives_error) fun a db' hle h => hf a db' hle (h a rfl)

/-- Run an operation of the core and hand over its result, error or not. -/
theorem attempt {p : Core P α} {S : Except CoreError (Except CoreError α) → Db P.Key → Prop}
    (h : Meets I A T R p db) (hS : ∀ r db', db.Le db' → R r db' → S (.ok r) db')
    (hp : ∀ msg db', S (.error (.panic msg)) db') : InRound I A T S (Round.attempt p) db := by
  refine (InRound.core (Meets.attempt (S := fun r db' => ∃ r', r = .ok r' ∧ S (.ok r') db') h
    fun r db' hle hr => ⟨r, rfl, hS r db' hle hr⟩)).seq ?_ ?_
  · rintro e db' - ⟨r', h, -⟩
    cases h
  · rintro r db' - ⟨r', h, hr⟩
    cases h
    split
    · exact .throw (hp _ _)
    · exact .pure hr

theorem failed {msg : String} {R : Except CoreError Unit → Db P.Key → Prop} (h : R (.ok ()) db) :
    InRound I A T R (Round.failed msg : Round P Unit) db := .tally h

theorem dropped {R : Except CoreError Unit → Db P.Key → Prop} (h : R (.ok ()) db) :
    InRound I A T R (Round.dropped : Round P Unit) db := .tally h

end InRound

end Round

end Arcium
