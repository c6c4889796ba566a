import Arcium.Base.Codec

/-!
# Readers

A reader takes what it reads from the front of a byte string, or fails: a cursor over a slice.

`Exact p D enc`: `p` takes what `enc` writes of a value that `D` holds of, whatever follows, and takes
nothing else. So `enc` has one value for a string at most (`Exact.unique`), and a reader that is put
together from exact ones by `bind_ok` is exact.

A `Counter` is a number that says how much follows: so many bytes (`sized`), or so many values
(`counted`).
-/

namespace Arcium

/-- A codec of the numbers below a bound. -/
structure Counter (ν : Type) where
  codec : Codec ν
  toNat : ν → Nat
  ofNat : Nat → ν
  bound : Nat
  toNat_lt : ∀ x, toNat x < bound
  toNat_ofNat : ∀ n, n < bound → toNat (ofNat n) = n
  ofNat_toNat : ∀ x, ofNat (toNat x) = x

namespace Counter

def u8 : Counter UInt8 where
  codec := Codec.byte
  toNat := UInt8.toNat
  ofNat := UInt8.ofNat
  bound := 2 ^ 8
  toNat_lt := UInt8.toNat_lt
  toNat_ofNat _ h := Nat.mod_eq_of_lt h
  ofNat_toNat _ := UInt8.ofNat_toNat

def u16 : Counter UInt16 where
  codec := Codec.u16
  toNat := UInt16.toNat
  ofNat := UInt16.ofNat
  bound := 2 ^ 16
  toNat_lt := UInt16.toNat_lt
  toNat_ofNat _ h := Nat.mod_eq_of_lt h
  ofNat_toNat _ := UInt16.ofNat_toNat

def u32 : Counter UInt32 where
  codec := Codec.u32
  toNat := UInt32.toNat
  ofNat := UInt32.ofNat
  bound := 2 ^ 32
  toNat_lt := UInt32.toNat_lt
  toNat_ofNat _ h := Nat.mod_eq_of_lt h
  ofNat_toNat _ := UInt32.ofNat_toNat

end Counter

/-- What was read and what is left, or why nothing was read. -/
abbrev Reader (ε α : Type) := StateT Bytes (Except ε) α

namespace Reader

variable {ε α β : Type}

/-- The next `n` bytes. -/
def take (e : ε) (n : Nat) : Reader ε Bytes := fun b =>
  if b.length < n then .error e else .ok (b.take n, b.drop n)

/-- The next field. -/
def field (e : ε) (F : Codec α) : Reader ε α := do return F.dec (← take e F.width)

/-- All that is left. -/
def rest : Reader ε Bytes := fun b => .ok (b, [])

/-- Nothing is left. -/
def finish (e : ε) : Reader ε Unit := fun b => if b.isEmpty then .ok ((), b) else .error e

/-- `n` values, one after the other. -/
def times (p : Reader ε α) : Nat → Reader ε (List α)
  | 0 => return []
  | n + 1 => do
    let a ← p
    let as ← times p n
    return a :: as

/-- A count, and so many bytes. -/
def sized {ν : Type} (e : ε) (C : Counter ν) : Reader ε Bytes := do
  let n ← field e C.codec
  take e (C.toNat n)

/-- A count, and so many values. -/
def counted {ν : Type} (e : ε) (C : Counter ν) (p : Reader ε α) : Reader ε (List α) := do
  let n ← field e C.codec
  times p (C.toNat n)

/-- What is read from a string. -/
def parse (p : Reader ε α) (b : Bytes) : Except ε α := (p b).map Prod.fst

/-! ## What a reader takes -/

theorem pure_ok {a c : α} {b r : Bytes} :
    (pure a : Reader ε α) b = .ok (c, r) ↔ a = c ∧ b = r := by
  show Except.ok (a, b) = Except.ok (c, r) ↔ _
  rw [Except.ok.injEq, Prod.mk.injEq]

theorem throw_ok {e : ε} {c : α} {b r : Bytes} : (throw e : Reader ε α) b = .ok (c, r) ↔ False :=
  ⟨fun h => (by cases h), False.elim⟩

theorem bind_ok {p : Reader ε α} {f : α → Reader ε β} {b r : Bytes} {c : β} :
    (p >>= f) b = .ok (c, r) ↔ ∃ a r', p b = .ok (a, r') ∧ f a r' = .ok (c, r) := by
  show (p b >>= fun x => f x.1 x.2) = _ ↔ _
  cases p b with
  | error e => exact ⟨fun h => (by cases h), fun ⟨_, _, h, _⟩ => by cases h⟩
  | ok x =>
    refine ⟨fun h => ⟨x.1, x.2, rfl, h⟩, ?_⟩
    rintro ⟨a, r', h, hf⟩
    cases h
    exact hf

/-- What follows a reader that succeeds. -/
theorem bind_run {p : Reader ε α} {f : α → Reader ε β} {b r : Bytes} {a : α} (h : p b = .ok (a, r)) :
    (p >>= f) b = f a r := by
  show (p b >>= fun x => f x.1 x.2) = _
  rw [h]
  rfl

theorem ite_ok {c : Prop} [Decidable c] {p q : Reader ε α} {b : Bytes} {x : α × Bytes} :
    (if c then p else q) b = .ok x ↔ (c ∧ p b = .ok x) ∨ (¬c ∧ q b = .ok x) := by
  by_cases h : c
  · rw [if_pos h, and_iff_right h, or_iff_left fun hn => hn.1 h]
  · rw [if_neg h, and_iff_right h, or_iff_right fun hn => h hn.1]

theorem parse_ok {p : Reader ε α} {b : Bytes} {a : α} :
    p.parse b = .ok a ↔ ∃ r, p b = .ok (a, r) := by
  unfold parse
  cases p b with
  | error e => exact ⟨fun h => (by cases h), fun ⟨_, h⟩ => by cases h⟩
  | ok x =>
    refine ⟨fun h => ⟨x.2, ?_⟩, fun ⟨r, h⟩ => ?_⟩
    · cases h
      rfl
    · cases h
      rfl

theorem take_ok {e : ε} {n : Nat} {b a r : Bytes} :
    take e n b = .ok (a, r) ↔ a.length = n ∧ b = a ++ r := by
  unfold take
  split
  · next h =>
    refine ⟨fun h => (by cases h), ?_⟩
    rintro ⟨rfl, rfl⟩
    rw [List.length_append] at h
    omega
  · next h =>
    rw [Except.ok.injEq, Prod.mk.injEq]
    refine ⟨?_, ?_⟩
    · rintro ⟨rfl, rfl⟩
      exact ⟨List.length_take_of_le (Nat.not_lt.mp h), (List.take_append_drop n b).symm⟩
    · rintro ⟨rfl, rfl⟩
      exact ⟨List.take_left, List.drop_left⟩

theorem rest_ok {b a r : Bytes} : (rest : Reader ε Bytes) b = .ok (a, r) ↔ b = a ∧ r = [] := by
  show Except.ok (b, []) = Except.ok (a, r) ↔ _
  rw [Except.ok.injEq, Prod.mk.injEq, eq_comm (b := r)]

theorem finish_ok {e : ε} {b r : Bytes} {u : Unit} :
    finish e b = .ok (u, r) ↔ b = [] ∧ r = [] := by
  cases b with
  | nil => exact ⟨fun h => (by cases h; exact ⟨rfl, rfl⟩), fun h => by rw [h.2]; rfl⟩
  | cons x b => exact ⟨fun h => (by cases h), fun h => by cases h.1⟩

/-! ## Exact readers -/

/-- `p` reads what `enc` writes, and nothing else (module doc). -/
def Exact (p : Reader ε α) (D : α → Prop) (enc : α → Bytes) : Prop :=
  ∀ b a r, p b = .ok (a, r) ↔ D a ∧ b = enc a ++ r

theorem field_exact (e : ε) (F : Codec α) : Exact (field e F) (fun _ => True) F.enc := by
  intro b a r
  unfold field
  simp only [bind_ok, pure_ok, take_ok, true_and]
  refine ⟨?_, fun h => ⟨F.enc a, r, ⟨F.enc_length a, h⟩, F.dec_enc a, rfl⟩⟩
  rintro ⟨x, _, ⟨hx, rfl⟩, rfl, rfl⟩
  rw [F.enc_dec x hx]

theorem field_ok {e : ε} {F : Codec α} {b r : Bytes} {a : α} :
    field e F b = .ok (a, r) ↔ b = F.enc a ++ r :=
  (field_exact e F b a r).trans (and_iff_right trivial)

namespace Exact

variable {p : Reader ε α} {D : α → Prop} {enc : α → Bytes}

/-- A string has one value, and what follows it is known. -/
theorem unique (h : Exact p D enc) {a a' : α} {r r' : Bytes} (ha : D a) (ha' : D a')
    (heq : enc a ++ r = enc a' ++ r') : a = a' ∧ r = r' := by
  have hp := (h _ a r).mpr ⟨ha, rfl⟩
  rw [heq, (h _ a' r').mpr ⟨ha', rfl⟩] at hp
  cases hp
  exact ⟨rfl, rfl⟩

theorem times (h : Exact p D enc) (n : Nat) :
    Exact (times p n) (fun as => as.length = n ∧ ∀ a ∈ as, D a) fun as => as.flatMap enc := by
  induction n with
  | zero =>
    intro b as r
    rw [Reader.times, pure_ok]
    refine ⟨?_, ?_⟩
    · rintro ⟨rfl, rfl⟩
      exact ⟨⟨rfl, fun _ ha => by cases ha⟩, rfl⟩
    · rintro ⟨⟨hn, -⟩, rfl⟩
      obtain rfl := List.length_eq_zero_iff.mp hn
      exact ⟨rfl, rfl⟩
  | succ n ih =>
    intro b as r
    simp only [Reader.times, bind_ok, pure_ok]
    refine ⟨?_, ?_⟩
    · rintro ⟨a, _, ha, as, _, has, rfl, rfl⟩
      obtain ⟨hD, rfl⟩ := (h _ _ _).mp ha
      obtain ⟨⟨hn, hall⟩, rfl⟩ := (ih _ _ _).mp has
      exact ⟨⟨congrArg Nat.succ hn, List.forall_mem_cons.mpr ⟨hD, hall⟩⟩, by
        rw [List.flatMap_cons, List.append_assoc]⟩
    · rintro ⟨⟨hn, hall⟩, rfl⟩
      obtain ⟨a, as, rfl⟩ := List.exists_cons_of_length_eq_add_one hn
      obtain ⟨hD, hall⟩ := List.forall_mem_cons.mp hall
      refine ⟨a, as.flatMap enc ++ r, (h _ _ _).mpr ⟨hD, ?_⟩, as, r,
        (ih _ _ _).mpr ⟨⟨Nat.succ.inj hn, hall⟩, rfl⟩, rfl, rfl⟩
      rw [List.flatMap_cons, List.append_assoc]

end Exact

section Counted

variable {ν : Type} {e : ε} {C : Counter ν}

theorem sized_exact : Exact (sized e C) (fun a => a.length < C.bound)
    fun a => C.codec.enc (C.ofNat a.length) ++ a := by
  intro b a r
  simp only [sized, bind_ok, field_ok, take_ok, List.append_assoc]
  constructor
  · rintro ⟨n, _, rfl, hlen, rfl⟩
    exact ⟨hlen ▸ C.toNat_lt n, by rw [hlen, C.ofNat_toNat]⟩
  · rintro ⟨hlt, rfl⟩
    exact ⟨_, _, rfl, (C.toNat_ofNat _ hlt).symm, rfl⟩

theorem counted_exact {p : Reader ε α} {D : α → Prop} {enc : α → Bytes} (h : Exact p D enc) :
    Exact (counted e C p) (fun l => l.length < C.bound ∧ ∀ a ∈ l, D a)
      fun l => C.codec.enc (C.ofNat l.length) ++ l.flatMap enc := by
  intro b l r
  simp only [counted, bind_ok, field_ok, List.append_assoc]
  constructor
  · rintro ⟨n, _, rfl, hl⟩
    obtain ⟨⟨hlen, hall⟩, rfl⟩ := (h.times _ _ _ _).mp hl
    exact ⟨⟨hlen ▸ C.toNat_lt n, hall⟩, by rw [hlen, C.ofNat_toNat]⟩
  · rintro ⟨⟨hlt, hall⟩, rfl⟩
    exact ⟨_, _, rfl, (h.times _ _ _ _).mpr ⟨⟨(C.toNat_ofNat _ hlt).symm, hall⟩, rfl⟩⟩

end Counted

end Reader

end Arcium
