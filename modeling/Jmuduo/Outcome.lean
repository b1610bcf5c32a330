-- The ways a C++ call can end, and the machine words it computes with. A
-- call returns, or it stops the program at a fault.
import Mathlib.Algebra.Ring.Int.Defs
import Mathlib.Algebra.Ring.Nat

namespace outcome

/-! ## How a call ends -/

/-- Why a call does not return. The last three are undefined behaviour, so
no run goes on after them. -/
inductive Fault
  | assertion (expr : String)
  | lengthError
  | outOfRange
  | overflow
  | badPointer
  deriving DecidableEq, Repr

abbrev Outcome := Except Fault

/-- `assert(p)`, where `expr` is the text of `p`. -/
def check (expr : String) (p : Prop) [Decidable p] : Outcome Unit :=
  if p then .ok () else .error (.assertion expr)

/-- A value that the code uses without a check of its own. -/
def demand {α : Type} (f : Fault) : Option α → Outcome α
  | some x => .ok x
  | none => .error f

section

variable {α β : Type}

@[simp] theorem ok_bind (a : α) (f : α → Outcome β) : (Except.ok a >>= f) = f a := rfl

@[simp] theorem pure_eq_ok (a : α) : (pure a : Outcome α) = .ok a := rfl

@[simp] theorem error_bind (e : Fault) (f : α → Outcome β) :
    ((Except.error e : Outcome α) >>= f) = .error e := rfl

/-- A sequence returns exactly when both of its parts do. -/
theorem bind_eq_ok {x : Outcome α} {f : α → Outcome β} {b : β} :
    (x >>= f) = .ok b ↔ ∃ a, x = .ok a ∧ f a = .ok b := by
  cases x with
  | error e => simp
  | ok a => simp

/-- A sequence faults in its first part, or in its second one. -/
theorem bind_eq_error {x : Outcome α} {f : α → Outcome β} {e : Fault} :
    (x >>= f) = .error e ↔ x = .error e ∨ ∃ a, x = .ok a ∧ f a = .error e := by
  cases x with
  | error e => simp
  | ok a => simp

@[simp] theorem check_eq_ok {expr : String} {p : Prop} [Decidable p] {u : Unit} :
    check expr p = .ok u ↔ p := by
  unfold check
  split <;> simp_all

@[simp] theorem check_eq_error {expr : String} {p : Prop} [Decidable p] {e : Fault} :
    check expr p = .error e ↔ ¬ p ∧ e = .assertion expr := by
  unfold check
  split <;> simp_all [eq_comm]

theorem check_of {expr : String} {p : Prop} [Decidable p] (h : p) : check expr p = .ok () := by
  simp [check, h]

@[simp] theorem demand_some (f : Fault) (x : α) : demand f (some x) = .ok x := rfl

@[simp] theorem demand_eq_error {f e : Fault} {o : Option α} :
    demand f o = .error e ↔ o = none ∧ e = f := by
  cases o <;> simp [demand, eq_comm]

@[simp] theorem demand_eq_ok {f : Fault} {o : Option α} {x : α} :
    demand f o = .ok x ↔ o = some x := by
  cases o <;> simp [demand]

/-- The call returns a value with `p`. -/
def passes (x : Outcome α) (p : α → Bool) : Bool :=
  match x with
  | .ok a => p a
  | .error _ => false

theorem exists_of_passes {x : Outcome α} {p : α → Bool} (h : passes x p = true) :
    ∃ a, x = .ok a ∧ p a = true := by
  cases x with
  | error e => cases h
  | ok a => exact ⟨a, rfl, h⟩

/-- What one call keeps, a sequence of calls keeps. -/
theorem foldlM_keeps {P : β → Prop} {f : β → α → Outcome β}
    (hf : ∀ b a b', P b → f b a = .ok b' → P b') {as : List α} {b b' : β} (hb : P b)
    (h : as.foldlM f b = .ok b') : P b' := by
  induction as generalizing b with
  | nil =>
    cases h
    exact hb
  | cons a as ih =>
    rw [List.foldlM_cons, bind_eq_ok] at h
    obtain ⟨b₁, h1, h2⟩ := h
    exact ih (hf b a b₁ hb h1) h2

/-- A fault that no call has where `P` holds, a sequence of calls has not. -/
theorem foldlM_never {P : β → Prop} {f : β → α → Outcome β} {e : Fault}
    (hf : ∀ b a b', P b → f b a = .ok b' → P b') (he : ∀ b a, P b → f b a ≠ .error e)
    {as : List α} {b : β} (hb : P b) : as.foldlM f b ≠ .error e := by
  induction as generalizing b with
  | nil => simp
  | cons a as ih =>
    rw [List.foldlM_cons, ne_eq, bind_eq_error]
    rintro (h1 | ⟨b₁, h1, h2⟩)
    · exact he b a hb h1
    · exact ih (hf b a b₁ hb h1) h2

end

/-! ## Machine words -/

/-- The sum of two `size_t`. -/
def sizeAdd (a b : Nat) : Nat := (a + b) % 2 ^ 64

/-- The difference of two `size_t`. -/
def sizeSub (a b : Nat) : Nat := (a + (2 ^ 64 - b)) % 2 ^ 64

theorem sizeAdd_eq {a b : Nat} (h : a + b < 2 ^ 64) : sizeAdd a b = a + b :=
  Nat.mod_eq_of_lt h

theorem sizeSub_eq {a b : Nat} (h : b ≤ a) (ha : a < 2 ^ 64) : sizeSub a b = a - b := by
  unfold sizeSub
  omega

/-- An integer as an `int`: its low 32 bits, read with their sign. -/
def toInt (n : Int) : Int := n.bmod (2 ^ 32)

/-- An `int` as a `size_t`: a negative one wraps. -/
def toSize (n : Int) : Nat := (n % 2 ^ 64).toNat

/-- The sum of two `int`, undefined outside the type. -/
def intAdd (a b : Int) : Outcome Int :=
  if -2 ^ 31 ≤ a + b ∧ a + b < 2 ^ 31 then .ok (a + b) else .error .overflow

theorem intAdd_eq_ok {a b n : Int} (h : intAdd a b = .ok n) : n = a + b := by
  unfold intAdd at h
  split at h
  · cases h
    rfl
  · cases h

/-- A number of the type `int64_t`. -/
def IsInt64 (n : Int) : Prop := -2 ^ 63 ≤ n ∧ n < 2 ^ 63

instance : DecidablePred IsInt64 := fun _ => inferInstanceAs (Decidable (_ ∧ _))

/-- The difference of two `int64_t`, undefined outside the type. -/
def int64Sub (a b : Int) : Outcome Int :=
  if IsInt64 (a - b) then .ok (a - b) else .error .overflow

theorem toInt_eq {n : Int} (h1 : -2 ^ 31 ≤ n) (h2 : n < 2 ^ 31) : toInt n = n := by
  unfold toInt
  exact Int.bmod_eq_of_le (by omega) (by omega)

end outcome
