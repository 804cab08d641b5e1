import BondingCurve.Traced

/-!
# Comparing outcomes

An error says in detail what was wrong; its kind (`CurveError.kind`) leaves out the numbers and texts that the message
shows.  Two computations are alike (`Alike`) if both succeed, with related results, or both fail, with related errors.
Sequences of computations that are alike are alike (`Alike.bind`), so two runs of a function are compared step by step.
-/

namespace BondingCurve

/-! ### Kinds of errors -/

/-- The kinds of errors that a caller can tell apart without reading the message. -/
inductive ErrorKind
  | amount
  | tooWide
  | price
  | migrationOption
  | fee
  | insufficientLiquidity
  | supplyMismatch
  /-- A value that names nothing, a malformed format, or an integer too long for a text. -/
  | value
  /-- An integer divided by zero. -/
  | zeroDivision
  | arithmetic (signal : Signal)
  deriving DecidableEq, Repr

/-- The kind of an error. -/
def CurveError.kind : CurveError → ErrorKind
  | amount _ => .amount
  | tooWide .. => .tooWide
  | price _ => .price
  | migrationOption _ => .migrationOption
  | fee _ => .fee
  | insufficientLiquidity .. => .insufficientLiquidity
  | supplyMismatch .. => .supplyMismatch
  | unknownDirection _ | unknownFeeMode _ | malformedFormat | textTooLong => .value
  | productOverZero | zeroDivisor => .zeroDivision
  | arithmetic signal => .arithmetic signal

/-- Two errors of one kind. -/
def SameKind (e e' : CurveError) : Prop :=
  e.kind = e'.kind

theorem SameKind.refl (e : CurveError) : SameKind e e := rfl

/-! ### Computations that are alike -/

/-- Both computations succeed with related results, or both fail with related errors. -/
inductive Alike {ε α β : Type} (E : ε → ε → Prop) (R : α → β → Prop) : Except ε α → Except ε β → Prop
  | ok {a : α} {b : β} (h : R a b) : Alike E R (.ok a) (.ok b)
  | error {e e' : ε} (h : E e e') : Alike E R (.error e) (.error e')

/-- Both computations have one result, or fail with errors of one kind. -/
abbrev SameOutcome {α : Type} : Except CurveError α → Except CurveError α → Prop :=
  Alike SameKind Eq

namespace Alike

variable {ε α β γ δ : Type} {E : ε → ε → Prop} {R : α → β → Prop} {S : γ → δ → Prop}

theorem refl {R : α → α → Prop} (hE : ∀ e, E e e) (hR : ∀ a, R a a) (x : Except ε α) : Alike E R x x := by
  cases x with
  | ok a => exact .ok (hR a)
  | error e => exact .error (hE e)

/-- A sequence is compared step by step. -/
theorem bind {x : Except ε α} {y : Except ε β} {f : α → Except ε γ} {g : β → Except ε δ} (h : Alike E R x y)
    (hfg : ∀ a b, R a b → Alike E S (f a) (g b)) : Alike E S (x >>= f) (y >>= g) := by
  cases h with
  | ok hab => exact hfg _ _ hab
  | error he => exact .error he

/-- What follows a step with one result is compared for this result. -/
theorem bind_eq {x y : Except ε α} {f : α → Except ε γ} {g : α → Except ε δ} (h : Alike E Eq x y)
    (hfg : ∀ a, Alike E S (f a) (g a)) : Alike E S (x >>= f) (y >>= g) := by
  refine h.bind ?_
  rintro a _ rfl
  exact hfg a

/-- What follows one step is compared for each result of the step. -/
theorem bind_self {x : Except ε α} {f : α → Except ε γ} {g : α → Except ε δ} (hE : ∀ e, E e e)
    (hfg : ∀ a, Alike E S (f a) (g a)) : Alike E S (x >>= f) (x >>= g) :=
  bind_eq (refl hE (fun _ => rfl) x) hfg

theorem map {x : Except ε α} {y : Except ε β} {f : α → γ} {g : β → δ} (h : Alike E R x y)
    (hfg : ∀ a b, R a b → S (f a) (g b)) : Alike E S (f <$> x) (g <$> y) := by
  cases h with
  | ok hab => exact .ok (hfg _ _ hab)
  | error he => exact .error he

/-- A choice is compared if both computations choose alike. -/
theorem ite {p q : Prop} [Decidable p] [Decidable q] {x x' : Except ε α} {y y' : Except ε β} (hpq : p ↔ q)
    (hx : Alike E R x y) (hy : Alike E R x' y') : Alike E R (if p then x else x') (if q then y else y') := by
  by_cases hp : p
  · rw [if_pos hp, if_pos (hpq.mp hp)]
    exact hx
  · rw [if_neg hp, if_neg (fun hq => hp (hpq.mpr hq))]
    exact hy

/-- Decimal computations that are alike are alike as parts of an operation. -/
theorem liftSignal {x : Except Signal α} {y : Except Signal β} (h : Alike Eq R x y) :
    Alike SameKind R (liftSignal x) (BondingCurve.liftSignal y) := by
  cases h with
  | ok hab => exact .ok hab
  | error he => exact .error (by rw [he]; rfl)

end Alike

theorem SameOutcome.refl {α : Type} (x : Except CurveError α) : SameOutcome x x :=
  Alike.refl SameKind.refl (fun _ => rfl) x

theorem SameOutcome.eq_ok {α : Type} {x y : Except CurveError α} {a : α} (h : SameOutcome x y) (hx : x = .ok a) :
    y = .ok a := by
  cases h with
  | ok hab => rwa [← hab]
  | error he => cases hx

end BondingCurve
