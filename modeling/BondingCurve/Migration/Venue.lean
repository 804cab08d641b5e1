import BondingCurve.Scalar

/-!
# Migration venues

At the end of its curve a token moves to a venue of one of two shapes, which a design selects by the number zero or
one. `MigrationOption.ofScalar` accepts every argument that equals one of these numbers.
-/

namespace BondingCurve

/-- The shape of the venue that takes over from the curve. -/
inductive MigrationOption
  /-- The venue prices the pair by a constant product. -/
  | constantProduct
  /-- The venue concentrates liquidity above the migration price. -/
  | concentrated
  deriving DecidableEq, Repr

namespace MigrationOption

/-- The name of an option. -/
def name : MigrationOption → String
  | constantProduct => "CONSTANT_PRODUCT"
  | concentrated => "CONCENTRATED"

/-- The number that selects an option. -/
def number : MigrationOption → Int
  | constantProduct => 0
  | concentrated => 1

/-- The option that an argument selects. -/
def ofScalar (value : Scalar) : Except CurveError MigrationOption := do
  if ← value.equalsInt constantProduct.number then pure constantProduct
  else if ← value.equalsInt concentrated.number then pure concentrated
  else throw (.migrationOption value.shown)

end MigrationOption

instance : Argument MigrationOption := ⟨fun option => .int option.number⟩

/-- An option selects itself. -/
@[simp] theorem MigrationOption.ofScalar_toScalar (option : MigrationOption) :
    MigrationOption.ofScalar (toScalar option) = .ok option := by
  cases option <;> rfl

end BondingCurve
