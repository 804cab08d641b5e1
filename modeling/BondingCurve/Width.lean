import BondingCurve.Error

/-!
# Fixed widths

Integers are unbounded until the ledger stores them. `requireU64` and `requireU128` check that a number fits and
return the proof that it does; `checkedU64` and `checkedU128` return the number. Both refuse exactly the numbers that
do not fit.
-/

namespace BondingCurve

/-- Checks that an amount fits the ledger. -/
def requireU64 (what : String) (value : Int) : Except CurveError (PLift (IsU64 value)) :=
  if hn : value < 0 then .error (.amount (.negative what value))
  else if hm : u64Max < value then .error (.tooWide what value 64)
  else .ok ⟨Int.not_lt.mp hn, Int.not_lt.mp hm⟩

/-- Checks that a liquidity or price fits the ledger. -/
def requireU128 (what : String) (value : Int) : Except CurveError (PLift (IsU128 value)) :=
  if hn : value < 0 then .error (.amount (.negative what value))
  else if hm : u128Max < value then .error (.tooWide what value 128)
  else .ok ⟨Int.not_lt.mp hn, Int.not_lt.mp hm⟩

/-- An amount that fits the ledger. -/
def checkedU64 (what : String) (value : Int) : Except CurveError Int := do
  let _ ← requireU64 what value
  pure value

/-- A liquidity or price that fits the ledger. -/
def checkedU128 (what : String) (value : Int) : Except CurveError Int := do
  let _ ← requireU128 what value
  pure value

theorem requireU128_of_isU128 {value : Int} (what : String) (h : IsU128 value) : requireU128 what value = .ok ⟨h⟩ := by
  rw [requireU128, dif_neg (Int.not_lt.mpr h.1), dif_neg (Int.not_lt.mpr h.2)]

theorem checkedU64_eq_ok_iff {what : String} {value r : Int} :
    checkedU64 what value = .ok r ↔ IsU64 value ∧ r = value := by
  by_cases hn : value < 0
  · rw [checkedU64, requireU64, dif_pos hn]
    show Except.error _ = Except.ok r ↔ IsU64 value ∧ r = value
    simp [IsU64]
    omega
  by_cases hm : u64Max < value
  · rw [checkedU64, requireU64, dif_neg hn, dif_pos hm]
    show Except.error _ = Except.ok r ↔ IsU64 value ∧ r = value
    simp [IsU64]
    omega
  · rw [checkedU64, requireU64, dif_neg hn, dif_neg hm]
    show Except.ok value = Except.ok r ↔ IsU64 value ∧ r = value
    simp [IsU64, eq_comm]
    omega

theorem checkedU64_of_lt {what : String} {value : Int} (h : u64Max < value) :
    checkedU64 what value = .error (.tooWide what value 64) := by
  have hn : ¬ value < 0 := by
    have : 0 ≤ u64Max := by decide
    omega
  rw [checkedU64, requireU64, dif_neg hn, dif_pos h]
  rfl

theorem checkedU64_of_neg {what : String} {value : Int} (h : value < 0) :
    checkedU64 what value = .error (.amount (.negative what value)) := by
  rw [checkedU64, requireU64, dif_pos h]
  rfl

theorem checkedU128_of_lt {what : String} {value : Int} (h : u128Max < value) :
    checkedU128 what value = .error (.tooWide what value 128) := by
  have hn : ¬ value < 0 := by
    have : 0 ≤ u128Max := by decide
    omega
  rw [checkedU128, requireU128, dif_neg hn, dif_pos h]
  rfl

theorem checkedU128_eq_ok_iff {what : String} {value r : Int} :
    checkedU128 what value = .ok r ↔ IsU128 value ∧ r = value := by
  by_cases hn : value < 0
  · rw [checkedU128, requireU128, dif_pos hn]
    show Except.error _ = Except.ok r ↔ IsU128 value ∧ r = value
    simp [IsU128]
    omega
  by_cases hm : u128Max < value
  · rw [checkedU128, requireU128, dif_neg hn, dif_pos hm]
    show Except.error _ = Except.ok r ↔ IsU128 value ∧ r = value
    simp [IsU128]
    omega
  · rw [checkedU128, requireU128, dif_neg hn, dif_neg hm]
    show Except.ok value = Except.ok r ↔ IsU128 value ∧ r = value
    simp [IsU128, eq_comm]
    omega

end BondingCurve
