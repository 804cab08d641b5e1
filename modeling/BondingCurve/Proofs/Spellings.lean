import BondingCurve.Migration.Venue
import BondingCurve.Proofs.ValueArithmetic

/-!
# Spellings of a number

A number can be handed in as an integer, as a decimal, or as a text, and in many spellings (`Scalar.Denotes`).

* (texts) The digits of an integer are read back as this integer (`Numeral.ofText?_toString`): none of its characters is
  a blank, an underscore or a letter, so that reading does not change them.
* (arguments) Arguments that denote one number are read as decimals with one value (`Scalar.Denotes.ofScalar_eq`).  An
  integer denotes a number only if it has a text, since it is read from its text.
* (options) An option is selected by a number and never by a text (`Scalar.SameOption.sameOutcome`).
-/

namespace BondingCurve

/-! ### Digits -/

namespace Numeral

/-- A character that reading a number keeps as it is. -/
def IsPlain (c : Char) : Prop :=
  Text.isBlank c = false ∧ (c != '_') = true ∧ normalChar c = c

instance (c : Char) : Decidable (IsPlain c) :=
  inferInstanceAs (Decidable (_ ∧ _ ∧ _))

private theorem isPlain_of_isDigit {c : Char} (h : c.isDigit = true) : IsPlain c := by
  have hdigits : ∀ k < 10, IsPlain (Char.ofNat (48 + k)) := by decide
  have hrange : 48 ≤ c.toNat ∧ c.toNat ≤ 57 := by
    simpa [Char.isDigit, UInt32.le_iff_toNat_le] using h
  have hplain := hdigits (c.toNat - 48) (by omega)
  rwa [Nat.add_sub_cancel' hrange.1, Char.ofNat_toNat] at hplain

/-- Nothing is taken from plain characters, and none is changed. -/
private theorem map_normalChar_of_isPlain {text : List Char} (h : ∀ c ∈ text, IsPlain c) :
    ((Text.trim text).filter (· != '_')).map normalChar = text := by
  have hkeep : ∀ l : List Char, (∀ c ∈ l, IsPlain c) → l.dropWhile Text.isBlank = l := by
    intro l hl
    cases l with
    | nil => rfl
    | cons c rest => rw [List.dropWhile_cons_of_neg (by simp [(hl c (by simp)).1])]
  have htrim : Text.trim text = text := by
    rw [Text.trim, hkeep text h, hkeep text.reverse (by simpa using h), List.reverse_reverse]
  rw [htrim, List.filter_eq_self.mpr fun c hc => (h c hc).2.1]
  calc text.map normalChar = text.map id := List.map_congr_left fun c hc => (h c hc).2.2
    _ = text := List.map_id text

private theorem spanDigits_of_isDigit {text : List Char} (h : ∀ c ∈ text, c.isDigit = true) :
    spanDigits text = (text.map fun c => c.toNat - 48, []) := by
  induction text with
  | nil => rfl
  | cons c rest ih =>
    have hrest := ih fun d hd => h d (List.mem_cons_of_mem c hd)
    have hc := h c List.mem_cons_self
    simp [spanDigits, Text.asciiDigitValue?, hc, hrest]

private theorem isDigit_of_mem_toDigits {m : ℕ} {c : Char} (h : c ∈ Nat.toDigits 10 m) : c.isDigit = true :=
  Nat.isDigit_of_mem_toDigits (by decide) (by decide) h

/-- The digits of a natural number are read as this number. -/
private theorem ofDigits_toDigits (m : ℕ) : Text.ofDigits ((Nat.toDigits 10 m).map fun c => c.toNat - 48) = m := by
  rw [Text.ofDigits, List.foldl_map]
  conv_rhs => rw [← Nat.ofDigitChars_ten_toDigits (n := m), Nat.ofDigitChars_eq_foldl]
  rfl

private theorem number?_toDigits {negative : Bool} {m : ℕ}
    (h : (⟨negative, m, 0⟩ : Decimal).adjusted ≤ greatestTextExponent) :
    number? negative (Nat.toDigits 10 m) = some ⟨negative, m, 0⟩ := by
  have hspan : spanDigits (Nat.toDigits 10 m) = _ := spanDigits_of_isDigit fun c hc => isDigit_of_mem_toDigits hc
  have hleast : ¬ (0 : Int) < leastTextExponent := by decide
  simp [number?, hspan, exponent?, ofDigits_toDigits, Nat.toDigits_ne_nil, not_lt.mpr h, hleast]

/-- Digits are neither an infinity nor a payload. -/
private theorem unsigned?_toDigits {negative : Bool} {m : ℕ}
    (h : (⟨negative, m, 0⟩ : Decimal).adjusted ≤ greatestTextExponent) :
    unsigned? negative (Nat.toDigits 10 m) = some (.finite ⟨negative, m, 0⟩) := by
  have hnumber := number?_toDigits h
  obtain ⟨c, rest, hdigits⟩ := List.exists_cons_of_ne_nil (Nat.toDigits_ne_nil (n := m) (b := 10))
  have hc : c.isDigit = true := isDigit_of_mem_toDigits (m := m) (by rw [hdigits]; exact List.mem_cons_self)
  rw [hdigits] at hnumber ⊢
  have hletter : ∀ {d : Char} {other : List Char}, c :: rest = d :: other → d.isDigit = true := by
    intro d other heq
    rwa [← (List.cons.inj heq).1]
  unfold unsigned?
  rw [if_neg]
  · split
    · exact absurd (hletter ‹_›) (by decide)
    · exact absurd (hletter ‹_›) (by decide)
    · rw [hnumber]
      rfl
  · rintro (heq | heq) <;> exact absurd (hletter heq) (by decide)

/-- The text of an integer is read as this integer. -/
theorem ofText?_toString {n : Int} (h : (Decimal.ofInt n).adjusted ≤ greatestTextExponent) :
    ofText? (toString n) = some (.finite (.ofInt n)) := by
  have hplain : ∀ m : ℕ, ∀ c ∈ Nat.toDigits 10 m, IsPlain c :=
    fun m c hc => isPlain_of_isDigit (isDigit_of_mem_toDigits hc)
  cases n with
  | ofNat m =>
    have htext : (toString (Int.ofNat m)).toList = Nat.toDigits 10 m := Nat.toList_repr
    have hread : unsigned? false (Nat.toDigits 10 m) = some (.finite ⟨false, m, 0⟩) := unsigned?_toDigits h
    have hdigit := fun c hc => isDigit_of_mem_toDigits (m := m) (c := c) hc
    unfold ofText?
    rw [htext, map_normalChar_of_isPlain (hplain m)]
    split
    · rename_i rest heq
      exact absurd (hdigit '-' (by rw [heq]; exact List.mem_cons_self)) (by decide)
    · rename_i rest heq
      exact absurd (hdigit '+' (by rw [heq]; exact List.mem_cons_self)) (by decide)
    · exact hread
  | negSucc m =>
    have htext : (toString (Int.negSucc m)).toList = '-' :: Nat.toDigits 10 (m + 1) := by
      show ("-" ++ (m + 1).repr).toList = _
      rw [String.toList_append, Nat.toList_repr]
      rfl
    have hofInt : Decimal.ofInt (Int.negSucc m) = ⟨true, m + 1, 0⟩ := by simp [Decimal.ofInt, Int.negSucc_lt_zero]
    rw [hofInt] at h ⊢
    have hread : unsigned? true (Nat.toDigits 10 (m + 1)) = some (.finite ⟨true, m + 1, 0⟩) := unsigned?_toDigits h
    have hall : ∀ c ∈ '-' :: Nat.toDigits 10 (m + 1), IsPlain c := by
      intro c hc
      rcases List.mem_cons.mp hc with rfl | hc
      · decide
      · exact hplain _ c hc
    unfold ofText?
    rw [htext, map_normalChar_of_isPlain hall]
    exact hread

end Numeral

/-! ### Arguments -/

namespace Scalar

/-- An argument denotes a number: an integer that has a text itself, a decimal its value, and a text the value that is
read from it. -/
inductive Denotes : Scalar → ℚ → Prop
  | int {n : Int} (h : HasText n) : Denotes (.int n) n
  | decimal (x : Decimal) : Denotes (.decimal (.finite x)) x.value
  | text {t : String} {x : Decimal} (h : Numeral.ofText? t = some (.finite x)) : Denotes (.text t) x.value

/-- The arguments are equal, or denote one number. -/
def SameNumber (s s' : Scalar) : Prop :=
  s = s' ∨ ∃ q, s.Denotes q ∧ s'.Denotes q

end Scalar

/-- The numerals are equal, or spell one number. -/
inductive Numeral.SameNumber : Numeral → Numeral → Prop
  | refl (a : Numeral) : SameNumber a a
  | finite {x y : Decimal} (h : x.SameValue y) : SameNumber (.finite x) (.finite y)

namespace Scalar

/-- An integer that has a text is read from it. -/
private theorem ofScalar_int {n : Int} (h : HasText n) : Numeral.ofScalar (.int n) = .ok (.finite (.ofInt n)) := by
  have hdigits : digitCount n.natAbs ≤ maxTextDigits := h
  have hlimit : (maxTextDigits : Int) ≤ Numeral.greatestTextExponent := by decide
  have hshort : (Decimal.ofInt n).adjusted ≤ Numeral.greatestTextExponent := by
    simp only [Decimal.adjusted, Decimal.digits, Decimal.ofInt]
    omega
  simp only [Numeral.ofScalar, spelling, if_pos h, ok_bind, Numeral.ofText?_toString hshort]

/-- What denotes a number is read as a decimal with this value. -/
theorem Denotes.ofScalar_eq {s : Scalar} {q : ℚ} (h : s.Denotes q) :
    ∃ x : Decimal, Numeral.ofScalar s = .ok (.finite x) ∧ x.value = q := by
  cases h with
  | int h => exact ⟨_, ofScalar_int h, Decimal.value_ofInt _⟩
  | decimal x => exact ⟨x, rfl, rfl⟩
  | text h => exact ⟨_, by simp only [Numeral.ofScalar, spelling, display, ok_bind, h], rfl⟩

theorem SameNumber.refl (s : Scalar) : s.SameNumber s := .inl rfl

theorem SameNumber.of_int {n : Int} {s : Scalar} {q : ℚ} (hn : HasText n) (h : s.Denotes q) (hq : q = n) :
    (Scalar.int n).SameNumber s :=
  .inr ⟨n, .int hn, hq ▸ h⟩

/-- Arguments that denote one number are read alike. -/
theorem SameNumber.ofScalar {s s' : Scalar} (h : s.SameNumber s') :
    Alike SameKind Numeral.SameNumber (Numeral.ofScalar s) (Numeral.ofScalar s') := by
  rcases h with rfl | ⟨q, hs, hs'⟩
  · exact .refl SameKind.refl .refl _
  · obtain ⟨x, hread, hvalue⟩ := hs.ofScalar_eq
    obtain ⟨x', hread', hvalue'⟩ := hs'.ofScalar_eq
    rw [hread, hread']
    exact .ok (.finite (hvalue.trans hvalue'.symm))

/-- The argument is a text. -/
def isText : Scalar → Bool
  | text _ => true
  | _ => false

/-- The arguments are equal, or denote one number; if it is the number of an option, both are texts or neither is. -/
def SameOption (s s' : Scalar) : Prop :=
  s = s' ∨ ∃ q, s.Denotes q ∧ s'.Denotes q ∧ ∀ option : MigrationOption, q = option.number → s.isText = s'.isText

/-- What denotes a number equals an integer exactly if it is no text and the number is this integer. -/
private theorem Denotes.equalsInt {s : Scalar} {q : ℚ} (h : s.Denotes q) (n : Int) :
    s.equalsInt n = .ok (!s.isText && decide (q = n)) := by
  cases h with
  | @int m _ =>
    simp only [Scalar.equalsInt, countable?]
    congr 1
    rw [Bool.eq_iff_iff]
    simp [isText]
  | decimal x =>
    simp only [Scalar.equalsInt, Numeral.isInt]
    congr 1
    rw [Bool.eq_iff_iff, Decimal.sameNumber_iff, Decimal.value_ofInt]
    simp [isText]
  | text h => rfl

/-- Then they select one option, or none for reasons of one kind. -/
theorem SameOption.sameOutcome {s s' : Scalar} (h : s.SameOption s') :
    SameOutcome (MigrationOption.ofScalar s) (MigrationOption.ofScalar s') := by
  rcases h with rfl | ⟨q, hs, hs', htext⟩
  · exact SameOutcome.refl _
  · have hselects : ∀ option : MigrationOption,
        (!s.isText && decide (q = option.number)) = (!s'.isText && decide (q = option.number)) := by
      intro option
      by_cases hq : q = option.number
      · rw [htext option hq]
      · simp [hq]
    simp only [MigrationOption.ofScalar, hs.equalsInt, hs'.equalsInt, hselects, liftM_eq_liftSignal, liftSignal_ok,
      ok_bind]
    exact .ite Iff.rfl (.ok rfl) (.ite Iff.rfl (.ok rfl) (.error rfl))

end Scalar

end BondingCurve
