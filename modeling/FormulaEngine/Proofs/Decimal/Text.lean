import FormulaEngine.Decimal.Printer
import FormulaEngine.Decimal.Reader
import Mathlib.Tactic.Common

/-!
# The text of a decimal

A decimal is printed in its normalized form, and reading the text gives that
form back.

* `equals_normalize` and `normalize_eq_iff`: the normalized form has the same
  value, and equal values have one normalized form.
* `readDigits_digits`: digits that fit are taken as they stand, so that the
  rounding of the reader never comes into play for a printed decimal.
* `readChars_toChars` is the round trip, and `toText_eq_iff` follows from it:
  two decimals have one text exactly when they are equal in value.
-/

namespace FormulaEngine

theorem isDigit_of_mem_digitsOf {n : Nat} {c : Char} (h : c ∈ digitsOf n) : c.isDigit = true :=
  Nat.isDigit_of_mem_toDigits (by decide) (by decide) h

theorem digitsOf_ne_nil (n : Nat) : digitsOf n ≠ [] := Nat.toDigits_ne_nil

theorem ofDigitChars_digitsOf (n : Nat) : Nat.ofDigitChars 10 (digitsOf n) 0 = n :=
  Nat.ofDigitChars_ten_toDigits

namespace Decimal

/-! ## Normalized forms -/

theorem dropZeros_value (coefficient scale : Nat) :
    (dropZeros coefficient scale).1 * tenTo scale =
      coefficient * tenTo (dropZeros coefficient scale).2 := by
  induction scale generalizing coefficient with
  | zero => rfl
  | succ scale ih =>
    rw [dropZeros]
    split
    · rename_i hzero
      have hten : coefficient / 10 * 10 = coefficient := by omega
      calc (dropZeros (coefficient / 10) scale).1 * tenTo (scale + 1)
          = (dropZeros (coefficient / 10) scale).1 * tenTo scale * 10 := by
            rw [tenTo_succ, Nat.mul_assoc]
        _ = coefficient / 10 * 10 * tenTo (dropZeros (coefficient / 10) scale).2 := by
            rw [ih, Nat.mul_right_comm]
        _ = coefficient * tenTo (dropZeros (coefficient / 10) scale).2 := by rw [hten]
    · rfl

/-- A fraction that is left does not end in a zero. -/
theorem dropZeros_trimmed (coefficient scale : Nat) :
    (dropZeros coefficient scale).2 ≠ 0 → (dropZeros coefficient scale).1 % 10 ≠ 0 := by
  induction scale generalizing coefficient with
  | zero => exact fun h => absurd rfl h
  | succ scale ih =>
    rw [dropZeros]
    split
    · exact ih _
    · rename_i hdigit
      exact fun _ => hdigit

theorem dropZeros_eq_zero_iff (coefficient scale : Nat) :
    (dropZeros coefficient scale).1 = 0 ↔ coefficient = 0 := by
  have hvalue := dropZeros_value coefficient scale
  have hscale := tenTo_pos scale
  have hdropped := tenTo_pos (dropZeros coefficient scale).2
  constructor
  · intro h
    rw [h, Nat.zero_mul] at hvalue
    exact (Nat.mul_eq_zero.mp hvalue.symm).resolve_right (Nat.ne_of_gt hdropped)
  · intro h
    rw [h, Nat.zero_mul] at hvalue
    rw [h]
    exact (Nat.mul_eq_zero.mp hvalue).resolve_right (Nat.ne_of_gt hscale)

theorem natAbs_numerator (d : Decimal) : d.numerator.natAbs = d.coefficient := by
  rw [numerator]
  split <;> simp

theorem numerator_normalize (d : Decimal) :
    d.normalize.numerator =
      if d.negative then -(d.normalize.coefficient : Int) else d.normalize.coefficient := by
  have hzero := dropZeros_eq_zero_iff d.coefficient d.scale
  rw [numerator]
  cases hnegative : d.negative with
  | false => simp [normalize, hnegative]
  | true =>
    by_cases hcoefficient : d.coefficient = 0
    · simp [normalize, hzero.mpr hcoefficient]
    · simp [normalize, hnegative, hcoefficient]

theorem equals_iff {a b : Decimal} :
    a.equals b = true ↔ a.numerator * tenTo b.scale = b.numerator * tenTo a.scale :=
  decide_eq_true_iff

theorem equals_symm {a b : Decimal} (h : a.equals b = true) : b.equals a = true :=
  equals_iff.mpr (equals_iff.mp h).symm

theorem equals_trans {a b c : Decimal} (h₁ : a.equals b = true) (h₂ : b.equals c = true) :
    a.equals c = true := by
  rw [equals_iff] at *
  have hb : (tenTo b.scale : Int) ≠ 0 := by exact_mod_cast Nat.ne_of_gt (tenTo_pos b.scale)
  refine Int.eq_of_mul_eq_mul_right hb ?_
  calc a.numerator * tenTo c.scale * tenTo b.scale
      = a.numerator * tenTo b.scale * tenTo c.scale := by rw [Int.mul_right_comm]
    _ = b.numerator * tenTo c.scale * tenTo a.scale := by rw [h₁, Int.mul_right_comm]
    _ = c.numerator * tenTo a.scale * tenTo b.scale := by rw [h₂, Int.mul_right_comm]

/-- The normalized form has the same value. -/
theorem equals_normalize (d : Decimal) : d.normalize.equals d = true := by
  have hvalue : (d.normalize.coefficient : Int) * tenTo d.scale =
      d.coefficient * tenTo d.normalize.scale := by
    exact_mod_cast dropZeros_value d.coefficient d.scale
  rw [equals_iff, numerator_normalize, numerator]
  split
  · rw [Int.neg_mul, Int.neg_mul, hvalue]
  · exact hvalue

/-- A form without trailing zeros in its fraction. -/
def IsTrimmed (d : Decimal) : Prop := d.scale ≠ 0 → d.coefficient % 10 ≠ 0

theorem isTrimmed_normalize (d : Decimal) : d.normalize.IsTrimmed :=
  dropZeros_trimmed d.coefficient d.scale

/-- Trimmed forms of one magnitude cannot differ in scale. -/
theorem scale_le_of_isTrimmed {a b : Decimal} (hb : b.IsTrimmed)
    (h : a.coefficient * tenTo b.scale = b.coefficient * tenTo a.scale) : b.scale ≤ a.scale := by
  by_contra hlt
  obtain ⟨extra, hextra⟩ : ∃ extra, b.scale = a.scale + (extra + 1) :=
    ⟨b.scale - a.scale - 1, by omega⟩
  have hvalue : b.coefficient = a.coefficient * tenTo (extra + 1) := by
    rw [hextra, tenTo_add, Nat.mul_left_comm, Nat.mul_comm (tenTo a.scale)] at h
    exact (Nat.eq_of_mul_eq_mul_right (tenTo_pos a.scale) h).symm
  refine hb (by omega) ?_
  rw [hvalue, tenTo_succ, ← Nat.mul_assoc, Nat.mul_mod_left]

theorem negative_normalize_of_zero (d : Decimal) (h : d.normalize.coefficient = 0) :
    d.normalize.negative = false := by
  have hzero := (dropZeros_eq_zero_iff d.coefficient d.scale).mp h
  simp [normalize, hzero]

/-- Where zero has no sign, the numerator tells the sign. -/
theorem negative_eq_of_numerator_eq {a b : Decimal} (ha : a.coefficient = 0 → a.negative = false)
    (hb : b.coefficient = 0 → b.negative = false) (h : a.numerator = b.numerator) :
    a.negative = b.negative := by
  rw [numerator, numerator] at h
  cases hna : a.negative with
  | false =>
    cases hnb : b.negative with
    | false => rfl
    | true =>
      rw [hna, hnb, if_neg Bool.false_ne_true, if_pos rfl] at h
      exact absurd (hb (by omega)) (by simp [hnb])
  | true =>
    cases hnb : b.negative with
    | true => rfl
    | false =>
      rw [hna, hnb, if_neg Bool.false_ne_true, if_pos rfl] at h
      exact absurd (ha (by omega)) (by simp [hna])

/-- Equal values have one normalized form. -/
theorem normalize_eq_iff {a b : Decimal} : a.normalize = b.normalize ↔ a.equals b = true := by
  constructor
  · intro h
    refine equals_trans (equals_symm (equals_normalize a)) ?_
    rw [h]
    exact equals_normalize b
  · intro h
    have hequals : a.normalize.equals b.normalize = true :=
      equals_trans (equals_trans (equals_normalize a) h) (equals_symm (equals_normalize b))
    rw [equals_iff] at hequals
    have hmagnitude : a.normalize.coefficient * tenTo b.normalize.scale =
        b.normalize.coefficient * tenTo a.normalize.scale := by
      have habs := congrArg Int.natAbs hequals
      simpa [Int.natAbs_mul, natAbs_numerator] using habs
    have hscale : a.normalize.scale = b.normalize.scale := Nat.le_antisymm
      (scale_le_of_isTrimmed (isTrimmed_normalize a) hmagnitude.symm)
      (scale_le_of_isTrimmed (isTrimmed_normalize b) hmagnitude)
    have hcoefficient : a.normalize.coefficient = b.normalize.coefficient := by
      rw [hscale] at hmagnitude
      exact Nat.eq_of_mul_eq_mul_right (tenTo_pos _) hmagnitude
    have hnegative : a.normalize.negative = b.normalize.negative := by
      rw [hscale] at hequals
      have hten : (tenTo b.normalize.scale : Int) ≠ 0 := by
        exact_mod_cast Nat.ne_of_gt (tenTo_pos b.normalize.scale)
      exact negative_eq_of_numerator_eq (negative_normalize_of_zero a)
        (negative_normalize_of_zero b) (Int.eq_of_mul_eq_mul_right hten hequals)
    generalize a.normalize = x at *
    generalize b.normalize = y at *
    cases x
    cases y
    simp_all

/-! ## Reading digits -/

theorem foldl_digitValue (chars : List Char) (n : Nat) :
    chars.foldl (fun n c => n * 10 + digitValue c) n = Nat.ofDigitChars 10 chars n := by
  rw [Nat.ofDigitChars_eq_foldl]
  congr 1
  funext n c
  rw [digitValue, Nat.mul_comm]

/-- A run of digits is read as the number that it stands for. -/
theorem natOfDigits?_digitsOf (n : Nat) : natOfDigits? (digitsOf n) = some n := by
  have hdigits : (digitsOf n).any (fun c => !c.isDigit) = false := by
    rw [List.any_eq_false]
    intro c hc
    simp [isDigit_of_mem_digitsOf hc]
  have hsome : (digitsOf n).isEmpty = false := by simpa using digitsOf_ne_nil n
  rw [natOfDigits?, hsome, hdigits, if_neg (by simp), foldl_digitValue, ofDigitChars_digitsOf]

theorem le_ofDigitChars (chars : List Char) (n : Nat) : n ≤ Nat.ofDigitChars 10 chars n := by
  rw [Nat.ofDigitChars_eq_ofDigitChars_zero]
  exact Nat.le_trans (Nat.le_mul_of_pos_left n (Nat.pow_pos (by decide))) (Nat.le_add_right _ _)

/-- Digits that fit are taken as they stand. -/
theorem readDigits_digits {digits : List Char} (rest : List Char) {p : Progress}
    (hdigits : ∀ c ∈ digits, c.isDigit = true)
    (hfits : Nat.ofDigitChars 10 digits p.coefficient < twoTo 96)
    (hplaces : p.seenPoint = true → p.scale + digits.length ≤ 28)
    (hwhole : p.seenPoint = false → p.scale = 0) :
    readDigits p (digits ++ rest) =
      readDigits ⟨Nat.ofDigitChars 10 digits p.coefficient,
        if p.seenPoint then p.scale + digits.length else 0, p.seenPoint,
        p.seenDigit || !digits.isEmpty⟩ rest := by
  induction digits generalizing p with
  | nil =>
    obtain ⟨coefficient, scale, seenPoint, seenDigit⟩ := p
    cases seenPoint with
    | true => simp
    | false =>
      have hscale : scale = 0 := hwhole rfl
      simp [hscale]
  | cons c digits ih =>
    rw [List.forall_mem_cons] at hdigits
    have hnext : p.coefficient * 10 + digitValue c < twoTo 96 := by
      refine Nat.lt_of_le_of_lt (le_ofDigitChars digits _) ?_
      rwa [← foldl_digitValue, List.foldl_cons, foldl_digitValue] at hfits
    have hroom : (p.seenPoint && (p.scale == 28 ||
        decide (twoTo 96 ≤ p.coefficient * 10 + digitValue c))) = false := by
      cases hpoint : p.seenPoint with
      | false => rfl
      | true =>
        have hlength := hplaces hpoint
        rw [List.length_cons] at hlength
        have hscale : p.scale ≠ 28 := by omega
        simp [hscale, Nat.not_le.mpr hnext]
    rw [List.cons_append, readDigits, if_pos hdigits.1]
    dsimp only
    rw [if_neg (by simp [hroom]), if_neg (Nat.not_le.mpr hnext), ih hdigits.2]
    · rw [← foldl_digitValue, ← foldl_digitValue, List.foldl_cons]
      cases hpoint : p.seenPoint with
      | false => simp
      | true => simp [Nat.add_comm 1, Nat.add_assoc]
    · rwa [← foldl_digitValue, List.foldl_cons, foldl_digitValue] at hfits
    · intro hpoint
      have hlength := hplaces hpoint
      rw [List.length_cons] at hlength
      dsimp only at hpoint ⊢
      rw [if_pos hpoint]
      omega
    · intro hpoint
      dsimp only at hpoint ⊢
      rw [if_neg (by simp [hpoint])]

/-! ## Reading printed magnitudes -/

/-- The digits of the fraction, as many as there are places. -/
def fractionChars (coefficient scale : Nat) : List Char :=
  let fraction := digitsOf (coefficient % tenTo scale)
  List.replicate (scale - fraction.length) '0' ++ fraction

theorem magnitudeChars_of_ne_zero (coefficient : Nat) {scale : Nat} (h : scale ≠ 0) :
    magnitudeChars coefficient scale =
      digitsOf (coefficient / tenTo scale) ++ '.' :: fractionChars coefficient scale := if_neg h

theorem magnitudeChars_zero (coefficient : Nat) :
    magnitudeChars coefficient 0 = digitsOf coefficient := by
  rw [magnitudeChars]
  simp [tenTo_zero]

theorem isDigit_of_mem_fractionChars {coefficient scale : Nat} {c : Char}
    (h : c ∈ fractionChars coefficient scale) : c.isDigit = true := by
  rcases List.mem_append.mp h with hzero | hdigit
  · rw [(List.mem_replicate.mp hzero).2]
    rfl
  · exact isDigit_of_mem_digitsOf hdigit

theorem length_fractionChars (coefficient : Nat) {scale : Nat} (h : scale ≠ 0) :
    (fractionChars coefficient scale).length = scale := by
  have hlength : (digitsOf (coefficient % tenTo scale)).length ≤ scale :=
    (Nat.length_toDigits_le_iff (by decide) (Nat.pos_of_ne_zero h)).mpr
      (Nat.mod_lt _ (tenTo_pos scale))
  rw [fractionChars, List.length_append, List.length_replicate]
  omega

/-- Whole part and fraction make up the coefficient. -/
theorem ofDigitChars_fractionChars (coefficient : Nat) {scale : Nat} (h : scale ≠ 0) :
    Nat.ofDigitChars 10 (fractionChars coefficient scale) (coefficient / tenTo scale) =
      coefficient := by
  have hzeros := ofDigitChars_digitsOf (coefficient % tenTo scale)
  rw [Nat.ofDigitChars_eq_ofDigitChars_zero, length_fractionChars coefficient h, fractionChars,
    Nat.ofDigitChars_append, Nat.ofDigitChars_replicate_zero, Nat.mul_zero, hzeros]
  exact Nat.div_add_mod coefficient (tenTo scale)

/-- A printed magnitude is read digit by digit. -/
theorem readDigits_magnitudeChars {coefficient scale : Nat} (hcoefficient : coefficient < twoTo 96)
    (hscale : scale ≤ 28) :
    readDigits .start (magnitudeChars coefficient scale) =
      .ok ⟨coefficient, scale, decide (scale ≠ 0), true⟩ := by
  by_cases h : scale = 0
  · subst h
    rw [magnitudeChars_zero, ← List.append_nil (digitsOf coefficient),
      readDigits_digits [] (fun c => isDigit_of_mem_digitsOf) ?_ (by simp [Progress.start])
        (fun _ => rfl)]
    · simp [Progress.start, ofDigitChars_digitsOf, digitsOf_ne_nil, readDigits]
    · simpa [Progress.start, ofDigitChars_digitsOf] using hcoefficient
  · have hwhole : coefficient / tenTo scale < twoTo 96 :=
      Nat.lt_of_le_of_lt (Nat.div_le_self _ _) hcoefficient
    rw [magnitudeChars_of_ne_zero coefficient h,
      readDigits_digits _ (fun c => isDigit_of_mem_digitsOf) ?_ (by simp [Progress.start])
        (fun _ => rfl)]
    · rw [readDigits]
      simp only [Progress.start, ofDigitChars_digitsOf]
      rw [if_neg (by decide), if_pos trivial, if_neg (by simp),
        ← List.append_nil (fractionChars coefficient scale),
        readDigits_digits [] (fun c => isDigit_of_mem_fractionChars)]
      · simp [ofDigitChars_fractionChars coefficient h, length_fractionChars coefficient h, h,
          digitsOf_ne_nil, readDigits]
      · simpa [ofDigitChars_fractionChars coefficient h] using hcoefficient
      · intro _
        simpa [length_fractionChars coefficient h] using hscale
      · intro hpoint
        cases hpoint
    · simpa [Progress.start, ofDigitChars_digitsOf] using hwhole

theorem magnitudeChars_head (coefficient scale : Nat) :
    ∃ c rest, magnitudeChars coefficient scale = c :: rest ∧ c.isDigit = true := by
  have hhead : ∀ (n : Nat) (more : List Char),
      ∃ c rest, digitsOf n ++ more = c :: rest ∧ c.isDigit = true := by
    intro n more
    obtain ⟨c, rest, hdigits⟩ := List.exists_cons_of_ne_nil (digitsOf_ne_nil n)
    refine ⟨c, rest ++ more, by rw [hdigits]; rfl, ?_⟩
    exact isDigit_of_mem_digitsOf (n := n) (by rw [hdigits]; exact List.mem_cons_self)
  by_cases h : scale = 0
  · subst h
    rw [magnitudeChars_zero, ← List.append_nil (digitsOf coefficient)]
    exact hhead _ _
  · rw [magnitudeChars_of_ne_zero coefficient h]
    exact hhead _ _

theorem mem_magnitudeChars {coefficient scale : Nat} {c : Char}
    (h : c ∈ magnitudeChars coefficient scale) : c.isDigit = true ∨ c = '.' := by
  by_cases hscale : scale = 0
  · subst hscale
    rw [magnitudeChars_zero] at h
    exact .inl (isDigit_of_mem_digitsOf h)
  · rw [magnitudeChars_of_ne_zero coefficient hscale, List.mem_append, List.mem_cons] at h
    rcases h with hwhole | hpoint | hfraction
    · exact .inl (isDigit_of_mem_digitsOf hwhole)
    · exact .inr hpoint
    · exact .inl (isDigit_of_mem_fractionChars hfraction)

/-! ## The round trip -/

theorem mem_toChars {d : Decimal} {c : Char} (h : c ∈ d.toChars) :
    c.isDigit = true ∨ c = '.' ∨ c = '-' := by
  have hmagnitude : c ∈ magnitudeChars d.normalize.coefficient d.normalize.scale →
      c.isDigit = true ∨ c = '.' ∨ c = '-' :=
    fun hmem => (mem_magnitudeChars hmem).imp_right .inl
  rw [toChars] at h
  split at h
  · rcases List.mem_cons.mp h with hminus | hmem
    · exact .inr (.inr hminus)
    · exact hmagnitude hmem
  · exact hmagnitude h

theorem isExponentMark_of_isDigit {c : Char} (h : c.isDigit = true) :
    isExponentMark c = false := by
  rw [isExponentMark, Bool.or_eq_false_iff, beq_eq_false_iff_ne, beq_eq_false_iff_ne]
  constructor <;> (rintro rfl; cases h)

theorem not_isExponentMark_of_mem_toChars {d : Decimal} {c : Char} (h : c ∈ d.toChars) :
    isExponentMark c = false := by
  rcases mem_toChars h with hdigit | rfl | rfl
  · exact isExponentMark_of_isDigit hdigit
  · rfl
  · rfl

theorem splitSign_of_isDigit {c : Char} (rest : List Char) (h : c.isDigit = true) :
    splitSign (c :: rest) = (false, c :: rest) := by
  rw [splitSign]
  · rintro _ heq
    cases heq
    cases h
  · rintro _ heq
    cases heq
    cases h

/-- A decimal without a sign on zero is made of its parts again. -/
theorem ofParts?_normalize (d : Decimal) :
    ofParts? d.normalize.negative d.normalize.coefficient d.normalize.scale =
      some d.normalize := by
  have hsign : (d.normalize.negative && d.normalize.coefficient != 0) = d.normalize.negative := by
    by_cases hzero : d.coefficient = 0
    · simp [normalize, hzero]
    · have hdropped := (dropZeros_eq_zero_iff d.coefficient d.scale).not.mpr hzero
      simp [normalize, hdropped]
  rw [ofParts?, dif_pos ⟨d.normalize.coefficient_lt, d.normalize.scale_le⟩]
  congr 1
  exact congrArg (fun negative => (⟨negative, _, _, d.normalize.coefficient_lt,
    d.normalize.scale_le⟩ : Decimal)) hsign

/-- Reading the text of a decimal gives its normalized form. -/
theorem readChars_toChars (d : Decimal) : readChars d.toChars = .ok d.normalize := by
  have hplain : Text.splitRun (fun c => !isExponentMark c) d.toChars = (d.toChars, []) := by
    have hsplit : Text.splitRun (fun c => !isExponentMark c) (d.toChars ++ []) = (d.toChars, []) :=
      Text.splitRun_of_all (fun c hc => by simp [not_isExponentMark_of_mem_toChars hc])
        (fun c hc => by cases hc)
    rwa [List.append_nil] at hsplit
  obtain ⟨c, rest, hhead, hdigit⟩ :=
    magnitudeChars_head d.normalize.coefficient d.normalize.scale
  have hsign : splitSign d.toChars =
      (d.normalize.negative, magnitudeChars d.normalize.coefficient d.normalize.scale) := by
    rw [toChars]
    cases d.normalize.negative with
    | true => rfl
    | false =>
      rw [if_neg Bool.false_ne_true, hhead]
      exact splitSign_of_isDigit rest hdigit
  have hsome : d.toChars.isEmpty = false := by
    rw [toChars, hhead]
    split <;> rfl
  rw [readChars, hplain]
  dsimp only
  rw [readPlain, hsome, if_neg Bool.false_ne_true, hsign]
  dsimp only
  rw [readDigits_magnitudeChars d.normalize.coefficient_lt d.normalize.scale_le]
  dsimp only
  rw [Progress.toDecimal, if_pos rfl, ofParts?_normalize]

/-- Two decimals have one text exactly when they are equal in value. -/
theorem toText_eq_iff {a b : Decimal} : a.toText = b.toText ↔ a.equals b = true := by
  rw [← normalize_eq_iff]
  constructor
  · intro h
    have hchars : a.toChars = b.toChars := String.ofList_injective h
    have hread := readChars_toChars a
    rw [hchars, readChars_toChars b] at hread
    exact (Except.ok.inj hread).symm
  · intro h
    rw [toText, toText, toChars, toChars, h]

example : Decimal.read "2.50" = .ok ⟨false, 250, 2, by decide, by decide⟩ ∧
    toText ⟨false, 250, 2, by decide, by decide⟩ = "2.5" := by
  constructor <;> rfl

end Decimal

end FormulaEngine
