import FormulaEngine.Proofs.Decimal.Value

/-!
# Correct rounding

`rounded? q` is the value that an operation has to give whose exact result is
the rational number `q`: `q` rounded half to even at the greatest scale at which
it fits, and nothing if it does not fit at all.

* `IsRounded` says what a rounded number has to do with the exact one, and
  `isRounded_of_nearest?` that rounding gives it.
* `rounded?_value`: what a decimal can hold is not rounded.
* `le_of_rounded?` and `ge_of_rounded?`: rounding does not pass a decimal.
* `abs_sub_le_of_rounded?`: it is off by at most half a unit in every place
  that fits beside the rounded number.
-/

namespace FormulaEngine

/-! ## Rounding to a natural number -/

/-- The result is the quotient if at most one half is left, and the next number
if at least one half is left. -/
theorem roundHalfEven_cases (numerator denominator : Nat) :
    (roundHalfEven numerator denominator = numerator / denominator ∧
        2 * (numerator % denominator) ≤ denominator) ∨
      (roundHalfEven numerator denominator = numerator / denominator + 1 ∧
        denominator ≤ 2 * (numerator % denominator)) := by
  simp only [roundHalfEven]
  split_ifs with hless hgreater heven
  · exact .inl ⟨rfl, hless.le⟩
  · exact .inr ⟨rfl, hgreater.le⟩
  · exact .inl ⟨rfl, Nat.le_of_not_lt hgreater⟩
  · exact .inr ⟨rfl, Nat.le_of_not_lt hless⟩

/-- The rounded number is at most one half away. -/
theorem abs_roundHalfEven_sub_le (numerator : Nat) {denominator : Nat} (h : 0 < denominator) :
    |(roundHalfEven numerator denominator : ℚ) - numerator / denominator| ≤ 1 / 2 := by
  have hpos : (0 : ℚ) < denominator := Nat.cast_pos.mpr h
  have hdiv : (numerator : ℚ) = ((numerator / denominator : Nat) : ℚ) * denominator +
      ((numerator % denominator : Nat) : ℚ) := by
    exact_mod_cast (Nat.div_add_mod' numerator denominator).symm
  have hmod : ((numerator % denominator : Nat) : ℚ) < denominator :=
    Nat.cast_lt.mpr (Nat.mod_lt numerator h)
  have hnonneg : (0 : ℚ) ≤ ((numerator % denominator : Nat) : ℚ) := Nat.cast_nonneg _
  have hsplit : (numerator : ℚ) / denominator = ((numerator / denominator : Nat) : ℚ) +
      ((numerator % denominator : Nat) : ℚ) / denominator := by
    rw [eq_comm, add_div' _ _ _ hpos.ne', ← hdiv]
  rw [hsplit, abs_sub_le_iff]
  rcases roundHalfEven_cases numerator denominator with ⟨hround, hhalf⟩ | ⟨hround, hhalf⟩
  · have hleft : ((numerator % denominator : Nat) : ℚ) / denominator ≤ 1 / 2 := by
      rw [div_le_iff₀ hpos]
      have hcast : 2 * ((numerator % denominator : Nat) : ℚ) ≤ denominator := by
        exact_mod_cast hhalf
      linarith
    have hmore := div_nonneg hnonneg hpos.le
    rw [hround]
    constructor <;> linarith
  · have hleft : 1 / 2 ≤ ((numerator % denominator : Nat) : ℚ) / denominator := by
      rw [le_div_iff₀ hpos]
      have hcast : (denominator : ℚ) ≤ 2 * ((numerator % denominator : Nat) : ℚ) := by
        exact_mod_cast hhalf
      linarith
    have hless : ((numerator % denominator : Nat) : ℚ) / denominator ≤ 1 :=
      (div_le_one hpos).mpr hmod.le
    rw [hround, Nat.cast_succ]
    constructor <;> linarith

theorem roundHalfEven_mul_left (factor numerator denominator : Nat) (h : 0 < factor) :
    roundHalfEven (factor * numerator) (factor * denominator) =
      roundHalfEven numerator denominator := by
  have htwice : 2 * (factor * (numerator % denominator)) =
      factor * (2 * (numerator % denominator)) := Nat.mul_left_comm _ _ _
  simp only [roundHalfEven, Nat.mul_div_mul_left _ _ h, Nat.mul_mod_mul_left, htwice,
    Nat.mul_lt_mul_left h]

/-- Equal fractions are rounded alike. -/
theorem roundHalfEven_congr {numerator denominator numerator' denominator' : Nat}
    (h : 0 < denominator) (h' : 0 < denominator')
    (heq : numerator * denominator' = numerator' * denominator) :
    roundHalfEven numerator denominator = roundHalfEven numerator' denominator' := by
  rw [← roundHalfEven_mul_left denominator' numerator denominator h',
    ← roundHalfEven_mul_left denominator numerator' denominator' h,
    Nat.mul_comm denominator' numerator, heq, Nat.mul_comm numerator' denominator,
    Nat.mul_comm denominator' denominator]

/-- An integral fraction is not rounded. -/
theorem roundHalfEven_of_dvd {numerator denominator : Nat} (h : 0 < denominator)
    (hdvd : denominator ∣ numerator) :
    roundHalfEven numerator denominator = numerator / denominator := by
  have hmod : numerator % denominator = 0 := Nat.mod_eq_zero_of_dvd hdvd
  simp only [roundHalfEven, hmod]
  rw [if_pos (by omega)]

/-- An integral fraction that is taken ten times gets a zero at its end. -/
theorem roundHalfEven_mul_ten {numerator denominator : Nat} (h : 0 < denominator)
    (hdvd : denominator ∣ numerator) :
    roundHalfEven (numerator * 10) denominator = roundHalfEven numerator denominator * 10 := by
  rw [roundHalfEven_of_dvd h (Nat.dvd_mul_right_of_dvd hdvd 10), roundHalfEven_of_dvd h hdvd,
    Nat.mul_comm numerator 10, Nat.mul_div_assoc 10 hdvd, Nat.mul_comm 10]

theorem le_of_cast_le_add_half {m n : Nat} (h : (m : ℚ) ≤ n + 1 / 2) : m ≤ n := by
  by_contra hlt
  have hcast : (n : ℚ) + 1 ≤ m := by exact_mod_cast Nat.lt_of_not_le hlt
  linarith

namespace Decimal

/-! ## Decimals from parts -/

theorem eq_of_ofParts?_eq_some {negative : Bool} {coefficient scale : Nat} {d : Decimal}
    (h : ofParts? negative coefficient scale = some d) :
    d.negative = (negative && coefficient != 0) ∧ d.coefficient = coefficient ∧
      d.scale = scale := by
  rw [ofParts?] at h
  split at h
  · cases h
    exact ⟨rfl, rfl, rfl⟩
  · cases h

theorem le_of_ofParts?_eq_none {negative : Bool} {coefficient scale : Nat} (hscale : scale ≤ 28)
    (h : ofParts? negative coefficient scale = none) : twoTo 96 ≤ coefficient := by
  rw [ofParts?] at h
  split at h
  · cases h
  · rename_i hparts
    exact Nat.le_of_not_lt fun hlt => hparts ⟨hlt, hscale⟩

theorem value_of_ofParts? {negative : Bool} {coefficient scale : Nat} {d : Decimal}
    (h : ofParts? negative coefficient scale = some d) :
    d.value = (if negative then -1 else 1) * (coefficient / tenTo scale : ℚ) := by
  obtain ⟨hnegative, rfl, rfl⟩ := eq_of_ofParts?_eq_some h
  rw [← abs_value]
  cases hsign : d.negative with
  | true =>
    rw [hsign] at hnegative
    rw [(Bool.and_eq_true_iff.mp hnegative.symm).1, if_pos rfl, value_eq_neg_abs hsign]
    simp
  | false =>
    -- A sign of a zero is dropped, which is no change to its value.
    by_cases hzero : d.coefficient = 0
    · have hvalue : d.value = 0 := isZero_iff_value.mp (by simp [isZero, hzero])
      simp [hvalue]
    · have hpositive : negative = false := by
        rw [hsign] at hnegative
        simpa [hzero] using hnegative.symm
      rw [hpositive, if_neg Bool.false_ne_true, value_eq_abs hsign]
      simp

/-! ## The scale of a rounded number -/

/-- Rounding stops at the first scale at which the coefficient fits. -/
theorem nearest?_of_fits {negative : Bool} {numerator denominator scale : Nat}
    (hfits : roundHalfEven (numerator * tenTo scale) denominator < twoTo 96)
    (hscale : scale ≤ 28) :
    nearest? negative numerator denominator scale =
      ofParts? negative (roundHalfEven (numerator * tenTo scale) denominator) scale := by
  cases scale with
  | zero => rw [nearest?, tenTo_zero, Nat.mul_one]
  | succ scale =>
    rw [nearest?, ofParts?, dif_pos ⟨hfits, hscale⟩]

theorem nearest?_eq_some {negative : Bool} {numerator denominator scale : Nat} {d : Decimal}
    (hscale : scale ≤ 28) (h : nearest? negative numerator denominator scale = some d) :
    ofParts? negative (roundHalfEven (numerator * tenTo d.scale) denominator) d.scale = some d ∧
      (d.scale = scale ∨
        twoTo 96 ≤ roundHalfEven (numerator * tenTo (d.scale + 1)) denominator) := by
  induction scale with
  | zero =>
    rw [nearest?] at h
    obtain ⟨-, -, hzero⟩ := eq_of_ofParts?_eq_some h
    rw [hzero, tenTo_zero, Nat.mul_one]
    exact ⟨h, .inl rfl⟩
  | succ scale ih =>
    rw [nearest?] at h
    cases hparts : ofParts? negative
        (roundHalfEven (numerator * tenTo (scale + 1)) denominator) (scale + 1) with
    | some fitting =>
      rw [hparts] at h
      cases h
      obtain ⟨-, -, hsame⟩ := eq_of_ofParts?_eq_some hparts
      rw [hsame]
      exact ⟨hparts, .inl rfl⟩
    | none =>
      rw [hparts] at h
      obtain ⟨hrounded, hmaximal⟩ := ih (Nat.le_of_succ_le hscale) h
      refine ⟨hrounded, .inr ?_⟩
      rcases hmaximal with hlast | hexceeds
      · rw [hlast]
        exact le_of_ofParts?_eq_none hscale hparts
      · exact hexceeds

theorem le_of_nearest?_eq_none {negative : Bool} {numerator denominator scale : Nat}
    (h : nearest? negative numerator denominator scale = none) :
    twoTo 96 ≤ roundHalfEven numerator denominator := by
  induction scale with
  | zero =>
    rw [nearest?] at h
    exact le_of_ofParts?_eq_none (Nat.zero_le 28) h
  | succ scale ih =>
    rw [nearest?] at h
    split at h
    · cases h
    · exact ih h

theorem nearest?_congr (negative : Bool) {numerator denominator numerator' denominator' : Nat}
    (hpos : 0 < denominator) (hpos' : 0 < denominator')
    (heq : numerator * denominator' = numerator' * denominator) (scale : Nat) :
    nearest? negative numerator denominator scale =
      nearest? negative numerator' denominator' scale := by
  induction scale with
  | zero => rw [nearest?, nearest?, roundHalfEven_congr hpos hpos' heq]
  | succ scale ih =>
    have hscaled : numerator * tenTo (scale + 1) * denominator' =
        numerator' * tenTo (scale + 1) * denominator := by
      rw [Nat.mul_right_comm, heq, Nat.mul_right_comm]
    rw [nearest?, nearest?, roundHalfEven_congr hpos hpos' hscaled, ih]

/-! ## Rounded numbers -/

/-- What a rounded number has to do with the exact one: it has the same sign,
its coefficient is at most one half away from the exact number of units, and one
more place would not fit. -/
structure IsRounded (q : ℚ) (d : Decimal) : Prop where
  nonneg : 0 ≤ q → 0 ≤ d.value
  nonpos : q < 0 → d.value ≤ 0
  near : |(d.coefficient : ℚ) - |q| * tenTo d.scale| ≤ 1 / 2
  full : d.scale = 28 ∨ (twoTo 96 : ℚ) - 1 / 2 ≤ |q| * tenTo (d.scale + 1)

theorem isRounded_of_nearest? {q : ℚ} {numerator denominator : Nat} {d : Decimal}
    (hpos : 0 < denominator) (hq : |q| = numerator / denominator)
    (h : nearest? (decide (q < 0)) numerator denominator 28 = some d) : IsRounded q d := by
  obtain ⟨hparts, hfull⟩ := nearest?_eq_some (Nat.le_refl 28) h
  obtain ⟨-, hcoefficient, -⟩ := eq_of_ofParts?_eq_some hparts
  have hvalue := value_of_ofParts? hparts
  have hnear : ∀ places, |(roundHalfEven (numerator * tenTo places) denominator : ℚ) -
      |q| * tenTo places| ≤ 1 / 2 := by
    intro places
    have hround := abs_roundHalfEven_sub_le (numerator * tenTo places) hpos
    rwa [Nat.cast_mul, mul_div_right_comm, ← hq] at hround
  have hmagnitude : (0 : ℚ) ≤
      (roundHalfEven (numerator * tenTo d.scale) denominator : ℚ) / tenTo d.scale := by positivity
  refine ⟨fun hsign => ?_, fun hsign => ?_, ?_, hfull.imp id fun hexceeds => ?_⟩
  · rw [hvalue, decide_eq_false (not_lt.mpr hsign), if_neg Bool.false_ne_true, one_mul]
    exact hmagnitude
  · rw [hvalue, decide_eq_true hsign, if_pos rfl, neg_one_mul, neg_nonpos]
    exact hmagnitude
  · rw [hcoefficient]
    exact hnear d.scale
  · have hupper := (abs_sub_le_iff.mp (hnear (d.scale + 1))).1
    have hcast : (twoTo 96 : ℚ) ≤
        roundHalfEven (numerator * tenTo (d.scale + 1)) denominator := by exact_mod_cast hexceeds
    linarith

namespace IsRounded

variable {q : ℚ} {d : Decimal} (h : IsRounded q d)

include h

/-- Where one more place does not fit, no coefficient is ten times as great. -/
theorem le_ten_mul_coefficient (hscale : d.scale ≠ 28) : twoTo 96 ≤ 10 * d.coefficient := by
  have hfull := h.full.resolve_left hscale
  have hnear := (abs_sub_le_iff.mp h.near).2
  rw [tenTo_succ, Nat.cast_mul, ← mul_assoc, twoTo_96_cast] at hfull
  by_contra hlt
  have hcoefficient : d.coefficient ≤ 7922816251426433759354395033 := by
    have hbound : twoTo 96 = 79228162514264337593543950336 := rfl
    omega
  have hcast : (d.coefficient : ℚ) ≤ 7922816251426433759354395033 := by
    exact_mod_cast hcoefficient
  push_cast at hfull
  linarith

/-- Rounding does not pass a decimal that is greater in magnitude. -/
theorem abs_value_le (e : Decimal) (hle : |q| ≤ |e.value|) : |d.value| ≤ |e.value| := by
  have hnear := (abs_sub_le_iff.mp h.near).1
  have hown := d.abs_value_mul_tenTo_scale
  rcases le_or_gt e.scale d.scale with hcoarse | hfine
  · -- In the places of `d` both are whole numbers of units.
    have hother := e.abs_value_mul_tenTo hcoarse
    have hunits : |q| * tenTo d.scale ≤ |e.value| * tenTo d.scale :=
      mul_le_mul_of_nonneg_right hle (tenTo_cast_pos _).le
    have hwhole : d.coefficient ≤ e.coefficient * tenTo (d.scale - e.scale) :=
      le_of_cast_le_add_half (by linarith)
    refine le_of_mul_le_mul_right ?_ (tenTo_cast_pos d.scale)
    rw [hown, hother]
    exact_mod_cast hwhole
  · -- The other number has a place more, so the exact number would have had room for it.
    exfalso
    have hscale : d.scale ≠ 28 := by
      have hbound := e.scale_le
      omega
    have hfull := h.full.resolve_left hscale
    have hunits : |q| * tenTo (d.scale + 1) ≤ |e.value| * tenTo (d.scale + 1) :=
      mul_le_mul_of_nonneg_right hle (tenTo_cast_pos _).le
    have hother := e.abs_value_mul_tenTo_le hfine
    have hbound := e.coefficient_cast_le
    rw [twoTo_96_cast] at hfull
    linarith

/-- Rounding does not pass a decimal that is smaller in magnitude. -/
theorem le_abs_value (e : Decimal) (hle : |e.value| ≤ |q|) : |e.value| ≤ |d.value| := by
  have hnear := (abs_sub_le_iff.mp h.near).2
  have hown := d.abs_value_mul_tenTo_scale
  rcases le_or_gt e.scale d.scale with hcoarse | hfine
  · have hother := e.abs_value_mul_tenTo hcoarse
    have hunits : |e.value| * tenTo d.scale ≤ |q| * tenTo d.scale :=
      mul_le_mul_of_nonneg_right hle (tenTo_cast_pos _).le
    have hwhole : e.coefficient * tenTo (d.scale - e.scale) ≤ d.coefficient :=
      le_of_cast_le_add_half (by linarith)
    refine le_of_mul_le_mul_right ?_ (tenTo_cast_pos d.scale)
    rw [hown, hother]
    exact_mod_cast hwhole
  · have hscale : d.scale ≠ 28 := by
      have hbound := e.scale_le
      omega
    have hten := h.le_ten_mul_coefficient hscale
    have hother := e.abs_value_mul_tenTo_le hfine
    have hcoefficients : e.coefficient ≤ 10 * d.coefficient := e.coefficient_lt.le.trans hten
    refine le_of_mul_le_mul_right ?_ (tenTo_cast_pos (d.scale + 1))
    rw [d.abs_value_mul_tenTo_succ]
    exact hother.trans (by exact_mod_cast hcoefficients)

theorem abs_value_sub : |d.value - q| = |(|d.value| - |q|)| := by
  rcases le_or_gt 0 q with hsign | hsign
  · rw [abs_of_nonneg hsign, abs_of_nonneg (h.nonneg hsign)]
  · rw [abs_of_neg hsign, abs_of_nonpos (h.nonpos hsign), neg_sub_neg, abs_sub_comm]

/-- Places that fit beside the rounded number are not rounded away. -/
theorem le_scale {places : Nat} (hplaces : places ≤ 28)
    (hroom : |d.value| * tenTo places < twoTo 96) : places ≤ d.scale := by
  by_contra hless
  have hten := h.le_ten_mul_coefficient (by omega)
  refine absurd hroom (not_lt.mpr ?_)
  calc (twoTo 96 : ℚ) ≤ (10 * d.coefficient : Nat) := by exact_mod_cast hten
    _ = |d.value| * tenTo (d.scale + 1) := d.abs_value_mul_tenTo_succ.symm
    _ ≤ |d.value| * tenTo places := by
      refine mul_le_mul_of_nonneg_left ?_ (abs_nonneg _)
      exact_mod_cast tenTo_le_tenTo (Nat.lt_of_not_le hless)

/-- In places that fit beside the rounded number, it is off by at most half a
unit. -/
theorem abs_sub_le {places : Nat} (hplaces : places ≤ 28)
    (hroom : |d.value| * tenTo places < twoTo 96) : |d.value - q| ≤ 1 / (2 * tenTo places) := by
  have hunit := tenTo_cast_pos places
  have hown := d.abs_value_mul_tenTo_scale
  have hunits : |d.value - q| * tenTo d.scale ≤ 1 / 2 := by
    have hscaled := abs_mul (|d.value| - |q|) (tenTo d.scale)
    rw [abs_of_pos (tenTo_cast_pos d.scale), sub_mul, hown] at hscaled
    rw [h.abs_value_sub, ← hscaled]
    exact h.near
  have hcoarser : |d.value - q| * tenTo places ≤ |d.value - q| * tenTo d.scale := by
    refine mul_le_mul_of_nonneg_left ?_ (abs_nonneg _)
    exact_mod_cast tenTo_le_tenTo (h.le_scale hplaces hroom)
  rw [le_div_iff₀ (by positivity)]
  linarith

end IsRounded

/-! ## The correctly rounded value -/

/-- The value of an operation whose exact result is `q`, if that fits. -/
def rounded? (q : ℚ) : Option ℚ :=
  (nearest? (decide (q < 0)) q.num.natAbs q.den 28).map value

theorem abs_eq_num_div_den (q : ℚ) : |q| = q.num.natAbs / q.den := by
  rw [Nat.cast_natAbs, Int.cast_abs, ← Nat.abs_cast q.den, ← abs_div, Rat.num_div_den]

/-- Rounding any fraction for `q` gives the rounded value of `q`. -/
theorem map_value_nearest? {q : ℚ} {numerator denominator : Nat} (hpos : 0 < denominator)
    (hq : |q| = numerator / denominator) :
    (nearest? (decide (q < 0)) numerator denominator 28).map value = rounded? q := by
  have hcross : numerator * q.den = q.num.natAbs * denominator := by
    have heq := hq.symm.trans (abs_eq_num_div_den q)
    rw [div_eq_div_iff (Nat.cast_ne_zero.mpr hpos.ne') (Nat.cast_ne_zero.mpr q.den_ne_zero)] at heq
    exact_mod_cast heq
  rw [rounded?, nearest?_congr _ hpos q.den_pos hcross]

/-- A scale at which the number is exact is great enough to start at. -/
theorem map_value_nearest?_of_dvd (negative : Bool) {numerator denominator scale : Nat}
    (hpos : 0 < denominator) (hscale : scale ≤ 28) (hdvd : denominator ∣ numerator * tenTo scale) :
    (nearest? negative numerator denominator scale).map value =
      (nearest? negative numerator denominator 28).map value := by
  induction hscale using Nat.decreasingInduction with
  | self => rfl
  | of_succ scale hless ih =>
    have hnext : numerator * tenTo (scale + 1) = numerator * tenTo scale * 10 := by
      rw [tenTo_succ, Nat.mul_assoc]
    have hdvdNext : denominator ∣ numerator * tenTo (scale + 1) :=
      hnext ▸ Nat.dvd_mul_right_of_dvd hdvd 10
    rw [← ih hdvdNext]
    cases hparts : ofParts? negative
        (roundHalfEven (numerator * tenTo (scale + 1)) denominator) (scale + 1) with
    | none => rw [nearest?, hparts]
    | some next =>
      have hround : roundHalfEven (numerator * tenTo (scale + 1)) denominator =
          roundHalfEven (numerator * tenTo scale) denominator * 10 := by
        rw [hnext, roundHalfEven_mul_ten hpos hdvd]
      obtain ⟨-, hcoefficient, -⟩ := eq_of_ofParts?_eq_some hparts
      have hfits : roundHalfEven (numerator * tenTo scale) denominator < twoTo 96 := by
        have hbound := next.coefficient_lt
        rw [hcoefficient, hround] at hbound
        omega
      have hscale : scale ≤ 28 := Nat.le_of_lt hless
      obtain ⟨here, hhere⟩ : ∃ here, ofParts? negative
          (roundHalfEven (numerator * tenTo scale) denominator) scale = some here :=
        ⟨_, dif_pos ⟨hfits, hscale⟩⟩
      rw [nearest?_of_fits hfits hscale, nearest?, hparts, hhere, Option.map_some, Option.map_some,
        value_of_ofParts? hparts, value_of_ofParts? hhere, hround, tenTo_succ, Nat.cast_mul,
        Nat.cast_mul, mul_div_mul_right _ _ (by norm_num)]

theorem exists_isRounded {q v : ℚ} (h : rounded? q = some v) :
    ∃ d : Decimal, d.value = v ∧ IsRounded q d := by
  obtain ⟨d, hd, hvalue⟩ := Option.map_eq_some_iff.mp h
  exact ⟨d, hvalue, isRounded_of_nearest? q.den_pos (abs_eq_num_div_den q) hd⟩

/-- Rounding does not pass a decimal above. -/
theorem le_of_rounded? {q v : ℚ} (h : rounded? q = some v) {e : Decimal} (hle : q ≤ e.value) :
    v ≤ e.value := by
  obtain ⟨d, rfl, hrounded⟩ := exists_isRounded h
  rcases le_or_gt 0 q with hsign | hsign
  · have habs := hrounded.abs_value_le e (abs_le_abs_of_nonneg hsign hle)
    rwa [abs_of_nonneg (hrounded.nonneg hsign), abs_of_nonneg (hsign.trans hle)] at habs
  · have hnonpos := hrounded.nonpos hsign
    rcases le_or_gt 0 e.value with hother | hother
    · exact hnonpos.trans hother
    · have habs := hrounded.le_abs_value e (abs_le_abs_of_nonpos hother.le hle)
      rwa [abs_of_neg hother, abs_of_nonpos hnonpos, neg_le_neg_iff] at habs

/-- Rounding does not pass a decimal below. -/
theorem ge_of_rounded? {q v : ℚ} (h : rounded? q = some v) {e : Decimal} (hle : e.value ≤ q) :
    e.value ≤ v := by
  obtain ⟨d, rfl, hrounded⟩ := exists_isRounded h
  rcases le_or_gt 0 q with hsign | hsign
  · have hnonneg := hrounded.nonneg hsign
    rcases le_or_gt e.value 0 with hother | hother
    · exact hother.trans hnonneg
    · have habs := hrounded.le_abs_value e (abs_le_abs_of_nonneg hother.le hle)
      rwa [abs_of_pos hother, abs_of_nonneg hnonneg] at habs
  · have habs := hrounded.abs_value_le e (abs_le_abs_of_nonpos hsign.le hle)
    rwa [abs_of_nonpos (hrounded.nonpos hsign), abs_of_nonpos (hle.trans hsign.le),
      neg_le_neg_iff] at habs

theorem abs_le_of_rounded? {q v : ℚ} (h : rounded? q = some v) {e : Decimal}
    (hle : |q| ≤ |e.value|) : |v| ≤ |e.value| := by
  obtain ⟨d, rfl, hrounded⟩ := exists_isRounded h
  exact hrounded.abs_value_le e hle

/-- In places that fit beside the rounded value, it is off by at most half a
unit. -/
theorem abs_sub_le_of_rounded? {q v : ℚ} (h : rounded? q = some v) {places : Nat}
    (hplaces : places ≤ 28) (hroom : |v| * tenTo places < twoTo 96) :
    |v - q| ≤ 1 / (2 * tenTo places) := by
  obtain ⟨d, rfl, hrounded⟩ := exists_isRounded h
  exact hrounded.abs_sub_le hplaces hroom

/-- What is no greater than a decimal in magnitude fits. -/
theorem exists_rounded? {q : ℚ} {e : Decimal} (hle : |q| ≤ |e.value|) :
    ∃ v, rounded? q = some v := by
  rw [← Option.isSome_iff_exists, ← Option.ne_none_iff_isSome]
  intro hnone
  have hexceeds : twoTo 96 ≤ roundHalfEven q.num.natAbs q.den :=
    le_of_nearest?_eq_none (Option.map_eq_none_iff.mp hnone)
  have hcast : (twoTo 96 : ℚ) ≤ roundHalfEven q.num.natAbs q.den := by exact_mod_cast hexceeds
  have hnear := (abs_sub_le_iff.mp (abs_roundHalfEven_sub_le q.num.natAbs q.den_pos)).1
  rw [← abs_eq_num_div_den] at hnear
  have hunits := e.abs_value_mul_tenTo_le (Nat.zero_le _)
  rw [tenTo_zero, Nat.cast_one, mul_one] at hunits
  have hbound := e.coefficient_cast_le
  rw [twoTo_96_cast] at hcast
  linarith

/-- What a decimal can hold is not rounded. -/
theorem rounded?_value (d : Decimal) : rounded? d.value = some d.value := by
  obtain ⟨v, hv⟩ := exists_rounded? (le_refl |d.value|)
  rw [hv, le_antisymm (le_of_rounded? hv le_rfl) (ge_of_rounded? hv le_rfl)]

/-- Nothing beyond the greatest coefficient fits. -/
theorem rounded?_eq_none {q : ℚ} (h : (twoTo 96 : ℚ) ≤ |q|) : rounded? q = none := by
  rw [Option.eq_none_iff_forall_ne_some]
  intro v hv
  obtain ⟨d, rfl, hrounded⟩ := exists_isRounded hv
  have hnear := (abs_sub_le_iff.mp hrounded.near).2
  have hunits : (twoTo 96 : ℚ) * 1 ≤ |q| * tenTo d.scale := by
    refine mul_le_mul h ?_ (by norm_num) (abs_nonneg q)
    exact_mod_cast tenTo_pos d.scale
  have hbound := d.coefficient_cast_le
  rw [twoTo_96_cast] at hunits
  linarith

end Decimal

end FormulaEngine
