import Arcade.Proofs.DecimalTexts

/-! Decimals are read as the nearest pattern. From half a unit beyond the largest finite pattern on, they are read
as infinite. -/

namespace Arcade.Proofs
open Arcade.Decimal

variable {num den mantissa shift length bits : Nat} {exponent : Int} {x y : ℚ}

/-! ### Fractions -/

/-- A number is below the next power of two after its magnitude. -/
theorem lt_pow_magnitude (num : Nat) (proper : 0 < den) : (num / den : ℚ) < 2 ^ (magnitude num den + 1) := by
  have above : (0 : ℚ) < den := Nat.cast_pos.2 proper
  unfold magnitude
  simp only
  split
  next less =>
    have value := scaled_value num den (-(Int.ofNat num.log2 - Int.ofNat den.log2))
    have part := scaled_pos num proper (-(Int.ofNat num.log2 - Int.ofNat den.log2))
    have below : (num / den : ℚ) * 2 ^ (-(Int.ofNat num.log2 - Int.ofNat den.log2)) < 1 := by
      rw [← value, div_lt_one (Nat.cast_pos.2 part)]
      exact_mod_cast less
    rwa [zpow_neg, ← div_eq_mul_inv, div_lt_one (by positivity), ← sub_add_cancel (_ - _ : Int) 1] at below
  next =>
    have high : (num : ℚ) < (2 ^ (num.log2 + 1) : Nat) := Nat.cast_lt.2 Nat.lt_log2_self
    have low : ((2 ^ den.log2 : Nat) : ℚ) ≤ den := Nat.cast_le.2 (Nat.log2_self_le proper.ne')
    push_cast at high low
    rw [div_lt_iff₀ above]
    calc (num : ℚ) < 2 ^ (num.log2 + 1) := high
      _ = 2 ^ ((Int.ofNat num.log2 - Int.ofNat den.log2) + 1) * 2 ^ den.log2 := by
          rw [← zpow_natCast, ← zpow_natCast, ← zpow_add₀ two_ne_zero]
          congr 1
          simp only [Int.ofNat_eq_natCast]
          omega
      _ ≤ 2 ^ ((Int.ofNat num.log2 - Int.ofNat den.log2) + 1) * den := by gcongr

/-- The whole number is nearest to the other one. Of two such numbers it is the even one. -/
def Rounded (whole : Nat) (y : ℚ) : Prop :=
  if whole % 2 = 0 then 2 * (whole : ℚ) - 1 ≤ 2 * y ∧ 2 * y ≤ 2 * whole + 1
  else 2 * (whole : ℚ) - 1 < 2 * y ∧ 2 * y < 2 * whole + 1

theorem Rounded.between (rounded : Rounded mantissa y) :
    2 * (mantissa : ℚ) - 1 ≤ 2 * y ∧ 2 * y ≤ 2 * mantissa + 1 := by
  unfold Rounded at rounded
  split at rounded
  · exact rounded
  · exact ⟨rounded.1.le, rounded.2.le⟩

theorem rounded_roundHalfEven (num : Nat) (proper : 0 < den) : Rounded (roundHalfEven num den) (num / den) := by
  have above : (0 : ℚ) < den := Nat.cast_pos.2 proper
  have parts : (num : ℚ) = den * (num / den : Nat) + (num % den : Nat) := by exact_mod_cast (Nat.div_add_mod num den).symm
  have small : ((num % den : Nat) : ℚ) < den := Nat.cast_lt.2 (Nat.mod_lt num proper)
  have least : (0 : ℚ) ≤ (num % den : Nat) := Nat.cast_nonneg _
  have twice : 2 * (num / den : ℚ) = 2 * num / den := by ring
  unfold Rounded
  rw [twice, le_div_iff₀ above, div_le_iff₀ above, lt_div_iff₀ above, div_lt_iff₀ above, parts]
  unfold roundHalfEven
  simp only
  split
  next below =>
    have below : 2 * ((num % den : Nat) : ℚ) < den := by exact_mod_cast below
    split <;> constructor <;> linarith
  next notBelow =>
    have notBelow : (den : ℚ) ≤ 2 * (num % den : Nat) := by exact_mod_cast Nat.le_of_not_lt notBelow
    split
    next beyond =>
      have beyond : (den : ℚ) < 2 * (num % den : Nat) := by exact_mod_cast beyond
      push_cast
      split <;> constructor <;> linarith
    next notBeyond =>
      have half : 2 * ((num % den : Nat) : ℚ) = den :=
        le_antisymm (by exact_mod_cast Nat.le_of_not_lt notBeyond) notBelow
      split
      next even =>
        constructor <;> linarith
      next odd =>
        rw [if_pos (by omega)]
        push_cast
        constructor <;> linarith

/-! ### Patterns -/

/-- A number of units below the greatest one is the mantissa of its pattern. -/
theorem units_shifted (shift : Nat) (small : mantissa < 2 ^ 53) (normal : shift = 0 ∨ 2 ^ 52 ≤ mantissa) :
    units (shift * 2 ^ 52 + mantissa) = mantissa ∧ doublings (shift * 2 ^ 52 + mantissa) = shift ∧
      isLeast (shift * 2 ^ 52 + mantissa) = (0 < shift && mantissa = 2 ^ 52) := by
  unfold units doublings isLeast
  obtain low | high := Nat.lt_or_ge mantissa (2 ^ 52)
  · obtain rfl := normal.resolve_right (Nat.not_le.2 low)
    have field : (0 * 2 ^ 52 + mantissa) / 2 ^ 52 = 0 := by omega
    have rest : (0 * 2 ^ 52 + mantissa) % 2 ^ 52 = mantissa := by omega
    rw [field, rest]
    simp
  · have field : (shift * 2 ^ 52 + mantissa) / 2 ^ 52 = shift + 1 := by omega
    have rest : (shift * 2 ^ 52 + mantissa) % 2 ^ 52 = mantissa - 2 ^ 52 := by omega
    have first : mantissa - 2 ^ 52 = 0 ↔ mantissa = 2 ^ 52 := by omega
    have second : 1 < shift + 1 ↔ 0 < shift := by omega
    rw [field, rest, if_neg (Nat.succ_ne_zero _), Nat.add_sub_cancel]
    simp only [first, second, Bool.and_comm, and_true, Nat.add_sub_cancel' high]

/-- Rounding up to a power of two gives the least pattern with the next unit. -/
theorem ends_carried (shift : Nat) : lowerEnd (shift * 2 ^ 52 + 2 ^ 53) = (2 ^ 55 - 2) * 2 ^ shift ∧
    upperEnd (shift * 2 ^ 52 + 2 ^ 53) = (2 ^ 55 + 4) * 2 ^ shift := by
  have same : shift * 2 ^ 52 + 2 ^ 53 = (shift + 1) * 2 ^ 52 + 2 ^ 52 := by ring
  obtain ⟨whole, times, least⟩ := units_shifted (shift + 1) (show 2 ^ 52 < 2 ^ 53 by decide) (.inr le_rfl)
  unfold lowerEnd upperEnd
  rw [same, whole, times, least]
  constructor
  · simp
    ring
  · push_cast
    ring

theorem nearestTo_of_ends {lower upper : Int} (low : lowerEnd bits = lower * 2 ^ shift)
    (high : upperEnd bits = upper * 2 ^ shift)
    (inside : if bits % 2 = 0 then (lower : ℚ) ≤ 4 * y ∧ 4 * y ≤ upper else (lower : ℚ) < 4 * y ∧ 4 * y < upper) :
    NearestTo bits (y * 2 ^ (double.lowest + shift)) := by
  have unit : (0 : ℚ) < 2 ^ shift * 2 ^ double.lowest := by positivity
  have scale : 4 * (y * 2 ^ (double.lowest + shift)) = 4 * y * (2 ^ shift * 2 ^ double.lowest) := by
    rw [zpow_add₀ two_ne_zero, zpow_natCast]
    ring
  unfold NearestTo
  rw [low, high, scale]
  push_cast
  rwa [mul_assoc (lower : ℚ), mul_assoc (upper : ℚ), mul_le_mul_iff_left₀ unit, mul_le_mul_iff_left₀ unit, mul_lt_mul_iff_left₀ unit,
    mul_lt_mul_iff_left₀ unit]

/-- A number of units, rounded to a whole one, makes the pattern that is nearest. -/
theorem nearestTo_shifted (top : mantissa ≤ 2 ^ 53) (normal : shift = 0 ∨ 2 ^ 52 ≤ y) (rounded : Rounded mantissa y) :
    NearestTo (shift * 2 ^ 52 + mantissa) (y * 2 ^ (double.lowest + shift)) := by
  have between := rounded.between
  obtain small | rfl := top.lt_or_eq
  · have whole : shift = 0 ∨ 2 ^ 52 ≤ mantissa := normal.imp_right fun high => by
      have above : (2 ^ 53 : ℚ) < (2 * mantissa + 2 : Nat) := by
        push_cast
        linarith
      have above : 2 ^ 53 < 2 * mantissa + 2 := by exact_mod_cast above
      omega
    obtain ⟨same, times, least⟩ := units_shifted shift small whole
    have high : upperEnd (shift * 2 ^ 52 + mantissa) = (4 * mantissa + 2 : Nat) * 2 ^ shift := by
      rw [upperEnd, same, times]
      push_cast
      rfl
    by_cases edge : 0 < shift ∧ mantissa = 2 ^ 52
    · obtain ⟨positive, rfl⟩ := edge
      have low : lowerEnd (shift * 2 ^ 52 + 2 ^ 52) = (2 ^ 54 - 1 : Int) * 2 ^ shift := by
        rw [lowerEnd, same, times, least]
        simp [positive]
      have enough := normal.resolve_left positive.ne'
      refine nearestTo_of_ends low high ?_
      rw [if_pos (by omega)]
      push_cast at between ⊢
      constructor <;> linarith
    · have low : lowerEnd (shift * 2 ^ 52 + mantissa) = (4 * mantissa - 2 : Int) * 2 ^ shift := by
        have regular : (decide (0 < shift) && decide (mantissa = 2 ^ 52)) = false := by
          rw [← Bool.decide_and]
          exact decide_eq_false edge
        rw [lowerEnd, same, times, least, regular]
        rfl
      have parity : (shift * 2 ^ 52 + mantissa) % 2 = mantissa % 2 := by omega
      refine nearestTo_of_ends low high ?_
      rw [parity]
      unfold Rounded at rounded
      push_cast
      split at rounded <;> rename_i even
      · rw [if_pos even]
        constructor <;> linarith
      · rw [if_neg even]
        constructor <;> linarith
  · obtain ⟨low, high⟩ := ends_carried shift
    refine nearestTo_of_ends low high ?_
    rw [if_pos (by omega)]
    push_cast at between ⊢
    constructor <;> linarith

/-! ### The nearest pattern -/

/-- What a fraction is rounded to, in units of a pattern that is large enough. -/
theorem exists_shifted (positive : 0 < num) (proper : 0 < den) : ∃ (shift mantissa : Nat) (y : ℚ),
    double.nearest num den = min (shift * 2 ^ 52 + mantissa) double.infinity ∧ mantissa ≤ 2 ^ 53 ∧
      (shift = 0 ∨ 2 ^ 52 ≤ y) ∧ Rounded mantissa y ∧ (num / den : ℚ) = y * 2 ^ (double.lowest + shift) := by
  have least : double.lowest = -1074 := rfl
  let exponent := max (magnitude num den - 52) double.lowest
  let part := scaled num den (-exponent)
  have proper' : 0 < part.2 := scaled_pos num proper _
  have value : (part.1 / part.2 : ℚ) = num / den * 2 ^ (-exponent) := scaled_value ..
  have place : double.lowest + (exponent - double.lowest).toNat = exponent := by omega
  have rounded : Rounded (roundHalfEven part.1 part.2) (part.1 / part.2) := rounded_roundHalfEven _ proper'
  refine ⟨(exponent - double.lowest).toNat, roundHalfEven part.1 part.2, part.1 / part.2, ?_, ?_, ?_, rounded, ?_⟩
  · rw [Format.nearest, if_neg positive.ne']
    rfl
  · have below : (part.1 / part.2 : ℚ) < 2 ^ 53 := by
      calc (part.1 / part.2 : ℚ) = num / den * 2 ^ (-exponent) := value
        _ < 2 ^ (magnitude num den + 1) * 2 ^ (-exponent) := by
            gcongr
            exact lt_pow_magnitude num proper
        _ = 2 ^ (magnitude num den + 1 - exponent) := by rw [← zpow_add₀ two_ne_zero, sub_eq_add_neg]
        _ ≤ 2 ^ (53 : Int) := by
            gcongr
            · norm_num
            · omega
    have between := rounded.between
    have whole : ((roundHalfEven part.1 part.2 * 2 : Nat) : ℚ) < (2 ^ 54 + 1 : Nat) := by
      push_cast
      linarith
    have whole : roundHalfEven part.1 part.2 * 2 < 2 ^ 54 + 1 := by exact_mod_cast whole
    omega
  · by_cases low : magnitude num den - 52 ≤ double.lowest
    · left
      omega
    · right
      have high : exponent = magnitude num den - 52 := by omega
      calc (2 : ℚ) ^ 52 = 2 ^ magnitude num den * 2 ^ (-exponent) := by
            rw [← zpow_add₀ two_ne_zero, high, neg_sub, add_sub_cancel]
            norm_num
        _ ≤ num / den * 2 ^ (-exponent) := by
            gcongr
            exact pow_magnitude_le positive proper
        _ = part.1 / part.2 := value.symm
  · rw [value, place, mul_assoc, ← zpow_add₀ two_ne_zero, neg_add_cancel, zpow_zero, mul_one]

/-- Half a unit beyond the largest finite pattern. -/
def overflow : ℚ := (2 ^ 54 - 1) * 2 ^ 970

theorem lowerEnd_infinity : lowerEnd double.infinity * 2 ^ double.lowest = 4 * overflow := by
  obtain ⟨whole, times, least⟩ := units_shifted 2046 (show 2 ^ 52 < 2 ^ 53 by decide) (.inr le_rfl)
  have same : double.infinity = 2046 * 2 ^ 52 + 2 ^ 52 := rfl
  have lowest : double.lowest = -1074 := rfl
  have units : (2 : ℚ) ^ 2046 * 2 ^ (-1074 : Int) = 4 * 2 ^ 970 := by
    have sum : ((2046 : Nat) : Int) + -1074 = (2 + 970 : Nat) := rfl
    rw [← zpow_natCast, ← zpow_add₀ two_ne_zero, sum, zpow_natCast, pow_add]
    generalize (2 : ℚ) ^ 970 = unit
    norm_num
  have least : isLeast (2046 * 2 ^ 52 + 2 ^ 52) = true := least.trans rfl
  rw [same, lowerEnd, whole, times, if_pos least, lowest, overflow, Int.cast_mul, Int.cast_pow, Int.cast_ofNat,
    mul_assoc, units]
  generalize (2 : ℚ) ^ 970 = unit
  push_cast
  ring

/-- The bits that a number is read as: of the nearest finite pattern, or of infinity if the number is so large. -/
def Rounds (bits : Nat) (x : ℚ) : Prop :=
  if x < overflow then bits < double.infinity ∧ NearestTo bits x else bits = double.infinity

theorem NearestTo.lt_infinity (nearest : NearestTo bits x) : bits < double.infinity ↔ x < overflow := by
  have unit : (0 : ℚ) < 2 ^ double.lowest := by positivity
  have infinite := lowerEnd_infinity
  constructor
  · intro finite
    obtain further | last := (Nat.succ_le_of_lt finite).lt_or_eq
    · have above : (upperEnd bits : ℚ) < lowerEnd double.infinity := by
        rw [← lowerEnd_succ]
        exact_mod_cast lowerEnd_strictMono further
      have between := nearest.between.2
      have scaled := mul_lt_mul_of_pos_right above unit
      linarith
    · have even : double.infinity % 2 = 0 := rfl
      have odd : ¬bits % 2 = 0 := by omega
      unfold NearestTo at nearest
      rw [if_neg odd, ← lowerEnd_succ, ← Nat.succ_eq_add_one, last, infinite] at nearest
      linarith [nearest.2]
  · intro small
    by_contra large
    have above : (lowerEnd double.infinity : ℚ) ≤ lowerEnd bits := by
      exact_mod_cast lowerEnd_strictMono.monotone (Nat.not_lt.1 large)
    have between := nearest.between.1
    have scaled := mul_le_mul_of_nonneg_right above unit.le
    linarith

theorem rounds_of_nearestTo (nearest : NearestTo bits x) : Rounds (min bits double.infinity) x := by
  have small := nearest.lt_infinity
  unfold Rounds
  split
  next below =>
    rw [min_eq_left (small.2 below).le]
    exact ⟨small.2 below, nearest⟩
  next large => exact min_eq_right (Nat.not_lt.1 (mt small.1 large))

theorem rounds_nearest (positive : 0 < num) (proper : 0 < den) : Rounds (double.nearest num den) (num / den) := by
  obtain ⟨shift, mantissa, y, nearest, top, normal, rounded, value⟩ := exists_shifted positive proper
  rw [nearest, value]
  exact rounds_of_nearestTo (nearestTo_shifted top normal rounded)

/-! ### Decimals -/

theorem rounds_zero : Rounds 0 0 := rounds_of_nearestTo nearestTo_zero

/-- Beyond the limit of exponents every number is infinite. -/
theorem overflow_le (large : exponentLimit < exponent) : overflow ≤ 10 ^ exponent := by
  have powers : ((2 ^ 1024 : Nat) : ℚ) ≤ (10 ^ 401 : Nat) := Nat.cast_le.2 (by decide +kernel)
  have limit : (exponentLimit : Int) = 400 := rfl
  calc overflow ≤ 2 ^ 54 * 2 ^ 970 := by
        unfold overflow
        gcongr
        norm_num
    _ = ((2 ^ 1024 : Nat) : ℚ) := by rw [← pow_add, Nat.cast_pow, Nat.cast_ofNat]
    _ ≤ (10 ^ 401 : Nat) := powers
    _ = 10 ^ (401 : Int) := by rw [zpow_ofNat, Nat.cast_pow, Nat.cast_ofNat]
    _ ≤ 10 ^ exponent := zpow_le_zpow_right₀ (by norm_num) (by omega)

/-- Far below the least positive pattern every number is zero. -/
theorem nearestTo_tiny (least : 0 ≤ x) (tiny : x ≤ 10 ^ exponent) (small : exponent < -exponentLimit) :
    NearestTo 0 x := by
  have powers : ((2 ^ 1075 : Nat) : ℚ) ≤ (10 ^ 401 : Nat) := Nat.cast_le.2 (by decide +kernel)
  have limit : (exponentLimit : Int) = 400 := rfl
  have below : x ≤ 2 ^ (-1075 : Int) := by
    calc x ≤ 10 ^ exponent := tiny
      _ ≤ 10 ^ (-401 : Int) := zpow_le_zpow_right₀ (by norm_num) (by omega)
      _ = ((10 ^ 401 : Nat) : ℚ)⁻¹ := by rw [zpow_neg, zpow_ofNat, Nat.cast_pow, Nat.cast_ofNat]
      _ ≤ ((2 ^ 1075 : Nat) : ℚ)⁻¹ := by gcongr
      _ = 2 ^ (-1075 : Int) := by rw [zpow_neg, zpow_ofNat, Nat.cast_pow, Nat.cast_ofNat]
  have half : (2 : ℚ) ^ double.lowest = 2 * 2 ^ (-1075 : Int) := by
    have sum : double.lowest = 1 + -1075 := rfl
    rw [sum, zpow_add₀ two_ne_zero, zpow_one]
  have unit : (0 : ℚ) < 2 ^ (-1075 : Int) := by positivity
  have lower : lowerEnd 0 = -2 := rfl
  have upper : upperEnd 0 = 2 := rfl
  rw [NearestTo, if_pos rfl, lower, upper, half]
  generalize (2 : ℚ) ^ (-1075 : Int) = unit at *
  push_cast
  constructor <;> linarith

/-- A decimal is read as its value rounds. -/
theorem rounds_nearestDouble (short : mantissa < 10 ^ length) (exponent : Int) :
    Rounds (nearestDouble mantissa length exponent) (mantissa * 10 ^ exponent) := by
  unfold nearestDouble
  split
  next none =>
    rw [none, Nat.cast_zero, zero_mul]
    exact rounds_zero
  next some =>
    have positive : 0 < mantissa := Nat.pos_of_ne_zero some
    have one : (1 : ℚ) ≤ mantissa := by exact_mod_cast positive
    have unit : (0 : ℚ) < 10 ^ exponent := by positivity
    split
    next large =>
      have above : ¬(mantissa * 10 ^ exponent : ℚ) < overflow :=
        not_lt.2 ((overflow_le large).trans (le_mul_of_one_le_left unit.le one))
      rw [Rounds, if_neg above]
    next =>
      split
      next small =>
        have high : (mantissa : ℚ) ≤ (10 ^ length : Nat) := Nat.cast_le.2 short.le
        suffices tiny : (mantissa : ℚ) * 10 ^ exponent ≤ 10 ^ (exponent + length) from
          rounds_of_nearestTo (nearestTo_tiny (by positivity) tiny small)
        rw [add_comm, zpow_add₀ (by norm_num), zpow_natCast]
        push_cast at high
        gcongr
      next =>
        cases exponent with
        | ofNat up =>
          have value := rounds_nearest (Nat.mul_pos positive (Nat.pow_pos (n := up) (by decide : 0 < 10))) Nat.one_pos
          simpa using value
        | negSucc down =>
          have value := rounds_nearest positive (Nat.pow_pos (n := down + 1) (by decide : 0 < 10))
          simpa [zpow_negSucc, div_eq_mul_inv] using value

end Arcade.Proofs
