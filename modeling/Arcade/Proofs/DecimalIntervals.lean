import Mathlib.Tactic
import Arcade.Decimal.Shortest

/-! Every finite pattern of the 64 bit format has an interval of numbers, up to half way to its neighbors. The
intervals of different patterns are disjoint, and the shortest decimal of a pattern lies in the pattern's own. -/

namespace Arcade.Proofs
open Arcade.Decimal

/-! ### Fractions -/

variable {num den count fuel bits other : Nat} {shift place : Int} {bounds : Interval} {tie : Tie} {x : ℚ}

theorem scaled_pos (num : Nat) (positive : 0 < den) (shift : Int) : 0 < (scaled num den shift).2 := by
  cases shift with
  | ofNat up => exact positive
  | negSucc down => exact Nat.mul_pos positive (Nat.pow_pos (by decide))

theorem scaled_value (num den : Nat) (shift : Int) :
    ((scaled num den shift).1 : ℚ) / (scaled num den shift).2 = num / den * 2 ^ shift := by
  cases shift with
  | ofNat up => simp [scaled, mul_div_right_comm]
  | negSucc down =>
    simp only [scaled, zpow_negSucc, Nat.cast_mul, Nat.pow_eq, Nat.cast_pow, Nat.cast_ofNat]
    rw [div_mul_eq_div_div, div_eq_mul_inv (num / den : ℚ)]

theorem atPlace_pos (count : Nat) (place : Int) : 0 < (atPlace count place).2 := by
  cases place with
  | ofNat up => exact Nat.one_pos
  | negSucc down => exact Nat.pow_pos (by decide)

theorem atPlace_value (count : Nat) (place : Int) :
    ((atPlace count place).1 : ℚ) / (atPlace count place).2 = count * 10 ^ place := by
  cases place with
  | ofNat up => simp [atPlace]
  | negSucc down => simp [atPlace, zpow_negSucc, div_eq_mul_inv]

theorem atPlace_eq (count : Nat) (place : Int) :
    atPlace count place = (count * (atPlace 1 place).1, (atPlace 1 place).2) := by
  cases place <;> simp [atPlace]

/-- The magnitude of a number is not above the number. -/
theorem pow_magnitude_le (positive : 0 < num) (proper : 0 < den) : (2 : ℚ) ^ magnitude num den ≤ num / den := by
  have above : (0 : ℚ) < den := Nat.cast_pos.2 proper
  unfold magnitude
  simp only
  split
  · have low : ((2 ^ num.log2 : Nat) : ℚ) ≤ num := Nat.cast_le.2 (Nat.log2_self_le positive.ne')
    have high : (den : ℚ) ≤ (2 ^ (den.log2 + 1) : Nat) := Nat.cast_le.2 Nat.lt_log2_self.le
    push_cast at low high
    rw [le_div_iff₀ above]
    calc (2 : ℚ) ^ ((Int.ofNat num.log2 - Int.ofNat den.log2) - 1) * den
        ≤ 2 ^ ((Int.ofNat num.log2 - Int.ofNat den.log2) - 1) * 2 ^ (den.log2 + 1) := by gcongr
      _ = 2 ^ num.log2 := by
          rw [← zpow_natCast, ← zpow_natCast, ← zpow_add₀ two_ne_zero]
          congr 1
          simp only [Int.ofNat_eq_natCast]
          omega
      _ ≤ num := low
  · rename_i notBelow
    have value := scaled_value num den (-(Int.ofNat num.log2 - Int.ofNat den.log2))
    have part := scaled_pos num proper (-(Int.ofNat num.log2 - Int.ofNat den.log2))
    have atLeast : (1 : ℚ) ≤ num / den * 2 ^ (-(Int.ofNat num.log2 - Int.ofNat den.log2)) := by
      rw [← value, one_le_div (Nat.cast_pos.2 part)]
      exact_mod_cast Nat.le_of_not_lt notBelow
    rwa [zpow_neg, ← div_eq_mul_inv, one_le_div (by positivity)] at atLeast

/-! ### The shortest decimal -/

/-- A number lies within bounds, whose ends count if they are closed. -/
def Contains (bounds : Interval) (x : ℚ) : Prop :=
  if bounds.closed then bounds.low ≤ x * bounds.scale ∧ x * bounds.scale ≤ bounds.high
  else bounds.low < x * bounds.scale ∧ x * bounds.scale < bounds.high

/-- The number that a decimal stands for. -/
def decimalValue (decimal : Digits) : ℚ := decimal.digits * 10 ^ decimal.exponent

theorem contains_of_holds (proper : 0 < den) (holds : bounds.holds num den = true) :
    Contains bounds (num / den) := by
  have above : (0 : ℚ) < den := Nat.cast_pos.2 proper
  unfold Contains
  simp only [Interval.holds] at holds
  split at holds <;> rename_i closed <;> simp only [Bool.and_eq_true, decide_eq_true_eq] at holds
  · rw [if_pos closed, div_mul_eq_mul_div, le_div_iff₀ above, div_le_iff₀ above]
    exact_mod_cast holds
  · rw [if_neg closed, div_mul_eq_mul_div, lt_div_iff₀ above, div_lt_iff₀ above]
    exact_mod_cast holds

theorem contains_of_atPlace? (found : bounds.atPlace? place tie = some count) :
    Contains bounds (decimalValue ⟨count, place⟩) := by
  have inside : bounds.holds (atPlace count place).1 (atPlace count place).2 = true := by
    unfold Interval.atPlace? at found
    grind
  rw [decimalValue, ← atPlace_value]
  exact contains_of_holds (atPlace_pos count place) inside

/-- A place is fine enough if its unit reaches from the value up to less than the end. -/
theorem atPlace?_of_fine (scaled : 0 < bounds.scale) (ordered : bounds.low ≤ bounds.value)
    (fine : bounds.value * (atPlace 1 place).2 + bounds.scale * (atPlace 1 place).1 <
      bounds.high * (atPlace 1 place).2) : ∃ count, bounds.atPlace? place tie = some count := by
  have unit : 0 < (atPlace 1 place).1 := by cases place <;> simp [atPlace]
  have step : 0 < bounds.scale * (atPlace 1 place).1 := Nat.mul_pos scaled unit
  have above := Nat.lt_div_mul_add (a := bounds.value * (atPlace 1 place).2) step
  have below := Nat.div_mul_le_self (bounds.value * (atPlace 1 place).2) (bounds.scale * (atPlace 1 place).1)
  have inside : bounds.holds (atPlace (bounds.value * (atPlace 1 place).2 /
      (bounds.scale * (atPlace 1 place).1) + 1) place).1 (atPlace (bounds.value * (atPlace 1 place).2 /
      (bounds.scale * (atPlace 1 place).1) + 1) place).2 = true := by
    have less := Nat.mul_le_mul_right (atPlace 1 place).2 ordered
    rw [atPlace_eq]
    generalize bounds.value * (atPlace 1 place).2 / (bounds.scale * (atPlace 1 place).1) = whole at above below
    have point : (whole + 1) * (atPlace 1 place).1 * bounds.scale =
        whole * (bounds.scale * (atPlace 1 place).1) + bounds.scale * (atPlace 1 place).1 := by ring
    simp only [Interval.holds, point]
    split <;> simp only [Bool.and_eq_true, decide_eq_true_eq] <;> omega
  unfold Interval.atPlace?
  simp only [inside]
  split
  · exact ⟨_, rfl⟩
  · exact ⟨_, rfl⟩
  · contradiction
  · split
    · exact ⟨_, rfl⟩
    · split
      · exact ⟨_, rfl⟩
      · cases tie <;> exact ⟨_, rfl⟩

theorem contains_of_search (found : ∃ steps ≤ fuel, ∃ count, bounds.atPlace? (place - steps) tie = some count) :
    Contains bounds (decimalValue (bounds.search tie fuel place)) := by
  induction fuel generalizing place with
  | zero =>
    obtain ⟨steps, within, count, found⟩ := found
    obtain rfl := Nat.le_zero.1 within
    rw [Nat.cast_zero, sub_zero] at found
    rw [Interval.search, found, Option.getD_some]
    exact contains_of_atPlace? found
  | succ fuel ih =>
    rw [Interval.search]
    cases here : bounds.atPlace? place tie with
    | some count => exact contains_of_atPlace? here
    | none =>
      obtain ⟨steps, within, count, found⟩ := found
      cases steps with
      | zero => rw [Nat.cast_zero, sub_zero, here] at found; exact nomatch found
      | succ steps =>
        refine ih ⟨steps, Nat.le_of_succ_le_succ within, count, ?_⟩
        rwa [Nat.cast_succ, add_comm, ← sub_sub] at found

/-! ### Patterns -/

/-- The whole number of units that a pattern stands for. -/
def units (bits : Nat) : Nat := if bits / 2 ^ 52 = 0 then bits % 2 ^ 52 else 2 ^ 52 + bits % 2 ^ 52

/-- How often the least unit is doubled. -/
def doublings (bits : Nat) : Nat := bits / 2 ^ 52 - 1

/-- The next smaller pattern has a smaller unit. -/
def isLeast (bits : Nat) : Bool := bits % 2 ^ 52 = 0 && 1 < bits / 2 ^ 52

theorem read_double (finite : bits < double.infinity) : double.read bits =
    .finite false (units bits) (double.lowest + doublings bits) (isLeast bits) := by
  have bound : bits < 9218868437227405312 := finite
  have unsigned : bits % double.signBit = bits := Nat.mod_eq_of_lt (bound.trans (by decide))
  have positive : ¬double.signBit ≤ bits := Nat.not_le.2 (bound.trans (by decide))
  rw [Format.read, unsigned, if_neg finite.not_gt, if_neg finite.ne]
  simp only [positive, decide_false, units, doublings, isLeast]
  rw [show Nat.pow 2 double.fractionBits = 2 ^ 52 from rfl]
  split
  next zero => simp; omega
  next => rfl

/-- The lower end of a pattern's interval, in quarters of the least unit. -/
def lowerEnd (bits : Nat) : Int := (4 * units bits - if isLeast bits then 1 else 2) * 2 ^ doublings bits

/-- The upper end of a pattern's interval, in quarters of the least unit. -/
def upperEnd (bits : Nat) : Int := (4 * units bits + 2) * 2 ^ doublings bits

theorem lowerEnd_succ (bits : Nat) : lowerEnd (bits + 1) = upperEnd bits := by
  unfold lowerEnd upperEnd units doublings isLeast
  by_cases full : bits % 2 ^ 52 + 1 = 2 ^ 52
  · have carry : (bits + 1) % 2 ^ 52 = 0 ∧ (bits + 1) / 2 ^ 52 = bits / 2 ^ 52 + 1 := by omega
    have last : bits % 2 ^ 52 = 2 ^ 52 - 1 := by omega
    rw [carry.1, carry.2, last]
    cases bits / 2 ^ 52 with
    | zero => rfl
    | succ field =>
      simp only [Nat.add_one_ne_zero, if_false, Nat.add_sub_cancel, decide_true, Bool.true_and, Nat.lt_add_left_iff_pos,
        Nat.zero_lt_succ, if_true]
      push_cast
      ring
  · have same : (bits + 1) % 2 ^ 52 = bits % 2 ^ 52 + 1 ∧ (bits + 1) / 2 ^ 52 = bits / 2 ^ 52 := by omega
    rw [same.1, same.2]
    simp only [Nat.add_one_ne_zero, decide_false, Bool.false_and, Bool.false_eq_true, if_false]
    split <;> push_cast <;> ring

theorem lowerEnd_lt_upperEnd (bits : Nat) : lowerEnd bits < upperEnd bits := by
  unfold lowerEnd upperEnd
  gcongr
  split <;> omega

theorem lowerEnd_strictMono : StrictMono lowerEnd :=
  strictMono_nat_of_lt_succ fun bits => lowerEnd_succ bits ▸ lowerEnd_lt_upperEnd bits

theorem even_units (bits : Nat) : units bits % 2 = bits % 2 := by
  unfold units
  split <;> omega

/-- The numbers nearest to a pattern. Those half way to a neighbor belong to the even one of the two. -/
def NearestTo (bits : Nat) (x : ℚ) : Prop :=
  if bits % 2 = 0 then lowerEnd bits * 2 ^ double.lowest ≤ 4 * x ∧ 4 * x ≤ upperEnd bits * 2 ^ double.lowest
  else lowerEnd bits * 2 ^ double.lowest < 4 * x ∧ 4 * x < upperEnd bits * 2 ^ double.lowest

theorem NearestTo.between (nearest : NearestTo bits x) :
    lowerEnd bits * 2 ^ double.lowest ≤ 4 * x ∧ 4 * x ≤ upperEnd bits * 2 ^ double.lowest := by
  unfold NearestTo at nearest
  split at nearest
  · exact nearest
  · exact ⟨nearest.1.le, nearest.2.le⟩

/-- A number is not nearest to a pattern and to a larger one. -/
theorem NearestTo.not_lt (first : NearestTo bits x) (second : NearestTo other x) : ¬bits < other := by
  intro less
  have low := first.between.2
  have high := second.between.1
  have upper : lowerEnd (bits + 1) ≤ lowerEnd other := lowerEnd_strictMono.monotone less
  have lower : lowerEnd other ≤ lowerEnd (bits + 1) := by
    have both := high.trans low
    rw [← lowerEnd_succ, mul_le_mul_iff_left₀ (by positivity)] at both
    exact_mod_cast both
  obtain rfl : bits + 1 = other := lowerEnd_strictMono.injective (le_antisymm upper lower)
  unfold NearestTo at first second
  by_cases even : bits % 2 = 0
  · rw [if_neg (by omega), lowerEnd_succ] at second
    exact absurd (second.1.trans_le low) (lt_irrefl _)
  · rw [if_neg even, ← lowerEnd_succ] at first
    exact absurd (first.2.trans_le high) (lt_irrefl _)

/-- A number is nearest to one pattern at most. -/
theorem NearestTo.eq (first : NearestTo bits x) (second : NearestTo other x) : bits = other :=
  Nat.le_antisymm (Nat.not_lt.1 (second.not_lt first)) (Nat.not_lt.1 (first.not_lt second))

/-- What bounds mean that are built from a mantissa and its exponent. -/
theorem contains_interval {mantissa : Nat} {exponent : Int} {boundary : Bool}
    (contains : Contains (interval mantissa exponent boundary) x) :
    if mantissa % 2 = 0 then
      (4 * mantissa - if boundary then 1 else 2 : Nat) * 2 ^ exponent ≤ 4 * x ∧
        4 * x ≤ (4 * mantissa + 2 : Nat) * 2 ^ exponent
    else
      (4 * mantissa - if boundary then 1 else 2 : Nat) * 2 ^ exponent < 4 * x ∧
        4 * x < (4 * mantissa + 2 : Nat) * 2 ^ exponent := by
  have proper : (0 : ℚ) < (scaled 1 1 exponent).2 := Nat.cast_pos.2 (scaled_pos 1 Nat.one_pos _)
  have value := scaled_value 1 1 exponent
  rw [Nat.cast_one, div_one, one_mul] at value
  have turn : x * (4 * (scaled 1 1 exponent).2) = 4 * x * (scaled 1 1 exponent).2 := by ring
  unfold Contains interval at contains
  simp only [decide_eq_true_eq, Nat.cast_mul, Nat.cast_ofNat, turn] at contains
  simp only [← value, ← mul_div_assoc]
  rwa [div_le_iff₀ proper, le_div_iff₀ proper, div_lt_iff₀ proper, lt_div_iff₀ proper]

theorem nearestTo_of_contains
    (contains : Contains (interval (units bits) (double.lowest + doublings bits) (isLeast bits)) x) :
    NearestTo bits x := by
  have lower : lowerEnd bits * 2 ^ double.lowest ≤ ((4 * units bits - if isLeast bits then 1 else 2 : Nat) : ℚ) *
      2 ^ (double.lowest + doublings bits) := by
    have whole : (4 * units bits - (if isLeast bits then 1 else 2) : Int) ≤
        ((4 * units bits - if isLeast bits then 1 else 2 : Nat) : Int) := by split <;> omega
    have rational : ((4 * units bits - (if isLeast bits then 1 else 2) : Int) : ℚ) ≤
        ((4 * units bits - if isLeast bits then 1 else 2 : Nat) : ℚ) := by exact_mod_cast whole
    rw [lowerEnd, add_comm, zpow_add₀ two_ne_zero, zpow_natCast, ← mul_assoc, Int.cast_mul, Int.cast_pow,
      Int.cast_ofNat]
    gcongr
  have upper : upperEnd bits * 2 ^ double.lowest = ((4 * units bits + 2 : Nat) : ℚ) *
      2 ^ (double.lowest + doublings bits) := by
    rw [upperEnd, zpow_add₀ two_ne_zero, zpow_natCast]
    push_cast
    ring
  have meaning := contains_interval contains
  rw [even_units] at meaning
  unfold NearestTo
  rw [upper]
  split
  next even =>
    rw [if_pos even] at meaning
    exact ⟨lower.trans meaning.1, meaning.2⟩
  next odd =>
    rw [if_neg odd] at meaning
    exact ⟨lower.trans_lt meaning.1, meaning.2⟩

/-! ### Reaching a fine place -/

private theorem powers : ∀ count, count < 617 →
    10 ^ count * 2 ^ 1075 < 2 ^ ((100000 * count - 34735) / 30103) * 10 ^ 327 := by
  decide +kernel

/-- Twenty places below the one that the search starts at, the units are smaller than half of the mantissa's. -/
theorem fine_place {exponent : Int} (low : -1074 ≤ exponent) (high : exponent ≤ 971)
    (deep : place ≤ (exponent + 53) * 30103 / 100000 - 19) : (10 : ℚ) ^ place * 2 < 2 ^ exponent := by
  obtain ⟨count, placed⟩ : ∃ count : Nat, (count : Int) = (exponent + 53) * 30103 / 100000 - 19 + 327 :=
    ⟨((exponent + 53) * 30103 / 100000 - 19 + 327).toNat, by omega⟩
  have digits : ((10 ^ count * 2 ^ 1075 : Nat) : ℚ) <
      (2 ^ ((100000 * count - 34735) / 30103) * 10 ^ 327 : Nat) := Nat.cast_lt.2 (powers count (by omega))
  simp only [Nat.cast_mul, Nat.cast_pow, Nat.cast_ofNat] at digits
  calc (10 : ℚ) ^ place * 2 ≤ 10 ^ (count - 327 : Int) * 2 := by
        gcongr
        · norm_num
        · omega
    _ = 10 ^ count * 2 ^ 1075 / 10 ^ 327 / 2 ^ 1074 := by
        have unit : (2 : ℚ) ^ 1074 ≠ 0 := by positivity
        rw [zpow_sub₀ (by norm_num), zpow_natCast, zpow_ofNat, pow_succ 2 1074]
        generalize (2 : ℚ) ^ 1074 = least at unit ⊢
        field_simp
    _ < 2 ^ ((100000 * count - 34735) / 30103) / 2 ^ 1074 := by
        gcongr
        rwa [div_lt_iff₀ (by positivity)]
    _ = 2 ^ (((100000 * count - 34735) / 30103 : Nat) - 1074 : Int) := by
        rw [zpow_sub₀ two_ne_zero, zpow_natCast, zpow_ofNat]
    _ ≤ 2 ^ exponent := by
        gcongr
        · norm_num
        · omega

variable {mantissa : Nat} {exponent : Int} {boundary : Bool}

/-- The interval reaches half a unit beyond the value. -/
theorem atPlace?_interval (fine : (10 : ℚ) ^ place * 2 < 2 ^ exponent) :
    ∃ count, (interval mantissa exponent boundary).atPlace? place tie = some count := by
  have proper := scaled_pos 1 Nat.one_pos exponent
  have value := scaled_value 1 1 exponent
  have parts := atPlace_pos 1 place
  have unit := atPlace_value 1 place
  rw [Nat.cast_one, div_one, one_mul] at value
  rw [Nat.cast_one, one_mul] at unit
  rw [← value, ← unit, lt_div_iff₀ (Nat.cast_pos.2 proper), div_mul_eq_mul_div, div_mul_eq_mul_div,
    div_lt_iff₀ (Nat.cast_pos.2 parts)] at fine
  have fine : (atPlace 1 place).1 * 2 * (scaled 1 1 exponent).2 < (scaled 1 1 exponent).1 * (atPlace 1 place).2 := by
    exact_mod_cast fine
  refine atPlace?_of_fine ?_ ?_ ?_
  · exact Nat.mul_pos (by decide) proper
  · exact Nat.mul_le_mul_right _ (Nat.sub_le ..)
  · unfold interval
    simp only
    nlinarith

/-- The search for a number below `2 ^ 53` units starts at a place that twenty more places make fine. -/
theorem contains_shortest (small : mantissa < 2 ^ 53) (low : -1074 ≤ exponent) (high : exponent ≤ 971) :
    Contains (interval mantissa exponent boundary) (decimalValue (shortest mantissa exponent boundary tie)) := by
  have proper := scaled_pos 1 Nat.one_pos exponent
  have value := scaled_value 1 1 exponent
  rw [Nat.cast_one, div_one, one_mul] at value
  have up : 0 < (scaled 1 1 exponent).1 := by
    have positive : (0 : ℚ) < (scaled 1 1 exponent).1 / (scaled 1 1 exponent).2 := value ▸ by positivity
    exact Nat.pos_of_ne_zero fun zero => by simp [zero] at positive
  have start : magnitude (interval mantissa exponent boundary).high (interval mantissa exponent boundary).scale <
      exponent + 53 := by
    have below : (2 : ℚ) ^ magnitude ((4 * mantissa + 2) * (scaled 1 1 exponent).1) (4 * (scaled 1 1 exponent).2) ≤
        ((4 * mantissa + 2) * (scaled 1 1 exponent).1 : Nat) / (4 * (scaled 1 1 exponent).2 : Nat) :=
      pow_magnitude_le (Nat.mul_pos (by omega) up) (Nat.mul_pos (by decide) proper)
    have whole : (mantissa : ℚ) + 1 ≤ 2 ^ 53 := by exact_mod_cast small
    have high : ((4 * mantissa + 2 : ℚ) / 4) * 2 ^ exponent < 2 ^ (exponent + 53) := by
      rw [zpow_add₀ two_ne_zero, mul_comm, zpow_ofNat]
      gcongr
      linarith
    rw [← value, div_mul_div_comm] at high
    refine (zpow_lt_zpow_iff_right₀ one_lt_two).1 (below.trans_lt ?_)
    exact_mod_cast high
  refine contains_of_search ⟨20, le_rfl, atPlace?_interval (fine_place low high ?_)⟩
  unfold leadingPlace
  have further := Int.ediv_le_ediv (c := 100000) (by decide) (Int.mul_le_mul_of_nonneg_right (c := 30103) start (by decide))
  push_cast
  omega

/-! ### Finite patterns -/

theorem nearestTo_shortest (finite : bits < double.infinity) : NearestTo bits
    (decimalValue (shortest (units bits) (double.lowest + doublings bits) (isLeast bits) tie)) := by
  have bound : bits < 9218868437227405312 := finite
  have least : double.lowest = -1074 := rfl
  refine nearestTo_of_contains (contains_shortest ?_ ?_ ?_)
  · unfold units
    split <;> omega
  · omega
  · unfold doublings
    omega

theorem nearestTo_zero : NearestTo 0 0 := by
  have lower : lowerEnd 0 = -2 := rfl
  have upper : upperEnd 0 = 2 := rfl
  rw [NearestTo, if_pos rfl, lower, upper]
  norm_num
  positivity

theorem eq_zero_of_units (none : units bits = 0) : bits = 0 := by
  unfold units at none
  split at none <;> omega

end Arcade.Proofs
