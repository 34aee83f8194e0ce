import Lookahead.Number

/-!
# Decimals as magnitudes

A decimal is rounded as the fraction that it is (`ofDecimal_eq_round`): the exponents that are not
raised to would give the same answer. So it does not matter how many zeros are written at its end
(`ofDecimal_mul_pow`). Rounding gives magnitudes in their one form (`isNormal_of_roundScaled`), and
leaves a magnitude as it is (`roundScaled_units`). Hence the shortest decimal of a magnitude is read
back as that magnitude, whether a short one has been found or all digits are taken
(`ofDecimal_shortest`).
-/

set_option autoImplicit false

namespace Lookahead

namespace Magnitude

/-! ## Powers

The definitions write powers as applications of `Nat.pow`, large ones among them. The facts about
powers are kept in that form, with variables for the exponents. -/

theorem pow_pos {base : Nat} (positive : 0 < base) (exponent : Nat) : 0 < Nat.pow base exponent :=
  Nat.pow_pos positive

theorem pow_succ (base exponent : Nat) :
    Nat.pow base (exponent + 1) = Nat.pow base exponent * base :=
  Nat.pow_succ ..

theorem pow_add (base first second : Nat) :
    Nat.pow base (first + second) = Nat.pow base first * Nat.pow base second :=
  Nat.pow_add ..

theorem pow_le_pow {base smaller larger : Nat} (positive : 0 < base) (le : smaller ≤ larger) :
    Nat.pow base smaller ≤ Nat.pow base larger :=
  Nat.pow_le_pow_right positive le

theorem mul_pow (first second exponent : Nat) :
    Nat.pow (first * second) exponent = Nat.pow first exponent * Nat.pow second exponent :=
  Nat.mul_pow ..

theorem two_pow_le_ten_pow (places : Nat) : Nat.pow 2 (3 * places) ≤ Nat.pow 10 places := by
  have eight : Nat.pow 2 (3 * places) = Nat.pow 8 places := Nat.pow_mul 2 3 places
  rw [eight]
  exact Nat.pow_le_pow_left (by decide) places

/-! ## Quotients -/

theorem divideToEven_mul_right (top bottom : Nat) {factor : Nat} (positive : 0 < factor) :
    divideToEven (top * factor) (bottom * factor) = divideToEven top bottom := by
  have twice : 2 * (top % bottom * factor) = 2 * (top % bottom) * factor := by
    rw [Nat.mul_assoc]
  simp only [divideToEven, Nat.mul_div_mul_right _ _ positive, Nat.mul_mod_mul_right, twice,
    Nat.mul_lt_mul_right positive]

theorem divideToEven_one (top : Nat) : divideToEven top 1 = top := by
  simp [divideToEven, Nat.mod_one]

theorem div_le_divideToEven (top bottom : Nat) : top / bottom ≤ divideToEven top bottom := by
  simp only [divideToEven]
  split
  · exact Nat.le_refl _
  · split <;> omega

theorem divideToEven_le (top bottom : Nat) : divideToEven top bottom ≤ top / bottom + 1 := by
  simp only [divideToEven]
  split
  · omega
  · split <;> omega

theorem divideToEven_of_lt {top bottom : Nat} (small : 2 * top < bottom) :
    divideToEven top bottom = 0 := by
  have low : top / bottom = 0 := Nat.div_eq_of_lt (by omega)
  have rest : top % bottom = top := Nat.mod_eq_of_lt (by omega)
  simp only [divideToEven, low, rest, if_pos small]

/-! ## Rounding -/

/-- The rounding of a fraction whose top has been multiplied by `2 ^ 1074`. -/
def roundScaled (scaled bottom : Nat) : Option Magnitude :=
  let exponent := (scaled / bottom).log2 - 52
  carry (divideToEven scaled (bottom * Nat.pow 2 exponent)) exponent

theorem round_eq (top bottom : Nat) : round top bottom = roundScaled (top * Nat.pow 2 1074) bottom :=
  rfl

theorem roundScaled_mul_right (scaled bottom : Nat) {factor : Nat} (positive : 0 < factor) :
    roundScaled (scaled * factor) (bottom * factor) = roundScaled scaled bottom := by
  have divisor : ∀ exponent, bottom * factor * Nat.pow 2 exponent =
      bottom * Nat.pow 2 exponent * factor := fun _ => Nat.mul_right_comm ..
  simp only [roundScaled, divisor, Nat.mul_div_mul_right _ _ positive,
    divideToEven_mul_right _ _ positive]

theorem round_mul_right (top bottom : Nat) {factor : Nat} (positive : 0 < factor) :
    round (top * factor) (bottom * factor) = round top bottom := by
  rw [round_eq, round_eq, Nat.mul_right_comm, roundScaled_mul_right _ _ positive]

theorem roundScaled_eq_zero {scaled bottom : Nat} (small : 2 * scaled < bottom) :
    roundScaled scaled bottom = some ⟨0, 0⟩ := by
  have low : scaled / bottom = 0 := Nat.div_eq_of_lt (by omega)
  have unscaled : bottom * Nat.pow 2 0 = bottom := Nat.mul_one bottom
  simp only [roundScaled, low, Nat.log2_zero, Nat.zero_sub, unscaled, divideToEven_of_lt small]
  decide

theorem roundScaled_eq_none {scaled bottom : Nat} (large : 2098 ≤ (scaled / bottom).log2) :
    roundScaled scaled bottom = none := by
  unfold roundScaled carry
  dsimp only
  split <;> exact if_neg (by dsimp only; omega)

theorem log2_units {magnitude : Magnitude} (normal : magnitude.IsNormal) :
    magnitude.units.log2 - 52 = magnitude.exponent := by
  obtain ⟨mantissa, exponent⟩ := magnitude
  obtain ⟨below, _, above | none⟩ := normal
  · have positive := pow_pos Nat.zero_lt_two exponent
    have lower : Nat.pow 2 (52 + exponent) ≤ mantissa * Nat.pow 2 exponent := by
      rw [pow_add]
      exact Nat.mul_le_mul_right _ above
    have upper : mantissa * Nat.pow 2 exponent < Nat.pow 2 (52 + exponent + 1) := by
      rw [Nat.add_right_comm, pow_add]
      exact Nat.mul_lt_mul_of_pos_right below positive
    have inhabited : mantissa * Nat.pow 2 exponent ≠ 0 := by
      have power := pow_pos Nat.zero_lt_two (52 + exponent)
      omega
    have log := (Nat.log2_eq_iff inhabited).mpr ⟨lower, upper⟩
    simp only [units, log]
    omega
  · obtain rfl : exponent = 0 := none
    have unscaled : units ⟨mantissa, 0⟩ = mantissa := Nat.mul_one mantissa
    rw [unscaled]
    by_cases zero : mantissa = 0
    · subst zero
      rfl
    · have log := (Nat.log2_lt zero).mpr below
      simp only
      omega

theorem roundScaled_units {magnitude : Magnitude} (normal : magnitude.IsNormal) {scale : Nat}
    (positive : 0 < scale) : roundScaled (magnitude.units * scale) scale = some magnitude := by
  have exponent := log2_units normal
  obtain ⟨mantissa, place⟩ := magnitude
  obtain ⟨below, bound, _⟩ := normal
  have whole : divideToEven (units ⟨mantissa, place⟩ * scale) (scale * Nat.pow 2 place) =
      mantissa := by
    have divisor : scale * Nat.pow 2 place = 1 * (Nat.pow 2 place * scale) := by
      rw [Nat.one_mul, Nat.mul_comm]
    have power := Nat.mul_pos (pow_pos Nat.zero_lt_two place) positive
    rw [units, Nat.mul_assoc, divisor, divideToEven_mul_right _ _ power, divideToEven_one]
  simp only [roundScaled, Nat.mul_div_left _ positive, exponent, whole, carry]
  rw [if_neg (Nat.ne_of_lt below), if_pos bound]

theorem isNormal_of_carry {mantissa exponent : Nat} {magnitude : Magnitude}
    (atMost : mantissa ≤ Nat.pow 2 53) (form : Nat.pow 2 52 ≤ mantissa ∨ exponent = 0)
    (carried : carry mantissa exponent = some magnitude) : magnitude.IsNormal := by
  simp only [carry] at carried
  by_cases full : mantissa = Nat.pow 2 53
  · rw [if_pos full] at carried
    split at carried
    · rename_i bound
      obtain rfl := Option.some.inj carried
      exact ⟨Nat.pow_lt_pow_right (by decide) (by decide), bound, .inl (Nat.le_refl _)⟩
    · cases carried
  · rw [if_neg full] at carried
    split at carried
    · rename_i bound
      obtain rfl := Option.some.inj carried
      exact ⟨Nat.lt_of_le_of_ne atMost full, bound, form⟩
    · cases carried

theorem isNormal_of_roundScaled {scaled bottom : Nat} {magnitude : Magnitude}
    (rounded : roundScaled scaled bottom = some magnitude) : magnitude.IsNormal := by
  simp only [roundScaled] at rounded
  have low := div_le_divideToEven scaled (bottom * Nat.pow 2 ((scaled / bottom).log2 - 52))
  have high := divideToEven_le scaled (bottom * Nat.pow 2 ((scaled / bottom).log2 - 52))
  rw [← Nat.div_div_eq_div_mul] at low high
  generalize scaled / bottom = quotient at low high rounded
  by_cases short : quotient.log2 < 52
  · -- a quotient of fewer digits than a mantissa has is taken without an exponent
    have exponent : quotient.log2 - 52 = 0 := by omega
    have unscaled : quotient / Nat.pow 2 0 = quotient := Nat.div_one quotient
    have below : quotient < Nat.pow 2 52 := by
      by_cases zero : quotient = 0
      · rw [zero]
        decide
      · exact (Nat.log2_lt zero).mp short
    have powers : Nat.pow 2 52 + 1 ≤ Nat.pow 2 53 := by decide
    rw [exponent] at low high rounded
    rw [unscaled] at high
    exact isNormal_of_carry (by omega) (.inr rfl) rounded
  · obtain ⟨exponent, log⟩ : ∃ exponent, quotient.log2 = 52 + exponent :=
      ⟨quotient.log2 - 52, by omega⟩
    have inhabited : quotient ≠ 0 := by
      rintro rfl
      simp at short
    obtain ⟨atLeast, below⟩ := (Nat.log2_eq_iff inhabited).mp log
    have positive := pow_pos Nat.zero_lt_two exponent
    have lower : Nat.pow 2 52 ≤ quotient / Nat.pow 2 exponent := by
      rw [Nat.le_div_iff_mul_le positive, ← pow_add]
      exact atLeast
    have upper : quotient / Nat.pow 2 exponent < Nat.pow 2 53 := by
      rw [Nat.div_lt_iff_lt_mul positive, ← pow_add, Nat.add_right_comm 52 1 exponent]
      exact below
    have chosen : quotient.log2 - 52 = exponent := by omega
    rw [chosen] at low high rounded
    exact isNormal_of_carry (by omega) (.inl (by omega)) rounded

/-! ## Decimals -/

theorem two_mul_lt_ten_pow {digits scale places : Nat}
    (small : digits.log2 + 2 + scale ≤ 3 * places) :
    2 * (digits * Nat.pow 10 0 * Nat.pow 2 scale) < Nat.pow 10 places := by
  have below : 2 * digits < Nat.pow 2 (digits.log2 + 2) := by
    have log : digits < Nat.pow 2 (digits.log2 + 1) := Nat.lt_log2_self
    rw [pow_succ]
    omega
  have single : digits * Nat.pow 10 0 = digits := Nat.mul_one digits
  refine Nat.lt_of_lt_of_le ?_ (Nat.le_trans (pow_le_pow Nat.zero_lt_two small)
    (two_pow_le_ten_pow places))
  rw [single, ← Nat.mul_assoc, pow_add]
  exact Nat.mul_lt_mul_of_pos_right below (pow_pos Nat.zero_lt_two scale)

theorem le_log2_mul_ten_pow {digits scale places bound : Nat} (inhabited : digits ≠ 0)
    (large : bound ≤ 3 * places + scale) :
    bound ≤ (digits * Nat.pow 10 places * Nat.pow 2 scale / Nat.pow 10 0).log2 := by
  have single : ∀ n, n / Nat.pow 10 0 = n := Nat.div_one
  have power : Nat.pow 2 (3 * places + scale) ≤ digits * Nat.pow 10 places * Nat.pow 2 scale := by
    rw [pow_add]
    refine Nat.mul_le_mul_right _ (Nat.le_trans (two_pow_le_ten_pow places) ?_)
    exact Nat.le_mul_of_pos_left _ (Nat.pos_of_ne_zero inhabited)
  have positive := pow_pos Nat.zero_lt_two (3 * places + scale)
  rw [single]
  exact Nat.le_trans large ((Nat.le_log2 (by omega)).mpr power)

/-- A decimal is rounded as a fraction, however large or small its exponent is. -/
theorem ofDecimal_eq_round (digits : Nat) (exponent : Int) :
    ofDecimal digits exponent =
      round (digits * Nat.pow 10 exponent.toNat) (Nat.pow 10 (-exponent).toNat) := by
  have rounded := round_eq (digits * Nat.pow 10 exponent.toNat) (Nat.pow 10 (-exponent).toNat)
  -- a variable, so that the power is not computed
  generalize known : 1074 = scale at rounded
  rw [rounded]
  unfold ofDecimal
  split
  · rename_i zero
    have positive : 2 * 0 < Nat.pow 10 (-exponent).toNat := pow_pos (by decide) _
    simp only [zero, Nat.zero_mul, roundScaled_eq_zero positive]
  · rename_i inhabited
    split
    · rename_i large
      have whole : (-exponent).toNat = 0 := by omega
      rw [whole]
      exact (roundScaled_eq_none (le_log2_mul_ten_pow inhabited (by omega))).symm
    · split
      · rename_i small
        have whole : exponent.toNat = 0 := by omega
        rw [whole]
        exact (roundScaled_eq_zero (two_mul_lt_ten_pow (by omega))).symm
      · exact rounded

theorem ofDecimal_mul_ten (digits : Nat) (exponent : Int) :
    ofDecimal (digits * 10) exponent = ofDecimal digits (exponent + 1) := by
  rw [ofDecimal_eq_round, ofDecimal_eq_round]
  by_cases whole : 0 ≤ exponent
  · have same : (-(exponent + 1)).toNat = (-exponent).toNat := by omega
    have more : (exponent + 1).toNat = exponent.toNat + 1 := by omega
    rw [same, more, pow_succ, Nat.mul_assoc, Nat.mul_comm 10]
  · have none : exponent.toNat = 0 := by omega
    have noneLater : (exponent + 1).toNat = 0 := by omega
    have more : (-exponent).toNat = (-(exponent + 1)).toNat + 1 := by omega
    rw [none, noneLater, more, pow_succ]
    change round (digits * 10 * 1) _ = round (digits * 1) _
    rw [Nat.mul_one, Nat.mul_one]
    exact round_mul_right _ _ (by decide)

theorem ofDecimal_mul_pow (digits : Nat) (exponent : Int) (places : Nat) :
    ofDecimal (digits * Nat.pow 10 places) exponent = ofDecimal digits (exponent + places) := by
  induction places generalizing exponent with
  | zero =>
      change ofDecimal (digits * 1) exponent = ofDecimal digits (exponent + 0)
      rw [Nat.mul_one, Int.add_zero]
  | succ places ih =>
      rw [pow_succ, ← Nat.mul_assoc, ofDecimal_mul_ten, ih, Int.add_assoc, Int.add_comm 1,
        Int.natCast_succ]

theorem isNormal_of_ofDecimal {digits : Nat} {exponent : Int} {magnitude : Magnitude}
    (rounded : ofDecimal digits exponent = some magnitude) : magnitude.IsNormal := by
  rw [ofDecimal_eq_round] at rounded
  exact isNormal_of_roundScaled rounded

theorem ofDecimal_allDigits {magnitude : Magnitude} (normal : magnitude.IsNormal) :
    ofDecimal (Number.allDigits magnitude).1 (Number.allDigits magnitude).2 = some magnitude := by
  have whole : ∀ scale, roundScaled (magnitude.units * Nat.pow 5 scale * 1 * Nat.pow 2 scale)
      (Nat.pow (2 * 5) scale) = some magnitude := by
    intro scale
    rw [Nat.mul_one, Nat.mul_right_comm, mul_pow,
      roundScaled_mul_right _ _ (pow_pos (by decide) scale)]
    exact roundScaled_units normal (pow_pos Nat.zero_lt_two scale)
  have before : (-1074 : Int).toNat = 0 := rfl
  have behind : (- -1074 : Int).toNat = 1074 := rfl
  rw [ofDecimal_eq_round, round_eq, Number.allDigits, before, behind]
  generalize 1074 = scale
  exact whole scale

end Magnitude

namespace Number

theorem ofDecimal_of_withFewest? {magnitude : Magnitude} {decimal : Nat × Int}
    (found : withFewest? magnitude = some decimal) :
    Magnitude.ofDecimal decimal.1 decimal.2 = some magnitude := by
  obtain ⟨count, _, at_⟩ := List.exists_of_findSome?_eq_some found
  obtain ⟨digits, near, rfl⟩ := Option.map_eq_some_iff.mp at_
  simpa using List.find?_some near

/-- The shortest decimal of a magnitude is read back as the magnitude. -/
theorem ofDecimal_shortest {magnitude : Magnitude} (normal : magnitude.IsNormal) :
    Magnitude.ofDecimal (shortest magnitude).1 (shortest magnitude).2 = some magnitude := by
  unfold shortest
  cases found : withFewest? magnitude with
  | some decimal => exact ofDecimal_of_withFewest? found
  | none => exact Magnitude.ofDecimal_allDigits normal

end Number

end Lookahead
