import Mathlib.Tactic.FieldSimp
import Quorum.Binary64.Text
import Quorum.Proofs.Binary64

/-!
# Decimals that are read back

Rounding a quotient depends on its value only, and the shortcuts for very large and very small
decimals round as the decimal itself does. So a decimal is read as the number nearest to its value,
however its digits are divided between the significand and the exponent. The quotient that a finite
number is gives the number back, and so does its shortest decimal.

## Main definitions

* `Binary64.decimalValue` — the value of a decimal

## Main results

* `Binary64.ofRatio_congr` — rounding a quotient depends on its value
* `Binary64.ofRatio_ratio?` — a finite number is the one nearest to itself
* `Binary64.ofDecimal_congr` — reading a decimal depends on its value
* `Binary64.ofDecimal_shortest` — the shortest decimal of a number is read back
-/

namespace Quorum

namespace Binary64

variable {num num' den den' : ℕ}

section Quotients

/-! ### Quotients -/

theorem divToEven_mul_left {c : ℕ} (positive : 0 < c) (num den : ℕ) :
    divToEven (c * num) (c * den) = divToEven num den := by
  have less : 2 * (c * (num % den)) < c * den ↔ 2 * (num % den) < den := by
    rw [mul_left_comm, Nat.mul_lt_mul_left positive]
  have more : c * den < 2 * (c * (num % den)) ↔ den < 2 * (num % den) := by
    rw [mul_left_comm, Nat.mul_lt_mul_left positive]
  simp only [divToEven, Nat.mul_div_mul_left _ _ positive, Nat.mul_mod_mul_left, less, more]

/-- Rounding to an integer depends on the value of a quotient. -/
theorem divToEven_congr (den_pos : 0 < den) (den'_pos : 0 < den')
    (same : num * den' = num' * den) : divToEven num den = divToEven num' den' := by
  rw [← divToEven_mul_left den'_pos num den, ← divToEven_mul_left den_pos num' den', mul_comm den',
    same, mul_comm den num', mul_comm den' den]

/-- The unit of a quotient is the only one that leaves fifty-three bits in front of it. -/
theorem unitExponent_eq (num_pos : 0 < num) (den_pos : 0 < den) {q : ℤ} (least : -1074 ≤ q)
    (fits : (num : ℚ) < 2 ^ 53 * (den * 2 ^ q))
    (full : -1074 < q → 2 ^ 52 * (den * 2 ^ q) ≤ (num : ℚ)) : unitExponent num den = q := by
  obtain ⟨least', fits', full'⟩ := unitExponent_spec num_pos den_pos
  generalize unitExponent num den = q' at least' fits' full'
  -- The larger of two units would have too few bits in front of it.
  have unit {a b : ℤ} (less : a < b) : (den : ℚ) * 2 ^ a * 2 ≤ den * 2 ^ b := by
    rw [mul_assoc, ← zpow_add_one₀ two_ne_zero]
    gcongr
    · exact one_le_two
    · omega
  rcases lt_trichotomy q' q with less | same | less
  · have := full (by omega)
    have := unit less
    linarith
  · exact same
  · have := full' (by omega)
    have := unit less
    linarith

theorem unitExponent_congr (num_pos : 0 < num) (den_pos : 0 < den) (den'_pos : 0 < den')
    (same : num * den' = num' * den) : unitExponent num den = unitExponent num' den' := by
  have num'_pos : 0 < num' := Nat.pos_of_mul_pos_right (same ▸ Nat.mul_pos num_pos den'_pos)
  obtain ⟨least, fits, full⟩ := unitExponent_spec num'_pos den'_pos
  have value : (num : ℚ) * den' = num' * den := by exact_mod_cast same
  have den_pos' : (0 : ℚ) < den := by exact_mod_cast den_pos
  have den'_pos' : (0 : ℚ) < den' := by exact_mod_cast den'_pos
  refine unitExponent_eq num_pos den_pos least ?_ fun large => ?_
  · refine lt_of_mul_lt_mul_right ?_ den'_pos'.le
    calc (num : ℚ) * den' = num' * den := value
      _ < 2 ^ 53 * (den' * 2 ^ unitExponent num' den') * den := by gcongr
      _ = 2 ^ 53 * (den * 2 ^ unitExponent num' den') * den' := by ring
  · refine le_of_mul_le_mul_right ?_ den'_pos'
    calc 2 ^ 52 * ((den : ℚ) * 2 ^ unitExponent num' den') * (den' : ℚ)
        = 2 ^ 52 * (den' * 2 ^ unitExponent num' den') * (den : ℚ) := by ring
      _ ≤ (num' : ℚ) * den := by
        gcongr
        exact full large
      _ = num * den' := value.symm

theorem scaleDown_snd_pos (den_pos : 0 < den) (num : ℕ) (q : ℤ) : 0 < (scaleDown num den q).2 := by
  unfold scaleDown
  split
  · exact Nat.mul_pos den_pos (Nat.two_pow_pos _)
  · exact den_pos

/-- What is in front of the unit, as a quotient. -/
theorem scaleDown_value (num den : ℕ) (q : ℤ) :
    ((scaleDown num den q).1 : ℚ) * (den * 2 ^ q) = num * (scaleDown num den q).2 := by
  unfold scaleDown
  split
  · next nonneg =>
    obtain ⟨n, rfl⟩ := Int.eq_ofNat_of_zero_le nonneg
    dsimp only
    rw [Int.toNat_natCast, Nat.pow_eq, zpow_natCast]
    push_cast
    ring
  · next negative =>
    obtain ⟨n, rfl⟩ : ∃ n : ℕ, q = -n := ⟨(-q).toNat, by omega⟩
    dsimp only
    rw [neg_neg, Int.toNat_natCast, Nat.pow_eq, zpow_neg, zpow_natCast]
    push_cast
    rw [mul_left_comm, mul_assoc, mul_inv_cancel₀ (by positivity), mul_one, mul_comm]

theorem scaleDown_congr (same : num * den' = num' * den) (q : ℤ) :
    (scaleDown num den q).1 * (scaleDown num' den' q).2 =
      (scaleDown num' den' q).1 * (scaleDown num den q).2 := by
  unfold scaleDown
  split
  · dsimp only
    rw [← mul_assoc, same, mul_assoc]
  · dsimp only
    rw [mul_right_comm, same, mul_right_comm]

/-- Rounding a quotient depends on its value. -/
theorem ofRatio_congr (negative : Bool) (den_pos : 0 < den) (den'_pos : 0 < den')
    (same : num * den' = num' * den) : ofRatio negative num den = ofRatio negative num' den' := by
  by_cases zero : num = 0
  · have zero' : num' = 0 := by
      rw [zero, zero_mul] at same
      exact (Nat.mul_eq_zero.mp same.symm).resolve_right den_pos.ne'
    rw [ofRatio, ofRatio, if_pos zero, if_pos zero']
  · have zero' : num' ≠ 0 := by
      rintro rfl
      rw [zero_mul] at same
      exact zero ((Nat.mul_eq_zero.mp same).resolve_right den'_pos.ne')
    have rounded := divToEven_congr (scaleDown_snd_pos den_pos num (unitExponent num' den'))
      (scaleDown_snd_pos den'_pos num' (unitExponent num' den')) (scaleDown_congr same _)
    simp only [ofRatio, zero, zero', if_false,
      unitExponent_congr (Nat.pos_of_ne_zero zero) den_pos den'_pos same, rounded]

end Quotients

section Numbers

/-! ### Numbers are nearest to themselves -/

theorem divToEven_mul_self (m : ℕ) (den_pos : 0 < den) : divToEven (m * den) den = m := by
  simp [divToEven, Nat.mul_div_cancel m den_pos, den_pos]

/-- A significand within fifty-three bits and its unit are kept. -/
theorem ofRatio_of_significand (negative : Bool) {m : ℕ} {q : ℤ} (positive : 0 < m)
    (below : m < 2 ^ 53) (least : -1074 ≤ q) (full : -1074 < q → 2 ^ 52 ≤ m)
    (den_pos : 0 < den) (value : (num : ℚ) = m * (den * 2 ^ q)) :
    ofRatio negative num den =
      if (q + 1074).toNat * 2 ^ 52 + m < 2047 * 2 ^ 52
      then ofFields negative ((q + 1074).toNat * 2 ^ 52 + m) else infinity negative := by
  have unit_pos : (0 : ℚ) < den * 2 ^ q := by positivity
  have num_pos : 0 < num := by
    have : (0 : ℚ) < num := by
      rw [value]
      positivity
    exact_mod_cast this
  have unit : unitExponent num den = q := by
    refine unitExponent_eq num_pos den_pos least ?_ fun large => ?_
    · rw [value]
      gcongr
      exact_mod_cast below
    · rw [value]
      gcongr
      exact_mod_cast full large
  have scaled : (scaleDown num den q).1 = m * (scaleDown num den q).2 := by
    have split := scaleDown_value num den q
    rw [value, mul_right_comm] at split
    exact_mod_cast mul_right_cancel₀ unit_pos.ne' split
  have rounded : divToEven (scaleDown num den q).1 (scaleDown num den q).2 = m := by
    rw [scaled, divToEven_mul_self m (scaleDown_snd_pos den_pos num q)]
  simp only [ofRatio, num_pos.ne', if_false, unit, rounded, Nat.pow_eq]

/-- A number is given by its sign bit and the remaining bits. -/
theorem ofFields_fields (x : Binary64) :
    ofFields x.isNegative (x.exponentField * 2 ^ 52 + x.fractionField) = x := by
  obtain ⟨bits⟩ := x
  have below := bits.toNat_lt
  have whole : (if bits.toNat / 2 ^ 63 = 1 then 2 ^ 63 else 0) +
      (bits.toNat / 2 ^ 52 % 2 ^ 11 * 2 ^ 52 + bits.toNat % 2 ^ 52) = bits.toNat := by
    split <;> omega
  simp only [ofFields, isNegative, exponentField, fractionField, Nat.pow_eq, beq_iff_eq, whole,
    UInt64.ofNat_toNat]

theorem fractionField_lt (x : Binary64) : x.fractionField < 2 ^ 52 :=
  Nat.mod_lt _ (Nat.two_pow_pos 52)

theorem exponentField_lt (x : Binary64) : x.exponentField < 2048 :=
  Nat.mod_lt _ (Nat.two_pow_pos 11)

/-- A finite number is the one nearest to the quotient that it is. -/
theorem ofRatio_ratio? {x : Binary64} (ratio : x.ratio? = some (num, den)) :
    ofRatio x.isNegative num den = x ∧ 0 < den := by
  simp only [ratio?, Option.map_eq_some_iff, Prod.exists] at ratio
  obtain ⟨m, q, magnitude, ratio⟩ := ratio
  have value : (num : ℚ) = m * (den * 2 ^ q) ∧ 0 < den := by
    split at ratio
    · next nonneg =>
      obtain ⟨n, rfl⟩ := Int.eq_ofNat_of_zero_le nonneg
      obtain ⟨rfl, rfl⟩ := Prod.mk.inj ratio
      refine ⟨?_, one_pos⟩
      rw [zpow_natCast, Int.toNat_natCast, Nat.pow_eq]
      push_cast
      ring
    · next negative =>
      obtain ⟨n, rfl⟩ : ∃ n : ℕ, q = -n := ⟨(-q).toNat, by omega⟩
      obtain ⟨rfl, rfl⟩ := Prod.mk.inj ratio
      refine ⟨?_, by simp⟩
      rw [neg_neg, Int.toNat_natCast, Nat.pow_eq, zpow_neg, zpow_natCast]
      push_cast
      rw [mul_inv_cancel₀ (by positivity), mul_one]
  refine ⟨?_, value.2⟩
  have fraction_lt := fractionField_lt x
  have exponent_lt := exponentField_lt x
  have whole := ofFields_fields x
  unfold magnitude? at magnitude
  split at magnitude
  · cases magnitude
  · next finite =>
    split at magnitude
    · next subnormal =>
      obtain ⟨rfl, rfl⟩ := Prod.mk.inj (Option.some.inj magnitude)
      rw [subnormal, zero_mul, zero_add] at whole
      by_cases zero : x.fractionField = 0
      · have num_zero : num = 0 := by
          have := value.1
          rw [zero, Nat.cast_zero, zero_mul] at this
          exact_mod_cast this
        rw [zero] at whole
        rw [ofRatio, if_pos num_zero, Binary64.zero, whole]
      · rw [ofRatio_of_significand _ (Nat.pos_of_ne_zero zero) (by omega) le_rfl (by omega) value.2
          value.1, if_pos (by omega)]
        exact (congrArg _ (by omega)).trans whole
    · next normal =>
      obtain ⟨rfl, rfl⟩ := Prod.mk.inj (Option.some.inj magnitude)
      simp only [Nat.pow_eq] at value
      rw [ofRatio_of_significand _ (by omega) (by omega) (by omega) (by omega) value.2 value.1,
        if_pos (by omega)]
      exact (congrArg _ (by omega)).trans whole

end Numbers

section Decimals

/-! ### Decimals -/

/-- The value of a decimal. -/
def decimalValue (digits : ℕ) (exponent : ℤ) : ℚ := digits * 10 ^ exponent

/-- The quotient that a decimal is. -/
def decimalRatio (digits : ℕ) (exponent : ℤ) : ℕ × ℕ :=
  if 0 ≤ exponent then (digits * 10 ^ exponent.toNat, 1) else (digits, 10 ^ (-exponent).toNat)

theorem decimalRatio_spec (digits : ℕ) (exponent : ℤ) :
    0 < (decimalRatio digits exponent).2 ∧
      ((decimalRatio digits exponent).1 : ℚ) =
        decimalValue digits exponent * (decimalRatio digits exponent).2 := by
  unfold decimalRatio decimalValue
  split
  · next nonneg =>
    obtain ⟨n, rfl⟩ := Int.eq_ofNat_of_zero_le nonneg
    refine ⟨one_pos, ?_⟩
    rw [zpow_natCast, Int.toNat_natCast]
    push_cast
    ring
  · next negative =>
    obtain ⟨n, rfl⟩ : ∃ n : ℕ, exponent = -n := ⟨(-exponent).toNat, by omega⟩
    refine ⟨by positivity, ?_⟩
    rw [neg_neg, Int.toNat_natCast, zpow_neg, zpow_natCast]
    push_cast
    rw [mul_assoc, inv_mul_cancel₀ (by positivity), mul_one]

/-- What is not below a power of two past the last number becomes infinite. -/
theorem ofRatio_of_large (negative : Bool) (den_pos : 0 < den)
    (large : 2 ^ (1100 : ℤ) * (den : ℚ) ≤ num) : ofRatio negative num den = infinity negative := by
  have num_pos : 0 < num := by
    have : (0 : ℚ) < num := lt_of_lt_of_le (by positivity) large
    exact_mod_cast this
  obtain ⟨least, fits, -⟩ := unitExponent_spec num_pos den_pos
  generalize unit : unitExponent num den = q at least fits
  have q_large : 1047 < q := by
    have : (2 : ℚ) ^ (1100 : ℤ) < 2 ^ (53 + q : ℤ) := by
      have den_pos' : (0 : ℚ) < den := by exact_mod_cast den_pos
      refine lt_of_mul_lt_mul_right ?_ den_pos'.le
      calc (2 : ℚ) ^ (1100 : ℤ) * den ≤ num := large
        _ < 2 ^ 53 * (den * 2 ^ q) := fits
        _ = 2 ^ (53 + q : ℤ) * den := by
          rw [zpow_add₀ two_ne_zero]
          norm_num
          ring
    have := (zpow_lt_zpow_iff_right₀ (one_lt_two (α := ℚ))).mp this
    omega
  rw [ofRatio, if_neg num_pos.ne']
  simp only [unit, Nat.pow_eq]
  rw [if_neg (by omega)]

/-- What lies below half of the least positive number becomes zero. -/
theorem ofRatio_of_small (negative : Bool) (den_pos : 0 < den)
    (small : (num : ℚ) * 2 ^ (1075 : ℤ) < den) : ofRatio negative num den = zero negative := by
  by_cases zero : num = 0
  · rw [ofRatio, if_pos zero]
  have num_pos := Nat.pos_of_ne_zero zero
  have den_pos' : (0 : ℚ) < den := by exact_mod_cast den_pos
  have num_lt : (num : ℚ) < den * 2 ^ (-1075 : ℤ) := by
    rwa [zpow_neg, ← div_eq_mul_inv, lt_div_iff₀ (by positivity)]
  have unit : unitExponent num den = -1074 := by
    refine unitExponent_eq num_pos den_pos le_rfl ?_ fun large => absurd large (lt_irrefl _)
    have half : (2 : ℚ) ^ (-1075 : ℤ) ≤ 2 ^ 53 * 2 ^ (-1074 : ℤ) := by
      rw [← zpow_ofNat 2 53, ← zpow_add₀ two_ne_zero]
      exact zpow_le_zpow_right₀ one_le_two (by norm_num)
    calc (num : ℚ) < den * 2 ^ (-1075 : ℤ) := num_lt
      _ ≤ den * (2 ^ 53 * 2 ^ (-1074 : ℤ)) := by gcongr
      _ = 2 ^ 53 * (den * 2 ^ (-1074 : ℤ)) := by ring
  have rounded :
      divToEven (scaleDown num den (-1074)).1 (scaleDown num den (-1074)).2 = 0 := by
    have split := scaleDown_value num den (-1074)
    have whole_pos := scaleDown_snd_pos den_pos num (-1074)
    generalize (scaleDown num den (-1074)).1 = part at split ⊢
    generalize (scaleDown num den (-1074)).2 = whole at split whole_pos ⊢
    have half : 2 * part < whole := by
      have unit_pos : (0 : ℚ) < den * 2 ^ (-1075 : ℤ) := by positivity
      have doubled : (2 : ℚ) ^ (-1074 : ℤ) = 2 * 2 ^ (-1075 : ℤ) := by
        rw [← zpow_one_add₀ two_ne_zero]
        rfl
      have : (2 * part : ℚ) < whole := by
        refine lt_of_mul_lt_mul_right ?_ unit_pos.le
        calc (2 * part : ℚ) * (den * 2 ^ (-1075 : ℤ)) = part * (den * 2 ^ (-1074 : ℤ)) := by
              rw [doubled]
              ring
          _ = num * whole := split
          _ < den * 2 ^ (-1075 : ℤ) * whole := by gcongr
          _ = whole * (den * 2 ^ (-1075 : ℤ)) := mul_comm _ _
      exact_mod_cast this
    have below : part < whole := by omega
    simp only [divToEven, Nat.mod_eq_of_lt below, half, if_true, Nat.div_eq_of_lt below]
  simp only [ofRatio, zero, if_false, unit, rounded, Nat.pow_eq]
  rfl

/-- The shortcuts for large and small decimals round as the decimal does. -/
theorem ofDecimal_eq (negative : Bool) (digits : ℕ) (exponent : ℤ) :
    ofDecimal negative digits exponent =
      ofRatio negative (decimalRatio digits exponent).1 (decimalRatio digits exponent).2 := by
  obtain ⟨den_pos, value⟩ := decimalRatio_spec digits exponent
  by_cases zero : digits = 0
  · subst zero
    have num_zero : (decimalRatio 0 exponent).1 = 0 := by
      unfold decimalRatio
      split
      · exact Nat.zero_mul _
      · rfl
    rw [ofDecimal, if_pos rfl, ofRatio, if_pos num_zero]
  have digits_pos := Nat.pos_of_ne_zero zero
  rw [ofDecimal, if_neg zero]
  split
  · next small =>
    -- A small decimal has a negative exponent, and powers of two are no smaller then.
    refine (ofRatio_of_small negative den_pos ?_).symm
    have den_pos' : (0 : ℚ) < (decimalRatio digits exponent).2 := by exact_mod_cast den_pos
    have upper : (digits : ℚ) < 2 ^ (digits.log2 + 1 : ℤ) := by exact_mod_cast Nat.lt_log2_self
    have tens : (10 : ℚ) ^ exponent ≤ 2 ^ exponent := by
      obtain ⟨n, rfl⟩ : ∃ n : ℕ, exponent = -n := ⟨(-exponent).toNat, by omega⟩
      rw [zpow_neg, zpow_neg, zpow_natCast, zpow_natCast]
      gcongr
      norm_num
    have below : decimalValue digits exponent * 2 ^ (1075 : ℤ) < 1 := by
      calc (digits : ℚ) * 10 ^ exponent * 2 ^ (1075 : ℤ)
          ≤ digits * 2 ^ exponent * 2 ^ (1075 : ℤ) := by gcongr
        _ < 2 ^ (digits.log2 + 1 : ℤ) * 2 ^ exponent * 2 ^ (1075 : ℤ) := by gcongr
        _ = 2 ^ (digits.log2 + 1 + exponent + 1075 : ℤ) := by
            rw [zpow_add₀ two_ne_zero (digits.log2 + 1 + exponent) 1075,
              zpow_add₀ two_ne_zero (digits.log2 + 1 : ℤ) exponent]
        _ ≤ 2 ^ (0 : ℤ) := zpow_le_zpow_right₀ one_le_two (by omega)
        _ = 1 := zpow_zero 2
    calc ((decimalRatio digits exponent).1 : ℚ) * 2 ^ (1075 : ℤ)
        = decimalValue digits exponent * 2 ^ (1075 : ℤ) * (decimalRatio digits exponent).2 := by
          rw [value]
          ring
      _ < 1 * (decimalRatio digits exponent).2 := by gcongr
      _ = (decimalRatio digits exponent).2 := one_mul _
  · unfold decimalRatio
    split
    · next nonneg =>
      split
      · next large =>
        refine (ofRatio_of_large negative one_pos ?_).symm
        have places : 400 ≤ exponent.toNat := by omega
        have digits_ge : 2 ^ 1100 ≤ digits * 10 ^ exponent.toNat :=
          calc 2 ^ 1100 ≤ 10 ^ 400 := by decide +kernel
            _ ≤ 10 ^ exponent.toNat := pow_le_pow_right₀ (by decide) places
            _ ≤ digits * 10 ^ exponent.toNat := Nat.le_mul_of_pos_left _ digits_pos
        rw [Nat.cast_one, mul_one]
        exact_mod_cast digits_ge
      · rfl
    · rfl

/-- Reading a decimal depends on its value. -/
theorem ofDecimal_congr (negative : Bool) {digits digits' : ℕ} {exponent exponent' : ℤ}
    (same : decimalValue digits exponent = decimalValue digits' exponent') :
    ofDecimal negative digits exponent = ofDecimal negative digits' exponent' := by
  obtain ⟨den_pos, value⟩ := decimalRatio_spec digits exponent
  obtain ⟨den'_pos, value'⟩ := decimalRatio_spec digits' exponent'
  rw [ofDecimal_eq, ofDecimal_eq]
  refine ofRatio_congr negative den_pos den'_pos ?_
  have cross : ((decimalRatio digits exponent).1 : ℚ) * (decimalRatio digits' exponent').2 =
      (decimalRatio digits' exponent').1 * (decimalRatio digits exponent).2 := by
    rw [value, value', same]
    ring
  exact_mod_cast cross

end Decimals

section Shortest

/-! ### The shortest decimal -/

theorem decimalValue_trimZeros (digits : ℕ) (k : ℤ) :
    decimalValue (trimZeros digits k).1 (trimZeros digits k).2 = decimalValue digits k := by
  induction digits using Nat.strongRecOn generalizing k with
  | ind digits ih =>
    rw [trimZeros]
    split
    · next trailing =>
      rw [ih (digits / 10) (by omega)]
      have whole : digits = digits / 10 * 10 := by omega
      conv_rhs => rw [whole]
      unfold decimalValue
      rw [zpow_add_one₀ (by norm_num)]
      push_cast
      ring
    · rfl

theorem trimZeros_ne_zero {digits : ℕ} (nonzero : digits ≠ 0) (k : ℤ) :
    (trimZeros digits k).1 ≠ 0 := by
  induction digits using Nat.strongRecOn generalizing k with
  | ind digits ih =>
    rw [trimZeros]
    split
    · exact ih _ (by omega) (by omega) _
    · exact nonzero

/-- What is found on a grid is read back. -/
theorem ofDecimal_of_onGrid? {x : Binary64} {k : ℤ} {c : ℕ} (found : onGrid? x num den k = some c) :
    c ≠ 0 ∧ ofDecimal x.isNegative c k = x := by
  unfold onGrid? at found
  simp only at found
  have reads {c' : ℕ} (holds : (c' != 0 && ofDecimal x.isNegative c' k == x) = true) :
      c' ≠ 0 ∧ ofDecimal x.isNegative c' k = x := by simpa using holds
  split_ifs at found with nearest same other other
  all_goals
    obtain rfl := Option.some.inj found
    exact reads ‹_›

/-- The shortest decimal of a finite number other than zero is read back. -/
theorem ofDecimal_shortest {x : Binary64} (ratio : x.ratio? = some (num, den)) (nonzero : num ≠ 0) :
    x.shortest.1 ≠ 0 ∧ ofDecimal x.isNegative x.shortest.1 x.shortest.2 = x := by
  obtain ⟨nearest, den_pos⟩ := ofRatio_ratio? ratio
  unfold shortest
  simp only [ratio, nonzero, if_false]
  split
  · next c k hit =>
    obtain ⟨i, -, hit⟩ := List.exists_of_findSome?_eq_some hit
    obtain ⟨c', found, same⟩ := Option.map_eq_some_iff.mp hit
    obtain ⟨rfl, rfl⟩ := Prod.mk.inj same
    obtain ⟨c_ne, reads⟩ := ofDecimal_of_onGrid? found
    refine ⟨trimZeros_ne_zero c_ne _, ?_⟩
    rw [ofDecimal_congr _ (decimalValue_trimZeros _ _), reads]
  · -- The denominator is a power of two, so the expansion ends after as many places.
    obtain ⟨s, rfl⟩ : ∃ s, den = 2 ^ s := by
      simp only [ratio?, Option.map_eq_some_iff, Prod.exists] at ratio
      obtain ⟨m, q, -, ratio⟩ := ratio
      split at ratio
      · exact ⟨0, (Prod.mk.inj ratio).2.symm⟩
      · exact ⟨_, (Prod.mk.inj ratio).2.symm⟩
    have expansion : num * 10 ^ s / 2 ^ s = num * 5 ^ s := by
      rw [show (10 : ℕ) = 5 * 2 from rfl, mul_pow, ← mul_assoc,
        Nat.mul_div_cancel _ (Nat.two_pow_pos s)]
    simp only [Nat.log2_two_pow, Nat.pow_eq, expansion]
    refine ⟨Nat.mul_ne_zero nonzero (by positivity), ?_⟩
    obtain ⟨den'_pos, value⟩ := decimalRatio_spec (num * 5 ^ s) (-s)
    rw [ofDecimal_eq]
    refine (ofRatio_congr _ den'_pos den_pos ?_).trans nearest
    have cross : ((decimalRatio (num * 5 ^ s) (-s)).1 : ℚ) * (2 ^ s : ℕ) =
        num * (decimalRatio (num * 5 ^ s) (-s)).2 := by
      rw [value, decimalValue, zpow_neg, zpow_natCast, show (10 : ℚ) = 5 * 2 by norm_num, mul_pow]
      push_cast
      field_simp
    exact_mod_cast cross

end Shortest

end Binary64

end Quorum
