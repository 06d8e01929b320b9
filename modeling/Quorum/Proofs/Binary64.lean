import Mathlib.Algebra.Order.Field.Power
import Mathlib.Data.Rat.Cast.Order
import Mathlib.Tactic.Linarith
import Mathlib.Tactic.Positivity
import Mathlib.Tactic.Ring
import Quorum.Binary64

/-!
# Rounding a quotient keeps the order

The number nearest to a quotient is found in two steps: the unit is chosen so that the quotient has
fifty-three bits in front of it, and what is in front of it is rounded to an integer. A larger
quotient has the same unit and a larger integer, or a larger unit. The bits of a positive number
count the numbers below it, so the order of the bits is that of the numbers.

## Main definitions

* `Binary64.place` — how many positive numbers lie up to the one nearest to a quotient

## Main results

* `Binary64.unitExponent_spec`, `Binary64.unitExponent_mono` — the unit of a quotient
* `Binary64.place_mono` — larger quotients come later
* `Binary64.lt_of_ofRatio_le` — what lies above a quotient lies above smaller ones
-/

namespace Quorum

namespace Binary64

variable {num num' den : ℕ}

/-! ### Rounding to an integer -/

theorem le_divToEven (num den : ℕ) : num / den ≤ divToEven num den := by
  unfold divToEven
  dsimp only
  split_ifs <;> omega

theorem divToEven_le (num den : ℕ) : divToEven num den ≤ num / den + 1 := by
  unfold divToEven
  dsimp only
  split_ifs <;> omega

theorem divToEven_mono (le : num ≤ num') (den : ℕ) : divToEven num den ≤ divToEven num' den := by
  rcases (Nat.div_le_div_right le : num / den ≤ num' / den).lt_or_eq with below | same
  · calc divToEven num den ≤ num / den + 1 := divToEven_le num den
      _ ≤ num' / den := below
      _ ≤ divToEven num' den := le_divToEven num' den
  · -- With one quotient the larger number has the larger remainder.
    have remainders : num % den ≤ num' % den := by
      have := Nat.div_add_mod num den
      have := Nat.div_add_mod num' den
      rw [← same] at this
      omega
    unfold divToEven
    rw [← same]
    dsimp only
    split_ifs <;> omega

/-! ### The unit -/

theorem lt_of_scaleDown (num : ℕ) (den_pos : 0 < den) (q : ℤ) (m : ℕ) :
    (scaleDown num den q).1 / (scaleDown num den q).2 < m ↔ (num : ℚ) < m * (den * 2 ^ q) := by
  unfold scaleDown
  split
  · next nonneg =>
    obtain ⟨n, rfl⟩ := Int.eq_ofNat_of_zero_le nonneg
    dsimp only
    rw [Int.toNat_natCast, Nat.pow_eq,
      Nat.div_lt_iff_lt_mul (Nat.mul_pos den_pos (Nat.two_pow_pos n)), zpow_natCast]
    exact_mod_cast Iff.rfl
  · next negative =>
    obtain ⟨n, rfl⟩ : ∃ n : ℕ, q = -n := ⟨(-q).toNat, by omega⟩
    dsimp only
    rw [neg_neg, Int.toNat_natCast, Nat.pow_eq, Nat.div_lt_iff_lt_mul den_pos, zpow_neg,
      zpow_natCast, ← mul_assoc, ← div_eq_mul_inv, lt_div_iff₀ (by positivity)]
    exact_mod_cast Iff.rfl

/-- The logarithms of a quotient bound it from above, up to one bit. -/
theorem lt_of_log2 (num : ℕ) (den_pos : 0 < den) {q : ℤ} (large : num.log2 - den.log2 - 53 ≤ q) :
    (num : ℚ) < 2 ^ 54 * (den * 2 ^ q) := by
  have upper : (num : ℚ) < 2 ^ (num.log2 + 1 : ℤ) := by
    exact_mod_cast Nat.lt_log2_self
  have lower : (2 : ℚ) ^ (den.log2 : ℤ) ≤ den := by
    exact_mod_cast Nat.log2_self_le den_pos.ne'
  calc (num : ℚ) < 2 ^ (num.log2 + 1 : ℤ) := upper
    _ ≤ 2 ^ (54 + den.log2 + q : ℤ) := zpow_le_zpow_right₀ one_le_two (by omega)
    _ = 2 ^ 54 * (2 ^ (den.log2 : ℤ) * 2 ^ q) := by
      rw [zpow_add₀ two_ne_zero, zpow_add₀ two_ne_zero, mul_assoc]
      rfl
    _ ≤ 2 ^ 54 * (den * 2 ^ q) := by gcongr

/-- The logarithms of a quotient bound it from below. -/
theorem le_of_log2 (num_pos : 0 < num) (den : ℕ) {q : ℤ} (exact : q = num.log2 - den.log2 - 53) :
    2 ^ 52 * (den * 2 ^ q) ≤ (num : ℚ) := by
  have lower : (2 : ℚ) ^ (num.log2 : ℤ) ≤ num := by
    exact_mod_cast Nat.log2_self_le num_pos.ne'
  have upper : (den : ℚ) < 2 ^ (den.log2 + 1 : ℤ) := by
    exact_mod_cast Nat.lt_log2_self
  calc 2 ^ 52 * ((den : ℚ) * 2 ^ q)
      ≤ 2 ^ 52 * (2 ^ (den.log2 + 1 : ℤ) * 2 ^ q) := by gcongr
    _ = 2 ^ (52 + (den.log2 + 1) + q : ℤ) := by
      rw [zpow_add₀ two_ne_zero (52 + (den.log2 + 1 : ℤ)),
        zpow_add₀ two_ne_zero 52 (den.log2 + 1 : ℤ), mul_assoc]
      rfl
    _ = 2 ^ (num.log2 : ℤ) := by
      congr 1
      omega
    _ ≤ num := lower

/-- In front of the unit of a quotient there are at most fifty-three bits, and no fewer unless it
is the least unit. -/
theorem unitExponent_spec (num_pos : 0 < num) (den_pos : 0 < den) :
    -1074 ≤ unitExponent num den ∧
      (num : ℚ) < 2 ^ 53 * (den * 2 ^ unitExponent num den) ∧
      (-1074 < unitExponent num den → 2 ^ 52 * (den * 2 ^ unitExponent num den) ≤ (num : ℚ)) := by
  set guess : ℤ := max (num.log2 - den.log2 - 53) (-1074) with guess_def
  have least : -1074 ≤ guess := le_max_right _ _
  have split : unitExponent num den =
      if (scaleDown num den guess).1 / (scaleDown num den guess).2 < 2 ^ 53 then guess
      else guess + 1 := rfl
  have fits := lt_of_scaleDown num den_pos guess (2 ^ 53)
  push_cast at fits
  rw [split]
  by_cases small : (scaleDown num den guess).1 / (scaleDown num den guess).2 < 2 ^ 53
  · rw [if_pos small]
    refine ⟨least, fits.mp small, ?_⟩
    intro large
    exact le_of_log2 num_pos den (by omega)
  · -- The logarithms have left one bit open, and it is taken.
    have next : (den : ℚ) * 2 ^ (guess + 1) = 2 * (den * 2 ^ guess) := by
      rw [zpow_add_one₀ two_ne_zero]
      ring
    have large := not_lt.mp (fits.not.mp small)
    have upper := lt_of_log2 num den_pos (le_max_left _ _ : _ ≤ guess)
    rw [if_neg small, next]
    refine ⟨by omega, ?_, ?_⟩
    · linarith
    · intro
      linarith

/-- Larger quotients have no smaller unit. -/
theorem unitExponent_mono (le : num ≤ num') (num_pos : 0 < num) (den_pos : 0 < den) :
    unitExponent num den ≤ unitExponent num' den := by
  obtain ⟨-, -, full⟩ := unitExponent_spec num_pos den_pos
  obtain ⟨least, fits, -⟩ := unitExponent_spec (num_pos.trans_le le) den_pos
  generalize unitExponent num den = q at full ⊢
  generalize unitExponent num' den = q' at least fits ⊢
  by_contra smaller
  have full := full (by omega)
  have unit : (den : ℚ) * 2 ^ (q' + 1) ≤ den * 2 ^ q := by
    gcongr
    · exact one_le_two
    · omega
  rw [zpow_add_one₀ two_ne_zero] at unit
  have le' : (num : ℚ) ≤ num' := by exact_mod_cast le
  linarith

/-! ### The order -/

/-- How many positive numbers lie up to the one that is nearest to a quotient, if there were no
largest one. -/
def place (num den : ℕ) : ℕ :=
  if num = 0 then 0
  else
    let scaled := scaleDown num den (unitExponent num den)
    (unitExponent num den + 1074).toNat * 2 ^ 52 + divToEven scaled.1 scaled.2

theorem divToEven_scaleDown_mono (le : num ≤ num') (den : ℕ) (q : ℤ) :
    divToEven (scaleDown num den q).1 (scaleDown num den q).2 ≤
      divToEven (scaleDown num' den q).1 (scaleDown num' den q).2 := by
  unfold scaleDown
  split
  · exact divToEven_mono le _
  · exact divToEven_mono (Nat.mul_le_mul_right _ le) _

/-- Larger quotients come later. -/
theorem place_mono (le : num ≤ num') (den_pos : 0 < den) : place num den ≤ place num' den := by
  unfold place
  by_cases zero : num = 0
  · rw [if_pos zero]
    exact Nat.zero_le _
  · have num_pos := Nat.pos_of_ne_zero zero
    have num'_pos := num_pos.trans_le le
    rw [if_neg zero, if_neg num'_pos.ne']
    dsimp only
    rcases (unitExponent_mono le num_pos den_pos).lt_or_eq with larger | same
    · -- A larger unit makes up for all that rounding can do.
      obtain ⟨least, fits, -⟩ := unitExponent_spec num_pos den_pos
      obtain ⟨-, -, full⟩ := unitExponent_spec num'_pos den_pos
      have below := (lt_of_scaleDown num den_pos (unitExponent num den) (2 ^ 53)).mpr
        (by exact_mod_cast fits)
      have above := (lt_of_scaleDown num' den_pos (unitExponent num' den) (2 ^ 52)).not.mpr
        (not_lt.mpr (by exact_mod_cast full (by omega)))
      have rounded := divToEven_le (scaleDown num den (unitExponent num den)).1
        (scaleDown num den (unitExponent num den)).2
      have rounded' := le_divToEven (scaleDown num' den (unitExponent num' den)).1
        (scaleDown num' den (unitExponent num' den)).2
      omega
    · rw [← same]
      exact Nat.add_le_add_left (divToEven_scaleDown_mono le den _) _

theorem ofRatio_eq_ofFields (num den : ℕ) :
    ofRatio false num den = ofFields false (min (place num den) (2047 * 2 ^ 52)) := by
  unfold ofRatio place infinity
  simp only [Nat.pow_eq]
  by_cases zero : num = 0
  · rw [if_pos zero, if_pos zero]
    rfl
  · rw [if_neg zero, if_neg zero]
    split
    · next small => rw [min_eq_left (le_of_lt small)]
    · next large => rw [min_eq_right (not_lt.mp large)]

/-- The bits of a positive number tell its rank. -/
theorem rank_ofFields {rest : ℕ} (small : rest ≤ 2047 * 2 ^ 52) :
    (ofFields false rest).rank = rest ∧ (ofFields false rest).isNaN = false := by
  have bits : (ofFields false rest).bits.toNat = rest := by
    have : rest < 18446744073709551616 := by omega
    simpa [ofFields] using this
  constructor
  · have positive : (ofFields false rest).isNegative = false := by
      rw [isNegative, bits, Nat.pow_eq]
      simp only [beq_eq_false_iff_ne]
      omega
    rw [rank, positive, exponentField, fractionField, bits]
    simp only [Nat.pow_eq]
    push_cast
    omega
  · rw [isNaN, exponentField, fractionField, bits]
    simp only [Nat.pow_eq, Bool.and_eq_false_iff, beq_eq_false_iff_ne, bne_eq_false_iff_eq]
    omega

/-- What lies above a quotient lies above smaller ones. -/
theorem lt_of_ofRatio_le {x : Binary64} (le : num ≤ num') (den_pos : 0 < den)
    (above : lt (ofRatio false num' den) x = true) : lt (ofRatio false num den) x = true := by
  obtain ⟨rank, number⟩ := rank_ofFields (min_le_right (place num den) (2047 * 2 ^ 52))
  obtain ⟨rank', -⟩ := rank_ofFields (min_le_right (place num' den) (2047 * 2 ^ 52))
  rw [← ofRatio_eq_ofFields] at rank number rank'
  simp only [lt, Bool.and_eq_true, Bool.not_eq_true', decide_eq_true_eq] at above ⊢
  have places := place_mono le den_pos
  refine ⟨⟨number, above.1.2⟩, ?_⟩
  rw [rank]
  rw [rank'] at above
  have := above.2
  omega

end Binary64

end Quorum
