/-!
# Modular inverses and powers

The inverse of an integer to an integer modulus, by the extended Euclidean algorithm, and powers by
repeated squaring.

## Main definitions

* `bezout` — the greatest common divisor together with one coefficient
* `inverse?` — the inverse modulo `m`, with the sign of `m`
* `powMod` — a power modulo `m`
-/

namespace Quorum

namespace Arith

/-- Runs the Euclidean algorithm on the remainders `r₀`, `r₁` and keeps coefficients `s₀`, `s₁` of
one of the two starting numbers beside them. The answer is the last remainder that is not zero,
with its coefficient. -/
def bezout (r₀ r₁ : Nat) (s₀ s₁ : Int) : Nat × Int :=
  if r₁ = 0 then (r₀, s₀)
  else bezout r₁ (r₀ % r₁) s₁ (s₀ - (r₀ / r₁ : Nat) * s₁)
termination_by r₁
decreasing_by exact Nat.mod_lt _ (Nat.pos_of_ne_zero ‹_›)

/-- Why there is no inverse. -/
inductive NoInverse where
  | zeroModulus
  /-- The number shares a factor with the modulus. -/
  | notInvertible
deriving DecidableEq, Repr

/-- The inverse of `a` modulo `m`: in `[0, m)` for positive `m`, in `(m, 0]` for negative `m`. -/
def inverse? (a m : Int) : Except NoInverse Int :=
  if m = 0 then .error .zeroModulus
  else
    let n := m.natAbs
    let (g, s) := bezout n (a % n).toNat 0 1
    if g ≠ 1 then .error .notInvertible
    else
      let r := s % n
      .ok (if m < 0 ∧ r ≠ 0 then r + m else r)

/-- `a ^ e` modulo `m`. -/
def powMod (m a e : Nat) : Nat :=
  if h : e = 0 then 1 % m
  else
    let half := powMod m a (e / 2)
    if e % 2 = 0 then half * half % m else half * half % m * a % m
termination_by e
decreasing_by omega

end Arith

end Quorum
