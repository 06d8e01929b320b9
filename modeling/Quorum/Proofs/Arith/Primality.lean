import Mathlib.NumberTheory.LucasPrimality
import Quorum.Proofs.Arith.Inverse

/-!
# Primality of the field and the order of P-256

Lucas's test shows a number prime from a root of full order and the prime factors of its
predecessor. Large factors are shown prime the same way, small ones by trial division. A
certificate is a list of such steps, each of which may use the primes of the steps before it, and
is checked by evaluation.

## Main definitions

* `Lucas` — one step of a certificate
* `Lucas.certifies` — whether every step of a certificate holds

## Main results

* `Lucas.prime_of_certifies` — a certified number is prime
* `Curve.p256_prime`, `Curve.p256_order_prime` — the field prime and the order of P-256 are prime
-/

namespace Quorum

open Arith

/-- What shows a number prime: a root of full order and the prime factors of the predecessor. -/
structure Lucas where
  number : ℕ
  /-- A number whose order modulo `number` is `number - 1`. -/
  root : ℕ
  /-- The prime factors of the predecessor, each as often as it occurs. -/
  factors : List ℕ

namespace Lucas

/-- Whether a number below 40000 is shown prime by trial division. -/
def isSmallPrime (q : ℕ) : Bool :=
  2 ≤ q && q < 40000 && (List.range 200).all fun d => d < 2 || q < d * d || q % d != 0

/-- Whether the test succeeds, when the numbers in `known` are taken to be prime. -/
def holds (known : List ℕ) (l : Lucas) : Bool :=
  l.factors.prod + 1 == l.number &&
    l.factors.all (fun q => known.contains q || isSmallPrime q) &&
    powMod l.number l.root (l.number - 1) == 1 &&
    l.factors.all fun q => powMod l.number l.root ((l.number - 1) / q) != 1

/-- Whether every step of a certificate holds, given the numbers of the steps before it. -/
def certifies (known : List ℕ) : List Lucas → Bool
  | [] => true
  | l :: rest => l.holds known && certifies (l.number :: known) rest

/-- Trial division shows a number prime. -/
private theorem prime_of_isSmallPrime {q : ℕ} (passed : isSmallPrime q = true) : q.Prime := by
  simp only [isSmallPrime, Bool.and_eq_true, decide_eq_true_eq, List.all_eq_true, List.mem_range,
    Bool.or_eq_true, bne_iff_ne, ne_eq] at passed
  obtain ⟨⟨large, small⟩, noDivisor⟩ := passed
  refine Nat.prime_def_le_sqrt.mpr ⟨large, fun d proper within divides => ?_⟩
  have square : d * d ≤ q := Nat.le_sqrt.mp within
  rcases noDivisor d (by nlinarith) with (tiny | beyond) | remainder
  · omega
  · omega
  · exact remainder (Nat.mod_eq_zero_of_dvd divides)

/-- In the ring of residues a power is one exactly when repeated squaring gives one. -/
private theorem pow_eq_one_iff {m : ℕ} (large : 1 < m) (a e : ℕ) :
    (a : ZMod m) ^ e = 1 ↔ powMod m a e = 1 := by
  rw [powMod_eq, ← Nat.cast_pow, ← Nat.cast_one, ZMod.natCast_eq_natCast_iff',
    Nat.mod_eq_of_lt large]

/-- A number that passes the test over known primes is prime. -/
theorem prime_of_holds {known : List ℕ} {l : Lucas} (primes : ∀ q ∈ known, q.Prime)
    (passed : l.holds known = true) : l.number.Prime := by
  simp only [holds, Bool.and_eq_true, beq_iff_eq, List.all_eq_true, Bool.or_eq_true,
    List.contains_iff_mem, bne_iff_ne, ne_eq] at passed
  obtain ⟨⟨⟨product, factorsPrime⟩, full⟩, proper⟩ := passed
  have factorPrime : ∀ q ∈ l.factors, q.Prime := fun q member =>
    (factorsPrime q member).elim (primes q) prime_of_isSmallPrime
  have large : 1 < l.number := by
    have := List.prod_pos fun q member => (factorPrime q member).pos
    omega
  refine lucas_primality l.number (l.root : ZMod l.number) ?_ ?_
  · exact (pow_eq_one_iff large _ _).mpr full
  -- A prime divisor of the predecessor is one of the listed factors.
  · intro q prime divides isOne
    rw [show l.number - 1 = l.factors.prod by omega] at divides
    obtain ⟨factor, member, dividesFactor⟩ := (Prime.dvd_prod_iff prime.prime).mp divides
    rw [(Nat.prime_dvd_prime_iff_eq prime (factorPrime factor member)).mp dividesFactor] at isOne
    exact proper factor member ((pow_eq_one_iff large _ _).mp isOne)

/-- Every number of a certificate is prime, given that the known numbers are. -/
theorem forall_prime_of_certifies {known : List ℕ} {steps : List Lucas}
    (primes : ∀ q ∈ known, q.Prime) (passed : certifies known steps = true) :
    ∀ l ∈ steps, l.number.Prime := by
  induction steps generalizing known with
  | nil => simp
  | cons first rest ih =>
    simp only [certifies, Bool.and_eq_true] at passed
    -- The first number joins the known primes for the steps after it.
    have firstPrime := prime_of_holds primes passed.1
    have restPrime := ih (List.forall_mem_cons.mpr ⟨firstPrime, primes⟩) passed.2
    exact List.forall_mem_cons.mpr ⟨firstPrime, restPrime⟩

/-- A number that a certificate ends with, or passes through, is prime. -/
theorem prime_of_certifies {steps : List Lucas} (passed : certifies [] steps = true) {q : ℕ}
    (member : q ∈ steps.map number) : q.Prime := by
  obtain ⟨l, inSteps, rfl⟩ := List.mem_map.mp member
  exact forall_prime_of_certifies (by simp) passed l inSteps

end Lucas

namespace Curve

/-- A certificate for the field prime of P-256. -/
def p256FieldCertificate : List Lucas :=
  [⟨65537, 3, List.replicate 16 2⟩, ⟨78283, 3, [2, 3, 3, 4349]⟩, ⟨490463, 14, [2, 7, 53, 661]⟩,
    ⟨704251, 2, [2, 3, 3, 5, 5, 5, 313]⟩, ⟨6700417, 5, [2, 2, 2, 2, 2, 2, 2, 3, 17449]⟩,
    ⟨204061199, 11, [2, 11, 23, 107, 3769]⟩, ⟨34282281433, 17, [2, 2, 2, 3, 7, 204061199]⟩,
    ⟨66417393611, 6, [2, 5, 53, 173, 197, 3677]⟩, ⟨11290956913871, 13, [2, 5, 17, 66417393611]⟩,
    ⟨46076956964474543, 5, [2, 23, 18169, 78283, 704251]⟩,
    ⟨774023187263532362759620327192479577272145303, 3,
      [2, 3, 3, 2411, 34282281433, 11290956913871, 46076956964474543]⟩,
    ⟨835945042244614951780389953367877943453916927241, 11,
      [2, 2, 2, 3, 3, 3, 5, 774023187263532362759620327192479577272145303]⟩,
    ⟨p256.p, 6, [2, 3, 5, 5, 17, 257, 641, 1531, 65537, 490463, 6700417,
      835945042244614951780389953367877943453916927241]⟩]

/-- A certificate for the order of P-256. -/
def p256OrderCertificate : List Lucas :=
  [⟨104471, 11, [2, 5, 31, 337]⟩, ⟨126241, 7, [2, 2, 2, 2, 2, 3, 5, 263]⟩,
    ⟨155317, 5, [2, 2, 3, 7, 43, 43]⟩, ⟨3969899, 2, [2, 19, 104471]⟩,
    ⟨9350987, 2, [2, 17, 229, 1201]⟩, ⟨187019741, 2, [2, 2, 5, 9350987]⟩,
    ⟨191039911, 3, [2, 3, 5, 41, 155317]⟩, ⟨311245691, 2, [2, 5, 7, 17, 29, 29, 311]⟩,
    ⟨622491383, 5, [2, 311245691]⟩, ⟨1002328039319, 19, [2, 126241, 3969899]⟩,
    ⟨208150935158385979, 2, [2, 3, 11, 43, 127, 3023, 191039911]⟩,
    ⟨2624747550333869278416773953, 7,
      [2, 2, 2, 2, 2, 2, 3, 3, 1297, 16879, 208150935158385979]⟩,
    ⟨p256.order, 7, [2, 2, 2, 2, 3, 71, 131, 373, 3407, 17449, 38189, 187019741, 622491383,
      1002328039319, 2624747550333869278416773953]⟩]

/-- The field prime of P-256 is prime. -/
theorem p256_prime : p256.p.Prime := by
  have passed : Lucas.certifies [] p256FieldCertificate = true := by decide +kernel
  exact Lucas.prime_of_certifies passed (by simp [p256FieldCertificate])

/-- The order of P-256 is prime. -/
theorem p256_order_prime : p256.order.Prime := by
  have passed : Lucas.certifies [] p256OrderCertificate = true := by decide +kernel
  exact Lucas.prime_of_certifies passed (by simp [p256OrderCertificate])

end Curve

end Quorum
