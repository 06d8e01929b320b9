import Quorum.Proofs.Curve.Sec1

/-!
# The order of the Koblitz curve is prime

The field and the order of the base point are shown prime by certificates. The cubic `X³ + 7` has
no root in the field, so there is no point of order two and the order of the base point is the
number of points, as on P-256.

## Main results

* `Curve.k256_prime`, `Curve.k256_order_prime` — the field prime and the order are prime
* `Curve.k256_cubic_ne_zero` — there is no point of order two
-/

namespace Quorum

namespace Curve

/-- A certificate for the field prime of the Koblitz curve. -/
def k256FieldCertificate : List Lucas :=
  [⟨13331831, 13, [2, 5, 971, 1373]⟩,
    ⟨173378833005251801, 6, [2, 2, 2, 5, 5, 2621, 24809, 13331831]⟩,
    ⟨22149492674086928081353, 5, [2, 2, 2, 3, 5323, 173378833005251801]⟩,
    ⟨132896956044521568488119, 6, [2, 3, 22149492674086928081353]⟩,
    ⟨41201, 3, [2, 2, 2, 2, 5, 5, 103]⟩, ⟨96557, 2, [2, 2, 101, 239]⟩,
    ⟨1206781, 10, [2, 2, 3, 5, 20113]⟩, ⟨7240687, 3, [2, 3, 1206781]⟩,
    ⟨107590001, 3, [2, 2, 2, 2, 5, 5, 5, 5, 7, 29, 53]⟩,
    ⟨255515944373312847190720520512484175977, 3, [2, 2, 2, 7, 7, 11, 1627, 2657, 4423, 41201, 96557,
      7240687, 107590001]⟩,
    ⟨205115282021455665897114700593932402728804164701536103180137503955397371, 10, [2, 3, 5, 29, 29,
      31, 7723, 132896956044521568488119, 255515944373312847190720520512484175977]⟩,
    ⟨k256.p, 3, [2, 3, 7, 13441,
      205115282021455665897114700593932402728804164701536103180137503955397371]⟩]

/-- A certificate for the order of the Koblitz curve. -/
def k256OrderCertificate : List Lucas :=
  [⟨85831, 3, [2, 3, 5, 2861]⟩, ⟨4681609, 23, [2, 2, 2, 3, 97, 2011]⟩,
    ⟨107361793816595537, 3, [2, 2, 2, 2, 16699, 85831, 4681609]⟩,
    ⟨120233, 3, [2, 2, 2, 7, 19, 113]⟩, ⟨44706919, 6, [2, 3, 797, 9349]⟩,
    ⟨174723607534414371449, 3, [2, 2, 2, 17, 59, 4051, 120233, 44706919]⟩,
    ⟨305873, 3, [2, 2, 2, 2, 7, 2731]⟩, ⟨545358713, 5, [2, 2, 2, 41, 59, 28181]⟩,
    ⟨1627771, 3, [2, 3, 5, 29, 1871]⟩, ⟨297159362677, 2, [2, 2, 3, 3, 11, 461, 1627771]⟩,
    ⟨29047611873442575647497758179, 2, [2, 293, 305873, 545358713, 297159362677]⟩,
    ⟨341948486974166000522343609283189, 2, [2, 2, 3, 3, 3, 109, 29047611873442575647497758179]⟩,
    ⟨k256.order, 7, [2, 2, 2, 2, 2, 2, 3, 149, 631, 107361793816595537, 174723607534414371449,
      341948486974166000522343609283189]⟩]

/-- The field prime of the Koblitz curve is prime. -/
theorem k256_prime : k256.p.Prime := by
  have passed : Lucas.certifies [] k256FieldCertificate = true := by decide +kernel
  exact Lucas.prime_of_certifies passed (by simp [k256FieldCertificate])

/-- The order of the Koblitz curve is prime. -/
theorem k256_order_prime : k256.order.Prime := by
  have passed : Lucas.certifies [] k256OrderCertificate = true := by decide +kernel
  exact Lucas.prime_of_certifies passed (by simp [k256OrderCertificate])

instance : k256.Smooth where
  prime := k256_prime
  odd := by decide
  discriminant := by decide +kernel

/-- The inverse of `X ^ p - X` modulo the cubic of the Koblitz curve. -/
def k256FrobeniusInverse : Quadratic where
  c₀ := 0
  c₁ := 0
  c₂ := 0x676072c51d36ab00c84deb078e4ba0feef17a1f9626d375046274e4ab01347c8

/-- The Koblitz curve has no point of order two. -/
theorem k256_cubic_ne_zero (r : ZMod k256.p) : r ^ 3 + k256.a * r + k256.b ≠ 0 :=
  cubic_ne_zero (E := k256) k256FrobeniusInverse (by decide +kernel) r

instance : k256.PrimeOrder where
  order_prime := k256_order_prime
  base_reduced := by decide +kernel
  order_smul := order_smul_of_rootFree k256_cubic_ne_zero k256_order_prime (by decide)
    (by simp [Element.eq_zero_iff, Curve.base])
    (Element.order_smul_base (by decide +kernel) (by decide) (by decide +kernel))

instance : k256.Encodable where
  residue := by decide
  short := by decide +kernel

end Curve

end Quorum
