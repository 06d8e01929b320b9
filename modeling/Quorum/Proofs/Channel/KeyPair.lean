import Quorum.Channel.KeyPair
import Quorum.Proofs.Curve.Koblitz
import Quorum.Proofs.Outcome

/-!
# Two key pairs agree on one secret

The points of either curve are a vector space over its scalars. Each side multiplies the other's
point, which is a multiple of the base point, with its own secret, so both find the same point. It
is not at infinity, because neither secret is a multiple of the order.

## Main definitions

* `KeyPair.Sound` — the point belongs to the secret
* `Curve.Element.abscissa` — the shared secret that a point stands for

## Main results

* `KeyPair.agree_eq_ok` — agreement with an encoded point
* `KeyPair.Sound.agree` — both sides of an agreement find the same secret of 32 bytes
-/

namespace Quorum

open Curve (Element)

instance (c : ChannelCurve) : c.curve.PrimeOrder := by
  cases c with
  | k256 => exact inferInstanceAs Curve.k256.PrimeOrder
  | p256 => exact inferInstanceAs Curve.p256.PrimeOrder

instance (c : ChannelCurve) : c.curve.Encodable := by
  cases c with
  | k256 => exact inferInstanceAs Curve.k256.Encodable
  | p256 => exact inferInstanceAs Curve.p256.Encodable

/-- The abscissa of a point as 32 bytes. -/
def Curve.Element.abscissa {E : Curve} : E.Element → Bytes
  | ⟨.infinity, _⟩ => []
  | ⟨.affine x _, _⟩ => Bytes.ofNat 32 x.toNat

theorem Curve.Element.length_abscissa {E : Curve} [E.Smooth] {P : E.Element} (nonzero : P ≠ 0) :
    P.abscissa.length = 32 := by
  obtain ⟨_ | ⟨x, y⟩, reduced⟩ := P
  · exact absurd rfl nonzero
  · exact Bytes.length_ofNat ..

namespace KeyPair

variable {k l : KeyPair}

/-- The point that belongs to the secret of a pair. -/
noncomputable def element (k : KeyPair) : k.curve.curve.Element :=
  (k.secret : ZMod k.curve.curve.order) • (Element.base : k.curve.curve.Element)

/-- The secret lies in the range of the curve, and the point belongs to it. -/
structure Sound (k : KeyPair) : Prop where
  positive : 0 < k.secret
  below : k.secret < k.curve.curve.order
  point : k.point = k.element.point

theorem Sound.secret_ne (sound : k.Sound) : (k.secret : ZMod k.curve.curve.order) ≠ 0 := by
  rw [ne_eq, ZMod.intCast_zmod_eq_zero_iff_dvd]
  exact fun divides => absurd (Int.le_of_dvd sound.positive divides) (not_le.mpr sound.below)

theorem Sound.element_ne (sound : k.Sound) : k.element ≠ 0 :=
  smul_ne_zero sound.secret_ne Element.base_ne_zero

/-- A pair is made of every secret in the range of the curve. -/
theorem ofSecret_eq_ok_iff {c : ChannelCurve} {secret : ℤ} :
    ofSecret c secret = .ok k ↔ k.Sound ∧ k.curve = c ∧ k.secret = secret := by
  constructor
  · intro made
    rw [ofSecret] at made
    split at made
    · cases made
    split at made
    · cases made
    · next positive below =>
      rw [Curve.mulBase_eq_smul, Outcome.bind_ok] at made
      cases made
      exact ⟨⟨by simpa using positive, by simpa using below, rfl⟩, rfl, rfl⟩
  · rintro ⟨⟨positive, below, point⟩, rfl, rfl⟩
    rw [ofSecret, if_neg (not_le.mpr positive), if_neg (not_le.mpr below), Curve.mulBase_eq_smul,
      Outcome.bind_ok, ← element, ← point]

/-- A pair is made of every draw. -/
theorem exists_ofDraw (c : ChannelCurve) (v : ℕ) :
    ∃ k, ofDraw c v = .ok k ∧ k.Sound ∧ k.curve = c := by
  have large : 1 < c.curve.order := Curve.PrimeOrder.order_prime.one_lt
  have drawn : v % (c.curve.order - 1) < c.curve.order - 1 := Nat.mod_lt _ (by omega)
  have positive : (0 : ℤ) < (v % (c.curve.order - 1) + 1 : ℕ) := by omega
  have below : ((v % (c.curve.order - 1) + 1 : ℕ) : ℤ) < c.curve.order := by omega
  obtain ⟨k, made⟩ : ∃ k, ofDraw c v = .ok k := by
    rw [ofDraw, ofSecret, if_neg (not_le.mpr positive), if_neg (not_le.mpr below),
      Curve.mulBase_eq_smul]
    exact ⟨_, rfl⟩
  obtain ⟨sound, curve, -⟩ := ofSecret_eq_ok_iff.mp made
  exact ⟨k, made, sound, curve⟩

/-- The public key is the point of the pair in uncompressed form. -/
theorem Sound.publicBytes (sound : k.Sound) : k.publicBytes = k.element.uncompressed := by
  have point := sound.point
  have nonzero := sound.element_ne
  generalize k.element = P at point nonzero
  obtain ⟨_ | ⟨x, y⟩, reduced⟩ := P
  · exact absurd rfl nonzero
  · rw [KeyPair.publicBytes, point]
    rfl

theorem Sound.decode_publicBytes (sound : k.Sound) :
    k.curve.curve.decode k.publicBytes = .ok k.point := by
  rw [sound.publicBytes, Curve.decode_uncompressed sound.element_ne, sound.point]

/-- Agreement gives the abscissa of the secret times the point. -/
theorem agree_eq_ok {P : k.curve.curve.Element} {data : Bytes}
    (nonzero : (k.secret : ZMod k.curve.curve.order) • P ≠ 0)
    (read : k.curve.curve.decode data = .ok P.point) :
    k.agree data = .ok ((k.secret : ZMod k.curve.curve.order) • P).abscissa := by
  rw [agree, read, Outcome.bind_ok, sharedWith, Curve.mul_eq_smul, Outcome.bind_ok]
  generalize (k.secret : ZMod k.curve.curve.order) • P = Q at nonzero
  obtain ⟨_ | ⟨x, y⟩, reduced⟩ := Q
  · exact absurd rfl nonzero
  · rfl

/-- Both sides of an agreement find the same secret of 32 bytes, in whatever form they are given
each other's point. -/
theorem Sound.agree (first : k.Sound) (second : l.Sound) (same : k.curve = l.curve)
    {ks ls : Bytes} (ks_read : k.curve.curve.decode ks = .ok k.point)
    (ls_read : l.curve.curve.decode ls = .ok l.point) :
    ∃ secret, k.agree ls = .ok secret ∧ l.agree ks = .ok secret ∧ secret.length = 32 := by
  obtain ⟨c, a, A⟩ := k
  obtain ⟨_, b, B⟩ := l
  obtain rfl : c = _ := same
  -- Each side multiplies the point of the other.
  have forward : KeyPair.agree ⟨c, a, A⟩ ls = .ok ((a : ZMod c.curve.order) •
      (b : ZMod c.curve.order) • (Element.base : c.curve.Element)).abscissa :=
    agree_eq_ok (smul_ne_zero first.secret_ne second.element_ne)
      (ls_read.trans (congrArg _ second.point))
  have backward : KeyPair.agree ⟨c, b, B⟩ ks = .ok ((b : ZMod c.curve.order) •
      (a : ZMod c.curve.order) • (Element.base : c.curve.Element)).abscissa :=
    agree_eq_ok (smul_ne_zero second.secret_ne first.element_ne)
      (ks_read.trans (congrArg _ first.point))
  rw [smul_comm] at backward
  exact ⟨_, forward, backward,
    Element.length_abscissa (smul_ne_zero first.secret_ne second.element_ne)⟩

end KeyPair

end Quorum
