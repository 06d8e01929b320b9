import Quorum.Curve.Sec1
import Quorum.Proofs.Bytes
import Quorum.Proofs.Curve.Order

/-!
# Encoded points are read back

Modulo a prime that is three modulo four, the power with exponent `(p + 1) / 4` is a root of every
square. The parity of the ordinate tells its two roots apart, so the compressed form of a point
that is not at infinity is read back as the point, and whatever is read is a point of the curve.

## Main definitions

* `Curve.Encodable` — the prime is three modulo four and fits in 32 bytes
* `Curve.Element.encoded`, `Curve.Element.uncompressed` — the two forms of a point

## Main results

* `Curve.compress_point`, `Curve.uncompress_point` — writing coordinates gives the two forms
* `Curve.decode_encoded`, `Curve.decode_uncompressed` — either form is read back as the point
* `Curve.exists_of_decode` — what is read is a point of the curve that is not at infinity
* `Curve.eq_form_of_decode` — what is read is one of the two forms of the point
-/

namespace Quorum

namespace Curve

/-- A smooth curve whose prime is three modulo four and fits in 32 bytes. -/
class Encodable (E : Curve) : Prop extends Smooth E where
  /-- The prime is three modulo four. -/
  residue : E.p % 4 = 3
  /-- Coordinates fit in 32 bytes. -/
  short : E.p ≤ 256 ^ 32

instance : p256.Encodable where
  residue := by decide
  short := by decide +kernel

variable {E : Curve} [E.Encodable]

/-- Every square has a root, which is found. -/
theorem sqrt?_eq_some {n : ℕ} {y : ZMod E.p} (square : y ^ 2 = n) :
    ∃ r, E.sqrt? n = some r ∧ r < E.p ∧ (r : ZMod E.p) ^ 2 = n := by
  have positive : 0 < E.p := (Smooth.prime (E := E)).pos
  have residue := Encodable.residue (E := E)
  set r := Arith.powMod E.p (n % E.p) ((E.p + 1) / 4) with r_def
  -- The prime is three modulo four, so this power of a square is a root of it.
  have root : (r : ZMod E.p) ^ 2 = n := by
    rw [r_def, Arith.powMod_eq, ZMod.natCast_mod, Nat.cast_pow, ZMod.natCast_mod, ← pow_mul,
      ← square, ← pow_mul, show 2 * ((E.p + 1) / 4 * 2) = E.p + 1 by omega, pow_succ, ZMod.pow_card,
      pow_two]
  refine ⟨r, ?_, ?_, root⟩
  · rw [sqrt?, ← r_def, if_pos]
    refine (ZMod.natCast_eq_natCast_iff' _ _ _).mp ?_
    push_cast
    rw [← pow_two, root]
  · rw [r_def, Arith.powMod_eq]
    exact Nat.mod_lt _ positive

/-- What is found is a root. -/
theorem sq_of_sqrt? {n r : ℕ} (found : E.sqrt? n = some r) :
    r < E.p ∧ (r : ZMod E.p) ^ 2 = n := by
  simp only [sqrt?] at found
  split at found
  · next square =>
    obtain rfl := Option.some.inj found
    have congruent := (ZMod.natCast_eq_natCast_iff' _ _ _).mpr square
    push_cast at congruent
    refine ⟨?_, by rw [pow_two, congruent]⟩
    rw [Arith.powMod_eq]
    exact Nat.mod_lt _ (Smooth.prime (E := E)).pos
  · cases found

/-- A root and its opposite have the same square. -/
theorem sq_of_candidate {r : ℕ} (r_lt : r < E.p) (keep : Bool) {z : ℕ}
    (z_def : z = if keep then r else (E.p - r) % E.p) :
    z < E.p ∧ (z : ZMod E.p) ^ 2 = (r : ZMod E.p) ^ 2 := by
  cases keep
  · refine ⟨z_def ▸ Nat.mod_lt _ (by omega), ?_⟩
    rw [z_def, if_neg Bool.false_ne_true, ZMod.natCast_mod, Nat.cast_sub r_lt.le,
      ZMod.natCast_self, zero_sub, neg_sq]
  · exact ⟨z_def ▸ r_lt, by rw [z_def, if_pos rfl]⟩

theorem cast_rightSide (x : ℕ) :
    (E.rightSide x : ZMod E.p) = (x : ZMod E.p) ^ 3 + E.a * x + E.b := by
  rw [rightSide, ZMod.natCast_mod]
  push_cast
  ring

/-- The abscissa and the parity of the ordinate of a point give the point. -/
theorem lift?_eq_some {x y : ℤ} (reduced : E.Reduced (.affine x y)) :
    E.lift? x.toNat (y % 2 == 1) = some (.affine x y) := by
  obtain ⟨x_nonneg, x_lt, y_nonneg, y_lt, onCurve⟩ := reduced
  have odd := odd_prime (E := E)
  have x_cast : (x.toNat : ℤ) = x := Int.toNat_of_nonneg x_nonneg
  have square : (y : ZMod E.p) ^ 2 = (E.rightSide x.toNat : ℕ) := by
    rw [cast_rightSide, equation_iff.mp (contains_iff.mp onCurve), ← Int.cast_natCast x.toNat,
      x_cast]
  obtain ⟨r, found, r_lt, root⟩ := sqrt?_eq_some square
  simp only [lift?, found]
  set z := if (r % 2 == 1) == (y % 2 == 1) then r else (E.p - r) % E.p with z_def
  obtain ⟨z_lt, z_root⟩ := sq_of_candidate r_lt _ z_def
  rw [root, ← square] at z_root
  -- The candidate has the wanted parity unless it is zero, and then so is the ordinate.
  have z_eq : (z : ℤ) = y := by
    rcases Nat.eq_zero_or_pos r with zero | positive
    · have z_zero : z = 0 := by
        rw [z_def, zero, Nat.sub_zero, Nat.mod_self, ite_self]
      have y_zero : (y : ZMod E.p) = 0 := by
        rw [z_zero, Nat.cast_zero, zero_pow two_ne_zero] at z_root
        exact pow_eq_zero_iff two_ne_zero |>.mp z_root.symm
      have := eq_of_cast_eq y_nonneg y_lt le_rfl (by omega) (by rw [y_zero, Int.cast_zero])
      omega
    · refine eq_of_sq_eq (by omega) (by omega) y_nonneg y_lt (by exact_mod_cast z_root) ?_
      rw [z_def]
      split
      · next same =>
        rw [beq_iff_eq, Bool.eq_iff_iff, beq_iff_eq, beq_iff_eq] at same
        omega
      · next other =>
        rw [beq_iff_eq, Bool.eq_iff_iff, beq_iff_eq, beq_iff_eq] at other
        rw [Nat.mod_eq_of_lt (by omega)]
        omega
  have parity : ((z % 2 == 1) == (y % 2 == 1)) = true := by
    rw [beq_iff_eq, Bool.eq_iff_iff, beq_iff_eq, beq_iff_eq]
    omega
  rw [if_pos parity, z_eq, x_cast]

/-- What is found for an abscissa and a parity is a point of the curve. -/
theorem reduced_of_lift? {x : ℕ} (x_lt : x < E.p) {odd : Bool} {P : Point}
    (found : E.lift? x odd = some P) : E.Reduced P ∧ P ≠ .infinity := by
  simp only [lift?] at found
  split at found
  · cases found
  · next r root =>
    obtain ⟨r_lt, square⟩ := sq_of_sqrt? root
    obtain ⟨z_lt, z_root⟩ := sq_of_candidate r_lt ((r % 2 == 1) == odd) rfl
    rw [square, cast_rightSide] at z_root
    generalize (if (r % 2 == 1) == odd then r else (E.p - r) % E.p) = z at found z_lt z_root
    split at found
    · obtain rfl := Option.some.inj found
      refine ⟨⟨by omega, by omega, by omega, by exact_mod_cast z_lt, ?_⟩, Point.noConfusion⟩
      rw [contains_iff, equation_iff]
      exact_mod_cast z_root
    · cases found

omit [E.Encodable] in
/-- What is found has the abscissa and the parity that were asked for. -/
theorem coordinates_of_lift? {x : ℕ} {odd : Bool} {P : Point} (found : E.lift? x odd = some P) :
    ∃ y : ℕ, P = .affine x y ∧ (y % 2 == 1) = odd := by
  simp only [lift?] at found
  split at found
  · cases found
  · next r root =>
    generalize (if (r % 2 == 1) == odd then r else (E.p - r) % E.p) = z at found
    split at found
    · next parity =>
      obtain rfl := Option.some.inj found
      exact ⟨z, rfl, beq_iff_eq.mp parity⟩
    · cases found

namespace Element

/-- The compressed form of a point. -/
def encoded : E.Element → Bytes
  | ⟨.infinity, _⟩ => []
  | ⟨.affine x y, _⟩ => UInt8.ofNat (2 + (y % 2).toNat) :: Bytes.ofNat 32 x.toNat

/-- The uncompressed form of a point. -/
def uncompressed : E.Element → Bytes
  | ⟨.infinity, _⟩ => []
  | ⟨.affine x y, _⟩ => uncompressedBytes x.toNat y.toNat

theorem length_encoded {P : E.Element} (nonzero : P ≠ 0) : P.encoded.length = 33 := by
  obtain ⟨_ | ⟨x, y⟩, reduced⟩ := P
  · exact absurd rfl nonzero
  · simp [encoded]

/-- The uncompressed form of a point that is not at infinity starts with its form byte and is longer
than the compressed form. -/
theorem exists_uncompressed_eq {P : E.Element} (nonzero : P ≠ 0) :
    ∃ rest, P.uncompressed = 4 :: rest ∧ rest.length = 64 := by
  obtain ⟨_ | ⟨x, y⟩, reduced⟩ := P
  · exact absurd rfl nonzero
  · refine ⟨Bytes.ofNat 32 x.toNat ++ Bytes.ofNat 32 y.toNat, rfl, ?_⟩
    rw [List.length_append, Bytes.length_ofNat, Bytes.length_ofNat]

end Element

/-- Compressing the coordinates of a point that is not at infinity gives its compressed form. -/
theorem compress_point {P : E.Element} (nonzero : P ≠ 0) :
    compress P.point = .ok P.encoded := by
  obtain ⟨_ | ⟨x, y⟩, reduced⟩ := P
  · exact absurd rfl nonzero
  · obtain ⟨x_nonneg, x_lt, -⟩ := reduced
    have short : (E.p : ℤ) ≤ 256 ^ 32 := by exact_mod_cast Encodable.short (E := E)
    have fits : fieldBytes x = .ok (Bytes.ofNat 32 x.toNat) := by
      rw [fieldBytes, Nat.pow_eq, if_neg (by omega), if_neg (by omega)]
    simp only [compress, fits]
    rfl

/-- Writing the coordinates of a point that is not at infinity in full gives its uncompressed
form. -/
theorem uncompress_point {P : E.Element} (nonzero : P ≠ 0) :
    E.uncompress P.point = .ok P.uncompressed := by
  obtain ⟨_ | ⟨x, y⟩, reduced⟩ := P
  · exact absurd rfl nonzero
  · obtain ⟨x_nonneg, x_lt, y_nonneg, y_lt, onCurve⟩ := reduced
    simp only [uncompress]
    rw [if_neg (by omega), if_neg (by simp [onCurve]), Int.emod_eq_of_lt x_nonneg x_lt,
      Int.emod_eq_of_lt y_nonneg y_lt]
    rfl

/-- The compressed form of a point that is not at infinity is read back as the point. -/
theorem decode_encoded {P : E.Element} (nonzero : P ≠ 0) : E.decode P.encoded = .ok P.point := by
  obtain ⟨_ | ⟨x, y⟩, reduced⟩ := P
  · exact absurd rfl nonzero
  · have short := Encodable.short (E := E)
    have x_read : Bytes.toNat (Bytes.ofNat 32 x.toNat) = x.toNat := by
      rw [Bytes.toNat_ofNat, Nat.mod_eq_of_lt]
      have := reduced.1
      have := reduced.2.1
      omega
    have x_lt : x.toNat < E.p := by
      have := reduced.1
      have := reduced.2.1
      omega
    have lifted := lift?_eq_some reduced
    rcases Int.emod_two_eq_zero_or_one y with even | odd
    · have lifted_even : E.lift? x.toNat false = some (.affine x y) := by simpa [even] using lifted
      simp [Element.encoded, decode, even, x_read, x_lt, lifted_even]
    · have lifted_odd : E.lift? x.toNat true = some (.affine x y) := by simpa [odd] using lifted
      simp [Element.encoded, decode, odd, x_read, x_lt, lifted_odd]

/-- The uncompressed form of a point that is not at infinity is read back as the point. -/
theorem decode_uncompressed {P : E.Element} (nonzero : P ≠ 0) :
    E.decode P.uncompressed = .ok P.point := by
  obtain ⟨_ | ⟨x, y⟩, reduced⟩ := P
  · exact absurd rfl nonzero
  · obtain ⟨x_nonneg, x_lt, y_nonneg, y_lt, onCurve⟩ := reduced
    have short := Encodable.short (E := E)
    have read (n : ℤ) (n_lt : n < E.p) : Bytes.toNat (Bytes.ofNat 32 n.toNat) = n.toNat := by
      rw [Bytes.toNat_ofNat, Nat.mod_eq_of_lt]
      omega
    have first : (Bytes.ofNat 32 x.toNat ++ Bytes.ofNat 32 y.toNat).take 32 =
        Bytes.ofNat 32 x.toNat := List.take_left' (Bytes.length_ofNat ..)
    have second : (Bytes.ofNat 32 x.toNat ++ Bytes.ofNat 32 y.toNat).drop 32 =
        Bytes.ofNat 32 y.toNat := List.drop_left' (Bytes.length_ofNat ..)
    have valid : E.contains x y = true ∧ x.toNat < E.p ∧ y.toNat < E.p := by
      exact ⟨onCurve, by omega, by omega⟩
    simp only [Element.uncompressed, uncompressedBytes, List.cons_append, decode, first, second,
      read x x_lt, read y y_lt, Int.toNat_of_nonneg x_nonneg, Int.toNat_of_nonneg y_nonneg]
    simp [valid]

/-- Whatever is read is a point of the curve that is not at infinity. -/
theorem exists_of_decode {data : Bytes} {P : Point} (read : E.decode data = .ok P) :
    ∃ Q : E.Element, Q ≠ 0 ∧ P = Q.point := by
  suffices E.Reduced P ∧ P ≠ .infinity from
    ⟨⟨P, this.1⟩, fun zero => this.2 (Element.eq_zero_iff.mp zero), rfl⟩
  obtain _ | ⟨form, rest⟩ := data
  · cases read
  simp only [decode] at read
  split at read
  · next compressed =>
    split at read
    · next valid =>
      split at read
      · next found =>
        obtain rfl := Except.ok.inj read
        exact reduced_of_lift? valid.2 found
      · cases read
    · cases read
  · split at read
    · split at read
      · next valid =>
        obtain rfl := Except.ok.inj read
        exact ⟨⟨by omega, by omega, by omega, by omega, valid.2.2.2⟩, Point.noConfusion⟩
      · cases read
    · cases read

omit [E.Encodable] in
/-- Whatever is read is the compressed or the uncompressed form of the point. -/
theorem eq_form_of_decode {data : Bytes} {Q : E.Element} (read : E.decode data = .ok Q.point) :
    data = Q.encoded ∨ data = Q.uncompressed := by
  obtain ⟨P, reduced⟩ := Q
  obtain _ | ⟨form, rest⟩ := data
  · cases read
  simp only [decode] at read
  split at read
  · next compressed =>
    left
    split at read
    · next valid =>
      split at read
      · next found =>
        obtain rfl := Except.ok.inj read
        obtain ⟨y, rfl, parity⟩ := coordinates_of_lift? found
        -- The form byte holds the parity of the ordinate.
        have form_eq : form = UInt8.ofNat (2 + ((y : ℤ) % 2).toNat) := by
          rcases compressed with rfl | rfl
          · have even : (y : ℤ) % 2 = 0 := by
              have : ¬y % 2 = 1 := by simpa using parity
              omega
            rw [even]
            rfl
          · have odd : (y : ℤ) % 2 = 1 := by
              have : y % 2 = 1 := by simpa using parity
              omega
            rw [odd]
            rfl
        rw [Element.encoded, ← form_eq, Int.toNat_natCast, Bytes.ofNat_toNat_of_length valid.1]
      · cases read
    · cases read
  · split at read
    · next full =>
      right
      split at read
      · next valid =>
        obtain rfl := Except.ok.inj read
        have first : (rest.take 32).length = 32 := by
          rw [List.length_take]
          omega
        have second : (rest.drop 32).length = 32 := by
          rw [List.length_drop]
          omega
        rw [Element.uncompressed, uncompressedBytes, Int.toNat_natCast, Int.toNat_natCast,
          Bytes.ofNat_toNat_of_length first, Bytes.ofNat_toNat_of_length second, List.cons_append,
          List.take_append_drop, full]
      · cases read
    · cases read

end Curve

end Quorum
