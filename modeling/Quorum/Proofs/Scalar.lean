import Quorum.Proofs.Curve.Sec1
import Quorum.Proofs.Outcome
import Quorum.Scalar

/-!
# Scalars and transcripts are total where their fields fit

A scalar survives being written as 32 bytes. A transcript has a challenge exactly when every part
of it fits behind its length.

## Main definitions

* `P256` — the points of P-256, a vector space over the field of scalars
* `baseMultiple` — a multiple of the base point
* `Transcript.Fits` — every part fits behind its length

## Main results

* `cast_eq_of_baseMultiple_eq` — a multiple of the base point tells its scalar
* `Scalar.ofBytes_toBytes` — a written scalar is read back as its residue
* `Scalar.toBytes_of_ofBytes`, `Scalar.toBytes_inj` — a scalar has one written form of its own
* `Scalar.cast_ofDraw_ne_zero` — a drawn scalar is not zero
* `Transcript.exists_bytes` — what a challenge is the hash of
* `Transcript.challenge_of_fits`, `Transcript.challenge_of_not_fits` — when there is a challenge
-/

namespace Quorum

/-- The points of P-256. -/
abbrev P256 : Type := Curve.p256.Element

theorem order_pos : 0 < order := Curve.PrimeOrder.order_prime.pos

/-- The multiple of the base point by a scalar. -/
noncomputable def baseMultiple (a : ℤ) : P256 := (a : ZMod order) • Curve.Element.base

theorem mulBase_eq_baseMultiple (a : ℤ) : Curve.p256.mulBase a = .ok (baseMultiple a).point :=
  Curve.mulBase_eq_smul Curve.p256 a

theorem baseMultiple_ne_zero {a : ℤ} (nonzero : (a : ZMod order) ≠ 0) : baseMultiple a ≠ 0 :=
  smul_ne_zero nonzero Curve.Element.base_ne_zero

/-- A multiple of the base point tells its scalar. -/
theorem cast_eq_of_baseMultiple_eq {a b : ℤ} (same : baseMultiple a = baseMultiple b) :
    (a : ZMod order) = b :=
  smul_left_injective (ZMod order) (Curve.Element.base_ne_zero (E := Curve.p256)) same

namespace Scalar

/-- A written scalar is read back as its residue. -/
theorem ofBytes_toBytes (k : ℤ) : ofBytes (toBytes k) = .ok (k % order).toNat := by
  have positive : (0 : ℤ) < order := by exact_mod_cast order_pos
  have short : order < 256 ^ 32 := by decide +kernel
  have below : (k % order).toNat < order := by
    have := Int.emod_lt_of_pos k positive
    omega
  have value : Bytes.toNat (toBytes k) = (k % order).toNat := by
    rw [toBytes, Bytes.toNat_ofNat, Nat.mod_eq_of_lt (below.trans short)]
  rw [ofBytes, if_neg (by simp [toBytes]), value, if_neg (by omega)]

/-- Reduced scalars are told apart by their written forms. -/
theorem toBytes_inj {x y : ℤ} (x_range : 0 ≤ x ∧ x < order) (y_range : 0 ≤ y ∧ y < order)
    (same : toBytes x = toBytes y) : x = y := by
  have read := congrArg ofBytes same
  rw [ofBytes_toBytes, ofBytes_toBytes, Except.ok.injEq, Int.emod_eq_of_lt x_range.1 x_range.2,
    Int.emod_eq_of_lt y_range.1 y_range.2] at read
  omega

/-- The residue that is read back is the scalar in the field of scalars. -/
theorem cast_residue (k : ℤ) : (((k % order).toNat : ℤ) : ZMod order) = k := by
  have nonzero : (order : ℤ) ≠ 0 := by exact_mod_cast order_pos.ne'
  rw [Int.toNat_of_nonneg (Int.emod_nonneg k nonzero), ZMod.intCast_mod]

/-- A number strictly between zero and the order is not zero in the field of scalars. -/
theorem cast_ne_zero {k : ℤ} (positive : 0 < k) (below : k < order) : (k : ZMod order) ≠ 0 := by
  rw [ne_eq, ZMod.intCast_zmod_eq_zero_iff_dvd]
  exact fun divides => absurd (Int.le_of_dvd positive divides) (by omega)

/-- Numbers below the order that are the same scalar are the same. -/
theorem eq_of_natCast_eq {a b : ℕ} (a_lt : a < order) (b_lt : b < order)
    (same : (a : ZMod order) = b) : a = b := by
  have residues := (ZMod.natCast_eq_natCast_iff' a b order).mp same
  rwa [Nat.mod_eq_of_lt a_lt, Nat.mod_eq_of_lt b_lt] at residues

theorem ofDraw_pos (v : ℕ) : 0 < ofDraw v := Nat.succ_pos _

theorem ofDraw_lt (v : ℕ) : ofDraw v < order := by
  have large : 1 < order := Curve.PrimeOrder.order_prime.one_lt
  have := Nat.mod_lt v (show 0 < order - 1 by omega)
  rw [ofDraw]
  omega

/-- A drawn scalar is not zero. -/
theorem cast_ofDraw_ne_zero (v : ℕ) : ((ofDraw v : ℤ) : ZMod order) ≠ 0 :=
  cast_ne_zero (by exact_mod_cast ofDraw_pos v) (by exact_mod_cast ofDraw_lt v)

/-- What can be read as a scalar has 32 bytes. -/
theorem length_of_ofBytes {data : Bytes} {k : ℕ} (read : ofBytes data = .ok k) :
    data.length = 32 := by
  by_contra other
  simp [ofBytes, other] at read

/-- What can be read as a scalar is the value of the bytes, which is below the order. -/
theorem value_of_ofBytes {data : Bytes} {k : ℕ} (read : ofBytes data = .ok k) :
    Bytes.toNat data = k ∧ k < order := by
  rw [ofBytes, if_neg (not_not.mpr (length_of_ofBytes read))] at read
  split at read
  · cases read
  · next small =>
    obtain rfl := Except.ok.inj read
    exact ⟨rfl, not_le.mp small⟩

theorem lt_of_ofBytes {data : Bytes} {k : ℕ} (read : ofBytes data = .ok k) : k < order :=
  (value_of_ofBytes read).2

/-- A scalar has one written form: whatever is read as a scalar is what is written for it. -/
theorem toBytes_of_ofBytes {data : Bytes} {k : ℕ} (read : ofBytes data = .ok k) :
    toBytes k = data := by
  obtain ⟨value, below⟩ := value_of_ofBytes read
  have residue : ((k : ℤ) % order).toNat = Bytes.toNat data := by
    rw [Int.emod_eq_of_lt (Int.natCast_nonneg k) (by exact_mod_cast below), Int.toNat_natCast,
      value]
  rw [toBytes, residue, ← length_of_ofBytes read, Bytes.ofNat_toNat]

end Scalar

theorem frame_of_lt {width : ℕ} {b : Bytes} (short : b.length < 256 ^ width) :
    frame width b = .ok (Bytes.ofNat width b.length ++ b) := by
  simp [frame, Bytes.framed?, short]

theorem frame_of_le {width : ℕ} {b : Bytes} (long : 256 ^ width ≤ b.length) :
    frame width b = .error .tooBig := by
  simp [frame, Bytes.framed?, not_lt.mpr long]

/-- Parts that fit behind their lengths are framed. -/
theorem frameAll_of_fit {parts : List Bytes} (fit : ∀ part ∈ parts, part.length < 256 ^ 4) :
    ∃ framed, frameAll parts = .ok framed := by
  induction parts with
  | nil => exact ⟨[], rfl⟩
  | cons part parts ih =>
    obtain ⟨first, rest⟩ := List.forall_mem_cons.mp fit
    obtain ⟨framed, isOk⟩ := ih rest
    exact ⟨_, by rw [frameAll, frame_of_lt first, isOk]; rfl⟩

/-- One part that does not fit is refused. -/
theorem frameAll_of_not_fit {parts : List Bytes}
    (long : ∃ part ∈ parts, 256 ^ 4 ≤ part.length) : frameAll parts = .error .tooBig := by
  induction parts with
  | nil => simp at long
  | cons part parts ih =>
    rcases Nat.lt_or_ge part.length (256 ^ 4) with fits | tooLong
    · have later : ∃ part ∈ parts, 256 ^ 4 ≤ part.length := by
        obtain ⟨other, member, length⟩ := long
        rcases List.mem_cons.mp member with rfl | member
        · omega
        · exact ⟨other, member, length⟩
      rw [frameAll, frame_of_lt fits, ih later]
      rfl
    · rw [frameAll, frame_of_le tooLong]
      rfl

namespace Transcript

/-- The domain and every part fit behind their lengths. -/
structure Fits (t : Transcript) : Prop where
  /-- The domain fits behind two bytes. -/
  domain : t.domain.length < 256 ^ 2
  /-- Every part fits behind four bytes. -/
  parts : ∀ part ∈ t.parts, part.length < 256 ^ 4

/-- A transcript whose parts fit is hashed to its challenge. -/
theorem exists_bytes {t : Transcript} (fits : t.Fits) :
    ∃ b, t.bytes = .ok b ∧ t.challenge = .ok (Bytes.toNat (sha512 b) % order) := by
  obtain ⟨framed, isOk⟩ := frameAll_of_fit fits.parts
  have hashed : t.bytes = .ok (Bytes.ofNat 2 t.domain.length ++ t.domain ++ framed) := by
    rw [bytes, frame_of_lt fits.domain, isOk]
    rfl
  exact ⟨_, hashed, by rw [challenge, hashed]; rfl⟩

/-- A transcript whose parts fit has a challenge. -/
theorem challenge_of_fits {t : Transcript} (fits : t.Fits) : ∃ e, t.challenge = .ok e := by
  obtain ⟨b, -, isOk⟩ := exists_bytes fits
  exact ⟨_, isOk⟩

/-- A transcript with a part that does not fit has none. -/
theorem challenge_of_not_fits {t : Transcript} (notFits : ¬t.Fits) :
    t.challenge = .error .tooBig := by
  rcases Nat.lt_or_ge t.domain.length (256 ^ 2) with short | long
  · have later : ∃ part ∈ t.parts, 256 ^ 4 ≤ part.length := by
      by_contra none
      push Not at none
      exact notFits ⟨short, none⟩
    rw [challenge, bytes, frame_of_lt short, frameAll_of_not_fit later]
    rfl
  · rw [challenge, bytes, frame_of_le long]
    rfl

theorem fits_of_challenge {t : Transcript} {e : ℕ} (isOk : t.challenge = .ok e) : t.Fits := by
  by_contra notFits
  rw [challenge_of_not_fits notFits] at isOk
  cases isOk

/-- A challenge is a reduced scalar. -/
theorem lt_of_challenge {t : Transcript} {e : ℕ} (isOk : t.challenge = .ok e) : e < order := by
  obtain ⟨b, -, hashed⟩ := Outcome.bind_eq_ok.mp isOk
  rw [← Except.ok.inj hashed]
  exact Nat.mod_lt _ order_pos

end Transcript

end Quorum
