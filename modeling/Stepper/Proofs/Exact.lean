import Stepper.Proofs.Words

/-!
Sums and products that are not rounded. A number is taken apart into a sign, a significand and a
power of two, and what is made of two numbers is brought back to 53 bits. Where nothing but zeros is
cut off, nothing is lost: integers below `2^53` are subtracted as integers, and to multiply by one
is to do nothing. Numbers of `2^53` and more are still such numbers, or the integer just below, when
one is taken away.
-/
namespace Stepper.Binary64

open Float.Model Float.Model.UnpackedFloat

variable {x y z : Float} {m k : Nat} {e : Int} {s : Sign}

theorem mantissa_shift (em : ExtendedMantissa) (k : Nat) :
    (em >>> k).mantissa = em.mantissa / 2 ^ k := by
  induction k with
  | zero => exact (Nat.div_one _).symm
  | succ k ih =>
    change (em >>> k).mantissa / 2 = _
    rw [ih, Nat.div_div_eq_div_mul, Nat.pow_succ]

/-- Zeros that are cut off leave nothing behind. -/
theorem shift_mul_pow (m k : Nat) :
    (⟨m * 2 ^ k, false, false⟩ : ExtendedMantissa) >>> k = ⟨m, false, false⟩ := by
  induction k generalizing m with
  | zero => simp [HShiftRight.hShiftRight, Nat.repeat]
  | succ k ih =>
    change ((⟨m * 2 ^ (k + 1), false, false⟩ : ExtendedMantissa) >>> k).shiftRightOne = _
    rw [Nat.pow_succ', ← Nat.mul_assoc, ih]
    simp [ExtendedMantissa.shiftRightOne]

theorem roundedMantissa_bounds (em : ExtendedMantissa) :
    em.mantissa ≤ em.roundedMantissa ∧ em.roundedMantissa ≤ em.mantissa + 1 := by
  obtain ⟨m, r, s⟩ := em
  cases r <;> cases s <;>
    simp [ExtendedMantissa.roundedMantissa, ExtendedMantissa.accuracy, Accuracy.roundToNearestEven]
  omega

theorem targetExponent_eq (m : Nat) (e : Int) :
    Format.binary64.targetExponent (totalExponent m e) = max ((m.log2 : Int) + e - 52) (-1074) := by
  have hmin : Format.binary64.minExponent = -1074 := by decide
  simp only [Format.targetExponent, totalExponent, Format.mantissaBits, hmin]
  omega

theorem log2_mul_pow (hm : 0 < m) (k : Nat) : (m * 2 ^ k).log2 = m.log2 + k := by
  have hlo : 2 ^ m.log2 ≤ m := Nat.log2_self_le (Nat.ne_of_gt hm)
  have hhi : m < 2 ^ (m.log2 + 1) := Nat.lt_log2_self
  refine Number.log2_eq_of_le ?_ ?_
  · rw [Nat.pow_eq, Nat.pow_add]
    exact Nat.mul_le_mul_right _ hlo
  · rw [Nat.pow_eq, Nat.add_right_comm, Nat.pow_add]
    exact Nat.mul_lt_mul_of_pos_right hhi (Nat.two_pow_pos k)

/-- A significand of 53 bits. -/
def IsNormal (m : Nat) : Prop := 2 ^ 52 ≤ m ∧ m < 2 ^ 53

theorem IsNormal.pos (hm : IsNormal m) : 0 < m := Nat.lt_of_lt_of_le (by decide) hm.1

theorem IsNormal.log2 (hm : IsNormal m) : m.log2 = 52 := Number.log2_eq_of_le hm.1 hm.2

theorem shiftToTargetExponent_normal (hm : IsNormal m) (he : -1074 ≤ e) :
    shiftToTargetExponent .binary64 m e .exact = (⟨m, false, false⟩, e) := by
  have htarget : Format.binary64.targetExponent (totalExponent m e) = e := by
    rw [targetExponent_eq, hm.log2]
    omega
  rw [shiftToTargetExponent, htarget, shiftToExponent, Int.sub_self]
  exact congrArg _ (Int.add_zero e)

theorem shiftToTargetExponent_carry (he : -1074 ≤ e) :
    shiftToTargetExponent .binary64 (2 ^ 53) e .exact = (⟨2 ^ 52, false, false⟩, e + 1) := by
  have htarget : Format.binary64.targetExponent (totalExponent (2 ^ 53) e) = e + 1 := by
    rw [targetExponent_eq, Nat.log2_two_pow]
    omega
  have hone : e + 1 - e = 1 := by omega
  rw [shiftToTargetExponent, htarget, shiftToExponent, hone]
  rfl

/-- Rounding is done with the first cut, but for a carry into a 54th bit. -/
theorem roundWithAccuracy_eq {a : Accuracy} {em : ExtendedMantissa} {t : Int}
    (hfirst : shiftToTargetExponent .binary64 m e a = (em, t)) (ht : -1074 ≤ t) :
    (∀ h : IsNormal em.roundedMantissa,
      roundWithAccuracy .binary64 s m e a = .finite s em.roundedMantissa t h.pos) ∧
    (em.roundedMantissa = 2 ^ 53 →
      roundWithAccuracy .binary64 s m e a = .finite s (2 ^ 52) (t + 1) (by decide)) := by
  refine ⟨fun h => ?_, fun h => ?_⟩
  · simp only [roundWithAccuracy, hfirst, shiftToTargetExponent_normal h ht]
    exact dif_neg (Nat.ne_of_gt h.pos)
  · simp only [roundWithAccuracy, hfirst, h, shiftToTargetExponent_carry ht]
    exact dif_neg (by decide)

theorem roundWithAccuracy_exact (hm : IsNormal m) (he : -1074 ≤ e) (k : Nat) :
    roundWithAccuracy .binary64 s (m * 2 ^ k) (e - k) .exact = .finite s m e hm.pos := by
  have hlog := log2_mul_pow hm.pos k
  rw [hm.log2] at hlog
  have htarget : Format.binary64.targetExponent (totalExponent (m * 2 ^ k) (e - k)) = e := by
    rw [targetExponent_eq, hlog]
    omega
  have hshift : (e - (e - k)).toNat = k := by omega
  have hfirst : shiftToTargetExponent .binary64 (m * 2 ^ k) (e - k) .exact =
      (⟨m, false, false⟩, e) := by
    rw [shiftToTargetExponent, htarget, shiftToExponent, hshift]
    exact Prod.ext (shift_mul_pow m k) (Int.sub_add_cancel e k)
  exact (roundWithAccuracy_eq hfirst he).1 hm

theorem isNormal_significand {n : Nat} (hpos : 0 < n) (hn : n < Nat.pow 2 53) :
    IsNormal (Number.significand n) :=
  (Number.significand_bounds hpos hn).2

/-- A positive integer is brought to its significand, however many zeros follow it. -/
theorem round_whole {n : Nat} (hpos : 0 < n) (hn : n < Nat.pow 2 53) (j : Nat) :
    UnpackedFloat.round .binary64 s (n * 2 ^ j) (-j) =
      .finite s (Number.significand n) ((n.log2 : Int) - 52)
        (isNormal_significand hpos hn).pos := by
  obtain ⟨hlog, -, -⟩ := Number.significand_bounds hpos hn
  have hexact := roundWithAccuracy_exact (s := s) (isNormal_significand hpos hn)
    (e := (n.log2 : Int) - 52) (by omega)
  have htarget : Format.binary64.targetExponent (totalExponent (n * 2 ^ j) (-j)) =
      (n.log2 : Int) - 52 := by
    rw [targetExponent_eq, log2_mul_pow hpos]
    omega
  simp only [UnpackedFloat.round, htarget, decreaseExponent, Nat.shiftLeft_eq]
  obtain hj | hj := Nat.le_total j (52 - n.log2)
  · have hshift : (-(j : Int) - ((n.log2 : Int) - 52)).toNat = 52 - n.log2 - j := by omega
    have hsig : n * 2 ^ j * 2 ^ (52 - n.log2 - j) = Number.significand n * 2 ^ 0 := by
      rw [Nat.mul_assoc, ← Nat.pow_add, Nat.pow_zero, Nat.mul_one, Nat.add_sub_cancel' hj]
      rfl
    have hexponent : -(j : Int) - ((52 - n.log2 - j : Nat) : Int) =
        (n.log2 : Int) - 52 - ((0 : Nat) : Int) := by omega
    rw [hshift, hsig, hexponent]
    exact hexact 0
  · have hshift : (-(j : Int) - ((n.log2 : Int) - 52)).toNat = 0 := by omega
    have hsig : n * 2 ^ j * 2 ^ 0 = Number.significand n * 2 ^ (j - (52 - n.log2)) := by
      rw [Number.significand, Nat.pow_eq, Nat.mul_assoc _ _ (2 ^ (j - _)), ← Nat.pow_add,
        Nat.add_sub_cancel' hj, Nat.pow_zero, Nat.mul_one]
    have hexponent : -(j : Int) - ((0 : Nat) : Int) =
        (n.log2 : Int) - 52 - ((j - (52 - n.log2) : Nat) : Int) := by omega
    rw [hshift, hsig, hexponent]
    exact hexact _

/-- A number as arithmetic sees it. -/
def unpacked (x : Float) : UnpackedFloat := UnpackedFloat.unpack .binary64 x.toBits.toBitVec

theorem pack_unpacked (x : Float) : (unpacked x).pack .binary64 = x.toBits.toBitVec :=
  pack_unpack_of_valid x.toModel.valid

theorem eq_of_pack {u : UnpackedFloat} (hx : x.toBits.toBitVec = u.pack .binary64)
    (hy : unpacked y = u) : x = y := by
  rw [← hy, pack_unpacked] at hx
  exact Float.toBits_inj.mp (UInt64.toBitVec_inj.mp hx)

theorem sub_eq (h : unpacked z = UnpackedFloat.sub .binary64 (unpacked x) (unpacked y)) :
    x - y = z :=
  eq_of_pack rfl h

theorem mul_eq (h : unpacked z = UnpackedFloat.mul .binary64 (unpacked x) (unpacked y)) :
    x * y = z :=
  eq_of_pack rfl h

def signOf (negative : Bool) : Sign := if negative then .negative else .positive

/-- Both ways to take a number apart find the same. -/
theorem unpacked_of_decode {negative : Bool} (h : decode x = .finite negative m e) (hm : 0 < m) :
    unpacked x = .finite (signOf negative) m e hm := by
  obtain ⟨s, t, f, hx⟩ : ∃ (s : Sign) (t : BitVec 11) (f : BitVec 52),
      packComponents .binary64 s t f = x.toBits.toBitVec :=
    ⟨_, _, _, @packComponents_unpackSign_unpackExponent_unpackMantissa .binary64
      x.toBits.toBitVec⟩
  have hparts : partsOfBits x.toBits.toBitVec.toNat = .finite negative m e := h
  have hsign : signOf (s == .negative) = s := by cases s <;> rfl
  rw [← hx, partsOfBits_packComponents] at hparts
  rw [unpacked, ← hx, UnpackedFloat.unpack]
  simp only [unpackExponent_packComponents, unpackMantissa_packComponents,
    unpackSign_packComponents, Sign.ofBitVec_toBitVec]
  split at hparts
  · split at hparts <;> cases hparts
  · next hfinite =>
    rw [if_neg fun hmax => hfinite (by rw [hmax]; rfl)]
    split at hparts
    · next hzero =>
      obtain ⟨rfl, rfl, rfl⟩ := Parts.finite.inj hparts
      rw [if_pos (BitVec.eq_of_toNat_eq hzero), dif_neg fun hf => by rw [hf] at hm; cases hm]
      simp only [hzero, hsign]
      rfl
    · next hnormal =>
      obtain ⟨rfl, rfl, rfl⟩ := Parts.finite.inj hparts
      have hwhole : (1#1 ++ f).toNat = f.toNat + Nat.pow 2 52 := by
        rw [BitVec.toNat_append, ← Nat.shiftLeft_add_eq_or_of_lt f.isLt, Nat.add_comm]
        rfl
      rw [if_neg fun hzero => hnormal (by rw [hzero]; rfl)]
      simp only [hwhole, hsign]
      rfl

theorem ofInt_natCast (n : Nat) : ofInt n = ofNat n := by
  have hneg : ¬ (n : Int) < 0 := by omega
  rw [ofInt, decide_eq_false hneg]
  rfl

theorem unpacked_ofInt {n : Int} (hn : n ≠ 0) (h : n.natAbs < Nat.pow 2 53) :
    unpacked (ofInt n) = .finite (signOf (n < 0)) (Number.significand n.natAbs)
      ((n.natAbs.log2 : Int) - 52) (isNormal_significand (Int.natAbs_pos.mpr hn) h).pos :=
  unpacked_of_decode (decode_ofInt hn h) _

theorem unpacked_ofNat {n : Nat} (hpos : 0 < n) (h : n < Nat.pow 2 53) :
    unpacked (ofNat n) = .finite .positive (Number.significand n) ((n.log2 : Int) - 52)
      (isNormal_significand hpos h).pos :=
  unpacked_of_decode (Number.decode_ofNat hpos h) _

theorem unpacked_zero : unpacked (ofNat 0) = .zero .positive := by
  have hbits : (ofNat 0).toBits.toBitVec = packedZero .binary64 .positive := by decide
  rw [unpacked, hbits, unpack_packedZero]

theorem normalize_whole {n : Nat} (h : n < Nat.pow 2 53) (j : Nat) :
    UnpackedFloat.normalize .binary64 ((n * 2 ^ j : Nat) : Int) (-j) .positive =
      unpacked (ofNat n) := by
  obtain rfl | hpos := Nat.eq_zero_or_pos n
  · rw [Nat.zero_mul, unpacked_zero]
    rfl
  · have hgt : compare ((n * 2 ^ j : Nat) : Int) 0 = .gt :=
      Int.compare_eq_gt.mpr (Int.natCast_pos.mpr (Nat.mul_pos hpos (Nat.two_pow_pos j)))
    rw [UnpackedFloat.normalize, hgt, unpacked_ofNat hpos h]
    exact round_whole hpos h j

/-- Natural numbers below `2^53` are subtracted as natural numbers. -/
theorem ofNat_sub {m n : Nat} (hle : n ≤ m) (hm : m < Nat.pow 2 53) :
    ofNat m - ofNat n = ofNat (m - n) := by
  refine sub_eq ?_
  obtain rfl | hn := Nat.eq_zero_or_pos n
  · obtain rfl | hm0 := Nat.eq_zero_or_pos m
    · rw [unpacked_zero]
      rfl
    · rw [unpacked_zero, Nat.sub_zero, unpacked_ofNat hm0 hm]
      rfl
  · have hm0 : 0 < m := Nat.lt_of_lt_of_le hn hle
    have hn53 := Nat.lt_of_le_of_lt hle hm
    obtain ⟨hmlog, -, -⟩ := Number.significand_bounds hm0 hm
    obtain ⟨hnlog, -, -⟩ := Number.significand_bounds hn hn53
    have hlog : n.log2 ≤ m.log2 :=
      (Nat.le_log2 (by omega)).mpr ((Nat.log2_self_le (by omega)).trans hle)
    have hmin : min ((m.log2 : Int) - 52) ((n.log2 : Int) - 52) = -((52 - n.log2 : Nat) : Int) := by
      omega
    have hleft : (((m.log2 : Int) - 52) - -((52 - n.log2 : Nat) : Int)).toNat =
        m.log2 - n.log2 := by omega
    have hright : (((n.log2 : Int) - 52) - -((52 - n.log2 : Nat) : Int)).toNat = 0 := by omega
    have hminuend : Number.significand m * 2 ^ (m.log2 - n.log2) = m * 2 ^ (52 - n.log2) := by
      rw [Number.significand, Nat.pow_eq, Nat.mul_assoc, ← Nat.pow_add]
      congr 2
      omega
    rw [unpacked_ofNat hm0 hm, unpacked_ofNat hn hn53]
    simp only [UnpackedFloat.sub, decreaseExponent, hmin, hleft, hright, Nat.shiftLeft_eq,
      Nat.pow_zero, Nat.mul_one, hminuend, Sign.apply]
    rw [Number.significand, Nat.pow_eq, ← Nat.cast_sub (Nat.mul_le_mul_right _ hle), ← Nat.sub_mul]
    exact (normalize_whole (Nat.lt_of_le_of_lt (Nat.sub_le m n) hm) _).symm

/-- What is taken from itself leaves zero. -/
theorem sub_self_of_finite {negative : Bool} (h : decode x = .finite negative m e) (hm : 0 < m) :
    x - x = ofNat 0 := by
  refine sub_eq ?_
  rw [unpacked_zero, unpacked_of_decode h hm]
  simp only [UnpackedFloat.sub, Int.sub_self]
  rfl

/-- To multiply a number by one of either sign leaves all but its sign. -/
theorem mul_unit {negative negative' : Bool} (hx : decode x = .finite negative (2 ^ 52) (-52))
    (hy : decode y = .finite negative' m e) (hm : IsNormal m) (he : -1074 ≤ e)
    (hz : decode z = .finite (negative ^^ negative') m e) : x * y = z := by
  refine mul_eq ?_
  have hsign : signOf (negative ^^ negative') = signOf negative * signOf negative' := by
    cases negative <;> cases negative' <;> rfl
  have hexponent : -52 + e = e - ((52 : Nat) : Int) := by omega
  rw [unpacked_of_decode hx (by decide), unpacked_of_decode hy hm.pos, unpacked_of_decode hz hm.pos,
    hsign]
  simp only [UnpackedFloat.mul]
  rw [Nat.mul_comm, hexponent]
  exact (roundWithAccuracy_exact hm he 52).symm

/-! From `2^53` on numbers lie two or more apart, and the last of them is infinity. -/

/-- A number of `2^53` or more. -/
def IsVast (x : Float) : Prop :=
  unpacked x = .infinity .positive ∨
    ∃ m e, ∃ hm : IsNormal m, 1 ≤ e ∧ unpacked x = .finite .positive m e hm.pos

/-- The bits of such numbers are in order, up to those of infinity. -/
theorem isVast_of_bits (hlo : 1076 * 2 ^ 52 ≤ x.toBits.toNat)
    (hhi : x.toBits.toNat ≤ 2047 * 2 ^ 52) : IsVast x := by
  obtain hlt | heq := Nat.lt_or_eq_of_le hhi
  · have hnormal : IsNormal (x.toBits.toNat % 2 ^ 52 + 2 ^ 52) := by
      unfold IsNormal
      omega
    have hexponent : x.toBits.toNat / 2 ^ 52 % 2 ^ 11 = x.toBits.toNat / 2 ^ 52 := by omega
    have hsign : x.toBits.toNat / 2 ^ 63 % 2 = 0 := by omega
    have hparts : decode x = .finite false (x.toBits.toNat % 2 ^ 52 + 2 ^ 52)
        (((x.toBits.toNat / 2 ^ 52 : Nat) : Int) - 1075) := by
      simp only [decode, partsOfBits, Nat.pow_eq, hexponent, hsign]
      rw [if_neg (by omega), if_neg (by omega)]
      rfl
    exact .inr ⟨_, _, hnormal, by omega, unpacked_of_decode hparts hnormal.pos⟩
  · have hbits : x.toBits.toBitVec = packedInfinity .binary64 .positive :=
      BitVec.eq_of_toNat_eq heq
    refine .inl ?_
    rw [unpacked, hbits]
    rfl

theorem isVast_of_pack (hm : IsNormal m) (he : 1 ≤ e)
    (hx : x.toBits.toBitVec = (UnpackedFloat.finite .positive m e hm.pos).pack .binary64) :
    IsVast x := by
  have hmantissa : Format.binary64.mantissaBits = 53 := rfl
  have hbias : Format.binary64.exponentBias = 1023 := by decide
  have hbits : x.toBits.toNat = _ := congrArg BitVec.toNat hx
  rw [UnpackedFloat.pack] at hbits
  simp only [hm.log2, hmantissa, hbias, if_true, Nat.cast_ofNat] at hbits
  split at hbits
  · exact isVast_of_bits (by rw [hbits]; decide) (by rw [hbits]; decide)
  · next hsmall =>
    have hexponent : (BitVec.ofNat 11 (e + 1023 + 52).toNat).toNat = (e + 1023 + 52).toNat :=
      Nat.mod_eq_of_lt (by omega)
    have hfraction := (BitVec.ofNat 52 m).isLt
    have hpositive : (Sign.toBitVec .positive).toNat = 0 := rfl
    have hsum := hbits.trans (toNat_packComponents ..)
    rw [hexponent, hpositive] at hsum
    exact isVast_of_bits (by omega) (by omega)

/-- What is rounded stays at `2^53` or above. -/
theorem round_large {n : Nat} (hn : 53 ≤ n.log2) (j : Nat) :
    ∃ m e, ∃ hm : IsNormal m, 1 ≤ e ∧
      UnpackedFloat.round .binary64 s (n * 2 ^ j) (-j) = .finite s m e hm.pos := by
  have hpos : 0 < n := Nat.pos_of_ne_zero fun h => by
    rw [h] at hn
    exact absurd hn (by decide)
  have htarget : Format.binary64.targetExponent (totalExponent (n * 2 ^ j) (-j)) =
      (n.log2 : Int) - 52 := by
    rw [targetExponent_eq, log2_mul_pow hpos]
    omega
  have hdecrease : (-(j : Int) - ((n.log2 : Int) - 52)).toNat = 0 := by omega
  have hshift : ((n.log2 : Int) - 52 - -(j : Int)).toNat = j + (n.log2 - 52) := by omega
  -- the first cut leaves 53 bits
  have hcut : IsNormal (n * 2 ^ j / 2 ^ (j + (n.log2 - 52))) := by
    have hlo : 2 ^ n.log2 ≤ n := Nat.log2_self_le (Nat.ne_of_gt hpos)
    have hhi : n < 2 ^ (n.log2 + 1) := Nat.lt_log2_self
    have hsplit (i : Nat) : 2 ^ (52 + i) * 2 ^ (n.log2 - 52) = 2 ^ (n.log2 + i) := by
      rw [← Nat.pow_add]
      congr 1
      omega
    rw [Nat.pow_add, Nat.mul_comm n, Nat.mul_div_mul_left _ _ (Nat.two_pow_pos j)]
    refine ⟨(Nat.le_div_iff_mul_le (Nat.two_pow_pos _)).mpr ?_,
      (Nat.div_lt_iff_lt_mul (Nat.two_pow_pos _)).mpr ?_⟩
    · exact (hsplit 0).symm ▸ hlo
    · exact (hsplit 1).symm ▸ hhi
  obtain ⟨hlo, hhi⟩ := roundedMantissa_bounds
    ((⟨n * 2 ^ j, false, false⟩ : ExtendedMantissa) >>> (j + (n.log2 - 52)))
  rw [mantissa_shift] at hlo hhi
  have hfirst : shiftToTargetExponent .binary64 (n * 2 ^ j) (-j) .exact =
      ((⟨n * 2 ^ j, false, false⟩ : ExtendedMantissa) >>> (j + (n.log2 - 52)),
        (n.log2 : Int) - 52) := by
    rw [shiftToTargetExponent, htarget, shiftToExponent, hshift]
    exact Prod.ext rfl (by dsimp only; omega)
  simp only [UnpackedFloat.round, htarget, decreaseExponent, hdecrease, Nat.shiftLeft_eq,
    Nat.pow_zero, Nat.mul_one, Int.natCast_zero, Int.sub_zero]
  obtain ⟨hnormal, hcarry⟩ := roundWithAccuracy_eq (s := s) hfirst (by omega)
  obtain ⟨hcutlo, hcuthi⟩ := hcut
  generalize hem : (⟨n * 2 ^ j, false, false⟩ : ExtendedMantissa) >>> (j + (n.log2 - 52)) = em at *
  obtain hlt | heq := Nat.lt_or_eq_of_le (Nat.le_trans hhi hcuthi)
  · have hround : IsNormal em.roundedMantissa := ⟨Nat.le_trans hcutlo hlo, hlt⟩
    exact ⟨_, _, hround, by omega, hnormal hround⟩
  · exact ⟨_, _, ⟨Nat.le_refl _, by decide⟩, by omega, hcarry heq⟩

theorem unpacked_one :
    unpacked (ofNat 1) = .finite .positive (2 ^ 52) (-52) (Nat.two_pow_pos 52) :=
  unpacked_ofNat Nat.one_pos (by decide)

/-- One less than a number of `2^53` or more is such a number or the integer just below. -/
theorem isVast_sub_one (hx : IsVast x) :
    IsVast (x - ofNat 1) ∨ x - ofNat 1 = ofNat (2 ^ 53 - 1) := by
  obtain hinf | ⟨m, e, hm, he, hfin⟩ := hx
  · refine .inl (.inl ?_)
    have hsame : x - ofNat 1 = x := sub_eq (by rw [hinf, unpacked_one]; rfl)
    rw [hsame, hinf]
  · obtain ⟨q, rfl⟩ : ∃ q : Nat, e = q := ⟨e.toNat, by omega⟩
    have hwhole : 2 ^ 53 ≤ m * 2 ^ q :=
      Nat.mul_le_mul hm.1 (Nat.pow_le_pow_right Nat.two_pos (by omega : 1 ≤ q))
    have hmin : min (q : Int) (-52) = -((52 : Nat) : Int) := by omega
    have hleft : ((q : Int) - -((52 : Nat) : Int)).toNat = q + 52 := by omega
    -- both are multiples of `2^-52`, the exponent of one
    have hvalue : UnpackedFloat.sub .binary64 (unpacked x) (unpacked (ofNat 1)) =
        UnpackedFloat.normalize .binary64 (((m * 2 ^ q - 1) * 2 ^ 52 : Nat) : Int) (-(52 : Nat))
          .positive := by
      rw [hfin, unpacked_one, Nat.sub_mul, Nat.one_mul, Nat.cast_sub (by omega), Nat.mul_assoc,
        ← Nat.pow_add]
      simp only [UnpackedFloat.sub, decreaseExponent, hmin, hleft, Nat.shiftLeft_eq, Sign.apply]
      rfl
    obtain hbelow | hlarge := Nat.lt_or_ge (m * 2 ^ q - 1) (2 ^ 53)
    · have hlast : m * 2 ^ q - 1 = 2 ^ 53 - 1 := by omega
      refine .inr (sub_eq ?_)
      rw [hvalue, hlast]
      exact (normalize_whole (by decide) 52).symm
    · have hlog : 53 ≤ (m * 2 ^ q - 1).log2 := (Nat.le_log2 (by omega)).mpr hlarge
      have hgt : compare (((m * 2 ^ q - 1) * 2 ^ 52 : Nat) : Int) 0 = .gt :=
        Int.compare_eq_gt.mpr (Int.natCast_pos.mpr (Nat.mul_pos (by omega) (Nat.two_pow_pos 52)))
      obtain ⟨m', e', hm', he', hround⟩ := round_large (s := .positive) hlog 52
      refine .inl (isVast_of_pack hm' he' ?_)
      rw [UnpackedFloat.normalize, hgt] at hvalue
      exact congrArg (UnpackedFloat.pack .binary64) (hvalue.trans hround)

theorem isVast_ofNat {n : Nat} (hn : Nat.pow 2 53 ≤ n) : IsVast (ofNat n) := by
  have hzero : n ≠ 0 := by
    rintro rfl
    exact absurd hn (by decide)
  have hlog : 53 ≤ n.log2 := (Nat.le_log2 hzero).mpr hn
  have hlow : 2 ^ n.log2 ≤ n := Nat.log2_self_le hzero
  have hone : (1 : Nat).log2 = 0 := by decide
  have hratio : bitsOfRatio n 1 =
      min ((n.log2 + 1022) * 2 ^ 52 + roundDiv n (2 ^ (n.log2 - 52))) (2047 * 2 ^ 52) := by
    have hlarge : ¬ (n.log2 : Int) < -1022 := by omega
    have hunit : (0 : Int) ≤ (n.log2 : Int) - 52 := by omega
    have hshift : ((n.log2 : Int) - 52).toNat = n.log2 - 52 := by omega
    have hbiased : ((n.log2 : Int) + 1022).toNat = n.log2 + 1022 := by omega
    simp only [bitsOfRatio, hone, Int.natCast_zero, Int.sub_zero, Int.natCast_nonneg,
      Int.toNat_natCast, Nat.one_mul, Nat.pow_eq, hlow, hlarge, hunit, hshift, hbiased, hzero,
      decide_true, decide_false, Bool.or_self, if_true, if_false, Bool.false_eq_true,
      Nat.one_ne_zero]
  have hround : 2 ^ 52 ≤ roundDiv n (2 ^ (n.log2 - 52)) := by
    have hquotient : 2 ^ 52 ≤ n / 2 ^ (n.log2 - 52) := by
      rw [Nat.le_div_iff_mul_le (Nat.two_pow_pos _), ← Nat.pow_add, Nat.add_sub_cancel' (by omega)]
      exact hlow
    simp only [roundDiv]
    split_ifs <;> omega
  have hlo : 1076 * 2 ^ 52 ≤ bitsOfRatio n 1 := by omega
  have hhi : bitsOfRatio n 1 ≤ 2047 * 2 ^ 52 := by omega
  have htoNat : (UInt64.ofNat (bitsOfRatio n 1)).toNat = bitsOfRatio n 1 := by
    rw [UInt64.toNat_ofNat']
    exact Nat.mod_eq_of_lt (by omega)
  have hbits : (ofNat n).toBits = UInt64.ofNat (bitsOfRatio n 1) := by
    obtain hlt | heq := Nat.lt_or_eq_of_le hhi
    · exact toBits_ofBits (by rw [htoNat, Nat.pow_eq, Nat.pow_eq]; omega)
    · rw [ofNat, ofRatio, heq]
      decide
  exact isVast_of_bits (by rw [hbits, htoNat]; exact hlo) (by rw [hbits, htoNat]; exact hhi)

theorem le_iff : x ≤ y ↔ (unpacked x).le (unpacked y) = true := by
  change decide ((unpacked x).le (unpacked y) = true) = true ↔ _
  exact decide_eq_true_iff

theorem one_le_of_normal (hm : IsNormal m) (he : -52 ≤ e)
    (hx : unpacked x = .finite .positive m e hm.pos) : ofNat 1 ≤ x := by
  rw [le_iff, hx, unpacked_one]
  change ((compare (-52) e).then (compare (2 ^ 52) m)).isLE = true
  obtain hlt | rfl := Int.lt_or_eq_of_le he
  · rw [Int.compare_eq_lt.mpr hlt]
    rfl
  · rw [Int.compare_eq_eq.mpr rfl]
    exact Nat.isLE_compare.mpr hm.1

theorem one_le_of_isVast (hx : IsVast x) : ofNat 1 ≤ x := by
  obtain hinf | ⟨m, e, hm, he, hfin⟩ := hx
  · rw [le_iff, hinf, unpacked_one]
    rfl
  · exact one_le_of_normal hm (by omega) hfin

theorem one_le_ofNat {n : Nat} (hn : n < Nat.pow 2 53) : ofNat 1 ≤ ofNat n ↔ 1 ≤ n := by
  refine ⟨fun hle => Nat.pos_of_ne_zero ?_, fun hpos => ?_⟩
  · rintro rfl
    rw [le_iff, unpacked_zero, unpacked_one] at hle
    cases hle
  · exact one_le_of_normal (isNormal_significand hpos hn) (by omega) (unpacked_ofNat hpos hn)

end Stepper.Binary64