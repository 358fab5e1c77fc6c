import Mathlib
import Stepper.Machine.Convert

/-!
What the bits of a number are. A number is determined by its bits, there is one NaN, and `==` tells
apart what the bits tell apart, but for the two zeros and NaN.
-/
namespace Stepper.Binary64

open Float.Model Float.Model.UnpackedFloat

/-- A pattern whose exponent is not the greatest is the pattern of a number. -/
theorem toBits_ofBits {b : UInt64} (h : b.toNat / Nat.pow 2 52 % Nat.pow 2 11 ≠ 2047) :
    (Float.ofBits b).toBits = b := by
  have hexponent (w : BitVec Format.binary64.numBits) :
      (unpackExponent w).toNat = w.toNat / Nat.pow 2 52 % Nat.pow 2 11 := by
    simp [unpackExponent, BitVec.extractLsb, Nat.shiftRight_eq_div_pow]
  have hv : Format.binary64.Valid b.toBitVec := by
    refine ⟨fun hmax _ => absurd ?_ h⟩
    rw [← UInt64.toNat_toBitVec, ← hexponent, hmax]
    rfl
  exact congrArg UInt64.ofBitVec (pack_unpack_of_valid hv)

theorem isNaN_iff (x : Float) : x.isNaN = true ↔ x = nan := by
  rw [Float.isNaN_eq_decide_eq_nan, decide_eq_true_iff]
  rfl

/-- What is no NaN is not packed as one. -/
theorem pack_ne_packedNaN {u : UnpackedFloat} (hu : u ≠ .notANumber) :
    u.pack .binary64 ≠ packedNaN .binary64 := by
  intro h
  have hexponent := congrArg unpackExponent h
  have hmantissa := congrArg unpackMantissa h
  cases u with
  | notANumber => exact hu rfl
  | infinity s =>
    simp [UnpackedFloat.pack, packedInfinity, packedNaN] at hmantissa
  | zero s =>
    simp [UnpackedFloat.pack, packedZero, packedNaN] at hmantissa
  | finite s m e hm =>
    simp only [UnpackedFloat.pack] at hexponent hmantissa
    split at hexponent
    · next hbig =>
      rw [if_pos hbig] at hmantissa
      simp [packedInfinity, packedNaN] at hmantissa
    · next hsmall =>
      split at hexponent
      · simp [packedNaN, ← BitVec.toNat_inj] at hexponent
        simp at hsmall
        omega
      · simp [packedNaN] at hexponent

theorem neg_ne_nan {x : Float} (hx : x ≠ nan) : -x ≠ nan := by
  intro h
  have hvalid (y : Float) : y.toModel.unpack = .notANumber ↔ y = nan := by
    rw [Float.Model.unpack, unpack_eq_notANumber_iff_of_valid y.toModel.valid,
      ← Float.toBits_inj, ← UInt64.toBitVec_inj]
    rfl
  have hpack := congrArg (fun y : Float => y.toModel.toBits.toBitVec) h
  refine pack_ne_packedNaN (u := x.toModel.unpack.neg) (fun hneg => hx ?_) hpack
  rw [← hvalid]
  cases hu : x.toModel.unpack with
  | notANumber => rfl
  | _ => rw [hu] at hneg; cases hneg

/-- The greatest pattern that a ratio has is that of infinity. -/
theorem bitsOfRatio_le (num den : Nat) : bitsOfRatio num den ≤ 2047 * Nat.pow 2 52 := by
  unfold bitsOfRatio
  split
  · exact Nat.zero_le _
  · exact Nat.min_le_right _ _

theorem ofRatio_ne_nan (num den : Nat) : ofRatio num den ≠ nan := by
  intro h
  have hle := bitsOfRatio_le num den
  obtain heq | hlt := Nat.eq_or_lt_of_le hle
  · rw [ofRatio, heq] at h
    exact absurd h (by decide)
  · have hbits : (UInt64.ofNat (bitsOfRatio num den)).toNat = bitsOfRatio num den :=
      Nat.mod_eq_of_lt (Nat.lt_trans hlt (by decide))
    have hnan := congrArg Float.toBits h
    simp only [Nat.pow_eq] at hlt hbits
    rw [ofRatio, toBits_ofBits (by rw [hbits]; simp only [Nat.pow_eq]; omega)] at hnan
    have heq : bitsOfRatio num den = 0x7ff8000000000000 := by
      rw [← hbits, hnan]
      decide
    omega

end Stepper.Binary64

namespace Stepper.Machine

open Binary64

/-- The number that stands for all that are one key with it. -/
def keyNumber (x : Float) : Float := if x.isNaN then nan else if x == 0 then ofNat 0 else x

theorem keyNumber_eq_iff (x y : Float) :
    keyNumber x = keyNumber y ↔ (x.isNaN && y.isNaN || x == y) = true := by
  -- all that is asked is which of NaN and the two zeros the numbers are
  have hnan : nan = Float.nan := rfl
  have hofNat : ofNat 0 = 0 := by decide
  have hzero : (0 : Float) ≠ Float.nan := by decide
  have hminus : (-0 : Float) ≠ Float.nan := by decide
  simp only [keyNumber, Bool.or_eq_true, Bool.and_eq_true, isNaN_iff,
    Float.beq_iff_ne_nan_and_eq]
  grind

/-- Two values have one key exactly if they are the same, where NaN is the same as NaN. -/
theorem Value.key_eq_iff (a b : Value) : a.key = b.key ↔ a.sameOrNaN b = true := by
  cases a with
  | number x =>
    cases b with
    | number y =>
      simp only [Value.key, Value.sameOrNaN, Key.number.injEq, UInt64.toNat_inj, Float.toBits_inj]
      exact keyNumber_eq_iff x y
    | _ => simp [Value.key, Value.sameOrNaN, Value.same]
  | _ => cases b <;> simp [Value.key, Value.sameOrNaN, Value.same]

end Stepper.Machine
