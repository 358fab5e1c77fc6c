import Mathlib
import Stepper.Machine.Operator
import Stepper.Proofs.Numerals

/-!
Bitwise operators. They are worked out on integers without bound, by masks and corrections of signs;
what comes of it is the operation on words of 32 bits. A number stands for the word of its integer
part, whatever its size, and what an operator makes of two words is an integer that is again a
number. In integers, `&`, `|`, `^` and `~` go digit by digit, and shifts are products and quotients
with a power of two.
-/
namespace Stepper.Binary64

open Float.Model Float.Model.UnpackedFloat

theorem toNat_packComponents (s : Sign) (e : BitVec 11) (m : BitVec 52) :
    (packComponents .binary64 s e m).toNat =
      s.toBitVec.toNat * 2 ^ 63 + e.toNat * 2 ^ 52 + m.toNat := by
  have he := e.isLt
  have hm := m.isLt
  rw [packComponents, BitVec.toNat_append, BitVec.toNat_append, Nat.shiftLeft_eq, Nat.shiftLeft_eq]
  simp only [Nat.mul_comm _ (2 ^ _)]
  rw [← Nat.two_pow_add_eq_or_of_lt he, ← Nat.two_pow_add_eq_or_of_lt hm]
  omega

/-- The parts of a number with the other sign. -/
def Parts.opposite : Parts → Parts
  | .nan => .nan
  | .infinite s => .infinite !s
  | .finite s m q => .finite (!s) m q

theorem partsOfBits_packComponents (s : Sign) (e : BitVec 11) (m : BitVec 52) :
    partsOfBits (packComponents .binary64 s e m).toNat =
      if e.toNat = 2047 then if m.toNat = 0 then .infinite (s == .negative) else .nan
      else if e.toNat = 0 then .finite (s == .negative) m.toNat (-1074)
      else .finite (s == .negative) (m.toNat + Nat.pow 2 52) ((e.toNat : Int) - 1075) := by
  have he := e.isLt
  have hm := m.isLt
  have hs := s.toBitVec.isLt
  have hsign : (s.toBitVec.toNat == 1) = (s == .negative) := by cases s <;> rfl
  rw [toNat_packComponents, partsOfBits]
  simp only [Nat.pow_eq]
  have hexponent : (s.toBitVec.toNat * 2 ^ 63 + e.toNat * 2 ^ 52 + m.toNat) / 2 ^ 52 % 2 ^ 11 =
      e.toNat := by omega
  have hfraction : (s.toBitVec.toNat * 2 ^ 63 + e.toNat * 2 ^ 52 + m.toNat) % 2 ^ 52 =
      m.toNat := by omega
  have hfirst : (s.toBitVec.toNat * 2 ^ 63 + e.toNat * 2 ^ 52 + m.toNat) / 2 ^ 63 % 2 =
      s.toBitVec.toNat := by omega
  rw [hexponent, hfraction, hfirst, hsign]

theorem partsOfBits_neg (s : Sign) (e : BitVec 11) (m : BitVec 52) :
    partsOfBits (packComponents .binary64 (-s) e m).toNat =
      (partsOfBits (packComponents .binary64 s e m).toNat).opposite := by
  have hs : (-s == .negative) = !(s == .negative) := by cases s <;> rfl
  rw [partsOfBits_packComponents, partsOfBits_packComponents, hs]
  split
  · split <;> rfl
  · split <;> rfl

/-- The sign stands by itself, so a number with the other sign is packed with all else the same. -/
theorem neg_unpack_packComponents (s : Sign) (e : BitVec 11) (m : BitVec 52) :
    (UnpackedFloat.unpack .binary64 (packComponents .binary64 s e m)).neg =
      UnpackedFloat.unpack .binary64 (packComponents .binary64 (-s) e m) := by
  simp only [UnpackedFloat.unpack, unpackExponent_packComponents, unpackMantissa_packComponents,
    unpackSign_packComponents, Sign.ofBitVec_toBitVec]
  split
  · split <;> rfl
  · split
    · split <;> rfl
    · rfl

theorem decode_neg (x : Float) : decode (-x) = (decode x).opposite := by
  obtain ⟨s, e, m, hx⟩ : ∃ (s : Sign) (e : BitVec 11) (m : BitVec 52),
      packComponents .binary64 s e m = x.toBits.toBitVec :=
    ⟨_, _, _, @packComponents_unpackSign_unpackExponent_unpackMantissa .binary64
      x.toBits.toBitVec⟩
  have hvalid : (-x).toBits.toBitVec =
      (UnpackedFloat.unpack .binary64 x.toBits.toBitVec).neg.pack .binary64 := rfl
  rw [← hx, neg_unpack_packComponents, pack_unpack] at hvalid
  have hneg := partsOfBits_neg s e m
  rw [hx] at hneg
  change partsOfBits (-x).toBits.toBitVec.toNat = (partsOfBits x.toBits.toBitVec.toNat).opposite
  rw [hvalid]
  split
  · -- the one NaN
    rename_i hnan
    simp only [isNaNBits, unpackExponent_packComponents, unpackMantissa_packComponents,
      decide_eq_true_eq] at hnan
    have he : e.toNat = 2047 := by rw [hnan.1]; rfl
    have hm : m.toNat ≠ 0 := fun h => hnan.2 (BitVec.eq_of_toNat_eq h)
    rw [← hx, partsOfBits_packComponents, if_pos he, if_neg hm]
    decide
  · exact hneg

theorem decode_ofInt {n : Int} (hn : n ≠ 0) (h : n.natAbs < Nat.pow 2 53) :
    decode (ofInt n) = .finite (n < 0) (Number.significand n.natAbs)
      ((n.natAbs.log2 : Int) - 52) := by
  have hpos := Number.decode_ofNat (Int.natAbs_pos.mpr hn) h
  unfold ofInt negateIf
  split
  · rename_i hneg
    change decode (-ofNat n.natAbs) = _
    rw [decode_neg, hpos, hneg]
    rfl
  · rename_i hneg
    rw [Bool.eq_false_iff.mpr hneg]
    exact hpos

theorem scaleExact_significand {n : Nat} (hlog : n.log2 ≤ 52) :
    scaleExact (Number.significand n) ((n.log2 : Int) - 52) = true := by
  have hshift : (-((n.log2 : Int) - 52)).toNat = 52 - n.log2 := by omega
  rw [scaleExact, hshift, Number.significand, Nat.mul_mod_left, beq_self_eq_true, Bool.or_true]

/-- An integer below `2^53` is a number. -/
theorem toInt?_ofInt {n : Int} (h : n.natAbs < Nat.pow 2 53) : toInt? (ofInt n) = some n := by
  by_cases hn : n = 0
  · have hzero : decode (ofInt 0) = .finite false 0 (-1074) := by decide
    have hscale : scale 0 (-1074) = 0 := by rw [scale, if_neg (by decide), Nat.zero_div]
    have hexact : scaleExact 0 (-1074) = true := by rw [scaleExact, Nat.zero_mod]; rfl
    rw [hn, toInt?, hzero]
    simp only [hscale, hexact, if_true]
    rfl
  · obtain ⟨hlog, -, -⟩ := Number.significand_bounds (Int.natAbs_pos.mpr hn) h
    rw [toInt?, decode_ofInt hn h]
    simp only [scaleExact_significand hlog, if_true, Number.scale_significand hlog, withSign,
      decide_eq_true_eq, Option.some.injEq]
    split <;> omega

/-- The rational number that a number is; none for one that is not finite. -/
def rational? (x : Float) : Option ℚ :=
  match decode x with
  | .finite s m q => some ((if s then -1 else 1) * m * 2 ^ q)
  | _ => none

/-- The integer next to a rational number on the side of zero. -/
def towardsZero (v : ℚ) : ℤ := if 0 ≤ v then ⌊v⌋ else ⌈v⌉

theorem scale_eq_floor (m : Nat) (q : Int) : (scale m q : ℤ) = ⌊(m * 2 ^ q : ℚ)⌋ := by
  unfold scale
  split
  · rename_i hq
    obtain ⟨k, rfl⟩ := Int.eq_ofNat_of_zero_le hq
    rw [Int.toNat_natCast, zpow_natCast, Nat.pow_eq]
    norm_cast
  · rename_i hq
    obtain ⟨k, hk⟩ := Int.eq_ofNat_of_zero_le (a := -q) (by omega)
    obtain rfl : q = -(k : ℤ) := by omega
    rw [neg_neg, Int.toNat_natCast, zpow_neg, zpow_natCast, ← div_eq_mul_inv, Nat.pow_eq]
    have h := Rat.floor_natCast_div_natCast m (2 ^ k)
    push_cast at h ⊢
    exact h.symm

theorem truncate?_eq (x : Float) : truncate? x = (rational? x).map towardsZero := by
  unfold truncate? rational?
  cases decode x with
  | nan => rfl
  | infinite s => rfl
  | finite s m q =>
    have hpos : (0 : ℚ) ≤ m * 2 ^ q := by positivity
    simp only [Option.map_some, Option.some.injEq, withSign, scale_eq_floor]
    cases s with
    | false => simp [towardsZero, hpos]
    | true =>
      simp only [if_true, towardsZero, neg_mul, one_mul, Int.ceil_neg]
      split
      · have hzero : (m * 2 ^ q : ℚ) = 0 := by linarith
        rw [hzero, neg_zero, Int.floor_zero, neg_zero]
      · rfl

end Stepper.Binary64

namespace Stepper.Number

open Binary64

/-- The integer part of a number; NaN and the infinities count as zero. -/
def wholePart (x : Float) : ℤ := ((rational? x).map towardsZero).getD 0

/-- A binary digit of an integer; negative integers have ones without end. -/
def bit (z : ℤ) (i : Nat) : Bool := z / 2 ^ i % 2 == 1

theorem bit_ofNat (m i : Nat) : bit (.ofNat m) i = m.testBit i := by
  rw [Nat.testBit_eq_decide_div_mod_eq, bit, Bool.eq_iff_iff, decide_eq_true_iff, beq_iff_eq,
    Int.ofNat_eq_natCast]
  norm_cast

theorem bit_negSucc (m i : Nat) : bit (.negSucc m) i = !m.testBit i := by
  have hdiv : Int.negSucc m / 2 ^ i = Int.negSucc (m / 2 ^ i) := by
    rw [← Nat.cast_ofNat (R := ℤ), ← Nat.cast_pow, Int.negSucc_ediv _ (by positivity)]
    norm_cast
  rw [Nat.testBit_eq_decide_div_mod_eq, bit, hdiv, Bool.eq_iff_iff, Bool.not_eq_true',
    decide_eq_false_iff_not, beq_iff_eq]
  omega

theorem testBit_withoutDigits (m n i : Nat) :
    (withoutDigits m n).testBit i = (m.testBit i && !n.testBit i) := by
  rw [withoutDigits, Nat.testBit_xor, Nat.testBit_and]
  cases m.testBit i <;> simp

theorem bit_intAnd (m n : ℤ) (i : Nat) : bit (intAnd m n) i = (bit m i && bit n i) := by
  cases m <;> cases n <;>
    simp only [intAnd, bit_ofNat, bit_negSucc, testBit_withoutDigits, Nat.testBit_and,
      Nat.testBit_or, Bool.not_or, Bool.and_comm]

theorem bit_intOr (m n : ℤ) (i : Nat) : bit (intOr m n) i = (bit m i || bit n i) := by
  cases m <;> cases n <;>
    simp only [intOr, bit_ofNat, bit_negSucc, testBit_withoutDigits, Nat.testBit_and,
      Nat.testBit_or, Bool.not_and, Bool.not_not, Bool.or_comm]

theorem bit_intXor (m n : ℤ) (i : Nat) : bit (intXor m n) i = (bit m i ^^ bit n i) := by
  cases m <;> cases n <;>
    simp only [intXor, bit_ofNat, bit_negSucc, Nat.testBit_xor, Bool.not_bne, Bool.bne_not,
      Bool.not_not]

theorem bit_not (m : ℤ) (i : Nat) : bit (~~~m) i = !bit m i := by
  cases m with
  | ofNat m => exact (bit_negSucc m i).trans (congrArg _ (bit_ofNat m i).symm)
  | negSucc m =>
    rw [bit_negSucc, Bool.not_not]
    exact bit_ofNat m i

theorem toNat_ofInt (z : ℤ) : ((BitVec.ofInt 32 z).toNat : ℤ) = z % 2 ^ 32 := by
  rw [BitVec.toNat_ofInt, Int.toNat_of_nonneg (Int.emod_nonneg _ (by decide))]
  rfl

/-- The last digits of an integer are those of its remainder. -/
theorem bit_emod {i : Nat} (hi : i < 32) (z : ℤ) : bit (z % 2 ^ 32) i = bit z i := by
  have hpow : (2 ^ 32 : ℤ) = 2 ^ i * (2 * 2 ^ (31 - i)) := by
    rw [← pow_succ', ← pow_add]
    congr 1
    omega
  have hdiv : z / 2 ^ i = z % 2 ^ 32 / 2 ^ i + 2 * (2 ^ (31 - i) * (z / 2 ^ 32)) := by
    conv_lhs => rw [← Int.emod_add_mul_ediv z (2 ^ 32)]
    rw [hpow, mul_assoc, Int.add_mul_ediv_left _ _ (by positivity), mul_assoc]
  rw [bit, bit, hdiv, Int.add_mul_emod_self_left]

theorem getLsbD_ofInt {i : Nat} (hi : i < 32) (z : ℤ) :
    (BitVec.ofInt 32 z).getLsbD i = bit z i := by
  rw [← bit_emod hi, ← toNat_ofInt, ← BitVec.testBit_toNat, Nat.testBit_eq_decide_div_mod_eq, bit,
    Bool.eq_iff_iff, decide_eq_true_iff, beq_iff_eq]
  norm_cast

theorem bit_toInt {i : Nat} (hi : i < 32) (w : BitVec 32) : bit w.toInt i = w.getLsbD i := by
  rw [← getLsbD_ofInt hi, BitVec.ofInt_toInt]

/-! ### Words -/

/-- The word of a number. -/
def wordOf (x : Float) : BitVec 32 := BitVec.ofInt 32 (wholePart x)

namespace BitOperation

/-- The integer an operation gives for two words; a shift is by the low five bits. -/
def onWords (o : BitOperation) (a b : BitVec 32) : Int :=
  let by_ := b.toNat % 32
  match o with
  | .and => (a &&& b).toInt
  | .or => (a ||| b).toInt
  | .xor => (a ^^^ b).toInt
  | .shiftLeft => (a <<< by_).toInt
  | .shiftRight => (a.sshiftRight by_).toInt
  | .shiftRightZero => ((a >>> by_).toNat : Int)

/-- What an operation makes of two integers: the first three go digit by digit, and a shift is by
the second integer modulo 32. -/
def Makes (o : BitOperation) (m n z : ℤ) : Prop :=
  match o with
  | .and => ∀ i < 32, bit z i = (bit m i && bit n i)
  | .or => ∀ i < 32, bit z i = (bit m i || bit n i)
  | .xor => ∀ i < 32, bit z i = (bit m i ^^ bit n i)
  | .shiftLeft => z = (m * 2 ^ (n % 32).toNat).bmod (2 ^ 32)
  | .shiftRight => z = m.bmod (2 ^ 32) / 2 ^ (n % 32).toNat
  | .shiftRightZero => z = m % 2 ^ 32 / 2 ^ (n % 32).toNat

/-- Where the result of an operation lies. -/
def InRange (o : BitOperation) (z : ℤ) : Prop :=
  match o with
  | .shiftRightZero => 0 ≤ z ∧ z < 2 ^ 32
  | _ => -2 ^ 31 ≤ z ∧ z < 2 ^ 31

theorem onWords_inRange (o : BitOperation) (a b : BitVec 32) : o.InRange (o.onWords a b) := by
  have hsigned (w : BitVec 32) : -2 ^ 31 ≤ w.toInt ∧ w.toInt < 2 ^ 31 :=
    ⟨BitVec.le_toInt w, BitVec.toInt_lt⟩
  cases o with
  | shiftRightZero =>
    exact ⟨Int.natCast_nonneg _, Int.ofNat_lt.mpr (a >>> (b.toNat % 32)).isLt⟩
  | _ => exact hsigned _

theorem onWords_makes (o : BitOperation) (m n : ℤ) :
    o.Makes m n (o.onWords (BitVec.ofInt 32 m) (BitVec.ofInt 32 n)) := by
  have hby : (BitVec.ofInt 32 n).toNat % 32 = (n % 32).toNat := by
    rw [BitVec.toNat_ofInt]
    omega
  cases o with
  | and =>
    intro i hi
    rw [← getLsbD_ofInt hi m, ← getLsbD_ofInt hi n]
    exact (bit_toInt hi _).trans (BitVec.getLsbD_and ..)
  | or =>
    intro i hi
    rw [← getLsbD_ofInt hi m, ← getLsbD_ofInt hi n]
    exact (bit_toInt hi _).trans (BitVec.getLsbD_or ..)
  | xor =>
    intro i hi
    rw [← getLsbD_ofInt hi m, ← getLsbD_ofInt hi n]
    exact (bit_toInt hi _).trans (BitVec.getLsbD_xor ..)
  | shiftLeft =>
    change (BitVec.ofInt 32 m <<< ((BitVec.ofInt 32 n).toNat % 32)).toInt = _
    rw [hby, BitVec.toInt_shiftLeft, Nat.shiftLeft_eq, Nat.cast_mul, toNat_ofInt, Nat.cast_pow]
    exact Int.emod_mul_bmod ..
  | shiftRight =>
    change ((BitVec.ofInt 32 m).sshiftRight ((BitVec.ofInt 32 n).toNat % 32)).toInt = _
    rw [hby, BitVec.toInt_sshiftRight, BitVec.toInt_ofInt, Int.shiftRight_eq_div_pow, Nat.cast_pow]
    rfl
  | shiftRightZero =>
    change ((BitVec.ofInt 32 m >>> ((BitVec.ofInt 32 n).toNat % 32)).toNat : ℤ) = _
    rw [hby, BitVec.toNat_ushiftRight, Nat.shiftRight_eq_div_pow, Int.natCast_ediv, toNat_ofInt,
      Nat.cast_pow]
    rfl

theorem onWords_natAbs_lt (o : BitOperation) (a b : BitVec 32) :
    (o.onWords a b).natAbs < Nat.pow 2 53 := by
  have h := onWords_inRange o a b
  rw [Nat.pow_eq]
  cases o <;> simp only [InRange] at h <;> omega

end BitOperation

theorem natAbs_toInt_lt (w : BitVec 32) : w.toInt.natAbs < Nat.pow 2 53 := by
  have hlo := BitVec.le_toInt w
  have hhi := BitVec.toInt_lt (x := w)
  rw [Nat.pow_eq]
  omega

theorem truncate?_ofInt {n : ℤ} (h : n.natAbs < Nat.pow 2 53) : truncate? (ofInt n) = some n := by
  have hint := toInt?_ofInt h
  unfold toInt? at hint
  unfold truncate?
  split at hint
  · split at hint
    · exact hint
    · cases hint
  · cases hint

/-- Where a number is an integer, that is its integer part. -/
theorem wholePart_ofInt {n : ℤ} (h : n.natAbs < Nat.pow 2 53) : wholePart (ofInt n) = n := by
  rw [wholePart, ← truncate?_eq, truncate?_ofInt h, Option.getD_some]

theorem ofInt_congr {m n : ℤ} (h : m ≡ n [ZMOD 2 ^ 32]) :
    BitVec.ofInt 32 m = BitVec.ofInt 32 n := by
  refine BitVec.eq_of_toNat_eq (Int.ofNat_inj.mp ?_)
  rw [toNat_ofInt, toNat_ofInt]
  exact h

/-! ### Words as masked integers -/

theorem lowWord_bounds (n : ℤ) : 0 ≤ lowWord n ∧ lowWord n < 2 ^ 32 := by
  cases n with
  | ofNat m =>
    have hle : m &&& 0xFFFFFFFF ≤ 0xFFFFFFFF := Nat.and_le_right
    change 0 ≤ ((m &&& 0xFFFFFFFF : ℕ) : ℤ) ∧ ((m &&& 0xFFFFFFFF : ℕ) : ℤ) < _
    omega
  | negSucc m =>
    have hlt : withoutDigits 0xFFFFFFFF m < 2 ^ 32 :=
      Nat.xor_lt_two_pow (by decide) (Nat.lt_of_le_of_lt Nat.and_le_left (by decide))
    change 0 ≤ ((withoutDigits 0xFFFFFFFF m : ℕ) : ℤ) ∧ ((withoutDigits 0xFFFFFFFF m : ℕ) : ℤ) < _
    omega

/-- Integers with the same last digits have the same word. -/
theorem ofInt_eq_of_bit {z : ℤ} {w : BitVec 32} (h : ∀ i < 32, bit z i = w.getLsbD i) :
    BitVec.ofInt 32 z = w :=
  BitVec.eq_of_getLsbD_eq fun i hi => (getLsbD_ofInt hi z).trans (h i hi)

/-- The mask keeps the word of an integer. -/
theorem lowWord_eq (n : ℤ) : lowWord n = (BitVec.ofInt 32 n).toNat := by
  have hones : ∀ i < 32, bit 0xFFFFFFFF i = true := by decide
  have hword : BitVec.ofInt 32 (lowWord n) = BitVec.ofInt 32 n := by
    refine ofInt_eq_of_bit fun i hi => ?_
    rw [lowWord, bit_intAnd, hones i hi, Bool.and_true, getLsbD_ofInt hi]
  rw [← hword, toNat_ofInt, Int.emod_eq_of_lt (lowWord_bounds n).1 (lowWord_bounds n).2]

/-- The correction of the sign reads a word as it is read in two's complement. -/
theorem signed_toNat (w : BitVec 32) : signed w.toNat = w.toInt := by
  rw [signed, BitVec.toInt_eq_toNat_cond]
  split <;> split <;> omega

theorem signed_lowWord (n : ℤ) : signed (lowWord n) = (BitVec.ofInt 32 n).toInt := by
  rw [lowWord_eq, signed_toNat]

theorem toInt32_eq (x : Float) : toInt32 x = (wordOf x).toInt := by
  rw [toInt32, wordOf, wholePart, ← truncate?_eq]
  cases truncate? x with
  | none => rfl
  | some n => exact signed_lowWord n

theorem toUint32_eq (x : Float) : toUint32 x = (wordOf x).toNat := by
  rw [toUint32, wordOf, wholePart, ← truncate?_eq]
  cases truncate? x with
  | none => rfl
  | some n => exact lowWord_eq n

theorem shiftCount_eq (y : Float) : shiftCount y = (wordOf y).toNat % 32 := by
  rw [shiftCount, toUint32_eq]
  exact Nat.and_two_pow_sub_one_eq_mod _ 5

/-- Integers of the size of a word. -/
def IsWord (z : ℤ) : Prop := -2 ^ 31 ≤ z ∧ z < 2 ^ 31

theorem isWord_toInt (w : BitVec 32) : IsWord w.toInt := ⟨BitVec.le_toInt w, BitVec.toInt_lt⟩

theorem isWord_ofNat {m : Nat} : IsWord (.ofNat m) ↔ m < 2 ^ 31 := by
  rw [IsWord, Int.ofNat_eq_natCast]
  omega

theorem isWord_negSucc {m : Nat} : IsWord (.negSucc m) ↔ m < 2 ^ 31 := by
  rw [IsWord]
  omega

theorem withoutDigits_lt {m n : Nat} (hm : m < 2 ^ 31) : withoutDigits m n < 2 ^ 31 :=
  Nat.xor_lt_two_pow hm (Nat.lt_of_le_of_lt Nat.and_le_left hm)

theorem isWord_intAnd {m n : ℤ} (hm : IsWord m) (hn : IsWord n) : IsWord (intAnd m n) := by
  cases m <;> cases n <;> simp only [intAnd, isWord_ofNat, isWord_negSucc] at hm hn ⊢
  · exact Nat.and_lt_two_pow _ hn
  · exact withoutDigits_lt hm
  · exact withoutDigits_lt hn
  · exact Nat.or_lt_two_pow hm hn

theorem isWord_intOr {m n : ℤ} (hm : IsWord m) (hn : IsWord n) : IsWord (intOr m n) := by
  cases m <;> cases n <;> simp only [intOr, isWord_ofNat, isWord_negSucc] at hm hn ⊢
  · exact Nat.or_lt_two_pow hm hn
  · exact withoutDigits_lt hn
  · exact withoutDigits_lt hm
  · exact Nat.and_lt_two_pow _ hn

theorem isWord_intXor {m n : ℤ} (hm : IsWord m) (hn : IsWord n) : IsWord (intXor m n) := by
  cases m <;> cases n <;> simp only [intXor, isWord_ofNat, isWord_negSucc] at hm hn ⊢ <;>
    exact Nat.xor_lt_two_pow hm hn

theorem isWord_not {m : ℤ} (hm : IsWord m) : IsWord (~~~m) := by
  cases m with
  | ofNat m => exact isWord_negSucc.mpr (isWord_ofNat.mp hm)
  | negSucc m => exact isWord_ofNat.mpr (isWord_negSucc.mp hm)

/-- An integer of the size of a word, taken as a number and then by its last digits. -/
theorem toInt32_ofInt {z : ℤ} {w : BitVec 32} (hz : IsWord z)
    (h : ∀ i < 32, bit z i = w.getLsbD i) : toInt32 (ofInt z) = w.toInt := by
  obtain ⟨hlo, hhi⟩ := hz
  rw [toInt32, truncate?_ofInt (by rw [Nat.pow_eq]; omega)]
  dsimp only
  rw [signed_lowWord, ofInt_eq_of_bit h]

/-- An integer that is moved to the left has the word that is moved to the left. -/
theorem ofInt_shiftLeft (w : BitVec 32) (k : Nat) : BitVec.ofInt 32 (w.toInt <<< k) = w <<< k := by
  refine BitVec.eq_of_toInt_eq ?_
  have hw : w.toInt % 2 ^ 32 = (w.toNat : ℤ) := by
    rw [← toNat_ofInt, BitVec.ofInt_toInt]
  rw [BitVec.toInt_ofInt, BitVec.toInt_shiftLeft, Int.shiftLeft_eq, Nat.shiftLeft_eq, Nat.cast_mul,
    ← hw, Nat.cast_pow]
  exact (Int.emod_mul_bmod ..).symm

/-- On numbers of any size, the masks and corrections of an operator give what the operation gives
on words. -/
theorem BitOperation.apply_eq (o : BitOperation) (x y : Float) :
    o.apply x y = ofInt (o.onWords (wordOf x) (wordOf y)) := by
  have ha := isWord_toInt (wordOf x)
  have hb := isWord_toInt (wordOf y)
  cases o with
  | and =>
    rw [apply, toInt32_eq x, toInt32_eq y, toInt32_ofInt (isWord_intAnd ha hb) fun i hi => ?_]
    · rfl
    · rw [bit_intAnd, bit_toInt hi, bit_toInt hi, BitVec.getLsbD_and]
  | or =>
    rw [apply, toInt32_eq x, toInt32_eq y, toInt32_ofInt (isWord_intOr ha hb) fun i hi => ?_]
    · rfl
    · rw [bit_intOr, bit_toInt hi, bit_toInt hi, BitVec.getLsbD_or]
  | xor =>
    rw [apply, toInt32_eq x, toInt32_eq y, toInt32_ofInt (isWord_intXor ha hb) fun i hi => ?_]
    · rfl
    · rw [bit_intXor, bit_toInt hi, bit_toInt hi, BitVec.getLsbD_xor]
  | shiftLeft =>
    rw [apply, leftShift, signed_lowWord, toInt32_eq, ofInt_shiftLeft, shiftCount_eq]
    rfl
  | shiftRight =>
    rw [apply, toInt32_eq, shiftCount_eq, ← BitVec.toInt_sshiftRight]
    rfl
  | shiftRightZero =>
    rw [apply, toUint32_eq, shiftCount_eq, ← Int.natCast_shiftRight, ← BitVec.toNat_ushiftRight]
    rfl

theorem complement_eq (x : Float) : complement x = ofInt (~~~(wordOf x)).toInt := by
  rw [complement, toInt32_eq x, toInt32_ofInt (isWord_not (isWord_toInt _)) fun i hi => ?_]
  rw [bit_not, bit_toInt hi, BitVec.getLsbD_not, decide_eq_true hi, Bool.true_and]

end Stepper.Number

namespace Stepper.Machine

open Binary64 Number

/-- The number of a value, without what is behind the point, is this integer. -/
def Heap.Truncates (h : Heap) (depth : Nat) (v : Value) (m : ℤ) : Prop :=
  ∃ x, h.numberOf depth v = .ok x ∧ wholePart x = m

namespace Heap

variable {h h' : Heap} {depth depth' : Nat} {a a' b b' : Value} {m m' n n' : ℤ}

theorem bitwise_eq (ha : h.Truncates depth a m) (hb : h.Truncates depth b n) (o : BitOperation) :
    h.bitwise depth o a b = .ok (ofInt (o.onWords (BitVec.ofInt 32 m) (BitVec.ofInt 32 n))) := by
  obtain ⟨x, hx, rfl⟩ := ha
  obtain ⟨y, hy, rfl⟩ := hb
  rw [bitwise, hx, hy]
  exact congrArg Except.ok (o.apply_eq x y)

theorem unary_complement_eq (ha : h.Truncates depth a m) :
    h.unary depth .complement a = .ok (.number (ofInt (~~~(BitVec.ofInt 32 m)).toInt)) := by
  obtain ⟨x, hx, rfl⟩ := ha
  rw [unary, hx]
  exact congrArg (fun y => Except.ok (Value.number y)) (complement_eq x)

/-- Operands of any size count by their integer parts modulo `2^32`. What an operator gives is the
signed value of the operation on their words, the unsigned one for `>>>`. -/
theorem bitwise_operators_are_on_words (ha : h.Truncates depth a m) (hb : h.Truncates depth b n) :
    (∀ o : BitOperation, ∃ z : ℤ, h.bitwise depth o a b = .ok (ofInt z) ∧
      toInt? (ofInt z) = some z ∧ z = o.onWords (BitVec.ofInt 32 m) (BitVec.ofInt 32 n) ∧
      o.Makes m n z ∧ o.InRange z) ∧
    (∃ z : ℤ, h.unary depth .complement a = .ok (.number (ofInt z)) ∧
      toInt? (ofInt z) = some z ∧ z = (~~~(BitVec.ofInt 32 m)).toInt ∧
      (∀ i < 32, bit z i = !bit m i) ∧ -2 ^ 31 ≤ z ∧ z < 2 ^ 31) ∧
    ∀ {h' : Heap} {depth' : Nat} {a' b' : Value} {m' n' : ℤ}, h'.Truncates depth' a' m' →
      h'.Truncates depth' b' n' → m' ≡ m [ZMOD 2 ^ 32] → n' ≡ n [ZMOD 2 ^ 32] →
      (∀ o, h'.bitwise depth' o a' b' = h.bitwise depth o a b) ∧
        h'.unary depth' .complement a' = h.unary depth .complement a := by
  refine ⟨fun o => ?_, ?_, fun ha' hb' hm hn => ?_⟩
  · exact ⟨_, bitwise_eq ha hb o, toInt?_ofInt (o.onWords_natAbs_lt _ _), rfl,
      o.onWords_makes m n, o.onWords_inRange _ _⟩
  · refine ⟨_, unary_complement_eq ha, toInt?_ofInt (natAbs_toInt_lt _), rfl, fun i hi => ?_,
      BitVec.le_toInt _, BitVec.toInt_lt⟩
    rw [bit_toInt hi, BitVec.getLsbD_not, getLsbD_ofInt hi, decide_eq_true hi, Bool.true_and]
  · refine ⟨fun o => ?_, ?_⟩
    · rw [bitwise_eq ha' hb', bitwise_eq ha hb, ofInt_congr hm, ofInt_congr hn]
    · rw [unary_complement_eq ha', unary_complement_eq ha, ofInt_congr hm]

/-- The word of `-2^32 - 3` is that of `-3`, and a shift by `33` is a shift by `1`. -/
theorem large_operands_wrap :
    (({} : Heap).Truncates 0 (.number (ofInt (-4294967299))) (-4294967299) ∧
      ({} : Heap).Truncates 0 (.text (Text.ofString "33.9")) 33) ∧
    ({} : Heap).bitwise 0 .shiftLeft (.number (ofInt (-4294967299)))
      (.text (Text.ofString "33.9")) = .ok (ofInt (-6)) ∧
    ({} : Heap).bitwise 0 .shiftRightZero (.number (ofInt (-4294967299)))
      (.text (Text.ofString "33.9")) = .ok (ofInt 2147483646) ∧
    ({} : Heap).unary 0 .complement (.number (ofInt (-4294967299))) = .ok (.number (ofInt 2)) := by
  have ha : ({} : Heap).Truncates 0 (.number (ofInt (-4294967299))) (-4294967299) :=
    ⟨_, rfl, wholePart_ofInt (by decide)⟩
  have hb : ({} : Heap).Truncates 0 (.text (Text.ofString "33.9")) 33 := by
    refine ⟨Float.ofBits 0x4040f33333333333, by decide +kernel, ?_⟩
    decide +kernel
  obtain ⟨hbitwise, ⟨z, hz, -, rfl, -⟩, -⟩ := bitwise_operators_are_on_words ha hb
  obtain ⟨l, hl, -, rfl, -⟩ := hbitwise .shiftLeft
  obtain ⟨r, hr, -, rfl, -⟩ := hbitwise .shiftRightZero
  exact ⟨⟨ha, hb⟩, hl, hr, hz⟩

end Heap
end Stepper.Machine
