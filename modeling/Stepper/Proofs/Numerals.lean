import Stepper.Number.Format
import Stepper.Proofs.Bits
import Stepper.Proofs.Ordering

/-!
The text of a natural number below `2^53` as a number is its digits. Between neighbours of such a
number there is no other natural number, so whichever grid of decimals is tried first, what reads
back is the number itself.
-/
namespace Stepper.Number

open Binary64

theorem digitsIn_of_lt {radix n : Nat} (h : n < radix) : digitsIn radix n = [n] := by
  rw [digitsIn, if_pos (.inr h)]

theorem digitsIn_of_le {radix n : Nat} (h : radix ≤ n) (hradix : 2 ≤ radix := by decide) :
    digitsIn radix n = digitsIn radix (n / radix) ++ [n % radix] := by
  rw [digitsIn, if_neg (by omega)]

theorem lt_of_mem_digitsIn {radix n d : Nat} (h : d ∈ digitsIn radix n)
    (hradix : 2 ≤ radix := by decide) : d < radix := by
  induction n using Nat.strongRecOn with
  | ind n ih =>
    by_cases hn : n < radix
    · rw [digitsIn_of_lt hn, List.mem_singleton] at h
      exact h ▸ hn
    · rw [digitsIn_of_le (Nat.le_of_not_lt hn) hradix, List.mem_append, List.mem_singleton] at h
      obtain h | rfl := h
      · exact ih (n / radix) (Nat.div_lt_self (by omega) hradix) h
      · exact Nat.mod_lt n (by omega)

theorem digitsIn_ne_nil (radix n : Nat) : digitsIn radix n ≠ [] := by
  unfold digitsIn
  split <;> simp

/-- The first digit of a number above zero is not zero. -/
theorem head?_digitsIn {n : Nat} (h : 0 < n) : (digitsIn 10 n).head? ≠ some 0 := by
  induction n using Nat.strongRecOn with
  | ind n ih =>
    by_cases hn : n < 10
    · rw [digitsIn_of_lt hn]
      simp only [List.head?_cons, ne_eq, Option.some.injEq]
      omega
    · have hfirst := ih (n / 10) (by omega) (by omega)
      rw [digitsIn_of_le (by omega), List.head?_append]
      cases hd : (digitsIn 10 (n / 10)).head? with
      | none => exact absurd (List.head?_eq_none_iff.1 hd) (digitsIn_ne_nil _ _)
      | some d =>
        rw [hd] at hfirst
        exact hfirst

/-- A power of ten puts zeros behind the digits. -/
theorem digitsIn_mul_pow {n : Nat} (h : 0 < n) (k : Nat) :
    digitsIn 10 (n * Nat.pow 10 k) = digitsIn 10 n ++ List.replicate k 0 := by
  induction k with
  | zero => simp
  | succ k ih =>
    have hpow : 0 < Nat.pow 10 k := Nat.pow_pos (by omega)
    have hstep : n * Nat.pow 10 (k + 1) = n * Nat.pow 10 k * 10 := by
      rw [Nat.pow_eq, Nat.pow_succ, Nat.pow_eq, Nat.mul_assoc]
    have hle : 1 ≤ n * Nat.pow 10 k := Nat.mul_pos h hpow
    rw [hstep, digitsIn_of_le (by omega), Nat.mul_div_cancel _ (by omega), Nat.mul_mod_left, ih,
      List.replicate_succ', List.append_assoc]

theorem natText_mul_pow {n : Nat} (h : 0 < n) (k : Nat) :
    natText 10 (n * Nat.pow 10 k) = natText 10 n ++ List.replicate k 0x30 := by
  rw [natText, digitsIn_mul_pow h, List.map_append, List.map_replicate]
  rfl

theorem length_natText_le {radix n k : Nat} (h : n < Nat.pow radix (k + 1))
    (hradix : 2 ≤ radix := by decide) : (natText radix n).length ≤ k + 1 := by
  rw [natText, List.length_map]
  induction k generalizing n with
  | zero => simp [digitsIn_of_lt (show n < radix by simpa using h)]
  | succ k ih =>
    by_cases hn : n < radix
    · simp [digitsIn_of_lt hn]
    · have hdiv : n / radix < Nat.pow radix (k + 1) :=
        Nat.div_lt_of_lt_mul (by rwa [Nat.pow_eq, Nat.mul_comm, ← Nat.pow_succ])
      rw [digitsIn_of_le (Nat.le_of_not_lt hn) hradix, List.length_append]
      exact Nat.succ_le_succ (ih hdiv)

theorem log2_eq_of_le {n k : Nat} (hlo : Nat.pow 2 k ≤ n) (hhi : n < Nat.pow 2 (k + 1)) :
    n.log2 = k := by
  have hn : n ≠ 0 := by
    rintro rfl
    exact absurd (Nat.pow_pos (n := k) (by omega : 0 < 2)) (Nat.not_lt.2 hlo)
  have hle : k ≤ n.log2 := (Nat.le_log2 hn).mpr hlo
  have hlt : n.log2 < k + 1 := (Nat.log2_lt hn).mpr hhi
  omega

/-- The significand of a natural number below `2^53`. -/
def significand (n : Nat) : Nat := n * Nat.pow 2 (52 - n.log2)

theorem significand_bounds {n : Nat} (hpos : 0 < n) (h : n < Nat.pow 2 53) :
    n.log2 ≤ 52 ∧ Nat.pow 2 52 ≤ significand n ∧ significand n < Nat.pow 2 53 := by
  have hlog : n.log2 < 53 := (Nat.log2_lt (by omega)).mpr h
  have hlo : Nat.pow 2 n.log2 ≤ n := Nat.log2_self_le (by omega)
  have hhi : n < Nat.pow 2 (n.log2 + 1) := Nat.lt_log2_self
  have hsplit (k : Nat) : Nat.pow 2 (n.log2 + k) * Nat.pow 2 (52 - n.log2) = Nat.pow 2 (52 + k) := by
    rw [Nat.pow_eq, Nat.pow_eq, Nat.pow_eq, ← Nat.pow_add]
    congr 1
    omega
  refine ⟨by omega, ?_, ?_⟩
  · rw [← hsplit 0]
    exact Nat.mul_le_mul_right _ hlo
  · rw [← hsplit 1]
    exact Nat.mul_lt_mul_of_pos_right hhi (Nat.pow_pos (by omega))

theorem roundDiv_one (n : Nat) : roundDiv n 1 = n := by
  simp [roundDiv, Nat.mod_one]

theorem bitsOfRatio_one {n : Nat} (hpos : 0 < n) (h : n < Nat.pow 2 53) :
    bitsOfRatio n 1 = (n.log2 + 1022) * Nat.pow 2 52 + significand n := by
  obtain ⟨hlog, hlo, hhi⟩ := significand_bounds hpos h
  have hn : Nat.pow 2 n.log2 ≤ n := Nat.log2_self_le (by omega)
  have hone : (1 : Nat).log2 = 0 := by decide
  have hsig : (if 0 ≤ (n.log2 : Int) - 52 then
      roundDiv n (Nat.pow 2 ((n.log2 : Int) - 52).toNat)
      else roundDiv (n * Nat.pow 2 (-((n.log2 : Int) - 52)).toNat) 1) = significand n := by
    split
    · have hzero : ((n.log2 : Int) - 52).toNat = 0 := by omega
      have hshift : 52 - n.log2 = 0 := by omega
      rw [hzero, significand, hshift, Nat.pow_eq, Nat.pow_zero, roundDiv_one, Nat.mul_one]
    · have hshift : (-((n.log2 : Int) - 52)).toNat = 52 - n.log2 := by omega
      rw [hshift, roundDiv_one, significand]
  unfold bitsOfRatio
  rw [if_neg (by simp; omega)]
  simp only [hone, Int.natCast_zero, Int.sub_zero, Int.natCast_nonneg, if_true, Int.toNat_natCast,
    Nat.one_mul, hn, decide_true]
  have hnormal : ¬ (n.log2 : Int) < -1022 := by omega
  have hbiased : ((n.log2 : Int) + 1022).toNat = n.log2 + 1022 := by omega
  simp only [hnormal, if_false]
  rw [hsig, hbiased]
  simp only [Nat.pow_eq] at hhi ⊢
  omega

/-! The bits say what the number is. -/

theorem decode_ofNat {n : Nat} (hpos : 0 < n) (h : n < Nat.pow 2 53) :
    decode (ofNat n) = .finite false (significand n) ((n.log2 : Int) - 52) := by
  obtain ⟨hlog, hlo, hhi⟩ := significand_bounds hpos h
  have hbits := bitsOfRatio_one hpos h
  simp only [Nat.pow_eq] at hlo hhi hbits
  have htoNat : (UInt64.ofNat (bitsOfRatio n 1)).toNat = bitsOfRatio n 1 := by
    rw [UInt64.toNat_ofNat']
    exact Nat.mod_eq_of_lt (by omega)
  have hofBits : (ofNat n).toBits = UInt64.ofNat (bitsOfRatio n 1) := by
    refine toBits_ofBits ?_
    rw [htoNat]
    simp only [Nat.pow_eq]
    omega
  rw [decode, hofBits, htoNat, partsOfBits]
  simp only [Nat.pow_eq]
  have hexponent : bitsOfRatio n 1 / 2 ^ 52 % 2 ^ 11 = n.log2 + 1023 := by omega
  have hfraction : bitsOfRatio n 1 % 2 ^ 52 = significand n - 2 ^ 52 := by omega
  have hsign : bitsOfRatio n 1 / 2 ^ 63 % 2 = 0 := by omega
  rw [hexponent, hfraction, hsign, if_neg (by omega), if_neg (by omega)]
  simp only [Parts.finite.injEq]
  refine ⟨rfl, by omega, by omega⟩

theorem scale_significand {n : Nat} (hlog : n.log2 ≤ 52) :
    scale (significand n) ((n.log2 : Int) - 52) = n := by
  unfold scale significand
  split
  · have hzero : ((n.log2 : Int) - 52).toNat = 0 := by omega
    have hshift : 52 - n.log2 = 0 := by omega
    rw [hzero, hshift, Nat.pow_eq, Nat.pow_zero, Nat.mul_one, Nat.mul_one]
  · have hshift : (-((n.log2 : Int) - 52)).toNat = 52 - n.log2 := by omega
    rw [hshift]
    exact Nat.mul_div_cancel _ (Nat.pow_pos (by omega))

theorem truncate?_ofNat {n : Nat} (h : n < Nat.pow 2 53) : truncate? (ofNat n) = some (n : Int) := by
  by_cases hpos : 0 < n
  · obtain ⟨hlog, -, -⟩ := significand_bounds hpos h
    simp only [truncate?, decode_ofNat hpos h, withSign, scale_significand hlog]
    rfl
  · obtain rfl : n = 0 := by omega
    have hzero : decode (ofNat 0) = .finite false 0 (-1074) := by decide
    have hscale : scale 0 (-1074) = 0 := by
      rw [scale, if_neg (by decide), Nat.zero_div]
    simp only [truncate?, hzero, hscale]
    rfl

theorem isNaN_ofNat {n : Nat} (h : n < Nat.pow 2 53) : (ofNat n).isNaN = false := by
  rw [← Bool.not_eq_true, isNaN_iff]
  intro hnan
  have hnone : truncate? nan = none := by decide
  rw [← hnan, truncate?_ofNat h] at hnone
  cases hnone

/-- The interval of a natural number: over their denominator, the gaps to its neighbours are a half
at most. -/
structure Interval.Narrow (i : Interval) (n : Nat) : Prop where
  value : i.value = n * i.den
  below : 1 ≤ i.below
  below_le : i.below ≤ 2
  above : i.above = 2
  den : 4 ≤ i.den

theorem Interval.narrow {n : Nat} (hpos : 0 < n) (h : n < Nat.pow 2 53) :
    (Interval.of (significand n) ((n.log2 : Int) - 52)).Narrow n := by
  obtain ⟨hlog, -, -⟩ := significand_bounds hpos h
  have hneg : ¬ (0 : Int) ≤ (n.log2 : Int) - 52 - 2 := by omega
  have hshift : (-((n.log2 : Int) - 52 - 2)).toNat = 52 - n.log2 + 2 := by omega
  have hpow : Nat.pow 2 (52 - n.log2 + 2) = 4 * Nat.pow 2 (52 - n.log2) := by
    rw [Nat.pow_eq, Nat.pow_add, Nat.mul_comm]
    rfl
  have hone : 1 ≤ Nat.pow 2 (52 - n.log2) := Nat.pow_pos (by omega)
  constructor
  · simp only [Interval.of, hneg, if_false, hshift, hpow, significand, Nat.mul_one]
    exact Nat.mul_left_comm ..
  · simp only [Interval.of, hneg, if_false, Nat.mul_one]
    split <;> omega
  · simp only [Interval.of, hneg, if_false, Nat.mul_one]
    split <;> omega
  · simp only [Interval.of, hneg, if_false]
  · simp only [Interval.of, hneg, if_false, hshift, hpow]
    omega

variable {i : Interval} {n : Nat}

/-- The number is the only whole one in its interval. -/
theorem Interval.Narrow.holds_iff (hi : i.Narrow n) (hpos : 0 < n) (m : Nat) :
    i.holds m 1 = true ↔ m = n := by
  obtain ⟨hvalue, hbelow, hbelow_le, habove, hden⟩ := hi
  have hpositive : 0 < n * i.den := Nat.mul_pos hpos (by omega)
  have hstep {a b : Nat} (hab : a < b) : a * i.den + i.den ≤ b * i.den := by
    rw [← Nat.succ_mul]
    exact Nat.mul_le_mul_right _ hab
  simp only [holds, hvalue, habove, Nat.mul_one]
  constructor
  · intro hholds
    obtain hlt | heq | hgt := Nat.lt_trichotomy m n
    · have := hstep hlt
      split at hholds <;> simp only [Bool.and_eq_true, decide_eq_true_eq] at hholds <;> omega
    · exact heq
    · have := hstep hgt
      split at hholds <;> simp only [Bool.and_eq_true, decide_eq_true_eq] at hholds <;> omega
  · rintro rfl
    split <;> simp only [Bool.and_eq_true, decide_eq_true_eq] <;> omega

/-- What reads back on a grid of whole numbers is the number itself. -/
theorem Interval.Narrow.onGrid_sound (hi : i.Narrow n) (hpos : 0 < n) {k c : Nat}
    (hc : i.onGrid k = some c) : c * Nat.pow 10 k = n := by
  have hk : (0 : Int) ≤ (k : Int) := Int.natCast_nonneg k
  simp only [onGrid, hk, if_true, Int.toNat_natCast, hi.holds_iff hpos] at hc
  split at hc <;> split at hc
  · cases hc
    assumption
  · split at hc <;> cases hc
    assumption
  · cases hc
    assumption
  · split at hc <;> cases hc
    assumption

theorem Interval.Narrow.onGrid_zero (hi : i.Narrow n) (hpos : 0 < n) : i.onGrid 0 = some n := by
  have hden : 0 < i.den := by
    have := hi.den
    omega
  have hdiv : i.value / (i.den * Nat.pow 10 (0 : Int).toNat) = n := by
    rw [Int.toNat_zero, Nat.pow_eq, Nat.pow_zero, Nat.mul_one, hi.value, Nat.mul_div_cancel _ hden]
  have hmod : i.value % (i.den * Nat.pow 10 (0 : Int).toNat) = 0 := by
    rw [Int.toNat_zero, Nat.pow_eq, Nat.pow_zero, Nat.mul_one, hi.value, Nat.mul_mod_left]
  have hholds : i.holds (n * Nat.pow 10 (0 : Int).toNat) 1 = true := by
    rw [hi.holds_iff hpos, Int.toNat_zero, Nat.pow_eq, Nat.pow_zero, Nat.mul_one]
  have hnearer : 2 * 0 < i.den * Nat.pow 10 (0 : Int).toNat := by
    rwa [Int.toNat_zero, Nat.pow_eq, Nat.pow_zero, Nat.mul_one]
  simp only [onGrid, Int.le_refl, if_true, hdiv, hmod, hholds, hnearer, decide_true, Bool.true_or]

/-- Whichever grid of whole numbers the search begins with, it ends with the number. -/
theorem Interval.Narrow.search (hi : i.Narrow n) (hpos : 0 < n) {fuel k : Nat} (hk : k < fuel) :
    ∃ c j : Nat, i.search fuel k = ⟨c, j⟩ ∧ c * Nat.pow 10 j = n := by
  induction fuel generalizing k with
  | zero => omega
  | succ fuel ih =>
    rw [Interval.search]
    cases k with
    | zero =>
      obtain ⟨m, rfl⟩ : ∃ m, n = m + 1 := ⟨n - 1, by omega⟩
      rw [Int.natCast_zero, hi.onGrid_zero hpos]
      exact ⟨m + 1, 0, rfl, Nat.mul_one _⟩
    | succ k =>
      have hnext : ((k + 1 : Nat) : Int) - 1 = (k : Int) := by omega
      cases hgrid : i.onGrid (k + 1 : Nat) with
      | none =>
        simp only [hnext]
        exact ih (by omega)
      | some c =>
        cases c with
        | zero =>
          simp only [hnext]
          exact ih (by omega)
        | succ c => exact ⟨c + 1, k + 1, rfl, hi.onGrid_sound hpos hgrid⟩

/-- The zeros that are moved into the exponent are not lost. -/
theorem Decimal.trim_of_nat (fuel : Nat) {c j : Nat} (hpos : 0 < c * Nat.pow 10 j) :
    ∃ d l : Nat, Decimal.trim fuel ⟨c, j⟩ = ⟨d, l⟩ ∧ d * Nat.pow 10 l = c * Nat.pow 10 j := by
  induction fuel generalizing c j with
  | zero => exact ⟨c, j, rfl, rfl⟩
  | succ fuel ih =>
    rw [Decimal.trim]
    split
    · rename_i hzero
      simp only at hzero
      have hvalue : c / 10 * Nat.pow 10 (j + 1) = c * Nat.pow 10 j := by
        rw [Nat.pow_eq, Nat.pow_eq, Nat.pow_succ, Nat.mul_comm (10 ^ j), ← Nat.mul_assoc,
          Nat.div_mul_cancel (Nat.dvd_of_mod_eq_zero hzero)]
      obtain ⟨d, l, htrim, hd⟩ := @ih (c / 10) (j + 1) (hvalue ▸ hpos)
      exact ⟨d, l, htrim, hd.trans hvalue⟩
    · exact ⟨c, j, rfl, rfl⟩

/-- The search begins with a grid of whole numbers. -/
theorem Interval.Narrow.decimalExponent (hi : i.Narrow n) (hpos : 0 < n)
    (hlog : n.log2 ≤ 52) (hvalue : i.value.log2 = 54) (hden : i.den.log2 = 54 - n.log2) :
    ∃ k : Nat, decimalExponent i.value i.den = k ∧ k < 18 := by
  have hest : ((i.value.log2 : Int) - i.den.log2) * 30103 / 100000 = (n.log2 * 30103 / 100000 : Nat) := by
    omega
  have hone : i.den * Nat.pow 10 (0 : Int).toNat ≤ i.value := by
    rw [Int.toNat_zero, Nat.pow_eq, Nat.pow_zero, Nat.mul_one, hi.value]
    exact Nat.le_mul_of_pos_left _ hpos
  have hchoice (k : Nat) (hk : k ≤ 15) (above here : Bool) (hhere : k = 0 → here = true) :
      ∃ l : Nat, (if above = true then (k : Int) + 1 else if here = true then (k : Int)
        else (k : Int) - 1) = l ∧ l < 18 := by
    cases above with
    | true => exact ⟨k + 1, rfl, by omega⟩
    | false =>
      cases here with
      | true => exact ⟨k, rfl, by omega⟩
      | false =>
        have hk' : k ≠ 0 := fun h => absurd (hhere h) (by decide)
        exact ⟨k - 1, by simp only [Bool.false_eq_true, if_false]; omega, by omega⟩
  simp only [Number.decimalExponent, hest]
  refine hchoice _ (by omega) _ _ fun hzero => ?_
  rw [hzero, Int.natCast_zero, if_pos (Int.le_refl 0), decide_eq_true hone]

theorem shortest_ofNat {n : Nat} (hpos : 0 < n) (h : n < Nat.pow 2 53) :
    ∃ c j : Nat, shortest (significand n) ((n.log2 : Int) - 52) = ⟨c, j⟩ ∧
      c * Nat.pow 10 j = n := by
  obtain ⟨hlog, hlo, hhi⟩ := significand_bounds hpos h
  have hi := Interval.narrow hpos h
  have hneg : ¬ (0 : Int) ≤ (n.log2 : Int) - 52 - 2 := by omega
  have hvalue : (Interval.of (significand n) ((n.log2 : Int) - 52)).value.log2 = 54 := by
    simp only [Interval.of, hneg, if_false, Nat.mul_one]
    simp only [Nat.pow_eq] at hlo hhi
    apply log2_eq_of_le <;> simp only [Nat.pow_eq] <;> omega
  have hden : (Interval.of (significand n) ((n.log2 : Int) - 52)).den.log2 = 54 - n.log2 := by
    have hshift : (-((n.log2 : Int) - 52 - 2)).toNat = 54 - n.log2 := by omega
    simp only [Interval.of, hneg, if_false, hshift]
    exact Nat.log2_two_pow
  obtain ⟨k, hk, hfuel⟩ := hi.decimalExponent hpos hlog hvalue hden
  obtain ⟨c, j, hsearch, hcj⟩ := hi.search hpos hfuel
  obtain ⟨d, l, htrim, hdl⟩ := Decimal.trim_of_nat 20 (hcj ▸ hpos)
  exact ⟨d, l, by rw [shortest, hk, hsearch, htrim], hdl.trans hcj⟩

/-- Digits with zeros behind them are laid out as they are. -/
theorem layout_of_nat {c j : Nat} (hpos : 0 < c) (h : (natText 10 (c * Nat.pow 10 j)).length ≤ 21) :
    layout (natText 10 c) ((j : Int) + (natText 10 c).length - 1) = natText 10 (c * Nat.pow 10 j) := by
  have hlength : 0 < (natText 10 c).length := by
    rw [natText, List.length_map]
    exact List.length_pos_iff.2 (digitsIn_ne_nil 10 c)
  rw [natText_mul_pow hpos, List.length_append, List.length_replicate] at h
  have hwhole : ((j : Int) + (natText 10 c).length - 1).toNat + 1 = (natText 10 c).length + j := by
    omega
  rw [layout, if_pos (by omega)]
  simp only [hwhole]
  rw [if_pos (by omega), natText_mul_pow hpos, Nat.add_sub_cancel_left]

/-- The text of a natural number is its digits. -/
theorem text_ofNat {n : Nat} (h : n < Nat.pow 2 53) : text (ofNat n) = natText 10 n := by
  by_cases hpos : 0 < n
  · obtain ⟨-, hlo, -⟩ := significand_bounds hpos h
    obtain ⟨c, j, hshortest, hcj⟩ := shortest_ofNat hpos h
    have hc : 0 < c := Nat.pos_of_ne_zero fun hzero => by
      rw [hzero, Nat.zero_mul] at hcj
      omega
    have hsig : ¬ significand n = 0 := by
      simp only [Nat.pow_eq] at hlo
      omega
    have hshort : (natText 10 (c * Nat.pow 10 j)).length ≤ 21 := by
      rw [hcj]
      refine Nat.le_trans (length_natText_le (k := 15) ?_) (by omega)
      simp only [Nat.pow_eq] at h ⊢
      omega
    rw [text, decode_ofNat hpos h]
    simp only [hsig, if_false, hshortest]
    rw [signText, layout_of_nat hc hshort, hcj]
    rfl
  · obtain rfl : n = 0 := by omega
    have hzero : decode (ofNat 0) = .finite false 0 (-1074) := by decide
    rw [text, hzero, natText, digitsIn_of_lt (by omega)]
    rfl

end Stepper.Number
