import Stepper.Builtin.Number
import Stepper.Proofs.Checking
import Stepper.Proofs.Exact
import Stepper.Proofs.Reading
import Stepper.Proofs.Written

/-!
Integers printed in a radix are read back. The printer puts remainders in front of each other, and
the reader takes the longest row of digits, so it does not matter what follows, as long as it begins
with no digit of the radix and makes no `0x` of a zero. The blanks that may stand in front are those
that `trim` takes away. Space separators such as U+2003 are not among them; a text that begins with
one has no digit in front.
-/
namespace Stepper.Number

open Binary64

variable {t u more blanks : Text} {ds : List Nat} {radix c n : Nat} {negative : Bool}

theorem plain_natText (hlo : 2 ≤ radix) (hhi : radix ≤ 36) (n : Nat) :
    Plain radix (natText radix n) (digitsIn radix n) := by
  refine List.forall₂_map_left_iff.mpr (List.forall₂_same.mpr fun d hd => ?_)
  have hlt := lt_of_mem_digitsIn hd hlo
  exact ⟨charDigit?_digitChar (by omega), hlt⟩

theorem natText_ne_nil (radix n : Nat) : natText radix n ≠ [] := by
  simp [natText, digitsIn_ne_nil]

/-- Digits in a row, not too many, are the number that they write. -/
theorem Plain.readInteger_eq (h : Plain radix t ds) (hne : t ≠ [])
    (hlength : ds.length ≤ maxDigits) :
    readInteger radix t = .ok (ofDigits radix ds) := by
  have hds := h.underscored hne
  have hsign : takeSign t = (false, t) := takeSign_marked .none .none hds
  have hmarker : dropMarker radix t = t := dropMarker_append .none hds
  simp only [readInteger, h.stripped, hsign, hmarker, underscoredDigits?_eq hds,
    Nat.not_lt.mpr hlength, decide_false, Bool.and_false, Bool.false_eq_true, if_false]
  rfl

theorem readInteger_natText (hlo : 2 ≤ radix) (hhi : radix ≤ 36) (h : n < Nat.pow 2 53) :
    readInteger radix (natText radix n) = .ok n := by
  have hlength : (digitsIn radix n).length ≤ 53 := by
    have hpow : Nat.pow 2 53 ≤ Nat.pow radix 53 := Nat.pow_le_pow_left hlo 53
    simpa [natText] using length_natText_le (k := 52) (Nat.lt_of_lt_of_le h hpow) hlo
  rw [(plain_natText hlo hhi n).readInteger_eq (natText_ne_nil radix n)
    (Nat.le_trans hlength (by decide)), ofDigits_digitsIn]

/-- An ASCII character is a digit of a radix if its value, in either case, is below it. -/
theorem isRadixDigit_of_ascii (hc : c < 0x80) :
    isRadixDigit radix c = (charDigit? c).any (· < radix) := by
  have hlower : ∀ c < 0x80,
      charDigit? (if 0x41 ≤ c && c ≤ 0x5a then c + 32 else c) = charDigit? c := by decide
  simp only [isRadixDigit, Text.lowerPoint, if_pos hc, hlower c hc]
  cases charDigit? c <;> rfl

theorem Plain.digits (h : Plain radix t ds) : ∀ c ∈ t, isRadixDigit radix c = true := by
  intro c hc
  have hascii : c < 0x80 := Nat.lt_of_le_of_lt (h.bounds c hc).2 (by decide)
  rw [isRadixDigit_of_ascii hascii]
  induction h with
  | nil => cases hc
  | cons hd h ih =>
    obtain rfl | hc := List.mem_cons.mp hc
    · rw [hd.1]
      exact decide_eq_true hd.2
    · exact ih hc

/-- Blanks go from both ends, but not beyond what begins and ends with no blank. -/
theorem stripBy_append {p : Nat → Bool} (hne : t ≠ []) (hblanks : ∀ c ∈ blanks, p c = true)
    (ht : ∀ c ∈ t, p c = false) :
    Text.stripBy p (blanks ++ (t ++ more)) = t ++ Text.stripEndBy p more := by
  have hhead : ∀ c ∈ (t ++ more).head?, p c = false := by
    intro c hc
    rw [List.head?_append_of_ne_nil _ hne] at hc
    exact ht c (List.mem_of_mem_head? hc)
  have hback : t.reverse.dropWhile p = t.reverse :=
    Syntax.dropWhile_of_head fun c hc => ht c (List.mem_reverse.mp (List.mem_of_mem_head? hc))
  rw [Text.stripBy, Syntax.dropWhile_append_of_head hblanks hhead, List.reverse_append,
    List.dropWhile_append, hback, Text.stripEndBy]
  split
  · next hnone =>
    rw [List.isEmpty_iff.mp hnone, List.reverse_reverse, List.reverse_nil, List.append_nil]
  · rw [List.reverse_append, List.reverse_reverse]

theorem head?_stripEndBy {p : Nat → Bool} (h : c ∈ (Text.stripEndBy p more).head?) :
    c ∈ more.head? := by
  have hprefix : Text.stripEndBy p more <+: more :=
    List.reverse_suffix.mp (by simpa [Text.stripEndBy] using List.dropWhile_suffix p)
  obtain ⟨rest, hrest⟩ := hprefix
  rw [← hrest, List.head?_append, Option.mem_def.mp h]
  rfl

/-- A text that begins with no digit of a radix: nothing is left, or an ASCII character is first. -/
def EndsDigits (radix : Nat) (more : Text) : Prop :=
  ∀ c ∈ more.head?, c < 0x80 ∧ ∀ d, charDigit? c = some d → radix ≤ d

theorem EndsDigits.isRadixDigit (h : EndsDigits radix more) (hc : c ∈ more.head?) :
    isRadixDigit radix c = false := by
  obtain ⟨hascii, hvalue⟩ := h c hc
  rw [isRadixDigit_of_ascii hascii]
  cases hd : charDigit? c with
  | none => rfl
  | some d => exact decide_eq_false (Nat.not_lt.mpr (hvalue d hd))

theorem takeWhile_digits (h : Plain radix t ds) (hmore : EndsDigits radix more) :
    (t ++ more).takeWhile (isRadixDigit radix) = t := by
  rw [List.takeWhile_append_of_pos h.digits]
  cases more with
  | nil => exact List.append_nil t
  | cons c more =>
    rw [List.takeWhile_cons_of_neg (by simp [hmore.isRadixDigit rfl]), List.append_nil]

theorem letter_of_prefixRadix? (h : prefixRadix? t = some 16) :
    ∃ c rest, t = 0x30 :: c :: rest ∧ (c = 0x78 ∨ c = 0x58) := by
  unfold prefixRadix? at h
  split at h
  · next c rest =>
    refine ⟨c, rest, rfl, ?_⟩
    simp only [asciiLower, beq_iff_eq] at h
    grind
  · cases h

/-- A row of digits does not begin with `0x`, unless it is a zero and the letter follows. -/
theorem prefixRadix?_digits (h : Plain 16 t ds) (hne : t ≠ [])
    (hzero : t = [0x30] → more.head? ≠ some 0x78 ∧ more.head? ≠ some 0x58) :
    prefixRadix? (t ++ more) ≠ some 16 := by
  intro hprefix
  obtain ⟨c, rest, heq, hc⟩ := letter_of_prefixRadix? hprefix
  cases h with
  | nil => exact hne rfl
  | cons _ h =>
    obtain ⟨rfl, hrest⟩ := List.cons.inj heq
    cases h with
    | nil =>
      obtain ⟨hx, hX⟩ := hzero rfl
      obtain rfl : more = c :: rest := hrest
      obtain rfl | rfl := hc
      · exact hx rfl
      · exact hX rfl
    | cons hd h =>
      obtain ⟨rfl, -⟩ := List.cons.inj hrest
      obtain ⟨hvalue, hlt⟩ := hd
      -- as a digit the letter is 33
      obtain rfl | rfl := hc <;> cases hvalue <;> exact absurd hlt (by decide)

theorem isInf_ofInt {n : Int} (h : n.natAbs < Nat.pow 2 53) :
    (ofInt n).isInf = false ∧ (ofInt n).isFinite = true := by
  obtain rfl | hn := eq_or_ne n 0
  · decide
  · have hunpacked := unpacked_ofInt hn h
    exact ⟨congrArg Float.Model.UnpackedFloat.isInf hunpacked,
      congrArg Float.Model.UnpackedFloat.isFinite hunpacked⟩

theorem floatOfInt_eq {n : Int} (h : n.natAbs < Nat.pow 2 53) : floatOfInt n = .ok (ofInt n) := by
  rw [floatOfInt]
  exact if_neg (by simp [(isInf_ofInt h).1])

/-- An integer read with its sign is its size times one of that sign. -/
theorem mul_ofInt {n : Int} (h : n.natAbs < Nat.pow 2 53) :
    (if n < 0 then ofInt (-1) * ofInt n.natAbs else ofNat 1 * ofInt n.natAbs) = ofInt n := by
  obtain rfl | hn := eq_or_ne n 0
  · decide
  · have hpos := Int.natAbs_pos.mpr hn
    have hnormal := isNormal_significand hpos h
    have hsize : decode (ofInt n.natAbs) = .finite false (significand n.natAbs)
        ((n.natAbs.log2 : Int) - 52) := ofInt_natCast n.natAbs ▸ decode_ofNat hpos h
    have hwhole := decode_ofInt hn h
    have hone : decode (ofNat 1) = .finite false (2 ^ 52) (-52) := by decide
    have hminus : decode (ofInt (-1)) = .finite true (2 ^ 52) (-52) := by decide
    split
    · next hneg =>
      rw [decide_eq_true hneg] at hwhole
      exact mul_unit hminus hsize hnormal (by omega) hwhole
    · next hneg =>
      rw [decide_eq_false hneg] at hwhole
      exact mul_unit hone hsize hnormal (by omega) hwhole

theorem exists_sign_intText (radix : Nat) (n : Int) :
    ∃ s, intText radix n = s ++ natText radix n.natAbs ∧ Sign s (n < 0) := by
  unfold intText
  split
  · next hneg => exact ⟨[0x2d], rfl, decide_eq_true hneg ▸ .minus⟩
  · next hneg => exact ⟨[], rfl, decide_eq_false hneg ▸ .none⟩

theorem intText_not_blank (hlo : 2 ≤ radix) (hhi : radix ≤ 36) (n : Int) :
    ∀ c ∈ intText radix n, Text.isScriptBlank c = false := by
  intro c hc
  have hrange : c = 0x2d ∨ 0x30 ≤ c ∧ c ≤ 0x7a := by
    unfold intText at hc
    split at hc
    · exact (List.mem_cons.mp hc).imp_right ((plain_natText hlo hhi n.natAbs).bounds c)
    · exact .inr ((plain_natText hlo hhi n.natAbs).bounds c hc)
  rw [← Bool.not_eq_true]
  intro hblank
  simp only [Text.isScriptBlank, List.contains_iff_mem, List.mem_cons, List.not_mem_nil,
    or_false] at hblank
  omega

theorem eq_zero_of_natText (hlo : 2 ≤ radix) (hhi : radix ≤ 36) (h : natText radix n = [0x30]) :
    n = 0 := by
  have hds : Plain radix [0x30] (digitsIn radix n) := h ▸ plain_natText hlo hhi n
  cases hdigits : digitsIn radix n with
  | nil => exact absurd hdigits (digitsIn_ne_nil radix n)
  | cons d ds =>
    rw [hdigits] at hds
    obtain ⟨⟨⟨⟩, -⟩, ⟨⟩⟩ := List.forall₂_cons.mp hds
    rw [← ofDigits_digitsIn radix n, hdigits]
    exact (Nat.add_zero _).trans (Nat.zero_mul radix)

/-- What was printed of an integer is read as the integer. -/
theorem parseInt_intText {n : Int} (hn : n.natAbs < Nat.pow 2 53)
    (hlo : 2 ≤ radix) (hhi : radix ≤ 36)
    (hblanks : ∀ c ∈ blanks, Text.isScriptBlank c = true) (hmore : EndsDigits radix more)
    (hzero : n = 0 → radix = 16 → more.head? ≠ some 0x78 ∧ more.head? ≠ some 0x58) :
    parseInt (blanks ++ (intText radix n ++ more)) radix = .ok (ofInt n) := by
  have hds := plain_natText hlo hhi n.natAbs
  have hne := natText_ne_nil radix n.natAbs
  obtain ⟨s, hs, hsign⟩ := exists_sign_intText radix n
  have hstrip : Text.stripScript (blanks ++ (intText radix n ++ more)) =
      s ++ (natText radix n.natAbs ++ Text.stripEndBy Text.isScriptBlank more) := by
    have hprinted : intText radix n ≠ [] := hs ▸ List.append_ne_nil_of_right_ne_nil s hne
    rw [Text.stripScript, stripBy_append hprinted hblanks (intText_not_blank hlo hhi n), hs,
      List.append_assoc]
  generalize hrest : Text.stripEndBy Text.isScriptBlank more = rest at hstrip
  have hends : EndsDigits radix rest := fun c hc => hmore c (head?_stripEndBy (hrest ▸ hc))
  have htake : takeSign (s ++ (natText radix n.natAbs ++ rest)) =
      (decide (n < 0), natText radix n.natAbs ++ rest) := by
    have hfront : ∀ c ∈ (natText radix n.natAbs ++ rest).head?, 0x30 ≤ c := by
      intro c hc
      rw [List.head?_append_of_ne_nil _ hne] at hc
      exact (hds.bounds c (List.mem_of_mem_head? hc)).1
    exact takeSign_append hsign (fun h => absurd (hfront _ h) (by decide))
      fun h => absurd (hfront _ h) (by decide)
  have hhex : (((radix : Int) == 0 || (radix : Int) == 16) &&
      prefixRadix? (natText radix n.natAbs ++ rest) == some 16) = false := by
    by_cases hradix : radix = 16
    · subst hradix
      have hnone : prefixRadix? (natText 16 n.natAbs ++ rest) ≠ some 16 := by
        refine prefixRadix?_digits hds hne fun hdigits => ?_
        have hnumber : n = 0 := Int.natAbs_eq_zero.mp (eq_zero_of_natText hlo hhi hdigits)
        obtain ⟨hx, hX⟩ := hzero hnumber rfl
        exact ⟨fun h => hx (head?_stripEndBy (hrest ▸ h)),
          fun h => hX (head?_stripEndBy (hrest ▸ h))⟩
      rw [beq_eq_false_iff_ne.mpr hnone, Bool.and_false]
    · have hother : ((radix : Int) == 0 || (radix : Int) == 16) = false := by
        simp only [Bool.or_eq_false_iff, beq_eq_false_iff_ne]
        omega
      rw [hother, Bool.false_and]
  have hten : ((radix : Int) == 0) = false := beq_eq_false_iff_ne.mpr (by omega)
  have hradix : (decide ((radix : Int) < 2) || decide (36 < (radix : Int))) = false := by
    simp only [Bool.or_eq_false_iff, decide_eq_false_iff_not]
    omega
  have hempty : (natText radix n.natAbs).isEmpty = false := List.isEmpty_eq_false_iff.mpr hne
  have hsize : ((n.natAbs : Int)).natAbs < Nat.pow 2 53 := hn
  simp only [parseInt, hstrip, htake, hhex, Bool.false_eq_true, if_false]
  simp only [hten, hradix, Bool.false_eq_true, if_false, Int.toNat_natCast,
    takeWhile_digits hds hends, hempty, readInteger_natText hlo hhi hn]
  change (floatOfInt (n.natAbs : Int)).bind _ = _
  rw [floatOfInt_eq hsize]
  exact congrArg Except.ok ((if_congr decide_eq_true_iff rfl rfl).trans (mul_ofInt hn))

/-- A text is no number if it begins with no digit, no sign and no blank that is stripped. -/
theorem parseInt_of_no_digit (hlo : 2 ≤ radix) (hhi : radix ≤ 36)
    (hblank : Text.isScriptBlank c = false) (hsign : c ≠ 0x2b ∧ c ≠ 0x2d)
    (hdigit : isRadixDigit radix c = false) (t : Text) : parseInt (c :: t) radix = .ok nan := by
  obtain ⟨hplus, hminus⟩ := hsign
  have hstrip : Text.stripScript ([] ++ ([c] ++ t)) = [c] ++ Text.stripEndBy Text.isScriptBlank t :=
    stripBy_append (List.cons_ne_nil c []) nofun (List.forall_mem_singleton.mpr hblank)
  simp only [List.nil_append, List.cons_append] at hstrip
  generalize Text.stripEndBy Text.isScriptBlank t = rest at hstrip
  have htake : takeSign (c :: rest) = (false, c :: rest) :=
    takeSign_append .none (by simpa using hplus) (by simpa using hminus)
  have hhex : prefixRadix? (c :: rest) ≠ some 16 := by
    intro hprefix
    obtain ⟨x, rest, heq, -⟩ := letter_of_prefixRadix? hprefix
    obtain ⟨rfl, -⟩ := List.cons.inj heq
    have hzero : isRadixDigit radix 0x30 = decide (0 < radix) := isRadixDigit_of_ascii (by decide)
    rw [hzero, decide_eq_false_iff_not] at hdigit
    omega
  have hten : ((radix : Int) == 0) = false := beq_eq_false_iff_ne.mpr (by omega)
  have hradix : (decide ((radix : Int) < 2) || decide (36 < (radix : Int))) = false := by
    simp only [Bool.or_eq_false_iff, decide_eq_false_iff_not]
    omega
  simp only [parseInt, hstrip, htake, beq_eq_false_iff_ne.mpr hhex, Bool.and_false,
    Bool.false_eq_true, if_false]
  simp only [hten, hradix, Bool.false_eq_true, if_false, Int.toNat_natCast, List.takeWhile_cons,
    hdigit, List.isEmpty_nil, if_true]

/-- The em space is a blank of the language, but none of those. -/
example : parseInt (0x2003 :: Text.ofString "ff") 16 = .ok nan := by decide +kernel

theorem text_ofInt {n : Int} (h : n.natAbs < Nat.pow 2 53) : text (ofInt n) = intText 10 n := by
  have hsize := text_ofNat h
  by_cases hneg : n < 0
  · have hpos : 0 < n.natAbs := by omega
    have hsig := (isNormal_significand hpos h).pos.ne'
    rw [text, decode_ofNat hpos h] at hsize
    rw [text, decode_ofInt (Int.ne_of_lt hneg) h, intText, if_pos hneg, decide_eq_true hneg,
      ← hsize]
    simp only [hsig, if_false]
    rfl
  · obtain ⟨m, rfl⟩ := Int.eq_ofNat_of_zero_le (Int.not_lt.mp hneg)
    rw [ofInt_natCast, intText, if_neg hneg]
    exact hsize

theorem ofInt_sub_self {n : Int} (h : n.natAbs < Nat.pow 2 53) : ofInt n - ofInt n = ofNat 0 := by
  obtain rfl | hn := eq_or_ne n 0
  · decide
  · exact sub_self_of_finite (decode_ofInt hn h)
      (isNormal_significand (Int.natAbs_pos.mpr hn) h).pos

/-- An integer has nothing behind the point. -/
theorem radixText_ofInt {n : Int} (h : n.natAbs < Nat.pow 2 53) (radix : Nat) :
    radixText (ofInt n) radix = intText radix n := by
  have hzero : ((ofNat 0).abs == 0) = true := by decide
  simp only [radixText, truncate?_ofInt h, Option.getD_some, ofInt_sub_self h, hzero, if_true,
    List.append_nil]

end Stepper.Number

namespace Stepper.Builtin

open Machine Machine.Action Number Binary64

theorem integerPart_ofNat {k : Nat} (h : k < Nat.pow 2 53) : integerPart (ofNat k) = k := by
  rw [integerPart, isNaN_ofNat h, truncate?_ofNat h]
  rfl

theorem numberToText_eq {x y : Float} (h : ¬ (integerPart y < 2 ∨ 36 < integerPart y)) (c : Context)
    (w : World) : numberToText (.number x) (.number y) c w =
      .done (if integerPart y == 10 || !x.isFinite then Number.text x
        else Number.radixText x (integerPart y).toNat) w := by
  change (if integerPart y < 2 ∨ 36 < integerPart y then _ else _ : Action Text) c w = _
  rw [if_neg h]
  split
  · rfl
  · rfl

theorem numberToText_ofInt {n : Int} {radix : Nat} (hn : n.natAbs < Nat.pow 2 53) (hlo : 2 ≤ radix)
    (hhi : radix ≤ 36) (c : Context) (w : World) :
    numberToText (.number (ofInt n)) (.number (ofNat radix)) c w = .done (intText radix n) w := by
  have hradix := integerPart_ofNat (Nat.lt_of_le_of_lt hhi (by decide))
  rw [numberToText_eq (by rw [hradix]; omega), hradix, (isInf_ofInt hn).2, Int.toNat_natCast,
    radixText_ofInt hn]
  split
  · next hten =>
    have hcast : (radix : Int) = 10 := by simpa using hten
    obtain rfl : radix = 10 := Int.ofNat_inj.mp hcast
    rw [text_ofInt hn]
  · rfl

theorem callGlobal_parseInt (t : Text) (y : Float) (c : Context) (w : World) :
    callGlobal .parseInt [.text t, .number y] c w =
      (ofExcept (Number.parseInt t (integerPart y)) c w).bind fun x w => .done (.number x) w := by
  have htext : toText (arg [.text t, .number y] 0) c w = .done t w := toText_text t c w
  have hint : toInteger (.number y) c w = .done (integerPart y) w := rfl
  unfold callGlobal
  simp only [bind, Action.bind, htext, Course.bind]
  change ((toInteger (.number y) c w).bind _) = _
  rw [hint]
  rfl

/-- An integer that is printed in a radix and read in the same radix is what it was, with blanks put
in front, and with any text behind it that begins with no digit of the radix and makes no `0x` of a
zero. -/
theorem parseInt_toString {n : Int} (hn : n.natAbs < Nat.pow 2 53) {radix : Nat} (hlo : 2 ≤ radix)
    (hhi : radix ≤ 36) (c : Context) (w : World) :
    ∃ t, callNumber .toString (.number (ofInt n)) [.number (ofNat radix)] c w = .done (.text t) w ∧
      ∀ blanks more : Text, (∀ b ∈ blanks, Text.isScriptBlank b = true) → EndsDigits radix more →
        (n = 0 → radix = 16 → more.head? ≠ some 0x78 ∧ more.head? ≠ some 0x58) →
        callGlobal .parseInt [.text (blanks ++ (t ++ more)), .number (ofNat radix)] c w =
          .done (.number (ofInt n)) w := by
  refine ⟨intText radix n, ?_, fun blanks more hblanks hmore hzero => ?_⟩
  · have htext := numberToText_ofInt hn hlo hhi c w
    change Course.bind (fun t w => .done (Value.text t) w)
      (numberToText (.number (ofInt n)) (.number (ofNat radix)) c w) = _
    rw [htext]
    rfl
  · rw [callGlobal_parseInt, integerPart_ofNat (Nat.lt_of_le_of_lt hhi (by decide)),
      parseInt_intText hn hlo hhi hblanks hmore hzero]
    rfl

end Stepper.Builtin
