import Stepper.Proofs.Bits
import Stepper.Proofs.Ordering

/-!
Which texts stand for numbers. Apart from the blanks around it a text that does is empty, a signed
infinity, a signed decimal, or an integer behind a prefix. Decimals are written with the digits of
every script. What is behind a prefix is read as an integer of any form: with blanks and a sign in
front, with a second prefix, and with single underscores between its digits. All other texts are no
numbers, and no text that stands for a number stands for NaN.
-/
namespace Stepper.Number

open Binary64

variable {t u rest : Text} {ds : List Nat} {radix : Nat} {negative : Bool}

/-- The digits, of any script, that a text is written with. -/
def Digits (t : Text) (ds : List Nat) : Prop :=
  List.Forall₂ (fun c d => Text.decimalValue? c = some d) t ds

/-- There is no digit at the front. -/
def DigitsEnd (t : Text) : Prop := ∀ c ∈ t.head?, Text.decimalValue? c = none

/-- Digits are taken up to where they end. -/
theorem takeDigits_append (h : Digits u ds) (hrest : DigitsEnd rest) :
    takeDigits (u ++ rest) = (ds, rest) := by
  induction h with
  | nil =>
    cases rest with
    | nil => rfl
    | cons c rest => rw [List.nil_append, takeDigits, hrest c rfl]
  | cons hc h ih => rw [List.cons_append, takeDigits, hc, ih]

/-- What is taken is digits, and they end there. -/
theorem exists_digits (t : Text) :
    ∃ u, t = u ++ (takeDigits t).2 ∧ Digits u (takeDigits t).1 ∧ DigitsEnd (takeDigits t).2 := by
  induction t with
  | nil => exact ⟨[], rfl, .nil, nofun⟩
  | cons c t ih =>
    obtain ⟨u, ht, hu, hend⟩ := ih
    rw [takeDigits]
    cases hc : Text.decimalValue? c with
    | none => exact ⟨[], rfl, .nil, by rintro _ ⟨⟩; exact hc⟩
    | some d => exact ⟨c :: u, congrArg (c :: ·) ht, .cons hc hu, hend⟩

inductive Sign : Text → Bool → Prop
  | none : Sign [] false
  | plus : Sign [0x2b] false
  | minus : Sign [0x2d] true

/-- A sign is taken, and no second one. -/
theorem takeSign_append {s : Text} (hs : Sign s negative) (hplus : t.head? ≠ some 0x2b)
    (hminus : t.head? ≠ some 0x2d) : takeSign (s ++ t) = (negative, t) := by
  cases hs with
  | none =>
    rw [List.nil_append, takeSign.eq_def]
    split
    · exact absurd List.head?_cons hplus
    · exact absurd List.head?_cons hminus
    · rfl
  | plus => rfl
  | minus => rfl

theorem exists_sign (t : Text) : ∃ s, t = s ++ (takeSign t).2 ∧ Sign s (takeSign t).1 := by
  unfold takeSign
  split
  · exact ⟨[0x2b], rfl, .plus⟩
  · exact ⟨[0x2d], rfl, .minus⟩
  · exact ⟨[], rfl, .none⟩

/-- An exponent as written, with its value. -/
inductive Exponent : Text → Int → Prop
  | none : Exponent [] 0
  | some {c : Nat} {s t : Text} {negative : Bool} {ds : List Nat} (hc : c = 0x65 ∨ c = 0x45)
      (hs : Sign s negative) (hds : Digits t ds) (hne : ds ≠ []) :
      Exponent (c :: (s ++ t)) (withSign negative (ofDigits 10 ds))

/-- What a decimal of some digits begins with. -/
theorem Digits.exists_head (h : Digits t ds) (hne : ds ≠ []) :
    ∃ c d, t.head? = some c ∧ Text.decimalValue? c = some d := by
  cases h with
  | nil => exact absurd rfl hne
  | cons hc h => exact ⟨_, _, rfl, hc⟩

/-- An exponent is taken as it is written. -/
theorem takeExponent_eq {x : Int} (h : Exponent t x) : takeExponent t = (x, []) := by
  cases h with
  | none => rfl
  | @some c s t negative ds hc hs hds hne =>
    have hletter : (c == 0x65 || c == 0x45) = true := by simpa using hc
    obtain ⟨e, d, he, hd⟩ := hds.exists_head hne
    have hsign : takeSign (s ++ t) = (negative, t) := by
      refine takeSign_append hs ?_ ?_ <;> rw [he] <;> rintro ⟨⟩ <;> cases hd
    have hend : DigitsEnd [] := nofun
    have hdigits : takeDigits t = (ds, []) := by
      simpa using takeDigits_append hds hend
    obtain ⟨d, ds, rfl⟩ := List.exists_cons_of_ne_nil hne
    rw [takeExponent, if_pos hletter, hsign]
    simp only [hdigits]

theorem exponent_of_takeExponent {x : Int} (h : takeExponent t = (x, [])) : Exponent t x := by
  unfold takeExponent at h
  split at h
  · next c r =>
    split at h
    · next hc =>
      obtain ⟨s, hr, hs⟩ := exists_sign r
      obtain ⟨u, hu, hds, -⟩ := exists_digits (takeSign r).2
      cases hdigits : takeDigits (takeSign r).2 with
      | mk ds rest =>
        rw [hdigits] at hu hds
        simp only [hdigits] at h
        cases ds with
        | nil => cases h
        | cons d ds =>
          cases h
          rw [List.append_nil] at hu
          have hexponent := Exponent.some (by simpa using hc) hs (hu ▸ hds) (List.cons_ne_nil d ds)
          rwa [← hr] at hexponent
    · cases h
  · cases h
    exact .none

/-! ### Decimals -/

/-- An unsigned decimal as written: digits with an optional point and fraction, or a point and
digits, then an optional exponent. -/
inductive WritesDecimal : Text → DecimalText → Prop
  | whole {u e : Text} {ds : List Nat} {x : Int} (hds : Digits u ds) (hne : ds ≠ [])
      (he : Exponent e x) : WritesDecimal (u ++ e) ⟨ds, [], x⟩
  | point {u v e : Text} {ds fs : List Nat} {x : Int} (hds : Digits u ds) (hne : ds ≠ [])
      (hfs : Digits v fs) (he : Exponent e x) : WritesDecimal (u ++ 0x2e :: (v ++ e)) ⟨ds, fs, x⟩
  | fraction {v e : Text} {fs : List Nat} {x : Int} (hfs : Digits v fs) (hne : fs ≠ [])
      (he : Exponent e x) : WritesDecimal (0x2e :: (v ++ e)) ⟨[], fs, x⟩

theorem Exponent.digitsEnd {x : Int} (h : Exponent t x) : DigitsEnd t := by
  cases h with
  | none => nofun
  | some hc hs hds hne =>
    rintro _ ⟨⟩
    obtain rfl | rfl := hc <;> rfl

theorem digitsEnd_point (t : Text) : DigitsEnd (0x2e :: t) := by
  rintro _ ⟨⟩
  rfl

/-- A decimal is taken as it is written. -/
theorem takeDecimal_eq {d : DecimalText} (h : WritesDecimal t d) :
    takeDecimal t = some (d, []) := by
  cases h with
  | @whole u e ds x hds hne he =>
    obtain ⟨d, ds, rfl⟩ := List.exists_cons_of_ne_nil hne
    have hexponent := takeExponent_eq he
    rw [takeDecimal, takeDigits_append hds he.digitsEnd]
    cases he with
    | none => rfl
    | some hc =>
      obtain rfl | rfl := hc <;> simp only [hexponent]
  | @point u v e ds fs x hds hne hfs he =>
    obtain ⟨d, ds, rfl⟩ := List.exists_cons_of_ne_nil hne
    rw [takeDecimal, takeDigits_append hds (digitsEnd_point _)]
    simp only [takeDigits_append hfs he.digitsEnd, takeExponent_eq he]
  | @fraction v e fs x hfs hne he =>
    obtain ⟨d, fs, rfl⟩ := List.exists_cons_of_ne_nil hne
    have hnone : takeDigits (0x2e :: (v ++ e)) = ([], 0x2e :: (v ++ e)) :=
      takeDigits_append .nil (digitsEnd_point _)
    rw [takeDecimal, hnone]
    simp only [takeDigits_append hfs he.digitsEnd, takeExponent_eq he]

/-- What is taken to its end is a decimal. -/
theorem writesDecimal_of_takeDecimal {d : DecimalText} (h : takeDecimal t = some (d, [])) :
    WritesDecimal t d := by
  obtain ⟨u, ht, hds, -⟩ := exists_digits t
  cases hdigits : takeDigits t with
  | mk ds r =>
    rw [hdigits] at ht hds
    rw [takeDecimal, hdigits] at h
    split at h
    · next s heq =>
      obtain ⟨rfl, rfl⟩ := Prod.mk.inj heq
      obtain ⟨v, hs, hfs, -⟩ := exists_digits s
      obtain rfl : u = [] := by cases hds; rfl
      split at h
      · cases h
      · next fs r hne hfraction =>
        rw [hfraction] at hs hfs
        simp only [Option.some.injEq, Prod.mk.injEq] at h
        obtain ⟨rfl, hrest⟩ := h
        rw [ht, hs]
        refine .fraction hfs hne (exponent_of_takeExponent ?_)
        exact Prod.ext rfl hrest
    · cases h
    · next ds s hne heq =>
      obtain ⟨rfl, rfl⟩ := Prod.mk.inj heq
      obtain ⟨v, hs, hfs, -⟩ := exists_digits s
      simp only [Option.some.injEq, Prod.mk.injEq] at h
      obtain ⟨rfl, hrest⟩ := h
      have hdecimal := WritesDecimal.point hds hne hfs
        (exponent_of_takeExponent (Prod.ext rfl hrest))
      rwa [← hs, ← ht] at hdecimal
    · next hfraction hne hpoint heq =>
      obtain ⟨rfl, rfl⟩ := Prod.mk.inj heq
      simp only [Option.some.injEq, Prod.mk.injEq] at h
      obtain ⟨rfl, hrest⟩ := h
      rw [ht]
      exact .whole hds hne (exponent_of_takeExponent (Prod.ext rfl hrest))

/-! ### Integers behind a prefix -/

/-- Digits of a radix with single underscores between them. -/
inductive Underscored (radix : Nat) : Text → List Nat → Prop
  | last {c d : Nat} (hc : charDigit? c = some d) (hd : d < radix) : Underscored radix [c] [d]
  | next {c d : Nat} {t : Text} {ds : List Nat} (hc : charDigit? c = some d) (hd : d < radix)
      (h : Underscored radix t ds) : Underscored radix (c :: t) (d :: ds)
  | apart {c d : Nat} {t : Text} {ds : List Nat} (hc : charDigit? c = some d) (hd : d < radix)
      (h : Underscored radix t ds) : Underscored radix (c :: 0x5f :: t) (d :: ds)

theorem bind_charDigit?_iff {c : Nat} {f : Nat → Option (List Nat)} :
    ((charDigit? c).bind fun d => if d < radix then f d else none) = some ds ↔
      ∃ d, charDigit? c = some d ∧ d < radix ∧ f d = some ds := by
  simp only [Option.bind_eq_some_iff, Option.ite_none_right_eq_some]

/-- What is read with underscores has them between digits. -/
theorem underscored_of_eq (h : underscoredDigits? radix t = some ds) : Underscored radix t ds := by
  fun_induction underscoredDigits? radix t generalizing ds with
  | case1 => cases h
  | case2 c =>
    obtain ⟨d, hc, hd, ⟨⟩⟩ := bind_charDigit?_iff.mp h
    exact .last hc hd
  | case3 c t ih =>
    obtain ⟨d, hc, hd, hrest⟩ := bind_charDigit?_iff.mp h
    obtain ⟨ds, hds, rfl⟩ := Option.map_eq_some_iff.mp hrest
    exact .apart hc hd (ih hds)
  | case4 c t hne hapart ih =>
    obtain ⟨d, hc, hd, hrest⟩ := bind_charDigit?_iff.mp h
    obtain ⟨ds, hds, rfl⟩ := Option.map_eq_some_iff.mp hrest
    exact .next hc hd (ih hds)

theorem Underscored.exists_digit {c : Nat} (h : Underscored radix (c :: t) ds) :
    ∃ d, charDigit? c = some d ∧ d < radix := by
  cases h with
  | last hc hd => exact ⟨_, hc, hd⟩
  | next hc hd h => exact ⟨_, hc, hd⟩
  | apart hc hd h => exact ⟨_, hc, hd⟩

theorem underscoredDigits?_eq (h : Underscored radix t ds) :
    underscoredDigits? radix t = some ds := by
  induction h with
  | last hc hd =>
    rw [underscoredDigits?]
    exact bind_charDigit?_iff.mpr ⟨_, hc, hd, rfl⟩
  | apart hc hd h ih =>
    rw [underscoredDigits?]
    exact bind_charDigit?_iff.mpr ⟨_, hc, hd, by rw [ih]; rfl⟩
  | next hc hd h ih =>
    rw [underscoredDigits?]
    · exact bind_charDigit?_iff.mpr ⟨_, hc, hd, by rw [ih]; rfl⟩
    · rintro rfl
      cases h
    · rintro t rfl
      obtain ⟨d, hunderscore, -⟩ := h.exists_digit
      cases hunderscore

/-- What may stand in front of the digits of a radix. -/
inductive Marker (radix : Nat) : Text → Prop
  | none : Marker radix []
  | marked {m c : Nat} (hm : radixMarker? radix = some m) (hc : c = m ∨ c = m - 32) :
      Marker radix [0x30, c]
  | apart {m c : Nat} (hm : radixMarker? radix = some m) (hc : c = m ∨ c = m - 32) :
      Marker radix [0x30, c, 0x5f]

/-- The marker letter of a radix is no digit of it, and no underscore. -/
theorem radixMarker?_spec {m c : Nat} (hm : radixMarker? radix = some m)
    (hc : c = m ∨ c = m - 32) : c ≠ 0x5f ∧ ∀ d, charDigit? c = some d → radix ≤ d := by
  unfold radixMarker? at hm
  split_ifs at hm with h16 h8 h2 <;> obtain rfl := Option.some.inj hm <;>
    obtain rfl | rfl := hc <;> refine ⟨by decide, ?_⟩ <;> rintro d ⟨⟩ <;> simp [*]

/-- No digits begin like a prefix. -/
theorem Underscored.not_marked {m c : Nat} (hm : radixMarker? radix = some m)
    (hc : c = m ∨ c = m - 32) : ¬ Underscored radix (0x30 :: c :: t) ds := by
  obtain ⟨hunderscore, hdigit⟩ := radixMarker?_spec hm hc
  intro h
  cases h with
  | next _ _ h =>
    obtain ⟨d, hd, hlt⟩ := h.exists_digit
    exact absurd hlt (Nat.not_lt.mpr (hdigit d hd))
  | apart => exact hunderscore rfl

theorem exists_marker (radix : Nat) (t : Text) :
    ∃ m, t = m ++ dropMarker radix t ∧ Marker radix m := by
  unfold dropMarker
  split
  · next c r m hm =>
    split
    · next hc =>
      have hc : c = m ∨ c = m - 32 := by simpa using hc
      split
      · exact ⟨_, rfl, .apart hm hc⟩
      · exact ⟨_, rfl, .marked hm hc⟩
    · exact ⟨[], rfl, .none⟩
  · exact ⟨[], rfl, .none⟩

/-- A prefix that is written twice is dropped once. -/
theorem dropMarker_append {m : Text} (hm : Marker radix m) (h : Underscored radix t ds) :
    dropMarker radix (m ++ t) = t := by
  cases hm with
  | none =>
    rw [List.nil_append, dropMarker.eq_def]
    split
    · next c r m hm =>
      split
      · next hc => exact absurd h (Underscored.not_marked hm (by simpa using hc))
      · rfl
    · rfl
  | @marked m c hm hc =>
    have hc : (c == m || c == m - 32) = true := by simpa using hc
    change dropMarker radix (0x30 :: c :: t) = t
    simp only [dropMarker, hm, hc, if_true]
    split
    · obtain ⟨d, hunderscore, -⟩ := h.exists_digit
      cases hunderscore
    · rfl
  | @apart m c hm hc =>
    have hc : (c == m || c == m - 32) = true := by simpa using hc
    change dropMarker radix (0x30 :: c :: 0x5f :: t) = t
    simp only [dropMarker, hm, hc]
    rfl

/-- An integer as it may be written in a radix, blanks and digits of other scripts made plain. -/
inductive WritesInteger (radix : Nat) (t : Text) : Int → Prop
  | intro {s m u : Text} {negative : Bool} {ds : List Nat}
      (ht : Text.stripBy isAsciiBlank (t.map asciiForm) = s ++ (m ++ u)) (hs : Sign s negative)
      (hm : Marker radix m) (hds : Underscored radix u ds) :
      WritesInteger radix t (withSign negative (ofDigits radix ds))

/-- There is no sign in front of digits, marked or not. -/
theorem takeSign_marked {s m : Text} (hs : Sign s negative) (hm : Marker radix m)
    (h : Underscored radix t ds) : takeSign (s ++ (m ++ t)) = (negative, m ++ t) := by
  have hfront : ∃ c, (m ++ t).head? = some c ∧ (charDigit? c).isSome := by
    cases hm with
    | none =>
      obtain _ | ⟨c, t⟩ := t
      · cases h
      · obtain ⟨d, hc, -⟩ := h.exists_digit
        exact ⟨c, rfl, by rw [hc]; rfl⟩
    | marked => exact ⟨0x30, rfl, rfl⟩
    | apart => exact ⟨0x30, rfl, rfl⟩
  obtain ⟨c, hfront, hc⟩ := hfront
  refine takeSign_append hs ?_ ?_ <;> rw [hfront] <;> rintro ⟨⟩ <;> cases hc

/-- An integer is read as it is written. -/
theorem readInteger_of_writes {n : Int} (hradix : isPowerOfTwo radix = true)
    (h : WritesInteger radix t n) : readInteger radix t = .ok n := by
  obtain ⟨ht, hs, hm, hds⟩ := h
  simp only [readInteger, ht, takeSign_marked hs hm hds, dropMarker_append hm hds,
    underscoredDigits?_eq hds, hradix]
  rfl

/-- What is read is an integer that is written there. -/
theorem writesInteger_of_read {n : Int} (h : readInteger radix t = .ok n) :
    WritesInteger radix t n := by
  obtain ⟨s, hsign, hs⟩ := exists_sign (Text.stripBy isAsciiBlank (t.map asciiForm))
  obtain ⟨m, hmarker, hm⟩ :=
    exists_marker radix (takeSign (Text.stripBy isAsciiBlank (t.map asciiForm))).2
  simp only [readInteger] at h
  split at h
  · cases h
  · next ds hds =>
    split at h
    · cases h
    · cases h
      refine .intro ?_ hs hm (underscored_of_eq hds)
      rwa [← hmarker]

/-! ### Whole texts -/

/-- What a text without blanks around it stands for. -/
inductive Stands : Text → Except Fault Float → Prop
  | empty : Stands [] (.ok (ofNat 0))
  | infinite {s : Text} {negative : Bool} (hs : Sign s negative) :
      Stands (s ++ Text.ofString "Infinity") (.ok (negateIf negative infinity))
  | decimal {s u : Text} {negative : Bool} {d : DecimalText} (hs : Sign s negative)
      (hd : WritesDecimal u d) : Stands (s ++ u) (.ok (negateIf negative d.value))
  | integer {c radix : Nat} {r : Text} {n : Int}
      (hradix : prefixRadix? (0x30 :: c :: r) = some radix)
      (hr : WritesInteger radix r n) : Stands (0x30 :: c :: r) (floatOfInt n)

theorem negateIf_ne_nan {x : Float} (h : x ≠ nan) (negative : Bool) :
    negateIf negative x ≠ nan := by
  cases negative with
  | false => exact h
  | true => exact neg_ne_nan h

/-- A decimal is a number. -/
theorem DecimalText.value_ne_nan (d : DecimalText) : d.value ≠ nan := by
  simp only [DecimalText.value, ofDecimal]
  split_ifs
  · exact ofRatio_ne_nan _ _
  · decide
  · exact ofRatio_ne_nan _ _
  · exact ofRatio_ne_nan _ _
  · exact ofRatio_ne_nan _ _

theorem floatOfInt_ne_nan (n : Int) : floatOfInt n ≠ .ok nan := by
  rw [floatOfInt]
  split_ifs
  · exact nofun
  · exact fun h => negateIf_ne_nan (ofRatio_ne_nan _ _) _ (Except.ok.inj h)

/-- What stands for something stands for a number. -/
theorem Stands.ne_nan {x : Except Fault Float} (h : Stands t x) : x ≠ .ok nan := by
  cases h with
  | empty => exact fun h => ofRatio_ne_nan _ _ (Except.ok.inj h)
  | infinite => exact fun h => negateIf_ne_nan (by decide) _ (Except.ok.inj h)
  | @decimal _ _ _ d => exact fun h => negateIf_ne_nan d.value_ne_nan _ (Except.ok.inj h)
  | integer => exact floatOfInt_ne_nan _

/-- What announces a radix is no decimal. -/
theorem prefixRadix?_spec (h : prefixRadix? t = some radix) : ∃ c r, t = 0x30 :: c :: r ∧
    isPowerOfTwo radix = true ∧ ∀ d, takeDecimal t ≠ some (d, []) := by
  unfold prefixRadix? at h
  split at h
  · next c r =>
    have hletter : c ∈ [0x78, 0x58, 0x6f, 0x4f, 0x62, 0x42] ∧ isPowerOfTwo radix = true := by
      simp only [asciiLower, beq_iff_eq] at h
      grind [isPowerOfTwo]
    refine ⟨c, r, rfl, hletter.2, fun d hd => ?_⟩
    -- the digit zero is taken, and the letter is left
    have hzero : takeDecimal (0x30 :: c :: r) = some (⟨[0], [], 0⟩, c :: r) := by
      obtain ⟨hc, -⟩ := hletter
      simp only [List.mem_cons, List.not_mem_nil, or_false] at hc
      obtain rfl | rfl | rfl | rfl | rfl | rfl := hc <;> rfl
    rw [hzero] at hd
    cases hd
  · cases h

theorem ofString_infinity :
    Text.ofString "Infinity" = [0x49, 0x6e, 0x66, 0x69, 0x6e, 0x69, 0x74, 0x79] ∧
    Text.ofString "+Infinity" = 0x2b :: Text.ofString "Infinity" ∧
    Text.ofString "-Infinity" = 0x2d :: Text.ofString "Infinity" := by decide +kernel

theorem takeSign_decimal {s : Text} {d : DecimalText} (hs : Sign s negative)
    (hd : WritesDecimal u d) : takeSign (s ++ u) = (negative, u) := by
  have htake := takeDecimal_eq hd
  have hsign (c : Nat) (hc : ∀ r, takeDecimal (c :: r) = none) : u.head? ≠ some c := by
    intro hhead
    obtain ⟨r, rfl⟩ := List.head?_eq_some_iff.mp hhead
    rw [hc] at htake
    cases htake
  exact takeSign_append hs (hsign _ fun _ => rfl) (hsign _ fun _ => rfl)

/-- A text is what it stands for without the blanks around it. -/
theorem ofText_of_stands {x : Except Fault Float} (h : Stands (Text.stripScript t) x) :
    ofText t = x := by
  obtain ⟨hinfinity, hplus, hminus⟩ := ofString_infinity
  unfold ofText
  generalize Text.stripScript t = u at h
  cases h with
  | empty => rfl
  | infinite hs => cases hs <;> decide +kernel
  | @decimal s u negative d hs hd =>
    have hsign := takeSign_decimal hs hd
    have htake := takeDecimal_eq hd
    -- what begins as a decimal does is nothing else
    have hne (v : Text) (hv : takeDecimal (takeSign v).2 = none) : s ++ u ≠ v := by
      rintro rfl
      rw [hsign, htake] at hv
      cases hv
    have hradix : prefixRadix? (s ++ u) = none := by
      refine Option.eq_none_iff_forall_ne_some.mpr fun radix hradix => ?_
      obtain ⟨c, r, ht, -, hnot⟩ := prefixRadix?_spec hradix
      have hu : (false, s ++ u) = (negative, u) := by rw [← hsign, ht]; rfl
      exact hnot d (by rw [(Prod.mk.inj hu).2, htake])
    simp [hne [] rfl, hne (Text.ofString "Infinity") (by rw [hinfinity]; rfl),
      hne (Text.ofString "+Infinity") (by rw [hplus, hinfinity]; rfl),
      hne (Text.ofString "-Infinity") (by rw [hminus, hinfinity]; rfl), hradix, hsign, htake]
  | @integer c radix r n hradix hr =>
    obtain ⟨-, -, -, hpower, -⟩ := prefixRadix?_spec hradix
    simp [hradix, hinfinity, hplus, hminus, readInteger_of_writes hpower hr]

/-- A text that is a number stands for it. -/
theorem stands_ofText (h : ofText t ≠ .ok nan) : Stands (Text.stripScript t) (ofText t) := by
  obtain ⟨-, hplus, hminus⟩ := ofString_infinity
  unfold ofText at h ⊢
  generalize Text.stripScript t = u at h ⊢
  dsimp only at h ⊢
  split_ifs at h ⊢ with hempty hinfinity hnegative
  · rw [List.isEmpty_iff.mp hempty]
    exact .empty
  · simp only [Bool.or_eq_true, beq_iff_eq] at hinfinity
    obtain rfl | rfl := hinfinity
    · exact .infinite .none
    · rw [hplus]
      exact .infinite .plus
  · rw [beq_iff_eq.mp hnegative, hminus]
    exact .infinite .minus
  · cases hradix : prefixRadix? u with
    | some radix =>
      obtain ⟨c, r, rfl, -⟩ := prefixRadix?_spec hradix
      simp only [hradix] at h ⊢
      cases hn : readInteger radix r with
      | ok n =>
        have hread : readInteger radix ((0x30 :: c :: r).drop 2) = .ok n := hn
        simp only [hread]
        exact .integer hradix (writesInteger_of_read hn)
      | error =>
        have hread : readInteger radix ((0x30 :: c :: r).drop 2) = .error _ := hn
        simp only [hread] at h
        exact absurd rfl h
    | none =>
      simp only [hradix] at h ⊢
      split at h
      · next d htake =>
        obtain ⟨s, hu, hs⟩ := exists_sign u
        have hstands := Stands.decimal hs (writesDecimal_of_takeDecimal htake)
        rwa [← hu] at hstands
      · exact absurd rfl h

/-- A text stands for a number exactly if it is written like one, and for the one it is written
like. -/
theorem ofText_ne_nan_iff (t : Text) :
    ofText t ≠ .ok nan ↔ Stands (Text.stripScript t) (ofText t) :=
  ⟨stands_ofText, Stands.ne_nan⟩

/-- Digits of a radix with nothing between them. -/
def Plain (radix : Nat) (t : Text) (ds : List Nat) : Prop :=
  List.Forall₂ (fun c d => charDigit? c = some d ∧ d < radix) t ds

theorem Plain.underscored (h : Plain radix t ds) (hne : t ≠ []) : Underscored radix t ds := by
  induction h with
  | nil => exact absurd rfl hne
  | @cons c d t ds hc h ih =>
    cases h with
    | nil => exact .last hc.1 hc.2
    | cons => exact .next hc.1 hc.2 (ih (List.cons_ne_nil _ _))

theorem charDigit?_bounds {c d : Nat} (h : charDigit? c = some d) : 0x30 ≤ c ∧ c ≤ 0x7a := by
  unfold charDigit? at h
  split_ifs at h <;> omega

theorem Plain.bounds (h : Plain radix t ds) : ∀ c ∈ t, 0x30 ≤ c ∧ c ≤ 0x7a := by
  induction h with
  | nil => nofun
  | cons hc h ih => exact List.forall_mem_cons.mpr ⟨charDigit?_bounds hc.1, ih⟩

/-- In plain digits there is nothing to be made plain. -/
theorem Plain.stripped (h : Plain radix t ds) :
    Text.stripBy isAsciiBlank (t.map asciiForm) = t := by
  have hascii : t.map asciiForm = t := by
    refine (List.map_congr_left fun c hc => ?_).trans t.map_id
    obtain ⟨-, hle⟩ := h.bounds c hc
    exact if_pos (by omega)
  have hblank : ∀ c ∈ t, isAsciiBlank c = false := by
    intro c hc
    obtain ⟨hle, -⟩ := h.bounds c hc
    rw [← Bool.not_eq_true]
    simp only [isAsciiBlank, Bool.or_eq_true, Bool.and_eq_true, decide_eq_true_eq, beq_iff_eq]
    omega
  rw [hascii, stripBy_eq_self hblank]

/-- Plain digits write the integer they are. -/
theorem Plain.writesInteger (h : Plain radix t ds) (hne : t ≠ []) :
    WritesInteger radix t (ofDigits radix ds) :=
  .intro h.stripped .none .none (h.underscored hne)

/-- Plain digits behind a prefix stand for the number that they are in the radix. -/
theorem ofText_plain {c : Nat} (ht : Text.stripScript t = 0x30 :: c :: u)
    (hradix : prefixRadix? (0x30 :: c :: u) = some radix) (hds : Plain radix u ds) (hne : u ≠ []) :
    ofText t = floatOfInt (ofDigits radix ds) :=
  ofText_of_stands (ht ▸ .integer hradix (hds.writesInteger hne))

/-- What is behind a prefix may have blanks, a sign, a second prefix and underscores. -/
example : ofText (Text.ofString "0x 1") = .ok (ofNat 1) ∧
    ofText (Text.ofString "0x-1") = .ok (-ofNat 1) ∧
    ofText (Text.ofString "0x0x1") = .ok (ofNat 1) ∧
    ofText (Text.ofString "0x1_0") = .ok (ofNat 16) := by decide +kernel

end Stepper.Number
