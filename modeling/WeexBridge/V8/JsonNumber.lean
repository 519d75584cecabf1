/-
# Reading a number of JSON

What `ParseJsonNumber` takes for a number is a number of the grammar, and as much of the
source as can be one.  A short integer is computed on the way; anything else goes to
`StringToDouble` as it is written.
-/
import WeexBridge.V8.JsonScan

namespace WeexBridge.V8

open Decimal JsonGrammar

namespace JsonParser

/-- The value of a number that is written `t`, with `digits` behind the sign. -/
def numeralValue (stringToDouble : List UInt8 → UInt64) (t : Text) (negative : Bool)
    (digits : Text) : JsNumber :=
  if digits.all isDigit ∧ digits.length < 10 ∧ digits.head? ≠ some 0x30 then
    let i : Int := decimalValue digits
    .smi (if negative then -i else i)
  else stringToNumber stringToDouble t

/-- The value of a number as it is written. -/
def numberOf (stringToDouble : List UInt8 → UInt64) (t : Text) : JsNumber :=
  if t.head? = some 0x2D then numeralValue stringToDouble t true t.tail
  else numeralValue stringToDouble t false t

/-! ## What follows the integer -/

section
variable {platform : ParserPlatform}

theorem startsWithDigit_cons {c : UInt16} (h : isDigit c = true) (t : Source) :
    startsWithDigit (c :: t) = true := h

theorem not_startsWithDigit {t : Source} (h : NoDigit t) : startsWithDigit t = false := by
  cases t with
  | nil => rfl
  | cons c t => exact h c rfl

/-- The exponents start with the same letter in lower case. -/
theorem or_eq_iff {e : UInt16} : e ||| 0x20 = 0x65 ↔ e = 0x65 ∨ e = 0x45 := by
  constructor
  · intro h
    have hlt : e.toNat < 128 := by
      have hle : e.toNat ≤ (e ||| 0x20).toNat := by
        rw [UInt16.toNat_or]
        exact Nat.left_le_or
      rw [h] at hle
      exact Nat.lt_of_le_of_lt hle (by decide)
    have hall : ∀ n < 128, UInt16.ofNat n ||| 0x20 = 0x65 →
        UInt16.ofNat n = 0x65 ∨ UInt16.ofNat n = 0x45 := by
      decide +kernel
    have hone := hall e.toNat hlt
    rw [UInt16.ofNat_toNat] at hone
    exact hone h
  · rintro (rfl | rfl) <;> decide

theorem scanExponent_of_ne {start source : Source}
    (h : ∀ c, source.head? = some c → c ≠ 0x65 ∧ c ≠ 0x45) :
    scanExponent platform start source = finishNumber platform start source := by
  unfold scanExponent
  refine if_neg ?_
  cases source with
  | nil => nofun
  | cons c source =>
      intro hc
      rcases or_eq_iff.mp (of_decide_eq_true hc) with hc | hc
      · exact (h c rfl).1 hc
      · exact (h c rfl).2 hc

theorem scanExponent_append {fraction exponent rest : Text} (h : Exponent exponent)
    (hrest : Maximal fraction exponent rest) (start : Source) :
    scanExponent platform start (exponent ++ rest) = finishNumber platform start rest := by
  cases h with
  | none => exact scanExponent_of_ne (hrest.noExponent rfl)
  | @digits e sign c t he hsign hc ht =>
      have hrun : (c :: t ++ rest).dropWhile isDigit = rest :=
        dropWhile_digits (ht.cons hc) hrest.noDigit
      have hhead : ((e :: (sign ++ c :: t) ++ rest).head?.any fun e => e ||| 0x20 = 0x65) = true :=
        decide_eq_true (or_eq_iff.mpr he)
      have hskip : (if (sign ++ c :: t ++ rest).head? = some 0x2D ∨
          (sign ++ c :: t ++ rest).head? = some 0x2B then (sign ++ c :: t ++ rest).tail
          else sign ++ c :: t ++ rest) = c :: t ++ rest := by
        rcases hsign with rfl | rfl | rfl
        · refine if_neg ?_
          rintro (hc' | hc') <;> cases hc' <;> exact absurd hc (by decide)
        · rfl
        · rfl
      unfold scanExponent
      rw [if_pos hhead]
      dsimp only [List.cons_append, List.tail_cons] at hskip ⊢
      rw [hskip, if_pos (startsWithDigit_cons hc _)]
      exact congrArg (finishNumber platform start) hrun

theorem scanFraction_point {c : UInt16} {t rest : Source} (hc : isDigit c = true) (ht : Digits t)
    (hrest : NoDigit rest) (start : Source) :
    scanFraction platform start (0x2E :: c :: (t ++ rest)) = scanExponent platform start rest := by
  have hrun : (c :: t ++ rest).dropWhile isDigit = rest := dropWhile_digits (ht.cons hc) hrest
  unfold scanFraction
  rw [if_pos List.head?_cons]
  dsimp only [List.tail_cons]
  rw [if_pos (startsWithDigit_cons hc _)]
  exact congrArg (scanExponent platform start) hrun

theorem scanFraction_of_ne {start source : Source} (h : source.head? ≠ some 0x2E) :
    scanFraction platform start source = scanExponent platform start source := if_neg h

theorem scanFraction_append (platform : ParserPlatform) {fraction exponent rest : Text}
    (hf : Fraction fraction)
    (he : Exponent exponent) (hrest : Maximal fraction exponent rest) (start : Source) :
    scanFraction platform start (fraction ++ (exponent ++ rest)) =
      finishNumber platform start rest := by
  have hnext : NoDigit (exponent ++ rest) := by
    cases he with
    | none => exact hrest.noDigit
    | digits he =>
        intro c hc
        cases hc
        rcases he with rfl | rfl <;> decide
  cases hf with
  | none =>
      have hpoint : (exponent ++ rest).head? ≠ some 0x2E := by
        cases he with
        | none => exact hrest.noPoint rfl rfl
        | digits he =>
            intro hc
            cases hc
            rcases he with h | h <;> exact absurd h (by decide)
      exact (scanFraction_of_ne hpoint).trans (scanExponent_append he hrest start)
  | digits hc ht =>
      exact (scanFraction_point hc ht hnext start).trans (scanExponent_append he hrest start)

/-! ## A whole number -/

theorem finishNumber_append (t rest : Text) :
    finishNumber platform (t ++ rest) rest =
      .ok (stringToNumber platform.stringToDouble t, skipWhitespace rest) := by
  have htake : (t ++ rest).take ((t ++ rest).length - rest.length) = t := by
    rw [List.length_append, Nat.add_sub_cancel, List.take_left]
  unfold finishNumber
  rw [htake]

theorem endsInteger_iff {source : Source} : endsInteger source = true ↔
    source.head? ≠ some 0x2E ∧ source.head? ≠ some 0x65 ∧ source.head? ≠ some 0x45 := by
  simp only [endsInteger, Bool.and_eq_true, decide_eq_true_eq, ne_eq, and_assoc]

/-- What follows the integer ends it only if there is neither a fraction nor an exponent. -/
theorem endsInteger_append {fraction exponent rest : Text} (hf : Fraction fraction)
    (he : Exponent exponent) (hrest : Maximal fraction exponent rest) :
    endsInteger (fraction ++ (exponent ++ rest)) = true ↔ fraction = [] ∧ exponent = [] := by
  rw [endsInteger_iff]
  constructor
  · rintro ⟨hpoint, hlower, hupper⟩
    cases hf with
    | digits _ _ => exact absurd rfl hpoint
    | none =>
        cases he with
        | none => exact ⟨rfl, rfl⟩
        | digits he =>
            rcases he with rfl | rfl
            · exact absurd rfl hlower
            · exact absurd rfl hupper
  · rintro ⟨rfl, rfl⟩
    exact ⟨hrest.noPoint rfl rfl, fun h => (hrest.noExponent rfl _ h).1 rfl,
      fun h => (hrest.noExponent rfl _ h).2 rfl⟩

/-- Only an integer consists of digits. -/
theorem all_isDigit_iff {integer fraction exponent : Text} (hi : Numeral integer)
    (hf : Fraction fraction) (he : Exponent exponent) :
    (integer ++ (fraction ++ exponent)).all isDigit = true ↔ fraction = [] ∧ exponent = [] := by
  constructor
  · intro h
    rw [List.all_append, List.all_append, Bool.and_eq_true, Bool.and_eq_true] at h
    obtain ⟨-, hfraction, hexponent⟩ := h
    constructor
    · cases hf with
      | none => rfl
      | digits _ _ => cases hfraction
    · cases he with
      | none => rfl
      | digits he _ _ _ => rcases he with rfl | rfl <;> cases hexponent
  · rintro ⟨rfl, rfl⟩
    exact List.all_eq_true.mpr fun c hc => hi.isDigits c (by simpa using hc)

theorem noDigit_tail {fraction exponent rest : Text} (hf : Fraction fraction)
    (he : Exponent exponent) (hrest : Maximal fraction exponent rest) :
    NoDigit (fraction ++ (exponent ++ rest)) := by
  intro c hc
  cases hf with
  | digits _ _ =>
      cases hc
      rfl
  | none =>
      cases he with
      | none => exact hrest.noDigit c hc
      | digits he _ _ _ =>
          cases hc
          rcases he with rfl | rfl <;> rfl

theorem parseInteger_zero {tail : Source} (h : NoDigit tail) (start : Source) (negative : Bool) :
    parseInteger platform start negative (0x30 :: tail) = scanFraction platform start tail := by
  unfold parseInteger
  rw [if_pos List.head?_cons, List.tail_cons, not_startsWithDigit h]
  rfl

theorem parseInteger_digits {c : UInt16} {s tail : Source} (hc : isDigit c = true)
    (hzero : c ≠ 0x30) (hs : Digits s) (htail : NoDigit tail) (start : Source) (negative : Bool) :
    parseInteger platform start negative (c :: s ++ tail) =
      if endsInteger tail && (c :: s).length < 10 then
        .ok (.smi (if negative then -(decimalValue (c :: s) : Int) else decimalValue (c :: s)),
          skipWhitespace tail)
      else scanFraction platform start tail := by
  have hhead : (c :: s ++ tail).head? ≠ some 0x30 := fun h => hzero (Option.some.inj h)
  have hdigit : startsWithDigit (c :: s ++ tail) = true := hc
  have hrun : (c :: s ++ tail).dropWhile isDecimalDigit = tail :=
    dropWhile_digits (hs.cons hc) htail
  have hdigits : (c :: s ++ tail).takeWhile isDecimalDigit = c :: s :=
    takeWhile_digits (hs.cons hc) htail
  unfold parseInteger
  rw [if_neg hhead, if_pos hdigit, hrun, hdigits]

/-- What stands behind the sign is read to its end. -/
theorem parseInteger_append {integer fraction exponent rest : Text} (hi : Numeral integer)
    (hf : Fraction fraction) (he : Exponent exponent) (hrest : Maximal fraction exponent rest)
    {t : Text} (negative : Bool) {start : Source} (hstart : start = t ++ rest) :
    parseInteger platform start negative (integer ++ (fraction ++ (exponent ++ rest))) =
      .ok (numeralValue platform.stringToDouble t negative (integer ++ (fraction ++ exponent)),
        skipWhitespace rest) := by
  have htail := noDigit_tail hf he hrest
  have hscan := scanFraction_append platform hf he hrest start
  rw [hstart, finishNumber_append, ← hstart] at hscan
  have hall := all_isDigit_iff hi hf he
  have hends := endsInteger_append hf he hrest
  cases hi with
  | zero =>
      have hvalue :
          numeralValue platform.stringToDouble t negative ([0x30] ++ (fraction ++ exponent)) =
          stringToNumber platform.stringToDouble t := if_neg fun h => h.2.2 rfl
      exact (parseInteger_zero htail start negative).trans (hscan.trans (by rw [hvalue]))
  | @digits c s hc hzero hs =>
      rw [parseInteger_digits hc hzero hs htail]
      unfold numeralValue
      by_cases hnone : fraction = [] ∧ exponent = []
      · obtain ⟨rfl, rfl⟩ := hnone
        rw [List.append_nil, List.append_nil] at hall ⊢
        have hhead : (c :: s).head? ≠ some 0x30 := fun h => hzero (Option.some.inj h)
        by_cases hlength : (c :: s).length < 10
        · have hsmi : (c :: s).all isDigit = true ∧ (c :: s).length < 10 ∧
              (c :: s).head? ≠ some 0x30 := ⟨hall.mpr ⟨rfl, rfl⟩, hlength, hhead⟩
          rw [hends.mpr ⟨rfl, rfl⟩, decide_eq_true hlength, if_pos (Bool.and_self true),
            if_pos hsmi]
          rfl
        · rw [decide_eq_false hlength, Bool.and_false, if_neg Bool.false_ne_true,
            if_neg fun h => hlength h.2.1]
          exact hscan
      · have hgoes : endsInteger (fraction ++ (exponent ++ rest)) = false :=
          Bool.eq_false_iff.mpr fun h => hnone (hends.mp h)
        rw [hgoes, Bool.false_and, if_neg Bool.false_ne_true, if_neg fun h => hnone (hall.mp h.1)]
        exact hscan

/-- A number of the grammar is read to its end. -/
theorem parseJsonNumber_append {sign integer fraction exponent rest : Text}
    (hsign : sign = [] ∨ sign = [0x2D]) (hi : Numeral integer) (hf : Fraction fraction)
    (he : Exponent exponent) (hrest : Maximal fraction exponent rest) :
    parseJsonNumber platform (sign ++ (integer ++ (fraction ++ exponent)) ++ rest) =
      .ok (numberOf platform.stringToDouble (sign ++ (integer ++ (fraction ++ exponent))),
        skipWhitespace rest) := by
  have htext : integer ++ (fraction ++ exponent) ++ rest =
      integer ++ (fraction ++ (exponent ++ rest)) := by
    rw [List.append_assoc, List.append_assoc]
  rcases hsign with rfl | rfl
  · have hhead : ∀ more, (integer ++ more).head? ≠ some 0x2D := by
      intro more h
      cases hi with
      | zero => exact absurd (Option.some.inj h) (by decide)
      | digits hc _ _ =>
          cases Option.some.inj h
          exact absurd hc (by decide)
    unfold parseJsonNumber numberOf
    rw [List.nil_append, if_neg (hhead _), htext, if_neg (hhead _)]
    exact parseInteger_append hi hf he hrest false htext.symm
  · have hsign : ∀ more : Text, ([0x2D] ++ more).head? = some 0x2D := fun _ => rfl
    unfold parseJsonNumber numberOf
    rw [List.append_assoc, if_pos (hsign _), if_pos (hsign _), htext]
    exact parseInteger_append hi hf he hrest true (by rw [List.append_assoc, htext])

theorem parseJsonNumber_eq (platform : ParserPlatform) {t rest : Text} (h : Number t)
    (hrest : EndsNumber rest) :
    parseJsonNumber platform (t ++ rest) =
      .ok (numberOf platform.stringToDouble t, skipWhitespace rest) := by
  obtain ⟨hsign, hi, hf, he⟩ := h
  exact parseJsonNumber_append hsign hi hf he (hrest.maximal _ _)

/-! ## What is no number -/

/-- The result is an error about a character of the source. -/
def Fails {α : Type} (source : Source) (result : Parsed α) : Prop :=
  ∃ failure, result = .error failure ∧ Unexpected source failure

theorem fails_report {α : Type} {rest source : Source} (h : rest <:+ source) :
    Fails source (reportUnexpectedCharacter rest : Parsed α) :=
  ⟨_, rfl, rest, rfl, h⟩

theorem Fails.of_suffix {α : Type} {source source' : Source} {result : Parsed α}
    (h : Fails source result) (hsuffix : source <:+ source') : Fails source' result := by
  obtain ⟨failure, hresult, hfailure⟩ := h
  exact ⟨failure, hresult, hfailure.of_suffix hsuffix⟩

theorem exists_of_startsWithDigit {source : Source} (h : startsWithDigit source = true) :
    ∃ c d rest, isDigit c = true ∧ Digits d ∧ NoDigit rest ∧ source = c :: (d ++ rest) := by
  cases source with
  | nil => cases h
  | cons c source =>
      obtain ⟨d, rest, hd, hrest, rfl⟩ := exists_digits source
      exact ⟨c, d, rest, h, hd, hrest, rfl⟩

/-- The sign of an exponent. -/
theorem exists_sign (source : Source) : ∃ sign, (sign = [] ∨ sign = [0x2D] ∨ sign = [0x2B]) ∧
    source = sign ++ (if source.head? = some 0x2D ∨ source.head? = some 0x2B then source.tail
      else source) := by
  split_ifs with h
  · cases source with
    | nil => rcases h with h | h <;> cases h
    | cons c source =>
        rcases h with h | h
        · exact ⟨[0x2D], .inr (.inl rfl), by rw [← Option.some.inj h]; rfl⟩
        · exact ⟨[0x2B], .inr (.inr rfl), by rw [← Option.some.inj h]; rfl⟩
  · exact ⟨[], .inl rfl, rfl⟩

theorem exponent_or_fails (platform : ParserPlatform) {source : Source} (h : NoDigit source) :
    (∃ exponent rest, Exponent exponent ∧ source = exponent ++ rest ∧ NoDigit rest ∧
      (exponent = [] → ∀ c, rest.head? = some c → c ≠ 0x65 ∧ c ≠ 0x45)) ∨
    ∀ start, Fails source (scanExponent platform start source) := by
  by_cases he : source.head?.any (fun e => e ||| 0x20 = 0x65) = true
  · cases source with
    | nil => cases he
    | cons e source =>
        have hletter := or_eq_iff.mp (of_decide_eq_true he)
        obtain ⟨sign, hsign, hsource⟩ := exists_sign source
        generalize hbehind : (if source.head? = some 0x2D ∨ source.head? = some 0x2B then
          source.tail else source) = behind at hsource
        cases hdigit : startsWithDigit behind with
        | true =>
            obtain ⟨c, d, rest, hc, hd, hrest, rfl⟩ := exists_of_startsWithDigit hdigit
            refine .inl ⟨e :: (sign ++ c :: d), rest, .digits hletter hsign hc hd, ?_, hrest, nofun⟩
            rw [hsource, List.cons_append, List.append_assoc]
            rfl
        | false =>
            refine .inr fun start => ?_
            unfold scanExponent
            rw [if_pos he]
            dsimp only [List.tail_cons]
            rw [hbehind, hdigit]
            exact fails_report ((hsource ▸ List.suffix_append sign behind).trans
              (List.suffix_cons e source))
  · refine .inl ⟨[], source, .none, rfl, h, fun _ c hc => ?_⟩
    cases source with
    | nil => cases hc
    | cons d source =>
        cases Option.some.inj hc
        exact not_or.mp fun hletter => he (decide_eq_true (or_eq_iff.mpr hletter))

theorem fraction_or_fails (platform : ParserPlatform) {source : Source} (h : NoDigit source) :
    (∃ fraction exponent rest, Fraction fraction ∧ Exponent exponent ∧
      source = fraction ++ (exponent ++ rest) ∧ Maximal fraction exponent rest) ∨
    ∀ start, Fails source (scanFraction platform start source) := by
  by_cases hpoint : source.head? = some 0x2E
  · cases source with
    | nil => cases hpoint
    | cons c source =>
        cases hpoint
        cases hdigit : startsWithDigit source with
        | true =>
            obtain ⟨c, d, rest, hc, hd, hrest, rfl⟩ := exists_of_startsWithDigit hdigit
            rcases exponent_or_fails platform hrest with
              ⟨exponent, rest, he, rfl, hnodigit, hnone⟩ | hfails
            · exact .inl ⟨0x2E :: c :: d, exponent, rest, .digits hc hd, he, rfl,
                ⟨hnodigit, hnone, nofun⟩⟩
            · refine .inr fun start => ?_
              rw [scanFraction_point hc hd hrest]
              exact (hfails start).of_suffix (List.suffix_append (0x2E :: c :: d) rest)
        | false =>
            refine .inr fun start => ?_
            unfold scanFraction
            rw [if_pos List.head?_cons]
            dsimp only [List.tail_cons]
            rw [hdigit]
            exact fails_report (List.suffix_cons _ _)
  · rcases exponent_or_fails platform h with
      ⟨exponent, rest, he, rfl, hnodigit, hnone⟩ | hfails
    · refine .inl ⟨[], exponent, rest, .none, he, rfl, ⟨hnodigit, hnone, fun _ hexponent => ?_⟩⟩
      rw [hexponent] at hpoint
      exact hpoint
    · refine .inr fun start => ?_
      rw [scanFraction_of_ne hpoint]
      exact hfails start

/-- Behind the sign. -/
theorem integer_or_fails (platform : ParserPlatform) (source : Source) :
    (∃ integer fraction exponent rest, Numeral integer ∧ Fraction fraction ∧ Exponent exponent ∧
      source = integer ++ (fraction ++ (exponent ++ rest)) ∧ Maximal fraction exponent rest) ∨
    ∀ start negative, Fails source (parseInteger platform start negative source) := by
  cases hdigit : startsWithDigit source with
  | false =>
      refine .inr fun start negative => ?_
      have hzero : source.head? ≠ some 0x30 := by
        intro h
        rw [startsWithDigit, h] at hdigit
        exact absurd hdigit (by decide)
      unfold parseInteger
      rw [if_neg hzero, hdigit]
      exact fails_report (List.suffix_refl _)
  | true =>
      obtain ⟨c, d, tail, hc, hd, htail, rfl⟩ := exists_of_startsWithDigit hdigit
      have htails : (∃ fraction exponent rest, Fraction fraction ∧ Exponent exponent ∧
          tail = fraction ++ (exponent ++ rest) ∧ Maximal fraction exponent rest) ∨
          ∀ start, Fails tail (scanFraction platform start tail) := fraction_or_fails platform htail
      by_cases hzero : c = 0x30
      · subst hzero
        cases d with
        | nil =>
            rw [List.nil_append]
            rcases htails with ⟨fraction, exponent, rest, hf, he, rfl, hrest⟩ | hfails
            · exact .inl ⟨[0x30], _, _, _, .zero, hf, he, rfl, hrest⟩
            · refine .inr fun start negative => ?_
              rw [parseInteger_zero htail]
              exact (hfails start).of_suffix (List.suffix_cons _ _)
        | cons e d =>
            refine .inr fun start negative => ?_
            have hmore : startsWithDigit (e :: d ++ tail) = true := hd e List.mem_cons_self
            unfold parseInteger
            rw [if_pos List.head?_cons, List.tail_cons, hmore]
            exact fails_report (List.suffix_cons _ _)
      · rcases htails with ⟨fraction, exponent, rest, hf, he, rfl, hrest⟩ | hfails
        · exact .inl ⟨c :: d, _, _, _, .digits hc hzero hd, hf, he, rfl, hrest⟩
        · refine .inr fun start negative => ?_
          have hgoes : endsInteger tail = false := by
            refine Bool.eq_false_iff.mpr fun h => ?_
            obtain ⟨hpoint, hlower, hupper⟩ := endsInteger_iff.mp h
            obtain ⟨failure, hfailure, -⟩ := hfails []
            rw [scanFraction_of_ne hpoint, scanExponent_of_ne fun c hc =>
              ⟨fun h => hlower (h ▸ hc), fun h => hupper (h ▸ hc)⟩] at hfailure
            cases hfailure
          rw [← List.cons_append, parseInteger_digits hc hzero hd htail, hgoes]
          exact (hfails start).of_suffix (List.suffix_append (c :: d) tail)

/-- The source begins with a number, as long as it can be, or it is an error. -/
theorem number_or_fails (platform : ParserPlatform) (source : Source) :
    (∃ t rest, Number t ∧ source = t ++ rest ∧
      parseJsonNumber platform source =
        .ok (numberOf platform.stringToDouble t, skipWhitespace rest)) ∨
    Fails source (parseJsonNumber platform source) := by
  by_cases hminus : source.head? = some 0x2D
  · cases source with
    | nil => cases hminus
    | cons c source =>
        cases hminus
        rcases integer_or_fails platform source with
          ⟨integer, fraction, exponent, rest, hi, hf, he, rfl, hrest⟩ | hfails
        · have htext : 0x2D :: (integer ++ (fraction ++ (exponent ++ rest))) =
              [0x2D] ++ (integer ++ (fraction ++ exponent)) ++ rest := by
            simp only [List.cons_append, List.nil_append, List.append_assoc]
          rw [htext]
          exact .inl ⟨_, rest, .intro (.inr rfl) hi hf he, rfl,
            parseJsonNumber_append (.inr rfl) hi hf he hrest⟩
        · refine .inr ?_
          unfold parseJsonNumber
          rw [if_pos List.head?_cons]
          exact (hfails _ true).of_suffix (List.suffix_cons _ _)
  · rcases integer_or_fails platform source with
      ⟨integer, fraction, exponent, rest, hi, hf, he, rfl, hrest⟩ | hfails
    · have htext : integer ++ (fraction ++ (exponent ++ rest)) =
          [] ++ (integer ++ (fraction ++ exponent)) ++ rest := by
        simp only [List.append_assoc, List.nil_append]
      rw [htext]
      exact .inl ⟨_, rest, .intro (.inl rfl) hi hf he, rfl,
        parseJsonNumber_append (.inl rfl) hi hf he hrest⟩
    · refine .inr ?_
      unfold parseJsonNumber
      rw [if_neg hminus]
      exact hfails _ false

end

end JsonParser

end WeexBridge.V8
