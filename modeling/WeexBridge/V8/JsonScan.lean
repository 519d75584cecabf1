/-
# Scanning a string of JSON

The fast loop, the slow loop that may start in the middle, and the path for keys of an
ASCII source read the same characters: as many as the grammar lets stand in a string,
and then the quote, or a place where they are stuck.  What they return has one byte
for each character if all characters fit into one.

    Barring       the expected result, unless the source is long enough to be refused
    Stuck         nothing that may stand in a string, where the error is reported
    StringEnd     what is made of a source behind the characters of a string
    Enough        the turns left to the slow loop suffice
-/
import WeexBridge.Lib.JsonGrammar
import WeexBridge.V8.JsonParser

namespace WeexBridge.V8

open Decimal JsonGrammar

namespace JsonParser

/-! ## Characters -/

theorem skipWhitespace_eq (source : Source) : skipWhitespace source = skipWhite source := rfl

/-- The hexadecimal digits are those of the grammar. -/
theorem hexValue_eq (c : UInt16) : hexValue c = JsonGrammar.hexValue c := by
  have hlow : ∀ n < 128, hexValue (.ofNat n) = JsonGrammar.hexValue (.ofNat n) := by
    decide +kernel
  rcases Nat.lt_or_ge c.toNat 128 with hc | hc
  · have h := hlow c.toNat hc
    rwa [UInt16.ofNat_toNat] at h
  · have hdigit : (c.toUInt32 - 0x30).toNat = c.toNat - 0x30 := by
      rw [UInt32.toNat_sub_of_le _ _ (by
        rw [UInt32.le_iff_toNat_le, UInt16.toNat_toUInt32]
        exact Nat.le_trans (by decide) hc), UInt16.toNat_toUInt32]
      rfl
    have hor : c.toNat - 0x30 ≤ ((c.toUInt32 - 0x30) ||| 0x20).toNat := by
      rw [UInt32.toNat_or, hdigit]
      exact Nat.left_le_or
    have hletter : (((c.toUInt32 - 0x30) ||| 0x20) - (0x61 - 0x30)).toNat =
        ((c.toUInt32 - 0x30) ||| 0x20).toNat - 0x31 := by
      rw [UInt32.toNat_sub_of_le _ _ (by
        rw [UInt32.le_iff_toNat_le]
        exact Nat.le_trans (by decide : _ ≤ 0x50) (Nat.le_trans (by omega) hor))]
      rfl
    have hleft : hexValue c = none := by
      unfold hexValue
      dsimp only
      rw [if_neg, if_neg]
      · rw [UInt32.le_iff_toNat_le, hletter]
        have h5 : (5 : UInt32).toNat = 5 := rfl
        omega
      · rw [UInt32.le_iff_toNat_le, hdigit]
        have h9 : (9 : UInt32).toNat = 9 := rfl
        omega
    have hright : JsonGrammar.hexValue c = none := by
      have h39 : ¬ c ≤ 0x39 := fun h => by
        have h' : c.toNat ≤ 0x39 := UInt16.le_iff_toNat_le.mp h
        omega
      have h66 : ¬ c ≤ 0x66 := fun h => by
        have h' : c.toNat ≤ 0x66 := UInt16.le_iff_toNat_le.mp h
        omega
      have h46 : ¬ c ≤ 0x46 := fun h => by
        have h' : c.toNat ≤ 0x46 := UInt16.le_iff_toNat_le.mp h
        omega
      simp [JsonGrammar.hexValue, isDigit, h39, h66, h46]
    rw [hleft, hright]

/-- The error is one about a character, somewhere in the source. -/
def Unexpected (source : Source) (failure : ParseFailure) : Prop :=
  ∃ rest, failure = .unexpectedCharacter rest ∧ rest <:+ source

theorem Unexpected.of_suffix {source source' : Source} {failure : ParseFailure}
    (h : Unexpected source failure) (hsuffix : source <:+ source') :
    Unexpected source' failure := by
  obtain ⟨rest, hfailure, hrest⟩ := h
  exact ⟨rest, hfailure, hrest.trans hsuffix⟩

theorem Unexpected.refl (source : Source) : Unexpected source (.unexpectedCharacter source) :=
  ⟨source, rfl, List.suffix_refl source⟩

theorem Unexpected.cons {source : Source} {failure : ParseFailure} (h : Unexpected source failure)
    (c : UInt16) : Unexpected (c :: source) failure :=
  h.of_suffix (List.suffix_cons c source)

/-! ## Refused strings -/

/-- The result is the expected one, or an error in a source that is too long for a string of
two-byte characters. -/
def Barring {α : Type} (n : Nat) (result expected : Parsed α) : Prop :=
  result = expected ∨ (∃ failure, result = .error failure) ∧ kMaxTwoByteLength < n

namespace Barring

variable {α : Type} {n : Nat} {result expected : Parsed α}

theorem refl (n : Nat) (result : Parsed α) : Barring n result result := .inl rfl

theorem trans {middle : Parsed α} (h : Barring n result middle) (h' : Barring n middle expected) :
    Barring n result expected := by
  rcases h with rfl | herror
  · exact h'
  · exact .inr herror

theorem eq (h : Barring n result expected) (hn : n ≤ kMaxTwoByteLength) : result = expected :=
  h.resolve_right fun hlong => Nat.not_lt.mpr hn hlong.2

/-- A string that is no longer than the source is allocated. -/
theorem newRawString {twoByte : Bool} {length : Nat} (hn : length ≤ n) {f : Nat → Parsed α}
    (h : Barring n (f length) expected) :
    Barring n (JsonParser.newRawString twoByte length >>= f) expected := by
  unfold JsonParser.newRawString
  split_ifs with hlength
  · exact h
  · have hlong : kMaxTwoByteLength ≤ Str.maxFlatLength (!twoByte) := by
      cases twoByte <;> decide
    exact .inr ⟨⟨.refused, rfl⟩, hlong.trans_lt ((Nat.not_le.mp hlength).trans_le hn)⟩

end Barring

theorem scanHex_inv {i value : Nat} {source : Source} {r : Nat × Source}
    (h : scanHex (i + 1) value source = .ok r) : ∃ c rest digit, source = c :: rest ∧
      JsonGrammar.hexValue c = some digit ∧ scanHex i (value * 16 + digit) rest = .ok r := by
  cases source with
  | nil => cases h
  | cons c rest =>
      unfold scanHex at h
      rw [hexValue_eq] at h
      cases hdigit : JsonGrammar.hexValue c with
      | none =>
          rw [hdigit] at h
          cases h
      | some digit =>
          rw [hdigit] at h
          exact ⟨c, rest, digit, rfl, hdigit, h⟩

theorem scanHex_cons {c : UInt16} {digit : Nat} (h : JsonGrammar.hexValue c = some digit)
    (i value : Nat) (source : Source) :
    scanHex (i + 1) value (c :: source) = scanHex i (value * 16 + digit) source := by
  conv_lhs => unfold scanHex
  rw [hexValue_eq, h]

theorem scanHex_error : ∀ {i value : Nat} {source : Source} {failure : ParseFailure},
    scanHex i value source = .error failure → Unexpected source failure
  | 0, _, _, _, h => by cases h
  | _ + 1, _, [], _, h => by
      cases h
      exact Unexpected.refl []
  | i + 1, value, c :: source, failure, h => by
      unfold scanHex at h
      cases hdigit : hexValue c with
      | none =>
          rw [hdigit] at h
          cases h
          exact Unexpected.refl _
      | some digit =>
          rw [hdigit] at h
          exact (scanHex_error h).cons c

/-! ## One character of a string -/

theorem shortEscape_ne_unicode {c u : UInt16} (h : shortEscape c = some u) : c ≠ 0x75 := by
  rintro rfl
  have hnone : shortEscape 0x75 = none := rfl
  cases hnone.symm.trans h

/-- The escapes of one character give characters of one byte. -/
theorem shortEscape_le {c u : UInt16} (h : shortEscape c = some u) : u ≤ kMaxOneByteCharCode := by
  unfold shortEscape at h
  split_ifs at h with h₁ h₂ h₃ h₄ h₅ h₆ <;> cases h
  · rcases h₁ with rfl | rfl | rfl <;> decide
  all_goals decide

/-- What may stand in a string is scanned, and wide characters come from the source or
from `\u`. -/
theorem scanCharacter_piece {r : Text} {u : UInt16} (h : Piece r u) (t : Source) :
    ∃ unicode, scanCharacter (r ++ t) = .ok ((u, unicode), t) ∧
      (unicode = false → u ∈ r ∨ u ≤ kMaxOneByteCharCode) := by
  cases h with
  | plain _ _ hbackslash =>
      refine ⟨false, ?_, fun _ => .inl List.mem_cons_self⟩
      exact if_pos hbackslash
  | @short c _ hc =>
      refine ⟨false, ?_, fun _ => .inr (shortEscape_le hc)⟩
      show scanCharacter (0x5C :: c :: t) = _
      have hescaped : escapedCharacter c = some u := hc
      simp [scanCharacter, shortEscape_ne_unicode hc, hescaped]
  | @unicode a b c d w x y z ha hb hc hd =>
      refine ⟨true, ?_, fun h => nomatch h⟩
      show scanCharacter (0x5C :: 0x75 :: a :: b :: c :: d :: t) = _
      have hhex : scanHex 4 0 (a :: b :: c :: d :: t) =
          .ok (((w * 16 + x) * 16 + y) * 16 + z, t) := by
        rw [scanHex_cons ha, scanHex_cons hb, scanHex_cons hc, scanHex_cons hd, scanHex,
          Nat.zero_mul, Nat.zero_add]
      simp [scanCharacter, hhex, bind, Except.bind, pure, Except.pure]

/-- What is scanned may stand in a string. -/
theorem piece_of_scanCharacter {c : UInt16} {source t : Source} {u : UInt16} {unicode : Bool}
    (hquote : c ≠ 0x22) (hcontrol : ¬ c < 0x20)
    (h : scanCharacter (c :: source) = .ok ((u, unicode), t)) :
    ∃ r, Piece r u ∧ c :: source = r ++ t := by
  unfold scanCharacter at h
  dsimp only at h
  split_ifs at h with hbackslash
  · cases h
    exact ⟨[c], .plain (UInt16.not_lt.mp hcontrol) hquote hbackslash, rfl⟩
  · rw [not_not] at hbackslash
    subst hbackslash
    cases source with
    | nil => cases h
    | cons e source =>
        dsimp only at h
        split_ifs at h with hu
        · subst hu
          cases hhex : scanHex 4 0 source with
          | error failure =>
              rw [hhex] at h
              cases h
          | ok r =>
              rw [hhex] at h
              cases h
              obtain ⟨a, s₁, w, rfl, ha, h₁⟩ := scanHex_inv hhex
              obtain ⟨b, s₂, x, rfl, hb, h₂⟩ := scanHex_inv h₁
              obtain ⟨c, s₃, y, rfl, hc, h₃⟩ := scanHex_inv h₂
              obtain ⟨d, s₄, z, rfl, hd, h₄⟩ := scanHex_inv h₃
              cases h₄
              have hpiece := Piece.unicode ha hb hc hd
              rw [Nat.zero_mul, Nat.zero_add]
              exact ⟨_, hpiece, rfl⟩
        · cases hescape : escapedCharacter e with
          | none =>
              rw [hescape] at h
              cases h
          | some v =>
              rw [hescape] at h
              cases h
              exact ⟨_, .short hescape, rfl⟩

theorem scanCharacter_error {source : Source} {failure : ParseFailure}
    (h : scanCharacter source = .error failure) : Unexpected source failure := by
  unfold scanCharacter at h
  cases source with
  | nil =>
      cases h
      exact Unexpected.refl []
  | cons c source =>
      dsimp only at h
      split_ifs at h with hbackslash
      cases source with
      | nil =>
          cases h
          exact (Unexpected.refl []).cons c
      | cons e source =>
          dsimp only at h
          split_ifs at h with hu
          · cases hhex : scanHex 4 0 source with
            | error failure' =>
                rw [hhex] at h
                cases h
                exact ((scanHex_error hhex).cons e).cons c
            | ok r =>
                rw [hhex] at h
                cases h
          · cases hescape : escapedCharacter e with
            | none =>
                rw [hescape] at h
                cases h
                exact (Unexpected.refl _).cons c
            | some v =>
                rw [hescape] at h
                cases h

theorem backslash_of_error {c : UInt16} {source : Source} {failure : ParseFailure}
    (h : scanCharacter (c :: source) = .error failure) : c = 0x5C := by
  by_contra hc
  have hok : scanCharacter (c :: source) = .ok ((c, false), source) := if_pos hc
  cases hok.symm.trans h

/-! ## Where the characters end -/

/-- Nothing that may stand in a string, with the place where that shows. -/
inductive Stuck : Source → Source → Prop where
  | eos : Stuck [] []
  | control {c : UInt16} {source : Source} : c < 0x20 → Stuck (c :: source) (c :: source)
  | escape {c : UInt16} {source place : Source} : c ≠ 0x22 → ¬ c < 0x20 →
      scanCharacter (c :: source) = .error (.unexpectedCharacter place) → Stuck (c :: source) place

/-- What is made of the source behind the characters of a string. -/
inductive StringEnd : Source → Parsed Source → Prop where
  | quote {rest : Source} : StringEnd (0x22 :: rest) (.ok (skipWhitespace rest))
  | stuck {source place : Source} : Stuck source place →
      StringEnd source (reportUnexpectedCharacter place)

theorem Stuck.suffix {source place : Source} (h : Stuck source place) : place <:+ source := by
  cases h with
  | eos => exact List.suffix_refl []
  | control _ => exact List.suffix_refl _
  | escape _ _ herror =>
      obtain ⟨rest, hrest, hsuffix⟩ := scanCharacter_error herror
      cases hrest
      exact hsuffix

theorem Stuck.head_ne_quote {c : UInt16} {source place : Source} (h : Stuck (c :: source) place) :
    c ≠ 0x22 := by
  cases h with
  | control hcontrol =>
      rintro rfl
      exact absurd hcontrol (by decide)
  | escape hquote _ _ => exact hquote

theorem Stuck.noDigit {source place : Source} (h : Stuck source place) : NoDigit source := by
  intro c hc
  cases h with
  | eos => cases hc
  | control hcontrol =>
      cases hc
      refine Bool.eq_false_iff.mpr fun hdigit => ?_
      exact UInt16.not_le.mpr hcontrol (UInt16.le_trans (by decide) (isDigit_iff.mp hdigit).1)
  | escape _ _ hscan =>
      cases hc
      rw [backslash_of_error hscan]
      rfl

/-- A source begins with a character of a string, or the string ends there. -/
theorem piece_or_stringEnd (source : Source) :
    (∃ r u t, Piece r u ∧ source = r ++ t) ∨ ∃ end_, StringEnd source end_ := by
  cases source with
  | nil => exact .inr ⟨_, .stuck .eos⟩
  | cons c source =>
      by_cases hquote : c = 0x22
      · subst hquote
        exact .inr ⟨_, .quote⟩
      · by_cases hcontrol : c < 0x20
        · exact .inr ⟨_, .stuck (.control hcontrol)⟩
        · cases hscan : scanCharacter (c :: source) with
          | error failure =>
              obtain ⟨rest, rfl, -⟩ := scanCharacter_error hscan
              exact .inr ⟨_, .stuck (.escape hquote hcontrol hscan)⟩
          | ok r =>
              obtain ⟨⟨u, unicode⟩, t⟩ := r
              obtain ⟨r, hpiece, hsource⟩ := piece_of_scanCharacter hquote hcontrol hscan
              exact .inl ⟨r, u, t, hpiece, hsource⟩

/-- The characters that a source begins with. -/
theorem exists_chars (source : Source) : ∃ raw units t end_, Chars raw units ∧
    source = raw ++ t ∧ StringEnd t end_ := by
  rcases piece_or_stringEnd source with ⟨r, u, t, hpiece, rfl⟩ | ⟨end_, hend⟩
  · have hshorter : t.length < (r ++ t).length := by
      obtain ⟨c, rest, rfl, -, -⟩ := hpiece.head
      rw [List.length_append, List.length_cons]
      omega
    obtain ⟨raw, units, t', end_, hraw, rfl, hend⟩ := exists_chars t
    exact ⟨r ++ raw, u :: units, t', end_, .cons hpiece hraw, (List.append_assoc _ _ _).symm, hend⟩
  · exact ⟨[], [], source, end_, .nil, rfl, hend⟩
termination_by source.length

/-! ## The slow loop -/

/-- One byte for each character, if they fit. -/
def canonicalChars (units : List UInt16) : FlatChars :=
  seqString (units.any (kMaxOneByteCharCode < ·)) units

/-- The turns that are left suffice for the source, with one turn for a longer string and
one for a wider one; what is written and what is left are `n` characters at most. -/
def Enough (n fuel : Nat) (twoByte : Bool) (length count : Nat) (source : Source) : Prop :=
  count + source.length ≤ n ∧
    2 * source.length + (if length ≤ count then 1 else 0) + (if twoByte then 0 else 1) < fuel

theorem lt_slowScanLength (count : Nat) {source : Source} (h : source ≠ []) :
    count < slowScanLength count source := by
  have hsource : 0 < source.length := List.length_pos_iff.mpr h
  unfold slowScanLength kInitialSpecialStringLength
  omega

/-- Characters of an ASCII source are one byte wide. -/
def Fits (seqAscii : Bool) (source : Source) : Prop :=
  seqAscii = true → ∀ c ∈ source, c ≤ kMaxOneByteCharCode

theorem Fits.left {seqAscii : Bool} {s t : Source} (h : Fits seqAscii (s ++ t)) :
    Fits seqAscii s := fun hascii c hc => h hascii c (List.mem_append_left t hc)

theorem Fits.right {seqAscii : Bool} {s t : Source} (h : Fits seqAscii (s ++ t)) :
    Fits seqAscii t := fun hascii c hc => h hascii c (List.mem_append_right s hc)

theorem Fits.tail {seqAscii : Bool} {c : UInt16} {t : Source} (h : Fits seqAscii (c :: t)) :
    Fits seqAscii t := fun hascii d hd => h hascii d (List.mem_cons_of_mem c hd)

theorem Fits.of_suffix {seqAscii : Bool} {s t : Source} (h : Fits seqAscii t) (hsuffix : s <:+ t) :
    Fits seqAscii s := fun hascii c hc => h hascii c (hsuffix.mem hc)

theorem slowScanLength_le (count : Nat) (source : Source) :
    slowScanLength count source ≤ count + source.length := Nat.min_le_left _ _

section
variable {n fuel length : Nat} {seqAscii twoByte : Bool} {sink : List UInt16}

/-- The string is full, and replaced by a longer one. -/
theorem slowScanLoop_grow {c : UInt16} {source : Source} (hquote : c ≠ 0x22)
    (hcontrol : ¬ c < 0x20) (hfull : length ≤ sink.length)
    (h : Enough n fuel twoByte length sink.length (c :: source)) :
    ∃ fuel' length', sink.length < length' ∧
      Enough n fuel' twoByte length' sink.length (c :: source) ∧
      Barring n (slowScanLoop seqAscii fuel twoByte length sink (c :: source))
        (slowScanLoop seqAscii fuel' twoByte length' sink (c :: source)) := by
  have hlonger := lt_slowScanLength sink.length (List.cons_ne_nil c source)
  cases fuel with
  | zero => exact absurd h.2 (Nat.not_lt_zero _)
  | succ fuel =>
      refine ⟨fuel, _, hlonger, ?_, ?_⟩
      · unfold Enough at h ⊢
        rw [if_pos hfull] at h
        rw [if_neg (Nat.not_le.mpr hlonger)]
        omega
      · conv_lhs => unfold slowScanLoop
        rw [if_neg hquote, if_neg hcontrol, if_pos hfull]
        exact .newRawString ((slowScanLength_le _ _).trans h.1) (.refl n _)

/-- The character does not fit, and the string is replaced by a wider one. -/
theorem slowScanLoop_widen {r : Text} {u : UInt16} {t : Source} (hpiece : Piece r u)
    (hfits : Fits seqAscii r) (hwide : kMaxOneByteCharCode < u) (hroom : sink.length < length)
    (h : Enough n fuel false length sink.length (r ++ t)) :
    ∃ fuel' length', sink.length < length' ∧ Enough n fuel' true length' sink.length (r ++ t) ∧
      Barring n (slowScanLoop seqAscii fuel false length sink (r ++ t))
        (slowScanLoop seqAscii fuel' true length' sink (r ++ t)) := by
  obtain ⟨unicode, hscan, hplain⟩ := scanCharacter_piece hpiece t
  obtain ⟨c, rest, rfl, hquote, hcontrol⟩ := hpiece.head
  rw [List.cons_append] at h hscan ⊢
  have hlonger := lt_slowScanLength sink.length (List.cons_ne_nil c (rest ++ t))
  -- a wide character of an ASCII source is written with an escape
  have hstore : ¬ (false || (seqAscii && !unicode) || decide (u ≤ kMaxOneByteCharCode)) = true := by
    rw [decide_eq_false (UInt16.not_le.mpr hwide), Bool.or_false, Bool.false_or]
    intro hand
    obtain ⟨hascii, hunicode⟩ := Bool.and_eq_true_iff.mp hand
    refine UInt16.not_le.mpr hwide ?_
    rcases hplain (by simpa using hunicode) with hmem | hle
    · exact hfits hascii u hmem
    · exact hle
  cases fuel with
  | zero => exact absurd h.2 (Nat.not_lt_zero _)
  | succ fuel =>
      refine ⟨fuel, _, hlonger, ?_, ?_⟩
      · unfold Enough at h ⊢
        rw [if_neg (Nat.not_le.mpr hlonger)]
        simp only [Bool.false_eq_true, if_false, if_true] at h ⊢
        omega
      · conv_lhs => unfold slowScanLoop
        rw [if_neg hquote, if_neg hcontrol, if_neg (Nat.not_le.mpr hroom), hscan]
        show Barring n (if _ then _ else _) _
        rw [if_neg hstore]
        exact .newRawString ((slowScanLength_le _ _).trans h.1) (.refl n _)

/-- The character is stored. -/
theorem slowScanLoop_store {r : Text} {u : UInt16} {t : Source} (hpiece : Piece r u)
    (hfit : twoByte = true ∨ u ≤ kMaxOneByteCharCode) (hroom : sink.length < length)
    (h : Enough n fuel twoByte length sink.length (r ++ t)) :
    ∃ fuel', Enough n fuel' twoByte length (sink ++ [u]).length t ∧
      slowScanLoop seqAscii fuel twoByte length sink (r ++ t) =
        slowScanLoop seqAscii fuel' twoByte length (sink ++ [u]) t := by
  obtain ⟨unicode, hscan, -⟩ := scanCharacter_piece hpiece t
  obtain ⟨c, rest, rfl, hquote, hcontrol⟩ := hpiece.head
  rw [List.cons_append] at h hscan ⊢
  have hstore : (twoByte || (seqAscii && !unicode) || decide (u ≤ kMaxOneByteCharCode)) = true := by
    rcases hfit with htwo | hle
    · rw [htwo, Bool.true_or, Bool.true_or]
    · rw [decide_eq_true hle, Bool.or_true]
  have hstored : (if twoByte then u else u.toUInt8.toUInt16) = u := by
    rcases hfit with htwo | hle
    · rw [if_pos htwo]
    · have hu : u.toNat < 256 := Nat.lt_succ_of_le (UInt16.le_iff_toNat_le.mp hle)
      have hcast : u.toUInt8.toUInt16 = u := by
        apply UInt16.toNat_inj.mp
        rw [UInt8.toNat_toUInt16, UInt16.toNat_toUInt8, Nat.mod_eq_of_lt hu]
      rw [hcast, ite_self]
  cases fuel with
  | zero => exact absurd h.2 (Nat.not_lt_zero _)
  | succ fuel =>
      refine ⟨fuel, ?_, ?_⟩
      · unfold Enough at h ⊢
        rw [List.length_cons, List.length_append] at h
        rw [if_neg (Nat.not_le.mpr hroom)] at h
        rw [List.length_append, List.length_singleton]
        split_ifs at h ⊢ <;> omega
      · conv_lhs => unfold slowScanLoop
        rw [if_neg hquote, if_neg hcontrol, if_neg (Nat.not_le.mpr hroom), hscan]
        refine (if_pos hstore).trans ?_
        rw [hstored]

/-- What the loop does with one character: at the end there is room for it. -/
theorem slowScanLoop_piece {r : Text} {u : UInt16} {t : Source} (hpiece : Piece r u)
    (hfits : Fits seqAscii r) (h : Enough n fuel twoByte length sink.length (r ++ t)) :
    ∃ fuel' length', Enough n fuel' (twoByte || decide (kMaxOneByteCharCode < u)) length'
        (sink ++ [u]).length t ∧
      Barring n (slowScanLoop seqAscii fuel twoByte length sink (r ++ t))
        (slowScanLoop seqAscii fuel' (twoByte || decide (kMaxOneByteCharCode < u)) length'
          (sink ++ [u]) t) := by
  obtain ⟨fuel₁, length₁, hroom₁, henough₁, hgrow⟩ : ∃ fuel' length', sink.length < length' ∧
      Enough n fuel' twoByte length' sink.length (r ++ t) ∧
      Barring n (slowScanLoop seqAscii fuel twoByte length sink (r ++ t))
        (slowScanLoop seqAscii fuel' twoByte length' sink (r ++ t)) := by
    rcases Nat.lt_or_ge sink.length length with hroom | hfull
    · exact ⟨fuel, length, hroom, h, .refl n _⟩
    · obtain ⟨c, rest, rfl, hquote, hcontrol⟩ := hpiece.head
      exact slowScanLoop_grow hquote hcontrol hfull h
  by_cases hwide : kMaxOneByteCharCode < u
  · rw [decide_eq_true hwide, Bool.or_true]
    obtain ⟨fuel₂, length₂, hroom₂, henough₂, hwiden⟩ : ∃ fuel' length', sink.length < length' ∧
        Enough n fuel' true length' sink.length (r ++ t) ∧
        Barring n (slowScanLoop seqAscii fuel₁ twoByte length₁ sink (r ++ t))
          (slowScanLoop seqAscii fuel' true length' sink (r ++ t)) := by
      cases twoByte with
      | true => exact ⟨fuel₁, length₁, hroom₁, henough₁, .refl n _⟩
      | false => exact slowScanLoop_widen hpiece hfits hwide hroom₁ henough₁
    obtain ⟨fuel₃, henough₃, hstore⟩ := slowScanLoop_store hpiece (.inl rfl) hroom₂ henough₂
    exact ⟨fuel₃, length₂, henough₃, hstore ▸ hgrow.trans hwiden⟩
  · rw [decide_eq_false hwide, Bool.or_false]
    obtain ⟨fuel₂, henough₂, hstore⟩ :=
      slowScanLoop_store hpiece (.inr (UInt16.not_lt.mp hwide)) hroom₁ henough₁
    exact ⟨fuel₂, length₁, henough₂, hstore ▸ hgrow⟩

/-- What the loop does with the characters of a string. -/
theorem slowScanLoop_chars {raw : Text} {units : List UInt16} (hraw : Chars raw units)
    {t : Source} : ∀ {fuel length : Nat} {twoByte : Bool} {sink : List UInt16},
      Fits seqAscii raw → Enough n fuel twoByte length sink.length (raw ++ t) →
      ∃ fuel' length', Enough n fuel' (twoByte || units.any (kMaxOneByteCharCode < ·)) length'
          (sink ++ units).length t ∧
        Barring n (slowScanLoop seqAscii fuel twoByte length sink (raw ++ t))
          (slowScanLoop seqAscii fuel' (twoByte || units.any (kMaxOneByteCharCode < ·)) length'
            (sink ++ units) t) := by
  induction hraw with
  | nil =>
      intro fuel length twoByte sink _ h
      refine ⟨fuel, length, ?_⟩
      rw [List.any_nil, Bool.or_false, List.append_nil]
      exact ⟨h, .refl n _⟩
  | @cons r rs u us hpiece _ ih =>
      intro fuel length twoByte sink hfits h
      rw [List.append_assoc] at h ⊢
      obtain ⟨fuel₁, length₁, henough₁, hone⟩ := slowScanLoop_piece hpiece hfits.left h
      obtain ⟨fuel₂, length₂, henough₂, hrest⟩ := ih hfits.right henough₁
      rw [Bool.or_assoc, List.append_assoc] at henough₂ hrest
      exact ⟨fuel₂, length₂, henough₂, hone.trans hrest⟩

/-- The end of the loop. -/
theorem slowScanLoop_end {t : Source} {end_ : Parsed Source} (hend : StringEnd t end_)
    (h : Enough n fuel twoByte length sink.length t) :
    Barring n (slowScanLoop seqAscii fuel twoByte length sink t)
      (end_.map fun rest => (seqString twoByte sink, rest)) := by
  cases fuel with
  | zero => exact absurd h.2 (Nat.not_lt_zero _)
  | succ fuel =>
      cases hend with
      | quote => exact .refl n _
      | stuck hstuck =>
          cases hstuck with
          | eos => exact .refl n _
          | control hcontrol =>
              unfold slowScanLoop
              rw [if_neg (by rintro rfl; exact absurd hcontrol (by decide)), if_pos hcontrol]
              exact .refl n _
          | escape hquote hcontrol hscan =>
              obtain ⟨fuel', length', hroom, henough, hgrow⟩ : ∃ fuel' length',
                  sink.length < length' ∧ Enough n fuel' twoByte length' sink.length _ ∧
                  Barring n (slowScanLoop seqAscii (fuel + 1) twoByte length sink _)
                    (slowScanLoop seqAscii fuel' twoByte length' sink _) := by
                rcases Nat.lt_or_ge sink.length length with hroom | hfull
                · exact ⟨fuel + 1, length, hroom, h, .refl n _⟩
                · exact slowScanLoop_grow hquote hcontrol hfull h
              refine hgrow.trans ?_
              cases fuel' with
              | zero => exact absurd henough.2 (Nat.not_lt_zero _)
              | succ fuel' =>
                  unfold slowScanLoop
                  rw [if_neg hquote, if_neg hcontrol, if_neg (Nat.not_le.mpr hroom), hscan]
                  exact .refl n _

/-- `SlowScanJsonString` reads on to the end of the string. -/
theorem slowScanJsonString_eq {beginning units : List UInt16} {raw : Text} {t : Source}
    {end_ : Parsed Source} (hraw : Chars raw units) (hfits : Fits seqAscii raw)
    (hend : StringEnd t end_) (hn : beginning.length + (raw ++ t).length ≤ n) :
    Barring n (slowScanJsonString seqAscii twoByte beginning (raw ++ t)) (end_.map fun rest =>
      (seqString (twoByte || units.any (kMaxOneByteCharCode < ·)) (beginning ++ units), rest)) := by
  have hlength : beginning.length ≤ slowScanLength beginning.length (raw ++ t) := by
    unfold slowScanLength
    omega
  have henough : Enough n (2 * (raw ++ t).length + 3) twoByte
      (slowScanLength beginning.length (raw ++ t)) beginning.length (raw ++ t) := by
    refine ⟨hn, ?_⟩
    split_ifs <;> omega
  obtain ⟨fuel, length, hfuel, hchars⟩ := slowScanLoop_chars hraw hfits henough
  refine .newRawString ((slowScanLength_le _ _).trans hn) ?_
  rw [if_pos hlength]
  exact hchars.trans (slowScanLoop_end hend hfuel)

end

/-! ## The fast loop -/

/-- One byte wide. -/
def Narrow (units : List UInt16) : Prop := ∀ u ∈ units, u ≤ kMaxOneByteCharCode

theorem narrow_nil : Narrow [] := fun _ h => absurd h List.not_mem_nil

theorem Narrow.append_singleton {units : List UInt16} {c : UInt16} (h : Narrow units)
    (hc : c ≤ kMaxOneByteCharCode) : Narrow (units ++ [c]) := by
  intro u hu
  rcases List.mem_append.mp hu with hmem | hmem
  · exact h u hmem
  · rw [List.mem_singleton.mp hmem]
    exact hc

theorem any_wide_of_narrow {units : List UInt16} (h : Narrow units) :
    units.any (kMaxOneByteCharCode < ·) = false :=
  List.any_eq_false.mpr fun u hu => by simpa using h u hu

theorem any_wide_append {units : List UInt16} (h : Narrow units) (more : List UInt16) :
    (units ++ more).any (kMaxOneByteCharCode < ·) = more.any (kMaxOneByteCharCode < ·) := by
  rw [List.any_append, any_wide_of_narrow h, Bool.false_or]

theorem toUInt16_toUInt8_of_narrow {units : List UInt16} (h : Narrow units) :
    (units.map UInt16.toUInt8).map UInt8.toUInt16 = units :=
  Str.map_toUInt8_toUInt16 fun u hu => Nat.lt_succ_of_le (UInt16.le_iff_toNat_le.mp (h u hu))

theorem canonicalChars_of_narrow {units : List UInt16} (h : Narrow units) :
    canonicalChars units = .oneByte (units.map UInt16.toUInt8) := by
  rw [canonicalChars, any_wide_of_narrow h]
  rfl

@[simp] theorem units_canonicalChars (units : List UInt16) :
    (canonicalChars units).units = units := by
  cases hwide : units.any (kMaxOneByteCharCode < ·) with
  | true =>
      rw [canonicalChars, hwide]
      rfl
  | false =>
      rw [canonicalChars, hwide]
      refine toUInt16_toUInt8_of_narrow fun u hu => ?_
      simpa using List.any_eq_false.mp hwide u hu

section
variable {seqAscii : Bool}

/-- The slow loop has a narrow beginning; it is wide from the start only if what it reads
is. -/
theorem slowScanJsonString_canonical (twoByte : Bool) {beginning units : List UInt16}
    {raw : Text} {t : Source} {end_ : Parsed Source} (hraw : Chars raw units)
    (hfits : Fits seqAscii raw) (hend : StringEnd t end_) (hbeginning : Narrow beginning)
    (htwo : twoByte = true → units.any (kMaxOneByteCharCode < ·) = true) {n : Nat}
    (hn : beginning.length + (raw ++ t).length ≤ n) :
    Barring n (slowScanJsonString seqAscii twoByte beginning (raw ++ t))
      (end_.map fun rest => (canonicalChars (beginning ++ units), rest)) := by
  have hwide : (twoByte || units.any (kMaxOneByteCharCode < ·)) =
      (beginning ++ units).any (kMaxOneByteCharCode < ·) := by
    rw [any_wide_append hbeginning]
    cases twoByte with
    | true => rw [htwo rfl, Bool.true_or]
    | false => rw [Bool.false_or]
  have hslow := @slowScanJsonString_eq n seqAscii twoByte _ _ _ _ _ hraw hfits hend hn
  rw [hwide] at hslow
  exact hslow

/-- A string of characters of the source is made. -/
theorem barring_finishString (isInternalized : Bool) {scanned : List UInt16} (source : Source)
    {n : Nat} (hn : scanned.length ≤ n) :
    Barring n (finishString seqAscii isInternalized scanned source)
      (.ok (.oneByte (scanned.map UInt16.toUInt8), skipWhitespace source)) := by
  unfold finishString
  dsimp only
  split_ifs with _ hlength
  · exact .refl n _
  · have hlong : kMaxTwoByteLength < scanned.length :=
      Nat.lt_trans (by decide) (Nat.not_le.mp hlength)
    exact .inr ⟨⟨_, rfl⟩, Nat.lt_of_lt_of_le hlong hn⟩
  · exact .newRawString hn (.refl n _)

theorem fastScanLoop_eq (isInternalized : Bool) {raw : Text} {units : List UInt16}
    (hraw : Chars raw units) {t : Source}
    {end_ : Parsed Source} (hend : StringEnd t end_) : ∀ {n : Nat} {scanned : List UInt16},
      Narrow scanned → Fits seqAscii raw → scanned.length + (raw ++ t).length ≤ n →
      Barring n (fastScanLoop seqAscii isInternalized scanned (raw ++ t))
        (end_.map fun rest => (canonicalChars (scanned ++ units), rest)) := by
  induction hraw with
  | nil =>
      intro n scanned hscanned hfits hn
      rw [List.append_nil, List.nil_append]
      cases hend with
      | quote =>
          rw [canonicalChars_of_narrow hscanned]
          exact barring_finishString isInternalized _ (by omega)
      | stuck hstuck =>
          cases hstuck with
          | eos => exact .refl n _
          | control hcontrol =>
              unfold fastScanLoop
              rw [if_neg (by rintro rfl; exact absurd hcontrol (by decide)), if_pos hcontrol]
              exact .refl n _
          | escape hquote hcontrol hscan =>
              have hslow := slowScanJsonString_canonical false
                Chars.nil hfits (.stuck (.escape hquote hcontrol hscan)) hscanned nofun hn
              cases backslash_of_error hscan
              exact hslow
  | @cons r rs u us hpiece hrest ih =>
      intro n scanned hscanned hfits hn
      have hslow := fun twoByte htwo => slowScanJsonString_canonical twoByte
        (Chars.cons hpiece hrest) hfits hend hscanned htwo hn
      rw [List.append_assoc] at hslow hn ⊢
      cases hpiece with
      | plain hcontrol hquote hbackslash =>
          show Barring n (fastScanLoop seqAscii isInternalized scanned (u :: (rs ++ t))) _
          unfold fastScanLoop
          rw [if_neg hquote, if_neg (UInt16.not_lt.mpr hcontrol), if_pos hbackslash]
          by_cases hnarrow : u ≤ kMaxOneByteCharCode
          · rw [decide_eq_true hnarrow, Bool.or_true, if_pos rfl]
            have hloop := ih (n := n) (hscanned.append_singleton hnarrow) hfits.right (by
              simp only [List.length_append, List.length_singleton] at hn ⊢
              omega)
            rw [List.append_assoc] at hloop
            exact hloop
          · have hascii : seqAscii = false := by
              cases seqAscii with
              | false => rfl
              | true =>
                  exact absurd (hfits rfl u (List.mem_append_left _ List.mem_cons_self)) hnarrow
            rw [decide_eq_false hnarrow, Bool.or_false, if_neg (by rw [hascii]; nofun)]
            refine hslow true fun _ => ?_
            rw [List.any_cons, decide_eq_true (UInt16.not_le.mp hnarrow), Bool.true_or]
      | short _ => exact hslow false nofun
      | unicode _ _ _ _ => exact hslow false nofun

end

/-! ## Keys of an ASCII source -/

/-- What the path for keys makes of an end: a string of the table counts for its
characters, and some errors are reported at the first character of the key. -/
inductive KeyEnd (n : Nat) (start : Source) (units : List UInt16) :
    Parsed Source → Parsed (FlatChars × Source) → Prop where
  | string {chars : FlatChars} {rest : Source} : chars.units = units →
      KeyEnd n start units (.ok rest) (.ok (chars, rest))
  | place {failure : ParseFailure} : KeyEnd n start units (.error failure) (.error failure)
  | start {failure : ParseFailure} :
      KeyEnd n start units (.error failure) (reportUnexpectedCharacter start)
  | long {end_ : Parsed Source} {failure : ParseFailure} : kMaxTwoByteLength < n →
      KeyEnd n start units end_ (.error failure)

theorem Barring.keyEnd {n : Nat} {units : List UInt16} {end_ : Parsed Source}
    {result : Parsed (FlatChars × Source)}
    (h : Barring n result (end_.map fun rest => (canonicalChars units, rest))) (start : Source) :
    KeyEnd n start units end_ result := by
  rcases h with rfl | ⟨⟨failure, rfl⟩, hlong⟩
  · cases end_ with
    | ok rest => exact .string (units_canonicalChars units)
    | error failure => exact .place
  · exact .long hlong

/-- Nothing more can be scanned: a backslash is left to the slow loop. -/
theorem internalizedScanLoop_stuck (platform : ParserPlatform) {scanned : List UInt16}
    (hscanned : Narrow scanned) {t : Source} {end_ : Parsed Source} (hend : StringEnd t end_)
    (hfits : Fits true []) (hhead : t.head? ≠ some 0x22) {n : Nat}
    (hn : scanned.length + t.length ≤ n) :
    KeyEnd n (scanned ++ t) scanned end_
      (internalizedScanLoop platform (scanned ++ t) scanned t) := by
  cases hend with
  | quote => exact absurd rfl hhead
  | stuck hstuck =>
      cases hstuck with
      | eos => exact .start
      | control hcontrol =>
          unfold internalizedScanLoop
          rw [if_neg (by rintro rfl; exact absurd hcontrol (by decide)), if_pos hcontrol]
          exact .start
      | escape hquote hcontrol hscan =>
          have hslow := slowScanJsonString_canonical false
            Chars.nil hfits (.stuck (.escape hquote hcontrol hscan)) hscanned nofun hn
          rw [List.nil_append, List.append_nil] at hslow
          cases backslash_of_error hscan
          unfold internalizedScanLoop
          rw [if_pos rfl]
          exact hslow.keyEnd _

/-- The quote comes next: the table has the key, or it is scanned again. -/
theorem internalizedScanLoop_quote (platform : ParserPlatform) {scanned : List UInt16}
    {u : UInt16} (hchars : Chars (scanned ++ [u]) (scanned ++ [u]))
    (hnarrow : Narrow (scanned ++ [u])) (hcontrol : ¬ u < 0x20) (hbackslash : u ≠ 0x5C)
    {rest : Source} {end_ : Parsed Source} (hend : StringEnd (0x22 :: rest) end_) {n : Nat}
    (hn : (scanned ++ [u]).length + (0x22 :: rest).length ≤ n) :
    KeyEnd n (scanned ++ u :: 0x22 :: rest) (scanned ++ [u]) end_
      (internalizedScanLoop platform (scanned ++ u :: 0x22 :: rest) scanned
        (u :: 0x22 :: rest)) := by
  unfold internalizedScanLoop
  rw [if_neg hbackslash, if_neg hcontrol]
  dsimp only
  rw [if_pos rfl]
  cases hend with
  | stuck hstuck => exact absurd rfl hstuck.head_ne_quote
  | quote =>
      cases htable : platform.stringTable ((scanned ++ [u]).map UInt16.toUInt8) with
      | none =>
          have hfits : Fits true (scanned ++ [u]) := fun _ => hnarrow
          have hquote : StringEnd (0x22 :: rest) _ := .quote
          have htotal :
              ([] : List UInt16).length + ((scanned ++ [u]) ++ 0x22 :: rest).length ≤ n := by
            rw [List.length_nil, Nat.zero_add, List.length_append]
            exact hn
          have hfast := fastScanLoop_eq true hchars hquote narrow_nil hfits htotal
          rw [List.nil_append, List.append_assoc] at hfast
          exact hfast.keyEnd _
      | some found =>
          refine .string (found.property.1.trans ?_)
          exact toUInt16_toUInt8_of_narrow hnarrow

/-- From the characters of a key on. -/
theorem internalizedScanLoop_end (platform : ParserPlatform) {raw : Text} {units : List UInt16}
    (hraw : Chars raw units) {t : Source} {end_ : Parsed Source} (hend : StringEnd t end_) :
    ∀ {n : Nat} {scanned : List UInt16}, Chars scanned scanned → Narrow scanned →
      Fits true raw → (raw ++ t).head? ≠ some 0x22 → scanned.length + (raw ++ t).length ≤ n →
      KeyEnd n (scanned ++ (raw ++ t)) (scanned ++ units) end_
        (internalizedScanLoop platform (scanned ++ (raw ++ t)) scanned (raw ++ t)) := by
  induction hraw with
  | nil =>
      intro n scanned _ hscanned hfits hhead hn
      rw [List.append_nil, List.nil_append]
      exact internalizedScanLoop_stuck platform hscanned hend hfits hhead hn
  | @cons r rs u us hpiece hrest ih =>
      intro n scanned hchars hscanned hfits _ hn
      have hslow := slowScanJsonString_canonical false
        (Chars.cons hpiece hrest) hfits hend hscanned nofun hn
      rw [List.append_assoc] at hslow hn ⊢
      cases hpiece with
      | plain hcontrol hquote hbackslash =>
          have hu : u ≤ kMaxOneByteCharCode :=
            hfits rfl u (List.mem_append_left _ List.mem_cons_self)
          have hnarrow := hscanned.append_singleton hu
          have hmore : Chars (scanned ++ [u]) (scanned ++ [u]) :=
            hchars.append (.cons (.plain hcontrol hquote hbackslash) .nil)
          have hlength : (scanned ++ [u]).length + (rs ++ t).length ≤ n := by
            simp only [List.length_append, List.length_singleton] at hn ⊢
            omega
          have hloop := fun hhead => ih (n := n) hmore hnarrow hfits.right hhead hlength
          rw [List.append_assoc, List.append_assoc] at hloop
          show KeyEnd _ _ _ _ (internalizedScanLoop platform (scanned ++ ([u] ++ (rs ++ t))) scanned
            (u :: (rs ++ t)))
          cases hsource : rs ++ t with
          | nil =>
              unfold internalizedScanLoop
              rw [if_neg hbackslash, if_neg (UInt16.not_lt.mpr hcontrol)]
              obtain ⟨rfl, rfl⟩ := List.append_eq_nil_iff.mp hsource
              cases hend with
              | stuck _ => exact .start
          | cons d rest =>
              by_cases hd : d = 0x22
              · subst hd
                cases hrest with
                | cons hpiece _ =>
                    obtain ⟨c, _, rfl, hne, -⟩ := hpiece.head
                    cases hsource
                    exact absurd rfl hne
                | nil =>
                    cases hsource
                    exact internalizedScanLoop_quote platform hmore hnarrow
                      (UInt16.not_lt.mpr hcontrol) hbackslash hend hlength
              · unfold internalizedScanLoop
                rw [if_neg hbackslash, if_neg (UInt16.not_lt.mpr hcontrol)]
                dsimp only
                rw [if_neg hd, ← hsource]
                refine hloop ?_
                rw [hsource]
                exact fun h => hd (Option.some.inj h)
      | short _ => exact hslow.keyEnd _
      | unicode _ _ _ _ => exact hslow.keyEnd _

/-! ## A string -/

/-- The empty string. -/
theorem empty_of_head {raw : Text} {units : List UInt16} (hraw : Chars raw units) {t : Source}
    {end_ : Parsed Source} (hend : StringEnd t end_) (h : (raw ++ t).head? = some 0x22) :
    ∃ rest, raw = [] ∧ units = [] ∧ t = 0x22 :: rest ∧ end_ = .ok (skipWhitespace rest) := by
  cases hraw with
  | cons hpiece _ =>
      obtain ⟨c, rest, rfl, hquote, -⟩ := hpiece.head
      exact absurd (Option.some.inj h) hquote
  | nil =>
      cases hend with
      | quote => exact ⟨_, rfl, rfl, rfl, rfl⟩
      | stuck hstuck =>
          cases t with
          | nil => cases h
          | cons c t => exact absurd (Option.some.inj h) hstuck.head_ne_quote

/-- A value, or a key of a source that is not ASCII, has one byte for each character if
they fit, and errors are reported where the characters are stuck. -/
theorem scanJsonString_eq (platform : ParserPlatform) {seqAscii isInternalized : Bool}
    (hvalue : (seqAscii && isInternalized) = false) {raw : Text} {units : List UInt16}
    (hraw : Chars raw units) (hfits : Fits seqAscii raw) {t : Source} {end_ : Parsed Source}
    (hend : StringEnd t end_) {n : Nat} (hn : (raw ++ t).length ≤ n) :
    Barring n (scanJsonString platform seqAscii isInternalized (0x22 :: (raw ++ t)))
      (end_.map fun rest => (canonicalChars units, rest)) := by
  unfold scanJsonString
  rw [List.tail_cons]
  by_cases hempty : (raw ++ t).head? = some 0x22
  · obtain ⟨rest, rfl, rfl, rfl, rfl⟩ := empty_of_head hraw hend hempty
    exact .refl n _
  · rw [if_neg hempty, hvalue]
    exact fastScanLoop_eq isInternalized hraw hend narrow_nil hfits (by
      rwa [List.length_nil, Nat.zero_add])

/-- At the first quote of any string: the characters, and what is made of the end. -/
theorem scanJsonString_end (platform : ParserPlatform) {seqAscii : Bool} (isInternalized : Bool)
    {raw : Text} {units : List UInt16} (hraw : Chars raw units) (hfits : Fits seqAscii raw)
    {t : Source} {end_ : Parsed Source} (hend : StringEnd t end_) {n : Nat}
    (hn : (raw ++ t).length ≤ n) :
    KeyEnd n (raw ++ t) units end_
      (scanJsonString platform seqAscii isInternalized (0x22 :: (raw ++ t))) := by
  cases hkey : seqAscii && isInternalized with
  | false =>
      exact (scanJsonString_eq platform hkey hraw hfits hend hn).keyEnd _
  | true =>
      unfold scanJsonString
      rw [List.tail_cons, hkey]
      by_cases hempty : (raw ++ t).head? = some 0x22
      · obtain ⟨rest, rfl, rfl, rfl, rfl⟩ := empty_of_head hraw hend hempty
        exact .string rfl
      · rw [(Bool.and_eq_true_iff.mp hkey).1] at hfits
        rw [if_neg hempty]
        exact internalizedScanLoop_end platform hraw hend .nil narrow_nil hfits hempty (by
          rwa [List.length_nil, Nat.zero_add])

end JsonParser

end WeexBridge.V8
