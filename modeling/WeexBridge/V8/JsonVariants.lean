/-
# The variants of the parser

The variant for sequential one-byte strings scans keys on a path of its own and looks them
up in the string table.  It parses what the general variant parses, to the same value, and
also where a string is too long to be allocated.

    Agree    both fail, or both give the same
-/
import WeexBridge.V8.JsonParsing

namespace WeexBridge.V8

open Decimal JsonGrammar

namespace JsonParser

/-- Both fail, or both give the same value and the same rest of the source. -/
inductive Agree {α : Type} (source : Source) :
    Parsed (α × Source) → Parsed (α × Source) → Prop where
  | ok {value : α} {rest : Source} : rest <:+ source →
      Agree source (.ok (value, rest)) (.ok (value, rest))
  | error {failure failure' : ParseFailure} : Agree source (.error failure) (.error failure')

namespace Agree

variable {α β : Type} {source source' : Source} {r r' : Parsed (α × Source)}

theorem of_suffix (h : Agree source r r') (hsuffix : source <:+ source') : Agree source' r r' := by
  cases h with
  | ok hrest => exact .ok (hrest.trans hsuffix)
  | error => exact .error

theorem bind {f f' : α × Source → Parsed (β × Source)} (h : Agree source r r')
    (hf : ∀ value rest, rest <:+ source → Agree source (f (value, rest)) (f' (value, rest))) :
    Agree source (r >>= f) (r' >>= f') := by
  cases h with
  | ok hrest => exact hf _ _ hrest
  | error => exact .error

theorem of_toOption (h : r.toOption = r'.toOption)
    (hsuffix : ∀ value rest, r = .ok (value, rest) → rest <:+ source) : Agree source r r' := by
  cases r with
  | error failure =>
      cases r' with
      | error failure' => exact .error
      | ok value => cases h
  | ok value =>
      cases r' with
      | error failure' => cases h
      | ok value' =>
          cases h
          exact .ok (hsuffix _ _ rfl)

end Agree

theorem toOption_map {α β : Type} (r : Parsed α) (f : α → β) :
    (r.map f).toOption = r.toOption.map f := by
  cases r <;> rfl

/-! ## Strings -/

/-- In an ASCII source the slow loop tests for nothing that is not there. -/
theorem slowScanLoop_variant : ∀ (fuel : Nat) (twoByte : Bool) (length : Nat) (sink : List UInt16)
    (source : Source), Fits true source →
      slowScanLoop true fuel twoByte length sink source =
        slowScanLoop false fuel twoByte length sink source
  | 0, _, _, _, _, _ => rfl
  | _ + 1, _, _, _, [], _ => rfl
  | fuel + 1, twoByte, length, sink, c :: source, hfits => by
      have hgrow : ∀ twoByte n, (newRawString twoByte n >>= fun length =>
          slowScanLoop true fuel twoByte length sink (c :: source)) =
            newRawString twoByte n >>= fun length =>
              slowScanLoop false fuel twoByte length sink (c :: source) := by
        intro twoByte n
        refine congrArg (newRawString twoByte n >>= ·) (funext fun length => ?_)
        exact slowScanLoop_variant fuel twoByte length sink (c :: source) hfits
      unfold slowScanLoop
      dsimp only
      by_cases hquote : c = 0x22
      · rw [if_pos hquote, if_pos hquote]
      rw [if_neg hquote, if_neg hquote]
      by_cases hcontrol : c < 0x20
      · rw [if_pos hcontrol, if_pos hcontrol]
      rw [if_neg hcontrol, if_neg hcontrol]
      by_cases hfull : length ≤ sink.length
      · rw [if_pos hfull, if_pos hfull]
        exact hgrow _ _
      rw [if_neg hfull, if_neg hfull]
      cases hscan : scanCharacter (c :: source) with
      | error failure => rfl
      | ok scanned =>
          obtain ⟨⟨value, unicode⟩, rest⟩ := scanned
          obtain ⟨r, hpiece, hsource⟩ := piece_of_scanCharacter hquote hcontrol hscan
          obtain ⟨unicode', hscan', hplain⟩ := scanCharacter_piece hpiece rest
          rw [← hsource, hscan] at hscan'
          cases hscan'
          rw [hsource] at hfits
          have htest : (twoByte || (true && !unicode) || decide (value ≤ kMaxOneByteCharCode)) =
              (twoByte || (false && !unicode) || decide (value ≤ kMaxOneByteCharCode)) := by
            cases unicode with
            | true => rfl
            | false =>
                have hvalue : value ≤ kMaxOneByteCharCode := by
                  rcases hplain rfl with hmem | hle
                  · exact hfits.left rfl value hmem
                  · exact hle
                rw [decide_eq_true hvalue, Bool.or_true, Bool.or_true]
          simp only [bind, Except.bind]
          rw [htest]
          split_ifs
          · exact slowScanLoop_variant fuel twoByte length _ rest hfits.right
          · exact slowScanLoop_variant fuel twoByte length _ rest hfits.right
          · exact hgrow _ _

theorem slowScanJsonString_variant {twoByte : Bool} {beginning : List UInt16} {source : Source}
    (hfits : Fits true source) :
    slowScanJsonString true twoByte beginning source =
      slowScanJsonString false twoByte beginning source := by
  unfold slowScanJsonString
  refine congrArg (newRawString _ _ >>= ·) (funext fun length => ?_)
  rw [slowScanLoop_variant _ _ _ _ _ hfits]

theorem finishString_variant (isInternalized isInternalized' : Bool) (scanned : List UInt16)
    (source : Source) :
    (finishString true isInternalized scanned source).toOption =
      (finishString false isInternalized' scanned source).toOption := by
  have hplain : finishString false isInternalized' scanned source =
      newRawString false scanned.length >>= fun _ =>
        pure (.oneByte (scanned.map UInt16.toUInt8), skipWhitespace source) := rfl
  have hraw : ∀ length, newRawString false length =
      if length ≤ kMaxOneByteLength then .ok length else .error .refused := fun _ => rfl
  rw [hplain]
  cases isInternalized with
  | false => rfl
  | true =>
      unfold finishString
      dsimp only
      rw [if_pos (Bool.and_self true), hraw]
      by_cases hlength : scanned.length ≤ kMaxOneByteLength
      · rw [if_pos hlength, if_pos hlength]
        rfl
      · rw [if_neg hlength, if_neg hlength]
        rfl

theorem fastScanLoop_variant (isInternalized isInternalized' : Bool) : ∀ (source : Source)
    (scanned : List UInt16), Fits true source →
      (fastScanLoop true isInternalized scanned source).toOption =
        (fastScanLoop false isInternalized' scanned source).toOption
  | [], _, _ => rfl
  | c :: source, scanned, hfits => by
      unfold fastScanLoop
      split_ifs with hquote hcontrol hbackslash hascii hnarrow
      · exact finishString_variant _ _ _ _
      · rfl
      · exact fastScanLoop_variant _ _ source _ hfits.tail
      · rw [decide_eq_true (hfits rfl c List.mem_cons_self)] at hnarrow
        exact absurd rfl hnarrow
      · exact absurd rfl hascii
      · exact absurd rfl hascii
      · rw [slowScanJsonString_variant hfits]

/-- Characters that the fast loop passes over. -/
def Passed (units : List UInt16) : Prop := ∀ c ∈ units, c ≠ 0x22 ∧ ¬ c < 0x20 ∧ c ≠ 0x5C

theorem fastScanLoop_passed {isInternalized : Bool} (source : Source) : ∀ {units : List UInt16}
    (scanned : List UInt16), Passed units →
      fastScanLoop true isInternalized scanned (units ++ source) =
        fastScanLoop true isInternalized (scanned ++ units) source
  | [], scanned, _ => by rw [List.append_nil, List.nil_append]
  | c :: units, scanned, h => by
      obtain ⟨hquote, hcontrol, hbackslash⟩ := h c List.mem_cons_self
      rw [List.cons_append]
      conv_lhs => unfold fastScanLoop
      rw [if_neg hquote, if_neg hcontrol, if_pos hbackslash, Bool.true_or, if_pos rfl,
        fastScanLoop_passed source _ fun d hd => h d (List.mem_cons_of_mem c hd),
        List.append_assoc]
      rfl

/-- The characters of a key, and what is behind it. -/
def keyUnits (key : FlatChars × Source) : List UInt16 × Source := (key.1.units, key.2)

/-- The path for keys finds the key that the fast loop reads. -/
theorem internalizedScanLoop_variant (platform : ParserPlatform) : ∀ (source : Source)
    {start : Source} {scanned : List UInt16}, start = scanned ++ source → Passed scanned →
      source.head? ≠ some 0x22 →
      ((internalizedScanLoop platform start scanned source).map keyUnits).toOption =
        ((fastScanLoop true true scanned source).map keyUnits).toOption
  | [], _, _, _, _, _ => rfl
  | c :: source, start, scanned, hstart, hpassed, hhead => by
      have hquote : c ≠ 0x22 := fun h => hhead (congrArg some h)
      conv_lhs => unfold internalizedScanLoop
      conv_rhs => unfold fastScanLoop
      rw [if_neg hquote]
      by_cases hbackslash : c = 0x5C
      · rw [if_pos hbackslash, if_neg (by rw [hbackslash]; decide),
          if_neg (not_not.mpr hbackslash)]
      rw [if_neg hbackslash, if_pos hbackslash, Bool.true_or, if_pos rfl]
      by_cases hcontrol : c < 0x20
      · rw [if_pos hcontrol, if_pos hcontrol]
        rfl
      rw [if_neg hcontrol, if_neg hcontrol]
      have hmore : Passed (scanned ++ [c]) := by
        intro d hd
        rcases List.mem_append.mp hd with hmem | hmem
        · exact hpassed d hmem
        · rw [List.mem_singleton.mp hmem]
          exact ⟨hquote, hcontrol, hbackslash⟩
      have hstart' : start = (scanned ++ [c]) ++ source := by
        rw [hstart, List.append_assoc]
        rfl
      cases source with
      | nil => rfl
      | cons d rest =>
          dsimp only
          by_cases hd : d = 0x22
          · subst hd
            rw [if_pos rfl]
            cases platform.stringTable ((scanned ++ [c]).map UInt16.toUInt8) with
            | none =>
                dsimp only
                rw [hstart', fastScanLoop_passed _ _ hmore, List.nil_append]
            | some found =>
                obtain ⟨found, hunits, hlength⟩ := found
                rw [List.length_map] at hlength
                have hfinish : fastScanLoop true true (scanned ++ [c]) (0x22 :: rest) =
                    .ok (.oneByte ((scanned ++ [c]).map UInt16.toUInt8), skipWhitespace rest) :=
                  if_pos hlength
                rw [hfinish]
                show some (keyUnits (found, skipWhitespace rest)) = _
                rw [keyUnits, hunits]
                rfl
          · rw [if_neg hd]
            exact internalizedScanLoop_variant platform (d :: rest) hstart' hmore fun h =>
              hd (Option.some.inj h)

section
variable {platform platform' : ParserPlatform} {seqAscii : Bool}

/-- A value is the same string in both variants. -/
theorem scanJsonString_value (platform platform' : ParserPlatform) {source : Source}
    (hfits : Fits seqAscii source) :
    (scanJsonString platform seqAscii false (0x22 :: source)).toOption =
      (scanJsonString platform' false false (0x22 :: source)).toOption := by
  unfold scanJsonString
  dsimp only
  rw [List.tail_cons]
  by_cases hempty : source.head? = some 0x22
  · rw [if_pos hempty, if_pos hempty]
  rw [if_neg hempty, if_neg hempty, Bool.and_false]
  cases seqAscii with
  | false => rfl
  | true => exact fastScanLoop_variant _ _ source [] hfits

/-- A key has the same characters. -/
theorem scanJsonString_key (platform platform' : ParserPlatform) {source : Source}
    (hfits : Fits seqAscii source) :
    ((scanJsonString platform seqAscii true (0x22 :: source)).map keyUnits).toOption =
      ((scanJsonString platform' false true (0x22 :: source)).map keyUnits).toOption := by
  unfold scanJsonString
  dsimp only
  rw [List.tail_cons]
  by_cases hempty : source.head? = some 0x22
  · rw [if_pos hempty, if_pos hempty]
  rw [if_neg hempty, if_neg hempty]
  cases seqAscii with
  | false => rfl
  | true =>
      have hkey := @internalizedScanLoop_variant platform source source [] rfl
        (fun _ h => absurd h List.not_mem_nil) hempty
      refine hkey.trans ?_
      rw [toOption_map, fastScanLoop_variant true true source [] hfits, ← toOption_map]
      rfl

/-- Both variants read the same key. -/
theorem agree_parseKey (platform platform' : ParserPlatform) {source : Source}
    (hfits : Fits seqAscii source) :
    Agree (0x22 :: source) (parseKey platform seqAscii (0x22 :: source))
      (parseKey platform' false (0x22 :: source)) := by
  refine .of_toOption ?_ fun key rest hkey => ?_
  · by_cases hindex : startsWithDigit source = true ∧ (scanIndex source).2.head? = some 0x22
    · obtain ⟨tail, htail⟩ : ∃ tail, (scanIndex source).2 = 0x22 :: tail :=
        ⟨_, List.eq_cons_of_mem_head? hindex.2⟩
      rw [parseKey_element hindex.1 (Prod.ext rfl htail),
        parseKey_element hindex.1 (Prod.ext rfl htail)]
    · have hname := scanJsonString_key platform platform' hfits
      rw [parseKey_named hindex, parseKey_named hindex, toOption_map, toOption_map]
      rw [toOption_map, toOption_map] at hname
      have hmap := congrArg
        (Option.map fun key : List UInt16 × Source => (MemberKey.named key.1, key.2)) hname
      rwa [Option.map_map, Option.map_map] at hmap
  · obtain ⟨raw, units, t, end_, hraw, rfl, hend⟩ := exists_chars source
    cases hend with
    | stuck hstuck =>
        obtain ⟨failure, hfailure, -⟩ := parseKey_stuck platform 0 hraw hfits.left hstuck
        cases hfailure.symm.trans hkey
    | @quote behind =>
        rcases parseKey_quote platform (k := ⟨raw, units, hraw⟩) hfits.left behind (Nat.le_refl _)
          with hquote | ⟨⟨failure, hfailure⟩, -⟩
        · cases hquote.symm.trans hkey
          refine (List.dropWhile_suffix _).trans ?_
          exact ((List.suffix_cons 0x22 behind).trans (List.suffix_append raw _)).trans
            (List.suffix_cons 0x22 _)
        · cases hfailure.symm.trans hkey

/-- Both variants read the same string. -/
theorem agree_scanJsonString (platform platform' : ParserPlatform) {source : Source}
    (hfits : Fits seqAscii source) :
    Agree (0x22 :: source) (scanJsonString platform seqAscii false (0x22 :: source))
      (scanJsonString platform' false false (0x22 :: source)) := by
  refine .of_toOption (scanJsonString_value platform platform' hfits) fun chars rest hchars => ?_
  obtain ⟨raw, units, t, end_, hraw, rfl, hend⟩ := exists_chars source
  rcases scanJsonString_eq platform (Bool.and_false seqAscii) hraw hfits.left hend (Nat.le_refl _)
    with hscan | ⟨⟨failure, hfailure⟩, -⟩
  · cases hend with
    | stuck _ => cases hscan.symm.trans hchars
    | @quote behind =>
        cases hscan.symm.trans hchars
        refine (List.dropWhile_suffix _).trans ?_
        exact ((List.suffix_cons 0x22 behind).trans (List.suffix_append raw _)).trans
          (List.suffix_cons 0x22 _)
  · cases hfailure.symm.trans hchars

/-! ## Values -/

/-- The parsers of values agree on every source that fits. -/
def AgreeOn (seqAscii : Bool) (parse parse' : ValueParser) : Prop :=
  ∀ source, Fits seqAscii source → Agree source (parse source) (parse' source)

variable {parse parse' : ValueParser}

theorem agree_parseMember (hparse : AgreeOn seqAscii parse parse') {source : Source}
    (hfits : Fits seqAscii source) :
    Agree source (parseMember platform seqAscii parse source)
      (parseMember platform' false parse' source) := by
  unfold parseMember
  by_cases hquote : source.head? = some 0x22
  · obtain ⟨source, rfl⟩ : ∃ tail, source = 0x22 :: tail := ⟨_, List.eq_cons_of_mem_head? hquote⟩
    rw [if_neg (not_not.mpr hquote), if_neg (not_not.mpr hquote)]
    refine (agree_parseKey platform platform' hfits.tail).bind fun key rest hrest => ?_
    dsimp only
    split_ifs
    · exact .error
    · have hsuffix : advanceSkipWhitespace rest <:+ 0x22 :: source :=
        ((List.dropWhile_suffix _).trans (List.tail_suffix rest)).trans hrest
      exact ((hparse _ (hfits.of_suffix hsuffix)).of_suffix hsuffix).bind
        fun value rest hrest => .ok hrest
  · rw [if_pos hquote, if_pos hquote]
    exact .error

/-- What follows an element or a member. -/
theorem matchSkipWhiteSpace_suffix {c : UInt16} {source rest : Source}
    (h : matchSkipWhiteSpace c source = some rest) : rest <:+ source := by
  unfold matchSkipWhiteSpace at h
  split_ifs at h
  cases h
  exact (List.dropWhile_suffix _).trans (List.tail_suffix source)

theorem agree_parseMembers (hparse : AgreeOn seqAscii parse parse') : ∀ (fuel : Nat)
    (properties : Properties) (source : Source), Fits seqAscii source →
      Agree source (parseMembers platform seqAscii parse fuel properties source)
        (parseMembers platform' false parse' fuel properties source)
  | 0, _, _, _ => .error
  | fuel + 1, properties, source, hfits => by
      unfold parseMembers
      refine (agree_parseMember hparse hfits).bind fun member rest hrest => ?_
      dsimp only
      cases hmatch : matchSkipWhiteSpace 0x2C rest with
      | none => exact .ok hrest
      | some more =>
          have hsuffix := (matchSkipWhiteSpace_suffix hmatch).trans hrest
          exact (agree_parseMembers hparse fuel _ more (hfits.of_suffix hsuffix)).of_suffix hsuffix

theorem agree_parseElements (hparse : AgreeOn seqAscii parse parse') : ∀ (fuel : Nat)
    (elements : List JsonValue) (source : Source), Fits seqAscii source →
      Agree source (parseElements parse fuel elements source)
        (parseElements parse' fuel elements source)
  | 0, _, _, _ => .error
  | fuel + 1, elements, source, hfits => by
      unfold parseElements
      refine (hparse source hfits).bind fun element rest hrest => ?_
      dsimp only
      cases hmatch : matchSkipWhiteSpace 0x2C rest with
      | none => exact .ok hrest
      | some more =>
          have hsuffix := (matchSkipWhiteSpace_suffix hmatch).trans hrest
          exact (agree_parseElements hparse fuel _ more (hfits.of_suffix hsuffix)).of_suffix hsuffix

theorem agree_parseJsonObject (hparse : AgreeOn seqAscii parse parse') {source : Source}
    (hfits : Fits seqAscii source) :
    Agree source (parseJsonObject platform seqAscii parse source)
      (parseJsonObject platform' false parse' source) := by
  have hsuffix : advanceSkipWhitespace source <:+ source :=
    (List.dropWhile_suffix _).trans (List.tail_suffix source)
  unfold parseJsonObject
  dsimp only
  split_ifs
  · exact .ok ((List.dropWhile_suffix _).trans ((List.tail_suffix _).trans hsuffix))
  · refine ((agree_parseMembers hparse _ _ _ (hfits.of_suffix hsuffix)).of_suffix hsuffix).bind
      fun properties rest hrest => ?_
    dsimp only
    split_ifs
    · exact .error
    · exact .ok (((List.dropWhile_suffix _).trans (List.tail_suffix rest)).trans hrest)

theorem agree_parseJsonArray (hparse : AgreeOn seqAscii parse parse') {source : Source}
    (hfits : Fits seqAscii source) :
    Agree source (parseJsonArray parse source) (parseJsonArray parse' source) := by
  have hsuffix : advanceSkipWhitespace source <:+ source :=
    (List.dropWhile_suffix _).trans (List.tail_suffix source)
  unfold parseJsonArray
  dsimp only
  split_ifs
  · exact .ok ((List.dropWhile_suffix _).trans ((List.tail_suffix _).trans hsuffix))
  · refine ((agree_parseElements hparse _ _ _ (hfits.of_suffix hsuffix)).of_suffix hsuffix).bind
      fun elements rest hrest => ?_
    dsimp only
    split_ifs
    · exact .error
    · exact .ok (((List.dropWhile_suffix _).trans (List.tail_suffix rest)).trans hrest)

theorem agree_parseLiteral {source : Source} (value : JsonValue) (literal : List UInt16) :
    Agree source (parseLiteral value literal source) (parseLiteral value literal source) := by
  rcases parseLiteral_or_fails value literal source with ⟨rest, rfl, hrest⟩ | ⟨failure, hfailure, -⟩
  · rw [hrest]
    exact .ok ((List.dropWhile_suffix _).trans (List.suffix_append literal rest))
  · rw [hfailure]
    exact .error

theorem agree_parseJsonNumber (hplatform : platform.stringToDouble = platform'.stringToDouble)
    (source : Source) :
    Agree source (parseJsonNumber platform source) (parseJsonNumber platform' source) := by
  have hsame : parseJsonNumber platform source = parseJsonNumber platform' source := by
    cases platform
    cases platform'
    cases hplatform
    rfl
  rw [← hsame]
  rcases number_or_fails platform source with ⟨t, rest, -, rfl, hresult⟩ | ⟨failure, hfailure, -⟩
  · rw [hresult]
    exact .ok ((List.dropWhile_suffix _).trans (List.suffix_append t rest))
  · rw [hfailure]
    exact .error

theorem agree_parseJsonValue (hplatform : platform.stringToDouble = platform'.stringToDouble)
    (hparse : AgreeOn seqAscii parse parse') :
    AgreeOn seqAscii (parseJsonValue platform seqAscii parse)
      (parseJsonValue platform' false parse') := by
  intro source hfits
  cases source with
  | nil => exact .error
  | cons c source =>
      unfold parseJsonValue
      dsimp only
      split_ifs with hstring
      · subst hstring
        exact (agree_scanJsonString platform platform' hfits.tail).bind fun chars rest hrest =>
          .ok hrest
      · exact (agree_parseJsonNumber hplatform _).bind fun n rest hrest => .ok hrest
      · exact agree_parseJsonObject hparse hfits
      · exact agree_parseJsonArray hparse hfits
      · exact (agree_parseLiteral _ _).of_suffix (List.suffix_cons c source)
      · exact (agree_parseLiteral _ _).of_suffix (List.suffix_cons c source)
      · exact (agree_parseLiteral _ _).of_suffix (List.suffix_cons c source)
      · exact .error

theorem agree_valueParser (hplatform : platform.stringToDouble = platform'.stringToDouble) :
    ∀ limit, AgreeOn seqAscii (valueParser platform seqAscii limit)
      (valueParser platform' false limit)
  | 0 => fun _ _ => .error
  | limit + 1 => agree_parseJsonValue hplatform (agree_valueParser hplatform limit)

theorem parseJson_variant (hplatform : platform.stringToDouble = platform'.stringToDouble)
    (limit : Nat) {source : Source} (hfits : Fits seqAscii source) :
    (parseJson platform seqAscii limit source).toOption =
      (parseJson platform' false limit source).toOption := by
  have hsuffix : skipWhitespace source <:+ source := List.dropWhile_suffix _
  have hagree := agree_valueParser hplatform limit _ (hfits.of_suffix hsuffix)
  unfold parseJson
  generalize valueParser platform seqAscii limit (skipWhitespace source) = r at hagree
  generalize valueParser platform' false limit (skipWhitespace source) = r' at hagree
  cases hagree with
  | ok _ => rfl
  | @error failure failure' => cases failure <;> cases failure' <;> rfl

end

end JsonParser

open JsonParser

/-- What a text means does not depend on how the string is stored, on whether it is flattened,
on the string table, or on which of the variants and loops of the parser read it. -/
theorem runtimeParseJson_congr {platform platform' : ParserPlatform}
    (hplatform : platform.stringToDouble = platform'.stringToDouble) (fill fill' : Nat → UInt16)
    (allocated allocated' : Bool) (limit : Nat) {s t : Str} (hs : s.WellFormed)
    (ht : t.WellFormed) (hunits : s.units = t.units) :
    (runtimeParseJson platform fill allocated limit s).toOption =
      (runtimeParseJson platform' fill' allocated' limit t).toOption := by
  obtain ⟨seqAscii, hfits, hparse⟩ := runtimeParseJson_flat platform fill allocated limit hs
  obtain ⟨seqAscii', hfits', hparse'⟩ := runtimeParseJson_flat platform' fill' allocated' limit ht
  rw [hparse, hparse']
  rw [hunits] at hfits ⊢
  have hvariant := @parseJson_variant platform platform' seqAscii hplatform limit _ hfits
  have hvariant' := @parseJson_variant platform' platform' seqAscii' rfl limit _ hfits'
  rw [hvariant, hvariant']

theorem runtimeParseJson_congr_cons :
    (runtimeParseJson .plain (fun _ => 0) true 2 (.ofAscii "[10, 20, 30, 4]")).toOption =
      (runtimeParseJson ⟨fun _ => 0, fun _ => none⟩ (fun _ => 7) false 2
        (.cons true (.ofAscii "[10, 20, ") (.ofAscii "30, 4]"))).toOption :=
  runtimeParseJson_congr rfl _ _ true false 2 (Str.wellFormed_ofAscii _)
    ⟨Str.wellFormed_ofAscii _, Str.wellFormed_ofAscii _,
      ⟨by decide, by decide, .inl (by decide),
        fun _ => List.forall_mem_append.mpr ⟨fun _ => Str.toNat_lt_of_mem_map_toUInt16,
          fun _ => Str.toNat_lt_of_mem_map_toUInt16⟩⟩⟩ rfl

end WeexBridge.V8
