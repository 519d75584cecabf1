/-
# What `JSON.parse` accepts

The parser accepts the texts of the grammar whose values are not nested more deeply than
the stack allows, and the value it gives is the meaning of what they spell.

    eval        what a tree means: numerals read, objects built member by member
    ValueEnd    a value at the front of a source, or an error
-/
import WeexBridge.V8.ConsString
import WeexBridge.V8.Flatten
import WeexBridge.V8.JsonNumber

namespace WeexBridge.V8

open Decimal JsonGrammar

namespace JsonParser

/-! ## What is meant -/

/-- The index that a key is, as it is written. -/
def keyIndex (raw : Text) : Option Nat :=
  if startsWithDigit raw ∧ (scanIndex raw).2 = [] then some (scanIndex raw).1 else none

def memberKey (k : Key) : MemberKey :=
  match keyIndex k.raw with
  | some index => .element index
  | none => .named k.units

section
variable (stringToDouble : List UInt8 → UInt64)

mutual

/-- The value of a tree. -/
def eval : Tree → JsonValue
  | .null => .null
  | .boolean b => .boolean b
  | .number t => .number (numberOf stringToDouble t)
  | .string units => .string (canonicalChars units)
  | .array items => .array (evalItems items)
  | .object members => (evalMembers members .empty).toObject

def evalItems : List Tree → List JsonValue
  | [] => []
  | x :: xs => eval x :: evalItems xs

/-- The members are stored one after the other. -/
def evalMembers : List (Key × Tree) → Properties → Properties
  | [], properties => properties
  | (k, x) :: members, properties =>
      evalMembers members (properties.set (memberKey k) (eval x))

end

end

/-! ## Failures -/

/-- The error is about a character of the source; or the stack is full, and the source long
enough for that; or the source is too long for a string of two-byte characters. -/
inductive Failed (limit : Nat) (source : Source) : ParseFailure → Prop where
  | unexpected {failure : ParseFailure} : Unexpected source failure → Failed limit source failure
  | stackOverflow : limit ≤ source.length → Failed limit source .stackOverflow
  | long {failure : ParseFailure} : kMaxTwoByteLength < source.length →
      Failed limit source failure

theorem Failed.of_suffix {limit : Nat} {source source' : Source} {failure : ParseFailure}
    (h : Failed limit source failure) (hsuffix : source <:+ source') :
    Failed limit source' failure := by
  cases h with
  | unexpected h => exact .unexpected (h.of_suffix hsuffix)
  | stackOverflow hlimit => exact .stackOverflow (Nat.le_trans hlimit hsuffix.length_le)
  | long hlong => exact .long (Nat.lt_of_lt_of_le hlong hsuffix.length_le)

/-- One level up. -/
theorem Failed.nested {limit : Nat} {source source' : Source} {failure : ParseFailure}
    (h : Failed limit source failure) (hsuffix : source <:+ source')
    (hlength : source.length < source'.length) : Failed (limit + 1) source' failure := by
  cases h with
  | unexpected h => exact .unexpected (h.of_suffix hsuffix)
  | stackOverflow hlimit => exact .stackOverflow (Nat.lt_of_le_of_lt hlimit hlength)
  | long hlong => exact .long (Nat.lt_trans hlong hlength)

/-! ## Keys -/

/-- A digit stands for itself. -/
theorem chars_of_digit {c : UInt16} {raw : Text} {units : List UInt16} (hc : isDigit c = true)
    (h : Chars (c :: raw) units) : ∃ us, Chars raw us := by
  generalize htext : c :: raw = text at h
  cases h with
  | nil => cases htext
  | cons hpiece hrest =>
      cases hpiece with
      | plain _ _ _ =>
          cases htext
          exact ⟨_, hrest⟩
      | short _ =>
          cases htext
          exact absurd hc (by decide)
      | unicode _ _ _ _ =>
          cases htext
          exact absurd hc (by decide)

theorem scanIndexLoop_of_noDigit {t : Source} (h : NoDigit t) (index : Nat) :
    scanIndexLoop index t = (index, t) := by
  cases t with
  | nil => rfl
  | cons c t =>
      unfold scanIndexLoop
      rw [show isDecimalDigit c = false from h c rfl]
      rfl

/-- What follows the key does not matter. -/
theorem scanIndexLoop_append {t : Source} (ht : NoDigit t) : ∀ (raw : Text) (index : Nat),
    scanIndexLoop index (raw ++ t) =
      ((scanIndexLoop index raw).1, (scanIndexLoop index raw).2 ++ t)
  | [], index => scanIndexLoop_of_noDigit ht index
  | c :: raw, index => by
      rw [List.cons_append]
      unfold scanIndexLoop
      dsimp only
      split_ifs
      · rfl
      · exact scanIndexLoop_append ht raw _
      · rfl
      · exact scanIndexLoop_append ht raw _
      · rfl

/-- The index does not end at the quote of an escape. -/
theorem scanIndexLoop_head : ∀ {raw : Text} {units : List UInt16}, Chars raw units →
    ∀ index, (scanIndexLoop index raw).2.head? ≠ some 0x22
  | [], _, _, _ => nofun
  | c :: raw, _, h, index => by
      have hstay : (c :: raw).head? ≠ some 0x22 := fun hc => h.head_ne_quote (Option.some.inj hc)
      unfold scanIndexLoop
      dsimp only
      cases hc : isDecimalDigit c with
      | false => exact hstay
      | true =>
          obtain ⟨us, hrest⟩ := chars_of_digit hc h
          rw [if_pos rfl]
          split_ifs
          · exact hstay
          · exact scanIndexLoop_head hrest _
          · exact hstay
          · exact scanIndexLoop_head hrest _

theorem scanIndex_append {raw : Text} (hraw : startsWithDigit raw = true) {t : Source}
    (ht : NoDigit t) : scanIndex (raw ++ t) = ((scanIndex raw).1, (scanIndex raw).2 ++ t) := by
  cases raw with
  | nil => cases hraw
  | cons c raw =>
      unfold scanIndex
      rw [List.cons_append, List.head?_cons, List.head?_cons]
      split_ifs
      · rfl
      · exact scanIndexLoop_append ht (c :: raw) 0

theorem scanIndex_head {raw : Text} {units : List UInt16} (hraw : startsWithDigit raw = true)
    (h : Chars raw units) : (scanIndex raw).2.head? ≠ some 0x22 := by
  cases raw with
  | nil => cases hraw
  | cons c raw =>
      unfold scanIndex
      split_ifs with hzero
      · obtain ⟨us, hrest⟩ := chars_of_digit hraw h
        intro hquote
        cases raw with
        | nil => cases hquote
        | cons d raw => exact hrest.head_ne_quote (Option.some.inj hquote)
      · exact scanIndexLoop_head h 0

theorem quote_of_endsIndex {raw : Text} {units : List UInt16} (hraw : Chars raw units)
    {t : Source} (ht : NoDigit t) (hdigit : startsWithDigit (raw ++ t) = true)
    (hend : (scanIndex (raw ++ t)).2.head? = some 0x22) :
    t.head? = some 0x22 ∧ keyIndex raw = some (scanIndex (raw ++ t)).1 ∧
      (scanIndex (raw ++ t)).2 = t := by
  have hraw' : startsWithDigit raw = true := by
    cases raw with
    | nil => exact absurd hdigit (by rw [List.nil_append, not_startsWithDigit ht]; nofun)
    | cons c raw => exact hdigit
  rw [scanIndex_append hraw' ht] at hend ⊢
  cases hindex : (scanIndex raw).2 with
  | nil =>
      rw [hindex] at hend
      exact ⟨hend, if_pos ⟨hraw', hindex⟩, rfl⟩
  | cons c rest =>
      have hhead := scanIndex_head hraw' hraw
      rw [hindex] at hhead hend
      exact absurd hend hhead

theorem endsIndex_of_keyIndex {raw : Text} {index : Nat} (h : keyIndex raw = some index)
    {t : Source} (ht : NoDigit t) :
    startsWithDigit (raw ++ t) = true ∧ scanIndex (raw ++ t) = (index, t) := by
  unfold keyIndex at h
  split_ifs at h with hraw
  cases raw with
  | nil => exact absurd hraw.1 (by decide)
  | cons c raw =>
      refine ⟨hraw.1, ?_⟩
      rw [scanIndex_append hraw.1 ht, hraw.2, Option.some.inj h]
      rfl

section
variable {platform : ParserPlatform} {seqAscii : Bool}

theorem parseKey_element {source rest : Source} {index : Nat}
    (hdigit : startsWithDigit source = true)
    (hindex : scanIndex source = (index, 0x22 :: rest)) :
    parseKey platform seqAscii (0x22 :: source) = .ok (.element index, skipWhitespace rest) := by
  have hcond : startsWithDigit source = true ∧ (scanIndex source).2.head? = some 0x22 :=
    ⟨hdigit, by rw [hindex]; rfl⟩
  refine (if_pos hcond).trans ?_
  show (Except.ok (MemberKey.element (scanIndex source).1,
    advanceSkipWhitespace (scanIndex source).2) : Parsed (MemberKey × Source)) = _
  rw [hindex]
  rfl

theorem parseKey_named {source : Source}
    (h : ¬ (startsWithDigit source = true ∧ (scanIndex source).2.head? = some 0x22)) :
    parseKey platform seqAscii (0x22 :: source) =
      (scanJsonString platform seqAscii true (0x22 :: source)).map
        fun key => (.named key.1.units, key.2) := by
  refine (if_neg h).trans ?_
  cases scanJsonString platform seqAscii true (0x22 :: source) <;> rfl

/-- A key whose quote comes is an index or a name. -/
theorem parseKey_quote (platform : ParserPlatform) {k : Key} (hfits : Fits seqAscii k.raw)
    (rest : Source) {n : Nat} (hn : (k.raw ++ 0x22 :: rest).length ≤ n) :
    Barring n (parseKey platform seqAscii (0x22 :: (k.raw ++ 0x22 :: rest)))
      (.ok (memberKey k, skipWhitespace rest)) := by
  have hdigit : NoDigit (0x22 :: rest) := fun c hc => by
    cases hc
    rfl
  have hquote : StringEnd (0x22 :: rest) _ := .quote
  unfold memberKey
  cases hindex : keyIndex k.raw with
  | some index =>
      obtain ⟨hstarts, hscan⟩ := endsIndex_of_keyIndex hindex hdigit
      exact .inl (parseKey_element hstarts hscan)
  | none =>
      rw [parseKey_named fun h => by
        have hsome := (quote_of_endsIndex k.spells hdigit h.1 h.2).2.1
        cases hindex.symm.trans hsome]
      have hscan := scanJsonString_end platform true k.spells hfits hquote hn
      generalize scanJsonString platform seqAscii true (0x22 :: (k.raw ++ 0x22 :: rest)) = result
        at hscan
      cases hscan with
      | string hunits =>
          rw [← hunits]
          exact .refl n _
      | long hlong => exact .inr ⟨⟨_, rfl⟩, hlong⟩

/-- A key that does not end is an error. -/
theorem parseKey_stuck (platform : ParserPlatform) (limit : Nat) {raw : Text}
    {units : List UInt16} (hraw : Chars raw units) (hfits : Fits seqAscii raw) {t place : Source}
    (hstuck : Stuck t place) :
    ∃ failure, parseKey platform seqAscii (0x22 :: (raw ++ t)) = .error failure ∧
      Failed limit (0x22 :: (raw ++ t)) failure := by
  have hnoquote : t.head? ≠ some 0x22 := fun h => by
    cases t with
    | nil => cases h
    | cons c t => exact hstuck.head_ne_quote (Option.some.inj h)
  have hdigit : NoDigit t := hstuck.noDigit
  have hsuffix : raw ++ t <:+ 0x22 :: (raw ++ t) := List.suffix_cons _ _
  have hplace : place <:+ 0x22 :: (raw ++ t) :=
    (hstuck.suffix.trans (List.suffix_append raw t)).trans hsuffix
  rw [parseKey_named fun h => hnoquote (quote_of_endsIndex hraw hdigit h.1 h.2).1]
  have hscan := scanJsonString_end platform true hraw hfits (.stuck hstuck) (Nat.le_refl _)
  generalize scanJsonString platform seqAscii true (0x22 :: (raw ++ t)) = result at hscan
  cases hscan with
  | place => exact ⟨_, rfl, .unexpected ⟨_, rfl, hplace⟩⟩
  | start => exact ⟨_, rfl, .unexpected ⟨_, rfl, hsuffix⟩⟩
  | long hlong => exact ⟨_, rfl, .long (Nat.lt_succ_of_lt hlong)⟩

end

/-! ## Ends -/

section
variable (platform : ParserPlatform) (limit : Nat)

/-- A value at the front of the source, and the source behind the white space that follows;
or an error. -/
inductive ValueEnd (source : Source) : Parsed (JsonValue × Source) → Prop where
  | value {x : Tree} {t w rest : Text} : Spells x t → depth x < limit → Blank w → Trimmed rest →
      source = t ++ (w ++ rest) → ValueEnd source (.ok (eval platform.stringToDouble x, rest))
  | error {failure : ParseFailure} : Failed limit source failure →
      ValueEnd source (.error failure)

/-- The same for items, behind those that have been read. -/
inductive ItemsEnd (elements : List JsonValue) (source : Source) :
    Parsed (List JsonValue × Source) → Prop where
  | items {xs : List Tree} {t rest : Text} : Items xs t → depthItems xs ≤ limit →
      source = t ++ rest →
        ItemsEnd elements source (.ok (elements ++ evalItems platform.stringToDouble xs, rest))
  | error {failure : ParseFailure} : Failed limit source failure →
      ItemsEnd elements source (.error failure)

/-- The same for members. -/
inductive MembersEnd (properties : Properties) (source : Source) :
    Parsed (Properties × Source) → Prop where
  | members {members : List (Key × Tree)} {t rest : Text} : Members members t →
      depthMembers members ≤ limit → source = t ++ rest →
      MembersEnd properties source
        (.ok (evalMembers platform.stringToDouble members properties, rest))
  | error {failure : ParseFailure} : Failed limit source failure →
      MembersEnd properties source (.error failure)

end

section
variable {platform : ParserPlatform} {seqAscii : Bool} {limit : Nat}

theorem ValueEnd.of_spells {x : Tree} {t source : Text} (rest : Text) (hx : Spells x t)
    (hdepth : depth x < limit) (hsource : source = t ++ rest) :
    ValueEnd platform limit source (.ok (eval platform.stringToDouble x, skipWhitespace rest)) := by
  obtain ⟨w, hw, hrest⟩ := exists_blank rest
  refine .value hx hdepth hw (trimmed_skipWhite rest) ?_
  rw [hsource]
  exact congrArg (t ++ ·) hrest

theorem Fails.valueEnd {source : Source} {result : Parsed (JsonValue × Source)}
    (h : Fails source result) : ValueEnd platform limit source result := by
  obtain ⟨failure, rfl, hfailure⟩ := h
  exact .error (.unexpected hfailure)

/-! ## Literals -/

theorem spells_null : Spells .null (0x6E :: literalUnits "ull") := by
  rw [show 0x6E :: literalUnits "ull" = literal "null" by decide]
  exact .null

theorem spells_true : Spells (.boolean true) (0x74 :: literalUnits "rue") := by
  rw [show 0x74 :: literalUnits "rue" = literal (if true then "true" else "false") by decide]
  exact .boolean

theorem spells_false : Spells (.boolean false) (0x66 :: literalUnits "alse") := by
  rw [show 0x66 :: literalUnits "alse" = literal (if false then "true" else "false") by decide]
  exact .boolean

theorem parseLiteral_or_fails (value : JsonValue) : ∀ literal source : Text,
    (∃ rest, source = literal ++ rest ∧
      parseLiteral value literal source = .ok (value, skipWhitespace rest)) ∨
    Fails source (parseLiteral value literal source)
  | [], source => .inl ⟨source, rfl, rfl⟩
  | l :: literal, source => by
      unfold parseLiteral
      split_ifs with hhead
      · cases source with
        | nil => cases hhead
        | cons c source =>
            cases hhead
            rcases parseLiteral_or_fails value literal source with ⟨rest, rfl, hrest⟩ | hfails
            · exact .inl ⟨rest, rfl, hrest⟩
            · exact .inr (hfails.of_suffix (List.suffix_cons l source))
      · exact .inr (fails_report (List.suffix_refl source))

theorem valueEnd_parseLiteral {x : Tree} {c : UInt16} {literal source : Text}
    (hx : Spells x (c :: literal)) (hdepth : depth x < limit) :
    ValueEnd platform limit (c :: source)
      (parseLiteral (eval platform.stringToDouble x) literal source) := by
  rcases parseLiteral_or_fails (eval platform.stringToDouble x) literal source with
    ⟨rest, rfl, hrest⟩ | hfails
  · rw [hrest]
    exact .of_spells rest hx hdepth rfl
  · exact (hfails.of_suffix (List.suffix_cons c source)).valueEnd

/-! ## Arrays and objects -/

section
variable {parse : ValueParser}

theorem parseElements_error {source : Source} {failure : ParseFailure}
    (h : parse source = .error failure) (fuel : Nat) (elements : List JsonValue) :
    parseElements parse (fuel + 1) elements source = .error failure := by
  unfold parseElements
  rw [h]
  rfl

theorem parseElements_comma {source rest : Source} {value : JsonValue}
    (h : parse source = .ok (value, 0x2C :: rest)) (fuel : Nat) (elements : List JsonValue) :
    parseElements parse (fuel + 1) elements source =
      parseElements parse fuel (elements ++ [value]) (skipWhitespace rest) := by
  conv_lhs => unfold parseElements
  rw [h]
  rfl

theorem parseElements_last {source rest : Source} {value : JsonValue}
    (h : parse source = .ok (value, rest)) (hcomma : rest.head? ≠ some 0x2C) (fuel : Nat)
    (elements : List JsonValue) :
    parseElements parse (fuel + 1) elements source = .ok (elements ++ [value], rest) := by
  have hmatch : matchSkipWhiteSpace 0x2C rest = none := if_neg hcomma
  unfold parseElements
  rw [h]
  simp only [bind, Except.bind, hmatch]
  rfl

theorem parseMembers_error {source : Source} {failure : ParseFailure}
    (h : parseMember platform seqAscii parse source = .error failure) (fuel : Nat)
    (properties : Properties) :
    parseMembers platform seqAscii parse (fuel + 1) properties source = .error failure := by
  unfold parseMembers
  rw [h]
  rfl

theorem parseMembers_comma {source rest : Source} {key : MemberKey} {value : JsonValue}
    (h : parseMember platform seqAscii parse source = .ok ((key, value), 0x2C :: rest)) (fuel : Nat)
    (properties : Properties) :
    parseMembers platform seqAscii parse (fuel + 1) properties source =
      parseMembers platform seqAscii parse fuel (properties.set key value)
        (skipWhitespace rest) := by
  conv_lhs => unfold parseMembers
  rw [h]
  rfl

theorem parseMembers_last {source rest : Source} {key : MemberKey} {value : JsonValue}
    (h : parseMember platform seqAscii parse source = .ok ((key, value), rest))
    (hcomma : rest.head? ≠ some 0x2C) (fuel : Nat) (properties : Properties) :
    parseMembers platform seqAscii parse (fuel + 1) properties source =
      .ok (properties.set key value, rest) := by
  have hmatch : matchSkipWhiteSpace 0x2C rest = none := if_neg hcomma
  unfold parseMembers
  rw [h]
  simp only [bind, Except.bind, hmatch]
  rfl

variable (hparse : ∀ source, Fits seqAscii source → ValueEnd platform limit source (parse source))
include hparse

theorem itemsEnd_parseElements : ∀ (fuel : Nat) (elements : List JsonValue) (source : Source),
    source.length < fuel → Fits seqAscii source →
      ItemsEnd platform limit elements source (parseElements parse fuel elements source)
  | 0, _, _, hfuel, _ => absurd hfuel (Nat.not_lt_zero _)
  | fuel + 1, elements, source, hfuel, hfits => by
      have hvalue := hparse source hfits
      generalize hresult : parse source = result at hvalue
      cases hvalue with
      | error hfailed =>
          rw [parseElements_error hresult]
          exact .error hfailed
      | @value x t w rest hx hdepth hw _ hsource =>
          by_cases hcomma : rest.head? = some 0x2C
          · obtain ⟨rest, rfl⟩ : ∃ tail, rest = 0x2C :: tail :=
              ⟨rest.tail, List.eq_cons_of_mem_head? hcomma⟩
            rw [parseElements_comma hresult]
            obtain ⟨l, hl, hrest⟩ := exists_blank rest
            have hsuffix : skipWhitespace rest <:+ source := by
              rw [hsource]
              exact ((List.dropWhile_suffix _).trans (List.suffix_cons 0x2C rest)).trans
                ((List.suffix_append w _).trans (List.suffix_append t _))
            have hlength : (skipWhitespace rest).length < fuel := by
              have hle := (List.dropWhile_suffix isWhitespace (l := rest)).length_le
              rw [hsource] at hfuel
              simp only [List.length_append, List.length_cons] at hfuel
              unfold skipWhitespace
              omega
            have hitems :=
              itemsEnd_parseElements fuel (elements ++ [eval platform.stringToDouble x])
              (skipWhitespace rest) hlength (hfits.of_suffix hsuffix)
            generalize parseElements parse fuel (elements ++ [eval platform.stringToDouble x])
              (skipWhitespace rest) = result at hitems
            cases hitems with
            | error hfailed => exact .error (hfailed.of_suffix hsuffix)
            | @items xs ts more hxs hdepths htail =>
                have hall := Items.more blank_nil hx hw (hxs.blank_append hl)
                rw [List.append_assoc]
                refine .items hall (Nat.max_le.mpr ⟨hdepth, hdepths⟩) ?_
                rw [hsource, hrest, ← skipWhitespace_eq, htail]
                simp only [List.nil_append, List.append_assoc, List.cons_append]
          · rw [parseElements_last hresult hcomma]
            refine .items (.one blank_nil hx hw) (Nat.max_le.mpr ⟨hdepth, Nat.zero_le _⟩) ?_
            rw [hsource]
            simp only [List.nil_append, List.append_assoc]

theorem valueEnd_parseJsonArray {source : Source} (hfits : Fits seqAscii source) :
    ValueEnd platform (limit + 1) (0x5B :: source) (parseJsonArray parse (0x5B :: source)) := by
  obtain ⟨l, hl, hsource⟩ := exists_blank source
  rw [← skipWhitespace_eq] at hsource
  have hsuffix : skipWhitespace source <:+ source := List.dropWhile_suffix _
  have hlonger : (skipWhitespace source).length < (0x5B :: source).length :=
    Nat.lt_succ_of_le hsuffix.length_le
  have hinside := hsuffix.trans (List.suffix_cons 0x5B source)
  have hitems := itemsEnd_parseElements hparse ((skipWhitespace source).length + 1) []
    (skipWhitespace source) (Nat.lt_succ_self _) (hfits.of_suffix hsuffix)
  unfold parseJsonArray
  rw [show advanceSkipWhitespace (0x5B :: source) = skipWhitespace source from rfl]
  by_cases hempty : (skipWhitespace source).head? = some 0x5D
  · obtain ⟨rest, hrest⟩ : ∃ rest, skipWhitespace source = 0x5D :: rest :=
      ⟨_, List.eq_cons_of_mem_head? hempty⟩
    dsimp only
    rw [if_pos hempty, hrest]
    refine ValueEnd.of_spells rest (.emptyArray hl) (Nat.succ_pos _) ?_
    rw [hsource, hrest]
    simp only [List.cons_append, List.append_assoc, List.nil_append]
  · dsimp only
    rw [if_neg hempty]
    generalize parseElements parse ((skipWhitespace source).length + 1) []
      (skipWhitespace source) = result at hitems
    cases hitems with
    | error hfailed => exact .error (hfailed.nested hinside hlonger)
    | @items xs t rest hxs hdepth htext =>
        simp only [bind, Except.bind]
        by_cases hclosed : rest.head? = some 0x5D
        · obtain ⟨tail, rfl⟩ : ∃ tail, rest = 0x5D :: tail := ⟨_, List.eq_cons_of_mem_head? hclosed⟩
          rw [if_neg (not_not.mpr hclosed)]
          refine ValueEnd.of_spells tail (.array (hxs.blank_append hl))
            (Nat.lt_succ_of_le hdepth) ?_
          rw [hsource, htext]
          simp only [List.cons_append, List.append_assoc, List.nil_append]
        · rw [if_pos hclosed]
          refine Fails.valueEnd (fails_report ?_)
          exact (htext ▸ List.suffix_append t rest : rest <:+ skipWhitespace source).trans hinside

/-- A member at the front of the source, or an error. -/
theorem member_or_failed {source : Source} (hfits : Fits seqAscii source) :
    (∃ k x m n t w rest, Blank m ∧ Blank n ∧ Spells x t ∧ depth x < limit ∧ Blank w ∧
      source = 0x22 :: (k.raw ++ 0x22 :: (m ++ 0x3A :: (n ++ (t ++ (w ++ rest))))) ∧
      parseMember platform seqAscii parse source =
        .ok ((memberKey k, eval platform.stringToDouble x), rest)) ∨
    ∃ failure, parseMember platform seqAscii parse source = .error failure ∧
      Failed limit source failure := by
  by_cases hquote : source.head? = some 0x22
  · obtain ⟨source, rfl⟩ : ∃ tail, source = 0x22 :: tail := ⟨_, List.eq_cons_of_mem_head? hquote⟩
    obtain ⟨raw, units, t, end_, hraw, rfl, hend⟩ := exists_chars source
    have hfitsRaw : Fits seqAscii raw := hfits.tail.left
    have herror : ∀ {failure : ParseFailure},
        parseKey platform seqAscii (0x22 :: (raw ++ t)) = .error failure →
          parseMember platform seqAscii parse (0x22 :: (raw ++ t)) = .error failure := by
      intro failure hfailure
      unfold parseMember
      rw [if_neg (not_not.mpr hquote), hfailure]
      rfl
    cases hend with
    | stuck hstuck =>
        obtain ⟨failure, hfailure, hfailed⟩ :=
          parseKey_stuck platform limit hraw hfitsRaw hstuck
        exact .inr ⟨failure, herror hfailure, hfailed⟩
    | @quote behind =>
        rcases parseKey_quote platform (k := ⟨raw, units, hraw⟩) hfitsRaw behind (Nat.le_refl _)
          with hkey | ⟨⟨failure, hfailure⟩, hlong⟩
        case inr => exact .inr ⟨failure, herror hfailure, .long (Nat.lt_succ_of_lt hlong)⟩
        obtain ⟨m, hm, hbehind⟩ := exists_blank behind
        rw [← skipWhitespace_eq] at hbehind
        by_cases hcolon : (skipWhitespace behind).head? = some 0x3A
        · obtain ⟨more, hmore⟩ : ∃ more, skipWhitespace behind = 0x3A :: more :=
            ⟨_, List.eq_cons_of_mem_head? hcolon⟩
          obtain ⟨n, hn, hspace⟩ := exists_blank more
          rw [← skipWhitespace_eq] at hspace
          have hsuffix : skipWhitespace more <:+ 0x22 :: (raw ++ 0x22 :: behind) := by
            refine ⟨0x22 :: (raw ++ 0x22 :: (m ++ 0x3A :: n)), ?_⟩
            conv_rhs => rw [hbehind, hmore, hspace]
            simp only [List.cons_append, List.append_assoc]
          have hvalue := hparse (skipWhitespace more) (hfits.of_suffix hsuffix)
          generalize hresult : parse (skipWhitespace more) = result at hvalue
          have hmember : parseMember platform seqAscii parse (0x22 :: (raw ++ 0x22 :: behind)) =
              result.map fun value => ((memberKey ⟨raw, units, hraw⟩, value.1), value.2) := by
            unfold parseMember
            rw [if_neg (not_not.mpr hquote), hkey]
            simp only [bind, Except.bind]
            rw [hmore, if_neg (not_not.mpr List.head?_cons), show advanceSkipWhitespace
              (0x3A :: more) = skipWhitespace more from rfl, hresult]
            cases result <;> rfl
          cases hvalue with
          | error hfailed => exact .inr ⟨_, hmember, hfailed.of_suffix hsuffix⟩
          | @value x t w rest hx hdepth hw _ hsource =>
              refine .inl ⟨⟨raw, units, hraw⟩, x, m, n, t, w, rest, hm, hn, hx, hdepth, hw, ?_,
                hmember⟩
              rw [← hsource, ← hspace, ← hmore, ← hbehind]
        · refine .inr ⟨_, ?_, .unexpected ⟨skipWhitespace behind, rfl, ?_⟩⟩
          · unfold parseMember
            rw [if_neg (not_not.mpr hquote), hkey]
            exact if_pos hcolon
          · exact ((List.dropWhile_suffix _).trans (List.suffix_cons 0x22 behind)).trans
              ((List.suffix_append raw _).trans (List.suffix_cons 0x22 _))
  · obtain ⟨failure, hfailure, hunexpected⟩ :
        Fails source (parseMember platform seqAscii parse source) := by
      unfold parseMember
      rw [if_pos hquote]
      exact fails_report (List.suffix_refl source)
    exact .inr ⟨failure, hfailure, .unexpected hunexpected⟩

theorem membersEnd_parseMembers : ∀ (fuel : Nat) (properties : Properties) (source : Source),
    source.length < fuel → Fits seqAscii source →
      MembersEnd platform limit properties source
        (parseMembers platform seqAscii parse fuel properties source)
  | 0, _, _, hfuel, _ => absurd hfuel (Nat.not_lt_zero _)
  | fuel + 1, properties, source, hfuel, hfits => by
      rcases member_or_failed hparse hfits with
        ⟨k, x, m, n, t, w, rest, hm, hn, hx, hdepth, hw, hsource, hresult⟩ |
        ⟨failure, hresult, hfailed⟩
      · by_cases hcomma : rest.head? = some 0x2C
        · obtain ⟨rest, rfl⟩ : ∃ tail, rest = 0x2C :: tail :=
            ⟨rest.tail, List.eq_cons_of_mem_head? hcomma⟩
          rw [parseMembers_comma hresult]
          obtain ⟨l, hl, hrest⟩ := exists_blank rest
          rw [← skipWhitespace_eq] at hrest
          have hrests : rest <:+ source := by
            refine ⟨0x22 :: (k.raw ++ 0x22 :: (m ++ 0x3A :: (n ++ (t ++ (w ++ [0x2C]))))), ?_⟩
            rw [hsource]
            simp only [List.cons_append, List.append_assoc, List.nil_append]
          have hsuffix : skipWhitespace rest <:+ source := (List.dropWhile_suffix _).trans hrests
          have hlength : (skipWhitespace rest).length < fuel := by
            have hle := (List.dropWhile_suffix isWhitespace (l := rest)).length_le
            rw [hsource] at hfuel
            simp only [List.length_append, List.length_cons] at hfuel
            unfold skipWhitespace
            omega
          have hmembers := membersEnd_parseMembers fuel (properties.set (memberKey k)
            (eval platform.stringToDouble x)) (skipWhitespace rest) hlength
            (hfits.of_suffix hsuffix)
          generalize parseMembers platform seqAscii parse fuel _ (skipWhitespace rest) = result
            at hmembers
          cases hmembers with
          | error hfailed => exact .error (hfailed.of_suffix hsuffix)
          | @members members ts more hmembers hdepths htail =>
              have hall := Members.more (k := k) blank_nil hm hn hx hw (hmembers.blank_append hl)
              refine .members hall (Nat.max_le.mpr ⟨hdepth, hdepths⟩) ?_
              rw [hsource, hrest, htail]
              simp only [List.nil_append, List.append_assoc, List.cons_append]
        · rw [parseMembers_last hresult hcomma]
          refine .members (.one (k := k) blank_nil hm hn hx hw)
            (Nat.max_le.mpr ⟨hdepth, Nat.zero_le _⟩) ?_
          rw [hsource]
          simp only [List.nil_append, List.append_assoc, List.cons_append]
      · rw [parseMembers_error hresult]
        exact .error hfailed

theorem valueEnd_parseJsonObject {source : Source} (hfits : Fits seqAscii source) :
    ValueEnd platform (limit + 1) (0x7B :: source)
      (parseJsonObject platform seqAscii parse (0x7B :: source)) := by
  obtain ⟨l, hl, hsource⟩ := exists_blank source
  rw [← skipWhitespace_eq] at hsource
  have hsuffix : skipWhitespace source <:+ source := List.dropWhile_suffix _
  have hlonger : (skipWhitespace source).length < (0x7B :: source).length :=
    Nat.lt_succ_of_le hsuffix.length_le
  have hinside := hsuffix.trans (List.suffix_cons 0x7B source)
  have hmembers := membersEnd_parseMembers hparse ((skipWhitespace source).length + 1) .empty
    (skipWhitespace source) (Nat.lt_succ_self _) (hfits.of_suffix hsuffix)
  unfold parseJsonObject
  rw [show advanceSkipWhitespace (0x7B :: source) = skipWhitespace source from rfl]
  by_cases hempty : (skipWhitespace source).head? = some 0x7D
  · obtain ⟨rest, hrest⟩ : ∃ rest, skipWhitespace source = 0x7D :: rest :=
      ⟨_, List.eq_cons_of_mem_head? hempty⟩
    dsimp only
    rw [if_pos hempty, hrest]
    refine ValueEnd.of_spells rest (.emptyObject hl) (Nat.succ_pos _) ?_
    rw [hsource, hrest]
    simp only [List.cons_append, List.append_assoc, List.nil_append]
  · dsimp only
    rw [if_neg hempty]
    generalize parseMembers platform seqAscii parse ((skipWhitespace source).length + 1) .empty
      (skipWhitespace source) = result at hmembers
    cases hmembers with
    | error hfailed => exact .error (hfailed.nested hinside hlonger)
    | @members members t rest hmembers hdepth htext =>
        simp only [bind, Except.bind]
        by_cases hclosed : rest.head? = some 0x7D
        · obtain ⟨tail, rfl⟩ : ∃ tail, rest = 0x7D :: tail := ⟨_, List.eq_cons_of_mem_head? hclosed⟩
          rw [if_neg (not_not.mpr hclosed)]
          refine ValueEnd.of_spells tail (.object (hmembers.blank_append hl))
            (Nat.lt_succ_of_le hdepth) ?_
          rw [hsource, htext]
          simp only [List.cons_append, List.append_assoc, List.nil_append]
        · rw [if_pos hclosed]
          refine Fails.valueEnd (fails_report ?_)
          exact (htext ▸ List.suffix_append t rest : rest <:+ skipWhitespace source).trans hinside

/-- The branches for the first character. -/
theorem valueEnd_parseJsonValue {source : Source} (hfits : Fits seqAscii source) :
    ValueEnd platform (limit + 1) source (parseJsonValue platform seqAscii parse source) := by
  cases source with
  | nil => exact (fails_report (List.suffix_refl [])).valueEnd
  | cons c source =>
      unfold parseJsonValue
      dsimp only
      split_ifs with hstring hnumber hobject harray hfalse htrue hnull
      · subst hstring
        obtain ⟨raw, units, t, end_, hraw, rfl, hend⟩ := exists_chars source
        rcases scanJsonString_eq platform (Bool.and_false seqAscii) hraw hfits.tail.left hend
          (Nat.le_refl _) with hscan | ⟨⟨failure, hfailure⟩, hlong⟩
        case inr =>
          rw [hfailure]
          exact .error (.long (Nat.lt_succ_of_lt hlong))
        rw [hscan]
        cases hend with
        | @quote rest =>
            refine .of_spells rest (.string hraw) (Nat.succ_pos _) ?_
            simp only [List.cons_append, List.append_assoc, List.nil_append]
        | stuck hstuck =>
            refine Fails.valueEnd (fails_report ?_)
            exact (hstuck.suffix.trans (List.suffix_append raw t)).trans (List.suffix_cons _ _)
      · rcases number_or_fails platform (c :: source) with
          ⟨t, rest, ht, hsource, hresult⟩ | ⟨failure, hfailure, hunexpected⟩
        · rw [hresult]
          exact .of_spells rest (.number ht) (Nat.succ_pos _) hsource
        · rw [hfailure]
          exact .error (.unexpected hunexpected)
      · subst hobject
        exact valueEnd_parseJsonObject hparse hfits.tail
      · subst harray
        exact valueEnd_parseJsonArray hparse hfits.tail
      · subst hfalse
        exact valueEnd_parseLiteral spells_false (Nat.succ_pos _)
      · subst htrue
        exact valueEnd_parseLiteral spells_true (Nat.succ_pos _)
      · subst hnull
        exact valueEnd_parseLiteral spells_null (Nat.succ_pos _)
      · exact (fails_report (List.suffix_refl _)).valueEnd

end

/-- Every source is a value and something behind it, or an error. -/
theorem valueEnd_valueParser (platform : ParserPlatform) :
    ∀ (limit : Nat) (source : Source), Fits seqAscii source →
    ValueEnd platform limit source (valueParser platform seqAscii limit source)
  | 0, _, _ => .error (.stackOverflow (Nat.zero_le _))
  | limit + 1, _, hfits => valueEnd_parseJsonValue (valueEnd_valueParser platform limit) hfits

/-! ## Everything that is spelled is accepted -/

theorem parseLiteral_append (value : JsonValue) : ∀ literal rest : Text,
    parseLiteral value literal (literal ++ rest) = .ok (value, skipWhitespace rest)
  | [], _ => rfl
  | _ :: literal, rest => (if_pos rfl).trans (parseLiteral_append value literal rest)

theorem parseJsonValue_string {parse : ValueParser} (source : Source) :
    parseJsonValue platform seqAscii parse (0x22 :: source) =
      (scanJsonString platform seqAscii false (0x22 :: source)).map
        fun chars => (.string chars.1, chars.2) := by
  show (scanJsonString platform seqAscii false (0x22 :: source) >>= fun chars =>
    pure (JsonValue.string chars.1, chars.2)) = _
  cases scanJsonString platform seqAscii false (0x22 :: source) <;> rfl

theorem parseJsonValue_number {parse : ValueParser} {c : UInt16}
    (hc : c = 0x2D ∨ isDigit c = true) (source : Source) :
    parseJsonValue platform seqAscii parse (c :: source) =
      (parseJsonNumber platform (c :: source)).map fun n => (.number n.1, n.2) := by
  have hquote : c ≠ 0x22 := by
    rintro rfl
    exact absurd hc (by decide)
  have hnumber : isDecimalDigit c = true ∨ c = 0x2D := hc.symm
  unfold parseJsonValue
  dsimp only
  rw [if_neg hquote, if_pos hnumber]
  cases parseJsonNumber platform (c :: source) <;> rfl

theorem parseJsonArray_empty {parse : ValueParser} {blank : Text} (hblank : Blank blank)
    (rest : Source) : parseJsonArray parse (0x5B :: (blank ++ 0x5D :: rest)) =
      .ok (.array [], skipWhitespace rest) := by
  have hskip : advanceSkipWhitespace (0x5B :: (blank ++ 0x5D :: rest)) = 0x5D :: rest :=
    skipWhite_append_cons hblank (by decide) rest
  unfold parseJsonArray
  rw [hskip]
  rfl

theorem parseJsonArray_closed {parse : ValueParser} {source rest : Source}
    {elements : List JsonValue} (hhead : (skipWhitespace source).head? ≠ some 0x5D)
    (h : parseElements parse ((skipWhitespace source).length + 1) [] (skipWhitespace source) =
      .ok (elements, 0x5D :: rest)) :
    parseJsonArray parse (0x5B :: source) = .ok (.array elements, skipWhitespace rest) := by
  unfold parseJsonArray
  rw [show advanceSkipWhitespace (0x5B :: source) = skipWhitespace source from rfl]
  dsimp only
  rw [if_neg hhead, h]
  rfl

theorem parseJsonArray_error {parse : ValueParser} {source : Source} {failure : ParseFailure}
    (hhead : (skipWhitespace source).head? ≠ some 0x5D)
    (h : parseElements parse ((skipWhitespace source).length + 1) [] (skipWhitespace source) =
      .error failure) : parseJsonArray parse (0x5B :: source) = .error failure := by
  unfold parseJsonArray
  rw [show advanceSkipWhitespace (0x5B :: source) = skipWhitespace source from rfl]
  dsimp only
  rw [if_neg hhead, h]
  rfl

theorem parseJsonObject_empty {parse : ValueParser} {blank : Text} (hblank : Blank blank)
    (rest : Source) : parseJsonObject platform seqAscii parse (0x7B :: (blank ++ 0x7D :: rest)) =
      .ok (Properties.empty.toObject, skipWhitespace rest) := by
  have hskip : advanceSkipWhitespace (0x7B :: (blank ++ 0x7D :: rest)) = 0x7D :: rest :=
    skipWhite_append_cons hblank (by decide) rest
  unfold parseJsonObject
  rw [hskip]
  rfl

theorem parseJsonObject_closed {parse : ValueParser} {source rest : Source}
    {properties : Properties} (hhead : (skipWhitespace source).head? ≠ some 0x7D)
    (h : parseMembers platform seqAscii parse ((skipWhitespace source).length + 1) .empty
      (skipWhitespace source) = .ok (properties, 0x7D :: rest)) :
    parseJsonObject platform seqAscii parse (0x7B :: source) =
      .ok (properties.toObject, skipWhitespace rest) := by
  unfold parseJsonObject
  rw [show advanceSkipWhitespace (0x7B :: source) = skipWhitespace source from rfl]
  dsimp only
  rw [if_neg hhead, h]
  rfl

theorem parseJsonObject_error {parse : ValueParser} {source : Source} {failure : ParseFailure}
    (hhead : (skipWhitespace source).head? ≠ some 0x7D)
    (h : parseMembers platform seqAscii parse ((skipWhitespace source).length + 1) .empty
      (skipWhitespace source) = .error failure) :
    parseJsonObject platform seqAscii parse (0x7B :: source) = .error failure := by
  unfold parseJsonObject
  rw [show advanceSkipWhitespace (0x7B :: source) = skipWhitespace source from rfl]
  dsimp only
  rw [if_neg hhead, h]
  rfl

/-- The result, if the stack reaches as deep as it must. -/
def reaching {α : Type} (reaches : Prop) [Decidable reaches] (result : α) : Parsed α :=
  if reaches then .ok result else .error .stackOverflow

theorem reaching_of {α : Type} {reaches : Prop} [Decidable reaches] (h : reaches) (result : α) :
    reaching reaches result = .ok result := if_pos h

theorem reaching_of_not {α : Type} {reaches : Prop} [Decidable reaches] (h : ¬ reaches)
    (result : α) : reaching reaches result = .error .stackOverflow := if_neg h

/-- An item, and those after it. -/
theorem depthItems_cons_le {x : Tree} {xs : List Tree} {limit : Nat} :
    depthItems (x :: xs) ≤ limit ↔ depth x < limit ∧ depthItems xs ≤ limit := Nat.max_le

theorem depthMembers_cons_le {k : Key} {x : Tree} {xs : List (Key × Tree)} {limit : Nat} :
    depthMembers ((k, x) :: xs) ≤ limit ↔ depth x < limit ∧ depthMembers xs ≤ limit := Nat.max_le

/-- A member that is written down is read, with what its value gives. -/
theorem parseMember_append (platform : ParserPlatform) {parse : ValueParser} {k : Key}
    {m n t : Text} (hfits : Fits seqAscii k.raw) (hm : Blank m)
    (hlength : (k.raw ++ 0x22 :: (m ++ 0x3A :: (n ++ t))).length ≤ kMaxTwoByteLength) :
    parseMember platform seqAscii parse (0x22 :: (k.raw ++ 0x22 :: (m ++ 0x3A :: (n ++ t)))) =
      (parse (skipWhitespace (n ++ t))).map fun value => ((memberKey k, value.1), value.2) := by
  have hkey := (parseKey_quote platform hfits (m ++ 0x3A :: (n ++ t)) (Nat.le_refl _)).eq hlength
  have hcolon : skipWhitespace (m ++ 0x3A :: (n ++ t)) = 0x3A :: (n ++ t) :=
    skipWhite_append_cons hm (by decide) _
  unfold parseMember
  rw [if_neg (not_not.mpr List.head?_cons), hkey, hcolon]
  simp only [bind, Except.bind]
  rw [if_neg (not_not.mpr List.head?_cons), show advanceSkipWhitespace (0x3A :: (n ++ t)) =
    skipWhitespace (n ++ t) from rfl]
  cases parse (skipWhitespace (n ++ t)) <;> rfl

mutual

theorem valueParser_append : ∀ (x : Tree) (limit : Nat) {t rest : Text}, Spells x t →
    Fits seqAscii t → EndsNumber rest → (t ++ rest).length ≤ kMaxTwoByteLength →
      valueParser platform seqAscii limit (t ++ rest) =
        reaching (depth x < limit) (eval platform.stringToDouble x, skipWhitespace rest)
  | _, 0, _, _, _, _, _, _ => rfl
  | .null, limit + 1, _, rest, h, _, _, _ => by
      cases h
      exact parseLiteral_append .null (literalUnits "ull") rest
  | .boolean b, limit + 1, _, rest, h, _, _, _ => by
      cases h
      cases b with
      | true => exact parseLiteral_append (.boolean true) (literalUnits "rue") rest
      | false => exact parseLiteral_append (.boolean false) (literalUnits "alse") rest
  | .number digits, limit + 1, _, rest, h, _, hrest, _ => by
      cases h with
      | number ht =>
          have hnumber := parseJsonNumber_eq platform ht hrest
          obtain ⟨c, t, rfl, hc⟩ := ht.head
          exact (parseJsonValue_number hc (t ++ rest)).trans (by
            rw [← List.cons_append, hnumber]
            rfl)
  | .string units, limit + 1, _, rest, h, hfits, _, hlength => by
      cases h with
      | @string raw _ hraw =>
          have hquote : StringEnd (0x22 :: rest) _ := .quote
          rw [List.cons_append, List.append_assoc, List.singleton_append] at hlength ⊢
          rw [List.length_cons] at hlength
          have hscan := (scanJsonString_eq platform (Bool.and_false seqAscii) hraw hfits.tail.left
            hquote (Nat.le_refl _)).eq (Nat.le_of_succ_le hlength)
          exact (parseJsonValue_string _).trans (by
            rw [hscan]
            rfl)
  | .array items, limit + 1, _, rest, h, hfits, _, hlength => by
      cases h with
      | emptyArray hblank =>
          rw [List.cons_append, List.append_assoc]
          exact parseJsonArray_empty hblank rest
      | @array _ t hitems =>
          rw [List.cons_append, List.append_assoc] at hlength ⊢
          rw [List.length_cons] at hlength
          obtain ⟨t', hitems', htrim⟩ := hitems.trim
          obtain ⟨hskip, hhead⟩ := htrim (0x5D :: rest)
          have hfuel : items.length < (skipWhitespace (t ++ 0x5D :: rest)).length + 1 := by
            have hle := hitems'.length_le
            rw [skipWhitespace_eq, hskip, List.length_append]
            omega
          have helements := parseElements_append items [] rest limit hitems
            hfits.tail.left hfuel (Nat.le_of_succ_le hlength)
          rw [← hskip] at hhead
          show parseJsonArray (valueParser platform seqAscii limit) _ =
            reaching (depthItems items < limit + 1) _
          by_cases hdepth : depthItems items ≤ limit
          · rw [reaching_of hdepth] at helements
            rw [reaching_of (Nat.lt_succ_of_le hdepth)]
            exact parseJsonArray_closed hhead helements
          · rw [reaching_of_not hdepth] at helements
            rw [reaching_of_not fun hlt => hdepth (Nat.le_of_lt_succ hlt)]
            exact parseJsonArray_error hhead helements
  | .object members, limit + 1, _, rest, h, hfits, _, hlength => by
      cases h with
      | emptyObject hblank =>
          rw [List.cons_append, List.append_assoc]
          exact parseJsonObject_empty hblank rest
      | @object _ t hmembers =>
          rw [List.cons_append, List.append_assoc] at hlength ⊢
          rw [List.length_cons] at hlength
          obtain ⟨t', hmembers', htrim⟩ := hmembers.trim
          obtain ⟨hskip, hhead⟩ := htrim (0x7D :: rest)
          have hfuel : members.length < (skipWhitespace (t ++ 0x7D :: rest)).length + 1 := by
            have hle := hmembers'.length_le
            rw [skipWhitespace_eq, hskip, List.length_append]
            omega
          have hparsed := parseMembers_append members .empty rest limit hmembers
            hfits.tail.left hfuel (Nat.le_of_succ_le hlength)
          have hhead' : (skipWhitespace (t ++ 0x7D :: rest)).head? ≠ some 0x7D := by
            intro h
            rw [skipWhitespace_eq, hskip, hhead] at h
            cases h
          show parseJsonObject platform seqAscii (valueParser platform seqAscii limit) _ =
            reaching (depthMembers members < limit + 1) _
          by_cases hdepth : depthMembers members ≤ limit
          · rw [reaching_of hdepth] at hparsed
            rw [reaching_of (Nat.lt_succ_of_le hdepth)]
            exact parseJsonObject_closed hhead' hparsed
          · rw [reaching_of_not hdepth] at hparsed
            rw [reaching_of_not fun hlt => hdepth (Nat.le_of_lt_succ hlt)]
            exact parseJsonObject_error hhead' hparsed

theorem parseElements_append : ∀ (xs : List Tree) (elements : List JsonValue) (rest : Text)
    (limit : Nat) {fuel : Nat} {t : Text}, Items xs t → Fits seqAscii t → xs.length < fuel →
      (t ++ 0x5D :: rest).length ≤ kMaxTwoByteLength →
      parseElements (valueParser platform seqAscii limit) fuel elements
        (skipWhitespace (t ++ 0x5D :: rest)) =
        reaching (depthItems xs ≤ limit)
          (elements ++ evalItems platform.stringToDouble xs, 0x5D :: rest)
  | _, _, _, _, 0, _, _, _, hfuel, _ => absurd hfuel (Nat.not_lt_zero _)
  | [x], elements, rest, limit, fuel + 1, _, .one (t := t) (r := r) hl hx hr, hfits, _,
      hlength => by
      have hbracket : EndsNumber (0x5D :: rest) := endsNumber_cons (by decide) rest
      have hlengthValue : (t ++ (r ++ 0x5D :: rest)).length ≤ kMaxTwoByteLength := by
        simp only [List.length_append] at hlength ⊢
        omega
      have hvalue := valueParser_append x limit hx hfits.right.left
        (hbracket.blank_append hr) hlengthValue
      rw [skipWhitespace_eq, skipWhite_append_cons hr (by decide)] at hvalue
      rw [skipWhitespace_eq, List.append_assoc, List.append_assoc, skipWhite_spells hl hx]
      by_cases hdepth : depth x < limit
      · rw [reaching_of hdepth] at hvalue
        rw [reaching_of (depthItems_cons_le.mpr ⟨hdepth, Nat.zero_le _⟩)]
        exact parseElements_last hvalue nofun fuel elements
      · rw [reaching_of_not hdepth] at hvalue
        rw [reaching_of_not fun hle => hdepth (depthItems_cons_le.mp hle).1]
        exact parseElements_error hvalue fuel elements
  | x :: xs, elements, rest, limit, fuel + 1, _, .more (t := t) (r := r) (s := ts) hl hx hr hxs,
      hfits, hfuel, hlength => by
      have hcomma : EndsNumber (0x2C :: (ts ++ 0x5D :: rest)) := endsNumber_cons (by decide) _
      have hlengthValue : (t ++ (r ++ 0x2C :: (ts ++ 0x5D :: rest))).length ≤
          kMaxTwoByteLength := by
        simp only [List.length_append, List.length_cons] at hlength ⊢
        omega
      have hlengthRest : (ts ++ 0x5D :: rest).length ≤ kMaxTwoByteLength := by
        simp only [List.length_append, List.length_cons] at hlength ⊢
        omega
      have hvalue := valueParser_append x limit hx hfits.right.left
        (hcomma.blank_append hr) hlengthValue
      rw [skipWhitespace_eq, skipWhite_append_cons hr (by decide)] at hvalue
      have helements := parseElements_append xs (elements ++ [eval platform.stringToDouble x]) rest
        limit hxs hfits.right.right.right.tail (Nat.lt_of_succ_lt_succ hfuel) hlengthRest
      rw [skipWhitespace_eq]
      simp only [List.append_assoc, List.cons_append]
      rw [skipWhite_spells hl hx]
      by_cases hdepth : depth x < limit
      · rw [reaching_of hdepth] at hvalue
        rw [parseElements_comma hvalue, helements]
        by_cases hdepths : depthItems xs ≤ limit
        · rw [reaching_of hdepths, reaching_of (depthItems_cons_le.mpr ⟨hdepth, hdepths⟩),
            List.append_assoc]
          rfl
        · rw [reaching_of_not hdepths,
            reaching_of_not fun hle => hdepths (depthItems_cons_le.mp hle).2]
      · rw [reaching_of_not hdepth] at hvalue
        rw [reaching_of_not fun hle => hdepth (depthItems_cons_le.mp hle).1]
        exact parseElements_error hvalue fuel elements

theorem parseMembers_append : ∀ (members : List (Key × Tree)) (properties : Properties)
    (rest : Text) (limit : Nat) {fuel : Nat} {t : Text}, Members members t → Fits seqAscii t →
      members.length < fuel → (t ++ 0x7D :: rest).length ≤ kMaxTwoByteLength →
      parseMembers platform seqAscii (valueParser platform seqAscii limit) fuel properties
        (skipWhitespace (t ++ 0x7D :: rest)) =
        reaching (depthMembers members ≤ limit)
          (evalMembers platform.stringToDouble members properties, 0x7D :: rest)
  | _, _, _, _, 0, _, _, _, hfuel, _ => absurd hfuel (Nat.not_lt_zero _)
  | [(k, x)], properties, rest, limit, fuel + 1, _,
      .one (m := m) (n := n) (t := t) (r := r) hl hm hn hx hr, hfits, _, hlength => by
      have hbrace : EndsNumber (0x7D :: rest) := endsNumber_cons (by decide) rest
      simp only [List.append_assoc, List.cons_append] at hlength ⊢
      have hlengthMember :
          (k.raw ++ 0x22 :: (m ++ 0x3A :: (n ++ (t ++ (r ++ 0x7D :: rest))))).length ≤
          kMaxTwoByteLength := by
        simp only [List.length_append, List.length_cons] at hlength ⊢
        omega
      have hlengthValue : (t ++ (r ++ 0x7D :: rest)).length ≤ kMaxTwoByteLength := by
        simp only [List.length_append, List.length_cons] at hlengthMember ⊢
        omega
      have hvalue := valueParser_append x limit hx
        hfits.right.tail.right.tail.right.tail.right.left (hbrace.blank_append hr) hlengthValue
      rw [skipWhitespace_eq, skipWhite_append_cons hr (by decide), ← skipWhite_spells hn hx]
        at hvalue
      have hmember := @parseMember_append seqAscii platform
        (valueParser platform seqAscii limit) k _ _ _ hfits.right.tail.left hm hlengthMember
      rw [skipWhitespace_eq, hvalue] at hmember
      rw [skipWhitespace_eq, skipWhite_append_cons hl (by decide)]
      by_cases hdepth : depth x < limit
      · rw [reaching_of hdepth] at hmember
        rw [reaching_of (depthMembers_cons_le.mpr ⟨hdepth, Nat.zero_le _⟩)]
        exact parseMembers_last hmember nofun fuel properties
      · rw [reaching_of_not hdepth] at hmember
        rw [reaching_of_not fun hle => hdepth (depthMembers_cons_le.mp hle).1]
        exact parseMembers_error hmember fuel properties
  | (k, x) :: members, properties, rest, limit, fuel + 1, _,
      .more (m := m) (n := n) (t := t) (r := r) (s := ts) hl hm hn hx hr hmembers, hfits, hfuel,
      hlength => by
      have hcomma : EndsNumber (0x2C :: (ts ++ 0x7D :: rest)) := endsNumber_cons (by decide) _
      simp only [List.append_assoc, List.cons_append] at hlength ⊢
      have hlengthMember : (k.raw ++ 0x22 :: (m ++ 0x3A :: (n ++
          (t ++ (r ++ 0x2C :: (ts ++ 0x7D :: rest)))))).length ≤ kMaxTwoByteLength := by
        simp only [List.length_append, List.length_cons] at hlength ⊢
        omega
      have hlengthValue : (t ++ (r ++ 0x2C :: (ts ++ 0x7D :: rest))).length ≤
          kMaxTwoByteLength := by
        simp only [List.length_append, List.length_cons] at hlengthMember ⊢
        omega
      have hlengthRest : (ts ++ 0x7D :: rest).length ≤ kMaxTwoByteLength := by
        simp only [List.length_append, List.length_cons] at hlengthValue ⊢
        omega
      have hvalue := valueParser_append x limit hx
        hfits.right.tail.right.tail.right.tail.right.left (hcomma.blank_append hr) hlengthValue
      rw [skipWhitespace_eq, skipWhite_append_cons hr (by decide), ← skipWhite_spells hn hx]
        at hvalue
      have hmember := @parseMember_append seqAscii platform
        (valueParser platform seqAscii limit) k _ _ _ hfits.right.tail.left hm hlengthMember
      rw [skipWhitespace_eq, hvalue] at hmember
      have hparsed := parseMembers_append members
        (properties.set (memberKey k) (eval platform.stringToDouble x)) rest limit
        hmembers hfits.right.tail.right.tail.right.tail.right.right.right.tail
        (Nat.lt_of_succ_lt_succ hfuel) hlengthRest
      rw [skipWhitespace_eq, skipWhite_append_cons hl (by decide)]
      by_cases hdepth : depth x < limit
      · rw [reaching_of hdepth] at hmember
        rw [parseMembers_comma hmember, hparsed]
        by_cases hdepths : depthMembers members ≤ limit
        · rw [reaching_of hdepths, reaching_of (depthMembers_cons_le.mpr ⟨hdepth, hdepths⟩)]
          rfl
        · rw [reaching_of_not hdepths,
            reaching_of_not fun hle => hdepths (depthMembers_cons_le.mp hle).2]
      · rw [reaching_of_not hdepth] at hmember
        rw [reaching_of_not fun hle => hdepth (depthMembers_cons_le.mp hle).1]
        exact parseMembers_error hmember fuel properties

end

/-! ## A whole source -/

/-- A text that is JSON is parsed, if the stack has room for its levels. -/
theorem parseJson_denotes (platform : ParserPlatform) {source : Source}
    (hfits : Fits seqAscii source) {x : Tree} (h : Denotes source x)
    (hlength : source.length ≤ kMaxTwoByteLength) :
    parseJson platform seqAscii limit source =
      if depth x < limit then .ok (eval platform.stringToDouble x) else .error .stackOverflow := by
  cases h with
  | @intro _ l t r hl hx hr =>
      have hend := endsNumber_nil.blank_append hr
      have hlengthValue : (t ++ (r ++ [])).length ≤ kMaxTwoByteLength := by
        rw [List.append_nil]
        rw [List.length_append] at hlength
        exact Nat.le_trans (Nat.le_add_left _ _) hlength
      have hvalue := @valueParser_append platform seqAscii x limit _ _ hx hfits.right.left hend
        hlengthValue
      rw [skipWhitespace_eq, skipWhite_append hr, List.append_nil] at hvalue
      unfold parseJson
      rw [skipWhitespace_eq, skipWhite_spells hl hx, hvalue, reaching]
      split_ifs <;> rfl

/-- What a whole source gives. -/
inductive ParseEnd (platform : ParserPlatform) (limit : Nat) (source : Source) :
    Except ParseError JsonValue → Prop where
  | value {x : Tree} : Denotes source x → depth x < limit →
      ParseEnd platform limit source (.ok (eval platform.stringToDouble x))
  | syntaxError {rest : Source} : rest <:+ source →
      ParseEnd platform limit source (.error (syntaxError source rest))
  | stackOverflow : limit ≤ source.length →
      ParseEnd platform limit source (.error .stackOverflow)
  | long {e : ParseError} : kMaxTwoByteLength < source.length →
      ParseEnd platform limit source (.error e)

theorem parseJson_end (platform : ParserPlatform) (limit : Nat) {source : Source}
    (hfits : Fits seqAscii source) :
    ParseEnd platform limit source (parseJson platform seqAscii limit source) := by
  obtain ⟨l, hl, hsource⟩ := exists_blank source
  rw [← skipWhitespace_eq] at hsource
  have hsuffix : skipWhitespace source <:+ source := List.dropWhile_suffix _
  have hvalue := valueEnd_valueParser platform limit (skipWhitespace source)
    (hfits.of_suffix hsuffix)
  unfold parseJson
  generalize valueParser platform seqAscii limit (skipWhitespace source) = result at hvalue
  cases hvalue with
  | @error failure hfailed =>
      cases hfailed.of_suffix hsuffix with
      | unexpected h =>
          obtain ⟨rest, rfl, hrest⟩ := h
          exact ParseEnd.syntaxError hrest
      | stackOverflow hlimit => exact .stackOverflow hlimit
      | long hlong => cases failure <;> exact .long hlong
  | @value x t w rest hx hdepth hw _ htext =>
      cases rest with
      | nil =>
          refine .value ?_ hdepth
          rw [hsource, htext, List.append_nil]
          exact .intro hl hx hw
      | cons c rest =>
          refine .syntaxError ?_
          have hrest : c :: rest <:+ skipWhitespace source := by
            rw [htext]
            exact (List.suffix_append w _).trans (List.suffix_append t _)
          exact hrest.trans hsuffix

end

end JsonParser

open JsonParser

/-- The characters of a sequential one-byte string are one byte wide. -/
theorem narrow_of_isSeqOneByteString {s : Str} (h : s.isSeqOneByteString = true) :
    Narrow s.units := by
  cases s with
  | seq chars =>
      cases chars with
      | oneByte chars =>
          intro u hu
          obtain ⟨b, -, rfl⟩ := List.mem_map.mp hu
          rw [UInt16.le_iff_toNat_le, UInt8.toNat_toUInt16]
          exact Nat.le_of_lt_succ b.toNat_lt
      | twoByte _ => cases h
  | external _ _ => cases h
  | sliced _ _ _ => cases h
  | cons _ _ _ => cases h

/-- A string is parsed by a variant that it fits, whether it has been flattened or not. -/
theorem runtimeParseJson_flat (platform : ParserPlatform) (fill : Nat → UInt16) (allocated : Bool)
    (limit : Nat) {s : Str} (h : s.WellFormed) : ∃ seqAscii, Fits seqAscii s.units ∧
      runtimeParseJson platform fill allocated limit s =
        parseJson platform seqAscii limit s.units := by
  obtain ⟨flat, hflat, -, hunits⟩ := Str.tryFlattenGetString_eq fill allocated h
  refine ⟨flat.isSeqOneByteString, ?_, ?_⟩
  · intro hascii c hc
    rw [← hunits] at hc
    exact narrow_of_isSeqOneByteString hascii c hc
  · unfold runtimeParseJson
    rw [hflat, ← hunits]

section
variable {platform : ParserPlatform} {fill : Nat → UInt16} {allocated : Bool} {limit : Nat}
  {s : Str}

/-- What is parsed is a text of the grammar, and the value is what it means. -/
theorem denotes_of_runtimeParseJson (h : s.WellFormed) {value : JsonValue}
    (hok : runtimeParseJson platform fill allocated limit s = .ok value) :
    ∃ x, Denotes s.units x ∧ depth x < limit ∧ eval platform.stringToDouble x = value := by
  obtain ⟨seqAscii, hfits, hparse⟩ := runtimeParseJson_flat platform fill allocated limit h
  have hend := parseJson_end platform limit hfits
  rw [← hparse, hok] at hend
  cases hend with
  | @value x hx hdepth => exact ⟨x, hx, hdepth, rfl⟩

/-- A text of the grammar is parsed, as far as the stack reaches. -/
theorem runtimeParseJson_of_denotes (h : s.WellFormed) (hlength : s.length ≤ kMaxTwoByteLength)
    {x : Tree} (hx : Denotes s.units x) :
    runtimeParseJson platform fill allocated limit s =
      if depth x < limit then .ok (eval platform.stringToDouble x) else .error .stackOverflow := by
  obtain ⟨seqAscii, hfits, hparse⟩ := runtimeParseJson_flat platform fill allocated limit h
  rw [hparse]
  rw [← Str.length_units h] at hlength
  exact parseJson_denotes platform hfits hx hlength

/-- A text with fewer characters than the stack has levels does not overflow it. -/
theorem runtimeParseJson_ne_stackOverflow (h : s.WellFormed)
    (hlength : s.length ≤ kMaxTwoByteLength) (hlimit : s.length < limit) :
    runtimeParseJson platform fill allocated limit s ≠ .error .stackOverflow := by
  intro herror
  obtain ⟨seqAscii, hfits, hparse⟩ := runtimeParseJson_flat platform fill allocated limit h
  have hend := parseJson_end platform limit hfits
  rw [← hparse, herror] at hend
  rw [← Str.length_units h] at hlength hlimit
  cases hend with
  | stackOverflow hle => exact Nat.not_lt.mpr hle hlimit
  | long hlong => exact Nat.not_lt.mpr hlength hlong

end

/-- `JSON.parse` gives a value for the texts of the grammar, as far as the stack reaches,
and the value is what the text means. -/
theorem runtimeParseJson_eq_ok_iff (platform : ParserPlatform) (fill : Nat → UInt16)
    (allocated : Bool) (limit : Nat) {s : Str} (h : s.WellFormed)
    (hlength : s.length ≤ kMaxTwoByteLength) (value : JsonValue) :
    runtimeParseJson platform fill allocated limit s = .ok value ↔
      ∃ x, Denotes s.units x ∧ depth x < limit ∧ eval platform.stringToDouble x = value := by
  constructor
  · exact denotes_of_runtimeParseJson h
  · rintro ⟨x, hx, hdepth, rfl⟩
    rw [runtimeParseJson_of_denotes h hlength hx, if_pos hdepth]

/-- A build that has no string table and reads no number. -/
def ParserPlatform.plain : ParserPlatform := ⟨fun _ => 0, fun _ => none⟩

/-- A string of ASCII characters. -/
def Str.ofAscii (text : String) : Str := .seq (.oneByte (literalBytes text))

theorem Str.wellFormed_ofAscii (text : String) : (ofAscii text).WellFormed := trivial

theorem runtimeParseJson_eq_ok_iff_array :
    runtimeParseJson .plain (fun _ => 0) true 2 (.ofAscii "[ 1, \"a\" ]") =
      .ok (.array [.number (.smi 1), .string (.oneByte [0x61])]) ∧
      ∃ x, Denotes (Str.ofAscii "[ 1, \"a\" ]").units x ∧ depth x < 2 ∧
        eval ParserPlatform.plain.stringToDouble x =
          .array [.number (.smi 1), .string (.oneByte [0x61])] := by
  have hok : runtimeParseJson .plain (fun _ => 0) true 2 (.ofAscii "[ 1, \"a\" ]") =
      .ok (.array [.number (.smi 1), .string (.oneByte [0x61])]) := by
    rfl
  exact ⟨hok, (runtimeParseJson_eq_ok_iff .plain _ true 2 (Str.wellFormed_ofAscii _) (by decide)
    _).mp hok⟩

/-- Unless the stack is exhausted, a text is JSON or a `SyntaxError` is thrown; nothing is
written out of bounds, and no loop goes on for ever.  The error is about the character at its
position, or the end of the text. -/
theorem runtimeParseJson_outcome (platform : ParserPlatform) (fill : Nat → UInt16)
    (allocated : Bool) {limit : Nat} {s : Str} (h : s.WellFormed)
    (hlength : s.length ≤ kMaxTwoByteLength)
    (hstack : runtimeParseJson platform fill allocated limit s ≠ .error .stackOverflow) :
    (∃ x, Denotes s.units x ∧ runtimeParseJson platform fill allocated limit s =
      .ok (eval platform.stringToDouble x)) ∨
    (¬ ∃ x, Denotes s.units x) ∧ ∃ position ≤ s.length,
      runtimeParseJson platform fill allocated limit s =
        .error (.syntaxError (syntaxMessage (s.units.drop position)) position) := by
  obtain ⟨seqAscii, hfits, hparse⟩ := runtimeParseJson_flat platform fill allocated limit h
  have hend := parseJson_end platform limit hfits
  rw [← hparse] at hend
  generalize hresult : runtimeParseJson platform fill allocated limit s = result at hend hstack
  cases hend with
  | @value x hx _ => exact .inl ⟨x, hx, rfl⟩
  | @syntaxError rest hrest =>
      obtain ⟨before, hrest⟩ := hrest
      have hposition : s.units.length - rest.length = before.length := by
        rw [← hrest, List.length_append, Nat.add_sub_cancel]
      refine .inr ⟨?_, before.length, ?_, ?_⟩
      · -- one that is JSON gives a value, or overflows the stack
        rintro ⟨x, hx⟩
        have hvalue := hresult.symm.trans (runtimeParseJson_of_denotes h hlength hx)
        split_ifs at hvalue
        cases hvalue
      · rw [← Str.length_units h, ← hrest, List.length_append]
        exact Nat.le_add_right _ _
      · rw [syntaxError, hposition]
        conv_rhs => rw [← hrest, List.drop_left]
  | stackOverflow _ => exact absurd rfl hstack
  | long hlong => exact absurd hlength (Nat.not_le.mpr (Str.length_units h ▸ hlong))

theorem runtimeParseJson_outcome_comma :
    (¬ ∃ x, Denotes (Str.ofAscii "[1,]").units x) ∧ ∃ position ≤ 4,
      runtimeParseJson .plain (fun _ => 0) true 5 (.ofAscii "[1,]") = .error (.syntaxError
        (syntaxMessage ((Str.ofAscii "[1,]").units.drop position)) position) := by
  have hlength : (Str.ofAscii "[1,]").length ≤ kMaxTwoByteLength := by decide
  have hstack := @runtimeParseJson_ne_stackOverflow .plain (fun _ => 0) true 5 _
    (Str.wellFormed_ofAscii "[1,]") hlength (by decide)
  refine (runtimeParseJson_outcome .plain (fun _ => 0) true (Str.wellFormed_ofAscii _) hlength
    hstack).resolve_left ?_
  rintro ⟨x, -, hvalue⟩
  have herror : runtimeParseJson .plain (fun _ => 0) true 5 (.ofAscii "[1,]") =
      .error (.syntaxError (.unexpectedToken 0x5D) 3) := by
    rfl
  cases herror.symm.trans hvalue

end WeexBridge.V8
