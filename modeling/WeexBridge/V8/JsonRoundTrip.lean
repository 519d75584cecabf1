/-
# `JSON.parse` of what `JSON.stringify` writes

A value of the heap that calls no user code stands for data: strings and numbers, arrays
by their elements, objects by their own enumerable properties, in order.  What has no
text, `undefined` and functions, is left out of an object and is `null` in an array.
`JSON.stringify` writes a text of the grammar, and `JSON.parse` gives the data back, if the
text is no longer than a string of two-byte characters may be.

    Reads       a property is there as a value, or not at all
    Means       a value, on the objects that are being written, with the data it is and its text
    Spoken      the tree that a text spells
-/
import WeexBridge.V8.JsonObjects
import WeexBridge.V8.JsonOutcome

namespace WeexBridge.V8

open Reentrant Decimal JsonGrammar

namespace JsonRoundTrip

open JsonParser

/-! ## Quoting -/

/-- The character that a text is, as it may stand in a string. -/
def pieceUnit : Text → Option UInt16
  | [c] => if 0x20 ≤ c ∧ c ≠ 0x22 ∧ c ≠ 0x5C then some c else none
  | [backslash, c] => if backslash = 0x5C then shortEscape c else none
  | [backslash, u, a, b, c, d] =>
      if backslash = 0x5C ∧ u = 0x75 then
        match JsonGrammar.hexValue a, JsonGrammar.hexValue b, JsonGrammar.hexValue c,
          JsonGrammar.hexValue d with
        | some w, some x, some y, some z => some (.ofNat (((w * 16 + x) * 16 + y) * 16 + z))
        | _, _, _, _ => none
      else none
  | _ => none

theorem piece_of_pieceUnit {r : Text} {u : UInt16} (h : pieceUnit r = some u) : Piece r u := by
  unfold pieceUnit at h
  split at h
  · split_ifs at h with hc
    cases h
    exact .plain hc.1 hc.2.1 hc.2.2
  · split_ifs at h with hbackslash
    subst hbackslash
    exact .short h
  · split_ifs at h with hescape
    obtain ⟨rfl, rfl⟩ := hescape
    split at h
    · next ha hb hc hd =>
        cases h
        exact .unicode ha hb hc hd
    · cases h
  · cases h

/-- What is written for a character may stand in a string for it. -/
theorem piece_quotedUnit (c : UInt16) : Piece (quotedUnit c) c := by
  have hascii : ∀ n < 128, pieceUnit (quotedUnit (.ofNat n)) = some (.ofNat n) := by
    decide +kernel
  rcases Nat.lt_or_ge c.toNat 128 with hc | hc
  · have h := hascii c.toNat hc
    rw [UInt16.ofNat_toNat] at h
    exact piece_of_pieceUnit h
  · rw [quotedUnit_of_le hc]
    refine .plain ?_ ?_ ?_
    · exact UInt16.le_iff_toNat_le.mpr (Nat.le_trans (by decide) hc)
    · rintro rfl
      exact absurd hc (by decide)
    · rintro rfl
      exact absurd hc (by decide)

theorem chars_flatMap_quotedUnit : ∀ units : List UInt16,
    Chars (units.flatMap quotedUnit) units
  | [] => .nil
  | u :: units => .cons (piece_quotedUnit u) (chars_flatMap_quotedUnit units)

/-- A string of the heap, as the key of a member. -/
def writtenKey (units : List UInt16) : Key :=
  ⟨units.flatMap quotedUnit, units, chars_flatMap_quotedUnit units⟩

/-- Digits are written as they are. -/
theorem quotedUnit_of_isDigit {c : UInt16} (h : isDigit c = true) : quotedUnit c = [c] := by
  have hascii : ∀ n < 128, isDigit (.ofNat n) = true → quotedUnit (.ofNat n) = [.ofNat n] := by
    decide +kernel
  have hc : c.toNat < 128 := by
    have hle : c.toNat ≤ 0x39 := UInt16.le_iff_toNat_le.mp (isDigit_iff.mp h).2
    omega
  have hone := hascii c.toNat hc
  rw [UInt16.ofNat_toNat] at hone
  exact hone h

theorem flatMap_quotedUnit_of_digits : ∀ {units : List UInt16}, Digits units →
    units.flatMap quotedUnit = units
  | [], _ => rfl
  | u :: units, h => by
      rw [List.flatMap_cons, quotedUnit_of_isDigit (h u List.mem_cons_self),
        flatMap_quotedUnit_of_digits h.tail]
      rfl

/-- Digits stand for themselves. -/
theorem units_of_digits {raw : Text} {units : List UInt16} (h : Chars raw units)
    (hraw : Digits raw) : units = raw := by
  induction h with
  | nil => rfl
  | cons hpiece _ ih =>
      cases hpiece with
      | plain _ _ _ => exact congrArg (_ :: ·) (ih hraw.tail)
      | short _ => exact absurd (hraw 0x5C List.mem_cons_self) (by decide)
      | unicode _ _ _ _ => exact absurd (hraw 0x5C List.mem_cons_self) (by decide)

/-- The property that a key of the heap is in the text. -/
def textKey (key : PropertyKey) : MemberKey :=
  let units := key.toJsString.units
  if units = numeral (value units) ∧ value units < 2 ^ 32 then .element (value units)
  else .named units

theorem propertyKey_writtenKey (key : PropertyKey) :
    propertyKey (writtenKey key.toJsString.units) = textKey key := by
  unfold textKey
  generalize key.toJsString.units = units
  have hsame : ∀ n, (writtenKey units).raw = numeral n ↔ units = numeral n := by
    intro n
    constructor
    · intro h
      have hdigits : Digits (writtenKey units).raw := h ▸ (isNumeral_numeral n).isDigits
      rw [← h]
      exact units_of_digits (writtenKey units).spells hdigits
    · rintro rfl
      exact flatMap_quotedUnit_of_digits (isNumeral_numeral n).isDigits
  by_cases h : units = numeral (value units) ∧ value units < 2 ^ 32
  · have hraw : (writtenKey units).raw = units := by
      rw [(hsame _).mpr h.1]
      exact h.1.symm
    unfold propertyKey
    rw [hraw, if_pos h]
    exact (if_pos h).symm
  · have hraw : ¬ ((writtenKey units).raw = numeral (value (writtenKey units).raw) ∧
        value (writtenKey units).raw < 2 ^ 32) := by
      rintro ⟨hnumeral, hlt⟩
      have hunits := (hsame _).mp hnumeral
      have hvalue : value units = value (writtenKey units).raw := by
        conv_lhs => rw [hunits, value_numeral]
      exact h ⟨hvalue ▸ hunits, hvalue ▸ hlt⟩
    unfold propertyKey
    rw [if_neg hraw]
    exact (if_neg h).symm

/-! ## Numbers -/

/-- The number comes back from its text. -/
def ReadsBack (platform : JsonPlatform) (stringToDouble : List UInt8 → UInt64) (n : JsNumber) :
    Prop :=
  Number (JsonSerialize.jsonNumberToString platform n) ∧
    numberOf stringToDouble (JsonSerialize.jsonNumberToString platform n) = n

theorem toNat_of_mem_toDigits {n : Nat} {c : Char} (h : c ∈ Nat.toDigits 10 n) :
    0x30 ≤ c.toNat ∧ c.toNat ≤ 0x39 := by
  have hdigit := Nat.isDigit_of_mem_toDigits (by decide) (by decide) h
  simp only [Char.isDigit, Bool.and_eq_true, decide_eq_true_eq] at hdigit
  exact ⟨UInt32.le_iff_toNat_le.mp hdigit.1, UInt32.le_iff_toNat_le.mp hdigit.2⟩

theorem zero_not_mem_intToCString (n : Int) : (0 : UInt8) ∉ intToCString n := by
  have hdigits : (0 : UInt8) ∉ (Nat.toDigits 10 n.natAbs).map fun c => UInt8.ofNat c.toNat := by
    intro hmem
    obtain ⟨c, hc, hzero⟩ := List.mem_map.mp hmem
    obtain ⟨hle, hge⟩ := toNat_of_mem_toDigits hc
    have hnat := congrArg UInt8.toNat hzero
    rw [UInt8.toNat_ofNat_of_lt' (Nat.lt_of_le_of_lt hge (by decide))] at hnat
    have h0 : (0 : UInt8).toNat = 0 := rfl
    omega
  unfold intToCString
  dsimp only
  split_ifs
  · intro hmem
    rcases List.mem_cons.mp hmem with h | h
    · exact absurd h (by decide)
    · exact hdigits h
  · exact hdigits

/-- The text of an integer. -/
theorem map_intToCString (n : Int) : (intToCString n).map UInt8.toUInt16 =
    if n < 0 then 0x2D :: numeral n.natAbs else numeral n.natAbs := by
  have hdigits : ((Nat.toDigits 10 n.natAbs).map fun c => UInt8.ofNat c.toNat).map UInt8.toUInt16 =
      numeral n.natAbs := by
    rw [List.map_map, numeral]
    refine List.map_congr_left fun c hc => ?_
    obtain ⟨-, hle⟩ := toNat_of_mem_toDigits hc
    apply UInt16.toNat_inj.mp
    show (UInt8.ofNat c.toNat).toUInt16.toNat = (UInt16.ofNat c.toNat).toNat
    rw [UInt8.toNat_toUInt16, UInt8.toNat_ofNat_of_lt' (Nat.lt_of_le_of_lt hle (by decide)),
      UInt16.toNat_ofNat_of_lt' (Nat.lt_of_le_of_lt hle (by decide))]
  unfold intToCString
  dsimp only
  split_ifs
  · rw [List.map_cons, hdigits]
    rfl
  · exact hdigits

theorem numberToString_smi (platform : JsonPlatform) (n : Int) :
    JsonSerialize.numberToString platform (.smi n) = (intToCString n).map UInt8.toUInt16 :=
  congrArg (List.map UInt8.toUInt16)
    (CodeUnits.cString_eq_self_iff.mpr (zero_not_mem_intToCString n))

/-- A number of up to nine digits. -/
theorem numeralValue_numeral (stringToDouble : List UInt8 → UInt64) (t : Text) (negative : Bool)
    {m : Nat} (hpos : 0 < m) (hm : m < 10 ^ 9) :
    numeralValue stringToDouble t negative (numeral m) =
      .smi (if negative then -(m : Int) else m) := by
  have hvalue : decimalValue (numeral m) = m := value_numeral m
  have hshort : (numeral m).all isDigit = true ∧ (numeral m).length < 10 ∧
      (numeral m).head? ≠ some 0x30 :=
    ⟨List.all_eq_true.mpr (isNumeral_numeral m).isDigits,
      Nat.lt_succ_of_le ((length_numeral_le_iff (by decide)).mpr hm), (numeral_spec m).2.2 hpos⟩
  unfold numeralValue
  rw [if_pos hshort, hvalue]

/-- Integers of up to nine digits come back, whatever `StringToDouble` does; only a zero is
left to it. -/
theorem readsBack_smi (platform : JsonPlatform) (stringToDouble : List UInt8 → UInt64) {n : Int}
    (hne : n ≠ 0) (hn : n.natAbs < 10 ^ 9) : ReadsBack platform stringToDouble (.smi n) := by
  have hpos : 0 < n.natAbs := Int.natAbs_pos.mpr hne
  have htext : JsonSerialize.jsonNumberToString platform (.smi n) =
      if n < 0 then 0x2D :: numeral n.natAbs else numeral n.natAbs :=
    (numberToString_smi platform n).trans (map_intToCString n)
  have hnumber : ∀ {sign : Text}, sign = [] ∨ sign = [0x2D] →
      Number (sign ++ numeral n.natAbs) := by
    intro sign hsign
    have h := Number.intro hsign (isNumeral_numeral n.natAbs) .none .none
    rwa [List.append_nil, List.append_nil] at h
  unfold ReadsBack
  rw [htext]
  split_ifs with hsign
  · refine ⟨hnumber (.inr rfl), ?_⟩
    unfold numberOf
    rw [if_pos List.head?_cons, List.tail_cons, numeralValue_numeral _ _ _ hpos hn, if_pos rfl]
    congr 1
    omega
  · have hhead : (numeral n.natAbs).head? ≠ some 0x2D := by
      intro h
      obtain ⟨rest, hrest⟩ : ∃ rest, numeral n.natAbs = 0x2D :: rest :=
        ⟨_, List.eq_cons_of_mem_head? h⟩
      have hdigit := (isNumeral_numeral n.natAbs).isDigits 0x2D (hrest ▸ List.mem_cons_self)
      exact absurd hdigit (by decide)
    refine ⟨hnumber (.inl rfl), ?_⟩
    unfold numberOf
    rw [if_neg hhead, numeralValue_numeral _ _ _ hpos hn, if_neg Bool.false_ne_true]
    congr 1
    omega

/-! ## Data of the heap -/

/-- What a property is read as, when there is no getter. -/
def plainValue : Option Property → Option JsValue
  | none => some .undefined
  | some (.data value) => some value
  | some (.accessor none) => some .undefined
  | some (.accessor (some _)) => none

section
variable (platform : JsonPlatform) (stringToDouble : List UInt8 → UInt64) (heap : JsHeap)

/-- The property is read without a call of user code. -/
def Reads (ref : Nat) (key : PropertyKey) (value : JsValue) : Prop :=
  plainValue (heap.lookup ref key) = some value

def isFunctionValue : JsValue → Bool
  | .object function => BasicJsonStringifier.isFunction heap function
  | _ => false

/-- There is no `toJSON` to call. -/
def NoToJson (ref : Nat) : Prop :=
  ∃ value, Reads heap ref BasicJsonStringifier.toJsonName value ∧
    isFunctionValue heap value = false

/-- What has no text. -/
inductive Hidden : JsValue → Prop where
  | undefined : Hidden .undefined
  | function {ref : Nat} : (heap.objects ref).kind = .function → NoToJson heap ref →
      Hidden (.object ref)

/-- On the objects that are being written, the data that a value is, and its text. -/
abbrev Meaning := List Nat → JsValue → JsonValue → Text → Prop

/-- The elements from one on, and their texts. -/
inductive ElementsMean (means : JsValue → JsonValue → Text → Prop) (ref : Nat) :
    Nat → Nat → List JsonValue → List Text → Prop where
  | done {i : Nat} : ElementsMean means ref i 0 [] []
  | value {i rest : Nat} {v : JsValue} {w : JsonValue} {ws : List JsonValue} {text : Text}
      {texts : List Text} : Reads heap ref (.index i) v → means v w text →
      ElementsMean means ref (i + 1) rest ws texts →
      ElementsMean means ref i (rest + 1) (w :: ws) (text :: texts)
  | hidden {i rest : Nat} {v : JsValue} {ws : List JsonValue} {texts : List Text} :
      Reads heap ref (.index i) v → Hidden heap v →
      ElementsMean means ref (i + 1) rest ws texts →
      ElementsMean means ref i (rest + 1) (.null :: ws) (JsonSerialize.ascii "null" :: texts)

/-- The text of a member. -/
def memberText (key : PropertyKey) (text : Text) : Text :=
  JsonSerialize.quoted key.toJsString ++ [0x3A] ++ text

/-- What the members with the keys add to properties, and their texts.  So many keys are those
of the object itself; the others are no own ones. -/
inductive MembersMean (means : JsValue → JsonValue → Text → Prop) (ref : Nat) :
    Nat → List PropertyKey → Properties → Properties → List Text → Prop where
  | done {p : Properties} : MembersMean means ref 0 [] p p []
  | value {own : Nat} {key : PropertyKey} {keys : List PropertyKey} {v : JsValue} {w : JsonValue}
      {text : Text} {p q : Properties} {texts : List Text} :
      (heap.own ref key).isSome = true → Reads heap ref key v → means v w text →
      MembersMean means ref own keys (p.set (textKey key) w) q texts →
      MembersMean means ref (own + 1) (key :: keys) p q (memberText key text :: texts)
  | hidden {own : Nat} {key : PropertyKey} {keys : List PropertyKey} {v : JsValue}
      {p q : Properties} {texts : List Text} :
      (heap.own ref key).isSome = true → Reads heap ref key v → Hidden heap v →
      MembersMean means ref own keys p q texts →
      MembersMean means ref (own + 1) (key :: keys) p q texts
  | inherited {key : PropertyKey} {keys : List PropertyKey} {p q : Properties}
      {texts : List Text} : heap.own ref key = none → MembersMean means ref 0 keys p q texts →
      MembersMean means ref 0 (key :: keys) p q texts

/-- The value is data, where `nested` says what its parts are. -/
inductive MeansWith (nested : Option Meaning) (stack : List Nat) :
    JsValue → JsonValue → Text → Prop where
  | null : MeansWith nested stack .null .null (JsonSerialize.ascii "null")
  | boolean {b : Bool} :
      MeansWith nested stack (.boolean b) (.boolean b) (JsonSerialize.booleanToString b)
  | string {s : JsString} : MeansWith nested stack (.string s) (.string (canonicalChars s.units))
      (JsonSerialize.quoted s)
  | number {n : JsNumber} : ReadsBack platform stringToDouble n →
      MeansWith nested stack (.number n) (.number n) (JsonSerialize.jsonNumberToString platform n)
  | infinite {bits : UInt64} : isInfOrNan bits = true →
      MeansWith nested stack (.number (.heapNumber bits)) .null (JsonSerialize.ascii "null")
  | booleanWrapper {ref : Nat} {b : Bool} : (heap.objects ref).kind = .booleanWrapper b →
      NoToJson heap ref →
      MeansWith nested stack (.object ref) (.boolean b) (JsonSerialize.booleanToString b)
  | array {ref : Nat} {elements : ArrayElements} {means : Meaning} {ws : List JsonValue}
      {texts : List Text} :
      nested = some means → ref ∉ stack → (heap.objects ref).kind = .array elements →
      NoToJson heap ref → JsonSerialize.hasSmiLength platform elements = true →
      (∀ i < elements.length, JsonSerialize.isCurrent ref i heap elements = true) →
      ElementsMean heap (means (stack ++ [ref])) ref 0 elements.length ws texts →
      MeansWith nested stack (.object ref) (.array ws)
        ([0x5B] ++ JsonSerialize.join texts ++ [0x5D])
  | object {ref : Nat} {means : Meaning} {properties : Properties} {texts : List Text} :
      nested = some means → ref ∉ stack → (heap.objects ref).kind = .ordinary →
      NoToJson heap ref →
      MembersMean heap (means (stack ++ [ref])) ref (heap.localKeys ref).length
        (heap.keysIncludingPrototypes ref) .empty properties texts →
      MeansWith nested stack (.object ref) properties.toObject
        ([0x7B] ++ JsonSerialize.join texts ++ [0x7D])

/-- The value is data of at most so many levels. -/
def Means : Nat → Meaning
  | 0 => MeansWith platform stringToDouble heap none
  | limit + 1 => MeansWith platform stringToDouble heap (some (Means limit))

/-! ## Texts -/

/-- The text of data. -/
def Spoken (limit : Nat) (w : JsonValue) (text : Text) : Prop :=
  ∃ x, Spells x text ∧ depth x ≤ limit ∧ eval stringToDouble x = w

/-- The texts of data. -/
inductive SpokenAll (limit : Nat) : List JsonValue → List Text → Prop where
  | nil : SpokenAll limit [] []
  | cons {w : JsonValue} {ws : List JsonValue} {text : Text} {texts : List Text} :
      Spoken stringToDouble limit w text → SpokenAll limit ws texts →
      SpokenAll limit (w :: ws) (text :: texts)

/-- The texts of the members that lead from properties to others. -/
inductive SpokenMembers (limit : Nat) : Properties → Properties → List Text → Prop where
  | nil {p : Properties} : SpokenMembers limit p p []
  | cons {key : PropertyKey} {w : JsonValue} {p q : Properties} {text : Text}
      {texts : List Text} : Spoken stringToDouble limit w text →
      SpokenMembers limit (p.set (textKey key) w) q texts →
      SpokenMembers limit p q (memberText key text :: texts)

end

section
variable {stringToDouble : List UInt8 → UInt64} {limit : Nat}

theorem join_cons_cons (s t : Text) (texts : List Text) :
    JsonSerialize.join (s :: t :: texts) = s ++ 0x2C :: JsonSerialize.join (t :: texts) := by
  unfold JsonSerialize.join
  rw [List.intercalate_cons_cons, List.append_assoc]
  rfl

/-- The elements of an array, joined. -/
theorem SpokenAll.items {ws : List JsonValue} {texts : List Text}
    (h : SpokenAll stringToDouble limit ws texts) (hne : texts ≠ []) :
    ∃ xs, Items xs (JsonSerialize.join texts) ∧ depthItems xs ≤ limit + 1 ∧
      evalItems stringToDouble xs = ws := by
  induction h with
  | nil => exact absurd rfl hne
  | @cons w ws s texts hspoken hrest ih =>
      obtain ⟨x, hx, hdepth, hvalue⟩ := hspoken
      cases texts with
      | nil =>
          cases hrest
          have hone := Items.one blank_nil hx blank_nil
          rw [List.nil_append, List.append_nil] at hone
          refine ⟨[x], ?_, Nat.max_le.mpr ⟨Nat.succ_le_succ hdepth, Nat.zero_le _⟩, ?_⟩
          · rw [JsonSerialize.join, List.intercalate_singleton]
            exact hone
          · rw [← hvalue]
            rfl
      | cons t texts =>
          obtain ⟨xs, hxs, hdepths, hvalues⟩ := ih (List.cons_ne_nil t texts)
          have hmore := Items.more blank_nil hx blank_nil hxs
          rw [List.nil_append, List.nil_append] at hmore
          refine ⟨x :: xs, ?_, Nat.max_le.mpr ⟨Nat.succ_le_succ hdepth, hdepths⟩, ?_⟩
          · rw [join_cons_cons]
            exact hmore
          · rw [← hvalue, ← hvalues]
            rfl

theorem SpokenAll.array {ws : List JsonValue} {texts : List Text}
    (h : SpokenAll stringToDouble limit ws texts) :
    Spoken stringToDouble (limit + 1) (.array ws)
      ([0x5B] ++ JsonSerialize.join texts ++ [0x5D]) := by
  cases texts with
  | nil =>
      cases h
      exact ⟨.array [], .emptyArray blank_nil, Nat.zero_le _, rfl⟩
  | cons text texts =>
      obtain ⟨xs, hxs, hdepth, hvalues⟩ := h.items (List.cons_ne_nil text texts)
      exact ⟨.array xs, .array hxs, hdepth, congrArg JsonValue.array hvalues⟩

theorem evalMembers_writtenKey (key : PropertyKey) (x : Tree) (members : List (Key × Tree))
    (p : Properties) :
    evalMembers stringToDouble ((writtenKey key.toJsString.units, x) :: members) p =
      evalMembers stringToDouble members (p.set (textKey key) (eval stringToDouble x)) := by
  rw [evalMembers, memberKey_eq, propertyKey_writtenKey]

theorem quoted_append (s : JsString) (t : Text) :
    JsonSerialize.quoted s ++ t = 0x22 :: ((writtenKey s.units).raw ++ 0x22 :: t) := by
  show 0x22 :: s.units.flatMap quotedUnit ++ [0x22] ++ t = _
  rw [List.cons_append, List.cons_append, List.append_assoc]
  rfl

/-- The members of an object, joined. -/
theorem SpokenMembers.members {p q : Properties} {texts : List Text}
    (h : SpokenMembers stringToDouble limit p q texts) (hne : texts ≠ []) :
    ∃ members, Members members (JsonSerialize.join texts) ∧ depthMembers members ≤ limit + 1 ∧
      evalMembers stringToDouble members p = q := by
  induction h with
  | nil => exact absurd rfl hne
  | @cons key w p q text texts hspoken hrest ih =>
      obtain ⟨x, hx, hdepth, rfl⟩ := hspoken
      have hkey : ∀ t : Text, memberText key t =
          0x22 :: ((writtenKey key.toJsString.units).raw ++ 0x22 :: 0x3A :: t) := fun t => by
        rw [memberText, List.append_assoc, quoted_append]
        rfl
      cases texts with
      | nil =>
          cases hrest
          have hone := Members.one (k := writtenKey key.toJsString.units) blank_nil blank_nil
            blank_nil hx blank_nil
          rw [List.append_nil] at hone
          refine ⟨[(writtenKey key.toJsString.units, x)], ?_,
            Nat.max_le.mpr ⟨Nat.succ_le_succ hdepth, Nat.zero_le _⟩, ?_⟩
          · rw [JsonSerialize.join, List.intercalate_singleton, hkey]
            exact hone
          · rw [evalMembers_writtenKey]
            rfl
      | cons second texts =>
          obtain ⟨members, hmembers, hdepths, hvalues⟩ := ih (List.cons_ne_nil second texts)
          have hmore := Members.more (k := writtenKey key.toJsString.units) blank_nil blank_nil
            blank_nil hx blank_nil hmembers
          refine ⟨(writtenKey key.toJsString.units, x) :: members, ?_,
            Nat.max_le.mpr ⟨Nat.succ_le_succ hdepth, hdepths⟩, ?_⟩
          · rw [join_cons_cons, hkey, List.cons_append, List.append_assoc]
            exact hmore
          · rw [evalMembers_writtenKey]
            exact hvalues

theorem SpokenMembers.object {properties : Properties} {texts : List Text}
    (h : SpokenMembers stringToDouble limit .empty properties texts) :
    Spoken stringToDouble (limit + 1) properties.toObject
      ([0x7B] ++ JsonSerialize.join texts ++ [0x7D]) := by
  cases texts with
  | nil =>
      cases h
      exact ⟨.object [], .emptyObject blank_nil, Nat.zero_le _, rfl⟩
  | cons text texts =>
      obtain ⟨members, hmembers, hdepth, hvalues⟩ := h.members (List.cons_ne_nil text texts)
      exact ⟨.object members, .object hmembers, hdepth, congrArg Properties.toObject hvalues⟩

end

/-! ## What is written -/

/-- The program comes to an end with the value, asks nothing, and leaves the heap. -/
def Gives {α : Type} (heap : JsHeap) (p : JsProgram α) (value : α) : Prop :=
  p heap = .done value heap

namespace Gives

variable {α β : Type} {heap : JsHeap}

theorem pure (value : α) : Gives heap (Pure.pure value) value := rfl

theorem bind {p : JsProgram α} {f : α → JsProgram β} {a : α} {b : β} (h : Gives heap p a)
    (hf : Gives heap (f a) b) : Gives heap (p >>= f) b := by
  show (p heap).bind f = _
  rw [h]
  exact hf

theorem check {condition : JsHeap → Bool} (h : condition heap = true) :
    Gives heap (JsonSerialize.checked condition) () := if_pos h

theorem get {ref : Nat} {key : PropertyKey} {v : JsValue} (h : Reads heap ref key v) :
    Gives heap (JsProgram.get ref key) (.ok v) := by
  have hproperty : ∀ {property : Option Property}, plainValue property = some v →
      Gives heap (JsProgram.getProperty ref property) (.ok v) := by
    intro property hvalue
    rcases property with _ | value | _ | getter
    · cases hvalue
      rfl
    · cases hvalue
      rfl
    · cases hvalue
      rfl
    · cases hvalue
  exact hproperty h

end Gives

section
variable {platform : JsonPlatform} {stringToDouble : List UInt8 → UInt64} {heap : JsHeap}

/-- The objects of the value have no `toJSON`. -/
def Plain (heap : JsHeap) : JsValue → Prop
  | .object ref => NoToJson heap ref
  | _ => True

theorem gives_applyToJson (key : PropertyKey) : ∀ {v : JsValue}, Plain heap v →
    Gives heap (JsonSerialize.applyToJson JsonSerialize.checked key v) (.ok v)
  | .object ref, ⟨toJson, hreads, hfunction⟩ => by
      refine (Gives.get hreads).bind (Gives.bind (Gives.check rfl) ?_)
      cases toJson with
      | object function =>
          refine Gives.bind (a := false) ?_ rfl
          exact congrArg (Result.done · heap) hfunction
      | _ => rfl
  | .undefined, _ => rfl
  | .null, _ => rfl
  | .boolean _, _ => rfl
  | .number _, _ => rfl
  | .string _, _ => rfl

/-! ### Lengths -/

theorem length_pos_quotedUnit (c : UInt16) : 0 < (quotedUnit c).length := by
  obtain ⟨d, rest, hhead, -, -⟩ := (piece_quotedUnit c).head
  rw [hhead]
  exact Nat.succ_pos _

theorem length_le_flatMap_quotedUnit : ∀ units : List UInt16,
    units.length ≤ (units.flatMap quotedUnit).length
  | [] => Nat.le_refl 0
  | u :: units => by
      have hu := length_pos_quotedUnit u
      have hunits := length_le_flatMap_quotedUnit units
      rw [List.flatMap_cons, List.length_append, List.length_cons]
      omega

theorem kMaxTwoByteLength_le : kMaxTwoByteLength ≤ Str.kMaxLength := by decide

/-- A string whose text is short enough can be quoted. -/
theorem gives_quoteString {s : JsString}
    (h : (JsonSerialize.quoted s).length ≤ kMaxTwoByteLength) :
    Gives heap (JsonSerialize.quoteString platform s) (JsonSerialize.quoted s) := by
  have hlength : s.val.length ≤ kMaxTwoByteLength := by
    have hunits := length_le_flatMap_quotedUnit s.units
    have hle : (s.units.flatMap quotedUnit).length ≤ (JsonSerialize.quoted s).length := by
      unfold JsonSerialize.quoted
      simp only [List.length_append]
      omega
    rw [← Str.length_units s.property]
    exact Nat.le_trans hunits (Nat.le_trans hle h)
  obtain ⟨chars, hchars, hunits⟩ :=
    Str.flatContent_eq platform.fill s.property (Str.flattens_of_length_le hlength)
  have htext : quoteJsonString chars = JsonSerialize.quoted s := by
    rw [quoteJsonString, hunits]
    rfl
  have hmax : ¬ (JsonSerialize.quoted s).length > chars.maxLength := by
    refine Nat.not_lt.mpr (Nat.le_trans h ?_)
    cases chars with
    | oneByte bytes => exact (by decide : kMaxTwoByteLength ≤ kMaxOneByteLength)
    | twoByte units => exact Nat.le_refl kMaxTwoByteLength
  unfold JsonSerialize.quoteString runtimeQuoteJsonString
  rw [hchars, Option.bind_some, htext, if_neg hmax]
  exact Gives.pure _

theorem gives_written {before : Nat} {text : Text}
    (h : before + text.length ≤ kMaxTwoByteLength) :
    Gives heap (JsonSerialize.written JsonSerialize.checked before text) (.ok (some text)) :=
  (Gives.check (decide_eq_true (Nat.le_trans h kMaxTwoByteLength_le))).bind (Gives.pure _)

theorem gives_fits {n : Nat} (h : n ≤ kMaxTwoByteLength) :
    Gives heap (JsonSerialize.checked (JsonSerialize.fits n)) () :=
  Gives.check (decide_eq_true (Nat.le_trans h kMaxTwoByteLength_le))

theorem gives_concat {text : Text} (h : text.length ≤ kMaxTwoByteLength) :
    Gives heap (JsonSerialize.concat text) text := by
  unfold JsonSerialize.concat
  rw [if_pos (Nat.le_trans h kMaxTwoByteLength_le)]
  exact Gives.pure _

theorem gives_bracketed {left right : UInt16} {before : Nat} {members : JsonSerialize.Members}
    (h : before + ([left] ++ JsonSerialize.join members ++ [right]).length ≤ kMaxTwoByteLength) :
    Gives heap (JsonSerialize.bracketed JsonSerialize.checked left right before (.ok members))
      (.ok (some ([left] ++ JsonSerialize.join members ++ [right]))) := by
  have hjoin : (JsonSerialize.join members).length ≤ kMaxTwoByteLength := by
    simp only [List.length_append] at h
    omega
  have hpartial : Gives heap (JsonSerialize.partialJoin members) (JsonSerialize.join members) := by
    unfold JsonSerialize.partialJoin
    rw [if_pos (.inr hjoin)]
    exact Gives.pure _
  exact hpartial.bind ((gives_concat (Nat.le_trans (Nat.le_add_left _ _) h)).bind (gives_written h))

/-- What is joined first is no longer than the whole. -/
theorem length_join_le (members : JsonSerialize.Members) : ∀ more : List Text,
    (JsonSerialize.join members).length ≤ (JsonSerialize.join (members ++ more)).length
  | [] => by rw [List.append_nil]
  | text :: more => by
      have hmore := length_join_le (members ++ [text]) more
      rw [← List.append_cons, JsonSerialize.join_concat, List.length_append] at hmore
      exact Nat.le_trans (Nat.le_add_right _ _) hmore

/-! ### Values -/

/-- The serializer writes the text of the data that a value is, where there is room for it, and
nothing for what is hidden. -/
structure Serializes (stringToDouble : List UInt8 → UInt64) (heap : JsHeap) (limit : Nat)
    (means : Meaning) (serialize : JsonSerialize.Serializer) : Prop where
  spoken : ∀ {stack : List Nat} {v : JsValue} {w : JsonValue} {text : Text},
    means stack v w text → Spoken stringToDouble limit w text
  gives : ∀ {stack : List Nat} (before : Nat) (key : PropertyKey) {v : JsValue} {w : JsonValue}
    {text : Text}, means stack v w text → before + text.length ≤ kMaxTwoByteLength →
      Gives heap (serialize before stack key v) (.ok (some text))
  hidden : ∀ (before : Nat) (stack : List Nat) (key : PropertyKey) {v : JsValue},
    Hidden heap v → Gives heap (serialize before stack key v) (.ok none)

section
variable {limit : Nat} {means : Meaning} {serialize : JsonSerialize.Serializer}
  {stack : List Nat} {ref : Nat}

theorem spoken_null : Spoken stringToDouble limit .null (JsonSerialize.ascii "null") :=
  ⟨.null, .null, Nat.zero_le _, rfl⟩

theorem ElementsMean.spoken (hserialize : Serializes stringToDouble heap limit means serialize)
    {i rest : Nat} {ws : List JsonValue} {texts : List Text}
    (h : ElementsMean heap (means stack) ref i rest ws texts) :
    SpokenAll stringToDouble limit ws texts := by
  induction h with
  | done => exact .nil
  | value _ hmeans _ ih => exact .cons (hserialize.spoken hmeans) ih
  | hidden _ _ _ ih => exact .cons spoken_null ih

theorem MembersMean.spoken (hserialize : Serializes stringToDouble heap limit means serialize)
    {own : Nat} {keys : List PropertyKey} {p q : Properties} {texts : List Text}
    (h : MembersMean heap (means stack) ref own keys p q texts) :
    SpokenMembers stringToDouble limit p q texts := by
  induction h with
  | done => exact .nil
  | value _ _ hmeans _ ih => exact .cons (hserialize.spoken hmeans) ih
  | hidden _ _ _ _ ih => exact ih
  | inherited _ _ ih => exact ih

theorem gives_serializeProperty {before : Nat} {key : PropertyKey} {v : JsValue} {r : JsonResult}
    {property : JsProgram (Except JsValue JsValue)} (hproperty : Gives heap property (.ok v))
    (h : Gives heap (serialize before stack key v) r) :
    Gives heap (JsonSerialize.serializeProperty serialize before stack key property) r :=
  hproperty.bind h

theorem gives_element {i : Nat} {v : JsValue} (h : Reads heap ref (.index i) v) :
    Gives heap (JsonSerialize.element JsonSerialize.checked ref i) (.ok v) :=
  (Gives.get h).bind (Gives.bind (Gives.check rfl) (Gives.pure _))

/-- Before an element there is room for it. -/
theorem room_element {before : Nat} {members : JsonSerialize.Members} {text : Text}
    {texts : List Text}
    (h : before + (JsonSerialize.join (members ++ text :: texts)).length ≤ kMaxTwoByteLength) :
    before + (JsonSerialize.join members ++ JsonSerialize.separator members).length +
      text.length ≤ kMaxTwoByteLength := by
  have hmore := length_join_le (members ++ [text]) texts
  rw [← List.append_cons, JsonSerialize.join_concat] at hmore
  simp only [List.length_append] at hmore ⊢
  omega

theorem gives_serializeElements (hserialize : Serializes stringToDouble heap limit means serialize)
    {elements : ArrayElements} {before i rest : Nat} {ws : List JsonValue} {texts : List Text}
    (h : ElementsMean heap (means stack) ref i rest ws texts) :
    (∀ j < i + rest, JsonSerialize.isCurrent ref j heap elements = true) →
    ∀ members, before + (JsonSerialize.join (members ++ texts)).length ≤ kMaxTwoByteLength →
      Gives heap (JsonSerialize.serializeElements JsonSerialize.checked serialize before stack ref
        elements i rest members) (.ok (members ++ texts)) := by
  induction h with
  | done =>
      intro _ members _
      rw [List.append_nil]
      exact Gives.pure _
  | @value i rest v w ws text texts hreads hmeans _ ih =>
      intro hcurrent members hlength
      have hroom := room_element hlength
      rw [List.append_cons] at hlength ⊢
      refine (Gives.check (hcurrent i (by omega))).bind ((gives_fits (by omega)).bind ?_)
      exact (gives_serializeProperty (gives_element hreads)
        (hserialize.gives _ (.index i) hmeans hroom)).bind
          ((gives_fits hroom).bind (ih (fun j hj => hcurrent j (by omega)) _ hlength))
  | @hidden i rest v ws texts hreads hhidden _ ih =>
      intro hcurrent members hlength
      have hroom := room_element hlength
      rw [List.append_cons] at hlength ⊢
      refine (Gives.check (hcurrent i (by omega))).bind ((gives_fits (by omega)).bind ?_)
      exact (gives_serializeProperty (gives_element hreads)
        (hserialize.hidden _ stack (.index i) hhidden)).bind
          ((gives_fits hroom).bind (ih (fun j hj => hcurrent j (by omega)) _ hlength))

/-- Before the value of a member there is room for it. -/
theorem room_member {before : Nat} {members : JsonSerialize.Members} {key : PropertyKey}
    {text : Text} {texts : List Text}
    (h : before + (JsonSerialize.join (members ++ memberText key text :: texts)).length ≤
      kMaxTwoByteLength) :
    before + (JsonSerialize.join members).length +
      (JsonSerialize.deferredText ⟨true, !members.isEmpty⟩ key).length + text.length ≤
        kMaxTwoByteLength := by
  have hroom := room_element h
  rw [JsonSerialize.separator_eq, memberText] at hroom
  rw [JsonSerialize.deferredText, if_pos rfl]
  simp only [List.length_append] at hroom ⊢
  omega

theorem gives_serializeKeys (hserialize : Serializes stringToDouble heap limit means serialize)
    {before own : Nat} {keys : List PropertyKey} {p q : Properties} {texts : List Text}
    (h : MembersMean heap (means stack) ref own keys p q texts) :
    ∀ members, before + (JsonSerialize.join (members ++ texts)).length ≤ kMaxTwoByteLength →
      Gives heap (JsonSerialize.serializeKeys platform JsonSerialize.checked serialize before stack
        ref own keys members) (.ok (members ++ texts)) := by
  have hsettled : ∀ {own : Nat} {key : PropertyKey}, (heap.own ref key).isSome = true →
      Gives heap (JsonSerialize.checked (JsonSerialize.isSettled (0 < own + 1) ref key)) () := by
    intro own key hown
    refine Gives.check ?_
    rw [decide_eq_true (Nat.succ_pos own), JsonSerialize.isSettled, if_pos rfl, hown, Bool.true_or]
  induction h with
  | done =>
      intro members _
      rw [List.append_nil]
      exact Gives.pure _
  | @value own key keys v w text p q texts hown hreads hmeans _ ih =>
      intro members hlength
      have hroom := room_member hlength
      have hname : (JsonSerialize.quoted key.toJsString).length ≤ kMaxTwoByteLength := by
        have := room_element hlength
        simp only [memberText, List.length_append] at this
        omega
      have hmember : (memberText key text).length ≤ kMaxTwoByteLength := by
        have := room_element hlength
        omega
      rw [List.append_cons] at hlength ⊢
      refine (hsettled hown).bind (Gives.bind (a := true) (congrArg (Result.done · heap) hown) ?_)
      refine (gives_serializeProperty (Gives.get hreads)
        (hserialize.gives _ key hmeans hroom)).bind ?_
      exact (gives_quoteString hname).bind ((gives_concat hmember).bind (ih _ hlength))
  | @hidden own key keys v p q texts hown hreads hhidden _ ih =>
      intro members hlength
      refine (hsettled hown).bind (Gives.bind (a := true) (congrArg (Result.done · heap) hown) ?_)
      exact (gives_serializeProperty (Gives.get hreads)
        (hserialize.hidden _ stack key hhidden)).bind (ih members hlength)
  | @inherited key keys p q texts hown _ ih =>
      intro members hlength
      have hnone : JsonSerialize.isSettled (0 < 0) ref key heap = true :=
        Option.isNone_iff_eq_none.mpr hown
      refine (Gives.check hnone).bind (Gives.bind (a := false) ?_ (ih members hlength))
      exact congrArg (Result.done · heap) (congrArg Option.isSome hown)

end

section
variable {limit : Nat} {nested : Option Meaning} {serialize : Option JsonSerialize.Serializer}

/-- Where a meaning is there for the parts of a value, the serializer is there that writes
them, a level less deep. -/
def SerializesNested (stringToDouble : List UInt8 → UInt64) (heap : JsHeap) (limit : Nat)
    (nested : Option Meaning) (serialize : Option JsonSerialize.Serializer) : Prop :=
  ∀ means ∈ nested, ∃ inner ∈ serialize, ∃ below, limit = below + 1 ∧
    Serializes stringToDouble heap below means inner

theorem plain_of_hidden {v : JsValue} (h : Hidden heap v) : Plain heap v := by
  cases h with
  | undefined => trivial
  | function _ hplain => exact hplain

theorem plain_of_means {stack : List Nat} {v : JsValue} {w : JsonValue} {text : Text}
    (h : MeansWith platform stringToDouble heap nested stack v w text) : Plain heap v := by
  cases h with
  | booleanWrapper _ hplain => exact hplain
  | array _ _ _ hplain _ _ _ => exact hplain
  | object _ _ _ hplain _ => exact hplain
  | _ => trivial

theorem gives_withPushIfAbsent {inner : JsonSerialize.Serializer} {stack : List Nat} {ref : Nat}
    {code : JsonSerialize.Serializer → List Nat → JsProgram JsonResult} {r : JsonResult}
    (habsent : ref ∉ stack) (h : Gives heap (code inner (stack ++ [ref])) r) :
    Gives heap (JsonSerialize.withPushIfAbsent JsonSerialize.checked (some inner) stack ref code)
      r := by
  unfold JsonSerialize.withPushIfAbsent
  dsimp only
  rwa [if_neg habsent]

theorem spoken_boolean (b : Bool) :
    Spoken stringToDouble limit (.boolean b) (JsonSerialize.booleanToString b) := by
  refine ⟨.boolean b, ?_, Nat.zero_le _, rfl⟩
  cases b with
  | false => exact Spells.boolean (b := false)
  | true => exact Spells.boolean (b := true)

theorem spoken_string (s : JsString) :
    Spoken stringToDouble limit (.string (canonicalChars s.units)) (JsonSerialize.quoted s) :=
  ⟨.string s.units, .string (chars_flatMap_quotedUnit s.units), Nat.zero_le _, rfl⟩

theorem spoken_of_means (hnested : SerializesNested stringToDouble heap limit nested serialize)
    {stack : List Nat} {v : JsValue} {w : JsonValue} {text : Text}
    (h : MeansWith platform stringToDouble heap nested stack v w text) :
    Spoken stringToDouble limit w text := by
  cases h with
  | null => exact spoken_null
  | boolean => exact spoken_boolean _
  | string => exact spoken_string _
  | number hback =>
      exact ⟨.number _, .number hback.1, Nat.zero_le _, congrArg JsonValue.number hback.2⟩
  | infinite _ => exact spoken_null
  | booleanWrapper _ _ => exact spoken_boolean _
  | array hmeans _ _ _ _ _ helements =>
      obtain ⟨inner, -, below, rfl, hserializes⟩ := hnested _ hmeans
      exact (helements.spoken hserializes).array
  | object hmeans _ _ _ hmembers =>
      obtain ⟨inner, -, below, rfl, hserializes⟩ := hnested _ hmeans
      exact (hmembers.spoken hserializes).object

theorem gives_serializeValue
    (hnested : SerializesNested stringToDouble heap limit nested serialize) {stack : List Nat}
    (before : Nat) {v : JsValue} {w : JsonValue} {text : Text}
    (h : MeansWith platform stringToDouble heap nested stack v w text)
    (hlength : before + text.length ≤ kMaxTwoByteLength) :
    Gives heap (JsonSerialize.serializeValue platform JsonSerialize.checked serialize before stack
      v) (.ok (some text)) := by
  have hkind : ∀ {ref : Nat} {kind : JsKind}, (heap.objects ref).kind = kind →
      Gives heap (Program.read fun heap => (heap.objects ref).kind) kind :=
    fun h => congrArg (Result.done · heap) h
  have hbefore : before ≤ kMaxTwoByteLength := Nat.le_trans (Nat.le_add_right _ _) hlength
  cases h with
  | null => exact gives_written hlength
  | boolean => exact gives_written hlength
  | string =>
      exact (gives_quoteString (Nat.le_trans (Nat.le_add_left _ _) hlength)).bind
        (gives_written hlength)
  | number _ => exact gives_written hlength
  | @infinite bits hinfinite =>
      have htext : JsonSerialize.jsonNumberToString platform (.heapNumber bits) =
          JsonSerialize.ascii "null" := if_pos hinfinite
      show Gives heap (JsonSerialize.written JsonSerialize.checked before
        (JsonSerialize.jsonNumberToString platform (.heapNumber bits))) _
      rw [htext]
      exact gives_written hlength
  | booleanWrapper hboolean _ => exact (hkind hboolean).bind (gives_written hlength)
  | @array ref elements means ws texts hmeans habsent harray _ hsmi hcurrent helements =>
      obtain ⟨inner, hinner, below, rfl, hserializes⟩ := hnested means hmeans
      cases hinner
      have hjoin : before + 1 + (JsonSerialize.join ([] ++ texts)).length ≤ kMaxTwoByteLength := by
        simp only [List.length_append, List.length_singleton, List.nil_append] at hlength ⊢
        omega
      refine (hkind harray).bind ((gives_fits hbefore).bind (gives_withPushIfAbsent habsent ?_))
      refine (Gives.check hsmi).bind ((gives_fits (by omega)).bind ?_)
      exact (gives_serializeElements hserializes helements (fun j hj => hcurrent j (by omega)) []
        hjoin).bind (gives_bracketed hlength)
  | @object ref means properties texts hmeans habsent hordinary _ hmembers =>
      obtain ⟨inner, hinner, below, rfl, hserializes⟩ := hnested means hmeans
      cases hinner
      have hjoin : before + 1 + (JsonSerialize.join ([] ++ texts)).length ≤ kMaxTwoByteLength := by
        simp only [List.length_append, List.length_singleton, List.nil_append] at hlength ⊢
        omega
      refine (hkind hordinary).bind ((gives_fits hbefore).bind (gives_withPushIfAbsent habsent ?_))
      refine (gives_fits (by omega)).bind (Gives.bind rfl (Gives.bind rfl ?_))
      exact (gives_serializeKeys hserializes hmembers [] hjoin).bind (gives_bracketed hlength)

theorem serializes_serialize
    (hnested : SerializesNested stringToDouble heap limit nested serialize) :
    Serializes stringToDouble heap limit (MeansWith platform stringToDouble heap nested)
      (JsonSerialize.serialize platform JsonSerialize.checked serialize) where
  spoken h := spoken_of_means hnested h
  gives before key _ _ _ h hlength := (gives_applyToJson key (plain_of_means h)).bind
    (gives_serializeValue hnested before h hlength)
  hidden := by
    intro before stack key v h
    refine (gives_applyToJson key (plain_of_hidden h)).bind ?_
    cases h with
    | undefined => exact Gives.pure _
    | function hkind _ => exact Gives.bind (congrArg (Result.done · heap) hkind) (Gives.pure _)

/-- As deep as the data goes, it is written. -/
theorem serializes_serializer : ∀ limit, Serializes stringToDouble heap limit
    (Means platform stringToDouble heap limit)
    (JsonSerialize.serializer platform JsonSerialize.checked limit)
  | 0 => serializes_serialize nofun
  | limit + 1 => serializes_serialize fun means hmeans => by
      cases hmeans
      exact ⟨_, rfl, limit, rfl, serializes_serializer limit⟩

end

end

end JsonRoundTrip

open JsonSerialize (PrintsIntegers)
open JsonParser JsonRoundTrip

/-- `JSON.stringify` of data writes its text, and the text denotes the data. -/
theorem JsonRoundTrip.gives_text {platform : JsonPlatform} (hplatform : PrintsIntegers platform)
    {stringToDouble : List UInt8 → UInt64} {limit limit₁ : Nat} (hle : limit ≤ limit₁)
    {heap : JsHeap} {value : JsValue} {data : JsonValue} {text : List UInt16}
    (h : Means platform stringToDouble heap limit [] value data text)
    (hlength : text.length ≤ kMaxTwoByteLength) :
    Gives heap (basicJsonStringify platform limit₁ value) (.ok (some text)) ∧
      ∃ x, Denotes text x ∧ depth x ≤ limit ∧ eval stringToDouble x = data := by
  have hserializes := @serializes_serializer platform stringToDouble heap limit
  have htext := hserializes.gives 0 (.name (.ofBytes [])) h (by rwa [Nat.zero_add])
  have hplain : Gives heap (jsonSerialize platform JsonSerialize.checked limit value)
      (.ok (some text)) := gives_serializeProperty (Gives.pure (Except.ok value)) htext
  have hfollows := follows_basicJsonStringify hplatform hle value heap
  unfold FollowsFrom at hfollows
  rw [hplain] at hfollows
  obtain ⟨result, hresult, rfl⟩ := hfollows
  obtain ⟨x, hx, hdepth, hvalue⟩ := hserializes.spoken h
  have hdenotes := Denotes.intro blank_nil hx blank_nil
  rw [List.nil_append, List.append_nil] at hdenotes
  exact ⟨hresult, x, hdenotes, hdepth, hvalue⟩

/-- `JSON.stringify` of data writes its text, from which `JSON.parse` makes the data again,
however the string that holds the text is stored. -/
theorem runtimeParseJson_basicJsonStringify {platform : JsonPlatform}
    (hplatform : PrintsIntegers platform) (parser : ParserPlatform) (fill : Nat → UInt16)
    (allocated : Bool) {limit limit₁ limit₂ : Nat} (hle : limit ≤ limit₁) (hlt : limit < limit₂)
    {heap : JsHeap} {value : JsValue} {data : JsonValue} {text : List UInt16}
    (h : Means platform parser.stringToDouble heap limit [] value data text)
    (hlength : text.length ≤ kMaxTwoByteLength) :
    Gives heap (basicJsonStringify platform limit₁ value) (.ok (some text)) ∧
      ∀ s : Str, s.WellFormed → s.units = text →
        runtimeParseJson parser fill allocated limit₂ s = .ok data := by
  obtain ⟨htext, x, hx, hdepth, rfl⟩ := gives_text hplatform hle h hlength
  refine ⟨htext, fun s hs hunits => ?_⟩
  rw [← hunits, Str.length_units hs] at hlength
  rw [runtimeParseJson_of_denotes hs hlength (hunits ▸ hx),
    if_pos (Nat.lt_of_le_of_lt hdepth hlt)]

theorem no_entries (_ : 0 = 0) : ([] : List ElementEntry) = [] := rfl

/-- `[12, "\"", {"y": true, "x": undefined, "7": null}]` -/
def JsHeap.nested : JsHeap where
  objects ref :=
    if ref = 0 then ⟨.array (.fast 0 3), ⟨0, [], no_entries⟩, .dictionary [], []⟩
    else ⟨.ordinary, ⟨1, [⟨7, false, .data .null⟩], (absurd · Nat.one_ne_zero)⟩,
      .dictionary [⟨.ofBytes (literalBytes "y"), false, .data (.boolean true)⟩,
        ⟨.ofBytes (literalBytes "x"), false, .data .undefined⟩], []⟩
  stores _ := [some (.number (.smi 12)), some (.string (.ofBytes [0x22])), some (.object 1)]

/-- What it is written as. -/
def nestedText : List UInt16 :=
  JsonSerialize.ascii "[12,\"\\\"\",\x7b\"7\":null,\"y\":true\x7d]"

theorem means_nested : Means .plain ParserPlatform.plain.stringToDouble .nested 2 [] (.object 0)
    (.array [.number (.smi 12), .string (.oneByte [0x22]),
      .object [(7, .null)] [([0x79], .boolean true)]]) nestedText := by
  have hplain : ∀ ref, NoToJson .nested ref := by
    rintro (_ | ref)
    · exact ⟨.undefined, rfl, rfl⟩
    · exact ⟨.undefined, rfl, rfl⟩
  obtain ⟨members, hmembers, hobject⟩ : ∃ texts,
      MembersMean .nested (Means .plain ParserPlatform.plain.stringToDouble .nested 0 [0, 1]) 1 3
        (JsHeap.nested.keysIncludingPrototypes 1) .empty
        ⟨[(7, .null)], [([0x79], .boolean true)]⟩ texts ∧
      [0x7B] ++ JsonSerialize.join texts ++ [0x7D] =
        JsonSerialize.ascii "\x7b\"7\":null,\"y\":true\x7d" :=
    ⟨_, .value (by decide) rfl .null (.value (by decide) rfl .boolean
      (.hidden (by decide) rfl .undefined .done)), by decide⟩
  have hlast : Means .plain ParserPlatform.plain.stringToDouble .nested 1 [0] (.object 1)
      (Properties.toObject ⟨[(7, .null)], [([0x79], .boolean true)]⟩)
      ([0x7B] ++ JsonSerialize.join members ++ [0x7D]) :=
    .object rfl (by decide) rfl (hplain 1) hmembers
  obtain ⟨elements, helements, harray⟩ : ∃ texts,
      ElementsMean .nested (Means .plain ParserPlatform.plain.stringToDouble .nested 1 [0]) 0 0 3
        [.number (.smi 12), .string (.oneByte [0x22]),
          .object [(7, .null)] [([0x79], .boolean true)]] texts ∧
      [0x5B] ++ JsonSerialize.join texts ++ [0x5D] = nestedText :=
    ⟨_, .value rfl (.number (readsBack_smi _ _ (by decide) (by decide)))
      (.value rfl .string (.value rfl (hobject ▸ hlast) .done)), by decide⟩
  rw [← harray]
  exact .array rfl (by decide) rfl (hplain 0) rfl (by decide) helements

theorem runtimeParseJson_basicJsonStringify_nested :
    Gives .nested (basicJsonStringify .plain 2 (.object 0)) (.ok (some nestedText)) ∧
      ∀ s : Str, s.WellFormed → s.units = nestedText →
        runtimeParseJson .plain (fun _ => 0) true 3 s =
          .ok (.array [.number (.smi 12), .string (.oneByte [0x22]),
            .object [(7, .null)] [([0x79], .boolean true)]]) :=
  runtimeParseJson_basicJsonStringify printsIntegers_plain .plain _ true (Nat.le_refl 2) (by decide)
    means_nested (by decide)

end WeexBridge.V8
