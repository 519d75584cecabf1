/-
# Texts in UTF-8 as keys

A name that the runtime knows as a C string is looked up in the string table without a
string being made of it: it is hashed, and compared, as it is decoded.

    Decodes            the characters of a UTF-8 text
    computeUtf8Hash    the hash field of the text
    isUtf8EqualTo      whether the text is that of a string
-/
import WeexBridge.V8.StringHasher
import WeexBridge.V8.Utf8Decoder

namespace WeexBridge.V8

open Decimal

namespace StringHasher

/-- The loop of `ComputeUtf8Hash`: characters are hashed up to a number. -/
def utf8Loop : Nat → List UInt8 → StringHasher → Bool → Nat → Option (StringHasher × Nat)
  | _, [], hasher, _, utf16Length => some (hasher, utf16Length)
  | 0, _ :: _, _, _, _ => none
  | fuel + 1, b :: stream, hasher, isIndex, utf16Length =>
      (Utf8.valueOf (b :: stream) (stream.length + 1)).bind fun (c, consumed) =>
        let rest := (b :: stream).drop consumed
        let isTwoCharacters := c > Utf16.kMaxNonSurrogateCharCode
        let utf16Length := utf16Length + if isTwoCharacters then 2 else 1
        if utf16Length > kMaxHashCalcLength then utf8Loop fuel rest hasher isIndex utf16Length
        else if isTwoCharacters then
          let c₁ := Utf16.leadSurrogate c
          let c₂ := Utf16.trailSurrogate c
          let hasher := (hasher.addCharacter c₁).addCharacter c₂
          let (isIndex, hasher) := if isIndex then hasher.updateIndex c₁ else (isIndex, hasher)
          let (isIndex, hasher) := if isIndex then hasher.updateIndex c₂ else (isIndex, hasher)
          utf8Loop fuel rest hasher isIndex utf16Length
        else
          let hasher := hasher.addCharacter (.ofNat c)
          let (isIndex, hasher) :=
            if isIndex then hasher.updateIndex (.ofNat c) else (isIndex, hasher)
          utf8Loop fuel rest hasher isIndex utf16Length

/-- `ComputeUtf8Hash`: the hash field, and the number of UTF-16 characters.  The length that
the hasher begins with is a fake, which does not affect what it does. -/
def computeUtf8Hash (chars : List UInt8) (seed : UInt32) : Option (UInt32 × Nat) :=
  if chars.length ≤ 1 then
    some (hashSequentialString (chars.map UInt8.toUInt16) seed, chars.length)
  else
    (utf8Loop chars.length chars (new kMaxArrayIndexSize seed) true 0).map
      fun (hasher, utf16Length) => ({ hasher with length := utf16Length }.getHashField, utf16Length)

end StringHasher

/-! ## Comparison -/

/-- `Get`, where the memory past the last character may be read or not. -/
def Str.getAt (string : Str) (beyond : Option UInt16) (index : Nat) : Option UInt16 :=
  if index < string.length then some (string.get index) else beyond

/-- The loop of `IsUtf8EqualTo`.  The check of `i` for a character of two units is never met,
as `i` is below the length. -/
def utf8EqualLoop (string : Str) (beyond : Option UInt16) : Nat → Nat → List UInt8 → Option Bool
  | fuel, i, stream =>
      if i < string.length ∧ 0 < stream.length then
        match fuel with
        | 0 => none
        | fuel + 1 =>
            (Utf8.valueOf stream stream.length).bind fun (r, cursor) =>
              if r > Utf16.kMaxNonSurrogateCharCode then
                if i > string.length - 1 then some false
                else (string.getAt beyond i).bind fun lead =>
                  if lead ≠ Utf16.leadSurrogate r then some false
                  else (string.getAt beyond (i + 1)).bind fun trail =>
                    if trail ≠ Utf16.trailSurrogate r then some false
                    else utf8EqualLoop string beyond fuel (i + 2) (stream.drop cursor)
              else (string.getAt beyond i).bind fun c =>
                if c.toNat ≠ r then some false
                else utf8EqualLoop string beyond fuel (i + 1) (stream.drop cursor)
      else some (i = string.length ∧ stream.length = 0)

/-- `String::IsUtf8EqualTo`.  The product is an `int`. -/
def isUtf8EqualTo (string : Str) (beyond : Option UInt16) (str : List UInt8) : Option Bool :=
  if str.length < string.length ∨
      (str.length : Int) > Int.bmod (string.length * Utf8.kMaxEncodedSize) (2 ^ 32) then
    some false
  else utf8EqualLoop string beyond str.length 0 str

/-! ## The characters of a text -/

namespace Utf8

open Utf8Decoder

/-- The decoder goes through all the bytes, and never past the last. -/
inductive Decodes : List UInt8 → List UInt16 → Prop where
  | nil : Decodes [] []
  | cons {stream : List UInt8} {c cursor : Nat} {units : List UInt16} : 0 < cursor →
      cursor ≤ stream.length → valueOf stream stream.length = some (c, cursor) →
      Decodes (stream.drop cursor) units → Decodes stream (unitsOf c ++ units)

/-- What the decoder finds at the front of a text: one byte, or a character of more bytes that
is not ASCII and takes fewer units than bytes. -/
def Within (stream : List UInt8) (result : Option (Nat × Nat)) : Prop :=
  ∃ c cursor, result = some (c, cursor) ∧ 0 < cursor ∧ cursor ≤ stream.length ∧
    (cursor = 1 ∧ c ≤ Utf16.kMaxNonSurrogateCharCode ∨
      kMaxOneByteChar < c ∧ (unitsOf c).length < cursor ∧ cursor ≤ kMaxEncodedSize)

theorem length_unitsOf_le (c : Nat) : (unitsOf c).length ≤ 2 := by
  unfold unitsOf
  split <;> simp

theorem within_bad {stream : List UInt8} (hne : 0 < stream.length) :
    Within stream (some (kBadChar, 1)) :=
  ⟨kBadChar, 1, rfl, Nat.one_pos, hne, .inl ⟨rfl, by decide⟩⟩

theorem within_calculateValue {stream : List UInt8} (hne : 0 < stream.length) :
    Within stream (calculateValue stream stream.length) := by
  have hbad := within_bad hne
  have hlonger : ∀ {c cursor : Nat}, kMaxOneByteChar < c → 2 < cursor →
      cursor ≤ kMaxEncodedSize → cursor ≤ stream.length → Within stream (some (c, cursor)) := by
    intro c cursor hc hcursor hfour hle
    have hunits := length_unitsOf_le c
    exact ⟨c, cursor, rfl, by omega, hle, .inr ⟨hc, by omega, hfour⟩⟩
  unfold calculateValue
  by_cases hone : stream.length = 1
  · rw [if_pos hone]
    exact hbad
  rw [if_neg hone, List.getElem?_eq_getElem hne, Option.bind_some,
    List.getElem?_eq_getElem (by omega : 1 < stream.length), Option.bind_some]
  cases continuation stream[1] with
  | none => exact hbad
  | some second =>
      dsimp only
      by_cases htwo : stream[0].toNat < 0xE0
      · rw [if_pos htwo]
        split_ifs with hlow hoverlong
        · exact hbad
        · exact hbad
        · -- two bytes are one unit
          have hmask : ((stream[0].toNat <<< 6) ||| second) &&& kMaxTwoByteChar < 0x800 := by
            rw [and_kMaxTwoByteChar]
            exact Nat.mod_lt _ (by decide)
          refine ⟨_, 2, rfl, by decide, by omega, .inr ⟨Nat.not_le.mp hoverlong, ?_, by decide⟩⟩
          rw [unitsOf, if_neg]
          · exact Nat.one_lt_two
          · exact Nat.not_lt.mpr (Nat.le_trans (Nat.le_of_lt hmask) (by decide))
      rw [if_neg htwo]
      by_cases hlength : stream.length = 2
      · rw [if_pos hlength]
        exact hbad
      rw [if_neg hlength, List.getElem?_eq_getElem (by omega : 2 < stream.length),
        Option.bind_some]
      cases continuation stream[2] with
      | none => exact hbad
      | some third =>
          dsimp only
          by_cases hthree : stream[0].toNat < 0xF0
          · rw [if_pos hthree]
            split_ifs with hoverlong
            · exact hbad
            · refine hlonger ?_ (by decide) (by decide) (by omega)
              exact Nat.lt_trans (by decide) (Nat.not_le.mp hoverlong)
          rw [if_neg hthree]
          by_cases hlength' : stream.length = 3
          · rw [if_pos hlength']
            exact hbad
          rw [if_neg hlength', List.getElem?_eq_getElem (by omega : 3 < stream.length),
            Option.bind_some]
          cases continuation stream[3] with
          | none => exact hbad
          | some fourth =>
              dsimp only
              split_ifs with hfour hoverlong
              · exact hbad
              · refine hlonger ?_ (by decide) (by decide) (by omega)
                exact Nat.lt_trans (by decide) (Nat.not_le.mp hoverlong)
              · exact hbad

theorem within_valueOf {stream : List UInt8} (hne : 0 < stream.length) :
    Within stream (valueOf stream stream.length) := by
  unfold valueOf
  rw [if_neg (Nat.ne_of_gt hne), List.getElem?_eq_getElem hne, Option.bind_some]
  split_ifs with hascii
  · refine ⟨_, 1, rfl, Nat.one_pos, hne, .inl ⟨rfl, ?_⟩⟩
    exact Nat.le_trans hascii (by decide)
  · exact within_calculateValue hne

theorem bytes_of_valueOf {stream : List UInt8} {c cursor : Nat} (hne : 0 < stream.length)
    (h : valueOf stream stream.length = some (c, cursor)) :
    cursor = 1 ∧ c ≤ Utf16.kMaxNonSurrogateCharCode ∨
      kMaxOneByteChar < c ∧ (unitsOf c).length < cursor ∧ cursor ≤ kMaxEncodedSize := by
  obtain ⟨c', cursor', hvalue, -, -, hbytes⟩ := within_valueOf hne
  cases h.symm.trans hvalue
  exact hbytes

/-- Every sequence of bytes is decoded. -/
theorem exists_decodes (stream : List UInt8) : ∃ units, Decodes stream units := by
  generalize hlength : stream.length = n
  induction n using Nat.strongRecOn generalizing stream with
  | _ n ih =>
      subst hlength
      rcases Nat.eq_zero_or_pos stream.length with hzero | hpos
      · obtain rfl := List.eq_nil_of_length_eq_zero hzero
        exact ⟨[], .nil⟩
      · obtain ⟨c, cursor, hvalue, hcursor, hle, -⟩ := within_valueOf hpos
        have hshorter : (stream.drop cursor).length < stream.length := by
          rw [List.length_drop]
          omega
        obtain ⟨units, hunits⟩ := ih _ hshorter (stream.drop cursor) rfl
        exact ⟨_, .cons hcursor hle hvalue hunits⟩

/-- A UTF-8 text: no byte of it is bad. -/
inductive Encodes : List UInt8 → List UInt16 → Prop where
  | nil : Encodes [] []
  | ascii {b : UInt8} {stream : List UInt8} {units : List UInt16} : b.toNat ≤ kMaxOneByteChar →
      Encodes stream units → Encodes (b :: stream) (b.toUInt16 :: units)
  | wide {stream : List UInt8} {c cursor : Nat} {units : List UInt16} : 1 < cursor →
      cursor ≤ stream.length → valueOf stream stream.length = some (c, cursor) →
      Encodes (stream.drop cursor) units → Encodes stream (unitsOf c ++ units)

theorem unitsOf_eq_singleton {c : Nat} (h : c ≤ Utf16.kMaxNonSurrogateCharCode) :
    unitsOf c = [.ofNat c] := if_neg (Nat.not_lt.mpr h)

theorem unitsOf_toUInt16 (b : UInt8) : unitsOf b.toNat = [b.toUInt16] := by
  rw [unitsOf_eq_singleton (Nat.le_trans (Nat.le_of_lt b.toNat_lt) (by decide))]
  simp

theorem valueOf_ascii {b : UInt8} (h : b.toNat ≤ kMaxOneByteChar) (stream : List UInt8) :
    valueOf (b :: stream) (b :: stream).length = some (b.toNat, 1) := by
  unfold valueOf
  rw [if_neg (by simp), List.getElem?_cons_zero, Option.bind_some, if_pos h]

theorem Encodes.decodes {stream : List UInt8} {units : List UInt16} (h : Encodes stream units) :
    Decodes stream units := by
  induction h with
  | nil => exact .nil
  | @ascii b stream units hascii _ ih =>
      have hcons := Decodes.cons Nat.one_pos (by simp) (valueOf_ascii hascii stream) ih
      rwa [unitsOf_toUInt16] at hcons
  | wide hwide hle hvalue _ ih => exact .cons (Nat.lt_of_succ_lt hwide) hle hvalue ih

theorem length_unitsOf_pos (c : Nat) : 0 < (unitsOf c).length := by
  unfold unitsOf
  split <;> simp

/-- There are no more units than bytes, and at least a unit for every four bytes. -/
theorem Decodes.length_le {stream : List UInt8} {units : List UInt16} (h : Decodes stream units) :
    units.length ≤ stream.length ∧ stream.length ≤ units.length * kMaxEncodedSize := by
  induction h with
  | nil => exact ⟨Nat.le_refl _, Nat.zero_le _⟩
  | @cons stream c cursor units hpos hle hvalue _ ih =>
      have hbytes := bytes_of_valueOf (Nat.lt_of_lt_of_le hpos hle) hvalue
      rw [List.length_drop] at ih
      rw [List.length_append]
      unfold kMaxEncodedSize at ih hbytes ⊢
      have hunit := length_unitsOf_pos c
      rcases hbytes with ⟨rfl, hc⟩ | ⟨-, hunits, hfour⟩
      · have hone : (unitsOf c).length = 1 := by
          rw [unitsOf, if_neg (Nat.not_lt.mpr hc)]
          rfl
        omega
      · omega

/-- A text of as many units as bytes is ASCII. -/
theorem Encodes.eq_map {stream : List UInt8} {units : List UInt16} (h : Encodes stream units)
    (hlength : units.length = stream.length) : units = stream.map UInt8.toUInt16 := by
  induction h with
  | nil => rfl
  | ascii _ _ ih => rw [List.map_cons, ih (Nat.succ.inj hlength)]
  | wide hwide hle hvalue hrest _ =>
      have hpos := Nat.lt_of_lt_of_le (Nat.lt_of_succ_lt hwide) hle
      have hfewer := hrest.decodes.length_le.1
      rw [List.length_drop] at hfewer
      rw [List.length_append] at hlength
      rcases bytes_of_valueOf hpos hvalue with ⟨hone, -⟩ | ⟨-, hunits, -⟩ <;> omega

end Utf8

namespace StringHasher

variable {hasher : StringHasher} {length : Nat} {seed : UInt32} {chars : List UInt16}

/-- The index and the hash do not know of each other. -/
theorem updateIndex_addCharacter (hasher : StringHasher) (c d : UInt16) :
    (hasher.addCharacter c).updateIndex d =
      ((hasher.updateIndex d).1, (hasher.updateIndex d).2.addCharacter c) := by
  unfold updateIndex addCharacter noArrayIndex
  dsimp only
  split_ifs <;> rfl

/-- One character hashed. -/
def addUnit (c : UInt16) (isIndex : Bool) (hasher : StringHasher) : Bool × StringHasher :=
  if isIndex then (hasher.addCharacter c).updateIndex c else (isIndex, hasher.addCharacter c)

theorem addCharacter_addUnit (c d : UInt16) (isIndex : Bool) (hasher : StringHasher) :
    (if isIndex then ((hasher.addCharacter c).addCharacter d).updateIndex c
      else (isIndex, (hasher.addCharacter c).addCharacter d)) =
      ((addUnit c isIndex hasher).1, (addUnit c isIndex hasher).2.addCharacter d) := by
  unfold addUnit
  cases isIndex with
  | true =>
      rw [if_pos rfl, if_pos rfl, updateIndex_addCharacter, updateIndex_addCharacter]
  | false => rfl

theorem Hashed.addUnit (h : Hashed hasher length seed chars) (c : UInt16) :
    Hashed (addUnit c hasher.isArrayIndex hasher).2 length seed (chars ++ [c]) ∧
      (addUnit c hasher.isArrayIndex hasher).1 =
        (addUnit c hasher.isArrayIndex hasher).2.isArrayIndex := by
  unfold StringHasher.addUnit
  cases hindex : hasher.isArrayIndex with
  | true => exact h.updateIndex hindex c
  | false => exact ⟨h.foldl hindex [c], hindex.symm⟩

/-- The loop of `ComputeUtf8Hash` hashes the characters as long as their hash matters. -/
theorem utf8Loop_eq {stream : List UInt8} {units : List UInt16} (h : Utf8.Decodes stream units)
    {isIndex : Bool} (hhashed : chars.length ≤ kMaxHashCalcLength →
      Hashed hasher length seed chars ∧ isIndex = hasher.isArrayIndex) {fuel : Nat}
    (hfuel : stream.length ≤ fuel) :
    ∃ hasher', utf8Loop fuel stream hasher isIndex chars.length =
        some (hasher', (chars ++ units).length) ∧
      ((chars ++ units).length ≤ kMaxHashCalcLength →
        Hashed hasher' length seed (chars ++ units)) := by
  induction h generalizing hasher isIndex chars fuel with
  | nil =>
      rw [List.append_nil]
      exact ⟨hasher, by unfold utf8Loop; rfl, fun h => (hhashed h).1⟩
  | @cons stream c cursor units hpos hle hvalue _ ih =>
      cases stream with
      | nil => exact absurd (Nat.lt_of_lt_of_le hpos hle) (Nat.lt_irrefl 0)
      | cons b stream =>
          obtain ⟨fuel, rfl⟩ : ∃ k, fuel = k + 1 := ⟨fuel - 1, by simp at hfuel; omega⟩
          have hrest : ((b :: stream).drop cursor).length ≤ fuel := by
            rw [List.length_drop]
            omega
          rw [List.length_cons] at hvalue
          unfold utf8Loop
          rw [hvalue, Option.bind_some, ← List.append_assoc]
          dsimp only
          have hcount : chars.length + (if c > Utf16.kMaxNonSurrogateCharCode then 2 else 1) =
              (chars ++ Utf8Decoder.unitsOf c).length := by
            rw [List.length_append, Utf8Decoder.unitsOf]
            split_ifs <;> rfl
          rw [hcount]
          by_cases hlong : (chars ++ Utf8Decoder.unitsOf c).length > kMaxHashCalcLength
          · rw [if_pos hlong]
            exact ih (fun h => absurd h (Nat.not_le.mpr hlong)) hrest
          · rw [if_neg hlong]
            rw [List.length_append] at hlong
            obtain ⟨hnow, rfl⟩ := hhashed (by omega)
            by_cases htwo : c > Utf16.kMaxNonSurrogateCharCode
            · rw [if_pos htwo, addCharacter_addUnit]
              dsimp only
              obtain ⟨hlead, hstill⟩ := hnow.addUnit (Utf16.leadSurrogate c)
              obtain ⟨htrail, hstill'⟩ := hlead.addUnit (Utf16.trailSurrogate c)
              rw [← hstill] at htrail hstill'
              rw [← List.append_cons] at htrail
              change ∃ hasher', utf8Loop fuel _ (addUnit _ _ _).2 (addUnit _ _ _).1 _ = _ ∧ _
              rw [Utf8Decoder.unitsOf, if_pos htwo]
              exact ih (fun _ => ⟨htrail, hstill'⟩) hrest
            · rw [if_neg htwo]
              have hnext := hnow.addUnit (.ofNat c)
              change ∃ hasher', utf8Loop fuel _ (addUnit _ _ _).2 (addUnit _ _ _).1 _ = _ ∧ _
              rw [Utf8Decoder.unitsOf, if_neg htwo]
              exact ih (fun _ => hnext) hrest

/-- Ten is as good as the number of characters. -/
theorem indexPrefix_ten {units : List UInt16} (hpos : 0 < units.length)
    (hone : units.length = 1 → units.head? ≠ some 0x30) :
    IndexPrefix kMaxArrayIndexSize units ↔ IndexPrefix units.length units := by
  constructor
  · intro h
    have hhead := h.noZero (by decide)
    have hnumeral : Numeral units := numeral_iff.mpr
      ⟨List.ne_nil_of_length_pos hpos, h.digits, fun _ => hhead⟩
    refine (indexPrefix_iff units).mpr ⟨hnumeral.numeral_value.symm, h.fits⟩
  · intro h
    refine ⟨by decide, Nat.le_refl _, h.digits, fun _ hhead => ?_, h.fits⟩
    by_cases hlength : 1 < units.length
    · exact h.noZero hlength hhead
    · exact hone (by omega) hhead

theorem Hashed.setLength (h : Hashed hasher kMaxArrayIndexSize seed chars)
    (hpos : 0 < chars.length) (hone : chars.length = 1 → chars.head? ≠ some 0x30) :
    Hashed { hasher with length := chars.length } chars.length seed chars :=
  ⟨rfl, h.hash, h.isIndex.trans (indexPrefix_ten hpos hone), h.index⟩

/-- A single unit from several bytes is not ASCII. -/
theorem head_ne_of_wide {bytes : List UInt8} {units : List UInt16} (h : Utf8.Encodes bytes units)
    (hbytes : 1 < bytes.length) (hone : units.length = 1) : units.head? ≠ some 0x30 := by
  cases h with
  | nil => simp at hbytes
  | @ascii b stream units _ hrest =>
      have hle := hrest.decodes.length_le.2
      rw [List.length_cons] at hbytes hone
      rw [Nat.succ.inj hone, Nat.zero_mul] at hle
      omega
  | @wide stream c cursor units hwide hle hvalue hrest =>
      have hpos := Nat.lt_of_lt_of_le (Nat.lt_of_succ_lt hwide) hle
      rcases Utf8.bytes_of_valueOf hpos hvalue with ⟨rfl, -⟩ | ⟨hc, -, -⟩
      · exact absurd hwide (Nat.lt_irrefl 1)
      · by_cases htwo : c > Utf16.kMaxNonSurrogateCharCode
        · rw [Utf8Decoder.unitsOf, if_pos htwo, List.length_append] at hone
          exact absurd hone (by simp; omega)
        · rw [Utf8.unitsOf_eq_singleton (Nat.not_lt.mp htwo)]
          intro hhead
          have hzero : (UInt16.ofNat c).toNat = 0x30 :=
            congrArg UInt16.toNat (Option.some.inj hhead)
          rw [UInt16.toNat_ofNat_of_lt' (Nat.lt_succ_of_le (Nat.not_lt.mp htwo))] at hzero
          rw [hzero] at hc
          exact absurd hc (by decide)

/-- The hash field of a text in UTF-8 is that of its characters. -/
theorem computeUtf8Hash_eq {bytes : List UInt8} {units : List UInt16}
    (h : Utf8.Encodes bytes units) (seed : UInt32) :
    computeUtf8Hash bytes seed = some (hashSequentialString units seed, units.length) := by
  unfold computeUtf8Hash
  by_cases hbytes : bytes.length ≤ 1
  · rw [if_pos hbytes]
    have hle := h.decodes.length_le
    have hlength : units.length = bytes.length := by
      unfold Utf8.kMaxEncodedSize at hle
      omega
    rw [← h.eq_map hlength, hlength]
  · rw [if_neg hbytes]
    have hwide := Nat.lt_of_not_le hbytes
    have hpos : 0 < units.length := by
      have hle := h.decodes.length_le.2
      unfold Utf8.kMaxEncodedSize at hle
      omega
    have hnew : ([] : List UInt16).length ≤ kMaxHashCalcLength →
        Hashed (new kMaxArrayIndexSize seed) kMaxArrayIndexSize seed [] ∧
          true = (new kMaxArrayIndexSize seed).isArrayIndex :=
      fun _ => ⟨hashed_new kMaxArrayIndexSize seed, rfl⟩
    obtain ⟨hasher, hloop, hhashed⟩ := utf8Loop_eq h.decodes hnew (Nat.le_refl _)
    rw [List.nil_append] at hloop hhashed
    rw [List.length_nil] at hloop
    rw [hloop, Option.map_some]
    dsimp only
    by_cases hlong : kMaxHashCalcLength < units.length
    · rw [getHashField_of_long rfl hlong seed]
    · have hset := (hhashed (Nat.not_lt.mp hlong)).setLength hpos (head_ne_of_wide h hwide)
      rw [hset.getHashField]

end StringHasher

/-! ## Comparison reads the text -/

/-- The last unit is the first of a pair in the text. -/
inductive Overruns : List UInt8 → List UInt16 → Prop where
  | last {stream : List UInt8} {c cursor : Nat} : stream ≠ [] →
      Utf8.valueOf stream stream.length = some (c, cursor) → c > Utf16.kMaxNonSurrogateCharCode →
      Overruns stream [Utf16.leadSurrogate c]
  | cons {stream : List UInt8} {c cursor : Nat} {units : List UInt16} : stream ≠ [] →
      Utf8.valueOf stream stream.length = some (c, cursor) →
      Overruns (stream.drop cursor) units → Overruns stream (Utf8Decoder.unitsOf c ++ units)

section
variable {string : Str}

theorem Str.getAt_eq (hwf : string.WellFormed) (beyond : Option UInt16) {done todo : List UInt16}
    {u : UInt16} (hunits : string.units = done ++ u :: todo) :
    string.getAt beyond done.length = some u := by
  have hlt : done.length < string.length := by
    rw [← Str.length_units hwf, hunits, List.length_append, List.length_cons]
    omega
  rw [Str.getAt, if_pos hlt, Str.get_eq hwf hlt, hunits]
  simp

/-- Either the text ends within the first pair of the stream, or it goes on after the first
character. -/
theorem Overruns.inv {stream : List UInt8} {c cursor : Nat} {units : List UInt16}
    (h : Overruns stream units) (hvalue : Utf8.valueOf stream stream.length = some (c, cursor)) :
    units = [Utf16.leadSurrogate c] ∧ c > Utf16.kMaxNonSurrogateCharCode ∨
      ∃ rest, units = Utf8Decoder.unitsOf c ++ rest ∧ Overruns (stream.drop cursor) rest := by
  cases h with
  | last _ hvalue' htwo =>
      cases hvalue.symm.trans hvalue'
      exact .inl ⟨rfl, htwo⟩
  | cons _ hvalue' hrest =>
      cases hvalue.symm.trans hvalue'
      exact .inr ⟨_, rfl, hrest⟩

theorem overruns_append {stream : List UInt8} {c cursor : Nat} {units : List UInt16}
    (hne : stream ≠ []) (hvalue : Utf8.valueOf stream stream.length = some (c, cursor)) :
    Overruns stream (Utf8Decoder.unitsOf c ++ units) ↔ Overruns (stream.drop cursor) units := by
  constructor
  · intro h
    rcases h.inv hvalue with ⟨hlast, htwo⟩ | ⟨rest, hrest, hoverruns⟩
    · rw [Utf8Decoder.unitsOf, if_pos htwo] at hlast
      cases hlast
    · rwa [List.append_cancel_left hrest]
  · exact .cons hne hvalue

/-- What the comparison of the rest of the string with the stream gives. -/
def Compares (beyond : Option UInt16) (stream : List UInt8) (todo units : List UInt16)
    (result : Option Bool) : Prop :=
  (Overruns stream todo → result = beyond.map fun _ => false) ∧
    (¬ Overruns stream todo → result = some (decide (todo = units)))

theorem utf8EqualLoop_stop (beyond : Option UInt16) {i fuel : Nat} {stream : List UInt8}
    (h : ¬ (i < string.length ∧ 0 < stream.length)) :
    utf8EqualLoop string beyond fuel i stream =
      some (decide (i = string.length ∧ stream.length = 0)) := by
  unfold utf8EqualLoop
  rw [if_neg h]

theorem compares_differ {beyond : Option UInt16} {stream : List UInt8} {c cursor : Nat}
    {todo units : List UInt16}
    (hvalue : Utf8.valueOf stream stream.length = some (c, cursor))
    (hlast : todo ≠ [Utf16.leadSurrogate c] ∨ c ≤ Utf16.kMaxNonSurrogateCharCode)
    (hdiffer : ∀ rest, todo ≠ Utf8Decoder.unitsOf c ++ rest) :
    Compares beyond stream todo (Utf8Decoder.unitsOf c ++ units) (some false) := by
  constructor
  · intro h
    rcases h.inv hvalue with ⟨heq, htwo⟩ | ⟨rest, heq, -⟩
    · rcases hlast with hlast | hone
      · exact absurd heq hlast
      · exact absurd htwo (Nat.not_lt.mpr hone)
    · exact absurd heq (hdiffer rest)
  · intro _
    rw [decide_eq_false (hdiffer units)]

theorem Compares.append {beyond : Option UInt16} {stream : List UInt8} {c cursor : Nat}
    {todo units : List UInt16} {result : Option Bool} (hne : stream ≠ [])
    (hvalue : Utf8.valueOf stream stream.length = some (c, cursor))
    (h : Compares beyond (stream.drop cursor) todo units result) :
    Compares beyond stream (Utf8Decoder.unitsOf c ++ todo) (Utf8Decoder.unitsOf c ++ units)
      result := by
  unfold Compares
  rw [overruns_append hne hvalue]
  refine ⟨h.1, fun hnot => ?_⟩
  rw [h.2 hnot]
  exact congrArg some (decide_eq_decide.mpr (by rw [List.append_cancel_left_eq]))

section
variable {beyond : Option UInt16} {stream : List UInt8} {c cursor : Nat}
  {units done todo : List UInt16} {u : UInt16} {fuel : Nat}

/-- A character of two units, of which the string may have the first only. -/
theorem compares_utf8EqualLoop_pair (hwf : string.WellFormed) (hne : stream ≠ [])
    (hvalue : Utf8.valueOf stream stream.length = some (c, cursor))
    (htwo : c > Utf16.kMaxNonSurrogateCharCode) (hunits : string.units = done ++ u :: todo)
    (ih : ∀ {done todo : List UInt16}, string.units = done ++ todo →
      Compares beyond (stream.drop cursor) todo units
        (utf8EqualLoop string beyond fuel done.length (stream.drop cursor))) :
    Compares beyond stream (u :: todo) (Utf8Decoder.unitsOf c ++ units)
      (utf8EqualLoop string beyond (fuel + 1) done.length stream) := by
  have hall := Str.length_units hwf
  rw [hunits, List.length_append, List.length_cons] at hall
  have hpair : Utf8Decoder.unitsOf c = [Utf16.leadSurrogate c, Utf16.trailSurrogate c] :=
    if_pos htwo
  unfold utf8EqualLoop
  rw [if_pos ⟨by omega, List.length_pos_of_ne_nil hne⟩, Str.getAt_eq hwf beyond hunits]
  dsimp only
  rw [hvalue, Option.bind_some]
  dsimp only
  rw [Option.bind_some, if_pos htwo, if_neg (by omega)]
  by_cases hu : u = Utf16.leadSurrogate c
  · rw [if_neg (not_not.mpr hu)]
    subst hu
    cases todo with
    | nil =>
        -- the pair goes over the end of the string
        rw [List.length_nil] at hall
        have hbeyond : string.getAt beyond (done.length + 1) = beyond := if_neg (by omega)
        rw [hbeyond]
        refine ⟨fun _ => ?_, fun h => absurd (.last hne hvalue htwo) h⟩
        cases beyond with
        | none => rfl
        | some trail =>
            rw [Option.bind_some, utf8EqualLoop_stop _ (by omega), decide_eq_false (by omega),
              ite_self]
            rfl
    | cons v todo =>
        rw [List.append_cons] at hunits
        have hnext := Str.getAt_eq hwf beyond hunits
        rw [List.length_append, List.length_singleton] at hnext
        rw [hnext, Option.bind_some]
        by_cases hv : v = Utf16.trailSurrogate c
        · rw [if_neg (not_not.mpr hv)]
          subst hv
          rw [List.append_cons] at hunits
          have hcompares := ih hunits
          rw [List.length_append, List.length_append] at hcompares
          exact hpair ▸ hcompares.append hne hvalue
        · rw [if_pos hv]
          refine compares_differ hvalue (.inl (by simp)) fun rest heq => hv ?_
          rw [hpair] at heq
          cases heq
          rfl
  · rw [if_pos hu]
    refine compares_differ hvalue (.inl fun heq => hu ?_) fun rest heq => hu ?_
    · cases heq
      rfl
    · rw [hpair] at heq
      cases heq
      rfl

/-- A character of one unit. -/
theorem compares_utf8EqualLoop_single (hwf : string.WellFormed) (hne : stream ≠ [])
    (hvalue : Utf8.valueOf stream stream.length = some (c, cursor))
    (hone : c ≤ Utf16.kMaxNonSurrogateCharCode) (hunits : string.units = done ++ u :: todo)
    (ih : ∀ {done todo : List UInt16}, string.units = done ++ todo →
      Compares beyond (stream.drop cursor) todo units
        (utf8EqualLoop string beyond fuel done.length (stream.drop cursor))) :
    Compares beyond stream (u :: todo) (Utf8Decoder.unitsOf c ++ units)
      (utf8EqualLoop string beyond (fuel + 1) done.length stream) := by
  have hall := Str.length_units hwf
  rw [hunits, List.length_append, List.length_cons] at hall
  have hsingle := Utf8.unitsOf_eq_singleton hone
  unfold utf8EqualLoop
  rw [if_pos ⟨by omega, List.length_pos_of_ne_nil hne⟩, Str.getAt_eq hwf beyond hunits]
  dsimp only
  rw [hvalue, Option.bind_some]
  dsimp only
  rw [Option.bind_some, Option.bind_some, if_neg (Nat.not_lt.mpr hone)]
  by_cases hu : u.toNat = c
  · rw [if_neg (not_not.mpr hu)]
    rw [List.append_cons] at hunits
    have hcompares := (ih hunits).append hne hvalue
    rw [List.length_append] at hcompares
    rw [hsingle, ← hu, UInt16.ofNat_toNat] at hcompares ⊢
    exact hcompares
  · rw [if_pos hu]
    refine compares_differ hvalue (.inr hone) fun rest heq => hu ?_
    rw [hsingle] at heq
    cases heq
    exact UInt16.toNat_ofNat_of_lt' (Nat.lt_succ_of_le hone)

end

/-- The loop compares the characters of the stream with the rest of the string. -/
theorem utf8EqualLoop_eq (hwf : string.WellFormed) (beyond : Option UInt16) {stream : List UInt8}
    {units : List UInt16} (h : Utf8.Decodes stream units) {done todo : List UInt16}
    (hunits : string.units = done ++ todo) {fuel : Nat} (hfuel : stream.length ≤ fuel) :
    Compares beyond stream todo units
      (utf8EqualLoop string beyond fuel done.length stream) := by
  have hlength := Str.length_units hwf
  induction h generalizing done todo fuel with
  | nil =>
      rw [hunits, List.length_append] at hlength
      have hend : ¬ (done.length < string.length ∧ 0 < ([] : List UInt8).length) :=
        fun h => absurd h.2 (Nat.lt_irrefl 0)
      rw [utf8EqualLoop_stop beyond hend]
      constructor
      · intro h
        cases h <;> contradiction
      · intro _
        rw [← hlength]
        simp
  | @cons stream c cursor units hpos hle hvalue _ ih =>
      have hstream := Nat.lt_of_lt_of_le hpos hle
      have hne : stream ≠ [] := List.ne_nil_of_length_pos hstream
      cases todo with
      | nil =>
          rw [hunits, List.length_append, List.length_nil] at hlength
          rw [utf8EqualLoop_stop beyond (by omega)]
          have hunit := Utf8.length_unitsOf_pos c
          have hnot : ¬ (done.length = string.length ∧ stream.length = 0) := by omega
          rw [decide_eq_false hnot]
          refine compares_differ hvalue (.inl (List.cons_ne_nil _ _).symm) fun rest heq => ?_
          have := congrArg List.length heq
          rw [List.length_append, List.length_nil] at this
          omega
      | cons u todo =>
          obtain ⟨fuel, rfl⟩ : ∃ k, fuel = k + 1 := ⟨fuel - 1, by omega⟩
          have hrest : (stream.drop cursor).length ≤ fuel := by
            rw [List.length_drop]
            omega
          have hloop := fun {done todo : List UInt16} (hunits : string.units = done ++ todo) =>
            ih hunits hrest
          by_cases htwo : c > Utf16.kMaxNonSurrogateCharCode
          · exact compares_utf8EqualLoop_pair hwf hne hvalue htwo hunits hloop
          · exact compares_utf8EqualLoop_single hwf hne hvalue (Nat.not_lt.mp htwo) hunits hloop

theorem overruns_iff_none {beyond : Option UInt16} {stream : List UInt8} {todo units : List UInt16}
    {result : Option Bool} (h : Compares beyond stream todo units result) :
    result = none ↔ beyond = none ∧ Overruns stream todo := by
  by_cases hoverruns : Overruns stream todo
  · rw [h.1 hoverruns, Option.map_eq_none_iff]
    exact ⟨fun h => ⟨h, hoverruns⟩, And.left⟩
  · rw [h.2 hoverruns]
    exact iff_of_false nofun fun h => hoverruns h.2

/-- A text that ends within a pair of the stream is not that of the stream. -/
theorem ne_of_overruns {stream : List UInt8} {todo units : List UInt16}
    (h : Utf8.Decodes stream units) (hoverruns : Overruns stream todo) : todo ≠ units := by
  induction h generalizing todo with
  | nil => cases hoverruns <;> contradiction
  | @cons stream c cursor units hpos hle hvalue _ ih =>
      rcases hoverruns.inv hvalue with ⟨rfl, htwo⟩ | ⟨rest, rfl, hrest⟩
      · rw [Utf8Decoder.unitsOf, if_pos htwo]
        intro heq
        cases heq
      · exact fun heq => ih hrest (List.append_cancel_left heq)

end

section
variable {string : Str} {bytes : List UInt8} {units : List UInt16}

/-- The bounds leave out no text of the string. -/
theorem bounds_of_length (hwf : string.WellFormed) (h : Utf8.Decodes bytes units)
    (hsmall : bytes.length < 2 ^ 29)
    (hout : bytes.length < string.length ∨
      (bytes.length : Int) > Int.bmod (string.length * Utf8.kMaxEncodedSize) (2 ^ 32)) :
    string.units ≠ units := by
  rintro rfl
  obtain ⟨hlow, hhigh⟩ := h.length_le
  rw [Str.length_units hwf] at hlow hhigh
  unfold Utf8.kMaxEncodedSize at hhigh hout
  rw [Int.bmod_eq_of_le (by omega) (by omega)] at hout
  omega

theorem isUtf8EqualTo_some (hwf : string.WellFormed) (beyond : UInt16)
    (h : Utf8.Decodes bytes units) (hsmall : bytes.length < 2 ^ 29) :
    isUtf8EqualTo string (some beyond) bytes = some (decide (string.units = units)) := by
  unfold isUtf8EqualTo
  split_ifs with hout
  · rw [decide_eq_false (bounds_of_length hwf h hsmall hout)]
  · have hunits : string.units = [] ++ string.units := rfl
    have hcompares := utf8EqualLoop_eq hwf (some beyond) h hunits (Nat.le_refl _)
    by_cases hoverruns : Overruns bytes string.units
    · exact (hcompares.1 hoverruns).trans
        (congrArg some (decide_eq_false (ne_of_overruns h hoverruns)).symm)
    · exact hcompares.2 hoverruns

theorem Overruns.length_le {stream : List UInt8} {units : List UInt16}
    (h : Overruns stream units) : units.length ≤ stream.length := by
  induction h with
  | last hne => exact List.length_pos_of_ne_nil hne
  | @cons stream c cursor units hne hvalue _ ih =>
      obtain ⟨c', cursor', hvalue', hpos, hle, hbytes⟩ :=
        Utf8.within_valueOf (List.length_pos_of_ne_nil hne)
      cases hvalue.symm.trans hvalue'
      rw [List.length_drop] at ih
      rw [List.length_append]
      rcases hbytes with ⟨rfl, hc⟩ | ⟨-, hunits, -⟩
      · rw [Utf8.unitsOf_eq_singleton hc, List.length_singleton]
        omega
      · omega

/-- The comparison tells whether the text is that of the string, whatever lies behind the last
character; it is read if the string ends within a pair of the text. -/
theorem isUtf8EqualTo_eq (hwf : string.WellFormed) (h : Utf8.Decodes bytes units)
    (hsmall : bytes.length < 2 ^ 29) :
    (∀ beyond, isUtf8EqualTo string (some beyond) bytes = some (decide (string.units = units))) ∧
      (isUtf8EqualTo string none bytes = none ↔
        Overruns bytes string.units ∧ bytes.length ≤ string.length * Utf8.kMaxEncodedSize) := by
  refine ⟨fun beyond => isUtf8EqualTo_some hwf beyond h hsmall, ?_⟩
  have hunits : string.units = [] ++ string.units := rfl
  have hloop := overruns_iff_none (utf8EqualLoop_eq hwf none h hunits (Nat.le_refl bytes.length))
  have hlength := Str.length_units hwf
  unfold isUtf8EqualTo
  unfold Utf8.kMaxEncodedSize
  split_ifs with hout
  · refine iff_of_false nofun ?_
    rintro ⟨hoverruns, hhigh⟩
    have hlow := hoverruns.length_le
    rw [Int.bmod_eq_of_le (by omega) (by omega)] at hout
    omega
  · refine hloop.trans ⟨fun h => ⟨h.2, ?_⟩, fun h => ⟨rfl, h.1⟩⟩
    have hlow := h.2.length_le
    rw [Int.bmod_eq_of_le (by omega) (by omega)] at hout
    omega

/-- The string ends with half of the last character. -/
theorem isUtf8EqualTo_half :
    isUtf8EqualTo (.seq (.twoByte [0x61, 0xD83D])) none [0x61, 0xF0, 0x9F, 0x98, 0x80] = none := by
  have hpair : Utf8.Decodes [0xF0, 0x9F, 0x98, 0x80] (Utf8Decoder.unitsOf 0x1F600 ++ []) :=
    @Utf8.Decodes.cons _ 0x1F600 4 [] (by decide) (by decide) (by decide) .nil
  have hdecodes := @Utf8.Decodes.cons [0x61, 0xF0, 0x9F, 0x98, 0x80] 0x61 1 _ Nat.one_pos
    (by decide) (by decide) hpair
  have hlast : Overruns [0xF0, 0x9F, 0x98, 0x80] [0xD83D] :=
    @Overruns.last _ 0x1F600 4 (by decide) (by decide) (by decide)
  have hoverruns := @Overruns.cons [0x61, 0xF0, 0x9F, 0x98, 0x80] 0x61 1 _ (by decide)
    (by decide) hlast
  have hwf : (Str.seq (.twoByte [0x61, 0xD83D])).WellFormed := trivial
  exact ((isUtf8EqualTo_eq hwf hdecodes (by decide)).2).mpr ⟨hoverruns, by decide⟩

end

end WeexBridge.V8
