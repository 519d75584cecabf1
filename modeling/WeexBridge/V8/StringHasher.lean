/-
# Hash fields of strings

`StringHasher` makes the hash field of a string from its characters: a short decimal
numeral is kept in the field itself, any other text is hashed with a seed.  The field does
not depend on how the string is stored, and it tells whether the string is an array index.

    hashSequentialString    the field of characters that lie in one place
    iteratingHash           the field of a string, leaf by leaf
    asArrayIndex            the index that a string is
-/
import WeexBridge.Lib.Decimal
import WeexBridge.V8.CharacterStream
import Mathlib.Data.Nat.Bitwise

namespace WeexBridge.V8

open Decimal

/-- The members of `StringHasher`. -/
structure StringHasher where
  length : Nat
  rawRunningHash : UInt32
  arrayIndex : Nat
  isArrayIndex : Bool
  isFirstChar : Bool

namespace StringHasher

def kMaxArrayIndexSize : Nat := 10
def kMaxCachedArrayIndexLength : Nat := 7
def kMaxHashCalcLength : Nat := 16383
def kHashShift : UInt32 := 2
def kIsNotArrayIndexMask : UInt32 := 2
def kHashBitMask : UInt32 := 0x3FFFFFFF
def kArrayIndexHashLengthShift : UInt32 := 26
def kArrayIndexHashMask : UInt32 := 0x3FFFFFF
def kZeroHash : UInt32 := 27

def new (length : Nat) (seed : UInt32) : StringHasher :=
  ⟨length, seed, 0, 0 < length && length ≤ kMaxArrayIndexSize, true⟩

def addCharacterCore (runningHash : UInt32) (c : UInt16) : UInt32 :=
  let runningHash := runningHash + c.toUInt32
  let runningHash := runningHash + (runningHash <<< 10)
  runningHash ^^^ (runningHash >>> 6)

def getHashCore (runningHash : UInt32) : UInt32 :=
  let runningHash := runningHash + (runningHash <<< 3)
  let runningHash := runningHash ^^^ (runningHash >>> 11)
  let runningHash := runningHash + (runningHash <<< 15)
  if runningHash &&& kHashBitMask = 0 then kZeroHash else runningHash

def makeArrayIndexHash (value length : Nat) : UInt32 :=
  (UInt32.ofNat value <<< kHashShift) ||| (UInt32.ofNat length <<< kArrayIndexHashLengthShift)

section
variable (hasher : StringHasher)

/-- `has_trivial_hash` -/
def hasTrivialHash : Bool := hasher.length > kMaxHashCalcLength

def addCharacter (c : UInt16) : StringHasher :=
  { hasher with rawRunningHash := addCharacterCore hasher.rawRunningHash c }

def noArrayIndex : StringHasher := { hasher with isArrayIndex := false }

/-- `UpdateIndex`: whether the string is still an index. -/
def updateIndex (c : UInt16) : Bool × StringHasher :=
  if c < 0x30 ∨ c > 0x39 then (false, hasher.noArrayIndex)
  else
    let d := c.toNat - 0x30
    if hasher.isFirstChar = true ∧ c = 0x30 ∧ hasher.length > 1 then
      (false, { hasher with isFirstChar := false, isArrayIndex := false })
    else if hasher.arrayIndex > 429496729 - ((d + 2) >>> 3) then
      (false, { hasher with isFirstChar := false, isArrayIndex := false })
    else (true, { hasher with isFirstChar := false, arrayIndex := hasher.arrayIndex * 10 + d })

def getHashField : UInt32 :=
  if hasher.length ≤ kMaxHashCalcLength then
    if hasher.isArrayIndex then makeArrayIndexHash hasher.arrayIndex hasher.length
    else (getHashCore hasher.rawRunningHash <<< kHashShift) ||| kIsNotArrayIndexMask
  else (UInt32.ofNat hasher.length <<< kHashShift) ||| kIsNotArrayIndexMask

end

/-- The first loop of `AddCharacters`, while the string is an index, and the second after
it. -/
def addIndexCharacters : List UInt16 → StringHasher → StringHasher
  | [], hasher => hasher
  | c :: chars, hasher =>
      match (hasher.addCharacter c).updateIndex c with
      | (true, hasher) => addIndexCharacters chars hasher
      | (false, hasher) => chars.foldl addCharacter hasher

def addCharacters (chars : List UInt16) (hasher : StringHasher) : StringHasher :=
  if hasher.isArrayIndex then addIndexCharacters chars hasher
  else chars.foldl addCharacter hasher

def hashSequentialString (chars : List UInt16) (seed : UInt32) : UInt32 :=
  let hasher := new chars.length seed
  (if hasher.hasTrivialHash then hasher else hasher.addCharacters chars).getHashField

/-! ## Strings of the heap -/

/-- The loop of `IteratingStringHasher::Hash` at a leaf, `consumed` characters from the
start.  There are no more leaves than characters.  No result where a null string is
visited. -/
def hashLeaves (length : Nat) : Nat → Str → ConsStringIteratorOp → StringHasher → Nat →
    Option StringHasher
  | 0, _, _, _, _ => none
  | fuel + 1, string, op, hasher, consumed =>
      (string.visit 0).bind fun chars =>
        let hasher := hasher.addCharacters chars.units
        let consumed := consumed + chars.length
        if consumed = length then some hasher
        else match op.continueOperation with
          | some (some string, op) => hashLeaves length fuel string op hasher consumed
          | _ => none

/-- `IteratingStringHasher::Hash` -/
def iteratingHash (string : Str) (seed : UInt32) : Option UInt32 :=
  let hasher := new string.length seed
  if hasher.hasTrivialHash then some hasher.getHashField
  else match string with
    | .cons oneByte first second =>
        match ConsStringIteratorOp.new.operate ⟨oneByte, first, second⟩ 0 with
        | (some (leaf, _), op) =>
            (hashLeaves string.length string.length leaf op hasher 0).map getHashField
        | (none, _) => none
    | string => (string.visit 0).map fun chars => (hasher.addCharacters chars.units).getHashField

/-! ## Array indices -/

/-- The loop of `ComputeArrayIndex`. -/
def computeIndexLoop : Nat → Nat → StringCharacterStream → Option (Option Nat)
  | 0, _, _ => none
  | fuel + 1, result, stream =>
      stream.hasMore.bind fun (more, stream) =>
        if more then
          stream.getNext.bind fun (c, stream) =>
            if c < 0x30 ∨ c > 0x39 then some none
            else
              let d := c.toNat - 0x30
              if result > 429496729 - (if d > 5 then 1 else 0) then some none
              else computeIndexLoop fuel (result * 10 + d) stream
        else some (some result)

/-- `String::ComputeArrayIndex` -/
def computeArrayIndex (string : Str) : Option (Option Nat) :=
  if string.length = 0 ∨ string.length > kMaxArrayIndexSize then some none
  else
    (StringCharacterStream.reset string .new 0).getNext.bind fun (ch, stream) =>
      if ch = 0x30 then some (if string.length = 1 then some 0 else none)
      else if ch < 0x30 ∨ ch > 0x39 then some none
      else computeIndexLoop string.length (ch.toNat - 0x30) stream

/-- `String::SlowAsArrayIndex`: the index of a short string is taken from its hash field. -/
def slowAsArrayIndex (seed : UInt32) (string : Str) : Option (Option Nat) :=
  if string.length ≤ kMaxCachedArrayIndexLength then
    (iteratingHash string seed).map fun field =>
      if field &&& kIsNotArrayIndexMask ≠ 0 then none
      else some ((kArrayIndexHashMask &&& field) >>> kHashShift).toNat
  else computeArrayIndex string

/-- `String::AsArrayIndex`, where the hash field has been computed before or not. -/
def asArrayIndex (seed : UInt32) (computed : Bool) (string : Str) : Option (Option Nat) :=
  if computed then
    (iteratingHash string seed).bind fun field =>
      if field &&& kIsNotArrayIndexMask ≠ 0 then some none else slowAsArrayIndex seed string
  else slowAsArrayIndex seed string

/-! ## The state of a hasher -/

/-- The text may be the beginning of an array index of so many characters. -/
structure IndexPrefix (length : Nat) (chars : List UInt16) : Prop where
  pos : 0 < length
  short : length ≤ kMaxArrayIndexSize
  digits : Digits chars
  noZero : 1 < length → chars.head? ≠ some 0x30
  fits : value chars < 2 ^ 32

/-- What the hasher of a string of so many characters is after some of them. -/
structure Hashed (hasher : StringHasher) (length : Nat) (seed : UInt32) (chars : List UInt16) :
    Prop where
  length_eq : hasher.length = length
  hash : hasher.rawRunningHash = chars.foldl addCharacterCore seed
  isIndex : hasher.isArrayIndex = true ↔ IndexPrefix length chars
  index : hasher.isArrayIndex = true →
    hasher.arrayIndex = value chars ∧ (hasher.isFirstChar = true ↔ chars = [])

section
variable {hasher : StringHasher} {length : Nat} {seed : UInt32} {chars : List UInt16}

theorem hashed_new (length : Nat) (seed : UInt32) : Hashed (new length seed) length seed [] where
  length_eq := rfl
  hash := rfl
  isIndex := by
    rw [new, Bool.and_eq_true, decide_eq_true_eq, decide_eq_true_eq]
    constructor
    · intro h
      exact ⟨h.1, h.2, fun _ h => absurd h List.not_mem_nil, fun _ => nofun, by decide⟩
    · intro h
      exact ⟨h.pos, h.short⟩
  index _ := ⟨rfl, iff_of_true rfl rfl⟩

theorem IndexPrefix.init {c : UInt16} (h : IndexPrefix length (chars ++ [c])) :
    IndexPrefix length chars where
  pos := h.pos
  short := h.short
  digits d hd := h.digits d (List.mem_append_left _ hd)
  noZero hlength hhead := h.noZero hlength (by rw [List.head?_append, hhead]; rfl)
  fits := by
    have hfits := h.fits
    have hle := le_valueFrom [c] (value chars)
    unfold value at hfits hle ⊢
    rw [valueFrom_append] at hfits
    omega

theorem value_concat (chars : List UInt16) (c : UInt16) :
    value (chars ++ [c]) = value chars * 10 + digitValue c := valueFrom_append 0 chars [c]

/-- The shift is the test of the fourth bit. -/
theorem shiftRight_eq : ∀ d < 10, (d + 2) >>> 3 = if d > 5 then 1 else 0 := by decide

/-- `UpdateIndex` finds out whether the text still begins an index. -/
theorem Hashed.updateIndex (h : Hashed hasher length seed chars)
    (hindex : hasher.isArrayIndex = true) (c : UInt16) :
    Hashed ((hasher.addCharacter c).updateIndex c).2 length seed (chars ++ [c]) ∧
      ((hasher.addCharacter c).updateIndex c).1 =
        ((hasher.addCharacter c).updateIndex c).2.isArrayIndex := by
  obtain ⟨hvalue, hfirst⟩ := h.index hindex
  have hinit := h.isIndex.mp hindex
  have hhash : addCharacterCore hasher.rawRunningHash c =
      (chars ++ [c]).foldl addCharacterCore seed := by
    rw [List.foldl_append, ← h.hash]
    rfl
  have hstop : ∀ {hasher' : StringHasher}, hasher'.length = hasher.length →
      hasher'.rawRunningHash = addCharacterCore hasher.rawRunningHash c →
      hasher'.isArrayIndex = false → ¬ IndexPrefix length (chars ++ [c]) →
      Hashed hasher' length seed (chars ++ [c]) := by
    intro hasher' hlength hraw hfalse hno
    refine ⟨hlength.trans h.length_eq, hraw.trans hhash, iff_of_false ?_ hno, ?_⟩
    · rw [hfalse]
      exact Bool.false_ne_true
    · intro htrue
      cases hfalse.symm.trans htrue
  have hlast : c ∈ chars ++ [c] := List.mem_append_right _ List.mem_cons_self
  unfold StringHasher.updateIndex
  by_cases hdigit : isDigit c = true
  · obtain ⟨hlow, hhigh⟩ := isDigit_iff.mp hdigit
    have hnot : ¬ (c < 0x30 ∨ c > 0x39) := by
      rintro (hc | hc)
      · exact absurd hlow (UInt16.not_le.mpr hc)
      · exact absurd hhigh (UInt16.not_le.mpr hc)
    rw [if_neg hnot]
    dsimp only
    by_cases hzero : (hasher.addCharacter c).isFirstChar = true ∧ c = 0x30 ∧
        (hasher.addCharacter c).length > 1
    · rw [if_pos hzero]
      refine ⟨hstop rfl rfl rfl fun hindex' => ?_, rfl⟩
      have hempty : chars = [] := hfirst.mp hzero.1
      have hlength : 1 < length := h.length_eq ▸ hzero.2.2
      refine hindex'.noZero hlength ?_
      rw [hempty, hzero.2.1]
      rfl
    · rw [if_neg hzero]
      have hd : digitValue c < 10 := digitValue_lt hdigit
      have hguard := overflow_iff (value chars) hd
      rw [← shiftRight_eq _ hd, ← hvalue] at hguard
      by_cases hover : (hasher.addCharacter c).arrayIndex > 429496729 - ((c.toNat - 0x30 + 2) >>> 3)
      · rw [if_pos hover]
        refine ⟨hstop rfl rfl rfl fun hindex' => ?_, rfl⟩
        have hfits := hindex'.fits
        rw [value_concat, ← hvalue] at hfits
        exact hguard.mp hover hfits
      · rw [if_neg hover]
        have hfits : hasher.arrayIndex * 10 + digitValue c < 2 ^ 32 :=
          not_not.mp fun h => hover (hguard.mpr (hvalue ▸ h))
        rw [hvalue] at hfits
        have hindex' : IndexPrefix length (chars ++ [c]) := by
          refine ⟨hinit.pos, hinit.short, ?_, fun hlength hhead => ?_, ?_⟩
          · intro d hd
            rcases List.mem_append.mp hd with hd | hd
            · exact hinit.digits d hd
            · rw [List.mem_singleton.mp hd]
              exact hdigit
          · cases hchars : chars with
            | nil =>
                rw [hchars] at hhead
                exact hzero ⟨hfirst.mpr hchars, Option.some.inj hhead, h.length_eq ▸ hlength⟩
            | cons first rest =>
                rw [hchars] at hhead
                exact hinit.noZero hlength (hchars ▸ hhead)
          · rw [value_concat]
            exact hfits
        refine ⟨⟨h.length_eq, hhash, iff_of_true hindex hindex', fun _ => ⟨?_, ?_⟩⟩, hindex.symm⟩
        · rw [value_concat, ← hvalue]
          rfl
        · exact iff_of_false Bool.false_ne_true (List.append_ne_nil_of_right_ne_nil _ (by simp))
  · have hout : c < 0x30 ∨ c > 0x39 := by
      by_contra hin
      obtain ⟨hlow, hhigh⟩ := not_or.mp hin
      exact hdigit (isDigit_iff.mpr ⟨UInt16.not_lt.mp hlow, UInt16.not_lt.mp hhigh⟩)
    rw [if_pos hout]
    exact ⟨hstop rfl rfl rfl fun hindex' => hdigit (hindex'.digits c hlast), rfl⟩

/-- A text that begins no index only has its hash computed. -/
theorem Hashed.foldl (h : Hashed hasher length seed chars) (hindex : hasher.isArrayIndex = false)
    (more : List UInt16) :
    Hashed (more.foldl addCharacter hasher) length seed (chars ++ more) := by
  induction more generalizing hasher chars with
  | nil => rwa [List.append_nil]
  | cons c more ih =>
      have hnext : Hashed (hasher.addCharacter c) length seed (chars ++ [c]) := by
        refine ⟨h.length_eq, ?_, ?_, fun htrue => ?_⟩
        · rw [List.foldl_append, ← h.hash]
          rfl
        · refine iff_of_false ?_ fun hindex' => ?_
          · show ¬ hasher.isArrayIndex = true
            rw [hindex]
            exact Bool.false_ne_true
          · cases hindex.symm.trans (h.isIndex.mpr hindex'.init)
        · cases hindex.symm.trans htrue
      rw [List.append_cons]
      exact ih hnext hindex

theorem Hashed.addIndexCharacters (h : Hashed hasher length seed chars)
    (hindex : hasher.isArrayIndex = true) (more : List UInt16) :
    Hashed (addIndexCharacters more hasher) length seed (chars ++ more) := by
  induction more generalizing hasher chars with
  | nil => rwa [List.append_nil]
  | cons c more ih =>
      obtain ⟨hnext, hstill⟩ := h.updateIndex hindex c
      unfold StringHasher.addIndexCharacters
      rw [List.append_cons]
      cases hupdate : (hasher.addCharacter c).updateIndex c with
      | mk still hasher' =>
          rw [hupdate] at hnext hstill
          cases still with
          | true => exact ih hnext hstill.symm
          | false => exact hnext.foldl hstill.symm more

/-- `AddCharacters` goes on where the characters before have left off. -/
theorem Hashed.addCharacters (h : Hashed hasher length seed chars) (more : List UInt16) :
    Hashed (hasher.addCharacters more) length seed (chars ++ more) := by
  unfold StringHasher.addCharacters
  cases hindex : hasher.isArrayIndex with
  | true => exact h.addIndexCharacters hindex more
  | false => exact h.foldl hindex more

/-- The hash field depends on the characters only. -/
theorem Hashed.getHashField_eq {hasher' : StringHasher} (h : Hashed hasher length seed chars)
    (h' : Hashed hasher' length seed chars) : hasher.getHashField = hasher'.getHashField := by
  have hsame : hasher.isArrayIndex = hasher'.isArrayIndex :=
    Bool.eq_iff_iff.mpr (h.isIndex.trans h'.isIndex.symm)
  unfold getHashField
  rw [h.length_eq, h'.length_eq, h.hash, h'.hash, ← hsame]
  cases hindex : hasher.isArrayIndex with
  | true => rw [(h.index hindex).1, (h'.index (hsame ▸ hindex)).1]
  | false => rfl

/-- The characters of a long string do not matter. -/
theorem getHashField_of_long (hlength : hasher.length = chars.length)
    (hlong : kMaxHashCalcLength < chars.length) (seed : UInt32) :
    hasher.getHashField = hashSequentialString chars seed := by
  have htrivial : (new chars.length seed).hasTrivialHash = true := decide_eq_true hlong
  unfold hashSequentialString
  dsimp only
  rw [if_pos htrivial]
  unfold StringHasher.getHashField
  rw [hlength, if_neg (Nat.not_le.mpr hlong)]
  exact (if_neg (Nat.not_le.mpr hlong)).symm

theorem Hashed.getHashField (h : Hashed hasher chars.length seed chars) :
    hasher.getHashField = hashSequentialString chars seed := by
  by_cases htrivial : (new chars.length seed).hasTrivialHash = true
  · exact getHashField_of_long h.length_eq (of_decide_eq_true htrivial) seed
  · unfold hashSequentialString
    dsimp only
    rw [if_neg htrivial]
    exact h.getHashField_eq ((hashed_new chars.length seed).addCharacters chars)

/-! ## However the string is stored -/

theorem hashLeaves_eq {string : Str} {op : ConsStringIteratorOp} {rest : List UInt16}
    (hwf : string.WellFormed) (hleaf : string.IsLeaf) (hpos : 0 < string.length)
    (hrests : op.Rests rest) (h : Hashed hasher length seed chars) {fuel : Nat}
    (hlength : length = chars.length + string.length + rest.length)
    (hfuel : (string.units ++ rest).length ≤ fuel) :
    ∃ hasher', hashLeaves length fuel string op hasher chars.length = some hasher' ∧
      Hashed hasher' length seed (chars ++ (string.units ++ rest)) := by
  induction fuel generalizing string op rest hasher chars with
  | zero =>
      rw [List.length_append, Str.length_units hwf] at hfuel
      omega
  | succ fuel ih =>
      obtain ⟨flat, hflat, hunits⟩ := Str.visit_eq hwf hleaf 0
      rw [List.drop_zero] at hunits
      have hflatLength : flat.length = string.length := by
        rw [← FlatChars.length_units, hunits, Str.length_units hwf]
      have hnext := h.addCharacters flat.units
      have hchars : chars.length + flat.length = (chars ++ flat.units).length := by
        rw [List.length_append, FlatChars.length_units]
      unfold hashLeaves
      rw [hflat, Option.bind_some]
      dsimp only
      by_cases hend : chars.length + flat.length = length
      · have hrest : rest = [] := List.eq_nil_of_length_eq_zero (by omega)
        rw [if_pos hend, hrest, List.append_nil, ← hunits]
        exact ⟨_, rfl, hnext⟩
      · rw [if_neg hend]
        rcases ConsStringIteratorOp.continueOperation_eq hrests with
          ⟨leaf, op', rest', heq, hwf', hleaf', hpos', rfl, hrests'⟩ | ⟨op', -, rfl, -⟩
        · rw [heq, hchars, ← hunits, ← List.append_assoc chars]
          rw [List.length_append, List.length_append, Str.length_units hwf,
            Str.length_units hwf'] at hfuel
          rw [List.length_append, Str.length_units hwf'] at hlength
          refine ih hwf' hleaf' hpos' hrests' hnext ?_ ?_
          · rw [← hchars]
            omega
          · rw [List.length_append, Str.length_units hwf']
            omega
        · rw [List.length_nil] at hlength
          omega

end

/-- `IteratingStringHasher::Hash` gives the field of the text. -/
theorem iteratingHash_eq {string : Str} (hwf : string.WellFormed) (seed : UInt32) :
    iteratingHash string seed = some (hashSequentialString string.units seed) := by
  have hlength := Str.length_units hwf
  have hnew : Hashed (new string.length seed) string.units.length seed [] := by
    rw [hlength]
    exact hashed_new string.length seed
  unfold iteratingHash
  dsimp only
  by_cases htrivial : (new string.length seed).hasTrivialHash = true
  · rw [if_pos htrivial, hashSequentialString, hlength]
    exact congrArg (fun hasher => some (getHashField hasher)) (if_pos htrivial).symm
  · rw [if_neg htrivial]
    cases string with
    | cons oneByte first second =>
        dsimp only
        have hpos : 0 < (Str.cons oneByte first second).length :=
          Nat.lt_of_lt_of_le hwf.2.2.firstLength (Nat.le_add_right _ _)
        rcases ConsStringIteratorOp.new.operate_eq ⟨oneByte, first, second⟩ hwf
          (Nat.zero_le _) with
          ⟨leaf, start, op', rest, heq, hleaf, hisLeaf, hstart, hlt, hunits, hrests⟩ |
          ⟨op', heq, hend, hrests⟩
        · obtain rfl := Nat.le_zero.mp hstart
          have hsplit : (Str.cons oneByte first second).units = leaf.units ++ rest := hunits
          have hsum := congrArg List.length hsplit
          rw [List.length_append, Str.length_units hleaf] at hsum
          obtain ⟨hasher', hloop, hhashed⟩ := hashLeaves_eq hleaf hisLeaf (hlt hpos) hrests hnew
            (by rw [hsum, List.length_nil, Nat.zero_add])
            (Nat.le_of_eq ((congrArg List.length hsplit).symm.trans hlength))
          rw [heq]
          dsimp only
          rw [hlength, List.length_nil] at hloop
          rw [hloop, Option.map_some]
          rw [List.nil_append, ← hsplit] at hhashed
          rw [hhashed.getHashField]
        · exact absurd hend (Nat.ne_of_lt hpos)
    | _ =>
        obtain ⟨chars, hchars, hunits⟩ := Str.visit_eq hwf trivial 0
        rw [List.drop_zero] at hunits
        dsimp only
        rw [hchars, Option.map_some, hunits]
        exact congrArg some (hnew.addCharacters _).getHashField

/-! ## Array indices -/

/-- The index below `2 ^ 32` whose numeral the text is. -/
def indexOf (units : List UInt16) : Option Nat :=
  if units = numeral (value units) ∧ value units < 2 ^ 32 then some (value units) else none

theorem indexPrefix_iff (units : List UInt16) : IndexPrefix units.length units ↔
    units = numeral (value units) ∧ value units < 2 ^ 32 := by
  constructor
  · intro h
    refine ⟨(Numeral.numeral_value (numeral_iff.mpr ⟨?_, h.digits, h.noZero⟩)).symm, h.fits⟩
    exact List.ne_nil_of_length_pos h.pos
  · rintro ⟨hnumeral, hfits⟩
    obtain ⟨hne, hdigits, hzero⟩ := numeral_iff.mp (eq_numeral_iff.mp hnumeral).1
    refine ⟨List.length_pos_of_ne_nil hne, ?_, hdigits, hzero, hfits⟩
    rw [hnumeral]
    exact (length_numeral_le_iff (by decide)).mpr (Nat.lt_trans hfits (by decide))

theorem or_and_self (x y : UInt32) : (x ||| y) &&& y = y := by
  apply UInt32.toBitVec_inj.mp
  refine BitVec.eq_of_getLsbD_eq fun i _ => ?_
  simp only [UInt32.toBitVec_and, UInt32.toBitVec_or, BitVec.getLsbD_and, BitVec.getLsbD_or]
  cases x.toBitVec.getLsbD i <;> cases y.toBitVec.getLsbD i <;> rfl

theorem or_and_mask {x y : UInt32} (hx : x.toNat % 4 = 0) (hy : y.toNat % 4 = 0) :
    (x ||| y) &&& kIsNotArrayIndexMask = 0 := by
  have hbit : ∀ n : Nat, n % 4 = 0 → n.testBit 1 = false := by
    intro n hn
    rw [Nat.testBit_eq_decide_div_mod_eq, decide_eq_false]
    omega
  apply UInt32.toNat_inj.mp
  rw [UInt32.toNat_and, UInt32.toNat_or]
  show (x.toNat ||| y.toNat) &&& 2 ^ 1 = 0
  rw [Nat.and_two_pow, Nat.testBit_or, hbit _ hx, hbit _ hy]
  rfl

theorem makeArrayIndexHash_and_mask (value length : Nat) :
    makeArrayIndexHash value length &&& kIsNotArrayIndexMask = 0 := by
  have hshift : ∀ (n : UInt32) (k : Nat), 2 ≤ k → k < 32 →
      (n <<< UInt32.ofNat k).toNat % 4 = 0 := by
    intro n k hk hk'
    rw [UInt32.toNat_shiftLeft, UInt32.toNat_ofNat_of_lt' (Nat.lt_trans hk' (by decide)),
      Nat.mod_eq_of_lt hk', Nat.shiftLeft_eq]
    obtain ⟨k, rfl⟩ := Nat.exists_eq_add_of_le hk
    rw [Nat.pow_add, ← Nat.mul_assoc, Nat.mul_right_comm]
    omega
  exact or_and_mask (hshift _ 2 (by decide) (by decide)) (hshift _ 26 (by decide) (by decide))

/-- The field tells whether the text is an index. -/
theorem hashField_and_mask (units : List UInt16) (seed : UInt32) :
    hashSequentialString units seed &&& kIsNotArrayIndexMask = 0 ↔
      IndexPrefix units.length units := by
  have hhashed := (hashed_new units.length seed).addCharacters units
  have hmask : ∀ x : UInt32, ¬ (x ||| kIsNotArrayIndexMask) &&& kIsNotArrayIndexMask = 0 := by
    intro x
    rw [or_and_self]
    decide
  rw [← hhashed.getHashField]
  unfold getHashField
  rw [hhashed.length_eq]
  split_ifs with hshort hindex
  · exact iff_of_true (makeArrayIndexHash_and_mask _ _) (hhashed.isIndex.mp hindex)
  · exact iff_of_false (hmask _) fun h => hindex (hhashed.isIndex.mpr h)
  · exact iff_of_false (hmask _) fun h => hshort (Nat.le_trans h.short (by decide))

/-- A short index is kept in the field. -/
theorem cachedIndex_eq {value length : Nat} (hvalue : value < 10 ^ 7) (hlength : length ≤ 7) :
    ((kArrayIndexHashMask &&& makeArrayIndexHash value length) >>> kHashShift).toNat = value := by
  have hv : value < UInt32.size := Nat.lt_trans hvalue (by decide)
  have hl : length < UInt32.size := Nat.lt_of_le_of_lt hlength (by decide)
  have hfield : (makeArrayIndexHash value length).toNat = 2 ^ 26 * length + 4 * value := by
    rw [makeArrayIndexHash, UInt32.toNat_or, UInt32.toNat_shiftLeft, UInt32.toNat_shiftLeft,
      UInt32.toNat_ofNat_of_lt' hv, UInt32.toNat_ofNat_of_lt' hl]
    show (value <<< 2 % 2 ^ 32 ||| length <<< 26 % 2 ^ 32) = _
    rw [Nat.shiftLeft_eq, Nat.shiftLeft_eq, Nat.mod_eq_of_lt (by omega),
      Nat.mod_eq_of_lt (by omega), Nat.or_comm, Nat.mul_comm length,
      ← Nat.two_pow_add_eq_or_of_lt (by omega)]
    omega
  rw [UInt32.toNat_shiftRight, UInt32.toNat_and, hfield]
  show ((2 ^ 26 - 1) &&& (2 ^ 26 * length + 4 * value)) >>> 2 = value
  rw [Nat.and_comm, Nat.and_two_pow_sub_one_eq_mod, Nat.shiftRight_eq_div_pow]
  omega

theorem indexOf_eq_some_iff {units : List UInt16} {n : Nat} :
    indexOf units = some n ↔ units = numeral n ∧ n < 2 ^ 32 := by
  unfold indexOf
  constructor
  · intro h
    split_ifs at h with hindex
    cases h
    exact hindex
  · rintro ⟨rfl, hfits⟩
    rw [value_numeral, if_pos ⟨rfl, hfits⟩]

theorem digit_or {c : UInt16} : isDigit c = true ∨ (c < 0x30 ∨ c > 0x39) := by
  by_cases hlow : c < 0x30
  · exact .inr (.inl hlow)
  · by_cases hhigh : c > 0x39
    · exact .inr (.inr hhigh)
    · exact .inl (isDigit_iff.mpr ⟨UInt16.not_lt.mp hlow, UInt16.not_lt.mp hhigh⟩)

theorem not_out_of_isDigit {c : UInt16} (h : isDigit c = true) : ¬ (c < 0x30 ∨ c > 0x39) := by
  obtain ⟨hlow, hhigh⟩ := isDigit_iff.mp h
  rintro (hc | hc)
  · exact absurd hlow (UInt16.not_le.mpr hc)
  · exact absurd hhigh (UInt16.not_le.mpr hc)

/-- The loop reads digits as long as the number fits into 32 bits. -/
theorem computeIndexLoop_eq {units : List UInt16} {stream : StringCharacterStream}
    (h : stream.Streams units) {result fuel : Nat} (hresult : result < 2 ^ 32)
    (hfuel : units.length < fuel) :
    ∃ index, computeIndexLoop fuel result stream = some index ∧
      ∀ n, index = some n ↔ Digits units ∧ valueFrom result units = n ∧ n < 2 ^ 32 := by
  induction units generalizing stream result fuel with
  | nil =>
      obtain ⟨fuel, rfl⟩ : ∃ k, fuel = k + 1 := ⟨fuel - 1, by omega⟩
      obtain ⟨stream', hmore, -, -⟩ := h.hasMore_eq
      rw [computeIndexLoop, hmore]
      refine ⟨some result, rfl, fun n => ?_⟩
      constructor
      · rintro ⟨⟩
        exact ⟨fun _ h => absurd h List.not_mem_nil, rfl, hresult⟩
      · rintro ⟨-, rfl, -⟩
        rfl
  | cons c units ih =>
      obtain ⟨fuel, rfl⟩ : ∃ k, fuel = k + 1 := ⟨fuel - 1, by omega⟩
      obtain ⟨stream', hmore, hstreams, -⟩ := h.hasMore_eq
      obtain ⟨stream'', hnext, hstreams'⟩ := hstreams.getNext_eq
      rw [computeIndexLoop, hmore, Option.bind_some, decide_eq_true (List.cons_ne_nil c units)]
      dsimp only
      rw [if_pos rfl, hnext, Option.bind_some]
      dsimp only
      rcases digit_or (c := c) with hdigit | hout
      · rw [if_neg (not_out_of_isDigit hdigit)]
        have hguard := overflow_iff result (digitValue_lt hdigit)
        by_cases hover : result > 429496729 - (if digitValue c > 5 then 1 else 0)
        · refine ⟨none, if_pos hover, fun n => iff_of_false nofun ?_⟩
          rintro ⟨-, rfl, hfits⟩
          have hle := le_valueFrom units (result * 10 + digitValue c)
          exact hguard.mp hover (Nat.lt_of_le_of_lt hle hfits)
        · have hfits : result * 10 + digitValue c < 2 ^ 32 :=
            not_not.mp fun h => hover (hguard.mpr h)
          obtain ⟨index, hloop, hindex⟩ := ih hstreams' hfits (Nat.lt_of_succ_lt_succ hfuel)
          refine ⟨index, (if_neg hover).trans hloop, fun n => (hindex n).trans ?_⟩
          exact ⟨fun h => ⟨h.1.cons hdigit, h.2⟩, fun h => ⟨h.1.tail, h.2⟩⟩
      · rw [if_pos hout]
        refine ⟨none, rfl, fun n => iff_of_false nofun ?_⟩
        rintro ⟨hdigits, -, -⟩
        exact not_out_of_isDigit (hdigits c List.mem_cons_self) hout

/-- `ComputeArrayIndex` reads a numeral from the stream. -/
theorem computeArrayIndex_eq {string : Str} (hwf : string.WellFormed) :
    computeArrayIndex string = some (indexOf string.units) := by
  have hlength := Str.length_units hwf
  have hnone : (∀ n, ¬ (string.units = numeral n ∧ n < 2 ^ 32)) → indexOf string.units = none := by
    intro h
    refine Option.eq_none_iff_forall_ne_some.mpr fun n hn => ?_
    exact h n (indexOf_eq_some_iff.mp hn)
  unfold computeArrayIndex
  by_cases hbounds : string.length = 0 ∨ string.length > kMaxArrayIndexSize
  · rw [if_pos hbounds, hnone]
    rintro n ⟨hunits, hfits⟩
    have hinit : IndexPrefix string.units.length string.units := by
      rw [indexPrefix_iff, hunits, value_numeral]
      exact ⟨rfl, hfits⟩
    have hpos := hinit.pos
    have hshort := hinit.short
    omega
  · rw [if_neg hbounds]
    have hstreams := StringCharacterStream.streams_reset hwf .new (Nat.zero_le _)
    rw [List.drop_zero] at hstreams
    cases hunits : string.units with
    | nil =>
        rw [hunits, List.length_nil] at hlength
        omega
    | cons c units =>
        rw [hunits] at hstreams hlength hnone
        rw [List.length_cons] at hlength
        obtain ⟨stream', hnext, hstreams'⟩ := hstreams.getNext_eq
        rw [hnext, Option.bind_some]
        dsimp only
        by_cases hzero : c = 0x30
        · subst hzero
          rw [if_pos rfl]
          by_cases hone : string.length = 1
          · obtain rfl : units = [] := List.eq_nil_of_length_eq_zero (by omega)
            rw [if_pos hone]
            rfl
          · rw [if_neg hone, hnone]
            rintro n ⟨hnumeral, -⟩
            refine (numeral_iff.mp (eq_numeral_iff.mp hnumeral).1).2.2 ?_ rfl
            rw [List.length_cons]
            omega
        · rw [if_neg hzero]
          rcases digit_or (c := c) with hdigit | hout
          · rw [if_neg (not_out_of_isDigit hdigit)]
            have hlt : digitValue c < 2 ^ 32 := Nat.lt_trans (digitValue_lt hdigit) (by decide)
            have hfuel : units.length < string.length := by omega
            obtain ⟨index, hloop, hindex⟩ := computeIndexLoop_eq hstreams' hlt hfuel
            refine hloop.trans (congrArg some (Option.ext fun n => ?_))
            rw [hindex n, indexOf_eq_some_iff, eq_numeral_iff]
            have hvalue : value (c :: units) = valueFrom (digitValue c) units := by
              show valueFrom (0 * 10 + digitValue c) units = _
              rw [Nat.zero_mul, Nat.zero_add]
            rw [hvalue]
            constructor
            · rintro ⟨hdigits, hn, hfits⟩
              exact ⟨⟨.digits hdigit hzero hdigits, hn⟩, hfits⟩
            · rintro ⟨⟨hnumeral, hn⟩, hfits⟩
              exact ⟨hnumeral.isDigits.tail, hn, hfits⟩
          · rw [if_pos hout, hnone]
            rintro n ⟨hnumeral, -⟩
            have hdigits := (eq_numeral_iff.mp hnumeral).1.isDigits
            exact not_out_of_isDigit (hdigits c List.mem_cons_self) hout

/-- The field of a short string holds its index. -/
theorem slowAsArrayIndex_eq {string : Str} (hwf : string.WellFormed) (seed : UInt32) :
    slowAsArrayIndex seed string = some (indexOf string.units) := by
  unfold slowAsArrayIndex
  split_ifs with hshort
  · rw [iteratingHash_eq hwf, Option.map_some]
    have hlength := Str.length_units hwf
    have hmask := hashField_and_mask string.units seed
    split_ifs with hfield
    · rw [indexOf, if_neg]
      exact fun hindex => hfield (hmask.mpr ((indexPrefix_iff _).mpr hindex))
    · have hinit := hmask.mp (not_not.mp hfield)
      have hindex := (indexPrefix_iff _).mp hinit
      have hhashed := (hashed_new string.units.length seed).addCharacters string.units
      have hvalue : value string.units < 10 ^ 7 := by
        rw [← length_numeral_le_iff (by decide), ← hindex.1, hlength]
        exact hshort
      have hisIndex := hhashed.isIndex.mpr hinit
      rw [← hhashed.getHashField, getHashField, hhashed.length_eq,
        if_pos (Nat.le_trans hinit.short (by decide)), if_pos hisIndex,
        (hhashed.index hisIndex).1]
      rw [List.nil_append, cachedIndex_eq hvalue (by rw [hlength]; exact hshort), indexOf,
        if_pos hindex]
  · exact computeArrayIndex_eq hwf

end StringHasher

open StringHasher

/-- A string is an array index if it is the numeral of a number of 32 bits, however it is
stored, whether its hash has been computed, and whether the index is read from its hash
field or from its characters. -/
theorem asArrayIndex_eq {string : Str} (hwf : string.WellFormed) (seed : UInt32)
    (computed : Bool) : asArrayIndex seed computed string = some (indexOf string.units) := by
  unfold asArrayIndex
  split_ifs
  · rw [iteratingHash_eq hwf, Option.bind_some]
    split_ifs with hfield
    · have hmask := hashField_and_mask string.units seed
      rw [indexOf, if_neg]
      exact fun hindex => hfield (hmask.mpr ((indexPrefix_iff _).mpr hindex))
    · exact slowAsArrayIndex_eq hwf seed
  · exact slowAsArrayIndex_eq hwf seed

theorem asArrayIndex_short :
    asArrayIndex 7 true (.seq (.oneByte [0x34, 0x32])) = some (indexOf [0x34, 0x32]) :=
  @asArrayIndex_eq (.seq (.oneByte [0x34, 0x32])) trivial 7 true

end WeexBridge.V8
