/-
# Equality of strings

Two strings of any representation are compared leaf by leaf, each read by an iterator of its
own, and leaf with leaf block by block.

    compareRawStringContents    leaves of one width
    StringComparator            two iterators, in step
    slowEquals                  the checks before the comparison
-/
import WeexBridge.V8.Flatten
import WeexBridge.V8.StringHasher

namespace WeexBridge.V8

/-! ## Characters in memory -/

namespace FlatChars

/-- `sizeof(Char)` -/
def charSize : FlatChars → Nat
  | oneByte _ => 1
  | twoByte _ => 2

/-- The bytes of a character, the low one first. -/
def charBytes (c : UInt16) : List UInt8 := [c.toUInt8, (c >>> 8).toUInt8]

def bytes : FlatChars → List UInt8
  | oneByte chars => chars
  | twoByte chars => chars.flatMap charBytes

/-- The word at a character, as its bytes. -/
def word (wordSize : Nat) (chars : FlatChars) (i : Nat) : List UInt8 :=
  (chars.bytes.drop (i * chars.charSize)).take wordSize

def isOneByte : FlatChars → Bool
  | oneByte _ => true
  | twoByte _ => false

end FlatChars

/-- The loop of `CompareRawStringContents` over blocks; no result where two differ. -/
def compareBlocks (wordSize : Nat) (a b : FlatChars) (length : Nat) : Nat → Nat → Option Nat
  | 0, i => some i
  | fuel + 1, i =>
      if i + wordSize / a.charSize ≤ length then
        if a.word wordSize i ≠ b.word wordSize i then none
        else compareBlocks wordSize a b length fuel (i + wordSize / a.charSize)
      else some i

/-- The loop of `CompareRawStringContents`, and of `RawStringComparator`, over characters. -/
def compareCharacters (a b : FlatChars) : Nat → Nat → Bool
  | 0, _ => true
  | remaining + 1, i =>
      if a.get i ≠ b.get i then false else compareCharacters a b remaining (i + 1)

/-- `CompareRawStringContents`, where words may be read at these addresses or not. -/
def compareRawStringContents (aligned : Bool) (a b : FlatChars) (length : Nat) : Bool :=
  match if aligned then compareBlocks 4 a b length length 0 else some 0 with
  | some i => compareCharacters a b (length - i) i
  | none => false

/-- `RawStringComparator::compare` -/
def rawStringCompare (aligned : Bool) (a b : FlatChars) (length : Nat) : Bool :=
  if a.isOneByte = b.isOneByte then compareRawStringContents aligned a b length
  else compareCharacters a b length 0

/-! ## `StringComparator` -/

/-- `StringComparator::State`: what lies from `buffer8_` or `buffer16_` on. -/
structure ComparatorState where
  op : ConsStringIteratorOp
  buffer : FlatChars

namespace ComparatorState

/-- `Init` -/
def init (op : ConsStringIteratorOp) (string : Str) : Option ComparatorState :=
  let op := op.reset
  match string with
  | .cons oneByte first second =>
      match op.operate ⟨oneByte, first, second⟩ 0 with
      | (some (leaf, start), op) => (leaf.visit start).map (⟨op, ·⟩)
      | (none, op) => some ⟨op, .oneByte []⟩
  | string => (string.visit 0).map (⟨op, ·⟩)

/-- `Advance`.  No result where a null string is visited. -/
def advance (state : ComparatorState) (consumed : Nat) : Option ComparatorState :=
  if state.buffer.length ≠ consumed then
    some { state with
      buffer := state.buffer.window consumed (state.buffer.length - consumed) }
  else match state.op.continueOperation with
    | some (some next, op) => (next.visit 0).map (⟨op, ·⟩)
    | _ => none

end ComparatorState

/-- The loop of `StringComparator::Equals`.  `aligned` is a question to the addresses of two
buffers. -/
def comparatorLoop (aligned : FlatChars → FlatChars → Bool) :
    Nat → Nat → ComparatorState → ComparatorState → Option Bool
  | 0, _, _, _ => none
  | fuel + 1, length, state₁, state₂ =>
      let toCheck := min state₁.buffer.length state₂.buffer.length
      if !rawStringCompare (aligned state₁.buffer state₂.buffer) state₁.buffer state₂.buffer
          toCheck then
        some false
      else if length - toCheck = 0 then some true
      else (state₁.advance toCheck).bind fun state₁ => (state₂.advance toCheck).bind fun state₂ =>
        comparatorLoop aligned fuel (length - toCheck) state₁ state₂

/-- `StringComparator::Equals` -/
def comparatorEquals (aligned : FlatChars → FlatChars → Bool) (op₁ op₂ : ConsStringIteratorOp)
    (length : Nat) (string₁ string₂ : Str) : Option Bool :=
  (ComparatorState.init op₁ string₁).bind fun state₁ =>
    (ComparatorState.init op₂ string₂).bind fun state₂ =>
      comparatorLoop aligned length length state₁ state₂

/-! ## `String::SlowEquals` -/

/-- What the comparison finds in the heap. -/
structure EqualsPlatform where
  fill : Nat → UInt16
  aligned : FlatChars → FlatChars → Bool
  op₁ : ConsStringIteratorOp
  op₂ : ConsStringIteratorOp

/-- `String::SlowEquals`, with the hash codes that have been computed, and whether there is
memory for a flat copy of each. -/
def slowEquals (platform : EqualsPlatform) (hash₁ hash₂ : Option UInt32)
    (allocated₁ allocated₂ : Bool) (string₁ string₂ : Str) : Option Bool :=
  let len := string₁.length
  if len ≠ string₂.length then some false
  else if len = 0 then some true
  else if hash₁.isSome ∧ hash₂.isSome ∧ hash₁ ≠ hash₂ then some false
  else if string₁.get 0 ≠ string₂.get 0 then some false
  else (string₁.tryFlattenGetString platform.fill allocated₁).bind fun lhs =>
    (string₂.tryFlattenGetString platform.fill allocated₂).bind fun rhs =>
      match lhs, rhs with
      | .seq (.oneByte str₁), .seq (.oneByte str₂) =>
          let str₁ := .oneByte str₁
          let str₂ := .oneByte str₂
          some (compareRawStringContents (platform.aligned str₁ str₂) str₁ str₂ len)
      | lhs, rhs => comparatorEquals platform.aligned platform.op₁ platform.op₂ len lhs rhs

/-! ## Comparison with characters in memory -/

structure Host where
  canReadUnaligned : Bool
  is64Bit : Bool

def Host.pointerSize (host : Host) : Nat := if host.is64Bit then 8 else 4

/-- The first loop of `CompareCharsUnsigned`: where it stops. -/
def skipBlocks (wordSize : Nat) (lhs rhs : FlatChars) (chars : Nat) : Nat → Nat → Nat
  | 0, i => i
  | fuel + 1, i =>
      if i + wordSize / lhs.charSize ≤ chars then
        if lhs.word wordSize i ≠ rhs.word wordSize i then i
        else skipBlocks wordSize lhs rhs chars fuel (i + wordSize / lhs.charSize)
      else i

/-- The second loop of `CompareCharsUnsigned`. -/
def firstDifference (lhs rhs : FlatChars) : Nat → Nat → Int
  | 0, _ => 0
  | remaining + 1, i =>
      let r : Int := (lhs.get i).toNat - (rhs.get i).toNat
      if r ≠ 0 then r else firstDifference lhs rhs remaining (i + 1)

/-- `CompareChars` -/
def compareChars (host : Host) (lhs rhs : FlatChars) (chars : Nat) : Int :=
  let i :=
    if host.canReadUnaligned ∧ lhs.charSize = rhs.charSize then
      skipBlocks host.pointerSize lhs rhs chars chars 0
    else 0
  firstDifference lhs rhs (chars - i) i

/-- `String::GetFlatContent` -/
def Str.getFlatContent : Str → Option FlatChars
  | .cons _ first second => if second.length ≠ 0 then none else first.visit 0
  | string => string.visit 0

/-- The loop over `Get`. -/
def compareGet (string : Str) (str : FlatChars) : Nat → Nat → Bool
  | 0, _ => true
  | remaining + 1, i =>
      if string.get i ≠ str.get i then false else compareGet string str remaining (i + 1)

/-- `IsOneByteEqualTo` and `IsTwoByteEqualTo`, by the width of the characters. -/
def isFlatEqualTo (host : Host) (string : Str) (str : FlatChars) : Bool :=
  let slen := string.length
  if str.length ≠ slen then false
  else match string.getFlatContent with
    | some content =>
        if content.isOneByte = str.isOneByte then compareChars host content str slen = 0
        else compareGet string str slen 0
    | none => compareGet string str slen 0

/-- `String::IsOneByteEqualTo` -/
def isOneByteEqualTo (host : Host) (string : Str) (str : List UInt8) : Bool :=
  isFlatEqualTo host string (.oneByte str)

/-- `String::IsTwoByteEqualTo` -/
def isTwoByteEqualTo (host : Host) (string : Str) (str : List UInt16) : Bool :=
  isFlatEqualTo host string (.twoByte str)

/-! ## Leaf with leaf -/

namespace FlatChars

theorem charBytes_injective {c d : UInt16} (h : charBytes c = charBytes d) : c = d := by
  have hlow : c.toUInt8 = d.toUInt8 := (List.cons.inj h).1
  have hhigh : (c >>> 8).toUInt8 = (d >>> 8).toUInt8 := (List.cons.inj (List.cons.inj h).2).1
  have hlow' := congrArg UInt8.toNat hlow
  have hhigh' := congrArg UInt8.toNat hhigh
  rw [UInt16.toNat_toUInt8, UInt16.toNat_toUInt8] at hlow' hhigh'
  rw [UInt16.toNat_shiftRight, UInt16.toNat_shiftRight] at hhigh'
  have hc := c.toNat_lt
  have hd := d.toNat_lt
  have hshift : (8 : UInt16).toNat % 16 = 8 := rfl
  rw [hshift, Nat.shiftRight_eq_div_pow, Nat.shiftRight_eq_div_pow] at hhigh'
  apply UInt16.toNat_inj.mp
  omega

theorem drop_flatMap_charBytes (chars : List UInt16) (i : Nat) :
    (chars.flatMap charBytes).drop (i * 2) = (chars.drop i).flatMap charBytes := by
  induction chars generalizing i with
  | nil => simp
  | cons c chars ih =>
      cases i with
      | zero => rfl
      | succ i =>
          rw [Nat.succ_mul, List.flatMap_cons, List.drop_succ_cons, ← ih i]
          rfl

theorem take_flatMap_charBytes (chars : List UInt16) (i : Nat) :
    (chars.flatMap charBytes).take (i * 2) = (chars.take i).flatMap charBytes := by
  induction chars generalizing i with
  | nil => simp
  | cons c chars ih =>
      cases i with
      | zero => rfl
      | succ i =>
          rw [Nat.succ_mul, List.flatMap_cons, List.take_succ_cons, List.flatMap_cons, ← ih i]
          rfl

theorem flatMap_charBytes_injective {chars chars' : List UInt16}
    (h : chars.flatMap charBytes = chars'.flatMap charBytes) : chars = chars' := by
  induction chars generalizing chars' with
  | nil =>
      cases chars' with
      | nil => rfl
      | cons => cases h
  | cons c chars ih =>
      cases chars' with
      | nil => cases h
      | cons d chars' =>
          obtain ⟨hc, hrest⟩ := List.append_inj h rfl
          rw [charBytes_injective hc, ih hrest]

variable {a b : FlatChars} {i : Nat}

/-- Two words agree if the characters in them do. -/
theorem word_eq_iff {wordSize : Nat} (hword : 2 ∣ wordSize) (hkind : a.isOneByte = b.isOneByte) :
    a.word wordSize i = b.word wordSize i ↔
      (a.units.drop i).take (wordSize / a.charSize) =
        (b.units.drop i).take (wordSize / a.charSize) := by
  unfold word
  cases a with
  | oneByte chars =>
      cases b with
      | oneByte chars' =>
          have hinj : Function.Injective (List.map UInt8.toUInt16) :=
            List.map_injective_iff.mpr fun c d h => UInt8.toNat_inj.mp (by
              simpa using congrArg UInt16.toNat h)
          dsimp only [bytes, charSize, units]
          rw [Nat.mul_one, Nat.div_one, ← List.map_drop, ← List.map_drop, ← List.map_take,
            ← List.map_take, hinj.eq_iff]
      | twoByte => cases hkind
  | twoByte chars =>
      cases b with
      | oneByte => cases hkind
      | twoByte chars' =>
          obtain ⟨half, rfl⟩ := hword
          dsimp only [bytes, charSize, units]
          rw [Nat.mul_div_cancel_left half (by decide), Nat.mul_comm 2 half,
            drop_flatMap_charBytes, drop_flatMap_charBytes, take_flatMap_charBytes,
            take_flatMap_charBytes]
          exact ⟨flatMap_charBytes_injective, congrArg _⟩

end FlatChars

section
variable {a b : FlatChars} {length : Nat}

/-- What two texts share up to an index they share up to every index before. -/
theorem take_eq_of_le {α : Type} {xs ys : List α} {i j : Nat} (h : xs.take j = ys.take j)
    (hle : i ≤ j) : xs.take i = ys.take i := by
  have hcut := congrArg (List.take i) h
  rwa [List.take_take, List.take_take, Nat.min_eq_left hle] at hcut

/-- Blocks that agree keep what has been compared equal. -/
theorem compareBlocks_eq {wordSize : Nat} (hword : 2 ∣ wordSize)
    (hkind : a.isOneByte = b.isOneByte) {fuel i : Nat}
    (hsame : a.units.take i = b.units.take i) (hle : i ≤ length) :
    match compareBlocks wordSize a b length fuel i with
    | some j => a.units.take j = b.units.take j ∧ j ≤ length
    | none => a.units.take length ≠ b.units.take length := by
  induction fuel generalizing i with
  | zero => exact ⟨hsame, hle⟩
  | succ fuel ih =>
      unfold compareBlocks
      split_ifs with hblock hdiffer
      · intro hall
        refine hdiffer ((FlatChars.word_eq_iff hword hkind).mpr ?_)
        have hcut := congrArg (List.drop i) (take_eq_of_le hall hblock)
        rwa [List.drop_take, List.drop_take, Nat.add_sub_cancel_left] at hcut
      · refine ih ?_ hblock
        rw [List.take_add, List.take_add, hsame,
          (FlatChars.word_eq_iff hword hkind).mp (not_not.mp hdiffer)]
      · exact ⟨hsame, hle⟩

theorem take_succ_get {chars : FlatChars} {i : Nat} (hlt : i < chars.length) :
    chars.units.take (i + 1) = chars.units.take i ++ [chars.get i] := by
  have hlt' : i < chars.units.length := by rwa [FlatChars.length_units]
  rw [List.take_add_one, List.getElem?_eq_getElem hlt', FlatChars.get,
    List.getD_eq_getElem _ _ hlt']
  rfl

theorem compareCharacters_eq {remaining i : Nat} (ha : i + remaining ≤ a.length)
    (hb : i + remaining ≤ b.length) (hsame : a.units.take i = b.units.take i) :
    compareCharacters a b remaining i =
      decide (a.units.take (i + remaining) = b.units.take (i + remaining)) := by
  induction remaining generalizing i with
  | zero => exact (decide_eq_true hsame).symm
  | succ remaining ih =>
      have hnext : a.units.take (i + 1) = a.units.take i ++ [a.get i] := take_succ_get (by omega)
      have hnext' : b.units.take (i + 1) = b.units.take i ++ [b.get i] :=
        take_succ_get (by omega)
      unfold compareCharacters
      split_ifs with hdiffer
      · refine (decide_eq_false fun hall => hdiffer ?_).symm
        have hcut := take_eq_of_le (i := i + 1) hall (by omega)
        rw [hnext, hnext', hsame] at hcut
        exact (List.cons.inj (List.append_cancel_left hcut)).1
      · rw [ih (by omega) (by omega) (by rw [hnext, hnext', hsame, not_not.mp hdiffer]),
          Nat.add_assoc, Nat.add_comm 1]

theorem compareRawStringContents_eq (aligned : Bool) (hkind : a.isOneByte = b.isOneByte)
    (ha : length ≤ a.length) (hb : length ≤ b.length) :
    compareRawStringContents aligned a b length =
      decide (a.units.take length = b.units.take length) := by
  have hrest : ∀ i ≤ length, a.units.take i = b.units.take i →
      compareCharacters a b (length - i) i =
        decide (a.units.take length = b.units.take length) := by
    intro i hle hsame
    rw [compareCharacters_eq (by omega) (by omega) hsame, Nat.add_sub_of_le hle]
  unfold compareRawStringContents
  cases aligned with
  | false => exact hrest 0 (Nat.zero_le _) rfl
  | true =>
      have hword : 2 ∣ 4 := by decide
      have hblocks := @compareBlocks_eq a b length 4 hword hkind length 0 rfl (Nat.zero_le _)
      rw [if_pos rfl]
      cases hresult : compareBlocks 4 a b length length 0 with
      | some i =>
          rw [hresult] at hblocks
          exact hrest i hblocks.2 hblocks.1
      | none =>
          rw [hresult] at hblocks
          exact (decide_eq_false hblocks).symm

theorem compareRawStringContents_all (aligned : Bool) (hkind : a.isOneByte = b.isOneByte)
    (ha : a.length = length) (hb : b.length = length) :
    compareRawStringContents aligned a b length = decide (a.units = b.units) := by
  rw [compareRawStringContents_eq aligned hkind (Nat.le_of_eq ha.symm) (Nat.le_of_eq hb.symm),
    List.take_of_length_le, List.take_of_length_le]
  · rw [FlatChars.length_units, hb]
  · rw [FlatChars.length_units, ha]

/-- Leaves of any two widths are compared. -/
theorem rawStringCompare_eq (aligned : Bool) (ha : length ≤ a.length) (hb : length ≤ b.length) :
    rawStringCompare aligned a b length =
      decide (a.units.take length = b.units.take length) := by
  unfold rawStringCompare
  split_ifs with hkind
  · exact compareRawStringContents_eq aligned hkind ha hb
  · have hall := @compareCharacters_eq a b length 0 (by omega) (by omega) rfl
    rwa [Nat.zero_add] at hall

end

/-! ## Two iterators -/

namespace ComparatorState

/-- The characters that a state has still to give; the buffer is empty at the end only. -/
structure Holds (state : ComparatorState) (units : List UInt16) : Prop where
  rests : ∃ rest, state.op.Rests rest ∧ units = state.buffer.units ++ rest
  buffer : units ≠ [] → 0 < state.buffer.length

section
variable {state : ComparatorState} {units : List UInt16}

theorem holds_visit {leaf : Str} {op : ConsStringIteratorOp} {rest : List UInt16} {start : Nat}
    (hwf : leaf.WellFormed) (hleaf : leaf.IsLeaf) (hrests : op.Rests rest)
    (hstart : leaf.units.drop start ++ rest ≠ [] → start < leaf.length) :
    ∃ state, (leaf.visit start).map (ComparatorState.mk op) = some state ∧
      Holds state (leaf.units.drop start ++ rest) := by
  obtain ⟨chars, hchars, hunits⟩ := Str.visit_eq hwf hleaf start
  rw [hchars]
  refine ⟨⟨op, chars⟩, rfl, ⟨rest, hrests, by rw [hunits]⟩, fun hne => ?_⟩
  have hlt := hstart hne
  rw [← Str.length_units hwf] at hlt
  show 0 < chars.length
  rw [← FlatChars.length_units, hunits, List.length_drop]
  omega

theorem init_eq {string : Str} (hwf : string.WellFormed) (op : ConsStringIteratorOp) :
    ∃ state, init op string = some state ∧ Holds state string.units := by
  have hlength := Str.length_units hwf
  have hleaf : string.IsLeaf →
      ∃ state, (string.visit 0).map (ComparatorState.mk op.reset) = some state ∧
        Holds state string.units := by
    intro hleaf
    have hvisit := @holds_visit string op.reset [] 0 hwf hleaf op.rests_reset fun hne => by
      rw [List.append_nil, List.drop_zero] at hne
      rw [← hlength]
      exact List.length_pos_of_ne_nil hne
    rwa [List.append_nil, List.drop_zero] at hvisit
  unfold init
  cases string with
  | cons oneByte first second =>
      dsimp only
      rcases op.reset.operate_eq ⟨oneByte, first, second⟩ hwf (Nat.zero_le _) with
        ⟨leaf, start, op', rest, heq, hwfLeaf, hisLeaf, -, hlt, hunits, hrests⟩ |
        ⟨op', -, hend, -⟩
      · rw [heq]
        dsimp only
        rw [List.drop_zero] at hunits
        have hpos : 0 < (Str.cons oneByte first second).length :=
          Nat.lt_of_lt_of_le hwf.2.2.firstLength (Nat.le_add_right _ _)
        have hvisit := holds_visit hwfLeaf hisLeaf hrests fun _ => hlt hpos
        rwa [← hunits] at hvisit
      · have hpos : 0 < (Str.cons oneByte first second).length :=
          Nat.lt_of_lt_of_le hwf.2.2.firstLength (Nat.le_add_right _ _)
        exact absurd hend (Nat.ne_of_lt hpos)
  | _ => exact hleaf trivial

theorem Holds.take_eq (h : Holds state units) {n : Nat} (hle : n ≤ state.buffer.length) :
    state.buffer.units.take n = units.take n := by
  obtain ⟨rest, -, rfl⟩ := h.rests
  exact (List.take_append_of_le_length (by rwa [FlatChars.length_units])).symm

/-- `Advance` drops what has been compared. -/
theorem Holds.advance (h : Holds state units) {consumed : Nat}
    (hle : consumed ≤ state.buffer.length) (hmore : units.drop consumed ≠ []) :
    ∃ state', state.advance consumed = some state' ∧ Holds state' (units.drop consumed) := by
  obtain ⟨rest, hrests, rfl⟩ := h.rests
  rw [List.drop_append_of_le_length (by rwa [FlatChars.length_units])] at hmore ⊢
  unfold ComparatorState.advance
  by_cases hend : state.buffer.length = consumed
  · have hnil : state.buffer.units.drop consumed = [] :=
      List.drop_eq_nil_of_le (by rw [FlatChars.length_units, hend])
    rw [if_neg (not_not.mpr hend)]
    rw [hnil, List.nil_append] at hmore ⊢
    rcases ConsStringIteratorOp.continueOperation_eq hrests with
      ⟨leaf, op', rest', heq, hwf, hleaf, hpos, rfl, hrests'⟩ | ⟨-, -, rfl, -⟩
    · rw [heq]
      have hvisit := @holds_visit leaf op' rest' 0 hwf hleaf hrests' fun _ => hpos
      rwa [List.drop_zero] at hvisit
    · exact absurd rfl hmore
  · rw [if_pos hend]
    refine ⟨_, rfl, ⟨rest, hrests, ?_⟩, fun _ => ?_⟩
    · rw [FlatChars.units_window, List.take_of_length_le]
      rw [List.length_drop, FlatChars.length_units]
    · show 0 < (state.buffer.window consumed _).length
      rw [← FlatChars.length_units, FlatChars.units_window, List.length_take, List.length_drop,
        FlatChars.length_units]
      omega

end

end ComparatorState

/-- The comparison goes in step through both texts. -/
theorem comparatorLoop_eq (aligned : FlatChars → FlatChars → Bool) {fuel : Nat}
    {state₁ state₂ : ComparatorState} {units₁ units₂ : List UInt16} (h₁ : state₁.Holds units₁)
    (h₂ : state₂.Holds units₂) (hlength : units₁.length = units₂.length)
    (hpos : 0 < units₁.length) (hfuel : units₁.length ≤ fuel) :
    comparatorLoop aligned fuel units₁.length state₁ state₂ = some (decide (units₁ = units₂)) := by
  induction fuel generalizing state₁ state₂ units₁ units₂ with
  | zero => omega
  | succ fuel ih =>
      generalize hcheck : min state₁.buffer.length state₂.buffer.length = toCheck
      have hle₁ : toCheck ≤ state₁.buffer.length := hcheck ▸ Nat.min_le_left _ _
      have hle₂ : toCheck ≤ state₂.buffer.length := hcheck ▸ Nat.min_le_right _ _
      have hsome : 0 < toCheck := by
        rw [← hcheck, Nat.lt_min]
        exact ⟨h₁.buffer (List.ne_nil_of_length_pos hpos),
          h₂.buffer (List.ne_nil_of_length_pos (hlength ▸ hpos))⟩
      unfold comparatorLoop
      dsimp only
      rw [hcheck, rawStringCompare_eq _ hle₁ hle₂, h₁.take_eq hle₁, h₂.take_eq hle₂]
      by_cases hsame : units₁.take toCheck = units₂.take toCheck
      · have hrest : units₁.drop toCheck = units₂.drop toCheck ↔ units₁ = units₂ := by
          refine ⟨fun hdrop => ?_, fun heq => by rw [heq]⟩
          rw [← List.take_append_drop toCheck units₁, hsame, hdrop, List.take_append_drop]
        rw [decide_eq_true hsame, if_neg (by decide)]
        have hlength₁ : (units₁.drop toCheck).length = units₁.length - toCheck :=
          List.length_drop
        have hlength₂ : (units₂.drop toCheck).length = units₁.length - toCheck := by
          rw [List.length_drop, hlength]
        by_cases hend : units₁.length - toCheck = 0
        · rw [if_pos hend]
          refine congrArg some (decide_eq_true (hrest.mp ?_)).symm
          rw [List.eq_nil_of_length_eq_zero (hlength₁.trans hend),
            List.eq_nil_of_length_eq_zero (hlength₂.trans hend)]
        · rw [if_neg hend]
          have hne₁ := List.ne_nil_of_length_pos (by omega : 0 < (units₁.drop toCheck).length)
          have hne₂ := List.ne_nil_of_length_pos (by omega : 0 < (units₂.drop toCheck).length)
          obtain ⟨state₁', hadvance₁, hholds₁⟩ := h₁.advance hle₁ hne₁
          obtain ⟨state₂', hadvance₂, hholds₂⟩ := h₂.advance hle₂ hne₂
          rw [hadvance₁, hadvance₂, Option.bind_some, Option.bind_some, ← hlength₁,
            ih hholds₁ hholds₂ (hlength₁.trans hlength₂.symm) (by omega) (by omega)]
          exact congrArg some (decide_eq_decide.mpr hrest)
      · rw [decide_eq_false hsame, if_pos (by decide)]
        exact congrArg some (decide_eq_false fun heq => hsame (by rw [heq])).symm

theorem comparatorEquals_eq (aligned : FlatChars → FlatChars → Bool)
    (op₁ op₂ : ConsStringIteratorOp) {string₁ string₂ : Str} (hwf₁ : string₁.WellFormed)
    (hwf₂ : string₂.WellFormed) (hlength : string₁.length = string₂.length)
    (hpos : 0 < string₁.length) :
    comparatorEquals aligned op₁ op₂ string₁.length string₁ string₂ =
      some (decide (string₁.units = string₂.units)) := by
  obtain ⟨state₁, hinit₁, hholds₁⟩ := ComparatorState.init_eq hwf₁ op₁
  obtain ⟨state₂, hinit₂, hholds₂⟩ := ComparatorState.init_eq hwf₂ op₂
  have hunits₁ := Str.length_units hwf₁
  have hunits₂ := Str.length_units hwf₂
  unfold comparatorEquals
  rw [hinit₁, hinit₂, Option.bind_some, Option.bind_some, ← hunits₁]
  exact comparatorLoop_eq aligned hholds₁ hholds₂ (by omega) (by omega) (by omega)

/-! ## The checks before -/

theorem Str.get_zero {string : Str} (hwf : string.WellFormed) (hpos : 0 < string.length) :
    string.units = string.get 0 :: string.units.tail := by
  rw [Str.get_eq hwf hpos]
  have hlength := Str.length_units hwf
  cases hunits : string.units with
  | nil =>
      rw [hunits, List.length_nil] at hlength
      omega
  | cons u units => rfl

/-- The comparison tells whether the texts are equal, if hash codes that differ are of
different texts. -/
theorem slowEquals_of_hash (platform : EqualsPlatform) {hash₁ hash₂ : Option UInt32}
    (allocated₁ allocated₂ : Bool) {string₁ string₂ : Str} (hwf₁ : string₁.WellFormed)
    (hwf₂ : string₂.WellFormed)
    (hhash : hash₁.isSome → hash₂.isSome → string₁.units = string₂.units → hash₁ = hash₂) :
    slowEquals platform hash₁ hash₂ allocated₁ allocated₂ string₁ string₂ =
      some (decide (string₁.units = string₂.units)) := by
  have hunits₁ := Str.length_units hwf₁
  have hunits₂ := Str.length_units hwf₂
  unfold slowEquals
  dsimp only
  by_cases hlength : string₁.length = string₂.length
  · rw [if_neg (not_not.mpr hlength)]
    by_cases hempty : string₁.length = 0
    · rw [if_pos hempty, List.eq_nil_of_length_eq_zero (hunits₁.trans hempty),
        List.eq_nil_of_length_eq_zero (hunits₂.trans (hlength ▸ hempty))]
      rfl
    · rw [if_neg hempty]
      have hpos : 0 < string₁.length := Nat.pos_of_ne_zero hempty
      split_ifs with hcodes hfirst
      · exact congrArg some (decide_eq_false fun heq =>
          hcodes.2.2 (hhash hcodes.1 hcodes.2.1 heq)).symm
      · refine congrArg some (decide_eq_false fun heq => hfirst ?_).symm
        rw [Str.get_zero hwf₁ hpos, Str.get_zero hwf₂ (hlength ▸ hpos)] at heq
        exact (List.cons.inj heq).1
      · obtain ⟨lhs, hlhs, hwfLeft, hleft⟩ :=
          Str.tryFlattenGetString_eq platform.fill allocated₁ hwf₁
        obtain ⟨rhs, hrhs, hwfRight, hright⟩ :=
          Str.tryFlattenGetString_eq platform.fill allocated₂ hwf₂
        have hlengthLeft := Str.length_units hwfLeft
        have hlengthRight := Str.length_units hwfRight
        rw [hleft, hunits₁] at hlengthLeft
        rw [hright, hunits₂] at hlengthRight
        rw [hlhs, hrhs, Option.bind_some, Option.bind_some, ← hleft, ← hright]
        split
        next str₁ str₂ =>
          have hlengthLeft' : (FlatChars.oneByte str₁).length = string₁.length := hlengthLeft.symm
          have hlengthRight' : (FlatChars.oneByte str₂).length = string₂.length := hlengthRight.symm
          exact congrArg some
            (compareRawStringContents_all _ rfl hlengthLeft' (hlengthRight'.trans hlength.symm))
        · rw [hlengthLeft]
          exact comparatorEquals_eq platform.aligned platform.op₁ platform.op₂ hwfLeft hwfRight
            (by omega) (by omega)
  · rw [if_pos hlength]
    refine congrArg some (decide_eq_false fun heq => hlength ?_).symm
    rw [← hunits₁, ← hunits₂, heq]

/-- `HasHashCode`, and `Hash` then. -/
def computedHash (seed : UInt32) (computed : Bool) (string : Str) : Option UInt32 :=
  if computed then (StringHasher.iteratingHash string seed).map (· >>> StringHasher.kHashShift)
  else none

/-- Two strings are equal if their texts are, however they are stored, whether they can be
flattened, and whether their hash codes are known. -/
theorem slowEquals_eq (platform : EqualsPlatform) (seed : UInt32)
    (computed₁ computed₂ allocated₁ allocated₂ : Bool) {string₁ string₂ : Str}
    (hwf₁ : string₁.WellFormed) (hwf₂ : string₂.WellFormed) :
    slowEquals platform (computedHash seed computed₁ string₁)
        (computedHash seed computed₂ string₂) allocated₁ allocated₂ string₁ string₂ =
      some (decide (string₁.units = string₂.units)) := by
  refine slowEquals_of_hash platform allocated₁ allocated₂ hwf₁ hwf₂ fun h₁ h₂ heq => ?_
  unfold computedHash at h₁ h₂ ⊢
  split_ifs at h₁ h₂ ⊢ <;> try contradiction
  rw [StringHasher.iteratingHash_eq hwf₁, StringHasher.iteratingHash_eq hwf₂, heq]

/-- A cons string that stays as it is and the flat copy of its text. -/
theorem slowEquals_leftDeep :
    slowEquals ⟨fun _ => 0, fun _ _ => true, .new, .new⟩
        (computedHash 7 true (.leftDeep 40))
        (computedHash 7 false (.seq (.twoByte (Str.leftDeep 40).units))) false true
        (.leftDeep 40) (.seq (.twoByte (Str.leftDeep 40).units)) = some true :=
  (@slowEquals_eq ⟨fun _ => 0, fun _ _ => true, .new, .new⟩ 7 true false false true _
    (.seq (.twoByte _)) (Str.wellFormed_leftDeep 40).1 trivial).trans
      (congrArg some (decide_eq_true rfl))

/-! ## Characters in memory -/

section
variable {a b : FlatChars} {length : Nat}

theorem Host.two_dvd (host : Host) : 2 ∣ host.pointerSize := by
  unfold pointerSize
  split <;> decide

theorem skipBlocks_eq {wordSize : Nat} (hword : 2 ∣ wordSize) (hkind : a.isOneByte = b.isOneByte)
    {fuel i : Nat} (hsame : a.units.take i = b.units.take i) (hle : i ≤ length) :
    a.units.take (skipBlocks wordSize a b length fuel i) =
        b.units.take (skipBlocks wordSize a b length fuel i) ∧
      skipBlocks wordSize a b length fuel i ≤ length := by
  induction fuel generalizing i with
  | zero => exact ⟨hsame, hle⟩
  | succ fuel ih =>
      unfold skipBlocks
      split_ifs with hblock hdiffer
      · exact ⟨hsame, hle⟩
      · refine ih ?_ hblock
        rw [List.take_add, List.take_add, hsame,
          (FlatChars.word_eq_iff hword hkind).mp (not_not.mp hdiffer)]
      · exact ⟨hsame, hle⟩

theorem firstDifference_eq_zero_iff {remaining i : Nat} :
    firstDifference a b remaining i = 0 ↔ compareCharacters a b remaining i = true := by
  induction remaining generalizing i with
  | zero => exact iff_of_true rfl rfl
  | succ remaining ih =>
      unfold firstDifference compareCharacters
      by_cases hsame : a.get i = b.get i
      · rw [if_neg (not_not.mpr hsame), hsame]
        dsimp only
        rw [if_neg (not_not.mpr (Int.sub_self _)), ih]
      · have hne : ((a.get i).toNat : Int) - (b.get i).toNat ≠ 0 := by
          intro h
          refine hsame (UInt16.toNat_inj.mp ?_)
          omega
        rw [if_pos hsame]
        dsimp only
        rw [if_pos hne]
        exact iff_of_false hne Bool.false_ne_true

theorem compareChars_eq (host : Host) (hkind : a.isOneByte = b.isOneByte)
    (ha : a.length = length) (hb : b.length = length) :
    compareChars host a b length = 0 ↔ a.units = b.units := by
  have hrest : ∀ i ≤ length, a.units.take i = b.units.take i →
      (firstDifference a b (length - i) i = 0 ↔ a.units = b.units) := by
    intro i hle hsame
    rw [firstDifference_eq_zero_iff, compareCharacters_eq (by omega) (by omega) hsame,
      Nat.add_sub_of_le hle, List.take_of_length_le (by rw [FlatChars.length_units, ha]),
      List.take_of_length_le (by rw [FlatChars.length_units, hb]), decide_eq_true_eq]
  unfold compareChars
  dsimp only
  split_ifs with hblocks
  · have hskip := @skipBlocks_eq a b length _ host.two_dvd hkind length 0 rfl (Nat.zero_le _)
    exact hrest _ hskip.2 hskip.1
  · exact hrest 0 (Nat.zero_le _) rfl

end

theorem Str.getFlatContent_eq {string : Str} (hwf : string.WellFormed) {content : FlatChars}
    (h : string.getFlatContent = some content) : content.units = string.units := by
  have hleaf : ∀ {leaf : Str}, leaf.WellFormed → leaf.IsLeaf → leaf.visit 0 = some content →
      content.units = leaf.units := by
    intro leaf hwf hleaf h
    obtain ⟨chars, hchars, hunits⟩ := Str.visit_eq hwf hleaf 0
    cases h.symm.trans hchars
    exact hunits
  cases string with
  | cons oneByte first second =>
      unfold getFlatContent at h
      dsimp only at h
      split_ifs at h with hempty
      rcases hwf.2.2.secondPart with hpos | ⟨rfl, hfirst⟩
      · omega
      · rw [hleaf hwf.1 hfirst h]
        exact (List.append_nil _).symm
  | _ => exact hleaf hwf trivial h

theorem compareGet_eq {string : Str} (hwf : string.WellFormed) {str : FlatChars}
    (hlength : str.length = string.length) {remaining i : Nat} (hend : i + remaining = str.length) :
    compareGet string str remaining i =
      decide (string.units.drop i = str.units.drop i) := by
  have hunits := Str.length_units hwf
  induction remaining generalizing i with
  | zero =>
      rw [List.drop_eq_nil_of_le (by omega),
        List.drop_eq_nil_of_le (by rw [FlatChars.length_units]; omega)]
      rfl
  | succ remaining ih =>
      have hlt : i < string.units.length := by omega
      have hlt' : i < str.units.length := by
        rw [FlatChars.length_units]
        omega
      have hget : string.get i = string.units[i] := by
        rw [Str.get_eq hwf (by omega), List.getD_eq_getElem _ _ hlt]
      have hget' : str.get i = str.units[i] := by
        rw [FlatChars.get, List.getD_eq_getElem _ _ hlt']
      unfold compareGet
      rw [List.drop_eq_getElem_cons hlt, List.drop_eq_getElem_cons hlt', ← hget, ← hget']
      split_ifs with hdiffer
      · exact (decide_eq_false fun heq => hdiffer (List.cons.inj heq).1).symm
      · rw [ih (by omega), not_not.mp hdiffer]
        exact decide_eq_decide.mpr ⟨congrArg _, fun heq => (List.cons.inj heq).2⟩

/-- Characters in memory are compared with those of any string. -/
theorem isFlatEqualTo_eq (host : Host) {string : Str} (hwf : string.WellFormed) (str : FlatChars) :
    isFlatEqualTo host string str = decide (string.units = str.units) := by
  have hunits := Str.length_units hwf
  unfold isFlatEqualTo
  dsimp only
  by_cases hlength : str.length = string.length
  · rw [if_neg (not_not.mpr hlength)]
    have hget := compareGet_eq hwf hlength (i := 0) (by rw [Nat.zero_add, hlength])
    rw [List.drop_zero, List.drop_zero] at hget
    split
    next content hcontent =>
      split_ifs with hkind
      · have hsame := Str.getFlatContent_eq hwf hcontent
        have hcompare := compareChars_eq host hkind
          (by rw [← FlatChars.length_units, hsame, hunits]) hlength
        rw [hsame] at hcompare
        exact decide_eq_decide.mpr hcompare
      · exact hget
    · exact hget
  · rw [if_pos hlength]
    refine (decide_eq_false fun heq => hlength ?_).symm
    rw [← FlatChars.length_units, ← heq, hunits]

end WeexBridge.V8
