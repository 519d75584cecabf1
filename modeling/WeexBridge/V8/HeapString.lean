/-
# Strings of the V8 heap

A JS string is stored as a tree (`objects.h`): sequential and external strings
hold their characters, one byte or two bytes each; a sliced string is a window
into one of these; a cons string is the concatenation of two strings, not yet
copied together.  Flattening a cons string copies its characters into a new
sequential string, and the cons node stays, with the copy as its first part and
the empty string as its second.

`HeapString` is a tree with what the allocators of `heap.cc` guarantee of it.
Everything below the text reads a tree through `visitFlat` and `writeToFlat`;
`units` is the text it stands for.

A sequential string has a largest length, and a request beyond it is refused:
the allocator answers with a `Failure`, and a caller in `CALL_AND_RETRY` with an
empty handle.  Within the limits allocation is taken to succeed, since a process
that has no memory left does not go on (`FatalProcessOutOfMemory`).
-/
import WeexBridge.Lib.CodeUnits
import WeexBridge.Lib.Memory
import Mathlib.Algebra.Group.Nat.Defs
import Mathlib.Data.List.GetD

namespace WeexBridge.V8

open Memory

/-- What an allocator answers: none is a `Failure`. -/
abbrev MaybeObject := Option

/-- `SeqOneByteString::kMaxLength`, of an object of 512 MB. -/
def kMaxOneByteLength : Nat := 536870899

/-- `SeqTwoByteString::kMaxLength` -/
def kMaxTwoByteLength : Nat := 268435449

/-- The characters of a sequential or external string. -/
inductive FlatChars where
  | oneByte (chars : List UInt8)
  | twoByte (chars : List UInt16)
  deriving DecidableEq, Repr

namespace FlatChars

def units : FlatChars → List UInt16
  | oneByte chars => chars.map UInt8.toUInt16
  | twoByte chars => chars

def length : FlatChars → Nat
  | oneByte chars => chars.length
  | twoByte chars => chars.length

/-- `GetChars() + offset`, `length` characters of it. -/
def window (offset length : Nat) : FlatChars → FlatChars
  | oneByte chars => oneByte ((chars.drop offset).take length)
  | twoByte chars => twoByte ((chars.drop offset).take length)

/-- `GetChars()[index]`. -/
def get (c : FlatChars) (index : Nat) : UInt16 := c.units.getD index 0

@[simp] theorem length_units (c : FlatChars) : c.units.length = c.length := by
  cases c <;> simp [units, length]

theorem units_window (offset length : Nat) (c : FlatChars) :
    (c.window offset length).units = (c.units.drop offset).take length := by
  cases c <;> simp [units, window, List.map_take, List.map_drop]

end FlatChars

/-- A string of the heap.  `oneByte` on a cons node is the encoding bit of its
map, `asciiHint` on an external string the ASCII data hint. -/
inductive Str where
  | seq (chars : FlatChars)
  | external (asciiHint : Bool) (chars : FlatChars)
  | sliced (parent : FlatChars) (offset length : Nat)
  | cons (oneByte : Bool) (first second : Str)
  deriving DecidableEq, Repr

namespace Str

/-- The `length` field. -/
def length : Str → Nat
  | seq chars => chars.length
  | external _ chars => chars.length
  | sliced _ _ length => length
  | cons _ first second => first.length + second.length

/-- The text: the leaves from left to right. -/
def units : Str → List UInt16
  | seq chars => chars.units
  | external _ chars => chars.units
  | sliced parent offset length => (parent.window offset length).units
  | cons _ first second => first.units ++ second.units

/-- `Heap::empty_string`. -/
def emptyString : Str := seq (.oneByte [])

/-- `String::kMaxLength`. -/
def kMaxLength : Nat := 2 ^ 30 - 1

/-- `ConsString::kMinLength`, and `SlicedString::kMinLength`. -/
def kMinLength : Nat := 13

/-- Not a cons string: its characters lie in one place. -/
def IsLeaf : Str → Prop
  | cons .. => False
  | _ => True

/-- What `AllocateConsString` and flattening leave in a cons node: a non-empty
first part; a second part that is non-empty too or, after flattening, the empty
string next to the flat copy; one-byte characters only under the one-byte map. -/
structure ConsInvariant (oneByte : Bool) (first second : Str) : Prop where
  firstLength : 0 < first.length
  minLength : kMinLength ≤ first.length + second.length
  secondPart : 0 < second.length ∨ (second = emptyString ∧ first.IsLeaf)
  encoding : oneByte = true → ∀ u ∈ first.units ++ second.units, u.toNat < 256

/-- What holds of every string in the heap. -/
def WellFormed : Str → Prop
  | seq _ => True
  | external asciiHint chars => asciiHint = true → ∀ u ∈ chars.units, u.toNat < 128
  | sliced parent offset length => kMinLength ≤ length ∧ offset + length ≤ parent.length
  | cons oneByte first second =>
      first.WellFormed ∧ second.WellFormed ∧ ConsInvariant oneByte first second

@[simp] theorem units_emptyString : emptyString.units = [] := rfl

theorem length_units : ∀ {s : Str}, s.WellFormed → s.units.length = s.length
  | seq chars, _ => chars.length_units
  | external _ chars, _ => chars.length_units
  | sliced parent offset length, h => by
      have h' := h.2
      simp only [units, FlatChars.units_window, List.length_take, List.length_drop,
        FlatChars.length_units, Str.length]
      omega
  | cons _ first second, h => by
      simp only [units, List.length_append, length_units h.1, length_units h.2.1, Str.length]

/-! ## `VisitFlat`

The traversals of `api.cc` are written against `String::VisitFlat`: on a leaf it
hands the visitor the characters, on a cons string it visits nothing and returns
the node. -/

/-- What `VisitFlat` finds. -/
inductive Visit where
  | leaf (chars : FlatChars)
  | consString (first second : Str)

/-- `String::VisitFlat`, from offset 0. -/
def visitFlat : Str → Visit
  | seq chars => .leaf chars
  | external _ chars => .leaf chars
  | sliced parent offset length => .leaf (parent.window offset length)
  | cons _ first second => .consString first second

theorem units_of_visitFlat_leaf {s : Str} {chars : FlatChars}
    (h : s.visitFlat = .leaf chars) : s.units = chars.units := by
  cases s <;> simp only [visitFlat, Visit.leaf.injEq, reduceCtorEq] at h <;> subst h <;> rfl

/-! ## Random access -/

/-- `String::Get`; a cons node looks left or right by the length of its first
part, as `ConsString::ConsStringGet` does. -/
def get : Str → Nat → UInt16
  | seq chars, index => chars.get index
  | external _ chars, index => chars.get index
  | sliced parent offset _, index => parent.get (offset + index)
  | cons _ first second, index =>
      if second.length = 0 then first.get index
      else if index < first.length then first.get index
      else second.get (index - first.length)

theorem get_eq : ∀ {s : Str}, s.WellFormed → ∀ {index : Nat}, index < s.length →
    s.get index = s.units.getD index 0
  | seq _, _, _, _ => rfl
  | external _ _, _, _, _ => rfl
  | sliced parent offset length, _, index, hi => by
      have hi' : index < length := hi
      simp only [get, FlatChars.get, units, FlatChars.units_window]
      rw [List.getD_eq_getElem?_getD, List.getD_eq_getElem?_getD, List.getElem?_take_of_lt hi',
        List.getElem?_drop]
  | cons _ first second, h, index, hi => by
      have hi' : index < first.length + second.length := hi
      have hf := length_units h.1
      have ih₁ : index < first.length → first.get index = first.units.getD index 0 :=
        get_eq h.1
      have ih₂ : index - first.length < second.length →
          second.get (index - first.length) = second.units.getD (index - first.length) 0 :=
        get_eq h.2.1
      simp only [get, units]
      split_ifs with h₀ h₁
      · rw [ih₁ (by omega), List.getD_append _ _ _ _ (by omega)]
      · rw [ih₁ h₁, List.getD_append _ _ _ _ (by omega)]
      · rw [ih₂ (by omega), List.getD_append_right _ _ _ _ (by omega), hf]

/-! ## Flattening -/

section WriteToFlat
variable {α : Type} (cast : UInt16 → α)

/-- `CopyChars`: characters `f` to `t`, written at `sink + p`. -/
def copyChars (chars : FlatChars) (sink : Block α) (p f t : Nat) : Option (Block α) :=
  store sink p (((chars.units.drop f).take (t - f)).map cast)

/-- `IsSeqOneByteString`, with the characters. -/
def seqOneByteString : Str → Option (List UInt8)
  | seq (.oneByte chars) => some chars
  | _ => none

/-- `String::WriteToFlat`: characters `f` to `t` of the source, written at
`sink + p`.  On a cons string it recurses over the shorter side of the range
and goes on with the longer one. -/
def writeToFlat : Str → Block α → Nat → Nat → Nat → Option (Block α)
  | seq chars, sink, p, f, t => copyChars cast chars sink p f t
  | external _ chars, sink, p, f, t => copyChars cast chars sink p f t
  | sliced parent offset _, sink, p, f, t =>
      copyChars cast parent sink p (f + offset) (t + offset)
  | cons _ first second, sink, p, f, t =>
      let boundary := first.length
      if (t : Int) - boundary ≥ boundary - f then
        -- Right hand side is longer.  Recurse over left.
        if f < boundary then
          (writeToFlat first sink p f boundary).bind fun sink =>
            writeToFlat second sink (p + (boundary - f)) 0 (t - boundary)
        else writeToFlat second sink p (f - boundary) (t - boundary)
      else if t > boundary then
        -- Left hand side is longer.  Recurse over right.
        (if t - boundary = 1 then store sink (p + (boundary - f)) [cast (second.get 0)]
          else match second.seqOneByteString with
            | some chars =>
                store sink (p + (boundary - f))
                  ((chars.take (t - boundary)).map (cast ∘ UInt8.toUInt16))
            | none => writeToFlat second sink (p + (boundary - f)) 0 (t - boundary)).bind
          fun sink => writeToFlat first sink p f boundary
      else writeToFlat first sink p f t

theorem units_of_seqOneByteString {s : Str} {chars : List UInt8}
    (h : s.seqOneByteString = some chars) : s.units = chars.map UInt8.toUInt16 := by
  unfold seqOneByteString at h
  split at h
  · cases h
    rfl
  · cases h

/-- The right part of a cons string whose left part is longer: the shortcuts for
one character and for a sequential one-byte string write what the recursion
writes. -/
theorem writeToFlat_shortcut {second : Str} (h : second.WellFormed) (sink : Block α) (p n : Nat)
    (hn : 0 < n) (hle : n ≤ second.length)
    (ih : writeToFlat cast second sink p 0 n =
      some (splice sink p ((second.units.take n).map cast)))
    (hfit : p + n ≤ sink.length) :
    (if n = 1 then store sink p [cast (second.get 0)]
      else match second.seqOneByteString with
        | some chars => store sink p ((chars.take n).map (cast ∘ UInt8.toUInt16))
        | none => writeToFlat cast second sink p 0 n) =
      some (splice sink p ((second.units.take n).map cast)) := by
  have hlen := length_units h
  split_ifs with h1
  · subst h1
    have htake : second.units.take 1 = [second.get 0] := by
      rw [get_eq h (by omega)]
      cases hu : second.units with
      | nil =>
          rw [hu] at hlen
          exact absurd hlen (by simp only [List.length_nil]; omega)
      | cons u us => rfl
    rw [htake]
    exact store_eq_some (by simpa using hfit)
  · cases hs : second.seqOneByteString with
    | none => exact ih
    | some chars =>
        have hu := units_of_seqOneByteString hs
        have hmap :
            (chars.take n).map (cast ∘ UInt8.toUInt16) = (second.units.take n).map cast := by
          rw [hu, ← List.map_take, List.map_map]
        show store sink p ((chars.take n).map (cast ∘ UInt8.toUInt16)) = _
        rw [hmap]
        refine store_eq_some ?_
        rw [List.length_map, List.length_take]
        omega

/-- A range of a concatenation that crosses the boundary. -/
theorem range_append_across {β : Type} (xs ys : List β) {f t : Nat} (hf : f ≤ xs.length)
    (ht : xs.length ≤ t) :
    ((xs ++ ys).drop f).take (t - f) = xs.drop f ++ ys.take (t - xs.length) := by
  rw [List.drop_append_of_le_length hf, List.take_append, List.length_drop,
    List.take_of_length_le (by rw [List.length_drop]; omega)]
  congr 2
  omega

/-- A range of a concatenation right of the boundary. -/
theorem range_append_right {β : Type} (xs ys : List β) {f t : Nat} (hf : xs.length ≤ f) :
    ((xs ++ ys).drop f).take (t - f) =
      (ys.drop (f - xs.length)).take (t - xs.length - (f - xs.length)) := by
  rw [List.drop_append, List.drop_eq_nil_of_le hf, List.nil_append]
  congr 1
  omega

/-- A range of a concatenation left of the boundary. -/
theorem range_append_left {β : Type} (xs ys : List β) {f t : Nat} (hft : f ≤ t)
    (ht : t ≤ xs.length) :
    ((xs ++ ys).drop f).take (t - f) = (xs.drop f).take (t - f) := by
  rw [List.drop_append_of_le_length (by omega),
    List.take_append_of_le_length (by rw [List.length_drop]; omega)]

theorem length_range {s : Str} (h : s.WellFormed) {f t : Nat} (ht : t ≤ s.length) :
    (((s.units.drop f).take (t - f)).map cast).length = t - f := by
  have hlen := length_units h
  rw [List.length_map, List.length_take, List.length_drop]
  omega

/-- The parts of a range that crosses the boundary of a cons string. -/
theorem map_range_across {first second : Str} (h : first.WellFormed) {f t : Nat}
    (hf : f ≤ first.length) (ht : first.length ≤ t) :
    (((first.units ++ second.units).drop f).take (t - f)).map cast =
      ((first.units.drop f).take (first.length - f)).map cast ++
        ((second.units.drop 0).take (t - first.length - 0)).map cast := by
  have hlen := length_units h
  have hl : (first.units.drop f).take (first.length - f) = first.units.drop f :=
    List.take_of_length_le (by rw [List.length_drop, hlen])
  rw [range_append_across _ _ (hlen ▸ hf) (hlen ▸ ht), hlen, List.map_append, hl, List.drop_zero,
    Nat.sub_zero]

/-- `writeToFlat` copies the range it is given, and writes nothing else. -/
theorem writeToFlat_eq : ∀ {s : Str}, s.WellFormed → ∀ (sink : Block α) (p f t : Nat),
    f ≤ t → t ≤ s.length → p + (t - f) ≤ sink.length →
      writeToFlat cast s sink p f t =
        some (splice sink p (((s.units.drop f).take (t - f)).map cast))
  | seq chars, _, sink, p, f, t, hft, ht, hfit => by
      have ht' : t ≤ chars.length := ht
      refine store_eq_some ?_
      simp only [List.length_map, List.length_take, List.length_drop, FlatChars.length_units]
      omega
  | external _ chars, _, sink, p, f, t, hft, ht, hfit => by
      have ht' : t ≤ chars.length := ht
      refine store_eq_some ?_
      simp only [List.length_map, List.length_take, List.length_drop, FlatChars.length_units]
      omega
  | sliced parent offset length, h, sink, p, f, t, hft, ht, hfit => by
      have ht' : t ≤ length := ht
      have h' := h.2
      have hunits : ((sliced parent offset length).units.drop f).take (t - f) =
          (parent.units.drop (f + offset)).take (t + offset - (f + offset)) := by
        simp only [units, FlatChars.units_window, List.drop_take, List.drop_drop, List.take_take]
        congr 1
        · omega
        · congr 1
          omega
      rw [hunits]
      refine store_eq_some ?_
      simp only [List.length_map, List.length_take, List.length_drop, FlatChars.length_units]
      omega
  | cons oneByte first second, h, sink, p, f, t, hft, ht, hfit => by
      have hu := length_units h.1
      have hv := length_units h.2.1
      have ht' : t ≤ first.length + second.length := ht
      simp only [writeToFlat, units]
      by_cases hside : (t : Int) - first.length ≥ first.length - f
      · rw [if_pos hside]
        by_cases hf : f < first.length
        · rw [if_pos hf]
          -- the left part of the range first, then the right part after it
          have hlen := length_range cast h.1 (f := f) (Nat.le_refl _)
          have hlen' := length_range cast h.2.1 (f := 0) (t := t - first.length) (by omega)
          rw [writeToFlat_eq h.1 sink p f first.length (by omega) (by omega) (by omega),
            Option.bind_some,
            writeToFlat_eq h.2.1 _ _ 0 (t - first.length) (by omega) (by omega)
              (by rw [length_splice (by omega)]; omega),
            map_range_across cast h.1 (by omega) (by omega),
            ← splice_append _ _ _ _ (by rw [List.length_append]; omega), hlen]
        · rw [if_neg hf]
          have hr := range_append_right first.units second.units (f := f) (t := t) (by omega)
          rw [writeToFlat_eq h.2.1 sink p (f - first.length) (t - first.length) (by omega)
              (by omega)
            (by omega), hr, hu]
      · rw [if_neg hside]
        by_cases hb : t > first.length
        · rw [if_pos hb]
          -- the right part of the range first, then the left part before it
          have hlen := length_range cast h.1 (f := f) (Nat.le_refl _)
          have hlen' := length_range cast h.2.1 (f := 0) (t := t - first.length) (by omega)
          have ih := writeToFlat_eq h.2.1 sink (p + (first.length - f)) 0 (t - first.length)
            (by omega) (by omega) (by omega)
          rw [map_range_across cast h.1 (by omega) (by omega),
            ← splice_append' _ _ _ _ (by rw [List.length_append]; omega), hlen]
          rw [List.drop_zero, Nat.sub_zero] at ih hlen' ⊢
          rw [writeToFlat_shortcut cast h.2.1 sink _ (t - first.length) (by omega) (by omega) ih
              (by omega), Option.bind_some,
            writeToFlat_eq h.1 _ p f first.length (by omega) (by omega)
              (by rw [length_splice (by omega)]; omega)]
        · rw [if_neg hb]
          have hr := range_append_left first.units second.units hft (by omega)
          rw [writeToFlat_eq h.1 sink p f t hft (by omega) (by omega), hr]

end WriteToFlat

end Str

end WeexBridge.V8
