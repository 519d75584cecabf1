/-
# `Utf8Length` — how many bytes a string tree needs

`Utf8LengthHelper::Calculate` adds up the leaves of a cons tree from both ends.
It keeps the text to the left and to the right of the node it stands on, as
their size and six flags about their edges, and takes two bytes off where a
surrogate pair is split between two leaves.

The flags never promise an edge that is not there (`Covers`), so the total is
never too small (`totalLength_bounds`).  It can be too large: the empty second part
of a flattened cons node hides the edge behind it.  `Utf8Length` is an `int`, and
for more than 2^31 bytes it is what the total is modulo 2^32.
-/
import WeexBridge.V8.HeapString
import WeexBridge.V8.Unicode

namespace WeexBridge.V8

open CodeUnits

namespace Utf8LengthHelper

/-- The bits of `State`. -/
structure State where
  endsWithLeadingSurrogate : Bool
  startsWithTrailingSurrogate : Bool
  leftmostEdgeIsCalculated : Bool
  rightmostEdgeIsCalculated : Bool
  leftmostEdgeIsSurrogate : Bool
  rightmostEdgeIsSurrogate : Bool
  deriving DecidableEq, Repr

def kInitialState : State := ⟨false, false, false, false, false, false⟩

/-! ## The visitor -/

/-- Length 1 for each character and 1 for each non-ASCII one. -/
def visitOneByteString (chars : List UInt8) : Nat × State :=
  ((chars.map fun c => c.toNat >>> 7).sum + chars.length, kInitialState)

/-- The sum of `Utf8::Length` over the characters, after the given one. -/
def lengthAfter : Option UInt16 → List UInt16 → Nat
  | _, [] => 0
  | last, c :: chars => Utf8.length c.toNat last + lengthAfter (some c) chars

/-- No two-byte string below a cons node is empty. -/
def visitTwoByteString (chars : List UInt16) : Nat × State :=
  (lengthAfter none chars,
    { kInitialState with
      startsWithTrailingSurrogate := chars.head?.any fun c => Utf16.isTrailSurrogate c.toNat
      endsWithLeadingSurrogate := chars.getLast?.any fun c => Utf16.isLeadSurrogate c.toNat })

def visitChars : FlatChars → Nat × State
  | .oneByte chars => visitOneByteString chars
  | .twoByte chars => visitTwoByteString chars

/-- `Visitor::VisitFlat`: `none` on a cons string. -/
def visitFlat (string : Str) : Option (Nat × State) :=
  match string.visitFlat with
  | .leaf chars => some (visitChars chars)
  | .consString .. => none

/-! ## Merging -/

def mergeLeafLeft (length : Nat) (state leafState : State) : Nat × State :=
  let edgeSurrogate := leafState.startsWithTrailingSurrogate
  let (length, state) :=
    if state.leftmostEdgeIsCalculated = false then
      (length, { state with
        leftmostEdgeIsCalculated := true
        leftmostEdgeIsSurrogate := edgeSurrogate })
    else if state.endsWithLeadingSurrogate && edgeSurrogate then
      (length - Utf8.kBytesSavedByCombiningSurrogates, state)
    else (length, state)
  (length, { state with endsWithLeadingSurrogate := leafState.endsWithLeadingSurrogate })

def mergeLeafRight (length : Nat) (state leafState : State) : Nat × State :=
  let edgeSurrogate := leafState.endsWithLeadingSurrogate
  let (length, state) :=
    if state.rightmostEdgeIsCalculated = false then
      (length, { state with
        rightmostEdgeIsCalculated := true
        rightmostEdgeIsSurrogate := edgeSurrogate })
    else if edgeSurrogate && state.startsWithTrailingSurrogate then
      (length - Utf8.kBytesSavedByCombiningSurrogates, state)
    else (length, state)
  (length, { state with startsWithTrailingSurrogate := leafState.startsWithTrailingSurrogate })

def mergeTerminal (length : Nat) (state : State) : Nat × State :=
  (if state.endsWithLeadingSurrogate && state.startsWithTrailingSurrogate then
      length - Utf8.kBytesSavedByCombiningSurrogates
    else length,
    { kInitialState with
      startsWithTrailingSurrogate := state.leftmostEdgeIsSurrogate
      endsWithLeadingSurrogate := state.rightmostEdgeIsSurrogate })

/-! ## The walk -/

/-- `Calculate`, from the middle of its loop: `current` lies between the text
merged from the left and the text merged from the right. -/
def calculate : Str → Nat → State → Nat × State
  | .cons _ left right, total, state =>
      match visitFlat left, visitFlat right with
      | some (leftLength, leftState), some (rightLength, rightState) =>
          -- Terminal node.
          let (total, state) := mergeLeafLeft (total + leftLength) state leftState
          let (total, state) := mergeLeafRight (total + rightLength) state rightState
          mergeTerminal total state
      | none, some (rightLength, rightState) =>
          -- 1 Leaf node. Descend in place.
          let (total, state) := mergeLeafRight (total + rightLength) state rightState
          calculate left total state
      | some (leftLength, leftState), none =>
          -- 1 Leaf node. Descend in place.
          let (total, state) := mergeLeafLeft (total + leftLength) state leftState
          calculate right total state
      | none, none =>
          -- Recurse on smallest.
          if left.length < right.length then
            let (length, leafState) := calculate left 0 kInitialState
            let (total, state) := mergeLeafLeft (total + length) state leafState
            calculate right total state
          else
            let (length, leafState) := calculate right 0 kInitialState
            let (total, state) := mergeLeafRight (total + length) state leafState
            calculate left total state
  | _, total, state => (total, state)

end Utf8LengthHelper

open Utf8LengthHelper in
/-- The sum that `v8::Utf8Length` makes. -/
def totalLength (str : Str) : Nat :=
  if str.length = 0 then 0
  else
    match visitFlat str with
    | some (length, _) => length
    | none => (calculate str 0 kInitialState).1

/-- `v8::Utf8Length`.  Its sums are of `int`, and wrap. -/
def utf8Length (str : Str) : Int := (totalLength str : Int).bmod 0x100000000

/-! ## The answer is large enough -/

namespace Utf8LengthHelper

/-- `xs` starts with the second half of a pair. -/
def StartsWithTrail (xs : List UInt16) : Prop := ∃ b, xs.head? = some b ∧ IsTrail b

/-- `xs` ends with the first half of a pair. -/
def EndsWithLead (xs : List UInt16) : Prop := ∃ a, xs.getLast? = some a ∧ IsLead a

theorem StartsWithTrail.append {xs : List UInt16} (h : StartsWithTrail xs) (ys : List UInt16) :
    StartsWithTrail (xs ++ ys) := by
  obtain ⟨b, hb, ht⟩ := h
  refine ⟨b, ?_, ht⟩
  rw [List.head?_append, hb]
  rfl

theorem EndsWithLead.append {ys : List UInt16} (h : EndsWithLead ys) (xs : List UInt16) :
    EndsWithLead (xs ++ ys) := by
  obtain ⟨a, ha, hl⟩ := h
  refine ⟨a, ?_, hl⟩
  rw [List.getLast?_append, ha]
  rfl

theorem joins_of_edges {xs ys : List UInt16} (hx : EndsWithLead xs) (hy : StartsWithTrail ys) :
    Joins xs ys := by
  obtain ⟨a, ha, hl⟩ := hx
  obtain ⟨b, hb, ht⟩ := hy
  exact ⟨a, b, ha, hb, hl, ht⟩

/-- What a length and two edge flags say about a text. -/
structure Sized (xs : List UInt16) (r : Nat × State) : Prop where
  le : (utf8 xs).length ≤ r.1
  upper : r.1 ≤ 3 * xs.length
  starts : r.2.startsWithTrailingSurrogate = true → StartsWithTrail xs
  ends : r.2.endsWithLeadingSurrogate = true → EndsWithLead xs

/-- What the loop knows: `xs` is the text merged from the left, `ys` the text
merged from the right. -/
structure Covers (xs ys : List UInt16) (r : Nat × State) : Prop where
  le : (utf8 xs).length + (utf8 ys).length ≤ r.1
  upper : r.1 ≤ 3 * (xs.length + ys.length)
  ends : r.2.endsWithLeadingSurrogate = true → EndsWithLead xs
  starts : r.2.startsWithTrailingSurrogate = true → StartsWithTrail ys
  left : r.2.leftmostEdgeIsCalculated = false → xs = []
  right : r.2.rightmostEdgeIsCalculated = false → ys = []
  leftEdge : r.2.leftmostEdgeIsSurrogate = true → StartsWithTrail xs
  rightEdge : r.2.rightmostEdgeIsSurrogate = true → EndsWithLead ys

theorem covers_initial : Covers [] [] (0, kInitialState) := by
  refine ⟨Nat.le_refl _, Nat.le_refl _, ?_, ?_, fun _ => rfl, fun _ => rfl, ?_, ?_⟩ <;>
    · intro h
      cases h

/-- Two texts side by side take no more than both apart, and two bytes less
when the flags say that they join. -/
theorem length_utf8_join {xs ys : List UInt16} {k n : Nat} {joined : Bool}
    (hn : (utf8 xs).length + (utf8 ys).length + k ≤ n) (hj : joined = true → Joins xs ys) :
    (utf8 (xs ++ ys)).length + k ≤
      if joined then n - Utf8.kBytesSavedByCombiningSurrogates else n := by
  have hadd := length_utf8_append xs ys
  cases joined with
  | false =>
      show _ ≤ n
      omega
  | true =>
      rw [if_pos (hj rfl)] at hadd
      show _ ≤ n - 2
      omega

theorem combined_le (n : Nat) (joined : Bool) :
    (if joined then n - Utf8.kBytesSavedByCombiningSurrogates else n) ≤ n := by
  cases joined with
  | false => exact Nat.le_refl n
  | true => exact Nat.sub_le n _

/-! ### One merge -/

section
variable {length : Nat} {state leafState : State}

theorem mergeLeafLeft_first (h : state.leftmostEdgeIsCalculated = false) :
    mergeLeafLeft length state leafState =
      (length, { state with
        leftmostEdgeIsCalculated := true
        leftmostEdgeIsSurrogate := leafState.startsWithTrailingSurrogate
        endsWithLeadingSurrogate := leafState.endsWithLeadingSurrogate }) := by
  simp [mergeLeafLeft, h]

theorem mergeLeafLeft_next (h : state.leftmostEdgeIsCalculated = true) :
    mergeLeafLeft length state leafState =
      (if state.endsWithLeadingSurrogate && leafState.startsWithTrailingSurrogate then
          length - Utf8.kBytesSavedByCombiningSurrogates
        else length,
        { state with endsWithLeadingSurrogate := leafState.endsWithLeadingSurrogate }) := by
  simp only [mergeLeafLeft, h, Bool.true_eq_false, if_false]
  split_ifs <;> simp [h]

theorem mergeLeafRight_first (h : state.rightmostEdgeIsCalculated = false) :
    mergeLeafRight length state leafState =
      (length, { state with
        rightmostEdgeIsCalculated := true
        rightmostEdgeIsSurrogate := leafState.endsWithLeadingSurrogate
        startsWithTrailingSurrogate := leafState.startsWithTrailingSurrogate }) := by
  simp [mergeLeafRight, h]

theorem mergeLeafRight_next (h : state.rightmostEdgeIsCalculated = true) :
    mergeLeafRight length state leafState =
      (if leafState.endsWithLeadingSurrogate && state.startsWithTrailingSurrogate then
          length - Utf8.kBytesSavedByCombiningSurrogates
        else length,
        { state with startsWithTrailingSurrogate := leafState.startsWithTrailingSurrogate }) := by
  simp only [mergeLeafRight, h, Bool.true_eq_false, if_false]
  split_ifs <;> simp [h]

end

theorem Covers.mergeLeafLeft {xs ys zs : List UInt16} {total : Nat} {state : State}
    {leaf : Nat × State} (h : Covers xs ys (total, state)) (hz : Sized zs leaf) :
    Covers (xs ++ zs) ys (mergeLeafLeft (total + leaf.1) state leaf.2) := by
  have hle : (utf8 xs).length + (utf8 ys).length ≤ total := h.le
  have hz' := hz.le
  have hupper : total + leaf.1 ≤ 3 * ((xs ++ zs).length + ys.length) := by
    have h₁ : total ≤ 3 * (xs.length + ys.length) := h.upper
    have h₂ := hz.upper
    rw [List.length_append]
    omega
  cases hleft : state.leftmostEdgeIsCalculated with
  | false =>
      -- the first leaf from the left
      have hxs : xs = [] := h.left hleft
      subst hxs
      rw [mergeLeafLeft_first hleft]
      refine ⟨?_, hupper, hz.ends, h.starts, ?_, h.right, hz.starts, h.rightEdge⟩
      · show (utf8 zs).length + (utf8 ys).length ≤ total + leaf.1
        omega
      · intro h'
        cases h'
  | true =>
      have hj : (state.endsWithLeadingSurrogate && leaf.2.startsWithTrailingSurrogate) = true →
          Joins xs zs := by
        intro hb
        rw [Bool.and_eq_true] at hb
        exact joins_of_edges (h.ends hb.1) (hz.starts hb.2)
      rw [mergeLeafLeft_next hleft]
      refine ⟨length_utf8_join (by omega) hj, Nat.le_trans (combined_le _ _) hupper,
        fun h' => (hz.ends h').append xs, h.starts, ?_,
        h.right, fun h' => (h.leftEdge h').append zs, h.rightEdge⟩
      intro h'
      exact absurd (hleft.symm.trans h') (by simp)

theorem Covers.mergeLeafRight {xs ys zs : List UInt16} {total : Nat} {state : State}
    {leaf : Nat × State} (h : Covers xs ys (total, state)) (hz : Sized zs leaf) :
    Covers xs (zs ++ ys) (mergeLeafRight (total + leaf.1) state leaf.2) := by
  have hle : (utf8 xs).length + (utf8 ys).length ≤ total := h.le
  have hz' := hz.le
  have hupper : total + leaf.1 ≤ 3 * (xs.length + (zs ++ ys).length) := by
    have h₁ : total ≤ 3 * (xs.length + ys.length) := h.upper
    have h₂ := hz.upper
    rw [List.length_append]
    omega
  cases hright : state.rightmostEdgeIsCalculated with
  | false =>
      -- the first leaf from the right
      have hys : ys = [] := h.right hright
      subst hys
      rw [mergeLeafRight_first hright, List.append_nil]
      rw [List.append_nil] at hupper
      refine ⟨?_, hupper, h.ends, hz.starts, h.left, ?_, h.leftEdge, hz.ends⟩
      · show (utf8 xs).length + (utf8 zs).length ≤ total + leaf.1
        omega
      · intro h'
        cases h'
  | true =>
      have hj : (leaf.2.endsWithLeadingSurrogate && state.startsWithTrailingSurrogate) = true →
          Joins zs ys := by
        intro hb
        rw [Bool.and_eq_true] at hb
        exact joins_of_edges (hz.ends hb.1) (h.starts hb.2)
      rw [mergeLeafRight_next hright]
      refine ⟨?_, Nat.le_trans (combined_le _ _) hupper, h.ends,
        fun h' => (hz.starts h').append ys, h.left, ?_, h.leftEdge,
        fun h' => (h.rightEdge h').append zs⟩
      · rw [Nat.add_comm]
        exact length_utf8_join (by omega) hj
      · intro h'
        exact absurd (hright.symm.trans h') (by simp)

theorem Covers.mergeTerminal {xs ys : List UInt16} {total : Nat} {state : State}
    (h : Covers xs ys (total, state)) : Sized (xs ++ ys) (mergeTerminal total state) := by
  have hj : (state.endsWithLeadingSurrogate && state.startsWithTrailingSurrogate) = true →
      Joins xs ys := by
    intro hb
    rw [Bool.and_eq_true] at hb
    exact joins_of_edges (h.ends hb.1) (h.starts hb.2)
  have hle := length_utf8_join (k := 0) h.le hj
  have hupper : total ≤ 3 * (xs ++ ys).length := by
    rw [List.length_append]
    exact h.upper
  exact ⟨hle, Nat.le_trans (combined_le _ _) hupper, fun h' => (h.leftEdge h').append ys,
    fun h' => (h.rightEdge h').append xs⟩

/-! ### The leaves -/

theorem sum_highBits_add_length (chars : List UInt8) :
    (chars.map fun c => c.toNat >>> 7).sum + chars.length =
      (utf8 (chars.map UInt8.toUInt16)).length := by
  induction chars with
  | nil => rfl
  | cons c chars ih =>
      have hc := c.toNat_lt
      show _ = (utf8 (c.toUInt16 :: chars.map UInt8.toUInt16)).length
      rw [utf8_cons_of_not_isLead (not_isLead_toUInt16 c), List.length_append, ← ih,
        length_codePointBytes, UInt8.toNat_toUInt16]
      simp only [List.map_cons, List.sum_cons, List.length_cons, Nat.shiftRight_eq_div_pow]
      split_ifs <;> omega

/-- The units after `a` add their bytes to those of `a`. -/
theorem lengthAfter_some (a : UInt16) (chars : List UInt16) :
    (codePointBytes a.toNat).length + lengthAfter (some a) chars = (utf8 (a :: chars)).length := by
  induction chars generalizing a with
  | nil => rfl
  | cons b chars ih =>
      have hb := ih b
      simp only [lengthAfter, Utf8.length_eq, Option.some.injEq, exists_eq_left', utf8]
      by_cases hpair : IsLead a ∧ IsTrail b
      · have hla := length_surrogate_bytes (Or.inl hpair.1)
        rw [utf8_cons_of_not_isLead (fun hl => not_isTrail_of_isLead hl hpair.2),
          List.length_append] at hb
        rw [if_pos hpair, if_pos hpair.symm, List.length_append, length_combine_bytes, hla]
        omega
      · rw [if_neg hpair, if_neg (fun h => hpair h.symm), List.length_append, ← hb]

theorem lengthAfter_none (chars : List UInt16) :
    lengthAfter none chars = (utf8 chars).length := by
  cases chars with
  | nil => rfl
  | cons c chars =>
      rw [← lengthAfter_some, lengthAfter, Utf8.length_eq, if_neg (by simp)]

theorem sized_visitChars (chars : FlatChars) : Sized chars.units (visitChars chars) := by
  cases chars with
  | oneByte chars =>
      refine ⟨Nat.le_of_eq (sum_highBits_add_length chars).symm, ?_, ?_, ?_⟩
      · exact Nat.le_trans (Nat.le_of_eq (sum_highBits_add_length chars))
          (length_utf8_le_three_mul _)
      all_goals
        · intro h
          cases h
  | twoByte chars =>
      refine ⟨Nat.le_of_eq (lengthAfter_none chars).symm, ?_, ?_, ?_⟩
      · exact Nat.le_trans (Nat.le_of_eq (lengthAfter_none chars))
          (length_utf8_le_three_mul _)
      · intro h
        obtain ⟨b, hb, ht⟩ := (Option.any_eq_true _ _).mp h
        exact ⟨b, hb, (Utf16.isTrailSurrogate_iff b).mp ht⟩
      · intro h
        obtain ⟨a, ha, hl⟩ := (Option.any_eq_true _ _).mp h
        exact ⟨a, ha, (Utf16.isLeadSurrogate_iff a).mp hl⟩

theorem sized_visitFlat {string : Str} {r : Nat × State} (h : visitFlat string = some r) :
    Sized string.units r := by
  unfold visitFlat at h
  split at h
  · next chars hs =>
      rw [Str.units_of_visitFlat_leaf hs]
      cases h
      exact sized_visitChars chars
  · cases h

/-! ### The walk -/

/-- Walking a cons node between `xs` and `ys` sizes the whole text. -/
theorem sized_calculate : ∀ {string : Str}, visitFlat string = none →
    ∀ {xs ys : List UInt16} {total : Nat} {state : State}, Covers xs ys (total, state) →
      Sized (xs ++ string.units ++ ys) (calculate string total state)
  | .cons oneByte left right, _, xs, ys, total, state, h => by
      have happ : xs ++ (left.units ++ right.units) ++ ys =
          (xs ++ left.units) ++ (right.units ++ ys) := by
        simp only [List.append_assoc]
      show Sized (xs ++ (left.units ++ right.units) ++ ys) _
      unfold calculate
      cases hl : visitFlat left with
      | some leaf =>
          have h₁ := h.mergeLeafLeft (sized_visitFlat hl)
          cases hr : visitFlat right with
          | some leaf' =>
              rw [happ]
              exact (h₁.mergeLeafRight (sized_visitFlat hr)).mergeTerminal
          | none =>
              have ih := sized_calculate hr h₁
              rwa [List.append_assoc, ← happ] at ih
      | none =>
          cases hr : visitFlat right with
          | some leaf' =>
              have ih := sized_calculate hl (h.mergeLeafRight (sized_visitFlat hr))
              rwa [happ]
          | none =>
              -- the smaller side on its own, then the other in place
              simp only
              split_ifs
              · have hz := sized_calculate hl covers_initial
                rw [List.nil_append, List.append_nil] at hz
                have ih := sized_calculate hr (h.mergeLeafLeft hz)
                rwa [List.append_assoc, ← happ] at ih
              · have hz := sized_calculate hr covers_initial
                rw [List.nil_append, List.append_nil] at hz
                have ih := sized_calculate hl (h.mergeLeafRight hz)
                rwa [happ]

end Utf8LengthHelper

open Utf8LengthHelper in
/-- The total has room for the text, whatever its tree, and is at most three bytes for a
unit. -/
theorem totalLength_bounds {str : Str} (h : str.WellFormed) :
    (utf8 str.units).length ≤ totalLength str ∧ totalLength str ≤ 3 * str.length := by
  have hlen := Str.length_units h
  rw [← hlen]
  unfold totalLength
  split_ifs with h0
  · have hnil : str.units = [] := List.length_eq_zero_iff.mp (hlen.trans h0)
    rw [hnil]
    exact ⟨Nat.le_refl _, Nat.le_refl _⟩
  · cases hv : visitFlat str with
    | some r =>
        have hz := sized_visitFlat hv
        exact ⟨hz.le, hz.upper⟩
    | none =>
        have hz := sized_calculate hv covers_initial
        rw [List.nil_append, List.append_nil] at hz
        exact ⟨hz.le, hz.upper⟩

end WeexBridge.V8
