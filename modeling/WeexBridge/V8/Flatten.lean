/-
# Flattening

`String::TryFlatten` copies the characters of a cons string into one sequential
string and leaves the node as a pointer to it.  The text does not change, and
what a caller gets back is a leaf.

A cons string can be longer than a sequential string of its width may be.  Then
the allocation is refused: `TryFlatten` answers with a failure,
`TryFlattenGetString` with the cons string itself, and `FlattenGetString` with
an empty handle.
-/
import WeexBridge.V8.HeapString

namespace WeexBridge.V8

open Memory

/-! ## Allocation -/

/-- `AllocateRawOneByteString`.  `fill` is what the new string's memory held before. -/
def allocateRawOneByteString (fill : Nat → UInt16) (length : Nat) : MaybeObject (Block UInt8) :=
  if length > kMaxOneByteLength then none
  else some (allocate (fun i => (fill i).toUInt8) length)

/-- `AllocateRawTwoByteString` -/
def allocateRawTwoByteString (fill : Nat → UInt16) (length : Nat) :
    MaybeObject (Block UInt16) :=
  if length > kMaxTwoByteLength then none
  else some (allocate fill length)

theorem allocateRawOneByteString_of_le {fill : Nat → UInt16} {length : Nat}
    (h : length ≤ kMaxOneByteLength) :
    allocateRawOneByteString fill length = some (allocate (fun i => (fill i).toUInt8) length) :=
  if_neg (Nat.not_lt.mpr h)

theorem allocateRawOneByteString_of_lt {fill : Nat → UInt16} {length : Nat}
    (h : kMaxOneByteLength < length) : allocateRawOneByteString fill length = none :=
  if_pos h

theorem allocateRawTwoByteString_of_le {fill : Nat → UInt16} {length : Nat}
    (h : length ≤ kMaxTwoByteLength) :
    allocateRawTwoByteString fill length = some (allocate fill length) :=
  if_neg (Nat.not_lt.mpr h)

theorem allocateRawTwoByteString_of_lt {fill : Nat → UInt16} {length : Nat}
    (h : kMaxTwoByteLength < length) : allocateRawTwoByteString fill length = none :=
  if_pos h

namespace Str

/-! ## `String::TryFlatten` -/

/-- The two stores of `SlowTryFlatten`: the first part, then the second. -/
def flattenInto {α : Type} (cast : UInt16 → α) (dest : Block α) (first second : Str) :
    Option (Block α) :=
  let len := first.length + second.length
  (writeToFlat cast first dest 0 0 first.length).bind fun dest =>
    writeToFlat cast second dest first.length 0 (len - first.length)

/-- `String::TryFlatten` -/
def tryFlatten (fill : Nat → UInt16) : Str → Option (MaybeObject Str)
  | cons oneByte first second =>
      let len := first.length + second.length
      if second.length = 0 then some (some first)
      else if oneByte then
        match allocateRawOneByteString fill len with
        | none => some none
        | some dest => (flattenInto UInt16.toUInt8 dest first second).map
            fun dest => some (seq (.oneByte dest))
      else
        match allocateRawTwoByteString fill len with
        | none => some none
        | some dest => (flattenInto id dest first second).map
            fun dest => some (seq (.twoByte dest))
  | s => some (some s)

/-- `FlattenGetString`: none is an empty handle. -/
def flattenGetString (fill : Nat → UInt16) (s : Str) : Option (Option Str) := tryFlatten fill s

/-- `String::TryFlattenGetString`: the string itself where it is not flattened, for its length
or because new space is full (`allocated`). -/
def tryFlattenGetString (fill : Nat → UInt16) (allocated : Bool) (string : Str) : Option Str :=
  match string with
  | cons _ _ second =>
      if second.length ≠ 0 ∧ allocated = false then some string
      else (tryFlatten fill string).map (·.getD string)
  | string => some string

/-- The cons node once it is flat. -/
def flattened (oneByte : Bool) (result : Str) : Str := cons oneByte result emptyString

/-- The largest length of a sequential string. -/
def maxFlatLength (oneByte : Bool) : Nat :=
  if oneByte then kMaxOneByteLength else kMaxTwoByteLength

/-- A flat copy of the string is not refused. -/
def Flattens : Str → Prop
  | cons oneByte first second =>
      second.length = 0 ∨ first.length + second.length ≤ maxFlatLength oneByte
  | _ => True

instance : DecidablePred Flattens
  | cons _ _ _ => inferInstanceAs (Decidable (_ ∨ _))
  | seq _ => .isTrue trivial
  | external _ _ => .isTrue trivial
  | sliced _ _ _ => .isTrue trivial

theorem flattens_of_isLeaf : ∀ {s : Str}, s.IsLeaf → s.Flattens
  | seq _, _ => trivial
  | external _ _, _ => trivial
  | sliced _ _ _, _ => trivial

/-- A string of either width that is short enough for both. -/
theorem flattens_of_length_le {s : Str} (h : s.length ≤ kMaxTwoByteLength) : s.Flattens := by
  cases s with
  | cons oneByte first second =>
      have hle : first.length + second.length ≤ kMaxTwoByteLength := h
      refine Or.inr (Nat.le_trans hle ?_)
      cases oneByte <;> decide
  | seq => exact trivial
  | external => exact trivial
  | sliced => exact trivial

/-- Truncation to a byte loses nothing of a one-byte text. -/
theorem map_toUInt8_toUInt16 {us : List UInt16} (h : ∀ u ∈ us, u.toNat < 256) :
    (us.map UInt16.toUInt8).map UInt8.toUInt16 = us := by
  rw [List.map_map]
  refine (List.map_congr_left fun u hu => ?_).trans (List.map_id us)
  have hlt := h u hu
  refine UInt16.toNat_inj.mp ?_
  show u.toUInt8.toUInt16.toNat = u.toNat
  rw [UInt8.toNat_toUInt16, UInt16.toNat_toUInt8]
  omega

theorem flattenInto_eq {α : Type} (cast : UInt16 → α) {dest : Block α} {first second : Str}
    (hf : first.WellFormed) (hs : second.WellFormed)
    (hdest : dest.length = first.length + second.length) :
    flattenInto cast dest first second = some ((first.units ++ second.units).map cast) := by
  have hlf := length_units hf
  have hls := length_units hs
  have hlen : (first.units.map cast).length = first.length := by rw [List.length_map, hlf]
  simp only [flattenInto]
  rw [writeToFlat_eq cast hf _ 0 0 first.length (Nat.zero_le _) (Nat.le_refl _)
      (by omega), Option.bind_some, List.drop_zero, Nat.sub_zero,
    List.take_of_length_le (by omega),
    writeToFlat_eq cast hs _ first.length 0 _ (Nat.zero_le _) (by omega)
      (by rw [length_splice (by rw [hlen]; omega)]; omega),
    List.drop_zero, List.take_of_length_le (by omega)]
  have happ := splice_append dest 0
    (first.units.map cast) (second.units.map cast)
    (by simp only [List.length_append, List.length_map]; omega)
  rw [Nat.zero_add, hlen] at happ
  rw [happ, ← List.map_append, splice, List.take_zero, List.nil_append, List.drop_eq_nil_of_le,
    List.append_nil]
  simp only [List.length_map, List.length_append]
  omega

/-- Within the limits flattening succeeds, keeps the text, and gives a leaf. -/
theorem tryFlatten_eq (fill : Nat → UInt16) : ∀ {s : Str}, s.WellFormed → s.Flattens →
    ∃ r, tryFlatten fill s = some (some r) ∧ r.WellFormed ∧ r.IsLeaf ∧ r.units = s.units
  | seq chars, h, _ => ⟨seq chars, rfl, h, trivial, rfl⟩
  | external hint chars, h, _ => ⟨external hint chars, rfl, h, trivial, rfl⟩
  | sliced parent offset length, h, _ => ⟨sliced parent offset length, rfl, h, trivial, rfl⟩
  | cons oneByte first second, h, hflat => by
      obtain ⟨hf, hs, hc⟩ := h
      rcases hc.secondPart with hpos | ⟨rfl, hleaf⟩
      · have h0 : ¬ second.length = 0 := by omega
        have hle := hflat.resolve_left h0
        cases oneByte with
        | true =>
            refine ⟨seq (.oneByte ((first.units ++ second.units).map UInt16.toUInt8)), ?_,
              trivial, trivial, map_toUInt8_toUInt16 (hc.encoding rfl)⟩
            rw [tryFlatten, if_neg h0, if_pos rfl, allocateRawOneByteString_of_le hle]
            simp only
            rw [flattenInto_eq _ hf hs (length_allocate _ _)]
            rfl
        | false =>
            refine ⟨seq (.twoByte (first.units ++ second.units)), ?_, trivial, trivial, rfl⟩
            rw [tryFlatten, if_neg h0, if_neg (by simp), allocateRawTwoByteString_of_le hle]
            simp only
            rw [flattenInto_eq _ hf hs (length_allocate _ _), List.map_id]
            rfl
      · refine ⟨first, rfl, hf, hleaf, ?_⟩
        show first.units = first.units ++ []
        rw [List.append_nil]

/-- Beyond them it is refused. -/
theorem tryFlatten_refused (fill : Nat → UInt16) : ∀ {s : Str}, ¬ s.Flattens →
    tryFlatten fill s = some none
  | seq _, h => absurd trivial h
  | external _ _, h => absurd trivial h
  | sliced _ _ _, h => absurd trivial h
  | cons oneByte first second, h => by
      obtain ⟨h0, hlong⟩ := not_or.mp h
      have hgt := Nat.not_le.mp hlong
      cases oneByte with
      | true =>
          rw [tryFlatten, if_neg h0, if_pos rfl, allocateRawOneByteString_of_lt hgt]
      | false =>
          rw [tryFlatten, if_neg h0, if_neg (by simp), allocateRawTwoByteString_of_lt hgt]

/-- What flattening gives, if it gives a string. -/
theorem tryFlatten_some {fill : Nat → UInt16} {s r : Str} (h : s.WellFormed)
    (hr : tryFlatten fill s = some (some r)) :
    s.Flattens ∧ r.WellFormed ∧ r.IsLeaf ∧ r.units = s.units := by
  by_cases hflat : s.Flattens
  · obtain ⟨r', hr', hspec⟩ := tryFlatten_eq fill h hflat
    cases hr.symm.trans hr'
    exact ⟨hflat, hspec⟩
  · cases hr.symm.trans (tryFlatten_refused fill hflat)

/-- Flattening keeps the text, whether it succeeds or not. -/
theorem tryFlattenGetString_eq (fill : Nat → UInt16) (allocated : Bool) {string : Str}
    (hwf : string.WellFormed) :
    ∃ flat, string.tryFlattenGetString fill allocated = some flat ∧ flat.WellFormed ∧
      flat.units = string.units := by
  unfold tryFlattenGetString
  split
  · split_ifs
    · exact ⟨_, rfl, hwf, rfl⟩
    · next oneByte first second _ =>
      by_cases hflat : (cons oneByte first second).Flattens
      · obtain ⟨flat, hr, hwf', -, hunits⟩ := tryFlatten_eq fill hwf hflat
        rw [hr]
        exact ⟨flat, rfl, hwf', hunits⟩
      · rw [tryFlatten_refused fill hflat]
        exact ⟨_, rfl, hwf, rfl⟩
  · exact ⟨string, rfl, hwf, rfl⟩

/-- The node left behind is well formed again. -/
theorem wellFormed_flattened {fill : Nat → UInt16} {oneByte : Bool} {first second r : Str}
    (h : (cons oneByte first second).WellFormed)
    (hr : tryFlatten fill (cons oneByte first second) = some (some r)) :
    (flattened oneByte r).WellFormed ∧
      (flattened oneByte r).units = (cons oneByte first second).units := by
  obtain ⟨-, hwf, hleaf, hunits⟩ := tryFlatten_some h hr
  obtain ⟨hf, hs, hc⟩ := h
  have hlen : r.length = first.length + second.length := by
    rw [← length_units hwf, hunits, ← length_units hf, ← length_units hs]
    exact List.length_append
  have happ : r.units ++ emptyString.units = first.units ++ second.units := by
    rw [units_emptyString, List.append_nil, hunits]
    rfl
  have hfirst := hc.firstLength
  have hmin := hc.minLength
  refine ⟨⟨hwf, trivial, ⟨?_, ?_, Or.inr ⟨rfl, hleaf⟩, ?_⟩⟩, ?_⟩
  · omega
  · show kMinLength ≤ r.length + 0
    omega
  · rw [happ]
    exact hc.encoding
  · exact happ

/-! ## `String::Value` -/

/-- The buffer of `String::Value` and its length: `Write` copies the characters
and puts a zero unit after them. -/
def stringValue (fill : Nat → UInt16) (s : Str) : Option (Block UInt16 × Nat) :=
  (writeToFlat id s (allocate fill (s.length + 1)) 0 0 s.length).bind fun buffer =>
    (store buffer s.length [0]).map (·, s.length)

theorem stringValue_eq (fill : Nat → UInt16) {s : Str} (h : s.WellFormed) :
    stringValue fill s = some (s.units ++ [0], s.length) := by
  have hlen := length_units h
  have hfit : s.length + ([0] : List UInt16).length ≤ s.length + 1 := Nat.le_refl _
  rw [stringValue, writeToFlat_eq id h _ 0 0 s.length (Nat.zero_le _) (Nat.le_refl _)
      (by rw [length_allocate]; omega), Option.bind_some, List.drop_zero, Nat.sub_zero, List.map_id,
    List.take_of_length_le (by omega)]
  have happ := splice_append (allocate fill (s.length + 1)) 0 s.units [0]
    (by rw [length_allocate, List.length_append, hlen]; omega)
  rw [Nat.zero_add, hlen] at happ
  rw [store_eq_some (by rw [length_splice (by rw [length_allocate]; omega), length_allocate]; exact
    hfit), Option.map_some, happ, splice, List.take_zero, List.nil_append, List.drop_eq_nil_of_le,
    List.append_nil]
  rw [length_allocate, List.length_append, hlen]
  exact Nat.le_of_eq (Nat.zero_add _).symm

end Str

end WeexBridge.V8
