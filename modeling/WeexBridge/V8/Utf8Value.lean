/-
# `WriteUtf8` and `Utf8Value`

`String::WriteUtf8` walks a string tree from left to right and encodes each leaf
where the last one ended; a trail surrogate that starts a leaf is encoded
together with the lead that ended the one before, over its three bytes.  When
the walk runs out of its recursion budget it starts again on a flat copy.  Where
that is refused, for a string deeper than the budget and longer than a sequential
string may be, the process dies (`utf8Value_eq_none`).

`Utf8Value` allocates `Utf8Length` bytes and one for the terminator, and writes
without a capacity check.  The write stays inside (`utf8Value_eq`), and what it
leaves is the text's UTF-8, a zero byte, and the rest of the allocation.

The bridge writes with capacity `-1` only, so the checked loop of the visitor
and its early termination do not occur.
-/
import WeexBridge.V8.Flatten
import WeexBridge.V8.Utf8Length

namespace WeexBridge.V8

open CodeUnits Memory

/-- `Utf8WriterVisitor` with `skip_capacity_check_` set; `position` is
`buffer_ - start_`. -/
structure Utf8WriterVisitor where
  buffer : Block UInt8
  position : Nat
  lastCharacter : Option UInt16

namespace Utf8WriterVisitor

/-- The fast loop of `Visit` over one-byte characters. -/
def visitOneByteString : List UInt8 → Utf8WriterVisitor → Option Utf8WriterVisitor
  | [], w => some w
  | c :: chars, w =>
      (Utf8.encodeOneByte w.buffer w.position c).bind fun (buffer, written) =>
        visitOneByteString chars ⟨buffer, w.position + written, none⟩

/-- The fast loop of `Visit` over two-byte characters. -/
def visitTwoByteString : List UInt16 → Utf8WriterVisitor → Option Utf8WriterVisitor
  | [], w => some w
  | c :: chars, w =>
      (Utf8.encode w.buffer w.position c.toNat w.lastCharacter).bind fun (buffer, written) =>
        visitTwoByteString chars ⟨buffer, w.position + written, some c⟩

def visitChars : FlatChars → Utf8WriterVisitor → Option Utf8WriterVisitor
  | .oneByte chars => visitOneByteString chars
  | .twoByte chars => visitTwoByteString chars

/-- `CompleteWrite`, with the terminator. -/
def completeWrite (w : Utf8WriterVisitor) : Option (Block UInt8) :=
  store w.buffer w.position [0]

end Utf8WriterVisitor

/-- `RecursivelySerializeToUtf8`; `false` when the budget is exhausted. -/
def recursivelySerializeToUtf8 :
    Str → Utf8WriterVisitor → Nat → Option (Utf8WriterVisitor × Bool)
  | .cons _ first second, w, recursionBudget =>
      if recursionBudget ≤ 0 then some (w, false)
      else
        -- Must write the left branch first.
        (recursivelySerializeToUtf8 first w (recursionBudget - 1)).bind fun (w, success) =>
          if success then recursivelySerializeToUtf8 second w recursionBudget
          else some (w, false)
  | .seq chars, w, _ => (w.visitChars chars).map (·, true)
  | .external _ chars, w, _ => (w.visitChars chars).map (·, true)
  | .sliced parent offset length, w, _ =>
      (w.visitChars (parent.window offset length)).map (·, true)

def kMaxRecursion : Nat := 100

/-- `String::WriteUtf8` with capacity `-1`.  An empty handle of `FlattenGetString` is
dereferenced. -/
def writeUtf8 (fill : Nat → UInt16) (str : Str) (buffer : Block UInt8) : Option (Block UInt8) :=
  (recursivelySerializeToUtf8 str ⟨buffer, 0, none⟩ kMaxRecursion).bind fun (w, success) =>
    if success then w.completeWrite
    else
      (str.flattenGetString fill).join.bind fun str =>
        match str.visitFlat with
        | .leaf chars =>
            ((⟨w.buffer, 0, none⟩ : Utf8WriterVisitor).visitChars chars).bind (·.completeWrite)
        | .consString .. => (⟨w.buffer, 0, none⟩ : Utf8WriterVisitor).completeWrite

/-- The `size_t` of `NewArray<char>(length_ + 1)`. -/
def newArraySize (length : Int) : Nat := ((length + 1) % 0x100000000).toNat

/-- The buffer of `String::Utf8Value`, once the value is a string. -/
def utf8Value (fill : Nat → UInt16) (garbage : Nat → UInt8) (str : Str) : Option (Block UInt8) :=
  writeUtf8 fill str (allocate garbage (newArraySize (utf8Length str)))

/-! ## When it succeeds -/

/-- How often the walk goes to the left. -/
def Str.leftDepth : Str → Nat
  | .cons _ first second => max (first.leftDepth + 1) second.leftDepth
  | _ => 0

/-- The walk stays within its budget, or there is a flat copy to start again on. -/
def Str.Writable (str : Str) : Prop := str.leftDepth ≤ kMaxRecursion ∨ str.Flattens

instance : DecidablePred Str.Writable := fun _ => inferInstanceAs (Decidable (_ ∨ _))

/-- A two-byte string fits in 2^29 bytes. -/
theorem Str.writable_of_length_le {str : Str} (h : str.length ≤ kMaxTwoByteLength) :
    str.Writable :=
  Or.inr (flattens_of_length_le h)


/-! ## The writer -/

namespace Utf8WriterVisitor

/-- The writer has written the text `xs` into a buffer of `size` bytes. -/
structure Wrote (w : Utf8WriterVisitor) (size : Nat) (xs : List UInt16) : Prop where
  size : w.buffer.length = size
  position : w.position = (utf8 xs).length
  written : w.buffer.take w.position = utf8 xs
  last : ∀ a, IsLead a → (w.lastCharacter = some a ↔ xs.getLast? = some a)

theorem wrote_nil (buffer : Block UInt8) : Wrote ⟨buffer, 0, none⟩ buffer.length [] :=
  ⟨rfl, rfl, rfl, fun _ _ => ⟨nofun, nofun⟩⟩

theorem Wrote.fits {w : Utf8WriterVisitor} {size : Nat} {xs ys : List UInt16}
    (h : Wrote w size xs) (hfit : (utf8 (xs ++ ys)).length ≤ size) :
    w.position ≤ w.buffer.length := by
  have hle := length_utf8_le_append xs ys
  rw [h.position, h.size]
  omega

/-- Encoding a unit that completes no pair. -/
theorem Wrote.unit {w : Utf8WriterVisitor} {size : Nat} {xs : List UInt16} (h : Wrote w size xs)
    {u : UInt16} (hj : ¬ Joins xs [u]) (hfit : (utf8 (xs ++ [u])).length ≤ size)
    {last : Option UInt16} (hlast : ∀ a, IsLead a → (last = some a ↔ u = a)) :
    Wrote ⟨splice w.buffer w.position (codePointBytes u.toNat),
      w.position + (codePointBytes u.toNat).length, last⟩ size (xs ++ [u]) := by
  have hbytes : utf8 (xs ++ [u]) = utf8 xs ++ codePointBytes u.toNat := utf8_append hj
  have hp := h.fits hfit
  rw [hbytes, List.length_append, ← h.position] at hfit
  refine ⟨?_, ?_, ?_, ?_⟩
  · exact (length_splice (by rw [h.size]; exact hfit)).trans h.size
  · rw [hbytes, List.length_append, ← h.position]
  · rw [hbytes, ← h.written]
    exact take_splice hp
  · intro a ha
    rw [List.getLast?_concat, Option.some.injEq]
    exact hlast a ha

/-- Encoding the trail of a pair over its lead. -/
theorem Wrote.pair {w : Utf8WriterVisitor} {size : Nat} {xs : List UInt16} {a b : UInt16}
    (h : Wrote w size (xs ++ [a])) (ha : IsLead a) (hb : IsTrail b)
    (hfit : (utf8 (xs ++ [a] ++ [b])).length ≤ size) :
    3 ≤ w.position ∧ w.position + 1 ≤ size ∧
      Wrote ⟨splice w.buffer (w.position - 3) (codePointBytes (combine a b)), w.position + 1,
        some b⟩ size (xs ++ [a] ++ [b]) := by
  have hlead : utf8 (xs ++ [a]) = utf8 xs ++ codePointBytes a.toNat :=
    utf8_append_cons_of_not_isTrail (not_isTrail_of_isLead ha) xs []
  have hbytes : utf8 (xs ++ [a] ++ [b]) = utf8 xs ++ codePointBytes (combine a b) := by
    rw [List.append_assoc]
    show utf8 (xs ++ a :: b :: []) = _
    rw [utf8_append_pair ha hb]
    exact congrArg _ (List.append_nil _)
  have hla := length_surrogate_bytes (Or.inl ha)
  have hlab := length_combine_bytes a b
  have hpos := h.position
  rw [hlead, List.length_append, hla] at hpos
  have hp := h.fits hfit
  have hback : w.position - 3 = (utf8 xs).length := by omega
  have htake : w.buffer.take (w.position - 3) = utf8 xs := by
    have hwritten := congrArg (List.take (utf8 xs).length) h.written
    rw [hlead, List.take_take, List.take_left, hback.symm, Nat.min_eq_left (by omega)] at hwritten
    exact hwritten
  have hsize := h.size
  rw [hbytes, List.length_append, hlab] at hfit
  refine ⟨by omega, by omega, ?_, ?_, ?_, ?_⟩
  · exact (length_splice (by omega)).trans h.size
  · rw [hbytes, List.length_append, hlab]
    show w.position + 1 = _
    omega
  · have hend : w.position + 1 = w.position - 3 + (codePointBytes (combine a b)).length := by
      omega
    show (splice _ _ _).take (w.position + 1) = _
    rw [hend, take_splice (by omega), htake, hbytes]
  · intro c _
    rw [List.getLast?_concat]

/-- One two-byte character. -/
theorem Wrote.encode {w : Utf8WriterVisitor} {size : Nat} {xs : List UInt16}
    (h : Wrote w size xs) (u : UInt16) (hfit : (utf8 (xs ++ [u])).length ≤ size) :
    ∃ buffer written, Utf8.encode w.buffer w.position u.toNat w.lastCharacter =
        some (buffer, written) ∧ Wrote ⟨buffer, w.position + written, some u⟩ size (xs ++ [u]) := by
  have hsize := h.size
  by_cases hpair : IsTrail u ∧ ∃ a, w.lastCharacter = some a ∧ IsLead a
  · obtain ⟨hu, a, hlast, ha⟩ := hpair
    obtain ⟨xs', rfl⟩ := List.getLast?_eq_some_iff.mp ((h.last a ha).mp hlast)
    obtain ⟨hp, hfit', hw⟩ := h.pair ha hu hfit
    refine ⟨_, 1, ?_, hw⟩
    rw [hlast]
    exact Utf8.encode_pair ha hu hp (by omega)
  · have hj : ¬ Joins xs [u] := by
      rintro ⟨a, b, hxa, hb, ha, ht⟩
      cases hb
      exact hpair ⟨ht, a, (h.last a ha).mpr hxa, ha⟩
    have hbytes : utf8 (xs ++ [u]) = utf8 xs ++ codePointBytes u.toNat := utf8_append hj
    have hfit' := hfit
    rw [hbytes, List.length_append, ← h.position] at hfit'
    exact ⟨_, _, Utf8.encode_unit hpair (by omega),
      h.unit hj hfit fun a _ => by rw [Option.some.injEq]⟩

/-- One one-byte character. -/
theorem Wrote.encodeOneByte {w : Utf8WriterVisitor} {size : Nat} {xs : List UInt16}
    (h : Wrote w size xs) (c : UInt8) (hfit : (utf8 (xs ++ [c.toUInt16])).length ≤ size) :
    ∃ buffer written, Utf8.encodeOneByte w.buffer w.position c = some (buffer, written) ∧
      Wrote ⟨buffer, w.position + written, none⟩ size (xs ++ [c.toUInt16]) := by
  have hsize := h.size
  have hj : ¬ Joins xs [c.toUInt16] := by
    rintro ⟨a, b, -, hb, -, ht⟩
    cases hb
    exact not_isTrail_toUInt16 c ht
  have hbytes : utf8 (xs ++ [c.toUInt16]) = utf8 xs ++ codePointBytes c.toUInt16.toNat :=
    utf8_append hj
  have hfit' := hfit
  rw [hbytes, List.length_append, ← h.position] at hfit'
  refine ⟨_, _, Utf8.encodeOneByte_eq (by omega), h.unit hj hfit fun a ha => ?_⟩
  constructor
  · exact nofun
  · rintro rfl
    exact absurd ha (not_isLead_toUInt16 c)

theorem Wrote.visitTwoByteString {size : Nat} : ∀ (chars : List UInt16) {w : Utf8WriterVisitor}
    {xs : List UInt16}, Wrote w size xs → (utf8 (xs ++ chars)).length ≤ size →
      ∃ w', Utf8WriterVisitor.visitTwoByteString chars w = some w' ∧ Wrote w' size (xs ++ chars)
  | [], w, xs, h, _ => ⟨w, rfl, by rwa [List.append_nil]⟩
  | c :: chars, w, xs, h, hfit => by
      have happ : xs ++ c :: chars = xs ++ [c] ++ chars := List.append_cons xs c chars
      rw [happ] at hfit ⊢
      have hfit' := Nat.le_trans (length_utf8_le_append (xs ++ [c]) chars) hfit
      obtain ⟨buffer, written, henc, hw⟩ := h.encode c hfit'
      obtain ⟨w', hvisit, hw'⟩ := Wrote.visitTwoByteString chars hw hfit
      refine ⟨w', ?_, hw'⟩
      rw [Utf8WriterVisitor.visitTwoByteString, henc]
      exact hvisit

theorem Wrote.visitOneByteString {size : Nat} : ∀ (chars : List UInt8) {w : Utf8WriterVisitor}
    {xs : List UInt16}, Wrote w size xs →
      (utf8 (xs ++ chars.map UInt8.toUInt16)).length ≤ size →
      ∃ w', Utf8WriterVisitor.visitOneByteString chars w = some w' ∧
        Wrote w' size (xs ++ chars.map UInt8.toUInt16)
  | [], w, xs, h, _ => ⟨w, rfl, by rwa [List.map_nil, List.append_nil]⟩
  | c :: chars, w, xs, h, hfit => by
      have happ : xs ++ (c :: chars).map UInt8.toUInt16 =
          xs ++ [c.toUInt16] ++ chars.map UInt8.toUInt16 := List.append_cons xs _ _
      rw [happ] at hfit ⊢
      have hfit' := Nat.le_trans (length_utf8_le_append (xs ++ [c.toUInt16]) _) hfit
      obtain ⟨buffer, written, henc, hw⟩ := h.encodeOneByte c hfit'
      obtain ⟨w', hvisit, hw'⟩ := Wrote.visitOneByteString chars hw hfit
      refine ⟨w', ?_, hw'⟩
      rw [Utf8WriterVisitor.visitOneByteString, henc]
      exact hvisit

theorem Wrote.visitChars {size : Nat} (chars : FlatChars) {w : Utf8WriterVisitor}
    {xs : List UInt16} (h : Wrote w size xs) (hfit : (utf8 (xs ++ chars.units)).length ≤ size) :
    ∃ w', w.visitChars chars = some w' ∧ Wrote w' size (xs ++ chars.units) := by
  cases chars with
  | oneByte chars => exact h.visitOneByteString chars hfit
  | twoByte chars => exact h.visitTwoByteString chars hfit

theorem Wrote.completeWrite {w : Utf8WriterVisitor} {size : Nat} {xs : List UInt16}
    (h : Wrote w size xs) (hfit : (utf8 xs).length + 1 ≤ size) :
    ∃ rest, w.completeWrite = some (utf8 xs ++ 0 :: rest) := by
  have hpos := h.position
  have hsize := h.size
  refine ⟨w.buffer.drop (w.position + 1), ?_⟩
  have hstore : Memory.store w.buffer w.position [0] = some (splice w.buffer w.position [0]) :=
    store_eq_some (by rw [List.length_singleton]; omega)
  rw [Utf8WriterVisitor.completeWrite, hstore, splice, h.written, List.append_assoc]
  rfl

end Utf8WriterVisitor

/-! ## The walk -/

open Utf8WriterVisitor in
/-- The walk stays inside the buffer.  It succeeds within its budget, and has written the
text then. -/
theorem recursivelySerializeToUtf8_spec {size : Nat} : ∀ (str : Str) {w : Utf8WriterVisitor}
    {xs : List UInt16} (recursionBudget : Nat), Wrote w size xs →
      (utf8 (xs ++ str.units)).length ≤ size →
      ∃ w' success, recursivelySerializeToUtf8 str w recursionBudget = some (w', success) ∧
        w'.buffer.length = size ∧ (success = true ↔ str.leftDepth ≤ recursionBudget) ∧
        (success = true → Wrote w' size (xs ++ str.units))
  | .seq chars, w, xs, budget, h, hfit => by
      obtain ⟨w', hvisit, hw'⟩ := h.visitChars chars hfit
      refine ⟨w', true, ?_, hw'.size, iff_of_true rfl (Nat.zero_le _), fun _ => hw'⟩
      rw [recursivelySerializeToUtf8, hvisit]
      rfl
  | .external hint chars, w, xs, budget, h, hfit => by
      obtain ⟨w', hvisit, hw'⟩ := h.visitChars chars hfit
      refine ⟨w', true, ?_, hw'.size, iff_of_true rfl (Nat.zero_le _), fun _ => hw'⟩
      rw [recursivelySerializeToUtf8, hvisit]
      rfl
  | .sliced parent offset length, w, xs, budget, h, hfit => by
      obtain ⟨w', hvisit, hw'⟩ := h.visitChars (parent.window offset length) hfit
      refine ⟨w', true, ?_, hw'.size, iff_of_true rfl (Nat.zero_le _), fun _ => hw'⟩
      rw [recursivelySerializeToUtf8, hvisit]
      rfl
  | .cons oneByte first second, w, xs, budget, h, hfit => by
      have happ : xs ++ (Str.cons oneByte first second).units =
          xs ++ first.units ++ second.units := (List.append_assoc _ _ _).symm
      rw [happ] at hfit ⊢
      rw [recursivelySerializeToUtf8]
      have hdepth : (Str.cons oneByte first second).leftDepth ≤ budget ↔
          first.leftDepth + 1 ≤ budget ∧ second.leftDepth ≤ budget := Nat.max_le
      rw [hdepth]
      split_ifs with hb
      · exact ⟨w, false, rfl, h.size, iff_of_false Bool.false_ne_true (by omega), nofun⟩
      · have hfit' := Nat.le_trans (length_utf8_le_append _ second.units) hfit
        obtain ⟨w₁, success, hrec, hsize, hsuccess, hw₁⟩ :=
          recursivelySerializeToUtf8_spec first (budget - 1) h hfit'
        rw [hrec, Option.bind_some]
        cases success with
        | false =>
            have hdeep := mt hsuccess.mpr Bool.false_ne_true
            exact ⟨w₁, false, rfl, hsize, iff_of_false Bool.false_ne_true (by omega), nofun⟩
        | true =>
            have hleft := hsuccess.mp rfl
            obtain ⟨w₂, success, hrec₂, hsize₂, hsuccess₂, hw₂⟩ :=
              recursivelySerializeToUtf8_spec second budget (hw₁ rfl) hfit
            refine ⟨w₂, success, hrec₂, hsize₂, ?_, hw₂⟩
            rw [hsuccess₂]
            omega

open Utf8WriterVisitor in
/-- `WriteUtf8` writes the text and its terminator into any buffer that has
room, also when it starts again on a flat copy. -/
theorem writeUtf8_eq (fill : Nat → UInt16) {str : Str} (h : str.WellFormed)
    (hwritable : str.Writable) {buffer : Block UInt8}
    (hfit : (utf8 str.units).length + 1 ≤ buffer.length) :
    ∃ rest, writeUtf8 fill str buffer = some (utf8 str.units ++ 0 :: rest) := by
  have hfit₀ : (utf8 ([] ++ str.units)).length ≤ buffer.length := by
    rw [List.nil_append]
    omega
  obtain ⟨w, success, hrec, hsize, hsuccess, hw⟩ :=
    recursivelySerializeToUtf8_spec str kMaxRecursion (wrote_nil buffer) hfit₀
  rw [writeUtf8, hrec, Option.bind_some]
  cases success with
  | true => exact (hw rfl).completeWrite hfit
  | false =>
      -- the budget is exhausted: once more, on the flat copy
      have hflattens := hwritable.resolve_left (mt hsuccess.mpr Bool.false_ne_true)
      obtain ⟨flat, hflat, -, hleaf, hunits⟩ := Str.tryFlatten_eq fill h hflattens
      show ∃ rest, (str.tryFlatten fill).join.bind _ = _
      rw [hflat, Option.join_some, Option.bind_some]
      cases hv : flat.visitFlat with
      | consString first second =>
          cases flat with
          | cons => exact absurd hleaf id
          | seq => cases hv
          | external => cases hv
          | sliced => cases hv
      | leaf chars =>
          have hchars : chars.units = str.units := by
            rw [← hunits, Str.units_of_visitFlat_leaf hv]
          have hw₀ : Wrote ⟨w.buffer, 0, none⟩ buffer.length [] := hsize ▸ wrote_nil w.buffer
          obtain ⟨w', hvisit, hw'⟩ := hw₀.visitChars chars (by rwa [hchars])
          rw [List.nil_append, hchars] at hw'
          simp only [hvisit, Option.bind_some]
          exact hw'.completeWrite hfit

open Utf8WriterVisitor in
/-- Without a flat copy to start again on it does not get to its end. -/
theorem writeUtf8_eq_none (fill : Nat → UInt16) {str : Str} (hwritable : ¬ str.Writable)
    {buffer : Block UInt8} (hfit : (utf8 str.units).length + 1 ≤ buffer.length) :
    writeUtf8 fill str buffer = none := by
  obtain ⟨hdeep, hrefused⟩ := not_or.mp hwritable
  have hfit₀ : (utf8 ([] ++ str.units)).length ≤ buffer.length := by
    rw [List.nil_append]
    omega
  obtain ⟨w, success, hrec, -, hsuccess, -⟩ :=
    recursivelySerializeToUtf8_spec str kMaxRecursion (wrote_nil buffer) hfit₀
  rw [writeUtf8, hrec, Option.bind_some]
  cases success with
  | true => exact absurd (hsuccess.mp rfl) hdeep
  | false =>
      show (str.tryFlatten fill).join.bind _ = none
      rw [Str.tryFlatten_refused fill hrefused]
      rfl

/-- The allocation of a `Utf8Value` has room for every string of the heap: its size stays
below 2^32. -/
theorem le_newArraySize {str : Str} (h : str.WellFormed) (hlength : str.length ≤ Str.kMaxLength) :
    (utf8 str.units).length + 1 ≤ newArraySize (utf8Length str) := by
  obtain ⟨hle, hupper⟩ := totalLength_bounds h
  have hmax : Str.kMaxLength = 1073741823 := rfl
  have hmod : (totalLength str : Int).bmod 0x100000000 % 0x100000000 =
      totalLength str % 0x100000000 := Int.bmod_emod
  unfold newArraySize utf8Length
  omega

/-- `Utf8Value` never writes outside its allocation: it holds the text's UTF-8
and a zero byte after it. -/
theorem utf8Value_eq (fill : Nat → UInt16) (garbage : Nat → UInt8) {str : Str}
    (h : str.WellFormed) (hlength : str.length ≤ Str.kMaxLength) (hwritable : str.Writable) :
    ∃ rest, utf8Value fill garbage str = some (utf8 str.units ++ 0 :: rest) := by
  refine writeUtf8_eq fill h hwritable ?_
  rw [length_allocate]
  exact le_newArraySize h hlength

theorem utf8Value_eq_none (fill : Nat → UInt16) (garbage : Nat → UInt8) {str : Str}
    (h : str.WellFormed) (hlength : str.length ≤ Str.kMaxLength) (hwritable : ¬ str.Writable) :
    utf8Value fill garbage str = none := by
  refine writeUtf8_eq_none fill hwritable ?_
  rw [length_allocate]
  exact le_newArraySize h hlength

end WeexBridge.V8
