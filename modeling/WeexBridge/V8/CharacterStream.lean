/-
# `StringCharacterStream`

A stream reads the characters of a string one after the other.  Its buffer is a window of
the leaf it stands in; at the end of the window it goes to the next leaf of the cons
string.

    Streams    the characters that a stream has still to give
    Call       what a reader may ask of a stream
-/
import WeexBridge.V8.ConsIterator

namespace WeexBridge.V8

/-! ## `String::Visit` -/

/-- What `String::Visit` hands the visitor of a leaf: the characters from the offset on. -/
def Str.visit (offset : Nat) : Str → Option FlatChars
  | .seq chars => some (chars.window offset (chars.length - offset))
  | .external _ chars => some (chars.window offset (chars.length - offset))
  | .sliced parent start length => some (parent.window (offset + start) (length - offset))
  | .cons _ _ _ => none

theorem Str.visit_eq {s : Str} (hwf : s.WellFormed) (hleaf : s.IsLeaf) (offset : Nat) :
    ∃ chars, s.visit offset = some chars ∧ chars.units = s.units.drop offset := by
  have hflat : ∀ chars : FlatChars,
      (chars.window offset (chars.length - offset)).units = chars.units.drop offset := by
    intro chars
    rw [FlatChars.units_window, List.take_of_length_le]
    rw [List.length_drop, FlatChars.length_units]
  cases s with
  | seq chars => exact ⟨_, rfl, hflat chars⟩
  | external _ chars => exact ⟨_, rfl, hflat chars⟩
  | sliced parent start length =>
      refine ⟨_, rfl, ?_⟩
      show _ = ((parent.window start length).units).drop offset
      rw [FlatChars.units_window, FlatChars.units_window, List.drop_take, List.drop_drop,
        Nat.add_comm]
  | cons _ _ _ => exact absurd hleaf id

/-! ## The stream -/

/-- `buffer` is what lies from `buffer8_` or `buffer16_` to `end_`. -/
structure StringCharacterStream where
  buffer : List UInt16
  op : ConsStringIteratorOp

namespace StringCharacterStream

/-- `String::Visit` of a leaf, with no iterator. -/
def visit (string : Str) (stream : StringCharacterStream) : StringCharacterStream :=
  match string.visit 0 with
  | some chars => { stream with buffer := chars.units }
  | none => stream

/-- `Reset`: `String::Visit` with the iterator. -/
def reset (string : Str) (op : ConsStringIteratorOp) (offset : Nat) : StringCharacterStream :=
  let op := op.reset
  match string with
  | .cons oneByte first second =>
      match op.operate ⟨oneByte, first, second⟩ offset with
      | (some (leaf, start), op) => ⟨((leaf.visit start).map FlatChars.units).getD [], op⟩
      | (none, op) => ⟨[], op⟩
  | string => ⟨((string.visit offset).map FlatChars.units).getD [], op⟩

/-- `HasMore`; no result where memory is read that was not written. -/
def hasMore (stream : StringCharacterStream) : Option (Bool × StringCharacterStream) :=
  if stream.buffer ≠ [] then some (true, stream)
  else if !stream.op.hasMore then some (false, stream)
  else match stream.op.continueOperation with
    | some (some string, op) =>
        some (true, ({ stream with op } : StringCharacterStream).visit string)
    | some (none, op) => some (false, { stream with op })
    | none => none

/-- `*buffer8_++`, or `*buffer16_++` -/
def next (stream : StringCharacterStream) : Option (UInt16 × StringCharacterStream) :=
  match stream.buffer with
  | [] => none
  | c :: buffer => some (c, { stream with buffer })

/-- `GetNext` -/
def getNext (stream : StringCharacterStream) : Option (UInt16 × StringCharacterStream) :=
  if stream.buffer = [] then stream.hasMore.bind fun (_, stream) => stream.next
  else stream.next

/-! ## What is read -/

/-- The characters that are still to come. -/
def Streams (stream : StringCharacterStream) (units : List UInt16) : Prop :=
  ∃ rest, stream.op.Rests rest ∧ units = stream.buffer ++ rest

section
variable {stream : StringCharacterStream} {units : List UInt16}

theorem streams_reset {string : Str} (hwf : string.WellFormed) (op : ConsStringIteratorOp)
    {offset : Nat} (hle : offset ≤ string.length) :
    Streams (reset string op offset) (string.units.drop offset) := by
  have hvisit : ∀ {leaf : Str}, leaf.WellFormed → leaf.IsLeaf → ∀ start,
      ((leaf.visit start).map FlatChars.units).getD [] = leaf.units.drop start := by
    intro leaf hwf hleaf start
    obtain ⟨chars, hchars, hunits⟩ := Str.visit_eq hwf hleaf start
    rw [hchars, ← hunits]
    rfl
  cases string with
  | cons oneByte first second =>
      unfold reset
      dsimp only
      rcases op.reset.operate_eq ⟨oneByte, first, second⟩ hwf hle with
        ⟨leaf, start, op', rest, heq, hleaf, hisLeaf, -, -, hunits, hrests⟩ |
        ⟨op', heq, hend, hrests⟩
      · rw [heq]
        refine ⟨rest, hrests, ?_⟩
        dsimp only
        rw [hvisit hleaf hisLeaf]
        exact hunits
      · rw [heq]
        refine ⟨[], hrests, ?_⟩
        refine List.drop_eq_nil_of_le (Nat.le_of_eq ?_)
        exact (Str.length_units hwf).trans hend.symm
  | _ => exact ⟨[], op.rests_reset, ((List.append_nil _).trans (hvisit hwf trivial offset)).symm⟩

/-- `HasMore` tells whether there are characters to come, and if so it goes to the next. -/
theorem Streams.hasMore_eq (h : Streams stream units) :
    ∃ stream', stream.hasMore = some (decide (units ≠ []), stream') ∧ Streams stream' units ∧
      (units ≠ [] → stream'.buffer ≠ []) := by
  obtain ⟨rest, hrests, rfl⟩ := h
  unfold hasMore
  by_cases hbuffer : stream.buffer = []
  · rw [if_neg (not_not_intro hbuffer), hbuffer, List.nil_append]
    by_cases hdepth : stream.op.depth = 0
    · obtain rfl := hrests.eq_nil hdepth
      have hmore : stream.op.hasMore = false := decide_eq_false (not_not_intro hdepth)
      rw [hmore]
      exact ⟨stream, rfl, ⟨[], hrests, by rw [hbuffer]; rfl⟩, fun h => absurd rfl h⟩
    · have hmore : stream.op.hasMore = true := decide_eq_true hdepth
      rw [hmore, if_neg (by decide)]
      rcases ConsStringIteratorOp.continueOperation_eq hrests with
        ⟨leaf, op', rest', heq, hwf, hleaf, hpos, rfl, hrests'⟩ | ⟨op', heq, rfl, hrests'⟩
      · obtain ⟨chars, hchars, hunits⟩ := Str.visit_eq hwf hleaf 0
        rw [List.drop_zero] at hunits
        have hne : leaf.units ≠ [] := by
          rw [← List.length_pos_iff_ne_nil, Str.length_units hwf]
          exact hpos
        rw [heq]
        refine ⟨⟨leaf.units, op'⟩, ?_, ⟨rest', hrests', rfl⟩, fun _ => hne⟩
        dsimp only
        rw [visit, hchars, ← hunits, decide_eq_true]
        rw [hunits]
        exact fun h => hne (List.append_eq_nil_iff.mp h).1
      · rw [heq]
        exact ⟨⟨[], op'⟩, rfl, ⟨[], hrests', rfl⟩, fun h => absurd rfl h⟩
  · rw [if_pos hbuffer]
    have hne : stream.buffer ++ rest ≠ [] := fun h => hbuffer (List.append_eq_nil_iff.mp h).1
    exact ⟨stream, by rw [decide_eq_true hne], ⟨rest, hrests, rfl⟩, fun _ => hbuffer⟩

theorem Streams.next_eq {c : UInt16} (h : Streams stream (c :: units))
    (hbuffer : stream.buffer ≠ []) :
    ∃ stream', stream.next = some (c, stream') ∧ Streams stream' units := by
  obtain ⟨rest, hrests, hunits⟩ := h
  obtain ⟨buffer, op⟩ := stream
  cases buffer with
  | nil => exact absurd rfl hbuffer
  | cons d buffer =>
      obtain ⟨rfl, rfl⟩ := List.cons.inj hunits
      exact ⟨⟨buffer, op⟩, rfl, rest, hrests, rfl⟩

/-- `GetNext` gives the next character, if there is one. -/
theorem Streams.getNext_eq {c : UInt16} (h : Streams stream (c :: units)) :
    ∃ stream', stream.getNext = some (c, stream') ∧ Streams stream' units := by
  unfold getNext
  by_cases hbuffer : stream.buffer = []
  · rw [if_pos hbuffer]
    obtain ⟨stream', heq, hstreams, hne⟩ := h.hasMore_eq
    rw [heq]
    exact hstreams.next_eq (hne (List.cons_ne_nil c units))
  · rw [if_neg hbuffer]
    exact h.next_eq hbuffer

theorem Streams.getNext_nil (h : Streams stream []) : stream.getNext = none := by
  obtain ⟨rest, hrests, hunits⟩ := h
  obtain ⟨hbuffer, -⟩ := List.append_eq_nil_iff.mp hunits.symm
  obtain ⟨stream', heq, ⟨rest', -, hunits'⟩, -⟩ := Streams.hasMore_eq ⟨rest, hrests, hunits⟩
  have hbuffer' := (List.append_eq_nil_iff.mp hunits'.symm).1
  unfold getNext next
  rw [if_pos hbuffer, heq, Option.bind_some]
  dsimp only
  rw [hbuffer']

end

/-! ## Readers -/

/-- What a reader asks of a stream. -/
inductive Call where
  | hasMore
  | getNext

inductive Answer where
  | more (more : Bool)
  | character (c : UInt16)
  deriving DecidableEq

def call (stream : StringCharacterStream) : Call → Option (Answer × StringCharacterStream)
  | .hasMore => stream.hasMore.map fun (more, stream) => (.more more, stream)
  | .getNext => stream.getNext.map fun (c, stream) => (.character c, stream)

/-- The answers to calls, one after the other. -/
def answers : List Call → StringCharacterStream → Option (List Answer)
  | [], _ => some []
  | c :: calls, stream =>
      (stream.call c).bind fun (answer, stream) => (answers calls stream).map (answer :: ·)

/-- The answers of a list of characters. -/
def listAnswers : List Call → List UInt16 → Option (List Answer)
  | [], _ => some []
  | .hasMore :: calls, units => (listAnswers calls units).map (.more (units ≠ []) :: ·)
  | .getNext :: calls, c :: units => (listAnswers calls units).map (.character c :: ·)
  | .getNext :: _, [] => none

theorem Streams.answers_eq {stream : StringCharacterStream} {units : List UInt16}
    (h : Streams stream units) (calls : List Call) :
    answers calls stream = listAnswers calls units := by
  induction calls generalizing stream units with
  | nil => rfl
  | cons c calls ih =>
      cases c with
      | hasMore =>
          obtain ⟨stream', heq, hstreams, -⟩ := h.hasMore_eq
          rw [answers, call, heq, listAnswers, ← ih hstreams]
          rfl
      | getNext =>
          cases units with
          | nil =>
              rw [answers, call, h.getNext_nil]
              rfl
          | cons c units =>
              obtain ⟨stream', heq, hstreams⟩ := h.getNext_eq
              rw [answers, call, heq, listAnswers, ← ih hstreams]
              rfl

end StringCharacterStream

open StringCharacterStream

/-- Whatever is asked of a stream, it answers as the list of the characters from the offset
on would, however deep the cons string is, and however often the ring of the iterator goes
round. -/
theorem answers_reset {string : Str} (hwf : string.WellFormed) (op : ConsStringIteratorOp)
    {offset : Nat} (hle : offset ≤ string.length) (calls : List Call) :
    answers calls (reset string op offset) = listAnswers calls (string.units.drop offset) :=
  (streams_reset hwf op hle).answers_eq calls

/-- A cons string that is deep on its left. -/
def Str.leftDeep : Nat → Str
  | 0 => .seq (.twoByte (List.replicate 13 0x61))
  | n + 1 => .cons false (leftDeep n) (.seq (.oneByte [0x62]))

theorem Str.wellFormed_leftDeep (n : Nat) : (leftDeep n).WellFormed ∧ 13 ≤ (leftDeep n).length := by
  induction n with
  | zero => exact ⟨trivial, by decide⟩
  | succ n ih =>
      have hlength : (leftDeep (n + 1)).length = (leftDeep n).length + 1 := rfl
      refine ⟨⟨ih.1, trivial, ⟨?_, ?_, .inl (by decide), nofun⟩⟩, ?_⟩
      · exact Nat.lt_of_lt_of_le (by decide) ih.2
      · exact Nat.le_trans ih.2 (Nat.le_add_right _ _)
      · rw [hlength]
        exact Nat.le_succ_of_le ih.2

theorem answers_reset_leftDeep :
    answers [.getNext, .getNext, .hasMore] (reset (.leftDeep 40) .new 12) =
      listAnswers [.getNext, .getNext, .hasMore] ((Str.leftDeep 40).units.drop 12) :=
  answers_reset (Str.wellFormed_leftDeep 40).1 .new (by decide) _

end WeexBridge.V8
