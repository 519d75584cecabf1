/-
# The two serializers agree

As long as no assertion fails, `BasicJsonStringifier` does what `JSONSerialize` does:
it asks the same of user code, in the same states, and comes to the same end.

    Agrees       a result of `JSONSerialize`, and one of `Serialize_` with its writer
    Simulates    a serializer of the second kind follows one of the first
-/
import WeexBridge.V8.JsonSerialize

namespace WeexBridge.V8

open Reentrant CodeUnits

open JsonWriter BasicJsonStringifier

namespace JsonSerialize

/-- The text of an integer is the same for the double that it is. -/
def PrintsIntegers (platform : JsonPlatform) : Prop :=
  ∀ bits n, smiOfDouble bits = some n →
    cString (platform.doubleToCString bits) = cString (intToCString n)

section
variable {platform : JsonPlatform} {w : JsonWriter}

/-- What `%QuoteJSONString` gives, if it gives anything. -/
theorem runtimeQuoteJsonString_some {fill : Nat → UInt16} {s : JsString} {text : List UInt16}
    (h : runtimeQuoteJsonString fill s.val = some text) : s.val.Flattens ∧ text = quoted s := by
  obtain ⟨chars, hchars, htext⟩ := Option.bind_eq_some_iff.mp h
  obtain ⟨hflat, hunits⟩ := Str.flatContent_some s.property hchars
  split_ifs at htext
  cases htext
  refine ⟨hflat, ?_⟩
  rw [quoteJsonString, hunits]
  rfl

theorem adds_serializeString (h : w.Ok) (s : JsString) (hflat : s.val.Flattens) :
    w.Adds (w.serializeString platform.fill s.val) (quoted s) := by
  obtain ⟨chars, hchars, hunits⟩ := Str.flatContent_eq platform.fill s.property hflat
  have hadds := adds_quoteJsonString h hchars
  rw [quoteJsonString, hunits] at hadds
  exact hadds

theorem adds_serializeDeferredKey (h : w.Ok) (deferred : Deferred) (key : PropertyKey) :
    w.Adds (serializeDeferredKey platform deferred key w) (deferredText deferred key) := by
  have hflat := Str.flattens_of_isLeaf key.isLeaf_toJsString
  have hcomma : w.Adds
      (if deferred.comma then w.append platform.fill 0x2C else some w)
      (if deferred.comma then [0x2C] else []) := by
    split_ifs
    · exact adds_append h (by decide)
    · exact adds_nil h
  unfold serializeDeferredKey deferredText
  split_ifs at hcomma ⊢
  · exact hcomma.bind fun w₁ h₁ => (adds_serializeString h₁ _ hflat).bind fun w₂ h₂ =>
      adds_append h₂ (by decide)
  · exact hcomma.bind fun w₁ h₁ => (adds_serializeString h₁ _ hflat).bind fun w₂ h₂ =>
      adds_append h₂ (by decide)
  · exact adds_nil h
  · exact adds_nil h

/-! ### Numbers -/

theorem isInfOrNan_eq_false {bits : UInt64} {n : Int} (h : smiOfDouble bits = some n) :
    isInfOrNan bits = false := by
  refine decide_eq_false fun hinf => ?_
  unfold smiOfDouble at h
  dsimp only at h
  split_ifs at h with hzero hsmall
  · rw [hzero] at hinf
    exact absurd hinf (by decide)
  all_goals
    have := hsmall.2.1
    omega

theorem adds_null (h : w.Ok) :
    w.Adds (w.appendAscii platform.fill (literalBytes "null")) (ascii "null") :=
  adds_appendAscii h _

theorem adds_serializeSmi (h : w.Ok) (n : Int) :
    w.Adds (serializeSmi platform n w) (jsonNumberToString platform (.smi n)) :=
  adds_appendAscii h _

theorem adds_serializeNumber (h : w.Ok) : ∀ n,
    w.Adds (serializeNumber platform n w) (jsonNumberToString platform n)
  | .smi n => adds_serializeSmi h n
  | .heapNumber bits => by
      show w.Adds (serializeDouble platform bits w) (if isInfOrNan bits then _ else _)
      unfold serializeDouble
      split_ifs
      · exact adds_null h
      · exact adds_appendAscii h _

theorem adds_serializeDouble (hplatform : PrintsIntegers platform) (h : w.Ok) (bits : UInt64) :
    w.Adds (serializeDouble platform bits w)
      (jsonNumberToString platform (numberFromDouble bits)) := by
  unfold numberFromDouble
  split
  · rename_i n hn
    unfold serializeDouble
    rw [isInfOrNan_eq_false hn]
    show w.Adds (w.appendAscii platform.fill _) ((cString (intToCString n)).map UInt8.toUInt16)
    rw [← hplatform bits n hn]
    exact adds_appendAscii h _
  · exact adds_serializeNumber h (.heapNumber bits)

theorem adds_serializeBoolean (h : w.Ok) (b : Bool) :
    w.Adds (serializeBoolean platform b w) (booleanToString b) := by
  cases b with
  | true => exact adds_appendAscii h _
  | false => exact adds_appendAscii h _

end

/-! ## Members -/

theorem join_concat (member : List UInt16) : ∀ members : Members,
    join (members ++ [member]) = join members ++ (separator members ++ member)
  | [] => List.intercalate_singleton
  | [first] => by
      show join [first, member] = join [first] ++ ([0x2C] ++ member)
      rw [join, join, List.intercalate_cons_cons, List.intercalate_singleton,
        List.intercalate_singleton, List.append_assoc]
  | first :: second :: members => by
      have hrest := join_concat member (second :: members)
      show join (first :: second :: (members ++ [member])) =
        join (first :: second :: members) ++ ([0x2C] ++ member)
      rw [join, join, List.intercalate_cons_cons, List.intercalate_cons_cons, List.append_assoc _ _
        (([0x2C] : List UInt16) ++ member)]
      exact congrArg _ hrest

section
variable {platform : JsonPlatform} {w : JsonWriter}

theorem adds_elementComma (h : w.Ok) {members : Members} {i : Nat} (hi : members.length = i) :
    w.Adds (elementComma platform i w) (separator members) := by
  unfold elementComma separator
  cases members with
  | nil =>
      cases hi
      exact adds_nil h
  | cons first members =>
      rw [if_pos (hi ▸ Nat.succ_pos _)]
      exact adds_append h (by decide)

end

/-! ## Results that agree -/

/-- Both serializers have come to the same end: to no text, to a text that the writer has
after `text` and `before`, and that a string has room for, or to an exception. -/
inductive Agrees (text before : List UInt16) :
    JsonResult → SerializeResult × JsonWriter → Prop where
  | unchanged {w : JsonWriter} : w.Ok → w.text = text →
      Agrees text before (.ok none) (.unchanged, w)
  | success {w : JsonWriter} {added : List UInt16} : w.Ok → w.text.length ≤ Str.kMaxLength →
      w.text = text ++ (before ++ added) → Agrees text before (.ok (some added)) (.success, w)
  | exception {e : JsValue} {w : JsonWriter} :
      Agrees text before (.error (.value e)) (.exception e, w)
  | circular {w : JsonWriter} : Agrees text before (.error .circular) (.circular, w)

/-- The same for a loop over members. -/
inductive AgreesMembers (text : List UInt16) :
    Except Thrown Members → SerializeResult × JsonWriter → Prop where
  | success {w : JsonWriter} {members : Members} : w.Ok → w.text = text ++ join members →
      AgreesMembers text (.ok members) (.success, w)
  | exception {e : JsValue} {w : JsonWriter} :
      AgreesMembers text (.error (.value e)) (.exception e, w)
  | circular {w : JsonWriter} : AgreesMembers text (.error .circular) (.circular, w)

/-- A failed step of the plain serializer needs no match. -/
theorem follows_crash {α β γ : Type} {R : α → β → Prop} {f : γ → JsProgram α} {q : JsProgram β}
    {s : JsHeap} : FollowsFrom s R ((Program.crash : JsProgram γ) >>= f) q := trivial

/-- After the assertion there is room for what has been written. -/
theorem follows_fits {α β : Type} {R : α → β → Prop} {n : Nat} {f : Unit → JsProgram α}
    {q : JsProgram β} {s : JsHeap} (h : n ≤ Str.kMaxLength → FollowsFrom s R (f ()) q) :
    FollowsFrom s R (checked (fits n) >>= f) q :=
  FollowsFrom.check fun hfits => h (of_decide_eq_true hfits)

/-- What `p` writes is the text. -/
theorem follows_success {w : JsonWriter} {p : Option JsonWriter} {before added : List UInt16}
    (h : w.Adds p (before ++ added)) {n : Nat} (hn : n = w.text.length + before.length)
    (s : JsHeap) :
    FollowsFrom s (Agrees w.text before) (written checked n added) (success p) := by
  refine follows_fits fun hfits => ?_
  have hlength : w.text.length + (before ++ added).length ≤ Str.kMaxLength := by
    rw [List.length_append]
    omega
  obtain ⟨w', rfl, hok, htext⟩ := h.exists_some hlength
  refine FollowsFrom.pure (Agrees.success hok ?_ htext)
  rwa [htext, List.length_append]

/-- The same where `before` has been written already. -/
theorem follows_success_after {w : JsonWriter} {p : Option JsonWriter}
    {text before added : List UInt16} (h : w.Adds p added) (htext : w.text = text ++ before)
    {n : Nat} (hn : n = text.length + before.length) (s : JsHeap) :
    FollowsFrom s (Agrees text before) (written checked n added) (success p) := by
  refine follows_fits fun hfits => ?_
  have hlength : w.text.length + added.length ≤ Str.kMaxLength := by
    rw [htext, List.length_append]
    omega
  obtain ⟨w', rfl, hok, htext'⟩ := h.exists_some hlength
  refine FollowsFrom.pure (Agrees.success hok ?_ ?_)
  · rwa [htext', List.length_append]
  · rw [htext', htext, List.append_assoc]

/-- A writer that there is. -/
theorem follows_lift {α β : Type} {R : α → β → Prop} {w : JsonWriter} {p : Option JsonWriter}
    {chars : List UInt16} (h : w.Adds p chars)
    (hfits : w.text.length + chars.length ≤ Str.kMaxLength) {q : JsProgram α}
    {f : JsonWriter → JsProgram β} {s : JsHeap}
    (hf : ∀ w' : JsonWriter, w'.Ok → w'.text = w.text ++ chars →
      FollowsFrom s R q (f w')) : FollowsFrom s R q (lift p >>= f) := by
  obtain ⟨w', rfl, hok, htext⟩ := h.exists_some hfits
  exact hf w' hok htext

/-- A string that can be quoted can be written. -/
theorem follows_quoteString {platform : JsonPlatform} {α β : Type} {R : α → β → Prop}
    {value : JsString} {f : List UInt16 → JsProgram α} {q : JsProgram β} {s : JsHeap}
    (h : value.val.Flattens → FollowsFrom s R (f (quoted value)) q) :
    FollowsFrom s R (quoteString platform value >>= f) q := by
  unfold quoteString
  cases hquote : runtimeQuoteJsonString platform.fill value.val with
  | none => exact follows_crash
  | some text =>
      obtain ⟨hflat, rfl⟩ := runtimeQuoteJsonString_some hquote
      exact h hflat

theorem follows_concat {α β : Type} {R : α → β → Prop} {text : List UInt16}
    {f : List UInt16 → JsProgram α} {q : JsProgram β} {s : JsHeap}
    (h : FollowsFrom s R (f text) q) : FollowsFrom s R (concat text >>= f) q := by
  unfold concat
  split_ifs
  · exact h
  · exact follows_crash

theorem follows_partialJoin {α β : Type} {R : α → β → Prop} {members : Members}
    {f : List UInt16 → JsProgram α} {q : JsProgram β} {s : JsHeap}
    (h : FollowsFrom s R (f (join members)) q) :
    FollowsFrom s R (partialJoin members >>= f) q := by
  unfold partialJoin
  split_ifs
  · exact h
  · exact follows_crash

/-- The fast serializer follows the plain one, which knows how much the fast one has written;
of what needs no user code, it is known what they do. -/
structure Simulates (platform : JsonPlatform) (plain : Serializer)
    (fast : BasicJsonStringifier.Serializer) : Prop where
  follows : ∀ stack deferred key value {w : JsonWriter} {n : Nat} s, w.Ok →
    n = w.text.length + (deferredText deferred key).length →
      FollowsFrom s (Agrees w.text (deferredText deferred key)) (plain n stack key value)
        (fast stack deferred key value w)
  number : ∀ before stack key n, plain before stack key (.number n) =
    written checked before (jsonNumberToString platform n)
  undefined : ∀ before stack key, plain before stack key .undefined = pure (.ok none)
  unchanged : ∀ stack deferred key w, fast stack deferred key .undefined w = pure (.unchanged, w)

/-! ## `toJSON` -/

theorem follows_applyToJson (ref : Nat) (key : PropertyKey) (s : JsHeap) :
    FollowsFrom s Eq (applyToJson checked key (.object ref)) (applyToJsonFunction ref key) := by
  unfold applyToJson applyToJsonFunction JsProgram.get
  dsimp only
  rw [bind_assoc]
  refine FollowsFrom.read_left (FollowsFrom.read_right ?_)
  cases s.lookup ref toJsonName with
  | none => exact FollowsFrom.check fun _ => FollowsFrom.refl (fun _ => rfl) _
  | some property =>
      refine FollowsFrom.same fun toJson s => FollowsFrom.check fun hok => ?_
      cases toJson with
      | error e => cases hok
      | ok value =>
          cases value with
          | object function => exact FollowsFrom.refl (fun _ => rfl) _
          | _ => exact FollowsFrom.refl (fun _ => rfl) _

/-! ## What is around the members -/

/-- The members between brackets. -/
theorem follows_close {platform : JsonPlatform} {text before : List UInt16} {left right : UInt16}
    (hright : right.toNat < 256) {r : Except Thrown Members} {result : SerializeResult × JsonWriter}
    (h : AgreesMembers (text ++ (before ++ [left])) r result) {n : Nat}
    (hn : n = text.length + before.length) (s : JsHeap) :
    FollowsFrom s (Agrees text before) (bracketed checked left right n r)
      (close platform right result) := by
  cases r with
  | error e =>
      cases h with
      | exception => exact FollowsFrom.pure Agrees.exception
      | circular => exact FollowsFrom.pure Agrees.circular
  | ok members =>
      cases h with
      | @success w _ hok htext =>
          refine follows_partialJoin (follows_concat (follows_fits fun hfits => ?_))
          have hlength : w.text.length + [right].length ≤ Str.kMaxLength := by
            rw [htext]
            simp only [List.length_append, List.length_singleton] at hfits ⊢
            omega
          refine follows_lift (adds_append hok hright) hlength fun w' hok' htext' => ?_
          refine FollowsFrom.pure (Agrees.success hok' ?_ ?_)
          · rwa [htext', List.length_append]
          · rw [htext', htext]
            simp only [List.append_assoc]

/-! ## Arrays -/

section
variable {platform : JsonPlatform} {base : List UInt16}

/-- What follows an element, when the loops go on alike. -/
theorem follows_afterElement {members : Members} {w : JsonWriter} {r : JsonResult}
    {result : SerializeResult × JsonWriter} (h : Agrees w.text [] r result)
    (htext : w.text = base ++ (join members ++ separator members))
    {n : Nat} (hn : n = w.text.length) {plainLoop : Members → JsProgram (Except Thrown Members)}
    {fastLoop : JsonWriter → JsProgram (SerializeResult × JsonWriter)} {s : JsHeap}
    (hloop : ∀ (member : List UInt16) {w' : JsonWriter}, w'.Ok →
      w'.text = base ++ join (members ++ [member]) →
        FollowsFrom s (AgreesMembers base) (plainLoop (members ++ [member])) (fastLoop w')) :
    FollowsFrom s (AgreesMembers base)
      (match r with
        | .ok text => do
            let member := text.getD (ascii "null")
            checked (fits (n + member.length))
            plainLoop (members ++ [member])
        | .error e => pure (.error e))
      (afterElement platform fastLoop result) := by
  cases h with
  | unchanged hok hsame =>
      refine follows_fits fun hfits => ?_
      refine follows_lift (adds_null hok) ?_ fun w' hok' htext' => hloop _ hok' ?_
      · rwa [hsame, ← hn]
      · rw [htext', hsame, htext, join_concat, List.append_assoc, List.append_assoc]
        rfl
  | success hok _ hadded =>
      refine follows_fits fun _ => hloop _ hok ?_
      rw [hadded, htext, join_concat, List.nil_append, List.append_assoc, List.append_assoc]
      rfl
  | exception => exact FollowsFrom.pure AgreesMembers.exception
  | circular => exact FollowsFrom.pure AgreesMembers.circular

theorem lookup_of_own {heap : JsHeap} {ref : Nat} {key : PropertyKey} {property : Property}
    (h : heap.own ref key = some property) : heap.lookup ref key = some property := by
  unfold JsHeap.lookup JsHeap.chain
  rw [List.findSome?_cons, h]

theorem isCurrent_fast {ref i store length : Nat} {heap : JsHeap}
    (h : isCurrent ref i heap (.fast store length) = true) :
    isFastOfLength heap ref length = true ∧ ∃ value,
      heap.lookup ref (.index i) = some (.data value) ∧
        (heap.stores store)[i]? = some (some value) := by
  obtain ⟨hfast, hcell⟩ := (Bool.and_eq_true _ _).mp h
  obtain ⟨hsome, hlookup⟩ := (Bool.and_eq_true _ _).mp hcell
  refine ⟨hfast, ?_⟩
  rw [of_decide_eq_true hlookup]
  rcases hcell : (heap.stores store)[i]? with _ | _ | value
  · rw [hcell] at hsome
    cases hsome
  · rw [hcell] at hsome
    cases hsome
  · exact ⟨value, rfl, rfl⟩

/-- The read of an element that is there as a value. -/
theorem follows_element {α β : Type} {R : α → β → Prop} {ref i : Nat} {s : JsHeap}
    {value : JsValue} (h : s.lookup ref (.index i) = some (.data value))
    {f : Except JsValue JsValue → JsProgram α} {q : JsProgram β}
    (hf : FollowsFrom s R (f (.ok value)) q) :
    FollowsFrom s R (element checked ref i >>= f) q := by
  unfold element JsProgram.get
  simp only [bind_assoc]
  refine FollowsFrom.read_left ?_
  rw [h]
  exact FollowsFrom.check fun _ => hf

section
variable {plain : Serializer} {fast : BasicJsonStringifier.Serializer}
  (hsim : Simulates platform plain fast)
include hsim

/-- The loop over `FAST_ELEMENTS`: while the array is as it was, the cell that is read is
the element. -/
theorem follows_serializeFastElements (stack : List Nat) (ref store length : Nat) :
    ∀ (rest i : Nat) {members : Members} {w : JsonWriter} (s : JsHeap), members.length = i →
      w.Ok → w.text = base ++ join members →
        FollowsFrom s (AgreesMembers base)
          (serializeElements checked plain base.length stack ref (.fast store length) i rest
            members)
          (serializeFastElements platform fast stack ref store length i rest w)
  | 0, _, _, _, _, _, hok, htext => FollowsFrom.pure (AgreesMembers.success hok htext)
  | rest + 1, i, members, w, s, hi, hok, htext => by
      unfold serializeElements serializeFastElements
      refine FollowsFrom.check fun hcurrent => FollowsFrom.read_right ?_
      obtain ⟨hfast, value, hlookup, hcell⟩ := isCurrent_fast hcurrent
      rw [if_pos hfast]
      refine follows_fits fun hfits => ?_
      refine follows_lift (adds_elementComma hok hi) ?_ fun w₁ hok₁ htext₁ => ?_
      · rw [htext]
        simp only [List.length_append] at hfits ⊢
        omega
      have htext₁' : w₁.text = base ++ (join members ++ separator members) := by
        rw [htext₁, htext, List.append_assoc]
      have hbefore : base.length + (join members ++ separator members).length =
          w₁.text.length := by
        rw [htext₁']
        exact List.length_append.symm
      refine FollowsFrom.read_right ?_
      unfold serializeProperty
      rw [hcell, bind_assoc]
      refine follows_element hlookup
        ((hsim.follows stack ⟨false, false⟩ (.index i) value s hok₁ hbefore).bind
          fun {r result} s h => ?_)
      refine follows_afterElement h htext₁' hbefore fun member w' hok' htext' => ?_
      refine follows_serializeFastElements stack ref store length rest (i + 1) s ?_ hok' htext'
      rw [List.length_append, hi]
      rfl

/-- The loop that reads each element as a property. -/
theorem follows_serializeJSArraySlow (stack : List Nat) (ref length : Nat)
    (entries : List ElementEntry) :
    ∀ (rest i : Nat) {members : Members} {w : JsonWriter} (s : JsHeap), members.length = i →
      w.Ok → w.text = base ++ join members →
        FollowsFrom s (AgreesMembers base)
          (serializeElements checked plain base.length stack ref (.other length entries) i rest
            members)
          (serializeJSArraySlow platform fast stack ref i rest w)
  | 0, _, _, _, _, _, hok, htext => FollowsFrom.pure (AgreesMembers.success hok htext)
  | rest + 1, i, members, w, s, hi, hok, htext => by
      unfold serializeElements serializeJSArraySlow serializeProperty element
      refine FollowsFrom.check fun _ => follows_fits fun hfits => ?_
      refine follows_lift (adds_elementComma hok hi) ?_ fun w₁ hok₁ htext₁ => ?_
      · rw [htext]
        simp only [List.length_append] at hfits ⊢
        omega
      simp only [bind_assoc]
      refine FollowsFrom.same fun value s => FollowsFrom.check fun hvalue => ?_
      have hloop : ∀ (member : List UInt16) {w' : JsonWriter} s, w'.Ok →
          w'.text = base ++ join (members ++ [member]) → FollowsFrom s (AgreesMembers base)
            (serializeElements checked plain base.length stack ref (.other length entries) (i + 1)
              rest (members ++ [member]))
            (serializeJSArraySlow platform fast stack ref (i + 1) rest w') := by
        intro member w' s hok' htext'
        refine follows_serializeJSArraySlow stack ref length entries rest (i + 1) s ?_ hok' htext'
        rw [List.length_append, hi]
        rfl
      have htext₁' : w₁.text = base ++ (join members ++ separator members) := by
        rw [htext₁, htext, List.append_assoc]
      have hbefore : base.length + (join members ++ separator members).length =
          w₁.text.length := by
        rw [htext₁']
        exact List.length_append.symm
      cases value with
      | error e => cases hvalue
      | ok value =>
          rw [pure_bind]
          cases value with
          | undefined =>
              dsimp only
              rw [hsim.undefined, pure_bind]
              exact follows_afterElement (Agrees.unchanged hok₁ rfl) htext₁' hbefore
                fun member _ => hloop member s
          | _ =>
              exact (hsim.follows stack ⟨false, false⟩ (.index i) _ s hok₁ hbefore).bind
                fun {r result} s h => follows_afterElement h htext₁' hbefore
                  fun member _ => hloop member s

/-- The loops over numbers, which need no user code. -/
theorem follows_serializeNumbers {α : Type} {write : α → JsonWriter → Option JsonWriter}
    {number : α → JsNumber}
    (hwrite : ∀ n {w : JsonWriter}, w.Ok →
      w.Adds (write n w) (jsonNumberToString platform (number n)))
    (stack : List Nat) (ref : Nat) (elements : ArrayElements) (s : JsHeap) :
    ∀ (numbers : List α) (i : Nat) {members : Members} {w : JsonWriter},
      (∀ j n, numbers[j]? = some n →
        s.lookup ref (.index (i + j)) = some (.data (.number (number n)))) →
      members.length = i → w.Ok → w.text = base ++ join members →
        FollowsFrom s (AgreesMembers base)
          (serializeElements checked plain base.length stack ref elements i numbers.length
            members)
          (success (serializeNumbers platform write i numbers w))
  | [], _, _, _, _, _, hok, htext => FollowsFrom.pure (AgreesMembers.success hok htext)
  | n :: ns, i, members, w, hlookup, hi, hok, htext => by
      unfold serializeElements serializeProperty
      refine FollowsFrom.check fun _ => follows_fits fun hcomma => ?_
      rw [bind_assoc]
      refine follows_element (hlookup 0 n rfl) ?_
      dsimp only
      rw [hsim.number, written, bind_assoc]
      refine follows_fits fun hfits => ?_
      rw [pure_bind]
      refine follows_fits fun _ => ?_
      have hlength : w.text.length = base.length + (join members).length := by
        rw [htext, List.length_append]
      rw [List.length_append] at hcomma hfits
      obtain ⟨w₁, hw₁, hok₁, htext₁⟩ :=
        (@adds_elementComma platform w hok members i hi).exists_some (by omega)
      have hlength₁ : w₁.text.length = w.text.length + (separator members).length := by
        rw [htext₁, List.length_append]
      obtain ⟨w₂, hw₂, hok₂, htext₂⟩ := (hwrite n hok₁).exists_some (by omega)
      unfold serializeNumbers
      rw [hw₁, Option.bind_some, hw₂, Option.bind_some]
      refine follows_serializeNumbers hwrite stack ref elements s ns (i + 1) (fun j m hm => ?_) ?_
        hok₂ ?_
      · rw [Nat.add_assoc, Nat.add_comm 1 j]
        exact hlookup (j + 1) m hm
      · rw [List.length_append, hi]
        rfl
      · rw [htext₂, htext₁, htext, join_concat]
        simp only [List.append_assoc, Option.getD_some]

/-- An array, of any kind. -/
theorem follows_serializeArray (hplatform : PrintsIntegers platform) (stack : List Nat) (ref : Nat)
    {elements : ArrayElements} {text before : List UInt16} {w : JsonWriter} {s : JsHeap}
    (hkind : (s.objects ref).kind = .array elements) (hok : w.Ok)
    (htext : w.text = text ++ before) {n : Nat} (hn : n = text.length + before.length) :
    FollowsFrom s (Agrees text before)
      (serializeArray platform checked plain n stack ref elements)
      (serializeJSArray platform fast stack ref elements w) := by
  unfold serializeArray serializeJSArray
  have hlengthText : w.text.length = n := by rw [htext, List.length_append, hn]
  refine FollowsFrom.check fun hlength => follows_fits fun hfits => ?_
  refine follows_lift (adds_append hok (by decide)) (hlengthText ▸ hfits)
    fun w₁ hok₁ htext₁ => ?_
  have hbefore : n + 1 = (text ++ (before ++ [0x5B])).length := by
    simp only [List.length_append, List.length_singleton]
    omega
  have hbase : w₁.text = (text ++ (before ++ [0x5B])) ++ join [] := by
    rw [htext₁, htext, List.append_assoc]
    exact (List.append_nil _).symm
  have hown : ∀ j, s.own ref (.index j) = s.arrayElement j elements := by
    intro j
    show s.ownElement ref j = _
    unfold JsHeap.ownElement
    rw [hkind]
  rw [hbefore]
  refine FollowsFrom.bind ?_ fun s h => follows_close (by decide) h hn s
  cases elements with
  | fastSmi values =>
      refine follows_serializeNumbers hsim (fun n _ h => adds_serializeSmi h n) stack ref _ s values
        0 (fun j n hn => lookup_of_own ?_) rfl hok₁ hbase
      rw [Nat.zero_add, hown, JsHeap.arrayElement, hn]
      rfl
  | fastDouble values =>
      refine follows_serializeNumbers hsim (fun n _ h => adds_serializeDouble hplatform h n) stack
        ref _ s values 0 (fun j n hn => lookup_of_own ?_) rfl hok₁ hbase
      rw [Nat.zero_add, hown, JsHeap.arrayElement, hn]
      rfl
  | fast store length =>
      exact follows_serializeFastElements hsim stack ref store length length 0 s rfl hok₁ hbase
  | other length entries =>
      have hsmi : smiLength platform length = length := of_decide_eq_true hlength
      show FollowsFrom s _ (serializeElements checked plain _ stack ref _ 0 length []) _
      unfold BasicJsonStringifier.serializeElements
      dsimp only
      rw [hsmi]
      exact follows_serializeJSArraySlow hsim stack ref length entries length 0 s rfl hok₁ hbase

end

end

/-! ## Objects -/

/-- The descriptor of a key is the one that is found for it. -/
theorem find_of_mem {fields : Nat → JsValue} {d : Descriptor} : ∀ {ds : List Descriptor}, d ∈ ds →
    (ds.map fun d => d.key.units).Nodup →
      ((ds.map fun d => (⟨d.key, d.dontEnum, d.location.property fields⟩ : NamedEntry)).find?
        fun e => e.key.units = d.key.units) =
          some ⟨d.key, d.dontEnum, d.location.property fields⟩
  | d' :: ds, hd, hnodup => by
      rw [List.map_cons] at hnodup ⊢
      rw [List.find?_cons]
      rcases List.mem_cons.mp hd with rfl | hmem
      · rw [decide_eq_true rfl]
      · have hne : d'.key.units ≠ d.key.units := fun heq =>
          (List.nodup_cons.mp hnodup).1 (heq ▸ List.mem_map_of_mem hmem)
        rw [decide_eq_false hne]
        exact find_of_mem hmem (List.nodup_cons.mp hnodup).2

/-- The field of an object that still has the map is its property. -/
theorem own_of_field {heap : JsHeap} {ref : Nat} {map : JsMap} {fields : Nat → JsValue}
    (hnamed : (heap.objects ref).named = .fast map fields) {d : Descriptor}
    (hd : d ∈ map.descriptors) {index : Nat} (hfield : d.location = .field index) :
    heap.own ref (.name d.key) = some (.data (fields index)) := by
  show (heap.objects ref).named.find d.key.units = _
  rw [hnamed, NamedProperties.find, NamedProperties.entries, find_of_mem hd map.nodup, hfield]
  rfl

theorem descriptorValue_eq {ref : Nat} {map : JsMap} {d : Descriptor}
    (hd : d ∈ map.descriptors) : descriptorValue ref map d = JsProgram.get ref (.name d.key) := by
  unfold descriptorValue
  cases hlocation : d.location with
  | constant property => rfl
  | field index =>
      dsimp only
      funext heap
      rw [Program.read_bind]
      cases hnamed : (heap.objects ref).named with
      | dictionary entries => rfl
      | fast map' fields =>
          dsimp only
          split_ifs with hmap
          · have hlookup := lookup_of_own (own_of_field hnamed (hmap ▸ hd) hlocation)
            show _ = JsProgram.getProperty ref (heap.lookup ref (.name d.key)) heap
            rw [hlookup]
            rfl
          · rfl

/-- The loop over descriptors is the loop over their keys. -/
theorem serializeDescriptors_eq (fast : BasicJsonStringifier.Serializer) (stack : List Nat)
    (ref : Nat) (map : JsMap) : ∀ (ds : List Descriptor), ds ⊆ map.descriptors →
      serializeDescriptors fast stack ref map ds =
        BasicJsonStringifier.serializeKeys fast stack ref
          ((ds.filter fun d => !d.dontEnum).map fun d => .name d.key)
  | [], _ => rfl
  | d :: ds, hds => by
      have hrest := serializeDescriptors_eq fast stack ref map ds fun _ hx =>
        hds (List.mem_cons_of_mem d hx)
      funext comma w
      unfold serializeDescriptors
      rw [hrest, descriptorValue_eq (hds List.mem_cons_self), List.filter_cons]
      cases d.dontEnum with
      | true => rfl
      | false => rfl

/-- An object with fast properties and no elements has the keys of its map. -/
theorem localKeys_of_fast {heap : JsHeap} {ref : Nat} {map : JsMap} {fields : Nat → JsValue}
    (hkind : (heap.objects ref).kind = .ordinary)
    (hnamed : (heap.objects ref).named = .fast map fields)
    (helements : (heap.objects ref).elements.capacity = 0) :
    heap.localKeys ref =
      (map.descriptors.filter fun d => !d.dontEnum).map fun d => .name d.key := by
  have hindices : heap.enumElementKeys ref = [] := by
    unfold JsHeap.enumElementKeys
    rw [hkind, (heap.objects ref).elements.empty helements]
    rfl
  have hnames : heap.enumPropertyKeys ref =
      (map.descriptors.filter fun d => !d.dontEnum).map fun d => .name d.key := by
    unfold JsHeap.enumPropertyKeys
    rw [hnamed, NamedProperties.entries, List.filter_map, List.map_map]
    rfl
  unfold JsHeap.localKeys JsHeap.addKeys
  rw [hindices, hnames]
  exact List.filter_eq_self.mpr fun _ _ => rfl

/-- The members of an object are those of its own keys, whatever its representation. -/
theorem follows_serializeMembers {α : Type} {R : α → SerializeResult × JsonWriter → Prop}
    {fast : BasicJsonStringifier.Serializer} {stack : List Nat} {ref : Nat} {w : JsonWriter}
    {s : JsHeap} (hkind : (s.objects ref).kind = .ordinary) {p : JsProgram α}
    (h : FollowsFrom s R p
      (BasicJsonStringifier.serializeKeys fast stack ref (s.localKeys ref) false w)) :
    FollowsFrom s R p (serializeMembers fast stack ref w) := by
  unfold serializeMembers
  refine FollowsFrom.read_right ?_
  dsimp only
  cases hnamed : (s.objects ref).named with
  | dictionary entries => exact h
  | fast map fields =>
      dsimp only
      split_ifs with helements
      · rw [serializeDescriptors_eq fast stack ref map map.descriptors fun _ hx => hx,
          ← localKeys_of_fast hkind hnamed helements]
        exact h
      · exact h

/-! ### Enumeration -/

theorem foldl_addKeys_eq {heap : JsHeap} : ∀ (chain : List Nat) (content : List PropertyKey),
    ∃ extra, chain.foldl heap.addKeys content = content ++ extra
  | [], content => ⟨[], (List.append_nil _).symm⟩
  | current :: chain, content => by
      obtain ⟨extra, hextra⟩ := @foldl_addKeys_eq heap chain (heap.addKeys content current)
      rw [List.foldl_cons, hextra]
      unfold JsHeap.addKeys JsHeap.unionOfKeys
      simp only [List.append_assoc]
      exact ⟨_, rfl⟩

/-- An enumeration begins with the own keys. -/
theorem keysIncludingPrototypes_eq (heap : JsHeap) (ref : Nat) : ∃ extra,
    heap.keysIncludingPrototypes ref = heap.localKeys ref ++ extra :=
  foldl_addKeys_eq (heap.objects ref).prototypes (heap.localKeys ref)

/-! ### The loop over keys -/

section
variable {platform : JsonPlatform} {base : List UInt16} {plain : Serializer}
  {fast : BasicJsonStringifier.Serializer}

/-- Keys that are not own ones are passed over. -/
theorem follows_extra {α : Type} {R : Except Thrown Members → α → Prop} {before : Nat}
    {stack : List Nat} {ref : Nat} {members : Members} {value : α} {s : JsHeap}
    (hR : R (.ok members) value) : ∀ {extra : List PropertyKey},
      FollowsFrom s R (serializeKeys platform checked plain before stack ref 0 extra members)
        (pure value)
  | [] => FollowsFrom.pure hR
  | key :: extra => by
      unfold serializeKeys
      refine FollowsFrom.check fun hsettled => FollowsFrom.read_left ?_
      have hno : s.own ref key = none := Option.isNone_iff_eq_none.mp hsettled
      rw [hno]
      exact follows_extra hR

/-- A comma is due where there is a member. -/
theorem separator_eq (members : Members) :
    separator members = if !members.isEmpty then [0x2C] else [] := by
  cases members with
  | nil => rfl
  | cons member members => rfl

/-- What follows a member, when the loops go on alike. -/
theorem follows_afterProperty {key : PropertyKey} {members : Members} {w : JsonWriter}
    {r : JsonResult} {result : SerializeResult × JsonWriter}
    (h : Agrees w.text (deferredText ⟨true, !members.isEmpty⟩ key) r result)
    (htext : w.text = base ++ join members)
    {plainLoop : Members → JsProgram (Except Thrown Members)}
    {fastLoop : Bool → JsonWriter → JsProgram (SerializeResult × JsonWriter)} {s : JsHeap}
    (hloop : ∀ (members : Members) {w' : JsonWriter}, w'.Ok → w'.text = base ++ join members →
      FollowsFrom s (AgreesMembers base) (plainLoop members) (fastLoop (!members.isEmpty) w')) :
    FollowsFrom s (AgreesMembers base)
      (match r with
        | .ok none => plainLoop members
        | .ok (some text) => do
            let name ← quoteString platform key.toJsString
            plainLoop (members ++ [← concat (name ++ [0x3A] ++ text)])
        | .error e => pure (.error e))
      (afterProperty fastLoop (!members.isEmpty) result) := by
  cases h with
  | unchanged hok hsame => exact hloop members hok (hsame.trans htext)
  | @success w' added hok _ hadded =>
      have hsome : (!(members ++ [quoted key.toJsString ++ [0x3A] ++ added]).isEmpty) = true := by
        cases members with
        | nil => rfl
        | cons _ _ => rfl
      have hloop' := hloop (members ++ [quoted key.toJsString ++ [0x3A] ++ added]) hok ?_
      · rw [hsome] at hloop'
        exact follows_quoteString fun _ => follows_concat hloop'
      · rw [hadded, htext, join_concat, separator_eq, deferredText, if_pos rfl]
        simp only [List.append_assoc]
  | exception => exact FollowsFrom.pure AgreesMembers.exception
  | circular => exact FollowsFrom.pure AgreesMembers.circular

theorem follows_serializeKeys (hsim : Simulates platform plain fast) (stack : List Nat) (ref : Nat)
    {extra : List PropertyKey} :
    ∀ (keys : List PropertyKey) (members : Members) {w : JsonWriter} (s : JsHeap), w.Ok →
      w.text = base ++ join members →
        FollowsFrom s (AgreesMembers base)
          (serializeKeys platform checked plain base.length stack ref keys.length (keys ++ extra)
            members)
          (BasicJsonStringifier.serializeKeys fast stack ref keys (!members.isEmpty) w)
  | [], _, _, _, hok, htext => follows_extra (AgreesMembers.success hok htext)
  | key :: keys, members, w, s, hok, htext => by
      have hloop : ∀ (members : Members) {w' : JsonWriter} s, w'.Ok →
          w'.text = base ++ join members → FollowsFrom s (AgreesMembers base)
            (serializeKeys platform checked plain base.length stack ref keys.length (keys ++ extra)
              members)
            (BasicJsonStringifier.serializeKeys fast stack ref keys (!members.isEmpty) w') :=
        fun members _ s hok' htext' =>
          follows_serializeKeys hsim stack ref keys members s hok' htext'
      rw [List.cons_append]
      unfold serializeKeys BasicJsonStringifier.serializeKeys
      refine FollowsFrom.check fun hsettled => FollowsFrom.read_left ?_
      rw [List.length_cons, isSettled, decide_eq_true (Nat.succ_pos _), if_pos rfl] at hsettled
      rw [List.length_cons, Nat.add_sub_cancel]
      split_ifs with hown
      · unfold serializeProperty
        rw [bind_assoc]
        refine FollowsFrom.same fun property s => ?_
        cases property with
        | error e => exact FollowsFrom.pure AgreesMembers.exception
        | ok value =>
            refine (hsim.follows stack ⟨true, !members.isEmpty⟩ key value s hok ?_).bind
              fun {r result} s h => follows_afterProperty h htext fun members _ => hloop members s
            rw [htext, List.length_append]
      · -- the property is gone, and nothing else is found for the key
        have hnone : s.lookup ref key = none := by
          rw [eq_false_of_ne_true hown, Bool.false_or] at hsettled
          exact Option.isNone_iff_eq_none.mp hsettled
        unfold JsProgram.get
        rw [bind_assoc]
        refine FollowsFrom.read_right ?_
        rw [hnone]
        show FollowsFrom s _ _ ((fast stack ⟨true, !members.isEmpty⟩ key .undefined w) >>= _)
        rw [hsim.unchanged, pure_bind]
        exact hloop members s hok htext

/-- An object, of either representation. -/
theorem follows_serializeObject (hsim : Simulates platform plain fast) (stack : List Nat)
    (ref : Nat) {text before : List UInt16} {w : JsonWriter} {s : JsHeap}
    (hkind : (s.objects ref).kind = .ordinary) (hok : w.Ok) (htext : w.text = text ++ before)
    {n : Nat} (hn : n = text.length + before.length) :
    FollowsFrom s (Agrees text before) (serializeObject platform checked plain n stack ref)
      (serializeJSObject platform fast stack ref w) := by
  unfold serializeObject serializeJSObject
  have hlengthText : w.text.length = n := by rw [htext, List.length_append, hn]
  have hbefore : n + 1 = (text ++ (before ++ [0x7B])).length := by
    simp only [List.length_append, List.length_singleton]
    omega
  refine follows_fits fun hfits => FollowsFrom.read_left (FollowsFrom.read_left ?_)
  refine follows_lift (adds_append hok (by decide)) (hlengthText ▸ hfits)
    fun w₁ hok₁ htext₁ => ?_
  rw [hbefore]
  refine FollowsFrom.bind ?_ fun s h => follows_close (by decide) h hn s
  obtain ⟨extra, hkeys⟩ := keysIncludingPrototypes_eq s ref
  rw [hkeys]
  refine follows_serializeMembers hkind (follows_serializeKeys hsim stack ref _ [] s hok₁ ?_)
  rw [htext₁, htext, List.append_assoc]
  exact (List.append_nil _).symm

end

/-! ## All values -/

section
variable {platform : JsonPlatform} (hplatform : PrintsIntegers platform)

/-- Below a value, both serializers go on alike, as long as the plain one has room. -/
def SimulatesNested (platform : JsonPlatform) (plain : Option Serializer)
    (fast : Option BasicJsonStringifier.Serializer) : Prop :=
  ∀ p ∈ plain, ∃ f ∈ fast, Simulates platform p f

variable {plain : Option Serializer} {fast : Option BasicJsonStringifier.Serializer}
  (hnested : SimulatesNested platform plain fast)

include hnested in
theorem follows_withStackPush (stack : List Nat) (ref : Nat) {text before : List UInt16}
    {w : JsonWriter} {plainCode : Serializer → List Nat → JsProgram JsonResult}
    {fastCode : BasicJsonStringifier.Serializer → List Nat →
      JsProgram (SerializeResult × JsonWriter)} {s : JsHeap}
    (hcode : ∀ p f, Simulates platform p f → ∀ stack,
      FollowsFrom s (Agrees text before) (plainCode p stack) (fastCode f stack)) :
    FollowsFrom s (Agrees text before) (withPushIfAbsent checked plain stack ref plainCode)
      (withStackPush fast stack ref w fastCode) := by
  cases plain with
  | none => exact FollowsFrom.check fun hfalse => nomatch hfalse
  | some p =>
      obtain ⟨f, hf, hsim⟩ := hnested p rfl
      cases hf
      unfold withPushIfAbsent withStackPush
      dsimp only
      split_ifs
      · exact FollowsFrom.pure Agrees.circular
      · exact hcode p f hsim _

include hplatform hnested

theorem follows_serializeReference (stack : List Nat) (deferred : Deferred) (key : PropertyKey)
    (ref : Nat) {w : JsonWriter} {n : Nat} (s : JsHeap) (hok : w.Ok)
    (hn : n = w.text.length + (deferredText deferred key).length) :
    FollowsFrom s (Agrees w.text (deferredText deferred key))
      (serializeReference platform checked plain n stack ref)
      (BasicJsonStringifier.serializeObject platform fast stack deferred key ref w) := by
  have hkey : w.Adds (serializeDeferredKey platform deferred key w) (deferredText deferred key) :=
    adds_serializeDeferredKey hok deferred key
  unfold serializeReference BasicJsonStringifier.serializeObject
  refine FollowsFrom.read_left (FollowsFrom.read_right ?_)
  cases hkind : (s.objects ref).kind with
  | array elements =>
      refine follows_fits fun hfits => ?_
      refine follows_lift hkey (hn ▸ hfits) fun w₁ hok₁ htext₁ => ?_
      exact follows_withStackPush hnested stack ref fun p f hsim stack =>
        follows_serializeArray hsim hplatform stack ref hkind hok₁ htext₁ hn
  | stringWrapper =>
      refine follows_fits fun hfits => ?_
      refine follows_lift hkey (hn ▸ hfits) fun w₁ hok₁ htext₁ => ?_
      unfold serializeStringWrapper
      refine FollowsFrom.same fun answer s => ?_
      cases answer with
      | error e => exact FollowsFrom.pure Agrees.exception
      | ok value =>
          exact follows_quoteString fun hflat =>
            follows_success_after (adds_serializeString hok₁ value hflat) htext₁ hn s
  | numberWrapper =>
      refine follows_fits fun hfits => ?_
      refine follows_lift hkey (hn ▸ hfits) fun w₁ hok₁ htext₁ => ?_
      unfold serializeNumberWrapper
      refine FollowsFrom.same fun answer s => ?_
      cases answer with
      | error e => exact FollowsFrom.pure Agrees.exception
      | ok value => exact follows_success_after (adds_serializeNumber hok₁ value) htext₁ hn s
  | booleanWrapper b =>
      exact follows_success (hkey.bind fun _ hok₁ => adds_serializeBoolean hok₁ b) hn s
  | function => exact FollowsFrom.pure (Agrees.unchanged hok rfl)
  | ordinary =>
      refine follows_fits fun hfits => ?_
      refine follows_lift hkey (hn ▸ hfits) fun w₁ hok₁ htext₁ => ?_
      exact follows_withStackPush hnested stack ref fun p f hsim stack =>
        follows_serializeObject hsim stack ref hkind hok₁ htext₁ hn

theorem follows_serializeValue (stack : List Nat) (deferred : Deferred) (key : PropertyKey)
    (value : JsValue) {w : JsonWriter} {n : Nat} (s : JsHeap) (hok : w.Ok)
    (hn : n = w.text.length + (deferredText deferred key).length) :
    FollowsFrom s (Agrees w.text (deferredText deferred key))
      (serializeValue platform checked plain n stack value)
      (BasicJsonStringifier.serializeValue platform fast stack deferred key value w) := by
  have hkey : w.Adds (serializeDeferredKey platform deferred key w) (deferredText deferred key) :=
    adds_serializeDeferredKey hok deferred key
  cases value with
  | undefined => exact FollowsFrom.pure (Agrees.unchanged hok rfl)
  | null => exact follows_success (hkey.bind fun _ hok₁ => adds_null hok₁) hn s
  | boolean b => exact follows_success (hkey.bind fun _ hok₁ => adds_serializeBoolean hok₁ b) hn s
  | number value =>
      exact follows_success (hkey.bind fun _ hok₁ => adds_serializeNumber hok₁ value) hn s
  | string value =>
      exact follows_quoteString fun hflat =>
        follows_success (hkey.bind fun _ hok₁ => adds_serializeString hok₁ value hflat) hn s
  | object ref =>
      exact follows_serializeReference hplatform hnested stack deferred key ref s hok hn

theorem simulates_serialize : Simulates platform (serialize platform checked plain)
    (BasicJsonStringifier.serialize platform fast) where
  follows stack deferred key value w n s hok hn := by
    cases value with
    | object ref =>
        refine (follows_applyToJson ref key s).bind fun {r r'} s h => ?_
        cases h
        cases r with
        | error e => exact FollowsFrom.pure Agrees.exception
        | ok value =>
            exact follows_serializeValue hplatform hnested stack deferred key value s hok hn
    | undefined =>
        exact follows_serializeValue hplatform hnested stack deferred key .undefined s hok hn
    | null => exact follows_serializeValue hplatform hnested stack deferred key .null s hok hn
    | boolean b =>
        exact follows_serializeValue hplatform hnested stack deferred key (.boolean b) s hok hn
    | number value =>
        exact follows_serializeValue hplatform hnested stack deferred key (.number value) s hok hn
    | string value =>
        exact follows_serializeValue hplatform hnested stack deferred key (.string value) s hok hn
  number _ _ _ _ := rfl
  undefined _ _ _ := rfl
  unchanged _ _ _ _ := rfl

omit hnested in
/-- As deep as the assertions let it go. -/
theorem simulates_serializer : ∀ {limit limit' : Nat}, limit ≤ limit' →
    Simulates platform (serializer platform checked limit)
      (BasicJsonStringifier.serializer platform limit')
  | 0, 0, _ => simulates_serialize hplatform nofun
  | 0, _ + 1, _ => simulates_serialize hplatform nofun
  | limit + 1, limit' + 1, hle => simulates_serialize hplatform fun p hp => by
      cases hp
      exact ⟨_, rfl, simulates_serializer (Nat.le_of_succ_le_succ hle)⟩

end

end JsonSerialize

end WeexBridge.V8
