/-
# The text of JSON has no U+0000

Brackets, commas, quotes, digits and names are other characters, and the escape of
U+0000 is `\u0000`.  So whatever user code does, and whatever strings it comes up
with, no writer of a serializer ever holds a zero.

    Clean        no zero has been written
    Cleanly      a step that gives a clean writer, if it gives one
    EndsClean    a program that returns with a clean writer, if it returns
-/
import WeexBridge.V8.JsonStringifier

namespace WeexBridge.V8

open Reentrant CodeUnits

/-! ## What is written -/

namespace JsonWriter

structure Clean (w : JsonWriter) : Prop where
  ok : w.Ok
  noZero : (0 : UInt16) ∉ w.text

/-- If `p` gives a writer, it is clean. -/
def Cleanly (p : Option JsonWriter) : Prop := ∀ w, p = some w → w.Clean

section
variable {fill : Nat → UInt16} {w : JsonWriter}

theorem clean_start (fill : Nat → UInt16) : (start fill).Clean := ⟨ok_start, List.not_mem_nil⟩

theorem Clean.cleanly (h : w.Clean) : Cleanly (some w) := by
  intro w' hw'
  cases hw'
  exact h

theorem Cleanly.bind {p : Option JsonWriter} {f : JsonWriter → Option JsonWriter}
    (hp : Cleanly p) (hf : ∀ w : JsonWriter, w.Clean → Cleanly (f w)) : Cleanly (p.bind f) := by
  intro w' hw'
  obtain ⟨w, hw, hfw⟩ := Option.bind_eq_some_iff.mp hw'
  exact hf w (hp w hw) w' hfw

theorem Clean.adds (h : w.Clean) {p : Option JsonWriter} {chars : List UInt16}
    (hp : w.Adds p chars) (hzero : (0 : UInt16) ∉ chars) : Cleanly p := by
  intro w' hw'
  refine ⟨hp.ok w' hw', fun hmem => ?_⟩
  rw [hp.text w' hw'] at hmem
  rcases List.mem_append.mp hmem with hmem | hmem
  · exact h.noZero hmem
  · exact hzero hmem

/-- A character of ASCII that is not zero. -/
theorem Clean.append (h : w.Clean) {c : UInt16} (hc : 0 < c.toNat ∧ c.toNat < 128) :
    Cleanly (w.append fill c) := by
  refine h.adds (adds_append h.ok (Nat.lt_trans hc.2 (by decide))) fun hmem => ?_
  rw [← List.mem_singleton.mp hmem] at hc
  exact absurd hc.1 (by decide)

/-- What `AppendAscii` reads ends before the first zero. -/
theorem Clean.appendAscii (h : w.Clean) (chars : List UInt8) :
    Cleanly (w.appendAscii fill chars) := by
  refine h.adds (adds_appendAscii h.ok chars) fun hmem => ?_
  obtain ⟨b, hb, hzero⟩ := List.mem_map.mp hmem
  have hb0 : b = 0 := UInt8.toUInt16_inj.mp hzero
  rw [hb0] at hb
  exact zero_not_mem_cString _ hb

theorem zero_not_mem_quoteJsonString (chars : FlatChars) :
    (0 : UInt16) ∉ quoteJsonString chars := by
  rw [quoteJsonString, ← escaped_eq]
  intro hmem
  rcases List.mem_append.mp hmem with hmem | hmem
  · rcases List.mem_append.mp hmem with hmem | hmem
    · exact absurd (List.mem_singleton.mp hmem) (by decide)
    · exact zero_not_mem_escaped _ hmem
  · exact absurd (List.mem_singleton.mp hmem) (by decide)

/-- Any string at all, for its zeros are escaped. -/
theorem Clean.serializeString (h : w.Clean) (s : Str) : Cleanly (w.serializeString fill s) := by
  intro w' hw'
  cases hs : s.flatContent fill with
  | none =>
      rw [JsonWriter.serializeString, hs] at hw'
      cases hw'
  | some chars =>
      exact h.adds (adds_quoteJsonString h.ok hs) (zero_not_mem_quoteJsonString chars) w' hw'

end

end JsonWriter

/-! ## The serializer -/

/-- User code may leave any heap behind. -/
def AnyHeap (_ : Exchange JsAnswer) (_ _ : JsHeap) : Prop := True

namespace BasicJsonStringifier

open JsonWriter

/-- If `p` returns, then with a clean writer. -/
def EndsClean (p : JsProgram (SerializeResult × JsonWriter)) : Prop :=
  Returns AnyHeap p fun _ r => r.2.Clean

/-- From a clean writer, every call ends with one. -/
def Serializer.IsClean (serialize : Serializer) : Prop :=
  ∀ stack deferred key value {w : JsonWriter}, w.Clean →
    EndsClean (serialize stack deferred key value w)

section
variable {platform : JsonPlatform} {w : JsonWriter}

theorem endsClean_pure (h : w.Clean) (result : SerializeResult) : EndsClean (pure (result, w)) := by
  refine (Returns.pure _).consequence fun {h₁ r} hr => ?_
  rw [hr.2]
  exact h

theorem endsClean_crash : EndsClean Program.crash := Returns.crash

/-- A part of the program whose value may be any. -/
theorem endsClean_bind {α : Type} {p : JsProgram α}
    {f : α → JsProgram (SerializeResult × JsonWriter)} (hf : ∀ value, EndsClean (f value)) :
    EndsClean (p >>= f) := by
  have hp : Returns AnyHeap p fun _ _ => True := fun _ _ _ _ _ => trivial
  exact hp.bind fun {value} _ _ => hf value

/-- A part that ends with a clean writer, and what makes use of it. -/
theorem EndsClean.bind {p : JsProgram (SerializeResult × JsonWriter)}
    {f : SerializeResult × JsonWriter → JsProgram (SerializeResult × JsonWriter)}
    (hp : EndsClean p) (hf : ∀ result {w : JsonWriter}, w.Clean → EndsClean (f (result, w))) :
    EndsClean (p >>= f) :=
  Returns.bind hp fun {value} _ hvalue => hf value.1 hvalue

theorem endsClean_lift {p : Option JsonWriter}
    {f : JsonWriter → JsProgram (SerializeResult × JsonWriter)} (hp : Cleanly p)
    (hf : ∀ w : JsonWriter, w.Clean → EndsClean (f w)) : EndsClean (lift p >>= f) := by
  cases p with
  | none => exact endsClean_crash
  | some w => exact hf w (hp w rfl)

theorem endsClean_success {p : Option JsonWriter} (hp : Cleanly p) : EndsClean (success p) :=
  endsClean_lift hp fun _ hw => endsClean_pure hw _

/-! ### Primitive values -/

theorem cleanly_serializeDeferredKey (h : w.Clean) (deferred : Deferred) (key : PropertyKey) :
    Cleanly (serializeDeferredKey platform deferred key w) := by
  unfold serializeDeferredKey
  split_ifs
  · refine Cleanly.bind (h.append (by decide)) fun w₁ h₁ => ?_
    exact (h₁.serializeString _).bind fun w₂ h₂ => h₂.append (by decide)
  · refine Cleanly.bind h.cleanly fun w₁ h₁ => ?_
    exact (h₁.serializeString _).bind fun w₂ h₂ => h₂.append (by decide)
  · exact h.cleanly

theorem cleanly_serializeSmi (h : w.Clean) (n : Int) : Cleanly (serializeSmi platform n w) :=
  h.appendAscii _

theorem cleanly_serializeDouble (h : w.Clean) (bits : UInt64) :
    Cleanly (serializeDouble platform bits w) := by
  unfold serializeDouble
  split_ifs
  · exact h.appendAscii _
  · exact h.appendAscii _

theorem cleanly_serializeNumber (h : w.Clean) : ∀ n, Cleanly (serializeNumber platform n w)
  | .smi n => cleanly_serializeSmi h n
  | .heapNumber bits => cleanly_serializeDouble h bits

theorem cleanly_serializeBoolean (h : w.Clean) (b : Bool) :
    Cleanly (serializeBoolean platform b w) :=
  h.appendAscii _

/-! ### Arrays -/

theorem cleanly_elementComma (h : w.Clean) (i : Nat) : Cleanly (elementComma platform i w) := by
  unfold elementComma
  split_ifs
  · exact h.append (by decide)
  · exact h.cleanly

theorem cleanly_serializeNumbers {α : Type} {serialize : α → JsonWriter → Option JsonWriter}
    (hserialize : ∀ n {w : JsonWriter}, w.Clean → Cleanly (serialize n w)) :
    ∀ (i : Nat) (numbers : List α) {w : JsonWriter}, w.Clean →
      Cleanly (serializeNumbers platform serialize i numbers w)
  | _, [], _, h => h.cleanly
  | i, n :: ns, _, h =>
      (cleanly_elementComma h i).bind fun _ h₁ =>
        (hserialize n h₁).bind fun _ h₂ => cleanly_serializeNumbers hserialize (i + 1) ns h₂

theorem endsClean_afterElement {loop : JsonWriter → JsProgram (SerializeResult × JsonWriter)}
    (hloop : ∀ w : JsonWriter, w.Clean → EndsClean (loop w)) (h : w.Clean) :
    ∀ result, EndsClean (afterElement platform loop (result, w))
  | .success => hloop w h
  | .unchanged => endsClean_lift (h.appendAscii _) hloop
  | .exception _ => endsClean_pure h _
  | .circular => endsClean_pure h _
  | .stackOverflow => endsClean_pure h _

theorem endsClean_close {bracket : UInt16} (hbracket : 0 < bracket.toNat ∧ bracket.toNat < 128)
    (h : w.Clean) : ∀ result, EndsClean (close platform bracket (result, w))
  | .success => endsClean_success (h.append hbracket)
  | .unchanged => endsClean_pure h _
  | .exception _ => endsClean_pure h _
  | .circular => endsClean_pure h _
  | .stackOverflow => endsClean_pure h _

section
variable {serialize : Serializer} (hserialize : serialize.IsClean)
include hserialize

theorem endsClean_serializeFastElements (stack : List Nat) (ref store length : Nat) :
    ∀ (rest i : Nat) {w : JsonWriter}, w.Clean →
      EndsClean (serializeFastElements platform serialize stack ref store length i rest w)
  | 0, _, _, h => endsClean_pure h _
  | rest + 1, i, _, h => by
      have hloop := fun w h =>
        endsClean_serializeFastElements stack ref store length rest (i + 1) (w := w) h
      refine endsClean_bind fun unchanged => ?_
      cases unchanged with
      | false => exact endsClean_pure h _
      | true =>
          refine endsClean_lift (cleanly_elementComma h i) fun w₁ h₁ =>
            endsClean_bind fun cell => ?_
          rcases cell with _ | _ | element
          · exact endsClean_crash
          · exact endsClean_afterElement hloop h₁ _
          · exact (hserialize _ _ _ _ h₁).bind fun result _ h₂ =>
              endsClean_afterElement hloop h₂ result

theorem endsClean_serializeJSArraySlow (stack : List Nat) (ref : Nat) :
    ∀ (rest i : Nat) {w : JsonWriter}, w.Clean →
      EndsClean (serializeJSArraySlow platform serialize stack ref i rest w)
  | 0, _, _, h => endsClean_pure h _
  | rest + 1, i, _, h => by
      have hloop := fun w h => endsClean_serializeJSArraySlow stack ref rest (i + 1) (w := w) h
      refine endsClean_lift (cleanly_elementComma h i) fun w₁ h₁ => endsClean_bind fun element => ?_
      cases element with
      | error e => exact endsClean_crash
      | ok element =>
          have hother : EndsClean (serialize stack ⟨false, false⟩ (.index i) element w₁ >>=
              afterElement platform fun w =>
                serializeJSArraySlow platform serialize stack ref (i + 1) rest w) :=
            (hserialize _ _ _ _ h₁).bind fun result _ h₂ => endsClean_afterElement hloop h₂ result
          cases element with
          | undefined => exact endsClean_afterElement hloop h₁ _
          | _ => exact hother

theorem endsClean_serializeJSArray (stack : List Nat) (ref : Nat) (elements : ArrayElements)
    (h : w.Clean) : EndsClean (serializeJSArray platform serialize stack ref elements w) := by
  refine endsClean_lift (h.append (by decide)) fun w₁ h₁ => EndsClean.bind ?_ fun result _ h₂ =>
    endsClean_close (by decide) h₂ result
  cases elements with
  | fastSmi values =>
      exact endsClean_success
        (cleanly_serializeNumbers (fun n _ h => cleanly_serializeSmi h n) 0 values h₁)
  | fastDouble values =>
      exact endsClean_success
        (cleanly_serializeNumbers (fun n _ h => cleanly_serializeDouble h n) 0 values h₁)
  | fast store length =>
      exact endsClean_serializeFastElements hserialize stack ref store length length 0 h₁
  | other length entries => exact endsClean_serializeJSArraySlow hserialize stack ref _ 0 h₁

/-! ### Objects -/

omit hserialize in
theorem endsClean_afterProperty
    {loop : Bool → JsonWriter → JsProgram (SerializeResult × JsonWriter)}
    (hloop : ∀ comma {w : JsonWriter}, w.Clean → EndsClean (loop comma w)) (comma : Bool)
    (h : w.Clean) : ∀ result, EndsClean (afterProperty loop comma (result, w))
  | .success => hloop true h
  | .unchanged => hloop comma h
  | .exception _ => endsClean_pure h _
  | .circular => endsClean_pure h _
  | .stackOverflow => endsClean_pure h _

theorem endsClean_serializeDescriptors (stack : List Nat) (ref : Nat) (map : JsMap) :
    ∀ (descriptors : List Descriptor) (comma : Bool) {w : JsonWriter}, w.Clean →
      EndsClean (serializeDescriptors serialize stack ref map descriptors comma w)
  | [], _, _, h => endsClean_pure h _
  | d :: ds, comma, _, h => by
      have hloop := fun comma {w} h =>
        endsClean_serializeDescriptors stack ref map ds comma (w := w) h
      unfold serializeDescriptors
      split_ifs
      · exact hloop comma h
      · refine endsClean_bind fun property => ?_
        cases property with
        | ok property =>
            exact (hserialize _ _ _ _ h).bind fun result _ h₁ =>
              endsClean_afterProperty hloop comma h₁ result
        | error e => exact endsClean_pure h _

theorem endsClean_serializeKeys (stack : List Nat) (ref : Nat) :
    ∀ (keys : List PropertyKey) (comma : Bool) {w : JsonWriter}, w.Clean →
      EndsClean (serializeKeys serialize stack ref keys comma w)
  | [], _, _, h => endsClean_pure h _
  | key :: keys, comma, _, h => by
      refine endsClean_bind fun property => ?_
      cases property with
      | ok property =>
          exact (hserialize _ _ _ _ h).bind fun result _ h₁ =>
            endsClean_afterProperty (fun comma {w} h =>
              endsClean_serializeKeys stack ref keys comma (w := w) h) comma h₁ result
      | error e => exact endsClean_pure h _

theorem endsClean_serializeMembers (stack : List Nat) (ref : Nat) (h : w.Clean) :
    EndsClean (serializeMembers serialize stack ref w) := by
  have hslow : EndsClean (do
      serializeKeys serialize stack ref (← Program.read fun heap => heap.localKeys ref) false w) :=
    endsClean_bind fun keys => endsClean_serializeKeys hserialize stack ref keys false h
  refine endsClean_bind fun object => ?_
  split
  · split_ifs
    · exact endsClean_serializeDescriptors hserialize stack ref _ _ false h
    · exact hslow
  · exact hslow

theorem endsClean_serializeJSObject (stack : List Nat) (ref : Nat) (h : w.Clean) :
    EndsClean (serializeJSObject platform serialize stack ref w) := by
  refine endsClean_lift (h.append (by decide)) fun w₁ h₁ => ?_
  exact (endsClean_serializeMembers hserialize stack ref h₁).bind fun result _ h₂ =>
    endsClean_close (by decide) h₂ result

end

/-! ### All values -/

theorem endsClean_withStackPush {serialize : Option Serializer}
    (hserialize : ∀ s ∈ serialize, s.IsClean) (stack : List Nat) (ref : Nat) (h : w.Clean)
    {code : Serializer → List Nat → JsProgram (SerializeResult × JsonWriter)}
    (hcode : ∀ s : Serializer, s.IsClean → ∀ stack, EndsClean (code s stack)) :
    EndsClean (withStackPush serialize stack ref w code) := by
  cases serialize with
  | none => exact endsClean_pure h _
  | some serialize =>
      unfold withStackPush
      dsimp only
      split_ifs
      · exact endsClean_pure h _
      · exact hcode serialize (hserialize serialize rfl) _

section
variable {nested : Option Serializer} (hnested : ∀ s ∈ nested, s.IsClean)
include hnested

theorem endsClean_serializeObject (stack : List Nat) (deferred : Deferred) (key : PropertyKey)
    (ref : Nat) (h : w.Clean) :
    EndsClean (serializeObject platform nested stack deferred key ref w) := by
  have hkey : Cleanly (serializeDeferredKey platform deferred key w) :=
    cleanly_serializeDeferredKey h deferred key
  refine endsClean_bind fun kind => ?_
  cases kind with
  | array elements =>
      refine endsClean_lift hkey fun w₁ h₁ => ?_
      exact endsClean_withStackPush hnested stack ref h₁ fun s hs stack =>
        endsClean_serializeJSArray hs stack ref elements h₁
  | stringWrapper =>
      refine endsClean_lift hkey fun w₁ h₁ => endsClean_bind fun answer => ?_
      cases answer with
      | ok value => exact endsClean_success (h₁.serializeString _)
      | error e => exact endsClean_pure h₁ _
  | numberWrapper =>
      refine endsClean_lift hkey fun w₁ h₁ => endsClean_bind fun answer => ?_
      cases answer with
      | ok n => exact endsClean_success (cleanly_serializeNumber h₁ n)
      | error e => exact endsClean_pure h₁ _
  | booleanWrapper b =>
      exact endsClean_success (hkey.bind fun _ h₁ => cleanly_serializeBoolean h₁ b)
  | function => exact endsClean_pure h _
  | ordinary =>
      refine endsClean_lift hkey fun w₁ h₁ => ?_
      exact endsClean_withStackPush hnested stack ref h₁ fun s hs stack =>
        endsClean_serializeJSObject hs stack ref h₁

theorem endsClean_serializeValue (stack : List Nat) (deferred : Deferred) (key : PropertyKey)
    (value : JsValue) (h : w.Clean) :
    EndsClean (serializeValue platform nested stack deferred key value w) := by
  have hkey : Cleanly (serializeDeferredKey platform deferred key w) :=
    cleanly_serializeDeferredKey h deferred key
  cases value with
  | undefined => exact endsClean_pure h _
  | null => exact endsClean_success (hkey.bind fun _ h₁ => h₁.appendAscii _)
  | boolean b => exact endsClean_success (hkey.bind fun _ h₁ => cleanly_serializeBoolean h₁ b)
  | number n => exact endsClean_success (hkey.bind fun _ h₁ => cleanly_serializeNumber h₁ n)
  | string s => exact endsClean_success (hkey.bind fun _ h₁ => h₁.serializeString _)
  | object ref => exact endsClean_serializeObject hnested stack deferred key ref h

theorem isClean_serialize : (serialize platform nested).IsClean := by
  intro stack deferred key value w h
  cases value with
  | object ref =>
      refine endsClean_bind fun answer => ?_
      cases answer with
      | ok value => exact endsClean_serializeValue hnested stack deferred key value h
      | error e => exact endsClean_pure h _
  | _ =>
      unfold serialize
      exact endsClean_serializeValue hnested stack deferred key _ h

end

/-- However deep the stack lets it go. -/
theorem isClean_serializer (platform : JsonPlatform) :
    ∀ limit, (serializer platform limit).IsClean
  | 0 => isClean_serialize nofun
  | limit + 1 => isClean_serialize fun s hs => by
      cases hs
      exact isClean_serializer platform limit

end

end BasicJsonStringifier

open BasicJsonStringifier in
/-- Whatever user code does, the text that `JSON.stringify` returns has no U+0000. -/
theorem zero_not_mem_basicJsonStringify (platform : JsonPlatform) (limit : Nat)
    (object : JsValue) :
    Returns AnyHeap (basicJsonStringify platform limit object)
      fun _ r => ∀ text, r = .ok (some text) → (0 : UInt16) ∉ text := by
  have hclean := isClean_serializer platform limit [] ⟨false, false⟩ (.name (.ofBytes [])) object
    (JsonWriter.clean_start platform.fill)
  refine Returns.bind hclean fun {value h₁} hvalue => ?_
  obtain ⟨result, w⟩ := value
  cases result with
  | success =>
      dsimp only
      cases hresult : w.result with
      | none => exact Returns.crash
      | some text =>
          refine (Returns.pure _).consequence fun {h₂ r} hr text' htext => ?_
          cases hr.2.symm.trans htext
          exact JsonWriter.result_some hresult ▸ hvalue.noZero
  | _ =>
      exact (Returns.pure _).consequence fun {h₂ r} hr text htext =>
        nomatch hr.2.symm.trans htext

end WeexBridge.V8
