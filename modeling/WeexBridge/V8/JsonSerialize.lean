/-
# `JSONSerialize`

The serializer of `json.js`, for no replacer and no gap.  It reads `holder[key]`,
replaces the value by what its `toJSON` gives, and joins the texts of the members.

It is written with assertions, at the places where what user code has done since
matters to `BasicJsonStringifier`, and where that writes.  `json.js` itself is the
program whose checks do nothing, `unchecked`; in `checked` an assertion that fails is
a crash.  For the assertions each serializer is told how many characters
`BasicJsonStringifier` has written before its text.

A string that is too long to be made is an out-of-memory exception, which no script
catches and which ends the process: a crash.
-/
import WeexBridge.Lib.Simulation
import WeexBridge.V8.JsonStringifier

namespace WeexBridge.V8

open Reentrant

namespace JsonSerialize

open Program (read crash)

/-- What is done at an assertion. -/
abbrev Checks := (JsHeap → Bool) → JsProgram Unit

def unchecked : Checks := fun _ => pure ()

def checked : Checks := Program.check

/-- `JSONSerialize`, once `holder[key]` has been read, after so many characters, on the
objects that are being serialized. -/
abbrev Serializer := Nat → List Nat → PropertyKey → JsValue → JsProgram JsonResult

/-- The texts of members. -/
abbrev Members := List (List UInt16)

/-- The text of `partial.join(",")`. -/
def join (members : Members) : List UInt16 := List.intercalate [0x2C] members

/-- What stands before one more member. -/
def separator (members : Members) : List UInt16 := if members.isEmpty then [] else [0x2C]

/-- `partial.join(",")`: two texts or more are copied into a two-byte string
(`Runtime_StringBuilderJoin`). -/
def partialJoin (members : Members) : JsProgram (List UInt16) :=
  if members.length ≤ 1 ∨ (join members).length ≤ kMaxTwoByteLength then pure (join members)
  else crash

/-- The text of a sum of strings. -/
def concat (text : List UInt16) : JsProgram (List UInt16) :=
  if text.length ≤ Str.kMaxLength then pure text else crash

/-! ## What the assertions say -/

/-- The value was not thrown. -/
def isOk {α : Type} : Except JsValue α → Bool
  | .ok _ => true
  | .error _ => false

/-- The length is a small integer. -/
def hasSmiLength (platform : JsonPlatform) : ArrayElements → Bool
  | .other length _ => BasicJsonStringifier.smiLength platform length = length
  | _ => true

/-- An array of `FAST_ELEMENTS` still is one of the same length, and the elements it
began with still have the element at `i`. -/
def isCurrent (ref i : Nat) (heap : JsHeap) : ArrayElements → Bool
  | .fast store length =>
      let element := ((heap.stores store)[i]?).join.map Property.data
      BasicJsonStringifier.isFastOfLength heap ref length &&
        (element.isSome && heap.lookup ref (.index i) = element)
  | _ => true

/-- A key of the object itself is still one, or there is no such property any more; one that
a prototype has added is no key of the object. -/
def isSettled (isOwn : Bool) (ref : Nat) (key : PropertyKey) (heap : JsHeap) : Bool :=
  if isOwn then (heap.own ref key).isSome || (heap.lookup ref key).isNone
  else (heap.own ref key).isNone

/-- There may be a string of so many characters. -/
def fits (written : Nat) (_ : JsHeap) : Bool := written ≤ Str.kMaxLength

/-- A string in quotes. -/
def quoted (s : JsString) : List UInt16 := [0x22] ++ s.units.flatMap quotedUnit ++ [0x22]

/-- What is written before a member. -/
def deferredText (deferred : BasicJsonStringifier.Deferred) (key : PropertyKey) : List UInt16 :=
  if deferred.key then
    (if deferred.comma then [0x2C] else []) ++ (quoted key.toJsString ++ [0x3A])
  else []

section
variable (platform : JsonPlatform) (check : Checks)

/-! ## Primitive values -/

/-- `%QuoteJSONString` -/
def quoteString (s : JsString) : JsProgram (List UInt16) :=
  BasicJsonStringifier.lift (runtimeQuoteJsonString platform.fill s.val)

/-- `%_NumberToString` -/
def numberToString (n : JsNumber) : List UInt16 :=
  let str := match n with
    | .smi n => intToCString n
    | .heapNumber bits => platform.doubleToCString bits
  (CodeUnits.cString str).map UInt8.toUInt16

/-- The text of ASCII characters. -/
def ascii (s : String) : List UInt16 := (literalBytes s).map UInt8.toUInt16

/-- `JSON_NUMBER_TO_STRING` -/
def jsonNumberToString (n : JsNumber) : List UInt16 :=
  match n with
  | .smi _ => numberToString platform n
  | .heapNumber bits => if isInfOrNan bits then ascii "null" else numberToString platform n

def booleanToString (b : Bool) : List UInt16 := ascii (if b then "true" else "false")

/-- A text, which the other serializer writes. -/
def written (before : Nat) (text : List UInt16) : JsProgram JsonResult := do
  check (fits (before + text.length))
  pure (.ok (some text))

/-! ## `toJSON` -/

/-- The value, or what its `toJSON` makes of it. -/
def applyToJson (key : PropertyKey) : JsValue → JsProgram (Except JsValue JsValue)
  | .object ref => do
      let toJson ← JsProgram.get ref BasicJsonStringifier.toJsonName
      check fun _ => isOk toJson
      match toJson with
      | .error e => pure (.error e)
      | .ok (.object function) =>
          if ← read fun heap => BasicJsonStringifier.isFunction heap function then
            JsProgram.ask (.toJson function ref key.toJsString)
          else pure (.ok (.object ref))
      | .ok _ => pure (.ok (.object ref))
  | value => pure (.ok value)

/-! ## Arrays and objects -/

/-- `JSONSerialize`, where `property` reads `holder[key]`. -/
def serializeProperty (serialize : Serializer) (before : Nat) (stack : List Nat)
    (key : PropertyKey) (property : JsProgram (Except JsValue JsValue)) :
    JsProgram JsonResult := do
  match ← property with
  | .ok value => serialize before stack key value
  | .error e => pure (.error (.value e))

/-- The read of an element. -/
def element (ref i : Nat) : JsProgram (Except JsValue JsValue) := do
  let value ← JsProgram.get ref (.index i)
  check fun _ => isOk value
  pure value

/-- The loop of `SerializeArray`, `rest` members before its end. -/
def serializeElements (serialize : Serializer) (before : Nat) (stack : List Nat) (ref : Nat)
    (elements : ArrayElements) : Nat → Nat → Members → JsProgram (Except Thrown Members)
  | _, 0, members => pure (.ok members)
  | i, rest + 1, members => do
      check fun heap => isCurrent ref i heap elements
      let before' := before + (join members ++ separator members).length
      check (fits before')
      match ← serializeProperty serialize before' stack (.index i) (element check ref i) with
      | .ok text =>
          let member := text.getD (ascii "null")
          check (fits (before' + member.length))
          serializeElements serialize before stack ref elements (i + 1) rest (members ++ [member])
      | .error e => pure (.error e)

/-- `"[" + partial.join(",") + "]"`, and the same with braces. -/
def bracketed (left right : UInt16) (before : Nat) :
    Except Thrown Members → JsProgram JsonResult
  | .ok members => do
      let text ← concat ([left] ++ (← partialJoin members) ++ [right])
      written check before text
  | .error e => pure (.error e)

/-- `SerializeArray`, once the array is on the stack. -/
def serializeArray (serialize : Serializer) (before : Nat) (stack : List Nat) (ref : Nat)
    (elements : ArrayElements) : JsProgram JsonResult := do
  check fun _ => hasSmiLength platform elements
  check (fits (before + 1))
  bracketed check 0x5B 0x5D before
    (← serializeElements check serialize (before + 1) stack ref elements 0 elements.length [])

/-- The loop of `SerializeObject`: a key that is no longer an own one is passed over.  The first
`own` keys are those of the object itself. -/
def serializeKeys (serialize : Serializer) (before : Nat) (stack : List Nat) (ref : Nat) :
    Nat → List PropertyKey → Members → JsProgram (Except Thrown Members)
  | _, [], members => pure (.ok members)
  | own, key :: keys, members => do
      check (isSettled (0 < own) ref key)
      let loop := serializeKeys serialize before stack ref (own - 1) keys
      if ← read fun heap => (heap.own ref key).isSome then
        let before' := before + (join members).length +
          (deferredText ⟨true, !members.isEmpty⟩ key).length
        match ← serializeProperty serialize before' stack key (JsProgram.get ref key) with
        | .ok none => loop members
        | .ok (some text) =>
            let name ← quoteString platform key.toJsString
            loop (members ++ [← concat (name ++ [0x3A] ++ text)])
        | .error e => pure (.error e)
      else loop members

/-- `SerializeObject`, once the object is on the stack. -/
def serializeObject (serialize : Serializer) (before : Nat) (stack : List Nat) (ref : Nat) :
    JsProgram JsonResult := do
  check (fits (before + 1))
  let keys ← read fun heap => heap.keysIncludingPrototypes ref
  let ownKeys ← read fun heap => heap.localKeys ref
  bracketed check 0x7B 0x7D before
    (← serializeKeys platform check serialize (before + 1) stack ref ownKeys.length keys [])

/-! ## All values -/

/-- `%PushIfAbsent`: below it, `serialize` is there as long as the stack is. -/
def withPushIfAbsent (serialize : Option Serializer) (stack : List Nat) (ref : Nat)
    (code : Serializer → List Nat → JsProgram JsonResult) : JsProgram JsonResult :=
  match serialize with
  | none => do
      check fun _ => false
      pure (.error .stackOverflow)
  | some serialize =>
      if ref ∈ stack then pure (.error .circular) else code serialize (stack ++ [ref])

/-- The branches of `JSONSerialize` for an object. -/
def serializeReference (serialize : Option Serializer) (before : Nat) (stack : List Nat)
    (ref : Nat) : JsProgram JsonResult := do
  match ← read fun heap => (heap.objects ref).kind with
  | .array elements => do
      check (fits before)
      withPushIfAbsent check serialize stack ref fun serialize stack =>
        serializeArray platform check serialize before stack ref elements
  | .numberWrapper => do
      check (fits before)
      match ← JsProgram.ask (.toNumber ref) with
      | .ok n => written check before (jsonNumberToString platform n)
      | .error e => pure (.error (.value e))
  | .stringWrapper => do
      check (fits before)
      match ← JsProgram.ask (.toString ref) with
      | .ok s => written check before (← quoteString platform s)
      | .error e => pure (.error (.value e))
  | .booleanWrapper b => written check before (booleanToString b)
  | .function => pure (.ok none)
  | .ordinary => do
      check (fits before)
      withPushIfAbsent check serialize stack ref fun serialize stack =>
        serializeObject platform check serialize before stack ref

/-- The branches of `JSONSerialize`. -/
def serializeValue (serialize : Option Serializer) (before : Nat) (stack : List Nat) :
    JsValue → JsProgram JsonResult
  | .string s => do written check before (← quoteString platform s)
  | .number n => written check before (jsonNumberToString platform n)
  | .boolean b => written check before (booleanToString b)
  | .null => written check before (ascii "null")
  | .object ref => serializeReference platform check serialize before stack ref
  | .undefined => pure (.ok none)

/-- `JSONSerialize` -/
def serialize (nested : Option Serializer) : Serializer := fun before stack key value => do
  match ← applyToJson check key value with
  | .ok value => serializeValue platform check nested before stack value
  | .error e => pure (.error (.value e))

/-- `JSONSerialize`, with room for `limit` levels on the stack. -/
def serializer : Nat → Serializer
  | 0 => serialize platform check none
  | limit + 1 => serialize platform check (some (serializer limit))

end

end JsonSerialize

/-- `JSONSerialize('', {'': value}, undefined, [], '', '')` -/
def jsonSerialize (platform : JsonPlatform) (check : JsonSerialize.Checks) (limit : Nat)
    (value : JsValue) : JsProgram JsonResult :=
  JsonSerialize.serializeProperty (JsonSerialize.serializer platform check limit) 0 []
    (.name (.ofBytes [])) (pure (.ok value))

end WeexBridge.V8
