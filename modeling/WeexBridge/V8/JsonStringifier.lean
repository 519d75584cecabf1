/-
# `BasicJsonStringifier`

What `JSON.stringify` with one argument runs.  A value is first replaced by what
its `toJSON` gives; then arrays and objects are taken apart by their
representation, and the text goes to the writer.  A failed read is a null handle:
where the code tests for it, the exception is passed on; where it does not, it is
dereferenced.

The nesting of arrays and objects is bounded by the stack: `serializer limit` goes
`limit` levels deep, and one more is `STACK_OVERFLOW`.
-/
import WeexBridge.V8.JsHeap
import WeexBridge.V8.JsonWriter

namespace WeexBridge.V8

open Reentrant

/-- `enum Result`, with the exception. -/
inductive SerializeResult where
  | unchanged
  | success
  | exception (e : JsValue)
  | circular
  | stackOverflow

namespace BasicJsonStringifier

open Program (read crash)

/-- Goes on, where there is something to go on with; elsewhere memory has been overrun, or an
empty handle is dereferenced. -/
def lift {α : Type} : Option α → JsProgram α
  | some value => pure value
  | none => crash

/-- What is left to write before a member: nothing, or its key after a comma. -/
structure Deferred where
  key : Bool
  comma : Bool

/-- `Serialize_`, on the objects that are being serialized. -/
abbrev Serializer := List Nat → Deferred → PropertyKey → JsValue → JsonWriter →
  JsProgram (SerializeResult × JsonWriter)

section
variable (platform : JsonPlatform)

/-! ## Primitive values -/

/-- `SerializeDeferredKey` -/
def serializeDeferredKey (deferred : Deferred) (key : PropertyKey) (w : JsonWriter) :
    Option JsonWriter :=
  if deferred.key then
    (if deferred.comma then w.append platform.fill 0x2C else some w).bind fun w =>
      (w.serializeString platform.fill key.toJsString.val).bind fun w =>
        w.append platform.fill 0x3A
  else some w

def serializeSmi (n : Int) (w : JsonWriter) : Option JsonWriter :=
  w.appendAscii platform.fill (intToCString n)

def serializeDouble (bits : UInt64) (w : JsonWriter) : Option JsonWriter :=
  if isInfOrNan bits then w.appendAscii platform.fill (literalBytes "null")
  else w.appendAscii platform.fill (platform.doubleToCString bits)

def serializeNumber (n : JsNumber) (w : JsonWriter) : Option JsonWriter :=
  match n with
  | .smi n => serializeSmi platform n w
  | .heapNumber bits => serializeDouble platform bits w

/-- `SUCCESS`, once this is written. -/
def success (w : Option JsonWriter) : JsProgram (SerializeResult × JsonWriter) := do
  pure (.success, ← lift w)

/-! ## `toJSON` -/

def toJsonName : PropertyKey := .name (.ofBytes (literalBytes "toJSON"))

def isFunction (heap : JsHeap) (ref : Nat) : Bool :=
  match (heap.objects ref).kind with
  | .function => true
  | _ => false

/-- `ApplyToJsonFunction`; the property is tested for a function without a look at
whether there was an exception. -/
def applyToJsonFunction (object : Nat) (key : PropertyKey) :
    JsProgram (Except JsValue JsValue) := do
  match ← read fun heap => heap.lookup object toJsonName with
  | none => pure (.ok (.object object))
  | some property =>
      match ← JsProgram.getProperty object (some property) with
      | .error _ => crash
      | .ok (.object function) =>
          if ← read fun heap => isFunction heap function then
            JsProgram.ask (.toJson function object key.toJsString)
          else pure (.ok (.object object))
      | .ok _ => pure (.ok (.object object))

/-! ## Wrappers -/

/-- `SerializeJSValue` of a `String`. -/
def serializeStringWrapper (ref : Nat) (w : JsonWriter) :
    JsProgram (SerializeResult × JsonWriter) := do
  match ← JsProgram.ask (.toString ref) with
  | .ok value => success (w.serializeString platform.fill value.val)
  | .error e => pure (.exception e, w)

/-- `SerializeJSValue` of a `Number`. -/
def serializeNumberWrapper (ref : Nat) (w : JsonWriter) :
    JsProgram (SerializeResult × JsonWriter) := do
  match ← JsProgram.ask (.toNumber ref) with
  | .ok n => success (serializeNumber platform n w)
  | .error e => pure (.exception e, w)

def serializeBoolean (b : Bool) (w : JsonWriter) : Option JsonWriter :=
  w.appendAscii platform.fill (literalBytes (if b then "true" else "false"))

/-! ## Arrays -/

/-- A comma, but before the first element. -/
def elementComma (i : Nat) (w : JsonWriter) : Option JsonWriter :=
  if 0 < i then w.append platform.fill 0x2C else some w

/-- The loops over small integers and over doubles. -/
def serializeNumbers {α : Type} (serialize : α → JsonWriter → Option JsonWriter) :
    Nat → List α → JsonWriter → Option JsonWriter
  | _, [], w => some w
  | i, n :: ns, w => (elementComma platform i w).bind fun w =>
      (serialize n w).bind (serializeNumbers serialize (i + 1) ns)

/-- What follows an element: the loop goes on after `SUCCESS` and `UNCHANGED`. -/
def afterElement (loop : JsonWriter → JsProgram (SerializeResult × JsonWriter)) :
    SerializeResult × JsonWriter → JsProgram (SerializeResult × JsonWriter)
  | (.success, w) => loop w
  | (.unchanged, w) => do loop (← lift (w.appendAscii platform.fill (literalBytes "null")))
  | (result, w) => pure (result, w)

/-- The array is as it was when the loop began, as far as the loop looks. -/
def isFastOfLength (heap : JsHeap) (ref length : Nat) : Bool :=
  match (heap.objects ref).kind with
  | .array (.fast _ length') => length' = length
  | _ => false

/-- The loop of `FAST_ELEMENTS`, `rest` elements before its end.  It reads the
elements where they were when it began. -/
def serializeFastElements (serialize : Serializer) (stack : List Nat) (ref store length : Nat) :
    Nat → Nat → JsonWriter → JsProgram (SerializeResult × JsonWriter)
  | _, 0, w => pure (.success, w)
  | i, rest + 1, w => do
      if ← read fun heap => isFastOfLength heap ref length then
        let w ← lift (elementComma platform i w)
        let loop := serializeFastElements serialize stack ref store length (i + 1) rest
        match ← read fun heap => (heap.stores store)[i]? with
        | some (some element) =>
            afterElement platform loop (← serialize stack ⟨false, false⟩ (.index i) element w)
        | some none => afterElement platform loop (.unchanged, w)
        | none => crash
      -- Fall back to slow path.
      else pure (.success, w)

/-- `SerializeJSArraySlow`, `rest` elements before its end. -/
def serializeJSArraySlow (serialize : Serializer) (stack : List Nat) (ref : Nat) :
    Nat → Nat → JsonWriter → JsProgram (SerializeResult × JsonWriter)
  | _, 0, w => pure (.success, w)
  | i, rest + 1, w => do
      let w ← lift (elementComma platform i w)
      let loop := serializeJSArraySlow serialize stack ref (i + 1) rest
      match ← JsProgram.get ref (.index i) with
      | .ok .undefined => afterElement platform loop (.unchanged, w)
      | .ok element =>
          afterElement platform loop (← serialize stack ⟨false, false⟩ (.index i) element w)
      | .error _ => crash

/-- `Smi::cast(object->length())->value()` -/
def smiLength (length : Nat) : Nat :=
  if length < 2 ^ 30 then length else platform.pointerAsSmi length

/-- The elements of an array, by their kind. -/
def serializeElements (serialize : Serializer) (stack : List Nat) (ref : Nat)
    (w : JsonWriter) : ArrayElements → JsProgram (SerializeResult × JsonWriter)
  | .fastSmi values => success (serializeNumbers platform (serializeSmi platform) 0 values w)
  | .fastDouble values =>
      success (serializeNumbers platform (serializeDouble platform) 0 values w)
  | .fast store length =>
      serializeFastElements platform serialize stack ref store length 0 length w
  | .other length _ =>
      serializeJSArraySlow platform serialize stack ref 0 (smiLength platform length) w

/-- What is written around the members, when they are all there. -/
def close (bracket : UInt16) :
    SerializeResult × JsonWriter → JsProgram (SerializeResult × JsonWriter)
  | (.success, w) => success (w.append platform.fill bracket)
  | (result, w) => pure (result, w)

/-- `SerializeJSArray`, once the array is on the stack. -/
def serializeJSArray (serialize : Serializer) (stack : List Nat) (ref : Nat)
    (elements : ArrayElements) (w : JsonWriter) : JsProgram (SerializeResult × JsonWriter) := do
  let w ← lift (w.append platform.fill 0x5B)
  close platform 0x5D (← serializeElements platform serialize stack ref w elements)

/-! ## Objects -/

/-- What follows a member: the loop goes on, with a comma once there is one. -/
def afterProperty (loop : Bool → JsonWriter → JsProgram (SerializeResult × JsonWriter))
    (comma : Bool) : SerializeResult × JsonWriter → JsProgram (SerializeResult × JsonWriter)
  | (.success, w) => loop true w
  | (.unchanged, w) => loop comma w
  | (result, w) => pure (result, w)

/-- The property of a descriptor: a field is read where it lies, if the object still
has the map. -/
def descriptorValue (ref : Nat) (map : JsMap) (d : Descriptor) :
    JsProgram (Except JsValue JsValue) := do
  match d.location with
  | .field index =>
      match ← read fun heap => (heap.objects ref).named with
      | .fast map' fields =>
          if map' = map then pure (.ok (fields index)) else JsProgram.get ref (.name d.key)
      | .dictionary _ => JsProgram.get ref (.name d.key)
  | .constant _ => JsProgram.get ref (.name d.key)

/-- The loop over the own descriptors of a map. -/
def serializeDescriptors (serialize : Serializer) (stack : List Nat) (ref : Nat) (map : JsMap) :
    List Descriptor → Bool → JsonWriter → JsProgram (SerializeResult × JsonWriter)
  | [], _, w => pure (.success, w)
  | d :: ds, comma, w => do
      let loop := serializeDescriptors serialize stack ref map ds
      if d.dontEnum then loop comma w
      else
        match ← descriptorValue ref map d with
        | .ok property =>
            afterProperty loop comma (← serialize stack ⟨true, comma⟩ (.name d.key) property w)
        | .error e => pure (.exception e, w)

/-- The loop over keys that have been collected. -/
def serializeKeys (serialize : Serializer) (stack : List Nat) (ref : Nat) :
    List PropertyKey → Bool → JsonWriter → JsProgram (SerializeResult × JsonWriter)
  | [], _, w => pure (.success, w)
  | key :: keys, comma, w => do
      match ← JsProgram.get ref key with
      | .ok property =>
          afterProperty (serializeKeys serialize stack ref keys) comma
            (← serialize stack ⟨true, comma⟩ key property w)
      | .error e => pure (.exception e, w)

/-- The members of an object. -/
def serializeMembers (serialize : Serializer) (stack : List Nat) (ref : Nat) (w : JsonWriter) :
    JsProgram (SerializeResult × JsonWriter) := do
  let object ← read fun heap => heap.objects ref
  let slow := do
    serializeKeys serialize stack ref (← read fun heap => heap.localKeys ref) false w
  match object.named with
  | .fast map _ =>
      if object.elements.capacity = 0 then
        serializeDescriptors serialize stack ref map map.descriptors false w
      else slow
  | .dictionary _ => slow

/-- `SerializeJSObject`, once the object is on the stack. -/
def serializeJSObject (serialize : Serializer) (stack : List Nat) (ref : Nat)
    (w : JsonWriter) : JsProgram (SerializeResult × JsonWriter) := do
  let w ← lift (w.append platform.fill 0x7B)
  close platform 0x7D (← serializeMembers serialize stack ref w)

/-! ## All values -/

/-- `StackPush`: below it, `serialize` is there as long as the stack is. -/
def withStackPush (serialize : Option Serializer) (stack : List Nat) (ref : Nat) (w : JsonWriter)
    (code : Serializer → List Nat → JsProgram (SerializeResult × JsonWriter)) :
    JsProgram (SerializeResult × JsonWriter) :=
  match serialize with
  | none => pure (.stackOverflow, w)
  | some serialize =>
      if ref ∈ stack then pure (.circular, w) else code serialize (stack ++ [ref])

/-- The branches of `Serialize_` for an object. -/
def serializeObject (serialize : Option Serializer) (stack : List Nat) (deferred : Deferred)
    (key : PropertyKey) (ref : Nat) (w : JsonWriter) :
    JsProgram (SerializeResult × JsonWriter) := do
  let deferredKey := serializeDeferredKey platform deferred key w
  match ← read fun heap => (heap.objects ref).kind with
  | .array elements =>
      let w ← lift deferredKey
      withStackPush serialize stack ref w fun serialize stack =>
        serializeJSArray platform serialize stack ref elements w
  | .stringWrapper => do serializeStringWrapper platform ref (← lift deferredKey)
  | .numberWrapper => do serializeNumberWrapper platform ref (← lift deferredKey)
  | .booleanWrapper b => success (deferredKey.bind (serializeBoolean platform b))
  | .function => pure (.unchanged, w)
  | .ordinary =>
      let w ← lift deferredKey
      withStackPush serialize stack ref w fun serialize stack =>
        serializeJSObject platform serialize stack ref w

/-- The branches of `Serialize_`. -/
def serializeValue (serialize : Option Serializer) (stack : List Nat) (deferred : Deferred)
    (key : PropertyKey) (value : JsValue) (w : JsonWriter) :
    JsProgram (SerializeResult × JsonWriter) :=
  let deferredKey := serializeDeferredKey platform deferred key w
  match value with
  | .undefined => pure (.unchanged, w)
  | .null =>
      success (deferredKey.bind fun w => w.appendAscii platform.fill (literalBytes "null"))
  | .boolean b => success (deferredKey.bind (serializeBoolean platform b))
  | .number n => success (deferredKey.bind (serializeNumber platform n))
  | .string s => success (deferredKey.bind fun w => w.serializeString platform.fill s.val)
  | .object ref => serializeObject platform serialize stack deferred key ref w

/-- `Serialize_` -/
def serialize (nested : Option Serializer) : Serializer := fun stack deferred key object w => do
  match object with
  | .object ref =>
      match ← applyToJsonFunction ref key with
      | .ok value => serializeValue platform nested stack deferred key value w
      | .error e => pure (.exception e, w)
  | value => serializeValue platform nested stack deferred key value w

/-- `Serialize_`, with room for `limit` levels on the stack. -/
def serializer : Nat → Serializer
  | 0 => serialize platform none
  | limit + 1 => serialize platform (some (serializer limit))

end

end BasicJsonStringifier

/-! ## The result -/

/-- What is thrown: by user code, for a circular structure, for a full stack. -/
inductive Thrown where
  | value (e : JsValue)
  | circular
  | stackOverflow

/-- A text, or `undefined`. -/
abbrev JsonResult := Except Thrown (Option (List UInt16))

/-- `BasicJsonStringifier::Stringify` -/
def basicJsonStringify (platform : JsonPlatform) (limit : Nat) (object : JsValue) :
    JsProgram JsonResult := do
  let start := JsonWriter.start platform.fill
  match ← BasicJsonStringifier.serializer platform limit [] ⟨false, false⟩
      (.name (.ofBytes [])) object start with
  | (.unchanged, _) => pure (.ok none)
  | (.success, w) => do pure (.ok (some (← BasicJsonStringifier.lift w.result)))
  | (.exception e, _) => pure (.error (.value e))
  | (.circular, _) => pure (.error .circular)
  | (.stackOverflow, _) => pure (.error .stackOverflow)

end WeexBridge.V8
