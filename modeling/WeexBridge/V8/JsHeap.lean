/-
# The objects that are serialised

What the two serializers of JSON read of the JavaScript heap: the kind of an
object, its elements, its named properties in the order of enumeration, its
prototypes.  Getters and `toJSON` functions are user code: calling one is a
question to the environment, which may change the heap before it answers.

    own        a property of the object itself
    lookup     the first of the object and its prototypes
    get        `Object::GetProperty` and `Object::GetElement`

There are no proxies and no symbols, whose flags are off, and no interceptors and
access checks, which the bridge does not install.
-/
import WeexBridge.Lib.Reentrant
import WeexBridge.V8.HeapString

namespace WeexBridge.V8

open Reentrant

/-! ## Values -/

/-- A string with its invariant. -/
abbrev JsString := { s : Str // s.WellFormed }

namespace JsString

def units (s : JsString) : List UInt16 := s.val.units

/-- A sequential string of one-byte characters. -/
def ofBytes (bytes : List UInt8) : JsString := ⟨.seq (.oneByte bytes), trivial⟩

end JsString

/-- An internalized string, which is flat: what a property is found by. -/
abbrev JsName := { s : JsString // s.val.IsLeaf }

namespace JsName

def units (s : JsName) : List UInt16 := s.val.units

def ofBytes (bytes : List UInt8) : JsName := ⟨.ofBytes bytes, trivial⟩

end JsName

inductive JsNumber where
  | smi (n : Int)
  | heapNumber (bits : UInt64)
  deriving DecidableEq

inductive JsValue where
  | undefined
  | null
  | boolean (b : Bool)
  | number (n : JsNumber)
  | string (s : JsString)
  | object (ref : Nat)
  deriving DecidableEq

/-- The small integer that `NumberFromDouble` makes of a double. -/
def smiOfDouble (bits : UInt64) : Option Int :=
  let negative := bits.toNat / 2 ^ 63 = 1
  let exponent := bits.toNat / 2 ^ 52 % 2 ^ 11
  let mantissa := 2 ^ 52 + bits.toNat % 2 ^ 52
  let unit := 2 ^ (1075 - exponent)
  if bits = 0 then some 0
  else if 1023 ≤ exponent ∧ exponent ≤ 1053 ∧ mantissa % unit = 0 then
    if negative then
      if mantissa / unit ≤ 2 ^ 30 then some (-(mantissa / unit : Nat)) else none
    else if mantissa / unit < 2 ^ 30 then some (mantissa / unit : Nat) else none
  else none

def numberFromDouble (bits : UInt64) : JsNumber :=
  match smiOfDouble bits with
  | some n => .smi n
  | none => .heapNumber bits

/-! ## Properties -/

/-- A property: a value, or a getter where there is one. -/
inductive Property where
  | data (value : JsValue)
  | accessor (getter : Option Nat)
  deriving DecidableEq

/-- An indexed property. -/
structure ElementEntry where
  index : Nat
  dontEnum : Bool
  property : Property
  deriving DecidableEq

/-- A named property of an object in dictionary mode. -/
structure NamedEntry where
  key : JsName
  dontEnum : Bool
  property : Property
  deriving DecidableEq

/-- Where a map has a property: in a field of the object, or here. -/
inductive Location where
  | field (index : Nat)
  | constant (property : Property)
  deriving DecidableEq

structure Descriptor where
  key : JsName
  dontEnum : Bool
  location : Location
  deriving DecidableEq

/-- A map and its own descriptors, which have different keys. -/
structure JsMap where
  id : Nat
  descriptors : List Descriptor
  nodup : (descriptors.map fun d => d.key.units).Nodup
  deriving DecidableEq

/-- The named properties of an object. -/
inductive NamedProperties where
  | fast (map : JsMap) (fields : Nat → JsValue)
  | dictionary (entries : List NamedEntry)

/-- The elements of an array.  A packed array has its length in elements; those of
`FAST_ELEMENTS` lie in an array of the heap that can outlive its use here. -/
inductive ArrayElements where
  | fastSmi (values : List Int)
  | fastDouble (values : List UInt64)
  | fast (store length : Nat)
  | other (length : Nat) (entries : List ElementEntry)

/-- The elements of what is no array, in an array of `capacity` cells. -/
structure ObjectElements where
  capacity : Nat
  entries : List ElementEntry
  empty : capacity = 0 → entries = []

inductive JsKind where
  | array (elements : ArrayElements)
  | stringWrapper
  | numberWrapper
  | booleanWrapper (value : Bool)
  | function
  | ordinary

structure JsObject where
  kind : JsKind
  elements : ObjectElements
  named : NamedProperties
  /-- The prototype, its prototype, and so on. -/
  prototypes : List Nat

structure JsHeap where
  objects : Nat → JsObject
  /-- The arrays that hold packed elements; a cell may be a hole. -/
  stores : Nat → List (Option JsValue)

/-- The key of a property: an array index, or another name. -/
inductive PropertyKey where
  | index (i : Nat)
  | name (s : JsName)

namespace ArrayElements

/-- `JSArray::length` -/
def length : ArrayElements → Nat
  | fastSmi values => values.length
  | fastDouble values => values.length
  | fast _ length => length
  | other length _ => length

end ArrayElements

/-- The property that a map's descriptor stands for. -/
def Location.property (fields : Nat → JsValue) : Location → Property
  | field index => .data (fields index)
  | constant property => property

namespace NamedProperties

/-- The named properties in order, with what hides them from enumeration. -/
def entries : NamedProperties → List NamedEntry
  | fast map fields =>
      map.descriptors.map fun d => ⟨d.key, d.dontEnum, d.location.property fields⟩
  | dictionary entries => entries

def find (properties : NamedProperties) (name : List UInt16) : Option Property :=
  (properties.entries.find? fun e => e.key.units = name).map NamedEntry.property

end NamedProperties

namespace JsHeap

/-- The own element of an array. -/
def arrayElement (heap : JsHeap) (i : Nat) : ArrayElements → Option Property
  | .fastSmi values => values[i]?.map fun n => .data (.number (.smi n))
  | .fastDouble values => values[i]?.map fun bits => .data (.number (numberFromDouble bits))
  | .fast store length =>
      if i < length then ((heap.stores store)[i]?).join.map .data else none
  | .other _ entries => (entries.find? fun e => e.index = i).map ElementEntry.property

def ownElement (heap : JsHeap) (ref i : Nat) : Option Property :=
  match (heap.objects ref).kind with
  | .array elements => heap.arrayElement i elements
  | _ => ((heap.objects ref).elements.entries.find? fun e => e.index = i).map
      ElementEntry.property

/-- `HasLocalProperty`, with the property. -/
def own (heap : JsHeap) (ref : Nat) : PropertyKey → Option Property
  | .index i => heap.ownElement ref i
  | .name s => (heap.objects ref).named.find s.units

/-- The object and its prototypes. -/
def chain (heap : JsHeap) (ref : Nat) : List Nat := ref :: (heap.objects ref).prototypes

def lookup (heap : JsHeap) (ref : Nat) (key : PropertyKey) : Option Property :=
  (heap.chain ref).findSome? fun holder => heap.own holder key

/-! ## Enumeration -/

/-- `GetEnumElementKeys` -/
def enumElementKeys (heap : JsHeap) (ref : Nat) : List PropertyKey :=
  match (heap.objects ref).kind with
  | .array (.fastSmi values) => (List.range values.length).map .index
  | .array (.fastDouble values) => (List.range values.length).map .index
  | .array (.fast _ length) => (List.range length).map .index
  | .array (.other _ entries) =>
      (entries.filter fun e => !e.dontEnum).map fun e => .index e.index
  | _ => ((heap.objects ref).elements.entries.filter fun e => !e.dontEnum).map
      fun e => .index e.index

/-- `GetEnumPropertyKeys` -/
def enumPropertyKeys (heap : JsHeap) (ref : Nat) : List PropertyKey :=
  ((heap.objects ref).named.entries.filter fun e => !e.dontEnum).map fun e => .name e.key

/-- The test of `HasKey`.  An index that is no small integer is a heap number, and is never
found. -/
def sameKey : PropertyKey → PropertyKey → Bool
  | .index i, .index j => i = j && i < 2 ^ 30
  | .name s, .name t => s.units = t.units
  | _, _ => false

/-- `UnionOfKeys`, which adds the keys of the second array that `HasKey` does not find in the
first. -/
def unionOfKeys (first second : List PropertyKey) : List PropertyKey :=
  first ++ second.filter fun key => !first.any (sameKey key)

/-- One turn of `GetKeysInFixedArrayFor`. -/
def addKeys (heap : JsHeap) (content : List PropertyKey) (current : Nat) : List PropertyKey :=
  unionOfKeys (unionOfKeys content (heap.enumElementKeys current)) (heap.enumPropertyKeys current)

/-- `GetKeysInFixedArrayFor(object, LOCAL_ONLY)` -/
def localKeys (heap : JsHeap) (ref : Nat) : List PropertyKey := heap.addKeys [] ref

/-- `GetKeysInFixedArrayFor(object, INCLUDE_PROTOS)` -/
def keysIncludingPrototypes (heap : JsHeap) (ref : Nat) : List PropertyKey :=
  (heap.chain ref).foldl heap.addKeys []

end JsHeap

/-! ## User code -/

/-- Calls of user code. -/
inductive JsQuestion where
  | getter (getter receiver : Nat)
  | toJson (function receiver : Nat) (key : JsString)
  /-- `ToString` of a wrapper. -/
  | toString (wrapper : Nat)
  /-- `ToNumber` of a wrapper. -/
  | toNumber (wrapper : Nat)

/-- A value, or the exception that is thrown. -/
abbrev JsAnswer : JsQuestion → Type
  | .getter _ _ => Except JsValue JsValue
  | .toJson _ _ _ => Except JsValue JsValue
  | .toString _ => Except JsValue JsString
  | .toNumber _ => Except JsValue JsNumber

/-- Code that runs on the heap. -/
abbrev JsProgram (α : Type) := Program JsAnswer JsHeap α

namespace JsProgram

def ask (question : JsQuestion) : JsProgram (JsAnswer question) := Program.ask question

/-- What reading the property gives. -/
def getProperty (receiver : Nat) : Option Property → JsProgram (Except JsValue JsValue)
  | none => pure (.ok .undefined)
  | some (.data value) => pure (.ok value)
  | some (.accessor none) => pure (.ok .undefined)
  | some (.accessor (some getter)) => ask (.getter getter receiver)

/-- `GetProperty` and `GetElement`. -/
def get (receiver : Nat) (key : PropertyKey) : JsProgram (Except JsValue JsValue) := do
  getProperty receiver (← Program.read fun heap => heap.lookup receiver key)

end JsProgram

/-! ## Numbers as text -/

/-- `IntToCString`, without the zero byte. -/
def intToCString (n : Int) : List UInt8 :=
  let digits := (Nat.toDigits 10 n.natAbs).map fun c => UInt8.ofNat c.toNat
  if n < 0 then 0x2D :: digits else digits

/-- The key as the string that `toJSON` gets and that a member starts with. -/
def PropertyKey.toJsString : PropertyKey → JsString
  | index i => .ofBytes (intToCString i)
  | name s => s.val

/-- It can be read where it lies. -/
theorem PropertyKey.isLeaf_toJsString : ∀ key : PropertyKey, key.toJsString.val.IsLeaf
  | index _ => trivial
  | name s => s.property

/-- What the build decides about the serializers: what unused memory holds, the text
of a double, and what `Smi::cast` makes of the pointer to a length that is no small
integer. -/
structure JsonPlatform where
  fill : Nat → UInt16
  doubleToCString : UInt64 → List UInt8
  pointerAsSmi : Nat → Nat

/-- `isinf(number) || isnan(number)` -/
def isInfOrNan (bits : UInt64) : Bool := bits.toNat / 2 ^ 52 % 2 ^ 11 = 2047

end WeexBridge.V8
