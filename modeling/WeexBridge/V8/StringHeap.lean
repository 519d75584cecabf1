/-
# The string table

The runtime keeps one string of a text in its table.  A key is a string of the heap or
characters in memory of one width or another; the table is asked for a string that matches,
and if there is none, the string of the key is added.  A collection takes the strings out
that are not marked.

    StringHeap       the strings of the heap, and the table
    TableKey         the keys that may be looked up
    lookupKey        the string of a key, found or added
    equals           `String::Equals`, which compares internalized strings by address
-/
import WeexBridge.V8.ConsString
import WeexBridge.V8.HashTable
import WeexBridge.V8.StringEquals
import WeexBridge.V8.Utf8Keys

namespace WeexBridge.V8

open StringHasher Memory
open Probing (Cell)

/-- A string, its map as far as it is internalized, and its hash field once computed. -/
structure StringObject where
  content : Str
  internalized : Bool
  hashField : Option UInt32
  deriving DecidableEq, Repr

/-- The strings by their addresses, none where one has been collected, and the roots. -/
structure StringHeap where
  hashSeed : UInt32
  strings : List (Option StringObject)
  stringTable : HashTable Nat

/-- What the runtime runs on. -/
structure TablePlatform where
  host : Host
  comparison : EqualsPlatform
  flatMemory : Str → Bool
  beyond : UInt16

/-- What one lookup finds of memory: for a table, for a string; whether a string is in new
space; and at which address the first part of a flat cons string is. -/
structure Allocation where
  table : Bool
  string : Bool
  newSpace : Bool
  first : Option Nat

/-- The classes of `HashTableKey` for strings. -/
inductive TableKey where
  | utf8 (chars : List UInt8)
  | oneByte (chars : List UInt8)
  | subString (string start length : Nat)
  | twoByte (chars : List UInt16)
  | internalized (string : Nat)
  | twoChar (c₁ c₂ : UInt16)
  deriving DecidableEq, Repr

/-- `kInitialStringTableSize` -/
def kInitialStringTableSize : Nat := 2048

namespace StringHeap

section
variable (heap : StringHeap)

def get (address : Nat) : Option StringObject := heap.strings[address]?.join

def set (address : Nat) (object : StringObject) : StringHeap :=
  { heap with strings := heap.strings.set address (some object) }

def allocateString (object : StringObject) : Nat × StringHeap :=
  (heap.strings.length, { heap with strings := heap.strings ++ [some object] })

/-- `Name::Hash`, and `ComputeAndSetHash` -/
def hash (address : Nat) : Option (UInt32 × StringHeap) :=
  (heap.get address).bind fun object =>
    match object.hashField with
    | some field => some (field >>> kHashShift, heap)
    | none => (iteratingHash object.content heap.hashSeed).map fun field =>
        (field >>> kHashShift, heap.set address { object with hashField := some field })

/-- `HashForObject`, for an entry of the table. -/
def hashForObject (address : Nat) : UInt32 := ((heap.hash address).map Prod.fst).getD 0

/-- `String::Equals` -/
def equals (platform : TablePlatform) (this other : Nat) : Option Bool :=
  if other = this then some true
  else (heap.get this).bind fun lhs => (heap.get other).bind fun rhs =>
    if lhs.internalized ∧ rhs.internalized then some false
    else
      slowEquals platform.comparison (lhs.hashField.map (· >>> kHashShift))
        (rhs.hashField.map (· >>> kHashShift)) (platform.flatMemory lhs.content)
        (platform.flatMemory rhs.content) lhs.content rhs.content

/-- `string_->GetChars() + from_`, `length_` characters. -/
def subStringChars (string start length : Nat) : Option (List UInt8) :=
  (heap.get string).bind fun object =>
    match object.content with
    | .seq (.oneByte chars) =>
        if start + length ≤ chars.length then some ((chars.drop start).take length) else none
    | _ => none

end

end StringHeap

/-! ## Keys -/

/-- The hash that `TwoCharHashTableKey` computes. -/
def twoCharHash (c₁ c₂ : UInt16) (seed : UInt32) : UInt32 :=
  let hash := seed + c₁.toUInt32
  let hash := hash + (hash <<< 10)
  let hash := hash ^^^ (hash >>> 6)
  let hash := hash + c₂.toUInt32
  let hash := hash + (hash <<< 10)
  let hash := hash ^^^ (hash >>> 6)
  let hash := hash + (hash <<< 3)
  let hash := hash ^^^ (hash >>> 11)
  let hash := hash + (hash <<< 15)
  if hash &&& kHashBitMask = 0 then kZeroHash else hash

/-- `WriteTwoByteData` of UTF-8: what is written to `len` cells. -/
def writeTwoByteData : Nat → List UInt8 → Nat → Option (List UInt16)
  | _, [], _ => some []
  | 0, _ :: _, _ => none
  | fuel + 1, b :: stream, len =>
      (Utf8.valueOf (b :: stream) (stream.length + 1)).bind fun (c, consumed) =>
        let chars := Utf8Decoder.unitsOf c
        if len < chars.length then some []
        else
          (writeTwoByteData fuel ((b :: stream).drop consumed)
            (len - chars.length)).map (chars ++ ·)

namespace TableKey

/-- `Hash` of a key. -/
def hash (heap : StringHeap) : TableKey → Option (UInt32 × StringHeap)
  | .utf8 chars =>
      (computeUtf8Hash chars heap.hashSeed).map fun (field, _) => (field >>> kHashShift, heap)
  | .oneByte chars =>
      some (hashSequentialString (chars.map UInt8.toUInt16) heap.hashSeed >>> kHashShift, heap)
  | .subString string start length =>
      (heap.subStringChars string start length).map fun chars =>
        (hashSequentialString (chars.map UInt8.toUInt16) heap.hashSeed >>> kHashShift, heap)
  | .twoByte chars => some (hashSequentialString chars heap.hashSeed >>> kHashShift, heap)
  | .internalized string => heap.hash string
  | .twoChar c₁ c₂ => some (twoCharHash c₁ c₂ heap.hashSeed, heap)

/-- `IsMatch` of a key with an entry. -/
def isMatch (heap : StringHeap) (platform : TablePlatform) (key : TableKey) (string : Nat) :
    Option Bool :=
  (heap.get string).bind fun object =>
    match key with
    | .utf8 chars => isUtf8EqualTo object.content (some platform.beyond) chars
    | .oneByte chars => some (isOneByteEqualTo platform.host object.content chars)
    | .subString parent start length =>
        (heap.subStringChars parent start length).map
          (isOneByteEqualTo platform.host object.content)
    | .twoByte chars => some (isTwoByteEqualTo platform.host object.content chars)
    | .internalized other => heap.equals platform string other
    | .twoChar c₁ c₂ =>
        if object.content.length ≠ 2 then some false
        else if object.content.get 0 ≠ c₁ then some false
        else some (object.content.get 1 = c₂)

end TableKey

namespace StringHeap

/-- `AllocateOneByteInternalizedString`, `AllocateTwoByteInternalizedString`, and
`AllocateInternalizedStringImpl` once the characters are there. -/
def allocateInternalized (heap : StringHeap) (allocation : Allocation) (chars : FlatChars)
    (hashField : Option UInt32) : MaybeObject Nat × StringHeap :=
  let maxLength := if chars.isOneByte then kMaxOneByteLength else kMaxTwoByteLength
  if chars.length > maxLength then (none, heap)
  else if allocation.string then
    let (address, heap) := heap.allocateString ⟨.seq chars, true, hashField⟩
    (some address, heap)
  else (none, heap)

/-- The characters that `AllocateInternalizedStringImpl` copies. -/
def copyString (fill : Nat → UInt16) (string : Str) : Option FlatChars :=
  if string.isOneByteRepresentation then
    (Str.writeToFlat UInt16.toUInt8 string
      (allocate (fun i => (fill i).toUInt8) string.length) 0 0 string.length).map .oneByte
  else (Str.writeToFlat id string (allocate fill string.length) 0 0 string.length).map .twoByte

/-- The string that `TryFlattenGetString` gives: the first part of a cons string that is flat
by now, at an address that is known or not. -/
def flatString (heap : StringHeap) (allocation : Allocation) (string : Nat)
    (object : StringObject) (flat : Str) : Nat × StringHeap :=
  match object.content with
  | .cons oneByte _ _ =>
      if flat = object.content then (string, heap)
      else
        let heap := heap.set string { object with content := .flattened oneByte flat }
        match allocation.first.filter fun first =>
            (heap.get first).any fun object => object.content = flat with
        | some first => (first, heap)
        | none => heap.allocateString ⟨flat, false, none⟩
  | _ => (string, heap)

/-- `InternalizedStringMapForString`: whether there is a map. -/
def hasInternalizedMap (allocation : Allocation) : Str → Bool
  | .sliced .. => false
  | _ => !allocation.newSpace

end StringHeap

namespace TableKey

/-- `AsObject` of a key: the string, or a failure, and the key as it is then. -/
def asObject (heap : StringHeap) (platform : TablePlatform) (allocation : Allocation) :
    TableKey → Option ((MaybeObject Nat × StringHeap) × TableKey)
  | .utf8 str =>
      (computeUtf8Hash str heap.hashSeed).bind fun (field, chars) =>
        if chars = str.length then
          some (heap.allocateInternalized allocation (.oneByte str) (some field), .utf8 str)
        else
          (writeTwoByteData str.length str chars).bind fun written =>
            (store (allocate platform.comparison.fill chars) 0 written).map fun content =>
              (heap.allocateInternalized allocation (.twoByte content) (some field), .utf8 str)
  | .oneByte chars =>
      let field := hashSequentialString (chars.map UInt8.toUInt16) heap.hashSeed
      some (heap.allocateInternalized allocation (.oneByte chars) (some field), .oneByte chars)
  | .subString string start length =>
      (heap.subStringChars string start length).map fun chars =>
        let field := hashSequentialString (chars.map UInt8.toUInt16) heap.hashSeed
        (heap.allocateInternalized allocation (.oneByte chars) (some field),
          .subString string start length)
  | .twoByte chars =>
      let field := hashSequentialString chars heap.hashSeed
      some (heap.allocateInternalized allocation (.twoByte chars) (some field), .twoByte chars)
  | .internalized string =>
      (heap.get string).bind fun object =>
        (object.content.tryFlattenGetString platform.comparison.fill
            (platform.flatMemory object.content)).bind fun flat =>
          let (string, heap) := heap.flatString allocation string object flat
          (heap.get string).bind fun object =>
            if StringHeap.hasInternalizedMap allocation object.content then
              some ((some string, heap.set string { object with internalized := true }),
                .internalized string)
            else
              (StringHeap.copyString platform.comparison.fill object.content).map fun chars =>
                (heap.allocateInternalized allocation chars object.hashField, .internalized string)
  | .twoChar _ _ => none

end TableKey

/-! ## The table -/

namespace StringHeap

section
variable (heap : StringHeap) (platform : TablePlatform)

/-- `FindEntry` -/
def findEntry (key : TableKey) (hash : UInt32) : Option (Option Nat) :=
  heap.stringTable.findEntry hash (key.isMatch heap platform)

/-- `KeyAt` -/
def keyAt (entry : Nat) : Option Nat := heap.stringTable.entries[entry]?.bind Cell.element?

/-- `LookupKey`.  The heap is left as it is at a failure, too. -/
def lookupKey (allocation : Allocation) (key : TableKey) : Option (MaybeObject Nat × StringHeap) :=
  (key.hash heap).bind fun (hash, heap) =>
    (heap.findEntry platform key hash).bind fun found =>
      match found with
      | some entry => (heap.keyAt entry).map fun string => (some string, heap)
      | none =>
          (heap.stringTable.ensureCapacity heap.hashForObject allocation.table 1).bind fun obj =>
            match obj with
            | none => some (none, heap)
            | some table =>
                (key.asObject heap platform allocation).bind fun ((string, heap), key) =>
                  match string with
                  | none => some (none, heap)
                  | some string =>
                      (key.hash heap).bind fun (hash, heap) =>
                        (table.findInsertionEntry hash).map fun entry =>
                          (some string,
                            { heap with stringTable := (table.setEntry entry string).elementAdded })

/-- `Heap::InternalizeString` -/
def internalizeString (allocation : Allocation) (string : Nat) :
    Option (MaybeObject Nat × StringHeap) :=
  (heap.get string).bind fun object =>
    if object.internalized then some (some string, heap)
    else heap.lookupKey platform allocation (.internalized string)

/-- The lookup of a key that adds nothing. -/
def lookupIfExists (key : TableKey) : Option (Option Nat × StringHeap) :=
  (key.hash heap).bind fun (hash, heap) =>
    (heap.findEntry platform key hash).bind fun found =>
      match found with
      | none => some (none, heap)
      | some entry => (heap.keyAt entry).map fun string => (some string, heap)

/-- `Heap::InternalizeStringIfExists` -/
def internalizeStringIfExists (string : Nat) : Option (Option Nat × StringHeap) :=
  (heap.get string).bind fun object =>
    if object.internalized then some (some string, heap)
    else heap.lookupIfExists platform (.internalized string)

/-- `LookupTwoCharsStringIfExists` -/
def lookupTwoCharsStringIfExists (c₁ c₂ : UInt16) : Option (Option Nat × StringHeap) :=
  heap.lookupIfExists platform (.twoChar c₁ c₂)

end

/-- `StringTableCleaner::VisitPointers`: the entries, and how many pointers were removed. -/
def visitPointers (marked : Nat → Bool) : List (Cell Nat) → List (Cell Nat) × Nat
  | [] => ([], 0)
  | .full o :: entries =>
      let (entries, removed) := visitPointers marked entries
      if marked o then (.full o :: entries, removed) else (.deleted :: entries, removed + 1)
  | cell :: entries =>
      let (entries, removed) := visitPointers marked entries
      (cell :: entries, removed)

/-- The part of a collection that is about strings: `AfterMarking`, and the sweep. -/
def collect (heap : StringHeap) (marked : Nat → Bool) : StringHeap :=
  let (entries, removed) := visitPointers marked heap.stringTable.entries
  { heap with
    strings := heap.strings.mapIdx fun address object => if marked address then object else none
    stringTable := { heap.stringTable with entries }.elementsRemoved removed }

/-- The heap that `CreateInitialObjects` makes, if there is memory. -/
def initial (hashSeed : UInt32) : MaybeObject StringHeap :=
  (HashTable.allocate kInitialStringTableSize true).map fun table => ⟨hashSeed, [], table⟩

end StringHeap

end WeexBridge.V8
