/-
# Keys in the string table

For a key the JSON parser hashes the characters as it scans them, and goes round the table on
its own.  It asks the table only if that has not found a string; the string is the same as if
the table were asked at once.

    lookupScanned        the walk of the parser
    internalizeScanned   the string of a key
-/
import WeexBridge.V8.StringRuns

namespace WeexBridge.V8

open StringHasher HashTable
open Probing (Cell elements)

namespace StringHeap

/-! ## The parser -/

/-- The hash that `ScanJsonString` computes for the characters of a key. -/
def scannedHash (seed : UInt32) (chars : List UInt8) : UInt32 :=
  let runningHash := chars.foldl (fun runningHash c => addCharacterCore runningHash c.toUInt16) seed
  if chars.length ≤ kMaxHashCalcLength then getHashCore runningHash else .ofNat chars.length

section
variable (heap : StringHeap)

/-- The loop of `ScanJsonString` over the table. -/
def lookupScannedLoop (host : Host) (chars : List UInt8) : Nat → Nat → Nat → Option (Option Nat)
  | 0, _, _ => none
  | fuel + 1, entry, count =>
      let capacity := heap.stringTable.capacity
      match heap.stringTable.entries[entry]? with
      | none => none
      | some .empty => some none
      | some .deleted =>
          lookupScannedLoop host chars fuel (nextProbe entry count capacity) (count + 1)
      | some (.full element) =>
          (heap.get element).bind fun object =>
            if isOneByteEqualTo host object.content chars then some (some element)
            else lookupScannedLoop host chars fuel (nextProbe entry count capacity) (count + 1)

def lookupScanned (host : Host) (chars : List UInt8) : Option (Option Nat) :=
  let capacity := heap.stringTable.capacity
  heap.lookupScannedLoop host chars capacity
    (firstProbe (scannedHash heap.hashSeed chars).toNat capacity) 1

/-- The string of the key that is the characters of the source from `begPos` on:
`InternalizeOneByteString` makes it if it has not been found. -/
def internalizeScanned (platform : TablePlatform) (allocation : Allocation)
    (source begPos length : Nat) : Option (MaybeObject Nat × StringHeap) :=
  (heap.subStringChars source begPos length).bind fun chars =>
    (heap.lookupScanned platform.host chars).bind fun found =>
      match found with
      | some element => some (some element, heap)
      | none => heap.lookupKey platform allocation (.subString source begPos length)

end

/-! ## The walk -/

section
variable {heap : StringHeap} {chars : List UInt8}

/-- The walk is a search of the table. -/
theorem lookupScannedLoop_eq (heap : StringHeap) (host : Host) (chars : List UInt8)
    (fuel entry count : Nat) :
    heap.lookupScannedLoop host chars fuel entry count =
      (heap.stringTable.findEntryLoop (fun element => (heap.get element).map fun object =>
        isOneByteEqualTo host object.content chars) fuel entry count).map fun found =>
          found.bind heap.keyAt := by
  induction fuel generalizing entry count with
  | zero => rfl
  | succ fuel ih =>
      unfold lookupScannedLoop findEntryLoop
      cases hentry : heap.stringTable.entries[entry]? with
      | none => rfl
      | some cell =>
          cases cell with
          | empty => rfl
          | deleted => exact ih _ _
          | full element =>
              dsimp only
              cases heap.get element with
              | none => rfl
              | some object =>
                  rw [Option.bind_some, Option.map_some, Option.bind_some]
                  split_ifs
                  · rw [Option.map_some, Option.bind_some, keyAt, hentry]
                    rfl
                  · exact ih _ _

/-- The hash of the parser is that of the table, but for an index. -/
theorem scannedHash_mod (seed : UInt32) {k : Nat} (hk : k ≤ 30)
    (hindex : ¬ IndexPrefix chars.length (chars.map UInt8.toUInt16)) :
    (textHash seed (chars.map UInt8.toUInt16)).toNat % 2 ^ k =
      (scannedHash seed chars).toNat % 2 ^ k := by
  have hindex' : ¬ IndexPrefix (chars.map UInt8.toUInt16).length (chars.map UInt8.toUInt16) := by
    rwa [List.length_map]
  rw [textHash, hashSequentialString_of_not_index hindex', hashField_shiftRight_mod _ hk,
    List.foldl_map, List.length_map]
  rfl

/-- What the walk finds is the string of the key; it misses none, but of an index. -/
theorem Sound.lookupScanned_eq (h : Sound heap) (host : Host) (chars : List UInt8) :
    ∃ found, heap.lookupScanned host chars = some found ∧
      (∀ string, found = some string →
        heap.IsInternalized string ∧ heap.textOf string = chars.map UInt8.toUInt16) ∧
      (found = none → ¬ IndexPrefix chars.length (chars.map UInt8.toUInt16) →
        heap.IsFresh (chars.map UInt8.toUInt16)) := by
  have hmatch : ∀ element ∈ elements heap.stringTable.entries, ∃ same,
      ((heap.get element).map fun object => isOneByteEqualTo host object.content chars) =
          some same ∧ (same = true ↔ heap.textOf element = chars.map UInt8.toUInt16) := by
    intro element hmem
    obtain ⟨object, hget, -⟩ := (h.interned element).mp hmem
    rw [hget, Option.map_some, isOneByteEqualTo_eq host (h.objects _ _ hget).wellFormed,
      textOf_eq hget]
    exact ⟨_, rfl, decide_eq_true_iff⟩
  unfold lookupScanned
  dsimp only
  rw [lookupScannedLoop_eq]
  rcases h.valid.findEntry hmatch (scannedHash heap.hashSeed chars) with
    ⟨entry, element, hfound, hfull, htext⟩ | ⟨hnone, hall⟩
  · unfold HashTable.findEntry at hfound
    have hkey : heap.keyAt entry = some element := by
      rw [keyAt, hfull]
      rfl
    rw [hfound, Option.map_some, Option.bind_some, hkey]
    refine ⟨some element, rfl, ?_, fun hnone => absurd hnone (Option.some_ne_none element)⟩
    rintro string ⟨⟩
    exact ⟨(h.interned element).mp (Probing.mem_elements.mpr ⟨entry, hfull⟩), htext⟩
  · unfold HashTable.findEntry at hnone
    rw [hnone]
    refine ⟨none, rfl, fun string hsome => absurd hsome.symm (Option.some_ne_none string),
      fun _ hindex address hinternalized => ?_⟩
    obtain ⟨k, hk, hsize⟩ := h.capacity_eq
    refine hall ?_ address ((h.interned address).mpr hinternalized)
    intro element _ htext
    rw [htext, hsize]
    exact scannedHash_mod heap.hashSeed hk hindex

/-- The table finds at once what the walk has found. -/
theorem Sound.lookupKey_found (h : Sound heap) (platform : TablePlatform) (allocation : Allocation)
    {source begPos length string : Nat}
    (hchars : heap.subStringChars source begPos length = some chars)
    (hinternalized : heap.IsInternalized string)
    (htext : heap.textOf string = chars.map UInt8.toUInt16) :
    heap.lookupKey platform allocation (.subString source begPos length) =
      some (some string, heap) := by
  have hkey : Denotes heap (.subString source begPos length) (chars.map UInt8.toUInt16) :=
    ⟨chars, hchars, rfl⟩
  unfold lookupKey
  rw [TableKey.hash, hchars, Option.map_some, Option.bind_some]
  dsimp only
  rcases h.findEntry_eq platform hkey rfl with
    ⟨entry, address, object, hfound, hat, hget, hobject, hunits⟩ | ⟨-, hfresh⟩
  · rw [textHash] at hfound
    rw [hfound, Option.bind_some]
    dsimp only
    have hsame : address = string :=
      h.eq_of_textOf ⟨object, hget, hobject⟩ hinternalized (by rw [textOf_eq hget, hunits, htext])
    rw [hat, hsame]
    rfl
  · exact absurd htext (hfresh string hinternalized)

/-- The walk of the parser changes nothing: the string of a key is the one of the table, found
or made as the table would do it.  But for an index the walk finds every string that is
there. -/
theorem internalizeScanned_eq {seed : UInt32} {first : StringHeap} {platform : TablePlatform}
    {ops : List StringOp} (hinitial : initial seed = some first)
    (hrun : Run first ops heap) (allocation : Allocation) {source begPos length : Nat}
    (hchars : heap.subStringChars source begPos length = some chars) :
    heap.internalizeScanned platform allocation source begPos length =
        heap.lookupKey platform allocation (.subString source begPos length) ∧
      (¬ IndexPrefix chars.length (chars.map UInt8.toUInt16) → ∀ string,
        heap.lookupScanned platform.host chars = some (some string) ↔
          heap.IsInternalized string ∧ heap.textOf string = chars.map UInt8.toUInt16) := by
  obtain ⟨hsound, -⟩ := hrun.sound (sound_initial hinitial)
  obtain ⟨found, hfound, hstring, hfresh⟩ := hsound.lookupScanned_eq platform.host chars
  constructor
  · unfold internalizeScanned
    rw [hchars, Option.bind_some, hfound, Option.bind_some]
    cases found with
    | none => rfl
    | some string =>
        obtain ⟨hinternalized, htext⟩ := hstring string rfl
        exact (hsound.lookupKey_found platform allocation hchars hinternalized htext).symm
  · intro hindex string
    rw [hfound, Option.some.injEq]
    refine ⟨hstring string, ?_⟩
    rintro ⟨hinternalized, htext⟩
    cases found with
    | none => exact absurd htext (hfresh rfl hindex string hinternalized)
    | some other =>
        obtain ⟨hother, htext'⟩ := hstring other rfl
        exact congrArg some (hsound.eq_of_textOf hother hinternalized (htext'.trans htext.symm))

theorem internalizeScanned_eq_quoted :
    ∃ heap, Run first [.newString (.seq (.oneByte [0x22, 0x61, 0x62, 0x22]))] heap ∧
      heap.internalizeScanned plainPlatform ⟨true, true, false, none⟩ 0 1 2 =
        heap.lookupKey plainPlatform ⟨true, true, false, none⟩ (.subString 0 1 2) := by
  have hrun : Run first [.newString (.seq (.oneByte [0x22, 0x61, 0x62, 0x22]))] _ :=
    .cons plainPlatform trivial rfl .nil
  have hinitial : initial 7 = some first := rfl
  exact ⟨_, hrun, (internalizeScanned_eq hinitial hrun ⟨true, true, false, none⟩ rfl).1⟩

end

end StringHeap

end WeexBridge.V8
