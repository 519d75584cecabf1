/-
# The strings of the table

The internalized strings are those of the table, and no two of them have the same text.  So
they may be compared by their addresses, and a search finds the string of a text if there is
one.

    Sound       what every operation keeps
    Keeps       what changes in a heap that nobody sees
    Denotes     the text of a key
-/
import WeexBridge.V8.StringHeap

namespace WeexBridge.V8

open StringHasher Memory
open Probing (Cell elements)

/-! ## The heap -/

namespace StringHeap

variable {heap heap' : StringHeap} {address : Nat} {object : StringObject}

theorem get_set (h : heap.get address = some object) (object' : StringObject) (other : Nat) :
    (heap.set address object').get other =
      if other = address then some object' else heap.get other := by
  have hlt : address < heap.strings.length := by
    by_contra hge
    rw [get, List.getElem?_eq_none (Nat.not_lt.mp hge)] at h
    cases h
  unfold get set
  split_ifs with heq
  · rw [heq, List.getElem?_set_self hlt]
    rfl
  · rw [List.getElem?_set_ne (Ne.symm heq)]

theorem get_allocateString (heap : StringHeap) (object : StringObject) (other : Nat) :
    (heap.allocateString object).2.get other =
      if other = heap.strings.length then some object else heap.get other := by
  unfold get allocateString
  dsimp only
  split_ifs with heq
  · rw [heq, List.getElem?_append_right (Nat.le_refl _), Nat.sub_self]
    rfl
  · rcases Nat.lt_or_gt_of_ne heq with hlt | hgt
    · rw [List.getElem?_append_left hlt]
    · rw [List.getElem?_append_right (Nat.le_of_lt hgt), List.getElem?_eq_none (by simp; omega),
        List.getElem?_eq_none (Nat.le_of_lt hgt)]

theorem get_length (heap : StringHeap) : heap.get heap.strings.length = none := by
  unfold get
  rw [List.getElem?_eq_none (Nat.le_refl _)]
  rfl

/-- The hash code of a text. -/
def textHash (seed : UInt32) (units : List UInt16) : UInt32 :=
  hashSequentialString units seed >>> kHashShift

def textOf (heap : StringHeap) (address : Nat) : List UInt16 :=
  ((heap.get address).map fun object => object.content.units).getD []

theorem textOf_eq (h : heap.get address = some object) :
    heap.textOf address = object.content.units := by
  rw [textOf, h]
  rfl

def IsInternalized (heap : StringHeap) (address : Nat) : Prop :=
  ∃ object, heap.get address = some object ∧ object.internalized = true

end StringHeap

/-- The hash field is that of the text. -/
structure StringObject.Sound (seed : UInt32) (object : StringObject) : Prop where
  wellFormed : object.content.WellFormed
  hashed : ∀ field ∈ object.hashField, field = hashSequentialString object.content.units seed

namespace StringHeap

/-- What holds of every string. -/
def ObjectsSound (heap : StringHeap) : Prop :=
  ∀ address object, heap.get address = some object → object.Sound heap.hashSeed

/-- What holds of the heap. -/
structure Sound (heap : StringHeap) : Prop where
  objects : heap.ObjectsSound
  valid : heap.stringTable.Valid fun address => textHash heap.hashSeed (heap.textOf address)
  interned : ∀ address, address ∈ elements heap.stringTable.entries ↔ heap.IsInternalized address
  texts : ((elements heap.stringTable.entries).map heap.textOf).Nodup

section
variable {heap heap' : StringHeap} {address other : Nat} {object : StringObject}

/-- Two internalized strings of one text are one string. -/
theorem Sound.eq_of_textOf (h : Sound heap) (ha : heap.IsInternalized address)
    (hb : heap.IsInternalized other) (htext : heap.textOf address = heap.textOf other) :
    address = other :=
  List.inj_on_of_nodup_map h.texts ((h.interned address).mpr ha) ((h.interned other).mpr hb) htext

/-- The heap with the same table, and the internalized strings with the same texts. -/
structure Keeps (heap heap' : StringHeap) : Prop where
  seed : heap'.hashSeed = heap.hashSeed
  table : heap'.stringTable = heap.stringTable
  kept : ∀ {address object}, heap.get address = some object → ∃ object',
    heap'.get address = some object' ∧ object'.content.units = object.content.units ∧
      object'.internalized = object.internalized
  added : ∀ {address object'}, heap'.get address = some object' →
    heap.get address = none → object'.internalized = false
  sound : heap'.ObjectsSound

theorem Keeps.textOf (h : Keeps heap heap') (hget : heap.get address = some object) :
    heap'.textOf address = heap.textOf address := by
  obtain ⟨object', hget', hunits, -⟩ := h.kept hget
  rw [textOf_eq hget, textOf_eq hget', hunits]

theorem Keeps.isInternalized_iff (h : Keeps heap heap') :
    heap'.IsInternalized address ↔ heap.IsInternalized address := by
  constructor
  · rintro ⟨object', hget', hinternalized⟩
    cases hget : heap.get address with
    | none => cases (h.added hget' hget).symm.trans hinternalized
    | some object =>
        obtain ⟨object'', hget'', -, hsame⟩ := h.kept hget
        cases hget'.symm.trans hget''
        exact ⟨object, hget, hsame.symm.trans hinternalized⟩
  · rintro ⟨object, hget, hinternalized⟩
    obtain ⟨object', hget', -, hsame⟩ := h.kept hget
    exact ⟨object', hget', hsame.trans hinternalized⟩

theorem Keeps.of_sound (h : Sound heap) (hkeeps : Keeps heap heap') : Sound heap' := by
  have htext : ∀ address ∈ elements heap.stringTable.entries,
      heap'.textOf address = heap.textOf address := by
    intro address hmem
    obtain ⟨object, hget, -⟩ := (h.interned address).mp hmem
    exact hkeeps.textOf hget
  refine ⟨hkeeps.sound, ?_, fun address => ?_, ?_⟩
  · rw [hkeeps.table, hkeeps.seed]
    exact h.valid.congr fun address hmem => by rw [htext address hmem]
  · rw [hkeeps.table, h.interned, hkeeps.isInternalized_iff]
  · rw [hkeeps.table, List.map_congr_left htext]
    exact h.texts

theorem ObjectsSound.keeps_refl (h : heap.ObjectsSound) : Keeps heap heap where
  seed := rfl
  table := rfl
  kept hget := ⟨_, hget, rfl, rfl⟩
  added hget hnone := by cases hget.symm.trans hnone
  sound := h

theorem Keeps.trans {heap'' : StringHeap} (h : Keeps heap heap') (h' : Keeps heap' heap'') :
    Keeps heap heap'' where
  seed := h'.seed.trans h.seed
  table := h'.table.trans h.table
  kept hget := by
    obtain ⟨object', hget', hunits, hsame⟩ := h.kept hget
    obtain ⟨object'', hget'', hunits', hsame'⟩ := h'.kept hget'
    exact ⟨object'', hget'', hunits'.trans hunits, hsame'.trans hsame⟩
  added := by
    intro address object'' hget'' hnone
    cases hget' : heap'.get address with
    | none => exact h'.added hget'' hget'
    | some object' =>
        obtain ⟨object, hget, -, hsame⟩ := h'.kept hget'
        cases hget''.symm.trans hget
        exact hsame.trans (h.added hget' hnone)
  sound := h'.sound

/-- An object may get another representation and its hash field. -/
theorem ObjectsSound.keeps_set (h : heap.ObjectsSound) (hget : heap.get address = some object)
    {object' : StringObject} (hunits : object'.content.units = object.content.units)
    (hsame : object'.internalized = object.internalized) (hsound : object'.Sound heap.hashSeed) :
    Keeps heap (heap.set address object') where
  seed := rfl
  table := rfl
  kept := by
    intro other old hold
    rw [get_set hget]
    split_ifs with heq
    · subst heq
      cases hget.symm.trans hold
      exact ⟨object', rfl, hunits, hsame⟩
    · exact ⟨old, hold, rfl, rfl⟩
  added := by
    intro other new hnew hnone
    rw [get_set hget] at hnew
    split_ifs at hnew with heq
    · subst heq
      cases hget.symm.trans hnone
    · cases hnew.symm.trans hnone
  sound := by
    intro other new hnew
    rw [get_set hget] at hnew
    split_ifs at hnew with heq
    · cases hnew
      exact hsound
    · exact h _ _ hnew

theorem ObjectsSound.keeps_allocateString (h : heap.ObjectsSound) {object : StringObject}
    (hplain : object.internalized = false) (hsound : object.Sound heap.hashSeed) :
    Keeps heap (heap.allocateString object).2 where
  seed := rfl
  table := rfl
  kept := by
    intro other old hold
    rw [get_allocateString, if_neg]
    · exact ⟨old, hold, rfl, rfl⟩
    · rintro rfl
      cases (get_length heap).symm.trans hold
  added := by
    intro other new hnew hnone
    rw [get_allocateString] at hnew
    split_ifs at hnew with heq
    · cases hnew
      exact hplain
    · cases hnew.symm.trans hnone
  sound := by
    intro other new hnew
    rw [get_allocateString] at hnew
    split_ifs at hnew with heq
    · cases hnew
      exact hsound
    · exact h _ _ hnew

/-! ## Hash codes and comparison -/

theorem ObjectsSound.hash_eq (h : heap.ObjectsSound) (hget : heap.get address = some object) :
    ∃ heap', heap.hash address =
        some (textHash heap.hashSeed object.content.units, heap') ∧ Keeps heap heap' := by
  have hobject := h _ _ hget
  unfold hash
  rw [hget, Option.bind_some]
  cases hfield : object.hashField with
  | some field =>
      have heq := hobject.hashed field hfield
      exact ⟨heap, by rw [heq]; rfl, h.keeps_refl⟩
  | none =>
      dsimp only
      rw [iteratingHash_eq hobject.wellFormed]
      refine ⟨_, rfl, h.keeps_set hget rfl rfl ⟨hobject.wellFormed, fun field hfield => ?_⟩⟩
      cases hfield
      rfl

theorem Sound.hashForObject_eq (h : Sound heap) (hget : heap.get address = some object) :
    heap.hashForObject address = textHash heap.hashSeed (heap.textOf address) := by
  obtain ⟨heap', hhash, -⟩ := h.objects.hash_eq hget
  rw [hashForObject, hhash, textOf_eq hget]
  rfl

/-- `Equals` compares texts, though it compares internalized strings by their addresses. -/
theorem Sound.equals_eq (h : Sound heap) (platform : TablePlatform) {this : Nat}
    {lhs rhs : StringObject} (hlhs : heap.get this = some lhs) (hrhs : heap.get other = some rhs) :
    heap.equals platform this other = some (decide (lhs.content.units = rhs.content.units)) := by
  unfold equals
  by_cases hsame : other = this
  · subst hsame
    cases hlhs.symm.trans hrhs
    rw [if_pos rfl, decide_eq_true rfl]
  · rw [if_neg hsame, hlhs, Option.bind_some, hrhs, Option.bind_some]
    split_ifs with hboth
    · refine congrArg some (decide_eq_false fun htext => hsame ?_).symm
      refine h.eq_of_textOf ⟨rhs, hrhs, hboth.2⟩ ⟨lhs, hlhs, hboth.1⟩ ?_
      rw [textOf_eq hlhs, textOf_eq hrhs, htext]
    · have hleft := h.objects _ _ hlhs
      have hright := h.objects _ _ hrhs
      refine slowEquals_of_hash platform.comparison _ _ hleft.wellFormed hright.wellFormed ?_
      intro hsome hsome' htext
      rw [Option.isSome_map] at hsome hsome'
      obtain ⟨field, hfield⟩ := Option.isSome_iff_exists.mp hsome
      obtain ⟨field', hfield'⟩ := Option.isSome_iff_exists.mp hsome'
      rw [hfield, hfield', hleft.hashed field hfield, hright.hashed field' hfield', htext]

/-! ## Keys -/

/-- The text of a key. -/
def Denotes (heap : StringHeap) : TableKey → List UInt16 → Prop
  | .utf8 chars, units => Utf8.Encodes chars units ∧ chars.length < 2 ^ 29
  | .oneByte chars, units => units = chars.map UInt8.toUInt16
  | .subString string start length, units => ∃ chars,
      heap.subStringChars string start length = some chars ∧ units = chars.map UInt8.toUInt16
  | .twoByte chars, units => units = chars
  | .internalized string, units => ∃ object, heap.get string = some object ∧
      object.internalized = false ∧ units = object.content.units
  | .twoChar c₁ c₂, units => units = [c₁, c₂] ∧ ¬ (Decimal.isDigit c₁ ∧ Decimal.isDigit c₂)

variable {units : List UInt16} {key : TableKey}

theorem isOneByteEqualTo_eq (host : Host) {string : Str} (hwf : string.WellFormed)
    (chars : List UInt8) :
    isOneByteEqualTo host string chars = decide (string.units = chars.map UInt8.toUInt16) :=
  isFlatEqualTo_eq host hwf (.oneByte chars)

theorem isTwoByteEqualTo_eq (host : Host) {string : Str} (hwf : string.WellFormed)
    (chars : List UInt16) : isTwoByteEqualTo host string chars = decide (string.units = chars) :=
  isFlatEqualTo_eq host hwf (.twoByte chars)

/-- An entry matches a key if it has its text. -/
theorem Sound.isMatch_eq (h : Sound heap) (platform : TablePlatform)
    (hkey : Denotes heap key units) (hget : heap.get address = some object) :
    key.isMatch heap platform address = some (decide (object.content.units = units)) := by
  have hwf := (h.objects _ _ hget).wellFormed
  unfold TableKey.isMatch
  rw [hget, Option.bind_some]
  cases key with
  | utf8 chars => exact isUtf8EqualTo_some hwf platform.beyond hkey.1.decodes hkey.2
  | oneByte chars =>
      obtain rfl : units = chars.map UInt8.toUInt16 := hkey
      exact congrArg some (isOneByteEqualTo_eq platform.host hwf chars)
  | subString string start length =>
      obtain ⟨chars, hchars, rfl⟩ := hkey
      dsimp only
      rw [hchars, Option.map_some, isOneByteEqualTo_eq platform.host hwf]
  | twoByte chars =>
      obtain rfl : units = chars := hkey
      exact congrArg some (isTwoByteEqualTo_eq platform.host hwf units)
  | internalized string =>
      obtain ⟨object', hget', -, rfl⟩ := hkey
      exact h.equals_eq platform hget hget'
  | twoChar c₁ c₂ =>
      obtain ⟨rfl, -⟩ := hkey
      have hlength := Str.length_units hwf
      dsimp only
      by_cases htwo : object.content.length = 2
      · obtain ⟨u₁, u₂, hunits⟩ := List.length_eq_two.mp (hlength.trans htwo)
        have hfirst : object.content.get 0 = u₁ := by
          rw [Str.get_eq hwf (by omega), hunits]
          rfl
        have hsecond : object.content.get 1 = u₂ := by
          rw [Str.get_eq hwf (by omega), hunits]
          rfl
        rw [if_neg (not_not.mpr htwo), hfirst, hsecond, hunits]
        by_cases hsame : u₁ = c₁
        · rw [if_neg (not_not.mpr hsame), hsame]
          exact congrArg some (decide_eq_decide.mpr (by simp))
        · rw [if_pos hsame]
          exact congrArg some (decide_eq_false (by simp [hsame])).symm
      · rw [if_pos htwo]
        refine congrArg some (decide_eq_false fun hunits => htwo ?_).symm
        rw [← hlength, hunits]
        rfl

theorem twoCharHash_eq (c₁ c₂ : UInt16) (seed : UInt32) :
    twoCharHash c₁ c₂ seed =
      getHashCore (addCharacterCore (addCharacterCore seed c₁) c₂) := rfl

/-- The hash field of a text that is no index. -/
theorem hashSequentialString_of_not_index {chars : List UInt16}
    (hindex : ¬ IndexPrefix chars.length chars) (seed : UInt32) :
    hashSequentialString chars seed =
      ((if chars.length ≤ kMaxHashCalcLength then getHashCore (chars.foldl addCharacterCore seed)
        else .ofNat chars.length) <<< kHashShift) ||| kIsNotArrayIndexMask := by
  have hhashed := (hashed_new chars.length seed).addCharacters chars
  rw [List.nil_append] at hhashed
  have hnot : ¬ ((new chars.length seed).addCharacters chars).isArrayIndex = true :=
    fun htrue => hindex (hhashed.isIndex.mp htrue)
  rw [← hhashed.getHashField, getHashField, hhashed.length_eq, if_neg hnot, hhashed.hash]
  split_ifs <;> rfl

/-- A hash code without the bits that a hash field has no room for; a table does not look at
them. -/
theorem hashField_shiftRight_mod (x : UInt32) {k : Nat} (hk : k ≤ 30) :
    ((x <<< kHashShift ||| kIsNotArrayIndexMask) >>> kHashShift).toNat % 2 ^ k =
      x.toNat % 2 ^ k := by
  have hfield :
      (x <<< kHashShift ||| kIsNotArrayIndexMask).toNat = 2 ^ 2 * (x.toNat % 2 ^ 30) + 2 := by
    rw [UInt32.toNat_or, UInt32.toNat_shiftLeft]
    show (x.toNat <<< 2 % 2 ^ 32 ||| 2) = _
    have hshift : x.toNat <<< 2 % 2 ^ 32 = 2 ^ 2 * (x.toNat % 2 ^ 30) := by
      rw [Nat.shiftLeft_eq]
      omega
    rw [hshift, ← Nat.two_pow_add_eq_or_of_lt (by decide)]
  rw [UInt32.toNat_shiftRight, hfield]
  show (2 ^ 2 * (x.toNat % 2 ^ 30) + 2) >>> 2 % 2 ^ k = _
  have hcode : (2 ^ 2 * (x.toNat % 2 ^ 30) + 2) >>> 2 = x.toNat % 2 ^ 30 := by
    rw [Nat.shiftRight_eq_div_pow]
    omega
  rw [hcode, Nat.mod_mod_of_dvd _ (Nat.pow_dvd_pow 2 hk)]

/-- The two characters are hashed as any text is that is no index. -/
theorem textHash_two {c₁ c₂ : UInt16} (hdigits : ¬ (Decimal.isDigit c₁ ∧ Decimal.isDigit c₂))
    (seed : UInt32) {k : Nat} (hk : k ≤ 30) :
    (textHash seed [c₁, c₂]).toNat % 2 ^ k = (twoCharHash c₁ c₂ seed).toNat % 2 ^ k := by
  have hindex : ¬ IndexPrefix [c₁, c₂].length [c₁, c₂] := by
    intro hinit
    exact hdigits ⟨hinit.digits c₁ (by simp), hinit.digits c₂ (by simp)⟩
  have hshort : [c₁, c₂].length ≤ kMaxHashCalcLength := Nat.le_add_left 2 16381
  rw [textHash, hashSequentialString_of_not_index hindex, if_pos hshort,
    hashField_shiftRight_mod _ hk, twoCharHash_eq]
  rfl

/-- The capacity of the table has no more bits than a hash code. -/
theorem Sound.capacity_eq (h : Sound heap) : ∃ k ≤ 30, heap.stringTable.capacity = 2 ^ k := by
  obtain ⟨k, hsize⟩ := h.valid.size
  have hbound := h.valid.bounds.2
  rw [hsize] at hbound
  refine ⟨k, ?_, hsize⟩
  by_contra hlarge
  have hpow := Nat.pow_le_pow_right (n := 2) (by decide) (Nat.le_of_lt (Nat.not_le.mp hlarge))
  unfold HashTable.kMaxCapacity at hbound
  omega

/-- A key that is not the one for two characters. -/
def AddsString : TableKey → Prop
  | .twoChar _ _ => False
  | _ => True

/-- `Hash` of a key is the code of its text as far as the table looks at it. -/
theorem Sound.keyHash_eq (h : Sound heap) (hkey : Denotes heap key units) :
    ∃ code heap', key.hash heap = some (code, heap') ∧ Keeps heap heap' ∧
      Denotes heap' key units ∧
      (textHash heap.hashSeed units).toNat % heap.stringTable.capacity =
        code.toNat % heap.stringTable.capacity := by
  cases key with
  | utf8 chars =>
      refine ⟨_, heap, ?_, h.objects.keeps_refl, hkey, rfl⟩
      rw [TableKey.hash, computeUtf8Hash_eq hkey.1]
      rfl
  | oneByte chars =>
      obtain rfl : units = chars.map UInt8.toUInt16 := hkey
      exact ⟨_, heap, rfl, h.objects.keeps_refl, rfl, rfl⟩
  | subString string start length =>
      obtain ⟨chars, hchars, rfl⟩ := hkey
      refine ⟨_, heap, ?_, h.objects.keeps_refl, ⟨chars, hchars, rfl⟩, rfl⟩
      rw [TableKey.hash, hchars]
      rfl
  | twoByte chars =>
      obtain rfl : units = chars := hkey
      exact ⟨_, heap, rfl, h.objects.keeps_refl, rfl, rfl⟩
  | internalized string =>
      obtain ⟨object, hget, hplain, rfl⟩ := hkey
      obtain ⟨heap', hhash, hkeeps⟩ := h.objects.hash_eq hget
      obtain ⟨object', hget', hunits, hsame⟩ := hkeeps.kept hget
      exact ⟨_, heap', hhash, hkeeps, ⟨object', hget', hsame.trans hplain, hunits.symm⟩, rfl⟩
  | twoChar c₁ c₂ =>
      obtain ⟨rfl, hdigits⟩ := hkey
      obtain ⟨k, hk, hsize⟩ := h.capacity_eq
      rw [hsize]
      exact ⟨_, heap, rfl, h.objects.keeps_refl, ⟨rfl, hdigits⟩, textHash_two hdigits _ hk⟩

/-- A search finds the string of the text, or there is none. -/
theorem Sound.findEntry_eq (h : Sound heap) (platform : TablePlatform)
    (hkey : Denotes heap key units) {code : UInt32}
    (hcode : (textHash heap.hashSeed units).toNat % heap.stringTable.capacity =
      code.toNat % heap.stringTable.capacity) :
    (∃ entry address object, heap.findEntry platform key code = some (some entry) ∧
      heap.keyAt entry = some address ∧ heap.get address = some object ∧
      object.internalized = true ∧ object.content.units = units) ∨
    heap.findEntry platform key code = some none ∧
      ∀ address, heap.IsInternalized address → heap.textOf address ≠ units := by
  have hmatch : ∀ address ∈ elements heap.stringTable.entries, ∃ same,
      key.isMatch heap platform address = some same ∧
        (same = true ↔ heap.textOf address = units) := by
    intro address hmem
    obtain ⟨object, hget, -⟩ := (h.interned address).mp hmem
    refine ⟨_, h.isMatch_eq platform hkey hget, ?_⟩
    rw [textOf_eq hget, decide_eq_true_eq]
  have hwanted : ∀ address ∈ elements heap.stringTable.entries, heap.textOf address = units →
      (textHash heap.hashSeed (heap.textOf address)).toNat % heap.stringTable.capacity =
        code.toNat % heap.stringTable.capacity := by
    intro address _ htext
    rw [htext, hcode]
  rcases h.valid.findEntry hmatch code with ⟨entry, address, hfound, hfull, htext⟩ | ⟨hnone, hall⟩
  · obtain ⟨object, hget, hinternalized⟩ :=
      (h.interned address).mp (Probing.mem_elements.mpr ⟨entry, hfull⟩)
    refine .inl ⟨entry, address, object, hfound, ?_, hget, hinternalized, ?_⟩
    · rw [keyAt, hfull]
      rfl
    · rw [← textOf_eq hget, htext]
  · exact .inr ⟨hnone, fun address hinternalized =>
      hall hwanted address ((h.interned address).mpr hinternalized)⟩

end

end StringHeap

end WeexBridge.V8
