/-
# One string for a text

A key whose text has no string yet gets one, made from characters or from a string of the
heap.  However strings are made, flattened, hashed, looked up and collected, there is one
internalized string for a text, and it stays the same as long as it is held.

    Adds       a heap with one string more
    Step       what is done with the heap
    Run        one thing after the other
-/
import WeexBridge.V8.InternedKeys

namespace WeexBridge.V8

open StringHasher Memory
open Probing (Cell elements)

namespace StringHeap

/-! ## A new string -/

/-- The heap with one more internalized string, which is not in the table yet. -/
structure Adds (heap heap' : StringHeap) (string : Nat) (units : List UInt16) : Prop where
  seed : heap'.hashSeed = heap.hashSeed
  table : heap'.stringTable = heap.stringTable
  kept : ∀ {address object}, heap.get address = some object → ∃ object',
    heap'.get address = some object' ∧ object'.content.units = object.content.units ∧
      (address ≠ string → object'.internalized = object.internalized)
  added : ∀ {address object'}, heap'.get address = some object' → heap.get address = none →
    address ≠ string → object'.internalized = false
  made : ∃ object', heap'.get string = some object' ∧ object'.internalized = true ∧
    object'.content.units = units
  fresh : ¬ heap.IsInternalized string
  sound : heap'.ObjectsSound

section
variable {heap heap' heap'' : StringHeap} {string address : Nat} {object : StringObject}
  {units : List UInt16} {key : TableKey}

theorem Keeps.adds (h : Keeps heap heap') (h' : Adds heap' heap'' string units) :
    Adds heap heap'' string units where
  seed := h'.seed.trans h.seed
  table := h'.table.trans h.table
  kept hget := by
    obtain ⟨object', hget', hunits, hsame⟩ := h.kept hget
    obtain ⟨object'', hget'', hunits', hsame'⟩ := h'.kept hget'
    exact ⟨object'', hget'', hunits'.trans hunits, fun hne => (hsame' hne).trans hsame⟩
  added := by
    intro address object'' hget'' hnone hne
    cases hget' : heap'.get address with
    | none => exact h'.added hget'' hget' hne
    | some object' =>
        obtain ⟨object, hget, -, hsame⟩ := h'.kept hget'
        cases hget''.symm.trans hget
        exact (hsame hne).trans (h.added hget' hnone)
  made := h'.made
  fresh := fun hinternalized => h'.fresh (h.isInternalized_iff.mpr hinternalized)
  sound := h'.sound

theorem Adds.keeps (h : Adds heap heap' string units) (h' : Keeps heap' heap'') :
    Adds heap heap'' string units where
  seed := h'.seed.trans h.seed
  table := h'.table.trans h.table
  kept hget := by
    obtain ⟨object', hget', hunits, hsame⟩ := h.kept hget
    obtain ⟨object'', hget'', hunits', hsame'⟩ := h'.kept hget'
    exact ⟨object'', hget'', hunits'.trans hunits, fun hne => hsame'.trans (hsame hne)⟩
  added := by
    intro address object'' hget'' hnone hne
    cases hget' : heap'.get address with
    | none => exact h'.added hget'' hget'
    | some object' =>
        obtain ⟨object, hget, -, hsame⟩ := h'.kept hget'
        cases hget''.symm.trans hget
        exact hsame.trans (h.added hget' hnone hne)
  made := by
    obtain ⟨object', hget', hinternalized, hunits⟩ := h.made
    obtain ⟨object'', hget'', hunits', hsame⟩ := h'.kept hget'
    exact ⟨object'', hget'', hsame.trans hinternalized, hunits'.trans hunits⟩
  fresh := h.fresh
  sound := h'.sound

theorem adds_allocateString (h : heap.ObjectsSound) {object : StringObject}
    (hinternalized : object.internalized = true) (hsound : object.Sound heap.hashSeed) :
    Adds heap (heap.allocateString object).2 (heap.allocateString object).1
      object.content.units where
  seed := rfl
  table := rfl
  kept := by
    intro other old hold
    rw [get_allocateString, if_neg]
    · exact ⟨old, hold, rfl, fun _ => rfl⟩
    · rintro rfl
      cases (get_length heap).symm.trans hold
  added := by
    intro other new hnew hnone hne
    change other ≠ heap.strings.length at hne
    rw [get_allocateString, if_neg hne] at hnew
    cases hnew.symm.trans hnone
  made := ⟨object, (get_allocateString _ _ _).trans (if_pos rfl), hinternalized, rfl⟩
  fresh := by
    rintro ⟨old, hold, -⟩
    cases (get_length heap).symm.trans hold
  sound := by
    intro other new hnew
    rw [get_allocateString] at hnew
    split_ifs at hnew with heq
    · cases hnew
      exact hsound
    · exact h _ _ hnew

theorem adds_set (h : heap.ObjectsSound) (hget : heap.get address = some object)
    (hplain : object.internalized = false) :
    Adds heap (heap.set address { object with internalized := true }) address
      object.content.units where
  seed := rfl
  table := rfl
  kept := by
    intro other old hold
    rw [get_set hget]
    split_ifs with heq
    · subst heq
      cases hget.symm.trans hold
      exact ⟨_, rfl, rfl, fun hne => absurd rfl hne⟩
    · exact ⟨old, hold, rfl, fun _ => rfl⟩
  added := by
    intro other new hnew hnone hne
    rw [get_set hget, if_neg hne] at hnew
    cases hnew.symm.trans hnone
  made := ⟨_, (get_set hget _ _).trans (if_pos rfl), rfl, rfl⟩
  fresh := by
    rintro ⟨old, hold, hinternalized⟩
    cases hget.symm.trans hold
    cases hplain.symm.trans hinternalized
  sound := by
    intro other new hnew
    rw [get_set hget] at hnew
    split_ifs at hnew with heq
    · cases hnew
      exact ⟨(h _ _ hget).wellFormed, (h _ _ hget).hashed⟩
    · exact h _ _ hnew

/-- What the allocation of a string gives: the string, or a failure with nothing changed. -/
theorem allocateInternalized_eq (h : heap.ObjectsSound) (allocation : Allocation)
    (chars : FlatChars) {hashField : Option UInt32}
    (hhash : ∀ field ∈ hashField, field = hashSequentialString chars.units heap.hashSeed) :
    heap.allocateInternalized allocation chars hashField = (none, heap) ∨
    ∃ string heap', heap.allocateInternalized allocation chars hashField = (some string, heap') ∧
      Adds heap heap' string chars.units ∧
      ∀ {address object}, heap.get address = some object → heap'.get address = some object := by
  unfold allocateInternalized
  dsimp only
  generalize (if chars.isOneByte then kMaxOneByteLength else kMaxTwoByteLength) = maxLength
  split_ifs with hlong hmemory
  · exact .inl rfl
  · have hsound : StringObject.Sound heap.hashSeed ⟨.seq chars, true, hashField⟩ :=
      ⟨trivial, hhash⟩
    refine .inr ⟨_, _, rfl, adds_allocateString h rfl hsound, ?_⟩
    · intro address object hget
      rw [get_allocateString, if_neg]
      · exact hget
      · rintro rfl
        cases (get_length heap).symm.trans hget
  · exact .inl rfl

/-! ## The characters of a key -/

theorem writeTwoByteData_eq {stream : List UInt8} (h : Utf8.Decodes stream units) {fuel : Nat}
    (hfuel : stream.length ≤ fuel) :
    writeTwoByteData fuel stream units.length = some units := by
  induction h generalizing fuel with
  | nil =>
      unfold writeTwoByteData
      rfl
  | @cons stream c cursor units hpos hle hvalue _ ih =>
      cases stream with
      | nil => exact absurd (Nat.lt_of_lt_of_le hpos hle) (Nat.lt_irrefl 0)
      | cons b stream =>
          obtain ⟨fuel, rfl⟩ : ∃ k, fuel = k + 1 := ⟨fuel - 1, by simp at hfuel; omega⟩
          have hrest : ((b :: stream).drop cursor).length ≤ fuel := by
            rw [List.length_drop]
            omega
          rw [List.length_cons] at hvalue
          unfold writeTwoByteData
          rw [hvalue, Option.bind_some]
          dsimp only
          rw [List.length_append, if_neg (by omega), Nat.add_sub_cancel_left, ih hrest]
          rfl

theorem store_all (fill : Nat → UInt16) (chars : List UInt16) :
    store (allocate fill chars.length) 0 chars = some chars := by
  rw [store_eq_some (by simp), splice, List.take_zero, List.nil_append,
    List.drop_eq_nil_of_le (by simp), List.append_nil]

theorem copyString_eq (fill : Nat → UInt16) {string : Str} (hwf : string.WellFormed) :
    ∃ chars, copyString fill string = some chars ∧ chars.units = string.units := by
  have hlength := Str.length_units hwf
  have hcopy : ∀ {α : Type} (cast : UInt16 → α) (fill : Nat → α),
      Str.writeToFlat cast string (allocate fill string.length) 0 0 string.length =
        some (string.units.map cast) := by
    intro α cast fill
    rw [Str.writeToFlat_eq cast hwf _ 0 0 _ (Nat.zero_le _) (Nat.le_refl _) (by simp),
      List.drop_zero, Nat.sub_zero, List.take_of_length_le (Nat.le_of_eq hlength), splice,
      List.take_zero, List.nil_append, List.drop_eq_nil_of_le, List.append_nil]
    rw [length_allocate, List.length_map, hlength]
    omega
  unfold copyString
  split_ifs with honeByte
  · rw [hcopy]
    exact ⟨_, rfl, Str.map_toUInt8_toUInt16 (Str.lt_of_isOneByteRepresentation hwf honeByte)⟩
  · rw [hcopy, List.map_id]
    exact ⟨_, rfl, rfl⟩

/-- No internalized string has the text. -/
def IsFresh (heap : StringHeap) (units : List UInt16) : Prop :=
  ∀ address, heap.IsInternalized address → heap.textOf address ≠ units

theorem Keeps.isFresh (h : Keeps heap heap') (hfresh : heap.IsFresh units) :
    heap'.IsFresh units := by
  intro address hinternalized
  have hold := h.isInternalized_iff.mp hinternalized
  obtain ⟨object, hget, -⟩ := id hold
  rw [h.textOf hget]
  exact hfresh address hold

/-- The string that `TryFlattenGetString` gives has the text. -/
theorem flatString_eq (h : heap.ObjectsSound) (allocation : Allocation)
    (hget : heap.get string = some object) {fill : Nat → UInt16} {allocated : Bool} {flat : Str}
    (hflat : object.content.tryFlattenGetString fill allocated = some flat) :
    ∃ other heap' result, heap.flatString allocation string object flat = (other, heap') ∧
      Keeps heap heap' ∧ heap'.get other = some result ∧
      result.content.units = object.content.units ∧
      (object.internalized = false → heap.IsFresh object.content.units →
        result.internalized = false) := by
  obtain ⟨content, internalized, hashField⟩ := object
  have hsound := h _ _ hget
  cases content with
  | cons oneByte first second =>
      unfold flatString
      dsimp only
      by_cases hsame : flat = .cons oneByte first second
      · rw [if_pos hsame]
        exact ⟨string, heap, _, rfl, h.keeps_refl, hget, rfl, fun hplain _ => hplain⟩
      · rw [if_neg hsame]
        have hflat' : Str.tryFlatten fill (.cons oneByte first second) = some (some flat) := by
          unfold Str.tryFlattenGetString at hflat
          dsimp only at hflat
          split_ifs at hflat with hfailed
          · cases hflat
            exact absurd rfl hsame
          · obtain ⟨result, hresult, hflat⟩ := Option.map_eq_some_iff.mp hflat
            cases result with
            | none => exact absurd hflat.symm hsame
            | some flat' =>
                cases hflat
                exact hresult
        obtain ⟨-, hwf, -, hunits⟩ := Str.tryFlatten_some hsound.wellFormed hflat'
        obtain ⟨hwf', hunits'⟩ := Str.wellFormed_flattened hsound.wellFormed hflat'
        have hset := @ObjectsSound.keeps_set heap string _ h hget
          ⟨.flattened oneByte flat, internalized, hashField⟩ hunits' rfl
          ⟨hwf', fun field hfield => (hsound.hashed field hfield).trans (by rw [hunits'])⟩
        generalize heap.set string ⟨.flattened oneByte flat, internalized, hashField⟩ = heap' at *
        split
        next other hfirst =>
            -- the first part has an address
            obtain ⟨-, hany⟩ := Option.filter_eq_some_iff.mp hfirst
            obtain ⟨result, hresult, hcontent⟩ := (Option.any_eq_true _ _).mp hany
            have hunits'' : result.content.units = (Str.cons oneByte first second).units := by
              rw [of_decide_eq_true hcontent, hunits]
            refine ⟨other, heap', result, rfl, hset, hresult, hunits'', fun _ hfresh => ?_⟩
            by_contra hinternalized
            exact hset.isFresh hfresh other ⟨result, hresult, Bool.of_not_eq_false hinternalized⟩
              ((textOf_eq hresult).trans hunits'')
        next =>
            have hnew := @ObjectsSound.keeps_allocateString _ hset.sound ⟨flat, false, none⟩ rfl
              ⟨hwf, nofun⟩
            exact ⟨_, _, _, rfl, hset.trans hnew,
              (get_allocateString _ _ _).trans (if_pos rfl), hunits, fun _ _ => rfl⟩
  | _ => exact ⟨string, heap, _, rfl, h.keeps_refl, hget, rfl, fun hplain _ => hplain⟩

/-- The string of a text is made, and the key is hashed once more; or there is no memory. -/
def Makes (heap : StringHeap) (made : Option ((MaybeObject Nat × StringHeap) × TableKey))
    (units : List UInt16) : Prop :=
  (∃ heap' key, made = some ((none, heap'), key) ∧ Keeps heap heap') ∨
  ∃ string heap' key heap'', made = some ((some string, heap'), key) ∧
    Adds heap heap' string units ∧
    key.hash heap' = some (textHash heap.hashSeed units, heap'') ∧ Keeps heap' heap''

theorem Makes.of_keeps {made : Option ((MaybeObject Nat × StringHeap) × TableKey)}
    (h : Makes heap' made units) (hkeeps : Keeps heap heap') : Makes heap made units := by
  rcases h with ⟨heap'', key, hmade, h⟩ | ⟨string, heap'', key, heap''', hmade, hadds, hhash, h⟩
  · exact .inl ⟨heap'', key, hmade, hkeeps.trans h⟩
  · rw [hkeeps.seed] at hhash
    exact .inr ⟨string, heap'', key, heap''', hmade, hkeeps.adds hadds, hhash, h⟩

theorem makes_allocateInternalized (h : heap.ObjectsSound) (allocation : Allocation)
    {chars : FlatChars} {hashField : Option UInt32} (hunits : chars.units = units)
    (hhash : ∀ field ∈ hashField, field = hashSequentialString units heap.hashSeed)
    (hkey : ∀ {string heap'}, Adds heap heap' string units →
      (∀ {address object}, heap.get address = some object → heap'.get address = some object) →
      ∃ heap'', key.hash heap' = some (textHash heap.hashSeed units, heap'') ∧ Keeps heap' heap'') :
    Makes heap (some (heap.allocateInternalized allocation chars hashField, key)) units := by
  subst hunits
  rcases allocateInternalized_eq h allocation chars hhash with
    hnone | ⟨string, heap', hsome, hadds, hkept⟩
  · rw [hnone]
    exact .inl ⟨heap, key, rfl, h.keeps_refl⟩
  · rw [hsome]
    obtain ⟨heap'', hcode, hkeeps⟩ := hkey hadds hkept
    exact .inr ⟨string, heap', key, heap'', rfl, hadds, hcode, hkeeps⟩

/-- The hash of a key that is a vector of characters. -/
theorem hash_of_chars {chars : List UInt16} (hadds : Adds heap heap' string chars) :
    ∃ heap'', some (hashSequentialString chars heap'.hashSeed >>> kHashShift, heap') =
      some (textHash heap.hashSeed chars, heap'') ∧ Keeps heap' heap'' := by
  rw [hadds.seed]
  exact ⟨heap', rfl, hadds.sound.keeps_refl⟩

theorem hash_of_get (hadds : Adds heap heap' string units)
    (hget : heap'.get address = some object) (hunits : object.content.units = units) :
    ∃ heap'', heap'.hash address = some (textHash heap.hashSeed units, heap'') ∧
      Keeps heap' heap'' := by
  subst hunits
  rw [← hadds.seed]
  exact hadds.sound.hash_eq hget

theorem makes_internalized (h : heap.ObjectsSound) (platform : TablePlatform)
    (allocation : Allocation) (hget : heap.get string = some object)
    (hplain : object.internalized = false) (hfresh : heap.IsFresh object.content.units) :
    Makes heap ((TableKey.internalized string).asObject heap platform allocation)
      object.content.units := by
  have hsound := h _ _ hget
  obtain ⟨flat, hflat, -, -⟩ := Str.tryFlattenGetString_eq platform.comparison.fill
    (platform.flatMemory object.content) hsound.wellFormed
  obtain ⟨other, heap', result, hmade, hkeeps, hget', hunits, hplain'⟩ :=
    flatString_eq h allocation hget hflat
  have hresult := hkeeps.sound _ _ hget'
  simp only [TableKey.asObject, hget, Option.bind_some, hflat, hmade, hget']
  refine Makes.of_keeps ?_ hkeeps
  rw [← hunits]
  split_ifs with hmap
  · -- the string itself becomes internalized
    have hadds := adds_set hkeeps.sound hget' (hplain' hplain hfresh)
    obtain ⟨object', hset, -, hunits'⟩ := hadds.made
    obtain ⟨heap'', hcode, hkeeps'⟩ := hash_of_get hadds hset hunits'
    exact .inr ⟨other, _, .internalized other, heap'', rfl, hadds, hcode, hkeeps'⟩
  · obtain ⟨chars, hchars, hcopied⟩ := copyString_eq platform.comparison.fill hresult.wellFormed
    rw [hchars]
    refine makes_allocateInternalized hkeeps.sound allocation hcopied hresult.hashed ?_
    intro _ heap'' hadds hkept
    exact hash_of_get hadds (hkept hget') rfl

theorem Sound.makes_asObject (h : Sound heap) (platform : TablePlatform) (allocation : Allocation)
    (hkey : Denotes heap key units) (hadds : AddsString key) (hfresh : heap.IsFresh units) :
    Makes heap (key.asObject heap platform allocation) units := by
  have hfield : ∀ {chars : List UInt16}, ∀ field ∈ some (hashSequentialString chars heap.hashSeed),
      field = hashSequentialString chars heap.hashSeed := by
    intro chars field hfield
    exact (Option.some.inj hfield).symm
  cases key with
  | utf8 str =>
      obtain ⟨hencodes, -⟩ := hkey
      simp only [TableKey.asObject, computeUtf8Hash_eq hencodes, Option.bind_some]
      have hkey' : ∀ {string heap'}, Adds heap heap' string units →
          (∀ {address object}, heap.get address = some object → heap'.get address = some object) →
          ∃ heap'', (TableKey.utf8 str).hash heap' = some (textHash heap.hashSeed units, heap'') ∧
            Keeps heap' heap'' := by
        intro _ heap' hadds _
        rw [TableKey.hash, computeUtf8Hash_eq hencodes]
        exact hash_of_chars hadds
      split_ifs with hascii
      · exact makes_allocateInternalized h.objects allocation (hencodes.eq_map hascii).symm hfield
          hkey'
      · rw [writeTwoByteData_eq hencodes.decodes (Nat.le_refl _), Option.bind_some, store_all]
        exact makes_allocateInternalized h.objects allocation rfl hfield hkey'
  | oneByte chars =>
      obtain rfl : units = chars.map UInt8.toUInt16 := hkey
      exact makes_allocateInternalized h.objects allocation rfl hfield fun hadds _ =>
        hash_of_chars hadds
  | subString parent start length =>
      obtain ⟨chars, hchars, rfl⟩ := hkey
      simp only [TableKey.asObject, hchars, Option.map_some]
      refine makes_allocateInternalized h.objects allocation rfl hfield ?_
      intro _ heap' hadds hkept
      have hchars' : heap'.subStringChars parent start length = some chars := by
        unfold subStringChars at hchars ⊢
        obtain ⟨object, hget, -⟩ := Option.bind_eq_some_iff.mp hchars
        rw [hkept hget, ← hget]
        exact hchars
      rw [TableKey.hash, hchars']
      exact hash_of_chars hadds
  | twoByte chars =>
      obtain rfl : units = chars := hkey
      exact makes_allocateInternalized h.objects allocation rfl hfield fun hadds _ =>
        hash_of_chars hadds
  | internalized string =>
      obtain ⟨object, hget, hplain, rfl⟩ := hkey
      exact makes_internalized h.objects platform allocation hget hplain hfresh
  | twoChar c₁ c₂ => exact hadds.elim

/-! ## The table -/

theorem Adds.textOf (h : Adds heap heap' string units) (hget : heap.get address = some object) :
    heap'.textOf address = heap.textOf address := by
  obtain ⟨object', hget', hunits, -⟩ := h.kept hget
  rw [textOf_eq hget, textOf_eq hget', hunits]

theorem Adds.textOf_made (h : Adds heap heap' string units) : heap'.textOf string = units := by
  obtain ⟨object', hget', -, hunits⟩ := h.made
  rw [textOf_eq hget', hunits]

theorem Adds.isInternalized_iff (h : Adds heap heap' string units) :
    heap'.IsInternalized address ↔ address = string ∨ heap.IsInternalized address := by
  by_cases hsame : address = string
  · subst hsame
    obtain ⟨object', hget', hinternalized, -⟩ := h.made
    exact iff_of_true ⟨object', hget', hinternalized⟩ (.inl rfl)
  · rw [or_iff_right hsame]
    constructor
    · rintro ⟨object', hget', hinternalized⟩
      cases hget : heap.get address with
      | none => cases (h.added hget' hget hsame).symm.trans hinternalized
      | some object =>
          obtain ⟨object'', hget'', -, heq⟩ := h.kept hget
          cases hget'.symm.trans hget''
          exact ⟨object, hget, (heq hsame).symm.trans hinternalized⟩
    · rintro ⟨object, hget, hinternalized⟩
      obtain ⟨object', hget', -, heq⟩ := h.kept hget
      exact ⟨object', hget', (heq hsame).trans hinternalized⟩

/-- The string is put into a table that has room. -/
theorem Sound.insert (h : Sound heap) (hadds : Adds heap heap' string units)
    (hfresh : heap.IsFresh units) {table : HashTable Nat}
    (hvalid : table.Valid fun address => textHash heap.hashSeed (heap.textOf address))
    (hmore : 1 < Probing.emptyCells table.entries)
    (hperm : (elements table.entries).Perm (elements heap.stringTable.entries)) :
    ∃ entry, table.findInsertionEntry (textHash heap.hashSeed units) = some entry ∧
      Sound { heap' with stringTable := (table.setEntry entry string).elementAdded } := by
  have htext : ∀ address ∈ elements heap.stringTable.entries,
      heap'.textOf address = heap.textOf address := by
    intro address hmem
    obtain ⟨object, hget, -⟩ := (h.interned address).mp hmem
    exact hadds.textOf hget
  have hvalid' : table.Valid fun address => textHash heap'.hashSeed (heap'.textOf address) :=
    hvalid.congr fun address hmem => by rw [hadds.seed, htext address (hperm.mem_iff.mp hmem)]
  obtain ⟨entry, hentry, hadded, hperm'⟩ := hvalid'.insert hmore string
  have hall := hperm'.trans (hperm.cons string)
  rw [hadds.textOf_made, hadds.seed] at hentry
  refine ⟨entry, hentry, hadds.sound, hadded, fun address => ?_, ?_⟩
  · change address ∈ elements (table.setEntry entry string).entries ↔ heap'.IsInternalized address
    rw [hall.mem_iff, List.mem_cons, h.interned, hadds.isInternalized_iff]
  · change ((elements (table.setEntry entry string).entries).map heap'.textOf).Nodup
    rw [(hall.map _).nodup_iff, List.map_cons, List.nodup_cons, hadds.textOf_made,
      List.map_congr_left htext]
    refine ⟨fun hmem => ?_, h.texts⟩
    obtain ⟨address, hmem, hsame⟩ := List.mem_map.mp hmem
    exact hfresh address ((h.interned address).mp hmem) hsame

/-- A string keeps its text, and stays internalized. -/
def Kept (heap heap' : StringHeap) (address : Nat) : Prop :=
  ∀ object, heap.get address = some object → ∃ object', heap'.get address = some object' ∧
    object'.content.units = object.content.units ∧
    (object.internalized = true → object'.internalized = true)

theorem Keeps.keeps (h : Keeps heap heap') (address : Nat) : Kept heap heap' address := by
  intro object hget
  obtain ⟨object', hget', hunits, hsame⟩ := h.kept hget
  exact ⟨object', hget', hunits, fun hinternalized => hsame.trans hinternalized⟩

theorem Adds.keepsAll (h : Adds heap heap' string units) (address : Nat) :
    Kept heap heap' address := by
  intro object hget
  obtain ⟨object', hget', hunits, hsame⟩ := h.kept hget
  refine ⟨object', hget', hunits, fun hinternalized => ?_⟩
  by_cases heq : address = string
  · subst heq
    exact absurd ⟨object, hget, hinternalized⟩ h.fresh
  · exact (hsame heq).trans hinternalized

theorem Kept.textOf (h : Kept heap heap' address) (hinternalized : heap.IsInternalized address) :
    heap'.IsInternalized address ∧ heap'.textOf address = heap.textOf address := by
  obtain ⟨object, hget, hobject⟩ := hinternalized
  obtain ⟨object', hget', hunits, hsame⟩ := h object hget
  exact ⟨⟨object', hget', hsame hobject⟩, by rw [textOf_eq hget, textOf_eq hget', hunits]⟩

/-- The string of a text has been found or added, or there was no memory. -/
structure Interns (heap heap' : StringHeap) (result : MaybeObject Nat) (units : List UInt16) :
    Prop where
  sound : Sound heap'
  seed : heap'.hashSeed = heap.hashSeed
  kept : ∀ address, Kept heap heap' address
  made : ∀ string ∈ result, heap'.IsInternalized string ∧ heap'.textOf string = units
  added : ∀ address, heap'.IsInternalized address →
    heap.IsInternalized address ∨ result = some address
  found : ∀ string, heap.IsInternalized string → heap.textOf string = units → result = some string

/-- What is internalized already is the string. -/
theorem Sound.interns_found (h : Sound heap) (hkeeps : Keeps heap heap')
    (hinternalized : heap.IsInternalized string) (htext : heap.textOf string = units) :
    Interns heap heap' (some string) units where
  sound := hkeeps.of_sound h
  seed := hkeeps.seed
  kept := hkeeps.keeps
  made := by
    rintro _ ⟨⟩
    obtain ⟨hkept, hsame⟩ := (hkeeps.keeps string).textOf hinternalized
    exact ⟨hkept, hsame.trans htext⟩
  added _ hsome := .inl (hkeeps.isInternalized_iff.mp hsome)
  found _ hother hsame :=
    congrArg some (h.eq_of_textOf hinternalized hother (htext.trans hsame.symm))

theorem Sound.interns_failed (h : Sound heap) (hkeeps : Keeps heap heap')
    (hfresh : heap.IsFresh units) : Interns heap heap' none units where
  sound := hkeeps.of_sound h
  seed := hkeeps.seed
  kept := hkeeps.keeps
  made := nofun
  added _ hsome := .inl (hkeeps.isInternalized_iff.mp hsome)
  found string hother hsame := absurd hsame (hfresh string hother)

/-- `LookupKey` -/
theorem Sound.lookupKey_eq (h : Sound heap) (platform : TablePlatform) (allocation : Allocation)
    (hkey : Denotes heap key units) (hadds : AddsString key) :
    ∃ result heap', heap.lookupKey platform allocation key = some (result, heap') ∧
      Interns heap heap' result units := by
  obtain ⟨code, heap₁, hhash, hkeeps, hkey₁, hcode⟩ := h.keyHash_eq hkey
  have h₁ := hkeeps.of_sound h
  rw [← hkeeps.seed, ← hkeeps.table] at hcode
  unfold lookupKey
  rw [hhash, Option.bind_some]
  dsimp only
  rcases h₁.findEntry_eq platform hkey₁ hcode with
    ⟨entry, string, object, hfound, hat, hget, hinternalized, hunits⟩ | ⟨hnone, hfresh⟩
  · rw [hfound, Option.bind_some]
    dsimp only
    rw [hat]
    have hstring : heap₁.IsInternalized string := ⟨object, hget, hinternalized⟩
    obtain ⟨old, hold, hinternalized'⟩ := hkeeps.isInternalized_iff.mp hstring
    refine ⟨some string, heap₁, rfl, h.interns_found hkeeps ⟨old, hold, hinternalized'⟩ ?_⟩
    rw [← hkeeps.textOf hold, textOf_eq hget, hunits]
  · have hfresh₀ : heap.IsFresh units := by
      intro address hold
      obtain ⟨object, hget, -⟩ := id hold
      rw [← hkeeps.textOf hget]
      exact hfresh address (hkeeps.isInternalized_iff.mpr hold)
    have hcodes : ∀ address ∈ elements heap₁.stringTable.entries,
        heap₁.hashForObject address = textHash heap₁.hashSeed (heap₁.textOf address) := by
      intro address hmem
      obtain ⟨object, hget, -⟩ := (h₁.interned address).mp hmem
      exact h₁.hashForObject_eq hget
    rw [hnone, Option.bind_some]
    dsimp only
    rcases (h₁.valid.congr hcodes).ensureCapacity allocation.table with
      hfull | ⟨table, htable, hvalid, hmore, hperm⟩
    · rw [hfull]
      exact ⟨none, heap₁, rfl, h.interns_failed hkeeps hfresh₀⟩
    · have hvalid' : table.Valid fun address =>
          textHash heap₁.hashSeed (heap₁.textOf address) :=
        hvalid.congr fun address hmem => (hcodes address (hperm.mem_iff.mp hmem)).symm
      rw [htable, Option.bind_some]
      dsimp only
      rcases h₁.makes_asObject platform allocation hkey₁ hadds hfresh with
        ⟨heap₂, key₂, hmade, hkeeps₂⟩ | ⟨string, heap₂, key₂, heap₃, hmade, hadded, hhash₂, hkeeps₃⟩
      · rw [hmade]
        exact ⟨none, heap₂, rfl, h.interns_failed (hkeeps.trans hkeeps₂) hfresh₀⟩
      · have hall := hadded.keeps hkeeps₃
        obtain ⟨entry, hentry, hsound⟩ := h₁.insert hall hfresh hvalid' hmore hperm
        rw [hmade, Option.bind_some]
        dsimp only
        rw [hhash₂, Option.bind_some]
        dsimp only
        rw [hentry]
        have htotal := hkeeps.adds hall
        refine ⟨some string, _, rfl, hsound, htotal.seed, htotal.keepsAll, ?_, ?_, ?_⟩
        · rintro _ ⟨⟩
          exact ⟨htotal.isInternalized_iff.mpr (.inl rfl), htotal.textOf_made⟩
        · intro address hsome
          rcases htotal.isInternalized_iff.mp hsome with heq | hold
          · exact .inr (congrArg some heq.symm)
          · exact .inl hold
        · intro other hother htext
          exact absurd htext (hfresh₀ other hother)

/-- `InternalizeString` of a string of the heap. -/
theorem Sound.internalizeString_eq (h : Sound heap) (platform : TablePlatform)
    (allocation : Allocation) (hget : heap.get string = some object) :
    ∃ result heap', heap.internalizeString platform allocation string = some (result, heap') ∧
      Interns heap heap' result object.content.units := by
  unfold internalizeString
  rw [hget, Option.bind_some]
  split_ifs with hinternalized
  · exact ⟨_, heap, rfl, h.interns_found h.objects.keeps_refl ⟨object, hget, hinternalized⟩
      (textOf_eq hget)⟩
  · exact h.lookupKey_eq platform allocation
      ⟨object, hget, Bool.eq_false_of_not_eq_true hinternalized, rfl⟩ trivial

/-- A lookup that adds nothing finds the string of the text, or there is none. -/
theorem Sound.lookupIfExists_eq (h : Sound heap) (platform : TablePlatform)
    (hkey : Denotes heap key units) :
    ∃ result heap', heap.lookupIfExists platform key = some (result, heap') ∧ Keeps heap heap' ∧
      ∀ string, result = some string ↔ heap.IsInternalized string ∧ heap.textOf string = units := by
  obtain ⟨code, heap₁, hhash, hkeeps, hkey₁, hcode⟩ := h.keyHash_eq hkey
  have h₁ := hkeeps.of_sound h
  rw [← hkeeps.seed, ← hkeeps.table] at hcode
  unfold lookupIfExists
  rw [hhash, Option.bind_some]
  dsimp only
  rcases h₁.findEntry_eq platform hkey₁ hcode with
    ⟨entry, string, object, hfound, hat, hget, hinternalized, hunits⟩ | ⟨hnone, hfresh⟩
  · rw [hfound, Option.bind_some]
    dsimp only
    rw [hat]
    have hstring := hkeeps.isInternalized_iff.mp ⟨object, hget, hinternalized⟩
    have htext : heap.textOf string = units := by
      obtain ⟨old, hold, -⟩ := id hstring
      rw [← hkeeps.textOf hold, textOf_eq hget, hunits]
    refine ⟨some string, heap₁, rfl, hkeeps, fun other => ⟨?_, ?_⟩⟩
    · rintro ⟨⟩
      exact ⟨hstring, htext⟩
    · rintro ⟨hother, hsame⟩
      exact congrArg some (h.eq_of_textOf hstring hother (htext.trans hsame.symm))
  · rw [hnone]
    refine ⟨none, heap₁, rfl, hkeeps, fun other => ⟨nofun, ?_⟩⟩
    rintro ⟨hother, hsame⟩
    obtain ⟨old, hold, -⟩ := id hother
    exact absurd ((hkeeps.textOf hold).trans hsame)
      (hfresh other (hkeeps.isInternalized_iff.mpr hother))

theorem Sound.internalizeStringIfExists_eq (h : Sound heap) (platform : TablePlatform)
    (hget : heap.get string = some object) :
    ∃ result heap', heap.internalizeStringIfExists platform string = some (result, heap') ∧
      Keeps heap heap' ∧ ∀ other, result = some other ↔
        heap.IsInternalized other ∧ heap.textOf other = object.content.units := by
  unfold internalizeStringIfExists
  rw [hget, Option.bind_some]
  split_ifs with hinternalized
  · refine ⟨_, heap, rfl, h.objects.keeps_refl, fun other => ⟨?_, ?_⟩⟩
    · rintro ⟨⟩
      exact ⟨⟨object, hget, hinternalized⟩, textOf_eq hget⟩
    · rintro ⟨hother, hsame⟩
      exact congrArg some (h.eq_of_textOf ⟨object, hget, hinternalized⟩ hother
        ((textOf_eq hget).trans hsame.symm))
  · exact h.lookupIfExists_eq platform
      ⟨object, hget, Bool.eq_false_of_not_eq_true hinternalized, rfl⟩

end

end StringHeap

end WeexBridge.V8
