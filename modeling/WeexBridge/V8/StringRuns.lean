/-
# Runs of the string heap

Strings are made, flattened, hashed, internalized, looked up and collected in any order.  None
of it gets stuck, and after all of it there is one internalized string for a text: it is the
same string as long as the collections in between have marked it, and once it is not marked
there is none.

    StringOp    what is done with the heap
    Run         one thing after the other
-/
import WeexBridge.V8.Interning

namespace WeexBridge.V8

open StringHasher
open Probing (Cell elements)

namespace StringHeap

/-! ## Collections -/

section
variable {heap : StringHeap} {marked : Nat → Bool} {address : Nat} {object : StringObject}

theorem get_collect (heap : StringHeap) (marked : Nat → Bool) (address : Nat) :
    (heap.collect marked).get address = if marked address then heap.get address else none := by
  unfold get collect
  dsimp only
  rw [List.getElem?_mapIdx]
  cases heap.strings[address]? with
  | none => split_ifs <;> rfl
  | some object => split_ifs <;> rfl

/-- What is not marked becomes a hole, and is counted. -/
theorem visitPointers_eq (marked : Nat → Bool) (entries : List (Cell Nat)) :
    (visitPointers marked entries).1 = Probing.retain marked entries ∧
      (visitPointers marked entries).2 + ((elements entries).filter marked).length =
        (elements entries).length := by
  induction entries with
  | nil => exact ⟨rfl, rfl⟩
  | cons cell entries ih =>
      obtain ⟨hentries, hremoved⟩ := ih
      cases cell with
      | full o =>
          have helements : elements (.full o :: entries) = o :: elements entries := rfl
          have hretain : Probing.retain marked (.full o :: entries) =
              (if marked o then .full o else .deleted) :: Probing.retain marked entries := rfl
          unfold visitPointers
          rw [helements, hretain, List.filter_cons, List.length_cons]
          split_ifs with hmarked
          · exact ⟨congrArg _ hentries, congrArg (· + 1) hremoved⟩
          · refine ⟨congrArg _ hentries, ?_⟩
            dsimp only
            omega
      | _ => exact ⟨congrArg _ hentries, hremoved⟩

theorem get_of_collect (hget : (heap.collect marked).get address = some object) :
    marked address = true ∧ heap.get address = some object := by
  rw [get_collect] at hget
  split_ifs at hget with hmarked
  exact ⟨hmarked, hget⟩

theorem isInternalized_collect : (heap.collect marked).IsInternalized address ↔
    marked address = true ∧ heap.IsInternalized address := by
  constructor
  · rintro ⟨object, hget, hinternalized⟩
    obtain ⟨hmarked, hget⟩ := get_of_collect hget
    exact ⟨hmarked, object, hget, hinternalized⟩
  · rintro ⟨hmarked, object, hget, hinternalized⟩
    exact ⟨object, by rw [get_collect, if_pos hmarked, hget], hinternalized⟩

theorem textOf_collect (hmarked : marked address = true) :
    (heap.collect marked).textOf address = heap.textOf address := by
  rw [textOf, textOf, get_collect, if_pos hmarked]

theorem kept_collect (heap : StringHeap) (hmarked : marked address = true) :
    Kept heap (heap.collect marked) address := by
  intro object hget
  exact ⟨object, by rw [get_collect, if_pos hmarked, hget], rfl, id⟩

/-- A collection keeps what holds of the heap. -/
theorem Sound.collect (h : Sound heap) (marked : Nat → Bool) : Sound (heap.collect marked) := by
  obtain ⟨hentries, hremoved⟩ := visitPointers_eq marked heap.stringTable.entries
  have htable : (heap.collect marked).stringTable =
      { heap.stringTable with
        entries := Probing.retain marked heap.stringTable.entries }.elementsRemoved
        (visitPointers marked heap.stringTable.entries).2 := by
    rw [← hentries]
    rfl
  have helements : elements (heap.collect marked).stringTable.entries =
      (elements heap.stringTable.entries).filter marked := by
    rw [htable]
    exact Probing.elements_retain marked _
  have hmem : ∀ address ∈ elements (heap.collect marked).stringTable.entries,
      marked address = true := by
    intro address hmem
    rw [helements] at hmem
    exact List.of_mem_filter hmem
  refine ⟨fun address object hget => h.objects _ _ (get_of_collect hget).2, ?_,
    fun address => ?_, ?_⟩
  · have hvalid := h.valid.retain hremoved
    rw [← htable] at hvalid
    exact hvalid.congr fun address hin => by
      rw [textOf_collect (hmem address hin)]
      rfl
  · rw [helements, List.mem_filter, h.interned, isInternalized_collect, and_comm]
  · rw [List.map_congr_left fun address hin => textOf_collect (hmem address hin), helements]
    exact (List.filter_sublist.map _).nodup h.texts

/-- The first heap. -/
theorem sound_initial {seed : UInt32} (h : initial seed = some heap) : Sound heap := by
  obtain ⟨table, htable, rfl⟩ := Option.map_eq_some_iff.mp h
  obtain ⟨hvalid, hnone⟩ :=
    @HashTable.allocate_eq _ (fun address => textHash seed (textOf ⟨seed, [], table⟩ address))
      table kInitialStringTableSize (by decide) true htable
  have hget : ∀ address, get ⟨seed, [], table⟩ address = none := fun _ => rfl
  refine ⟨fun address object hsome => ?_, hvalid, fun address => ?_, ?_⟩
  · cases (hget address).symm.trans hsome
  · change address ∈ elements table.entries ↔ _
    rw [hnone]
    refine iff_of_false List.not_mem_nil ?_
    rintro ⟨object, hsome, -⟩
    cases (hget address).symm.trans hsome
  · change ((elements table.entries).map _).Nodup
    rw [hnone]
    exact List.nodup_nil

end

end StringHeap

/-! ## Steps -/

/-- What is done with the heap. -/
inductive StringOp where
  | newString (content : Str)
  | tryFlatten (allocation : Allocation) (string : Nat)
  | hash (string : Nat)
  | lookupKey (allocation : Allocation) (key : TableKey)
  | internalizeString (allocation : Allocation) (string : Nat)
  | lookupIfExists (key : TableKey)
  | internalizeStringIfExists (string : Nat)
  | collect (marked : Nat → Bool)

namespace StringHeap

/-- What is done, and its string. -/
def step (platform : TablePlatform) (heap : StringHeap) :
    StringOp → Option (MaybeObject Nat × StringHeap)
  | .newString content =>
      let (string, heap) := heap.allocateString ⟨content, false, none⟩
      some (some string, heap)
  | .tryFlatten allocation string =>
      (heap.get string).bind fun object =>
        (object.content.tryFlattenGetString platform.comparison.fill
            (platform.flatMemory object.content)).map fun flat =>
          let (string, heap) := heap.flatString allocation string object flat
          (some string, heap)
  | .hash string => (heap.hash string).map fun (_, heap) => (some string, heap)
  | .lookupKey allocation key => heap.lookupKey platform allocation key
  | .internalizeString allocation string => heap.internalizeString platform allocation string
  | .lookupIfExists key => heap.lookupIfExists platform key
  | .internalizeStringIfExists string => heap.internalizeStringIfExists platform string
  | .collect marked => some (none, heap.collect marked)

/-- What the callers promise. -/
def Fits (heap : StringHeap) : StringOp → Prop
  | .newString content => content.WellFormed
  | .lookupKey _ key => AddsString key ∧ ∃ units, Denotes heap key units
  | .lookupIfExists key => ∃ units, Denotes heap key units
  | .tryFlatten _ string | .hash string | .internalizeString _ string
  | .internalizeStringIfExists string => ∃ object, heap.get string = some object
  | .collect _ => True

end StringHeap

/-- The string is there afterwards. -/
def StringOp.Holds (address : Nat) : StringOp → Prop
  | .collect marked => marked address = true
  | _ => True

namespace StringHeap

section
variable {heap heap' heap'' : StringHeap} {address : Nat} {platform : TablePlatform}
  {op : StringOp} {ops : List StringOp} {seed : UInt32}

theorem Kept.trans (h : Kept heap heap' address) (h' : Kept heap' heap'' address) :
    Kept heap heap'' address := by
  intro object hget
  obtain ⟨object', hget', hunits, hsame⟩ := h object hget
  obtain ⟨object'', hget'', hunits', hsame'⟩ := h' object' hget'
  exact ⟨object'', hget'', hunits'.trans hunits, fun hold => hsame' (hsame hold)⟩

/-- What a step leaves. -/
structure Steps (heap heap' : StringHeap) (op : StringOp) : Prop where
  sound : Sound heap'
  seed : heap'.hashSeed = heap.hashSeed
  kept : ∀ address, op.Holds address → Kept heap heap' address

theorem Keeps.steps (h : Keeps heap heap') (hsound : Sound heap) : Steps heap heap' op :=
  ⟨h.of_sound hsound, h.seed, fun address _ => h.keeps address⟩

theorem Interns.steps {result : MaybeObject Nat} {units : List UInt16}
    (h : Interns heap heap' result units) : Steps heap heap' op :=
  ⟨h.sound, h.seed, fun address _ => h.kept address⟩

/-- No step gets stuck. -/
theorem Sound.step_eq (h : Sound heap) (platform : TablePlatform) (hfits : heap.Fits op) :
    ∃ result heap', heap.step platform op = some (result, heap') ∧ Steps heap heap' op := by
  cases op with
  | newString content =>
      have hkeeps := @ObjectsSound.keeps_allocateString _ h.objects ⟨content, false, none⟩ rfl
        ⟨hfits, nofun⟩
      exact ⟨_, _, rfl, hkeeps.steps h⟩
  | tryFlatten allocation string =>
      obtain ⟨object, hget⟩ := hfits
      obtain ⟨flat, hflat, -, -⟩ := Str.tryFlattenGetString_eq platform.comparison.fill
        (platform.flatMemory object.content) (h.objects _ _ hget).wellFormed
      obtain ⟨other, heap', -, hmade, hkeeps, -, -, -⟩ :=
        flatString_eq h.objects allocation hget hflat
      refine ⟨some other, heap', ?_, hkeeps.steps h⟩
      simp only [step, hget, Option.bind_some, hflat, Option.map_some, hmade]
  | hash string =>
      obtain ⟨object, hget⟩ := hfits
      obtain ⟨heap', hhash, hkeeps⟩ := h.objects.hash_eq hget
      refine ⟨some string, heap', ?_, hkeeps.steps h⟩
      rw [step, hhash]
      rfl
  | lookupKey allocation key =>
      obtain ⟨hadds, units, hkey⟩ := hfits
      obtain ⟨result, heap', hlookup, hinterns⟩ := h.lookupKey_eq platform allocation hkey hadds
      exact ⟨result, heap', hlookup, hinterns.steps⟩
  | internalizeString allocation string =>
      obtain ⟨object, hget⟩ := hfits
      obtain ⟨result, heap', hlookup, hinterns⟩ := h.internalizeString_eq platform allocation hget
      exact ⟨result, heap', hlookup, hinterns.steps⟩
  | lookupIfExists key =>
      obtain ⟨units, hkey⟩ := hfits
      obtain ⟨result, heap', hlookup, hkeeps, -⟩ := h.lookupIfExists_eq platform hkey
      exact ⟨result, heap', hlookup, hkeeps.steps h⟩
  | internalizeStringIfExists string =>
      obtain ⟨object, hget⟩ := hfits
      obtain ⟨result, heap', hlookup, hkeeps, -⟩ := h.internalizeStringIfExists_eq platform hget
      exact ⟨result, heap', hlookup, hkeeps.steps h⟩
  | collect marked => exact ⟨none, _, rfl, h.collect marked, rfl, fun _ => kept_collect heap⟩

/-! ## Runs -/

/-- One step after the other, each as its caller promises.  Memory may be there for one step
and not for the next. -/
inductive Run : StringHeap → List StringOp → StringHeap → Prop where
  | nil {heap : StringHeap} : Run heap [] heap
  | cons {heap heap' heap'' : StringHeap} {op : StringOp} {ops : List StringOp}
      {result : MaybeObject Nat} (platform : TablePlatform) : heap.Fits op →
      heap.step platform op = some (result, heap') → Run heap' ops heap'' →
      Run heap (op :: ops) heap''

theorem Run.sound (h : Run heap ops heap') (hsound : Sound heap) :
    Sound heap' ∧ ∀ address, (∀ op ∈ ops, op.Holds address) → Kept heap heap' address := by
  induction h with
  | nil => exact ⟨hsound, fun _ _ object hget => ⟨object, hget, rfl, id⟩⟩
  | @cons heap heap' heap'' op ops result platform hfits hstep _ ih =>
      obtain ⟨result', heap₁, hstep', hsteps⟩ := hsound.step_eq platform hfits
      cases hstep.symm.trans hstep'
      obtain ⟨hsound'', hkept⟩ := ih hsteps.sound
      refine ⟨hsound'', fun address hholds => ?_⟩
      have hfirst := hsteps.kept address (hholds op List.mem_cons_self)
      exact hfirst.trans (hkept address fun op hmem => hholds op (List.mem_cons_of_mem _ hmem))

/-- A first heap, and a platform with memory. -/
def first : StringHeap := ⟨7, [], ⟨List.replicate 4096 .empty, 0, 0⟩⟩

def plainPlatform : TablePlatform :=
  ⟨⟨true, true⟩, ⟨fun _ => 0, fun _ _ => true, .new, .new⟩, fun _ => true, 0⟩

def withMemory : Allocation := ⟨true, true, false, none⟩

/-- A key gets its string. -/
theorem first_lookupKey :
    ∃ heap, first.lookupKey plainPlatform withMemory (.oneByte [0x61]) = some (some 0, heap) := by
  have hresult : (first.lookupKey plainPlatform withMemory (.oneByte [0x61])).map Prod.fst =
      some (some 0) := by decide +kernel
  obtain ⟨⟨result, heap⟩, hlookup, rfl⟩ := Option.map_eq_some_iff.mp hresult
  exact ⟨heap, hlookup⟩

theorem run_first : ∃ heap, Run first [.lookupKey withMemory (.oneByte [0x61])] heap := by
  obtain ⟨heap, hlookup⟩ := first_lookupKey
  exact ⟨heap, .cons plainPlatform ⟨trivial, _, rfl⟩ hlookup .nil⟩

/-- From the first heap on no step gets stuck, and the strings of the table are the internalized
ones, one for a text. -/
theorem step_of_run (hinitial : initial seed = some heap) (hrun : Run heap ops heap')
    (hfits : heap'.Fits op) :
    ∃ result heap'', heap'.step platform op = some (result, heap'') ∧
      (∀ string, string ∈ elements heap''.stringTable.entries ↔ heap''.IsInternalized string) ∧
      ∀ string other, heap''.IsInternalized string → heap''.IsInternalized other →
        heap''.textOf string = heap''.textOf other → string = other := by
  obtain ⟨hsound, -⟩ := hrun.sound (sound_initial hinitial)
  obtain ⟨result, heap'', hstep, hsteps⟩ := hsound.step_eq platform hfits
  exact ⟨result, heap'', hstep, hsteps.sound.interned, fun string other hstring hother =>
    hsteps.sound.eq_of_textOf hstring hother⟩

theorem step_of_run_collect :
    ∃ heap, Run first [.lookupKey withMemory (.oneByte [0x61])] heap ∧
      ∃ result heap', heap.step plainPlatform (.collect fun _ => false) = some (result, heap') ∧
        (∀ string, string ∈ elements heap'.stringTable.entries ↔ heap'.IsInternalized string) ∧
        ∀ string other, heap'.IsInternalized string → heap'.IsInternalized other →
          heap'.textOf string = heap'.textOf other → string = other := by
  obtain ⟨heap, hrun⟩ := run_first
  have hinitial : initial 7 = some first := rfl
  exact ⟨heap, hrun, step_of_run hinitial hrun trivial⟩

/-- After any run `Equals` compares the texts. -/
theorem equals_of_run (hinitial : initial seed = some heap) (hrun : Run heap ops heap')
    {string other : Nat} (hstring : ∃ object, heap'.get string = some object)
    (hother : ∃ object, heap'.get other = some object) :
    heap'.equals platform string other =
      some (decide (heap'.textOf string = heap'.textOf other)) := by
  obtain ⟨hsound, -⟩ := hrun.sound (sound_initial hinitial)
  obtain ⟨lhs, hlhs⟩ := hstring
  obtain ⟨rhs, hrhs⟩ := hother
  rw [hsound.equals_eq platform hlhs hrhs, textOf_eq hlhs, textOf_eq hrhs]

/-- Two internalized strings are told apart by their addresses, as their texts differ. -/
theorem equals_of_run_internalized :
    ∃ heap, Run first
        [.lookupKey withMemory (.oneByte [0x61]), .lookupKey withMemory (.twoByte [0x3B1])] heap ∧
      heap.IsInternalized 0 ∧ heap.IsInternalized 1 ∧
      heap.equals plainPlatform 0 1 = some (decide (heap.textOf 0 = heap.textOf 1)) ∧
      heap.textOf 0 ≠ heap.textOf 1 := by
  have hresult : ((first.lookupKey plainPlatform withMemory (.oneByte [0x61])).bind
      fun made => (made.2.lookupKey plainPlatform withMemory (.twoByte [0x3B1])).map
        fun made' => (made.1, made'.1)) = some (some 0, some 1) := by decide +kernel
  obtain ⟨⟨result, heap₁⟩, hlookup, hresult⟩ := Option.bind_eq_some_iff.mp hresult
  obtain ⟨⟨result', heap₂⟩, hlookup', hresults⟩ := Option.map_eq_some_iff.mp hresult
  obtain ⟨rfl, rfl⟩ := Prod.mk.inj hresults
  have hinitial : initial 7 = some first := rfl
  have hrun : Run first [.lookupKey withMemory (.oneByte [0x61])] heap₁ :=
    .cons plainPlatform ⟨trivial, _, rfl⟩ hlookup .nil
  have hrun₂ : Run first
      [.lookupKey withMemory (.oneByte [0x61]), .lookupKey withMemory (.twoByte [0x3B1])] heap₂ :=
    .cons plainPlatform ⟨trivial, _, rfl⟩ hlookup
      (.cons plainPlatform ⟨trivial, _, rfl⟩ hlookup' .nil)
  have hkey₁ : Denotes first (.oneByte [0x61]) [0x61] := rfl
  have hkey₂ : Denotes heap₁ (.twoByte [0x3B1]) [0x3B1] := rfl
  obtain ⟨_, _, hlookup₁, hinterns₁⟩ :=
    (sound_initial hinitial).lookupKey_eq plainPlatform withMemory hkey₁ trivial
  cases hlookup.symm.trans hlookup₁
  obtain ⟨_, _, hlookup₂, hinterns₂⟩ :=
    hinterns₁.sound.lookupKey_eq plainPlatform withMemory hkey₂ trivial
  cases hlookup'.symm.trans hlookup₂
  obtain ⟨hinternalized, htext⟩ := hinterns₁.made 0 rfl
  obtain ⟨hinternalized₀, htext₀⟩ := (hinterns₂.kept 0).textOf hinternalized
  obtain ⟨hinternalized₁, htext₁⟩ := hinterns₂.made 1 rfl
  obtain ⟨object₀, hget₀, -⟩ := id hinternalized₀
  obtain ⟨object₁, hget₁, -⟩ := id hinternalized₁
  refine ⟨heap₂, hrun₂, hinternalized₀, hinternalized₁,
    equals_of_run hinitial hrun₂ ⟨object₀, hget₀⟩ ⟨object₁, hget₁⟩, ?_⟩
  rw [htext₀, htext, htext₁]
  decide

/-- The string of a text is the same one whenever and however it is asked for, as long as it is
marked; then it is there even without memory. -/
theorem lookupKey_of_run (hinitial : initial seed = some heap)
    {heap₁ heap₂ heap₃ : StringHeap} {ops' : List StringOp} {key key' : TableKey}
    {units : List UInt16} {string : Nat} {allocation : Allocation}
    (hrun : Run heap ops heap₁) (hkey : Denotes heap₁ key units) (hadds : AddsString key)
    (hmade : heap₁.lookupKey platform allocation key = some (some string, heap₂))
    (hrun' : Run heap₂ ops' heap₃) (hholds : ∀ op ∈ ops', op.Holds string)
    (hkey' : Denotes heap₃ key' units) (hadds' : AddsString key') (platform' : TablePlatform)
    (allocation' : Allocation) :
    ∃ heap₄, heap₃.lookupKey platform' allocation' key' = some (some string, heap₄) ∧
      heap₄.textOf string = units := by
  obtain ⟨hsound₁, -⟩ := hrun.sound (sound_initial hinitial)
  obtain ⟨result, heap', hlookup, hinterns⟩ := hsound₁.lookupKey_eq platform allocation hkey hadds
  cases hmade.symm.trans hlookup
  obtain ⟨hinternalized, htext⟩ := hinterns.made string rfl
  obtain ⟨hsound₃, hkept⟩ := hrun'.sound hinterns.sound
  obtain ⟨hinternalized', htext'⟩ := (hkept string hholds).textOf hinternalized
  obtain ⟨result', heap₄, hlookup', hinterns'⟩ :=
    hsound₃.lookupKey_eq platform' allocation' hkey' hadds'
  obtain rfl := hinterns'.found string hinternalized' (htext'.trans htext)
  exact ⟨heap₄, hlookup', (hinterns'.made string rfl).2⟩

theorem lookupKey_of_run_marked :
    ∃ heap₂ heap₃ heap₄,
      first.lookupKey plainPlatform withMemory (.oneByte [0x61]) = some (some 0, heap₂) ∧
        Run heap₂ [.collect fun string => string = 0] heap₃ ∧
        heap₃.lookupKey plainPlatform ⟨false, false, false, none⟩ (.twoByte [0x61]) =
          some (some 0, heap₄) := by
  obtain ⟨heap₂, hmade⟩ := first_lookupKey
  have hcollect : Run heap₂ [.collect fun string => string = 0] _ :=
    .cons plainPlatform trivial rfl .nil
  have hholds : ∀ op ∈ [StringOp.collect fun string => string = 0], op.Holds 0 := by
    simp [StringOp.Holds]
  have hinitial : initial 7 = some first := rfl
  have hkey : Denotes first (.oneByte [0x61]) [0x61] := rfl
  have hkey' : Denotes (heap₂.collect fun string => string = 0) (.twoByte [0x61]) [0x61] := rfl
  obtain ⟨heap₄, hlookup, -⟩ := lookupKey_of_run hinitial .nil hkey trivial hmade hcollect hholds
    hkey' trivial plainPlatform ⟨false, false, false, none⟩
  exact ⟨heap₂, _, heap₄, hmade, hcollect, hlookup⟩

theorem Sound.lookupIfExists_collect (hsound : Sound heap) (marked : Nat → Bool) {key : TableKey}
    {units : List UInt16} (hkey : Denotes (heap.collect marked) key units) :
    ∃ result heap', (heap.collect marked).lookupIfExists platform key = some (result, heap') ∧
      ∀ string, result = some string ↔
        marked string = true ∧ heap.IsInternalized string ∧ heap.textOf string = units := by
  obtain ⟨result, heap', hlookup, -, hfound⟩ :=
    (hsound.collect marked).lookupIfExists_eq platform hkey
  refine ⟨result, heap', hlookup, fun string => ?_⟩
  rw [hfound, isInternalized_collect, and_assoc]
  exact and_congr_right fun hmarked => by rw [textOf_collect hmarked]

/-- After a collection the strings that are found are those that were marked. -/
theorem lookupIfExists_of_collect (hinitial : initial seed = some heap)
    (hrun : Run heap ops heap') (marked : Nat → Bool) {key : TableKey}
    {units : List UInt16} (hkey : Denotes (heap'.collect marked) key units) :
    ∃ result heap'', (heap'.collect marked).lookupIfExists platform key = some (result, heap'') ∧
      ∀ string, result = some string ↔
        marked string = true ∧ heap'.IsInternalized string ∧ heap'.textOf string = units :=
  (hrun.sound (sound_initial hinitial)).1.lookupIfExists_collect marked hkey

theorem lookupIfExists_of_collect_none :
    ∃ heap, Run first [.lookupKey withMemory (.oneByte [0x61])] heap ∧
      ∃ result heap', (heap.collect fun _ => false).lookupIfExists plainPlatform (.oneByte [0x61]) =
          some (result, heap') ∧
        ∀ string, result = some string ↔
          false = true ∧ heap.IsInternalized string ∧ heap.textOf string = [0x61] := by
  obtain ⟨heap, hrun⟩ := run_first
  exact ⟨heap, hrun, lookupIfExists_of_collect rfl hrun (fun _ => false) rfl⟩

/-- Two characters that are not both digits are found as any other key. -/
theorem Run.lookupTwoCharsStringIfExists_eq (hrun : Run heap ops heap')
    (hinitial : initial seed = some heap) (marked : Nat → Bool) {c₁ c₂ : UInt16}
    (hdigits : ¬ (Decimal.isDigit c₁ ∧ Decimal.isDigit c₂)) :
    ∃ result heap'', (heap'.collect marked).lookupTwoCharsStringIfExists platform c₁ c₂ =
        some (result, heap'') ∧
      ∀ string, result = some string ↔
        marked string = true ∧ heap'.IsInternalized string ∧ heap'.textOf string = [c₁, c₂] :=
  (hrun.sound (sound_initial hinitial)).1.lookupIfExists_collect marked ⟨rfl, hdigits⟩

end

end StringHeap

end WeexBridge.V8
