/-
# The text under construction

`BasicJsonStringifier` writes into `current_part_`, a string of `part_length_`
characters, one byte each until the first string of two-byte characters comes.  A
full part is attached to the accumulator and a new one allocated.  Strings that
are short enough for the rest of the part are written without checks; no write is
out of bounds.

The accumulator is a cons string.  One that would be longer than
`String::kMaxLength` is refused, and its empty handle dereferenced; so is the start
of a string that cannot be flattened.  Both are `none` here.
-/
import WeexBridge.V8.JsonQuote

namespace WeexBridge.V8

open CodeUnits Memory

def kInitialPartLength : Nat := 32

def kMaxPartLength : Nat := 16 * 1024

def kPartLengthGrowthFactor : Nat := 2

/-- The fields of `BasicJsonStringifier` that hold the text. -/
structure JsonWriter where
  accumulator : List UInt16
  currentPart : Block UInt16
  currentIndex : Nat
  partLength : Nat
  isAscii : Bool

namespace JsonWriter

/-- What has been written. -/
def text (w : JsonWriter) : List UInt16 := w.accumulator ++ w.currentPart.take w.currentIndex

/-- There is room for one character at least. -/
structure Ok (w : JsonWriter) : Prop where
  length : w.currentPart.length = w.partLength
  room : w.currentIndex < w.partLength

section
variable (fill : Nat → UInt16)

/-- The constructor. -/
def start : JsonWriter where
  accumulator := []
  currentPart := allocate fill kInitialPartLength
  currentIndex := 0
  partLength := kInitialPartLength
  isAscii := true

/-- `*factory_->NewConsString(accumulator(), string)` -/
def attach (w : JsonWriter) (string : List UInt16) : Option (List UInt16) :=
  if w.accumulator.length = 0 then some string
  else if string.length = 0 then some w.accumulator
  else if w.accumulator.length + string.length > Str.kMaxLength then none
  else some (w.accumulator ++ string)

/-- `Extend` -/
def extend (w : JsonWriter) : Option JsonWriter :=
  (w.attach w.currentPart).map fun accumulator =>
    let partLength :=
      if w.partLength ≤ kMaxPartLength / kPartLengthGrowthFactor then
        w.partLength * kPartLengthGrowthFactor
      else w.partLength
    { w with
      accumulator := accumulator
      currentPart := allocate fill partLength
      currentIndex := 0
      partLength := partLength }

/-- `ShrinkCurrentPart` -/
def shrunkPart (w : JsonWriter) : List UInt16 := w.currentPart.take w.currentIndex

/-- `ChangeEncoding` -/
def changeEncoding (w : JsonWriter) : Option JsonWriter :=
  (w.attach w.shrunkPart).map fun accumulator =>
    { w with
      accumulator := accumulator
      currentPart := allocate fill w.partLength
      currentIndex := 0
      isAscii := false }

/-- What `Stringify` gives in the end. -/
def result (w : JsonWriter) : Option (List UInt16) := w.attach w.shrunkPart

/-- A character as the part stores it. -/
def narrow (w : JsonWriter) (c : UInt16) : UInt16 := if w.isAscii then c.toUInt8.toUInt16 else c

/-- `Append_` of a character. -/
def append (c : UInt16) (w : JsonWriter) : Option JsonWriter :=
  (store w.currentPart w.currentIndex [w.narrow c]).bind fun part =>
    let w := { w with currentPart := part, currentIndex := w.currentIndex + 1 }
    if w.currentIndex = w.partLength then w.extend fill else some w

/-- `Append_` of one character after the other. -/
def appendChars : List UInt16 → JsonWriter → Option JsonWriter
  | [], w => some w
  | c :: chars, w => (w.append fill c).bind (appendChars chars)

/-- `AppendAscii` of what lies at `chars`. -/
def appendAscii (chars : List UInt8) (w : JsonWriter) : Option JsonWriter :=
  w.appendChars fill ((cString chars).map UInt8.toUInt16)

/-- `SerializeStringUnchecked_` -/
def serializeStringUnchecked (chars : FlatChars) (w : JsonWriter) : Option JsonWriter :=
  let dest := (escaped chars).map w.narrow
  (store w.currentPart w.currentIndex dest).map fun part =>
    { w with currentPart := part, currentIndex := w.currentIndex + dest.length }

/-- `SerializeString_` -/
def serializeChars (chars : FlatChars) (w : JsonWriter) : Option JsonWriter :=
  (w.append fill 0x22).bind fun w =>
    (if chars.length < (w.partLength - w.currentIndex) >>> 3 then w.serializeStringUnchecked chars
    else w.appendChars fill (escaped chars)).bind fun w => w.append fill 0x22

/-- `SerializeString` -/
def serializeString (s : Str) (w : JsonWriter) : Option JsonWriter :=
  (s.flatContent fill).bind fun chars =>
    match w.isAscii, chars with
    | true, .twoByte _ => (w.changeEncoding fill).bind fun w => w.serializeChars fill chars
    | _, _ => w.serializeChars fill chars

end

/-! ## What is written -/

/-- `p` gives a writer that has `chars` more; if it gives none, no string is that long. -/
structure Adds (w : JsonWriter) (p : Option JsonWriter) (chars : List UInt16) : Prop where
  ok : ∀ w' ∈ p, w'.Ok
  text : ∀ w' ∈ p, w'.text = w.text ++ chars
  refused : p = none → Str.kMaxLength < w.text.length + chars.length

/-- The same, with as many bytes for each character. -/
structure Writes (w : JsonWriter) (p : Option JsonWriter) (chars : List UInt16) : Prop
    extends w.Adds p chars where
  isAscii : ∀ w' ∈ p, w'.isAscii = w.isAscii

/-- The part can hold the characters. -/
def Holds (w : JsonWriter) (chars : List UInt16) : Prop :=
  w.isAscii = true → ∀ c ∈ chars, c.toNat < 256

section
variable {fill : Nat → UInt16} {w : JsonWriter}

theorem ok_start : (start fill).Ok where
  length := length_allocate _ _
  room := by
    show 0 < kInitialPartLength
    decide

theorem attach_eq {string : List UInt16}
    (h : w.accumulator.length + string.length ≤ Str.kMaxLength) :
    w.attach string = some (w.accumulator ++ string) := by
  unfold attach
  split_ifs with hfirst hsecond hlong
  · rw [List.eq_nil_of_length_eq_zero hfirst, List.nil_append]
  · rw [List.eq_nil_of_length_eq_zero hsecond, List.append_nil]
  · exact absurd h (Nat.not_le.mpr hlong)
  · rfl

theorem attach_some {string accumulator : List UInt16} (h : w.attach string = some accumulator) :
    accumulator = w.accumulator ++ string := by
  unfold attach at h
  split_ifs at h with hfirst hsecond
  · cases h
    rw [List.eq_nil_of_length_eq_zero hfirst, List.nil_append]
  · cases h
    rw [List.eq_nil_of_length_eq_zero hsecond, List.append_nil]
  · exact (Option.some.inj h).symm

theorem attach_none {string : List UInt16} (h : w.attach string = none) :
    Str.kMaxLength < w.accumulator.length + string.length := by
  by_contra hle
  rw [attach_eq (Nat.le_of_not_lt hle)] at h
  cases h

theorem length_text : w.text.length = w.accumulator.length + w.shrunkPart.length :=
  List.length_append

theorem result_eq (hlength : w.text.length ≤ Str.kMaxLength) : w.result = some w.text :=
  attach_eq (length_text ▸ hlength)

theorem result_some {text : List UInt16} (h : w.result = some text) : text = w.text :=
  attach_some h

/-- A new part is empty. -/
theorem text_new {accumulator : List UInt16} {part : Block UInt16} {length : Nat} {ascii : Bool} :
    (⟨accumulator, part, 0, length, ascii⟩ : JsonWriter).text = accumulator :=
  (congrArg (accumulator ++ ·) (List.take_zero)).trans (List.append_nil _)

theorem writes_extend (h : 0 < w.partLength) {full : JsonWriter} {chars : List UInt16}
    (htext : w.accumulator ++ w.currentPart = full.text ++ chars)
    (hascii : w.isAscii = full.isAscii) : full.Writes (w.extend fill) chars where
  ok w' hw' := by
    obtain ⟨accumulator, -, rfl⟩ := Option.map_eq_some_iff.mp hw'
    refine ⟨length_allocate _ _, ?_⟩
    dsimp only
    split_ifs
    · exact Nat.mul_pos h (by decide)
    · exact h
  text w' hw' := by
    obtain ⟨accumulator, hattach, rfl⟩ := Option.map_eq_some_iff.mp hw'
    exact text_new.trans ((attach_some hattach).trans htext)
  refused hnone := by
    have hlength := attach_none (Option.map_eq_none_iff.mp hnone)
    rwa [← List.length_append, htext, List.length_append] at hlength
  isAscii w' hw' := by
    obtain ⟨accumulator, -, rfl⟩ := Option.map_eq_some_iff.mp hw'
    exact hascii

/-- What has been written stays, in characters of two bytes from now on. -/
theorem adds_changeEncoding (h : w.Ok) : w.Adds (w.changeEncoding fill) [] where
  ok w' hw' := by
    obtain ⟨accumulator, -, rfl⟩ := Option.map_eq_some_iff.mp hw'
    exact ⟨length_allocate _ _, Nat.lt_of_le_of_lt (Nat.zero_le _) h.room⟩
  text w' hw' := by
    obtain ⟨accumulator, hattach, rfl⟩ := Option.map_eq_some_iff.mp hw'
    exact text_new.trans ((attach_some hattach).trans (List.append_nil _).symm)
  refused hnone := length_text ▸ attach_none (Option.map_eq_none_iff.mp hnone)

theorem isAscii_changeEncoding {w' : JsonWriter} (h : w.changeEncoding fill = some w') :
    w'.isAscii = false := by
  obtain ⟨accumulator, -, rfl⟩ := Option.map_eq_some_iff.mp h
  rfl

theorem narrow_eq {c : UInt16} (h : w.isAscii = true → c.toNat < 256) : w.narrow c = c := by
  unfold narrow
  split_ifs with hascii
  · refine UInt16.toNat_inj.mp ?_
    have := h hascii
    rw [UInt8.toNat_toUInt16, UInt16.toNat_toUInt8]
    omega
  · rfl

theorem map_narrow {chars : List UInt16} (h : w.Holds chars) : chars.map w.narrow = chars :=
  (List.map_congr_left fun c hc => narrow_eq fun hascii => h hascii c hc).trans (List.map_id chars)

/-- What is written within the length of a string is written. -/
theorem Adds.exists_some {p : Option JsonWriter} {chars : List UInt16} (h : w.Adds p chars)
    (hlength : w.text.length + chars.length ≤ Str.kMaxLength) :
    ∃ w', p = some w' ∧ w'.Ok ∧ w'.text = w.text ++ chars := by
  cases p with
  | none => exact absurd (h.refused rfl) (Nat.not_lt.mpr hlength)
  | some w' => exact ⟨w', rfl, h.ok w' rfl, h.text w' rfl⟩

theorem Adds.bind_of_mem {p : Option JsonWriter} {f : JsonWriter → Option JsonWriter}
    {chars chars' : List UInt16} (hp : w.Adds p chars)
    (hf : ∀ w' ∈ p, w'.Ok → w'.Adds (f w') chars') : w.Adds (p.bind f) (chars ++ chars') where
  ok w'' hw'' := by
    obtain ⟨w', hw', hfw⟩ := Option.bind_eq_some_iff.mp hw''
    exact (hf w' hw' (hp.ok w' hw')).ok w'' hfw
  text w'' hw'' := by
    obtain ⟨w', hw', hfw⟩ := Option.bind_eq_some_iff.mp hw''
    rw [(hf w' hw' (hp.ok w' hw')).text w'' hfw, hp.text w' hw', List.append_assoc]
  refused hnone := by
    rw [List.length_append]
    cases p with
    | none =>
        have := hp.refused rfl
        omega
    | some w' =>
        have hlength := (hf w' rfl (hp.ok w' rfl)).refused hnone
        rw [hp.text w' rfl, List.length_append] at hlength
        omega

theorem Adds.bind {p : Option JsonWriter} {f : JsonWriter → Option JsonWriter}
    {chars chars' : List UInt16} (hp : w.Adds p chars)
    (hf : ∀ w' : JsonWriter, w'.Ok → w'.Adds (f w') chars') :
    w.Adds (p.bind f) (chars ++ chars') :=
  hp.bind_of_mem fun w' _ => hf w'

theorem Writes.bind {p : Option JsonWriter} {f : JsonWriter → Option JsonWriter}
    {chars chars' : List UInt16} (hp : w.Writes p chars)
    (hf : ∀ w' : JsonWriter, w'.Ok → w'.isAscii = w.isAscii → w'.Writes (f w') chars') :
    w.Writes (p.bind f) (chars ++ chars') where
  toAdds := hp.toAdds.bind_of_mem fun w' hw' hok => (hf w' hok (hp.isAscii w' hw')).toAdds
  isAscii w'' hw'' := by
    obtain ⟨w', hw', hfw⟩ := Option.bind_eq_some_iff.mp hw''
    have hsame := hp.isAscii w' hw'
    exact ((hf w' (hp.ok w' hw') hsame).isAscii w'' hfw).trans hsame

/-- A writer that is there. -/
theorem writes_some {w' : JsonWriter} {chars : List UInt16} (hok : w'.Ok)
    (htext : w'.text = w.text ++ chars) (hascii : w'.isAscii = w.isAscii) :
    w.Writes (some w') chars where
  ok _ hw := Option.some.inj hw ▸ hok
  text _ hw := Option.some.inj hw ▸ htext
  refused := nofun
  isAscii _ hw := Option.some.inj hw ▸ hascii

theorem adds_nil (h : w.Ok) : w.Adds (some w) [] :=
  (writes_some h (List.append_nil _).symm rfl).toAdds

theorem writes_append (h : w.Ok) {c : UInt16} (hc : w.Holds [c]) :
    w.Writes (w.append fill c) [c] := by
  have hfit : w.currentIndex + [c].length ≤ w.currentPart.length := h.length ▸ h.room
  have htake : (splice w.currentPart w.currentIndex [c]).take (w.currentIndex + [c].length) =
      w.currentPart.take w.currentIndex ++ [c] := take_splice (Nat.le_of_lt hfit)
  have hlen := length_splice hfit
  rw [append, narrow_eq fun hascii => hc hascii c List.mem_cons_self,
    store_eq_some hfit, Option.bind_some]
  dsimp only
  split_ifs with hfull
  · -- the part is full
    have hfull' : w.currentIndex + 1 = w.currentPart.length := hfull.trans h.length.symm
    refine writes_extend ?_ ?_ rfl
    · exact Nat.lt_of_le_of_lt (Nat.zero_le _) h.room
    · show w.accumulator ++ splice w.currentPart w.currentIndex [c] = w.text ++ [c]
      rw [text, List.append_assoc, ← htake, List.take_of_length_le]
      rw [hlen, ← hfull']
      exact Nat.le_refl _
  · refine writes_some ⟨hlen.trans h.length, Nat.lt_of_le_of_ne h.room hfull⟩ ?_ rfl
    show w.accumulator ++ (splice w.currentPart w.currentIndex [c]).take _ = w.text ++ [c]
    rw [text, List.append_assoc]
    exact congrArg (w.accumulator ++ ·) htake

theorem writes_appendChars : ∀ {chars : List UInt16} {w : JsonWriter}, w.Ok → w.Holds chars →
    w.Writes (w.appendChars fill chars) chars
  | [], _, h, _ => writes_some h (List.append_nil _).symm rfl
  | c :: chars, w, h, hholds => by
      refine Writes.bind (writes_append h fun hascii d hd => ?_) fun w' hok hsame =>
        writes_appendChars hok fun hascii d hd => ?_
      · rw [List.mem_singleton.mp hd]
        exact hholds hascii c List.mem_cons_self
      · exact hholds (hsame ▸ hascii) d (List.mem_cons_of_mem c hd)

theorem adds_append (h : w.Ok) {c : UInt16} (hc : c.toNat < 256) :
    w.Adds (w.append fill c) [c] :=
  (writes_append h fun _ _ hd => List.mem_singleton.mp hd ▸ hc).toAdds

theorem adds_appendAscii (h : w.Ok) (chars : List UInt8) :
    w.Adds (w.appendAscii fill chars) ((cString chars).map UInt8.toUInt16) := by
  refine (writes_appendChars h fun _ c hc => ?_).toAdds
  obtain ⟨b, -, rfl⟩ := List.mem_map.mp hc
  rw [UInt8.toNat_toUInt16]
  exact b.toNat_lt

/-! ### Strings -/

theorem length_escaped_le (chars : FlatChars) : (escaped chars).length ≤ 6 * chars.length := by
  rw [escaped_eq, ← chars.length_units]
  exact length_flatMap_quotedUnit_le chars.units

/-- The part can hold what is written for its kind of characters. -/
theorem holds_escaped {chars : FlatChars}
    (h : w.isAscii = true → ∃ bytes, chars = .oneByte bytes) : w.Holds (escaped chars) := by
  intro hascii c hc
  obtain ⟨bytes, rfl⟩ := h hascii
  obtain ⟨b, -, hb⟩ := List.mem_flatMap.mp hc
  unfold escapedByte at hb
  split_ifs at hb
  · rw [List.mem_singleton.mp hb, UInt8.toNat_toUInt16]
    exact b.toNat_lt
  · obtain ⟨e, -, rfl⟩ := List.mem_map.mp hb
    rw [UInt8.toNat_toUInt16]
    exact e.toNat_lt

/-- A string that is short enough is written without checks, and fits. -/
theorem writes_serializeStringUnchecked (h : w.Ok) {chars : FlatChars}
    (hholds : w.Holds (escaped chars))
    (hshort : chars.length < (w.partLength - w.currentIndex) >>> 3) :
    w.Writes (w.serializeStringUnchecked chars) (escaped chars) := by
  have hlen := length_escaped_le chars
  rw [Nat.shiftRight_eq_div_pow] at hshort
  have hroom : w.currentIndex + (escaped chars).length < w.partLength := by
    have := h.room
    omega
  have hfit : w.currentIndex + (escaped chars).length ≤ w.currentPart.length :=
    h.length ▸ Nat.le_of_lt hroom
  rw [serializeStringUnchecked, map_narrow hholds, store_eq_some hfit, Option.map_some]
  refine writes_some ⟨(length_splice hfit).trans h.length, hroom⟩ ?_ rfl
  show w.accumulator ++ (splice w.currentPart w.currentIndex (escaped chars)).take _ = _
  rw [text, List.append_assoc]
  exact congrArg (w.accumulator ++ ·) (take_splice (h.length ▸ Nat.le_of_lt h.room))

theorem writes_serializeChars (h : w.Ok) {chars : FlatChars}
    (hone : w.isAscii = true → ∃ bytes, chars = .oneByte bytes) :
    w.Writes (w.serializeChars fill chars) (quoteJsonString chars) := by
  have hquote : ∀ w' : JsonWriter, w'.Holds [0x22] := by
    intro w' _ c hc
    rw [List.mem_singleton.mp hc]
    decide
  rw [quoteJsonString, ← escaped_eq, List.append_assoc]
  refine (writes_append h (hquote w)).bind fun w₁ hok₁ hascii₁ => ?_
  have hholds : w₁.Holds (escaped chars) := holds_escaped fun hascii => hone (hascii₁ ▸ hascii)
  have hbody : w₁.Writes (if chars.length < (w₁.partLength - w₁.currentIndex) >>> 3 then
      w₁.serializeStringUnchecked chars else w₁.appendChars fill (escaped chars))
        (escaped chars) := by
    split_ifs with hshort
    · exact writes_serializeStringUnchecked hok₁ hholds hshort
    · exact writes_appendChars hok₁ hholds
  exact hbody.bind fun w₂ hok₂ _ => writes_append hok₂ (hquote w₂)

/-- A string is written quoted, whatever its representation and that of the part. -/
theorem adds_quoteJsonString (h : w.Ok) {s : Str} {chars : FlatChars}
    (hs : s.flatContent fill = some chars) :
    w.Adds (w.serializeString fill s) (quoteJsonString chars) := by
  have hsame : (w.isAscii = true → ∃ bytes, chars = .oneByte bytes) →
      w.Adds (w.serializeChars fill chars) (quoteJsonString chars) :=
    fun hone => (writes_serializeChars h hone).toAdds
  rw [serializeString, hs, Option.bind_some]
  cases hascii : w.isAscii with
  | false => exact hsame fun htrue => nomatch hascii.symm.trans htrue
  | true =>
      cases chars with
      | oneByte bytes => exact hsame fun _ => ⟨bytes, rfl⟩
      | twoByte units =>
          refine (adds_changeEncoding h).bind_of_mem fun w' hw' hok => ?_
          have hascii' := isAscii_changeEncoding hw'
          exact (writes_serializeChars hok fun htrue => nomatch hascii'.symm.trans htrue).toAdds

end

end JsonWriter

end WeexBridge.V8
