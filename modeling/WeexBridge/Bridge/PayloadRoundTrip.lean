/-
# Data that Java sends back

The payload of `callNative` is the UTF-8 of a JSON text.  A Java string of these bytes may come
back as an argument of `execJS`: its modified UTF-8 is decoded, and parsed.  The data is what it
was, as a JSON text has no U+0000 that would be lost on the way.
-/
import WeexBridge.Bridge.ByteArrays
import WeexBridge.V8.JsonRoundTrip
import WeexBridge.V8.JsonText

namespace WeexBridge

open Reentrant CodeUnits
open V8 JsonSerialize JsonParser JsonRoundTrip

theorem zero_not_mem_of_gives {platform : JsonPlatform} {limit : Nat} {heap : JsHeap}
    {value : JsValue} {text : List UInt16}
    (h : Gives heap (basicJsonStringify platform limit value) (.ok (some text))) :
    (0 : UInt16) ∉ text := by
  have hruns : Runs AnyHeap (basicJsonStringify platform limit value heap) []
      (.returned (.ok (some text))) heap := by
    unfold Gives at h
    rw [h]
    exact ⟨rfl, rfl, rfl⟩
  exact zero_not_mem_basicJsonStringify platform limit value heap [] _ heap hruns text rfl

/-- Data goes to Java and comes back: `JSON.stringify` writes it, `callNative` makes the bytes,
Java makes a string of them, `execJS` takes it over, and `JSON.parse` gives the data. -/
theorem payload_roundTrip {platform : JsonPlatform} (hplatform : PrintsIntegers platform)
    (parser : ParserPlatform) (fill : Nat → UInt16) (allocated : Bool)
    {limit limit₁ limit₂ : Nat} (hle : limit ≤ limit₁) (hlt : limit < limit₂) {heap : JsHeap}
    {value : JsValue} {data : JsonValue} {text : List UInt16}
    (h : Means platform parser.stringToDouble heap limit [] value data text)
    (hlength : text.length ≤ kMaxTwoByteLength) :
    Gives heap (basicJsonStringify platform limit₁ value) (.ok (some text)) ∧
      ∀ t : HeapString, t.units = text → t.tree.Writable ∧
        ∃ bytes, javaBytes (some t) = .byteArray bytes ∧
          ∀ jdata : List UInt16, utf8 jdata = bytes → ∀ s : World, ∃ arg s',
            Bridge.jString2V8String (some jdata) s = .done (some arg) s' ∧
              runtimeParseJson parser fill allocated limit₂ arg.tree = .ok data := by
  obtain ⟨htext, x, hx, hdepth, rfl⟩ := gives_text hplatform hle h hlength
  have hzero := zero_not_mem_of_gives htext
  refine ⟨htext, ?_⟩
  rintro t rfl
  have hbytes : (utf8 t.units).length < 2 ^ 31 := by
    refine Nat.lt_of_le_of_lt (length_utf8_le_three_mul t.units) ?_
    refine Nat.lt_of_le_of_lt (Nat.mul_le_mul_left 3 hlength) ?_
    decide
  refine ⟨Str.writable_of_length_le (t.length_units ▸ hlength), utf8 t.units,
    (javaBytes_eq_iff hbytes).mpr hzero, fun jdata hjdata s => ?_⟩
  obtain rfl := utf8_injective hjdata
  obtain ⟨text, n, hrun, -, hmakes⟩ := Bridge.jString2V8String_eq (some t.units) s
  have hwhole : ComesWhole t.units := by
    refine ⟨hzero, Nat.le_trans hlength ?_⟩
    unfold maxNewLength
    split_ifs
    · decide
    · exact Nat.le_refl _
  obtain ⟨_, htree, hunits⟩ := hmakes.units_eq_iff.mpr hwhole
  obtain ⟨arg, rfl, rfl⟩ := Option.map_eq_some_iff.mp htree
  have hunits : arg.tree.units = t.units := hunits
  refine ⟨arg, _, hrun, ?_⟩
  have hshort : arg.tree.length ≤ kMaxTwoByteLength := by
    rw [← Str.length_units arg.wellFormed, hunits]
    exact hlength
  rw [runtimeParseJson_of_denotes arg.wellFormed hshort (hunits ▸ hx),
    if_pos (Nat.lt_of_le_of_lt hdepth hlt)]

theorem payload_roundTrip_nested :
    Gives .nested (basicJsonStringify .plain 2 (.object 0)) (.ok (some nestedText)) ∧
      ∀ t : HeapString, t.units = nestedText → t.tree.Writable ∧
        ∃ bytes, javaBytes (some t) = .byteArray bytes ∧
          ∀ jdata : List UInt16, utf8 jdata = bytes → ∀ s : World, ∃ arg s',
            Bridge.jString2V8String (some jdata) s = .done (some arg) s' ∧
              runtimeParseJson .plain (fun _ => 0) true 3 arg.tree =
                .ok (.array [.number (.smi 12), .string (.oneByte [0x22]),
                  .object [(7, .null)] [([0x79], .boolean true)]]) :=
  payload_roundTrip printsIntegers_plain .plain _ true (Nat.le_refl 2) (by decide) means_nested
    (by decide)

end WeexBridge
