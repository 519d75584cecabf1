/-
# Objects as JSON text

An object that is the payload of `callNative` goes through `JSON.stringify`,
`Utf8Value`, `strlen` and `NewByteArray`.  The text has no U+0000, the buffer holds
its UTF-8 whatever tree the string is, and so the array is that UTF-8: exactly when the
text can be written.  A text that is too long to be flattened, and too deep to be walked,
ends the process.
-/
import WeexBridge.Bridge.ByteArrays
import WeexBridge.Bridge.Remains
import WeexBridge.V8.JsonAgreement
import WeexBridge.V8.JsonText

namespace WeexBridge

open Reentrant CodeUnits

/-! ## An environment with `JSON.stringify` -/

/-- `JSON` and `JSON.stringify` are there where they are read, and `t` is what it returns. -/
def StringifiesTo (t : HeapString) : BridgeExchange → Prop
  | ⟨.get .jsonMember _ _, a⟩ => ∃ ref, a = some (.function ref)
  | ⟨.get _ _ _, a⟩ => ∃ json, a = some json ∧ json.isSmi = false
  | ⟨.call _ _ _ _, a⟩ => a = some (.string t)
  | _ => True

/-- The built-in `JSON.stringify` may return `t`. -/
def IsJsonText (t : HeapString) : Prop :=
  ∃ platform limit ref heap h heap', Runs V8.AnyHeap
    (V8.basicJsonStringify platform limit (.object ref) heap) h
      (.returned (.ok (some t.units))) heap'

theorem IsJsonText.noZero {t : HeapString} (ht : IsJsonText t) : (0 : UInt16) ∉ t.units := by
  obtain ⟨platform, limit, ref, heap, h, heap', hr⟩ := ht
  exact V8.zero_not_mem_basicJsonStringify platform limit (.object ref) heap h _ heap' hr _ rfl

/-- In some run, `inv` is an invocation of `callNative` that has ended, the object `v` being
`args[1]`, for which `JSON.stringify` returns `t`. -/
structure Stringifies (platform : Platform) (inv : BridgeInvocation) (args : Arguments)
    (v : Value) (t : HeapString) : Prop where
  run : ∃ c : BridgeConfig, AnyRun platform c ∧ inv ∈ c.log
  entry : inv.entry = .callNative args
  payload : args.get 1 = some v
  object : v.isObject = true
  context : inv.start.v8context.isSome = true
  answers : ∀ x ∈ inv.history, StringifiesTo t x
  text : IsJsonText t

/-- `JSON.stringify` is called, the buffer of `Utf8Value` holds the UTF-8 of `t` and no more
zeros than the one after it, and Java gets all those bytes. -/
structure ObjectIntact (platform : Platform) (inv : BridgeInvocation) (v : Value)
    (t : HeapString) : Prop where
  stringified : ∃ global json stringify receiver, jsonHead "stringify" global json stringify ++
    [⟨.call .jsonMember stringify receiver [v], some (.string t)⟩] ⊆ inv.history
  buffer : ∃ rest, V8.utf8Value platform.fill platform.garbage t.tree =
    some (utf8 t.units ++ 0 :: rest)
  noZero : (0 : UInt8) ∉ utf8 t.units
  bytes : ∀ p, GetsPayload inv p ↔ p = some (.byteArray (utf8 t.units))

/-! ## Once it has returned -/

/-- The array of an object is the text that `JSON.stringify` returned. -/
theorem Stringify.eq_javaBytes {v : Value} {h : History} {p : Option JavaObject}
    (hs : Stringify v h p) {t : HeapString} (ht : ∀ x ∈ h, StringifiesTo t x) :
    p = some (javaBytes (some t)) ∧ t.tree.Writable ∧
      ∃ global json stringify receiver, jsonHead "stringify" global json stringify ++
        [⟨.call .jsonMember stringify receiver [v], some (.string t)⟩] ⊆ h := by
  cases hs with
  | @called global json stringify receiver ret h a htext hwrites =>
      obtain rfl : ret = some (.string t) := ht _ (List.mem_append_right _ List.mem_cons_self)
      obtain rfl : a = some t := by
        cases htext with
        | value htext =>
            cases htext with
            | itself => rfl
            | asked _ hstring => cases hstring
      refine ⟨rfl, hwrites t rfl, global, json, stringify, receiver, ?_⟩
      exact List.append_subset.mpr ⟨List.subset_append_left _ _, List.cons_subset.mpr
        ⟨List.mem_append_right _ List.mem_cons_self, List.nil_subset _⟩⟩
  | @noFunction global json stringify receiver hfunction =>
      obtain ⟨ref, href⟩ := ht ⟨.get .jsonMember json (.literal "stringify"), some stringify⟩
        (List.mem_append_left _ (List.mem_cons_of_mem _ List.mem_cons_self))
      cases href
      cases hfunction

theorem CallNativeRun.objectPayload {args : Arguments} {h : History} (hr : CallNativeRun args h)
    {v : Value} (hv : args.get 1 = some v) (hobject : v.isObject = true) {t : HeapString}
    (ht : ∀ x ∈ h, StringifiesTo t x) :
    (∃ this params flag, ⟨.java .callNative this params, flag⟩ ∈ h) ∧
      (∀ {this params flag}, ⟨.java .callNative this params, flag⟩ ∈ h →
        params[1]? = some (some (javaBytes (some t)))) ∧ t.tree.Writable ∧
      ∃ global json stringify receiver, jsonHead "stringify" global json stringify ++
        [⟨.call .jsonMember stringify receiver [v], some (.string t)⟩] ⊆ h := by
  obtain ⟨h₁, p₁, htask, hle, hcalled, hparam⟩ := hr.payload
  cases htask with
  | object hu _ hs =>
      cases hu.symm.trans hv
      obtain ⟨rfl, hwritable, global, json, stringify, receiver, hsub⟩ :=
        hs.eq_javaBytes fun x hx => ht x (hle hx)
      exact ⟨hcalled, hparam, hwritable, global, json, stringify, receiver,
        List.Subset.trans hsub hle⟩
  | string hs _ =>
      cases hs.symm.trans hv
      cases hobject
  | other hu hno _ =>
      cases hu.symm.trans hv
      cases hobject.symm.trans hno

/-! ## Until it has -/

namespace Bridge

variable {rely : Exchange Answer → World → World → Prop}
  (hrely : ∀ {x s s'}, rely x s s' → Remains s s')
include hrely

/-- Where there is a `JSON.stringify`, and its text can be written, the array is made. -/
theorem sound_stringifyToBytes (v : Value) {t : HeapString} (hwritable : t.tree.Writable)
    (hlen : (utf8 t.units).length < 2 ^ 31) :
    Sound rely (StringifiesTo t) Live (stringifyToBytes (some v)) := by
  have hlive : Lax rely Live := lax_live hrely
  have hlive' : Lax rely LiveJson := lax_liveJson hrely
  refine Sound.bind hlive.globalObject returns_globalObject sound_globalObject
    fun hglobal _ => ?_
  obtain ⟨-, global, rfl⟩ := hglobal
  refine Sound.bind (hlive.objectGet _ _ _) (returns_objectGet _ _ _)
    (Sound.of_crashes (steady_objectGet rfl _)) fun hget hgood => ?_
  obtain ⟨_, _, -, -, -, rfl⟩ := hget
  obtain ⟨json, rfl, hjson⟩ := hgood _ List.mem_cons_self
  refine sound_store_use (J := LiveJson) (fun hs => ⟨hs, rfl⟩) ?_
  refine Sound.bind (hlive'.objectGet _ _ _) (returns_objectGet _ _ _)
    (Sound.of_crashes (steady_objectGet hjson _)) fun hget hgood => ?_
  obtain ⟨_, _, -, -, -, rfl⟩ := hget
  obtain ⟨ref, rfl⟩ := hgood _ List.mem_cons_self
  refine sound_store_use (J := LiveJson) (fun hs => hs) ?_
  refine sound_use_json (I := LiveJson) (fun receiver => ?_) fun _ hs => hs
  refine Sound.bind (Triple.free _) (returns_functionCall _ _ _ _)
    (Sound.of_crashes (steady_functionCall rfl [v])) fun {ret h} hcall hgood => ?_
  obtain rfl : ret = some (.string t) := by
    obtain ⟨f, hf, -, ⟨_, _, -, -, -, rfl⟩ | ⟨hno, -, -⟩⟩ := hcall
    · exact hgood _ List.mem_cons_self
    · cases hf
      cases hno
  refine Sound.bind (Triple.free _) (returns_utf8Value _ _) (sound_utf8Value ?_ ?_)
    fun {buffer h} hbuffer _ => Sound.of_crashes (steady_newByteArray ?_)
  · intro s hs
    cases hs
    exact hwritable
  · intro u s hu hstring
    cases hu
    cases hstring
  · obtain ⟨a, ht, hbuffer, -⟩ := hbuffer
    cases ht with
    | value ht =>
        cases ht with
        | itself =>
            cases buffer with
            | none => cases hbuffer
            | some buffer =>
                have hcstring : cString buffer = cString (utf8 t.units) := Option.some.inj hbuffer
                rw [toCString, Option.getD_some, hcstring]
                exact Nat.lt_of_le_of_lt (length_cString_le _) hlen
        | asked _ hstring => cases hstring

theorem sound_callNative_object {args : Arguments} {v : Value} (hv : args.get 1 = some v)
    (hobject : v.isObject = true) {t : HeapString} (hwritable : t.tree.Writable)
    (hlen : (utf8 t.units).length < 2 ^ 31) (hargs : TextsWritable args [0, 2] []) :
    Sound rely (fun x => StringifiesTo t x ∧ TextsWritable args [0, 2] [x]) Live
      (callNative args) := by
  have hlive : Lax rely Live := lax_live hrely
  have htask : taskArgument (args.get 1) = stringifyToBytes (some v) := by
    rw [hv]
    simp only [taskArgument, hobject]
    rfl
  refine Sound.bind_any (hlive.stringArgument args 0)
    ((sound_stringArgument (by decide) hargs).consequence And.right) fun _ => ?_
  rw [htask]
  refine Sound.bind_any (hlive.stringifyToBytes _)
    ((sound_stringifyToBytes hrely v hwritable hlen).consequence And.left) fun _ => ?_
  exact (sound_callNative_rest hargs (by decide) _ _).consequence And.right

end Bridge

/-! ## What Java gets -/

/-- Whatever user code `JSON.stringify` runs, and whatever tree the string is that it
returns, Java gets the UTF-8 of the text for an object, exactly when the text and those of
the other arguments can be written. -/
theorem objectIntact_iff {platform : Platform} {inv : BridgeInvocation} {args : Arguments}
    {v : Value} {t : HeapString} (hs : Stringifies platform inv args v t)
    (hlen : (utf8 t.units).length < 2 ^ 31) :
    ObjectIntact platform inv v t ↔
      t.tree.Writable ∧ TextsWritable args [0, 2] inv.history := by
  obtain ⟨⟨c, hc, hinv⟩, hentry, hv, hobject, hlive, hanswers, htext⟩ := hs
  have hzero := htext.noZero
  have hruns := runs_remains hc hinv
  rw [hentry] at hruns
  rcases runs_callNative hruns with ⟨-, hrun⟩ | ⟨hcrashed, hno⟩
  · obtain ⟨⟨this, params, flag, hj⟩, hparam, hwritable, hstringified⟩ :=
      hrun.objectPayload hv hobject hanswers
    rw [(javaBytes_eq_iff hlen).mpr hzero] at hparam
    refine ⟨fun _ => ⟨hwritable, HasPart.textsWritable hrun.part⟩, fun _ => ⟨hstringified,
      V8.utf8Value_eq _ _ t.wellFormed t.length_le hwritable, by rwa [zero_mem_utf8],
      fun p => ⟨?_, ?_⟩⟩⟩
    · rintro ⟨this', params', flag', hj', hp⟩
      exact Option.some.inj (hp.symm.trans (hparam hj'))
    · rintro rfl
      exact ⟨this, params, flag, hj, hparam hj⟩
  · constructor
    · intro h
      obtain ⟨this, params, flag, hj, -⟩ := (h.bytes _).mpr rfl
      exact absurd trivial (hno _ hj)
    · rintro ⟨hwritable, htexts⟩
      rw [hcrashed] at hruns
      have hlax : Lax (fun _ => Remains) Live := lax_live id
      have hcode := hlax.callNative args fun _ _ _ => hlax.stringifyToBytes _
      have hsound := sound_withHandleScope hlax
        (hcode.bind fun flag => Preserves.pure (Returned.value flag))
        (Sound.bind_any hcode (Bridge.sound_callNative_object id hv hobject hwritable hlen
          (htexts.mono (List.nil_subset _))) fun flag => Sound.pure (Returned.value flag))
      refine absurd (fun x hx => ⟨hanswers x hx, htexts.mono ?_⟩) (hsound _ hlive _ _ hruns)
      exact List.cons_subset.mpr ⟨hx, List.nil_subset _⟩

/-! ### Two payloads -/

/-- The usual answers, but functions return `t`. -/
def Question.stringifying (t : HeapString) : (question : Question) → Answer question
  | .call _ _ _ _ => some (.string t)
  | question => question.usual

theorem stringifiesTo_stringifying {t : HeapString} {x : BridgeExchange}
    (hx : x.answer = Question.stringifying t x.question) : StringifiesTo t x := by
  obtain ⟨question, a⟩ := x
  cases question with
  | get site receiver key =>
      cases site with
      | jsonMember => exact ⟨3, hx⟩
      | jsonObject => exact ⟨.object 1, hx, rfl⟩
      | namespaceObject => exact ⟨.object 2, hx, rfl⟩
      | target => exact ⟨.function 3, hx, rfl⟩
      | version => exact ⟨.function 3, hx, rfl⟩
  | call => exact hx
  | _ => exact trivial

/-- `callNative("i", {}, "c")` during a call of `execJS`, the text of the object being `t`. -/
def passingObject (t : HeapString) : BridgeInvocation :=
  let args : Arguments := ⟨[.string (.literal "i"), .object 7, .string (.literal "c")]⟩
  let r := (body (.callNative args) (.calling .plain)).play (Question.stringifying t)
  ⟨.callNative args, .calling .plain, r.1, r.2.1, r.2.2⟩

theorem stringifies_passingObject {t : HeapString} (ht : IsJsonText t) :
    Stringifies .plain (passingObject t)
      ⟨[.string (.literal "i"), .object 7, .string (.literal "c")]⟩ (.object 7) t := by
  have hlive : (World.calling .plain).v8context.isSome = true := by decide +kernel
  have hrun := anyRun_play
    (.callNative ⟨[.string (.literal "i"), .object 7, .string (.literal "c")]⟩)
    (Question.stringifying t)
  have hanswers := fun x => @answer_of_mem_play _ _ _ _ (Question.stringifying t)
    (body (.callNative ⟨[.string (.literal "i"), .object 7, .string (.literal "c")]⟩)
      (.calling .plain)) x
  unfold passingObject
  dsimp only
  -- what the run computes is of no interest here
  generalize (body (.callNative ⟨[.string (.literal "i"), .object 7, .string (.literal "c")]⟩)
    (.calling .plain)).play (Question.stringifying t) = r at hrun hanswers ⊢
  exact ⟨hrun, rfl, rfl, rfl, hlive, fun x hx => stringifiesTo_stringifying (hanswers x hx), ht⟩

/-- The object with no properties. -/
theorem objectIntact_empty :
    ObjectIntact .plain (passingObject (.literal "\x7b\x7d")) (.object 7)
      (.literal "\x7b\x7d") := by
  have ht : IsJsonText (.literal "\x7b\x7d") :=
    ⟨⟨fun _ => 0, fun _ => [], fun n => n⟩, 1, 0,
      ⟨fun _ => ⟨.ordinary, ⟨0, [], fun _ => rfl⟩, .dictionary [], []⟩, fun _ => []⟩, [], _,
      rfl, rfl, rfl⟩
  refine (objectIntact_iff (stringifies_passingObject ht) (by decide +kernel)).mpr
    ⟨by decide +kernel, textsWritable_of_strings fun i hi => ?_⟩
  simp only [List.mem_cons, List.not_mem_nil, or_false] at hi
  rcases hi with rfl | rfl
  · exact ⟨.literal "i", rfl, by decide +kernel⟩
  · exact ⟨.literal "c", rfl, by decide +kernel⟩

/-! ### A text that cannot be written -/

/-- Units that are appended one by one. -/
def appendEach : V8.Str → List UInt16 → V8.Str
  | s, [] => s
  | s, u :: us => appendEach (.cons false s (.seq (.twoByte [u]))) us

theorem appendEach_spec : ∀ (us : List UInt16) {s : V8.Str}, s.WellFormed →
    V8.Str.kMinLength ≤ s.length → (appendEach s us).WellFormed ∧
      (appendEach s us).units = s.units ++ us ∧
      s.leftDepth + us.length ≤ (appendEach s us).leftDepth
  | [], s, hs, _ => ⟨hs, (List.append_nil _).symm, Nat.le_refl _⟩
  | u :: us, s, hs, hlong => by
      have hpos : 0 < V8.Str.kMinLength := by decide
      have hlength : (V8.Str.cons false s (.seq (.twoByte [u]))).length = s.length + 1 := rfl
      have hdepth : (V8.Str.cons false s (.seq (.twoByte [u]))).leftDepth = s.leftDepth + 1 :=
        Nat.max_eq_left (Nat.zero_le _)
      have hwf : (V8.Str.cons false s (.seq (.twoByte [u]))).WellFormed :=
        ⟨hs, trivial, Nat.lt_of_lt_of_le hpos hlong, Nat.le_trans hlong (Nat.le_add_right _ _),
          Or.inl Nat.one_pos, nofun⟩
      obtain ⟨hwf', hunits, hdepth'⟩ := appendEach_spec us hwf (hlength ▸ Nat.le_succ_of_le hlong)
      refine ⟨hwf', ?_, ?_⟩
      · rw [appendEach, hunits, V8.Str.units, List.append_assoc]
        rfl
      · rw [appendEach, List.length_cons]
        omega

/-- As a cons string of two-byte characters it may be too long to be flattened. -/
theorem not_flattens_appendEach : ∀ {us : List UInt16} {s : V8.Str}, us ≠ [] →
    V8.kMaxTwoByteLength < s.length + us.length → ¬ (appendEach s us).Flattens
  | [], _, hne, _ => absurd rfl hne
  | [u], s, _, hlong => by
      rintro (h | h)
      · cases h
      · exact absurd (Nat.lt_of_lt_of_le hlong h) (Nat.lt_irrefl _)
  | u :: v :: us, s, _, hlong => by
      have hlength : (V8.Str.cons false s (.seq (.twoByte [u]))).length = s.length + 1 := rfl
      show ¬ (appendEach (.cons false s (.seq (.twoByte [u]))) (v :: us)).Flattens
      refine not_flattens_appendEach (List.cons_ne_nil v us) ?_
      rw [hlength]
      simp only [List.length_cons] at hlong ⊢
      omega

/-- The text of a `String` object. -/
theorem isJsonText_quoted {t : HeapString} (s : V8.JsString) (hflat : s.val.Flattens)
    (ht : t.units = V8.JsonSerialize.quoted s) : IsJsonText t := by
  let platform : V8.JsonPlatform := ⟨fun _ => 0, fun _ => [], fun n => n⟩
  let heap : V8.JsHeap :=
    ⟨fun _ => ⟨.stringWrapper, ⟨0, [], fun _ => rfl⟩, .dictionary [], []⟩, fun _ => []⟩
  have hadds := @V8.JsonSerialize.adds_serializeString platform (.start platform.fill)
    V8.JsonWriter.ok_start s hflat
  have hstart : (V8.JsonWriter.start platform.fill).text = [] := rfl
  obtain ⟨w, hw, -, htext⟩ := hadds.exists_some (by
    rw [hstart, ← ht, List.length_nil, Nat.zero_add]
    exact t.length_units ▸ t.length_le)
  rw [hstart, List.nil_append, ← ht] at htext
  have hresult : w.result = some t.units := by
    rw [V8.JsonWriter.result_eq (htext ▸ t.length_units ▸ t.length_le), htext]
  refine ⟨platform, 0, 0, heap, [⟨.toString 0, .ok s⟩], heap, runs_bind.mpr (Or.inl
    ⟨(.success, w), heap, [⟨.toString 0, .ok s⟩], [], rfl, ?_, ?_⟩)⟩
  · refine ⟨.ok s, heap, [], rfl, trivial, ?_⟩
    show Runs _ (V8.BasicJsonStringifier.success _ heap) _ _ _
    rw [hw]
    exact ⟨rfl, rfl, rfl⟩
  · dsimp only
    rw [hresult]
    exact ⟨rfl, rfl, rfl⟩

/-- The text of `n` letters that are not ASCII, in quotes, the last 101 units appended one by
one. -/
def appendedText (n : Nat) : V8.Str :=
  appendEach (.seq (.twoByte (0x22 :: List.replicate n 0x100))) (List.replicate 100 0x100 ++ [0x22])

theorem appendedText_spec {n : Nat} (hlong : V8.Str.kMinLength ≤ n + 1) :
    (appendedText n).WellFormed ∧
      (appendedText n).units = [0x22] ++ List.replicate (n + 100) 0x100 ++ [0x22] ∧
      101 ≤ (appendedText n).leftDepth := by
  have hlength : (V8.Str.seq (.twoByte (0x22 :: List.replicate n 0x100))).length = n + 1 := by
    simp [V8.Str.length, V8.FlatChars.length]
  obtain ⟨hwf, hunits, hdepth⟩ := @appendEach_spec (List.replicate 100 0x100 ++ [0x22])
    (.seq (.twoByte (0x22 :: List.replicate n 0x100))) trivial (hlength ▸ hlong)
  refine ⟨hwf, ?_, Nat.le_trans (Nat.le_add_left _ _) hdepth⟩
  rw [appendedText, hunits, V8.Str.units, V8.FlatChars.units, ← List.append_assoc,
    List.cons_append, ← List.replicate_add]
  rfl

theorem quoted_replicate (n : Nat) :
    V8.JsonSerialize.quoted ⟨.seq (.twoByte (List.replicate n 0x100)), trivial⟩ =
      [0x22] ++ List.replicate n 0x100 ++ [0x22] := by
  have hflat : (List.replicate n 0x100).flatMap V8.quotedUnit = List.replicate n 0x100 := by
    induction n with
    | zero => rfl
    | succ n ih =>
        rw [List.replicate_succ, List.flatMap_cons, ih, V8.quotedUnit_of_le (by decide)]
        rfl
  show [0x22] ++ (List.replicate n 0x100).flatMap V8.quotedUnit ++ [0x22] = _
  rw [hflat]

/-- With two quotes a string may be too long to be flattened, where it was not before. -/
theorem not_writable_appendedText {n : Nat} (hn : n + 100 = V8.kMaxTwoByteLength) :
    ¬ (appendedText n).Writable := by
  rintro (h | h)
  · have hlong : V8.Str.kMinLength ≤ n + 1 := by
      rw [Nat.add_right_cancel (hn.trans (by decide : V8.kMaxTwoByteLength = 268435349 + 100))]
      decide
    exact absurd (Nat.le_trans (appendedText_spec hlong).2.2 h) (by decide)
  · refine absurd h (not_flattens_appendEach (by simp) ?_)
    rw [← hn]
    simp [V8.Str.length, V8.FlatChars.length]

/-- The text is not written, and Java gets nothing. -/
theorem not_objectIntact : ¬ ∀ {platform : Platform} {inv : BridgeInvocation} {args : Arguments}
    {v : Value} {t : HeapString}, Stringifies platform inv args v t →
      (utf8 t.units).length < 2 ^ 31 → ObjectIntact platform inv v t := by
  intro h
  obtain ⟨n, hn⟩ : ∃ n, n + 100 = V8.kMaxTwoByteLength := ⟨268435349, by decide⟩
  have hmax : n = 268435349 := Nat.add_right_cancel hn
  obtain ⟨hwf, hunits, -⟩ := @appendedText_spec n (by rw [hmax]; decide)
  have hlength : (appendedText n).units.length = n + 102 := by
    rw [hunits]
    simp only [List.length_append, List.length_replicate, List.length_singleton]
    omega
  have hlong : (appendedText n).length ≤ V8.Str.kMaxLength := by
    rw [← V8.Str.length_units hwf, hlength, hmax]
    decide
  let t : HeapString := ⟨appendedText n, hwf, hlong⟩
  have htext : IsJsonText t := by
    refine isJsonText_quoted ⟨.seq (.twoByte (List.replicate (n + 100) 0x100)), trivial⟩ trivial ?_
    rw [quoted_replicate]
    exact hunits
  have hbytes : (utf8 t.units).length < 2 ^ 31 := by
    refine Nat.lt_of_le_of_lt (length_utf8_le_three_mul _) ?_
    show 3 * (appendedText n).units.length < 2 ^ 31
    rw [hlength, hmax]
    decide
  obtain ⟨rest, hbuffer⟩ := (h (stringifies_passingObject htext) hbytes).buffer
  rw [V8.utf8Value_eq_none _ _ hwf hlong (not_writable_appendedText hn)] at hbuffer
  cases hbuffer

end WeexBridge
