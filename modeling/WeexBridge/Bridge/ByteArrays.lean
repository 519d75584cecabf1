/-
# Payloads as bytes

The payload of `callNative` is a byte array whose length `strlen` has found, on a
buffer whose length `Utf8Value` knows.  A string arrives as it is exactly when it
has no U+0000, and it and the other arguments can be written.
-/
import WeexBridge.Bridge.Payloads

namespace WeexBridge

open Reentrant CodeUnits

/-! ## The array of a text -/

/-- An `int` holds what is below `2^31`. -/
theorem Bridge.jint_of_lt {n : Nat} (h : n < 2 ^ 31) : Bridge.jint n = n := by
  unfold Bridge.jint
  exact Int.bmod_eq_of_le (by omega) (by omega)

theorem javaBytes_some {s : HeapString} (hlen : (utf8 s.units).length < 2 ^ 31) :
    javaBytes (some s) = .byteArray (cString (utf8 s.units)) := by
  have hlen' : (cString (utf8 s.units)).length < 2 ^ 31 :=
    Nat.lt_of_le_of_lt (length_cString_le _) hlen
  simp only [javaBytes, Option.map_some, Option.getD_some, Bridge.jint_of_lt hlen',
    Int.toNat_natCast, List.take_length]

/-- The array has all the bytes of the text exactly when none of them is zero. -/
theorem javaBytes_eq_iff {s : HeapString} (hlen : (utf8 s.units).length < 2 ^ 31) :
    javaBytes (some s) = .byteArray (utf8 s.units) ↔ (0 : UInt16) ∉ s.units := by
  rw [javaBytes_some hlen, JavaObject.byteArray.injEq, cString_eq_self_iff, zero_mem_utf8]

/-! ## Strings -/

namespace Bridge

variable {rely : Exchange Answer → World → World → Prop}

/-- The array of a text that is short enough is made. -/
theorem steady_newByteArray {memory : List UInt8} (h : (cString memory).length < 2 ^ 31) :
    Steady rely (newByteArray memory) := by
  have hlen : ¬ jint (cString memory).length < 0 := by
    rw [jint_of_lt h]
    exact Int.not_lt.mpr (Int.natCast_nonneg _)
  simp only [newByteArray, if_neg hlen]
  exact (Steady.newLocalRef _).bind fun _ => Steady.pure _

section
variable {args : Arguments} {sites : List Nat} {pre : World → Prop}
  (hargs : TextsWritable args sites [])
include hargs

theorem sound_stringToBytes {i : Nat} (hi : i ∈ sites) {s : HeapString}
    (hs : args.get i = some (.string s)) (hlen : (utf8 s.units).length < 2 ^ 31) :
    Sound rely (fun x => TextsWritable args sites [x]) pre (stringToBytes i (args.get i)) := by
  refine Sound.bind (Triple.free _) (returns_utf8Value _ _) (sound_argument hi hargs)
    fun {buffer h} hbuffer _ => ?_
  obtain ⟨a, ht, hbuffer, -⟩ := hbuffer
  rw [hs] at ht
  obtain rfl : a = some s := by
    cases ht with
    | value ht =>
        cases ht with
        | itself => rfl
        | asked _ hstring => cases hstring
  cases buffer with
  | none => cases hbuffer
  | some tasks =>
      refine Sound.of_crashes (steady_newByteArray ?_)
      rw [Option.some.inj hbuffer]
      exact Nat.lt_of_le_of_lt (length_cString_le _) hlen

/-- What `callNative` does after its payload. -/
theorem sound_callNative_rest (hi : 2 ∈ sites) (jInstanceId jTaskString : JObject) :
    Sound rely (fun x => TextsWritable args sites [x]) pre (do
      let jCallback ← stringArgument args 2
      Program.modify fun s => { s with jCallNativeMethodId := true }
      let flag ← callJava .callNative [jInstanceId, jTaskString, jCallback]
      deleteLocalRef jTaskString
      deleteLocalRef jInstanceId
      deleteLocalRef jCallback
      pure (Value.integer flag)) := by
  refine Sound.bind (Triple.free _) (returns_stringArgument args 2)
    (sound_stringArgument hi hargs) fun _ _ => Sound.of_crashes ?_
  exact Steady.bind (Crashes.modify _) fun _ => (Steady.callJava _ _).bind fun _ =>
    (Steady.deleteLocalRef _).bind fun _ => (Steady.deleteLocalRef _).bind fun _ =>
      (Steady.deleteLocalRef _).bind fun _ => Steady.pure _

end

/-- With a string, `callNative` crashes only on a text that cannot be written. -/
theorem crashes_callNative_string {args : Arguments} {s : HeapString}
    (hs : args.get 1 = some (.string s)) (hlen : (utf8 s.units).length < 2 ^ 31) :
    Crashes rely (callNative args) fun h => ¬ TextsWritable args [0, 1, 2] h := by
  have htask : taskArgument (args.get 1) = stringToBytes 1 (args.get 1) := by
    rw [hs]
    rfl
  refine crashes_of_sound fun hargs => ?_
  refine Sound.bind_any (Triple.free _) (sound_stringArgument (by decide) hargs) fun _ => ?_
  rw [htask]
  refine Sound.bind_any (Triple.free _) (sound_stringToBytes hargs (by decide) hs hlen) fun _ => ?_
  exact sound_callNative_rest hargs (by decide) _ _

end Bridge

theorem isText_string {args : Arguments} {i : Nat} {h : History} {s s' : HeapString}
    (hs : args.get i = some (.string s)) (ht : IsText args i h s') : s' = s := by
  rcases ht with ht | ⟨v, hv, hstring, -⟩
  · cases ht.symm.trans hs
    rfl
  · cases hv.symm.trans hs
    cases hstring

theorem textsWritable_of_strings {args : Arguments} {sites : List Nat} {h : History}
    (hs : ∀ i ∈ sites, ∃ s, args.get i = some (.string s) ∧ s.tree.Writable) :
    TextsWritable args sites h := by
  intro i hi s' ht
  obtain ⟨s, hs, hwritable⟩ := hs i hi
  exact isText_string hs ht ▸ hwritable

/-- In some run, `inv` is an invocation of `callNative` that has ended, the string `s` being
`args[1]`. -/
structure PassesString (platform : Platform) (inv : BridgeInvocation) (args : Arguments)
    (s : HeapString) : Prop where
  run : ∃ c : BridgeConfig, AnyRun platform c ∧ inv ∈ c.log
  entry : inv.entry = .callNative args
  payload : args.get 1 = some (.string s)

/-- Java is called, with this payload. -/
def GetsPayload (inv : BridgeInvocation) (p : Option JavaObject) : Prop :=
  ∃ this params flag, ⟨.java .callNative this params, flag⟩ ∈ inv.history ∧ params[1]? = some p

/-- Java is called, and gets the UTF-8 bytes of `s`, all of them. -/
def BytesIntact (inv : BridgeInvocation) (s : HeapString) : Prop :=
  GetsPayload inv (some (.byteArray (utf8 s.units)))

/-- The payload of `callNative`, its part of the history, and the call of Java. -/
theorem CallNativeRun.payload {args : Arguments} {h : History} (hr : CallNativeRun args h) :
    ∃ h₁ p₁, TaskPart args h₁ p₁ ∧ h₁ ⊆ h ∧
      (∃ this params flag, ⟨.java .callNative this params, flag⟩ ∈ h) ∧
        ∀ {this params flag}, ⟨.java .callNative this params, flag⟩ ∈ h → params[1]? = some p₁ := by
  obtain @⟨h₀, h₁, h₂, p₀, p₁, p₂, this, flag, hp₀, hp₁, hp₂⟩ := hr
  refine ⟨h₁, p₁, hp₁, fun x hx => List.mem_append_right _ (List.mem_append_left _ hx), ?_, ?_⟩
  · exact ⟨this, [p₀, p₁, p₂], flag, List.mem_append_right _ (List.mem_append_right _
      (List.mem_append_right _ List.mem_cons_self))⟩
  · intro this' params flag' hj
    rw [← List.append_assoc, ← List.append_assoc] at hj
    cases eq_of_java_mem ((hp₀.noJava.append hp₁.noJava).append hp₂.noJava) hj
    rfl

/-- Once it has returned, Java has got the array of the string. -/
theorem CallNativeRun.stringPayload {args : Arguments} {h : History} (hr : CallNativeRun args h)
    {s : HeapString} (hs : args.get 1 = some (.string s)) :
    (∃ this params flag, ⟨.java .callNative this params, flag⟩ ∈ h) ∧
      (∀ {this params flag}, ⟨.java .callNative this params, flag⟩ ∈ h →
        params[1]? = some (some (javaBytes (some s)))) ∧
      TextsWritable args [0, 1, 2] h := by
  obtain ⟨h₁, p₁, htask, -, hcalled, hparam⟩ := hr.payload
  obtain ⟨rfl, hwritable⟩ : p₁ = some (javaBytes (some s)) ∧ s.tree.Writable := by
    cases htask with
    | object hv hobject _ =>
        cases hv.symm.trans hs
        cases hobject
    | string hv hwritable =>
        cases hv.symm.trans hs
        exact ⟨rfl, hwritable⟩
    | other hv _ hstring =>
        cases hv.symm.trans hs
        cases hstring
  have htexts : TextsWritable args [0, 2] h := HasPart.textsWritable hr.part
  refine ⟨hcalled, hparam, fun i hi s' ht => ?_⟩
  simp only [List.mem_cons, List.not_mem_nil, or_false] at hi
  rcases hi with rfl | rfl | rfl
  · exact htexts 0 (by decide) s' ht
  · exact isText_string hs ht ▸ hwritable
  · exact htexts 2 (by decide) s' ht

section
variable {platform : Platform} {inv : BridgeInvocation} {args : Arguments} {s : HeapString}

/-- Either Java has got the array of the string and all texts were written, or Java has got
nothing and one was not. -/
theorem PassesString.cases (hp : PassesString platform inv args s)
    (hlen : (utf8 s.units).length < 2 ^ 31) :
    ((∃ p, GetsPayload inv p) ∧ (∀ p, GetsPayload inv p → p = some (javaBytes (some s))) ∧
        TextsWritable args [0, 1, 2] inv.history) ∨
      ((∀ p, ¬ GetsPayload inv p) ∧ ¬ TextsWritable args [0, 1, 2] inv.history) := by
  obtain ⟨⟨c, hc, hinv⟩, hentry, hs⟩ := hp
  have hr := runs_of_reachable hc hinv
  rw [hentry] at hr
  rcases runs_callNative hr with ⟨-, hrun⟩ | ⟨hcrashed, hno⟩
  · obtain ⟨⟨this, params, flag, hj⟩, hparam, htexts⟩ := hrun.stringPayload hs
    refine Or.inl ⟨⟨_, this, params, flag, hj, hparam hj⟩, ?_, htexts⟩
    rintro p ⟨this', params', flag', hj', hp⟩
    exact Option.some.inj (hp.symm.trans (hparam hj'))
  · rw [hcrashed] at hr
    refine Or.inr ⟨?_, Bridge.crashes_scoped _ (Bridge.crashes_callNative_string hs hlen) _ _ _ hr⟩
    rintro p ⟨this, params, flag, hj, -⟩
    exact hno _ hj trivial

theorem PassesString.bytesIntact_iff (hp : PassesString platform inv args s)
    (hlen : (utf8 s.units).length < 2 ^ 31) :
    BytesIntact inv s ↔ (0 : UInt16) ∉ s.units ∧ TextsWritable args [0, 1, 2] inv.history := by
  rw [← javaBytes_eq_iff hlen, BytesIntact]
  rcases hp.cases hlen with ⟨⟨p, hgets⟩, hunique, htexts⟩ | ⟨hno, htexts⟩
  · constructor
    · intro h
      exact ⟨(Option.some.inj (hunique _ h)).symm, htexts⟩
    · rintro ⟨hbytes, -⟩
      rwa [hunique p hgets, hbytes] at hgets
  · exact ⟨fun h => absurd h (hno _), fun h => absurd h.2 htexts⟩

end

/-- Two strings arrive as they are, and not as the same array when they differ. -/
structure ArriveApart (inv : BridgeInvocation) (s : HeapString) (inv' : BridgeInvocation)
    (s' : HeapString) : Prop where
  first : BytesIntact inv s
  second : BytesIntact inv' s'
  apart : s.units ≠ s'.units → ∀ p, GetsPayload inv p → ¬ GetsPayload inv' p

/-- In all runs, the strings that are payloads of `callNative` arrive with all their bytes,
two of them never as the same array, exactly when they have no U+0000, and they and the
other arguments can be written. -/
theorem arriveApart_iff {platform platform' : Platform} {inv inv' : BridgeInvocation}
    {args args' : Arguments} {s s' : HeapString} (hp : PassesString platform inv args s)
    (hp' : PassesString platform' inv' args' s') (hlen : (utf8 s.units).length < 2 ^ 31)
    (hlen' : (utf8 s'.units).length < 2 ^ 31) :
    ArriveApart inv s inv' s' ↔
      ((0 : UInt16) ∉ s.units ∧ TextsWritable args [0, 1, 2] inv.history) ∧
        (0 : UInt16) ∉ s'.units ∧ TextsWritable args' [0, 1, 2] inv'.history := by
  rw [← hp.bytesIntact_iff hlen, ← hp'.bytesIntact_iff hlen']
  constructor
  · exact fun h => ⟨h.first, h.second⟩
  · rintro ⟨h, h'⟩
    refine ⟨h, h', fun hne p hgets hgets' => hne (utf8_injective ?_)⟩
    rcases hp.cases hlen with ⟨-, hunique, -⟩ | ⟨hno, -⟩
    · rcases hp'.cases hlen' with ⟨-, hunique', -⟩ | ⟨hno', -⟩
      · have hbytes := (hunique _ h).trans (hunique _ hgets).symm
        have hbytes' := (hunique' _ h').trans (hunique' _ hgets').symm
        injection hbytes.trans hbytes'.symm with hbytes
        injection hbytes
      · exact absurd h' (hno' _)
    · exact absurd h (hno _)

/-- `callNative("i", payload, "c")` during a call of `execJS`. -/
def passingString (payload : HeapString) : BridgeInvocation :=
  let args : Arguments := ⟨[.string (.literal "i"), .string payload, .string (.literal "c")]⟩
  let r := (body (.callNative args) (.calling .plain)).play Question.usual
  ⟨.callNative args, .calling .plain, r.1, r.2.1, r.2.2⟩

theorem passesString_passingString (payload : HeapString) :
    PassesString .plain (passingString payload)
      ⟨[.string (.literal "i"), .string payload, .string (.literal "c")]⟩ payload :=
  ⟨anyRun_play (.callNative ⟨[.string (.literal "i"), .string payload, .string (.literal "c")]⟩)
    Question.usual, rfl, rfl⟩

theorem arriveApart_ascii :
    ArriveApart (passingString (.literal "t")) (.literal "t") (passingString (.literal ""))
      (.literal "") := by
  have hwritable : ∀ payload : HeapString, payload.tree.Writable →
      TextsWritable ⟨[.string (.literal "i"), .string payload, .string (.literal "c")]⟩ [0, 1, 2]
        (passingString payload).history := by
    intro payload hpayload
    refine textsWritable_of_strings fun i hi => ?_
    simp only [List.mem_cons, List.not_mem_nil, or_false] at hi
    rcases hi with rfl | rfl | rfl
    · exact ⟨.literal "i", rfl, by decide +kernel⟩
    · exact ⟨payload, rfl, hpayload⟩
    · exact ⟨.literal "c", rfl, by decide +kernel⟩
  exact (arriveApart_iff (passesString_passingString _) (passesString_passingString _)
    (by decide +kernel) (by decide +kernel)).mpr
      ⟨⟨by decide +kernel, hwritable _ (by decide +kernel)⟩, by decide +kernel,
        hwritable _ (by decide +kernel)⟩

/-- The string of one U+0000 arrives as the empty string does. -/
theorem not_arriveApart : ¬ ∀ {platform platform' inv inv' args args' s s'},
    PassesString platform inv args s → PassesString platform' inv' args' s' →
      (utf8 s.units).length < 2 ^ 31 → (utf8 s'.units).length < 2 ^ 31 →
        ArriveApart inv s inv' s' := by
  intro h
  have hgets : ∀ payload : HeapString, (JavaMethod.callNative, some 3, [some (.stringUTF [0x69]),
      some (.byteArray []), some (.stringUTF [0x63])], 0) ∈
        javaCalls (passingString payload).history →
      GetsPayload (passingString payload) (some (.byteArray [])) := fun payload hj =>
    ⟨some 3, _, 0, mem_of_mem_javaCalls hj, rfl⟩
  have hne : (HeapString.literal "\x00").units ≠ (HeapString.literal "").units := by
    decide +kernel
  exact (h (passesString_passingString (.literal "\x00")) (passesString_passingString (.literal ""))
    (by decide +kernel) (by decide +kernel)).apart hne _ (hgets _ (by decide +kernel))
      (hgets _ (by decide +kernel))

end WeexBridge
