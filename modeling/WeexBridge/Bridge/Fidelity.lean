/-
# Strings between JavaScript and Java

From Java to JavaScript, `jString2V8String` goes through modified UTF-8 and a
decoder of UTF-8.  From JavaScript to Java, `newStringOf` goes through an encoder
of UTF-8 and a decoder of modified UTF-8.  Both say exactly which strings arrive
as they are.
-/
import WeexBridge.Bridge.Marshalling

namespace WeexBridge

open Reentrant CodeUnits

/-! ## From Java -/

/-- The Java string `t` becomes a JavaScript string of the same code units. -/
def EntersIntact (s : World) (t : List UInt16) : Prop :=
  ∃ text s', Bridge.jString2V8String (some t) s = .done (some text) s' ∧ text.units = t

/-- A Java string enters JavaScript as it is exactly when it has no U+0000, whose two
bytes the decoder takes for two errors, and is no longer than a string of its width may
be: ASCII characters are one byte each, others two. -/
theorem entersIntact_iff (s : World) (t : List UInt16) :
    EntersIntact s t ↔ (0 : UInt16) ∉ t ∧
      t.length ≤ if t.all fun u => u.toNat < 0x80 then V8.kMaxOneByteLength
        else V8.kMaxTwoByteLength := by
  obtain ⟨text, n, hrun, -, hmakes⟩ := Bridge.jString2V8String_eq (some t) s
  refine Iff.trans ?_ hmakes.units_eq_iff
  constructor
  · rintro ⟨text', t', hrun', ht⟩
    cases hrun.symm.trans hrun'
    exact ⟨text'.tree, rfl, ht⟩
  · rintro ⟨tree, htree, hunits⟩
    obtain ⟨text', rfl, rfl⟩ := Option.map_eq_some_iff.mp htree
    exact ⟨text', _, hrun, hunits⟩

/-- The string of one U+0000 enters as two U+FFFD. -/
theorem not_entersIntact : ¬ ∀ (s : World) (t : List UInt16), EntersIntact s t := by
  intro h
  obtain ⟨text, s', hrun, ht⟩ := h (.initialised .plain) [0]
  obtain ⟨text', n, hrun', -, hmakes⟩ :=
    Bridge.jString2V8String_eq (some [0]) (.initialised .plain)
  cases hrun.symm.trans hrun'
  cases ht.symm.trans (hmakes.made _ rfl).2

/-! ## To Java -/

/-- The callback an entry point is, with its arguments. -/
def Entry.callback : Entry → Option (JavaMethod × Arguments)
  | .callNative args => some (.callNative, args)
  | .callAddElement args => some (.callAddElement, args)
  | .setTimeoutNative args => some (.setTimeoutNative, args)
  | _ => none

/-- The arguments that reach Java as strings, which are also the parameters. -/
def stringSites : List (JavaMethod × Nat) :=
  [(.callNative, 0), (.callNative, 2),
   (.callAddElement, 0), (.callAddElement, 1), (.callAddElement, 3), (.callAddElement, 4),
   (.setTimeoutNative, 0), (.setTimeoutNative, 1)]

/-- The exchanges are not about the argument. -/
def Elsewhere (i : Nat) (h : History) : Prop :=
  ∀ x ∈ h, ∀ v, x.question ≠ .toString (.argument i) v

theorem elsewhere_nil (i : Nat) : Elsewhere i [] := fun _ hx => absurd hx List.not_mem_nil

theorem Elsewhere.cons {i : Nat} {x : BridgeExchange} {h : History}
    (hx : ∀ v, x.question ≠ .toString (.argument i) v) (hh : Elsewhere i h) :
    Elsewhere i (x :: h) := by
  intro y hy
  rcases List.mem_cons.mp hy with rfl | hy
  · exact hx
  · exact hh y hy

theorem isText_append_left {args : Arguments} {i : Nat} {h h' : History} {s : HeapString}
    (he : Elsewhere i h) : IsText args i (h ++ h') s ↔ IsText args i h' s := by
  constructor
  · rintro (hs | ⟨v, hv, hstring, hm⟩)
    · exact Or.inl hs
    · rcases List.mem_append.mp hm with hm | hm
      · exact absurd rfl (he _ hm v)
      · exact Or.inr ⟨v, hv, hstring, hm⟩
  · rintro (hs | ⟨v, hv, hstring, hm⟩)
    · exact Or.inl hs
    · exact Or.inr ⟨v, hv, hstring, List.mem_append_right _ hm⟩

theorem isText_append_right {args : Arguments} {i : Nat} {h h' : History} {s : HeapString}
    (he : Elsewhere i h') : IsText args i (h ++ h') s ↔ IsText args i h s := by
  constructor
  · rintro (hs | ⟨v, hv, hstring, hm⟩)
    · exact Or.inl hs
    · rcases List.mem_append.mp hm with hm | hm
      · exact Or.inr ⟨v, hv, hstring, hm⟩
      · exact absurd rfl (he _ hm v)
  · rintro (hs | ⟨v, hv, hstring, hm⟩)
    · exact Or.inl hs
    · exact Or.inr ⟨v, hv, hstring, List.mem_append_left _ hm⟩

theorem Text.elsewhere {i : Nat} {site : TextSite} (hsite : site ≠ .argument i) {v : Value}
    {h : History} {a : Option HeapString} (ht : Text site v h a) : Elsewhere i h := by
  cases ht with
  | itself s => exact elsewhere_nil i
  | asked a hv =>
      refine Elsewhere.cons (fun w heq => ?_) (elsewhere_nil i)
      injection heq with hsite'
      exact hsite hsite'

theorem HandleText.elsewhere {i : Nat} {site : TextSite} (hsite : site ≠ .argument i)
    {v : Handle} {h : History} {a : Option HeapString} (ht : HandleText site v h a) :
    Elsewhere i h := by
  cases ht with
  | empty => exact elsewhere_nil i
  | value ht => exact ht.elsewhere hsite

theorem Stringify.elsewhere (i : Nat) {v : Value} {h : History} {p : Option JavaObject}
    (hs : Stringify v h p) : Elsewhere i h := by
  cases hs with
  | called ht _ =>
      have hsite : TextSite.json ≠ .argument i := nofun
      exact .cons nofun (.cons nofun (.cons nofun (ht.elsewhere hsite)))
  | noFunction _ => exact .cons nofun (.cons nofun (.cons nofun (elsewhere_nil i)))

theorem StringPart.elsewhere {args : Arguments} {i j : Nat} (hij : j ≠ i) {h : History}
    {p : Option JavaObject} (hp : StringPart args j h p) : Elsewhere i h := by
  cases hp with
  | intro _ ht _ => exact ht.elsewhere fun heq => hij (TextSite.argument.inj heq)

theorem TaskPart.elsewhere (i : Nat) {args : Arguments} {h : History} {p : Option JavaObject}
    (ht : TaskPart args h p) : Elsewhere i h := by
  cases ht with
  | object _ _ hs => exact hs.elsewhere i
  | string _ _ => exact elsewhere_nil i
  | other _ _ _ => exact elsewhere_nil i

theorem DomPart.elsewhere (i : Nat) {args : Arguments} {h : History} {p : Option JavaObject}
    (ht : DomPart args h p) : Elsewhere i h := by
  cases ht with
  | object _ _ hs => exact hs.elsewhere i
  | other _ _ => exact elsewhere_nil i

/-- The parameter is what `NewStringUTF` makes of the string, which could be written. -/
theorem StringPart.eq {args : Arguments} {i : Nat} {h : History} {p : Option JavaObject}
    {s : HeapString} (hp : StringPart args i h p) (hs : IsText args i h s) :
    p = some (javaString s) ∧ s.tree.Writable := by
  obtain ⟨hv, ht, hwrites⟩ := hp
  rcases hs with hs | ⟨w, hw, hstring, hm⟩
  · cases hv.symm.trans hs
    cases ht with
    | itself => exact ⟨rfl, hwrites s rfl⟩
    | asked a hv => cases hv
  · cases hv.symm.trans hw
    cases ht with
    | itself => cases hstring
    | asked a _ =>
        cases List.mem_singleton.mp hm
        exact ⟨rfl, hwrites s rfl⟩

theorem elsewhere_java (i : Nat) (method : JavaMethod) (this : Option Nat)
    (params : List (Option JavaObject)) (flag : Int) :
    Elsewhere i [⟨.java method this params, flag⟩] :=
  .cons nofun (elsewhere_nil i)

theorem Elsewhere.append {i : Nat} {h h' : History} (hh : Elsewhere i h) (hh' : Elsewhere i h') :
    Elsewhere i (h ++ h') := by
  intro x hx
  rcases List.mem_append.mp hx with hx | hx
  · exact hh x hx
  · exact hh' x hx

/-- The only call of Java is the last exchange. -/
theorem eq_of_java_mem {h : History} (hh : NoJava h) {method : JavaMethod} {this : Option Nat}
    {params : List (Option JavaObject)} {flag : Int} {x : BridgeExchange}
    (hm : ⟨.java method this params, flag⟩ ∈ h ++ [x]) : ⟨.java method this params, flag⟩ = x := by
  rcases List.mem_append.mp hm with hm | hm
  · exact absurd trivial (hh _ hm)
  · exact List.mem_singleton.mp hm

/-- Argument `i` has a part of the history for itself, and a parameter. -/
def HasPart (args : Arguments) (h : History) (method : JavaMethod) (i : Nat) : Prop :=
  ∃ h' p, StringPart args i h' p ∧ (∀ s, IsText args i h s → IsText args i h' s) ∧
    ∀ {this params flag}, ⟨.java method this params, flag⟩ ∈ h → params[i]? = some p

section
variable {args : Arguments} {h : History}

/-- Where the string arguments of `callNative` are among its parameters. -/
theorem CallNativeRun.part (hr : CallNativeRun args h) {i : Nat} (hi : i ∈ [0, 2]) :
    HasPart args h .callNative i := by
  obtain @⟨h₀, h₁, h₂, p₀, p₁, p₂, this, flag, hp₀, hp₁, hp₂⟩ := hr
  have hjava : ∀ {this' params flag'}, ⟨.java .callNative this' params, flag'⟩ ∈
      h₀ ++ (h₁ ++ (h₂ ++ [⟨.java .callNative this [p₀, p₁, p₂], flag⟩])) →
        params = [p₀, p₁, p₂] := by
    intro this' params flag' hj
    rw [← List.append_assoc, ← List.append_assoc] at hj
    cases eq_of_java_mem ((hp₀.noJava.append hp₁.noJava).append hp₂.noJava) hj
    rfl
  simp only [List.mem_cons, List.not_mem_nil, or_false] at hi
  rcases hi with rfl | rfl
  · refine ⟨h₀, p₀, hp₀, fun s hs => ?_, fun hj => hjava hj ▸ rfl⟩
    rwa [isText_append_right ((hp₁.elsewhere 0).append ((hp₂.elsewhere (by decide)).append
      (elsewhere_java 0 _ _ _ _)))] at hs
  · refine ⟨h₂, p₂, hp₂, fun s hs => ?_, fun hj => hjava hj ▸ rfl⟩
    rwa [isText_append_left (hp₀.elsewhere (by decide)), isText_append_left (hp₁.elsewhere 2),
      isText_append_right (elsewhere_java 2 _ _ _ _)] at hs

theorem CallAddElementRun.part (hr : CallAddElementRun args h) {i : Nat}
    (hi : i ∈ [0, 1, 3, 4]) : HasPart args h .callAddElement i := by
  obtain @⟨h₀, h₁, h₂, h₃, h₄, p₀, p₁, p₂, p₃, p₄, this, flag, hp₀, hp₁, hp₂, hp₃, hp₄⟩ := hr
  have hjava : ∀ {this' params flag'}, ⟨.java .callAddElement this' params, flag'⟩ ∈
      h₀ ++ (h₁ ++ (h₂ ++ (h₃ ++ (h₄ ++
        [⟨.java .callAddElement this [p₀, p₁, p₂, p₃, p₄], flag⟩])))) →
        params = [p₀, p₁, p₂, p₃, p₄] := by
    intro this' params flag' hj
    rw [← List.append_assoc, ← List.append_assoc, ← List.append_assoc, ← List.append_assoc] at hj
    cases eq_of_java_mem ((((hp₀.noJava.append hp₁.noJava).append hp₂.noJava).append
      hp₃.noJava).append hp₄.noJava) hj
    rfl
  simp only [List.mem_cons, List.not_mem_nil, or_false] at hi
  rcases hi with rfl | rfl | rfl | rfl
  · refine ⟨h₀, p₀, hp₀, fun s hs => ?_, fun hj => hjava hj ▸ rfl⟩
    rwa [isText_append_right ((hp₁.elsewhere (by decide)).append ((hp₂.elsewhere 0).append
      ((hp₃.elsewhere (by decide)).append ((hp₄.elsewhere (by decide)).append
        (elsewhere_java 0 _ _ _ _)))))] at hs
  · refine ⟨h₁, p₁, hp₁, fun s hs => ?_, fun hj => hjava hj ▸ rfl⟩
    rwa [isText_append_left (hp₀.elsewhere (by decide)), isText_append_right
      ((hp₂.elsewhere 1).append ((hp₃.elsewhere (by decide)).append
        ((hp₄.elsewhere (by decide)).append (elsewhere_java 1 _ _ _ _))))] at hs
  · refine ⟨h₃, p₃, hp₃, fun s hs => ?_, fun hj => hjava hj ▸ rfl⟩
    rwa [isText_append_left (hp₀.elsewhere (by decide)), isText_append_left
      (hp₁.elsewhere (by decide)), isText_append_left (hp₂.elsewhere 3), isText_append_right
      ((hp₄.elsewhere (by decide)).append (elsewhere_java 3 _ _ _ _))] at hs
  · refine ⟨h₄, p₄, hp₄, fun s hs => ?_, fun hj => hjava hj ▸ rfl⟩
    rwa [isText_append_left (hp₀.elsewhere (by decide)), isText_append_left
      (hp₁.elsewhere (by decide)), isText_append_left (hp₂.elsewhere 4), isText_append_left
      (hp₃.elsewhere (by decide)), isText_append_right (elsewhere_java 4 _ _ _ _)] at hs

theorem SetTimeoutNativeRun.part (hr : SetTimeoutNativeRun args h) {i : Nat}
    (hi : i ∈ [0, 1]) : HasPart args h .setTimeoutNative i := by
  obtain @⟨h₀, h₁, p₀, p₁, this, flag, hp₀, hp₁⟩ := hr
  have hjava : ∀ {this' params flag'}, ⟨.java .setTimeoutNative this' params, flag'⟩ ∈
      h₀ ++ (h₁ ++ [⟨.java .setTimeoutNative this [p₀, p₁], flag⟩]) → params = [p₀, p₁] := by
    intro this' params flag' hj
    rw [← List.append_assoc] at hj
    cases eq_of_java_mem (hp₀.noJava.append hp₁.noJava) hj
    rfl
  simp only [List.mem_cons, List.not_mem_nil, or_false] at hi
  rcases hi with rfl | rfl
  · refine ⟨h₀, p₀, hp₀, fun s hs => ?_, fun hj => hjava hj ▸ rfl⟩
    rwa [isText_append_right ((hp₁.elsewhere (by decide)).append
      (elsewhere_java 0 _ _ _ _))] at hs
  · refine ⟨h₁, p₁, hp₁, fun s hs => ?_, fun hj => hjava hj ▸ rfl⟩
    rwa [isText_append_left (hp₀.elsewhere (by decide)),
      isText_append_right (elsewhere_java 1 _ _ _ _)] at hs

/-- The parameter of a string argument. -/
theorem HasPart.param {method : JavaMethod} {i : Nat} (hp : HasPart args h method i)
    {s : HeapString} (hs : IsText args i h s) {this : Option Nat}
    {params : List (Option JavaObject)} {flag : Int}
    (hj : ⟨.java method this params, flag⟩ ∈ h) : params[i]? = some (some (javaString s)) := by
  obtain ⟨h', p, hpart, htext, hparam⟩ := hp
  rw [hparam hj, (hpart.eq (htext s hs)).1]

/-- A callback that has returned has written its texts. -/
theorem HasPart.textsWritable {method : JavaMethod} {sites : List Nat}
    (hp : ∀ {i}, i ∈ sites → HasPart args h method i) : TextsWritable args sites h := by
  intro i hi s hs
  obtain ⟨h', p, hpart, htext, -⟩ := hp hi
  exact (hpart.eq (htext s hs)).2

end

/-! ### In every run -/

/-- Java reads the code units of `s` from the parameter. -/
def ArrivesIntact (params : List (Option JavaObject)) (i : Nat) (s : HeapString) : Prop :=
  ∃ bytes, params[i]? = some (some (.stringUTF bytes)) ∧ readModified bytes = some s.units

theorem readModified_javaString (s : HeapString) : readModified (cString (utf8 s.units)) =
    some s.units ↔ (0 : UInt16) ∉ s.units ∧ ¬ HasPair s.units := by
  rw [readModified_eq_some_iff, ← cString_utf8_eq_modifiedUtf8_iff s.units [], cString_append]

/-- Where a string has become the parameter of a call of Java, by any finished
invocation of a callback. -/
theorem param_of_isText {entry : Entry} {s t : World} {h : History} {o : Outcome Returned}
    {rely : Exchange Answer → World → World → Prop} (hr : Runs rely (body entry s) h o t)
    {method : JavaMethod} {args : Arguments} (hentry : entry.callback = some (method, args))
    {i : Nat} (hsite : (method, i) ∈ stringSites) {str : HeapString} (hs : IsText args i h str)
    {this : Option Nat} {params : List (Option JavaObject)} {flag : Int}
    (hj : ⟨.java method this params, flag⟩ ∈ h) : params[i]? = some (some (javaString str)) := by
  simp only [stringSites, List.mem_cons, Prod.mk.injEq, List.not_mem_nil, or_false] at hsite
  cases entry with
  | callNative args' =>
      cases hentry
      rcases runs_callNative hr with ⟨-, hrun⟩ | ⟨-, hno⟩
      · exact (hrun.part (by simpa using hsite)).param hs hj
      · exact absurd trivial (hno _ hj)
  | callAddElement args' =>
      cases hentry
      rcases runs_callAddElement hr with ⟨-, hrun⟩ | ⟨-, hno⟩
      · exact (hrun.part (by simpa using hsite)).param hs hj
      · exact absurd trivial (hno _ hj)
  | setTimeoutNative args' =>
      cases hentry
      rcases runs_setTimeoutNative hr with ⟨-, hrun⟩ | ⟨-, hno⟩
      · exact (hrun.part (by simpa using hsite)).param hs hj
      · exact absurd trivial (hno _ hj)
  | _ => cases hentry

/-- In some run, a callback calls Java with the string `s` as argument `i`. -/
def Passes (platform : Platform) (method : JavaMethod) (i : Nat) (s : HeapString)
    (params : List (Option JavaObject)) : Prop :=
  ∃ c : BridgeConfig, AnyRun platform c ∧ ∃ inv ∈ c.log, ∃ args this flag,
    inv.entry.callback = some (method, args) ∧ IsText args i inv.history s ∧
      ⟨.java method this params, flag⟩ ∈ inv.history

/-- In every run, a string that a callback passes to Java as a string arrives as it is
exactly when it has no U+0000 and no surrogate pair. -/
theorem arrivesIntact_iff {platform : Platform} {method : JavaMethod} {i : Nat}
    (hsite : (method, i) ∈ stringSites) {s : HeapString} {params : List (Option JavaObject)}
    (hp : Passes platform method i s params) :
    ArrivesIntact params i s ↔ (0 : UInt16) ∉ s.units ∧ ¬ HasPair s.units := by
  obtain ⟨c, hc, inv, hinv, args, this, flag, hentry, hs, hj⟩ := hp
  have hparam := param_of_isText (runs_of_reachable hc hinv) hentry hsite hs hj
  rw [← readModified_javaString s]
  constructor
  · rintro ⟨bytes, hbytes, hread⟩
    cases hparam.symm.trans hbytes
    exact hread
  · intro hread
    exact ⟨_, hparam, hread⟩

/-- `setTimeoutNative(id, "1")` during a call of `execJS`. -/
theorem passes_setTimeoutNative {id : HeapString} {params : List (Option JavaObject)}
    (hj : (JavaMethod.setTimeoutNative, some 3, params, 0) ∈ javaCalls
      ((body (.setTimeoutNative ⟨[.string id, .string (.literal "1")]⟩) (.calling .plain)).play
        Question.usual).1) : Passes .plain .setTimeoutNative 0 id params := by
  obtain ⟨c, hc, hinv⟩ := anyRun_play
    (.setTimeoutNative ⟨[.string id, .string (.literal "1")]⟩) Question.usual
  exact ⟨c, hc, _, hinv, _, _, _, rfl, Or.inl rfl, mem_of_mem_javaCalls hj⟩

theorem arrivesIntact_ascii :
    ArrivesIntact [some (.stringUTF [0x61]), some (.stringUTF [0x31])] 0 (.literal "a") ↔
      (0 : UInt16) ∉ (HeapString.literal "a").units ∧
        ¬ HasPair (HeapString.literal "a").units :=
  arrivesIntact_iff (by decide) (passes_setTimeoutNative (by decide +kernel))

/-- The string of one U+0000 arrives as the empty string. -/
theorem not_arrivesIntact : ¬ ∀ {platform method i s params},
    (method, i) ∈ stringSites → Passes platform method i s params → ArrivesIntact params i s := by
  intro h
  have hp : Passes .plain .setTimeoutNative 0 (.literal "\x00")
      [some (.stringUTF []), some (.stringUTF [0x31])] :=
    passes_setTimeoutNative (by decide +kernel)
  obtain ⟨bytes, hbytes, hread⟩ := h (by decide) hp
  cases hbytes
  cases hread

end WeexBridge
