/-
# Payloads and failing conversions

`callNative` and `callAddElement` copy one block of code for their payload.  The
copies agree on every value but strings, for which `callAddElement` passes `NULL`.

Both pass on what conversions leave: `NULL` where `ToString` throws, and the bytes
of a placeholder, or of `undefined`, where `JSON.stringify` gives no text.
-/
import WeexBridge.Bridge.Fidelity

namespace WeexBridge

open Reentrant CodeUnits

/-! ## The two copies of the block -/

/-- Started in `s`, the block hands over `payload`, after the exchanges of `h`. -/
def HandsOver (block : Bridge JObject) (s : World) (h : History) (payload : Option JavaObject) :
    Prop :=
  ∃ r t, Runs (fun _ _ _ => True) (block s) h (.returned r) t ∧ JObject.content r = payload

/-- What is no string goes the same way in both callbacks. -/
theorem taskArgument_eq_domArgument {v : Value} (hv : v.isString = false) :
    Bridge.taskArgument (some v) = Bridge.domArgument (some v) := by
  cases v with
  | string s => cases hv
  | _ => rfl

/-- Both callbacks marshal the value in the same way. -/
def SamePayload (v : Value) : Prop :=
  ∀ args args' : Arguments, args.get 1 = some v → args'.get 2 = some v → ∀ s h payload,
    HandsOver (Bridge.taskArgument (args.get 1)) s h payload ↔
      HandsOver (Bridge.domArgument (args'.get 2)) s h payload

theorem not_samePayload_string (text : HeapString) : ¬ SamePayload (.string text) := by
  intro hsame
  have hdom : HandsOver (Bridge.domArgument (some (.string text))) (.fresh .plain) [] none :=
    ⟨none, _, ⟨rfl, rfl, rfl⟩, rfl⟩
  obtain ⟨r, t, hrun, hr⟩ := (hsame ⟨[.undefined, .string text]⟩
    ⟨[.undefined, .undefined, .string text]⟩ rfl rfl _ _ _).mpr hdom
  have htask : TaskPart _ [] (JObject.content r) :=
    Bridge.returns_taskArgument ⟨[.undefined, .string text]⟩ _ _ _ _ hrun
  rw [hr] at htask
  cases htask with
  | object hv hobject _ =>
      cases hv
      cases hobject
  | other hv _ hstring =>
      cases hv
      cases hstring

/-- The callbacks marshal a value in the same way exactly when it is no string. -/
theorem samePayload_iff (v : Value) : SamePayload v ↔ v.isString = false := by
  constructor
  · intro hsame
    cases v with
    | string text => exact absurd hsame (not_samePayload_string text)
    | _ => rfl
  · intro hv args args' ha ha' s h payload
    rw [ha, ha', taskArgument_eq_domArgument hv]

/-- A string that `callNative` passes on is `NULL` for `callAddElement`. -/
theorem not_samePayload : ¬ ∀ v : Value, SamePayload v := by
  intro h
  exact not_samePayload_string (.literal "a") (h _)

/-! ## Conversions -/

/-- The exchange is a conversion, or part of one, that throws or yields no text. -/
def Failed : BridgeExchange → Prop
  | ⟨.toString _ _, a⟩ => a = none
  | ⟨.get _ _ _, a⟩ => ∀ v, a = some v → v.isSmi = true
  | ⟨.call _ _ _ _, a⟩ => ∀ s, a ≠ some (.string s)
  | ⟨.callNonFunction _ _ _ _, _⟩ => True
  | _ => False

/-- The parameter is the conversion of the argument to a string. -/
def IsStringParam (args : Arguments) (i : Nat) (h : History) (p : Option JavaObject) : Prop :=
  ∃ s, IsText args i h s ∧ p = some (javaString s)

/-- The parameter is the text that `JSON.stringify` gave of the object. -/
def IsStringified (h : History) (v : Value) (p : Option JavaObject) : Prop :=
  ∃ callee receiver s, ⟨.call .jsonMember callee receiver [v], some (.string s)⟩ ∈ h ∧
    p = some (javaBytes (some s))

/-- The parameter is the conversion of a payload. -/
def IsPayload (args : Arguments) (i : Nat) (h : History) (p : Option JavaObject) : Prop :=
  ∃ v, args.get i = some v ∧ match v with
    | .string s => p = some (javaBytes (some s))
    | .object _ => IsStringified h v p
    | .function _ => IsStringified h v p
    | _ => p = none

/-- The parameters are the conversions of the arguments. -/
def AreConversions (args : Arguments) (h : History) :
    JavaMethod → List (Option JavaObject) → Prop
  | .callNative, [p₀, p₁, p₂] =>
      IsStringParam args 0 h p₀ ∧ IsPayload args 1 h p₁ ∧ IsStringParam args 2 h p₂
  | .callAddElement, [p₀, p₁, p₂, p₃, p₄] =>
      IsStringParam args 0 h p₀ ∧ IsStringParam args 1 h p₁ ∧ IsPayload args 2 h p₂ ∧
        IsStringParam args 3 h p₃ ∧ IsStringParam args 4 h p₄
  | _, _ => False

/-- The `TryCatch` of `Utf8Value` keeps what `ToString` throws. -/
def Question.IsCaught : Question → Prop
  | .toString _ _ => True
  | _ => False

/-- Java gets conversions only, and none at all when one fails: then the callback
returns, and what was thrown reaches JavaScript. -/
structure PassesConversions (method : JavaMethod) (args : Arguments) (h : History)
    (o : Outcome Returned) : Prop where
  converted : ∀ {this params flag}, ⟨.java method this params, flag⟩ ∈ h →
    AreConversions args h method params
  failed : (∃ x ∈ h, Failed x) → NoJava h ∧ o.isReturned = true ∧
    ∀ x ∈ h, Failed x → ¬ x.question.IsCaught

/-- Nothing fails. -/
def AllConverted (h : History) : Prop := ∀ x ∈ h, ¬ Failed x

theorem AllConverted.left {h h' : History} (ha : AllConverted (h ++ h')) : AllConverted h :=
  fun x hx => ha x (List.mem_append_left _ hx)

theorem AllConverted.right {h h' : History} (ha : AllConverted (h ++ h')) : AllConverted h' :=
  fun x hx => ha x (List.mem_append_right _ hx)

theorem IsStringParam.mono {args : Arguments} {i : Nat} {h h' : History} {p : Option JavaObject}
    (hle : h ⊆ h') (hp : IsStringParam args i h p) : IsStringParam args i h' p := by
  obtain ⟨s, hs, hp⟩ := hp
  exact ⟨s, hs.mono hle, hp⟩

theorem IsStringified.mono {h h' : History} {v : Value} {p : Option JavaObject}
    (hle : h ⊆ h') (hp : IsStringified h v p) : IsStringified h' v p := by
  obtain ⟨callee, receiver, s, hm, hp⟩ := hp
  exact ⟨callee, receiver, s, hle hm, hp⟩

theorem IsPayload.mono {args : Arguments} {i : Nat} {h h' : History} {p : Option JavaObject}
    (hle : h ⊆ h') (hp : IsPayload args i h p) : IsPayload args i h' p := by
  obtain ⟨v, hv, hp⟩ := hp
  refine ⟨v, hv, ?_⟩
  cases v with
  | object _ => exact IsStringified.mono hle hp
  | function _ => exact IsStringified.mono hle hp
  | _ => exact hp

/-! ### When nothing fails -/

theorem Text.some_of_allConverted {site : TextSite} {v : Value} {h : History}
    {a : Option HeapString} (ht : Text site v h a) (hh : AllConverted h) : ∃ s, a = some s := by
  cases ht with
  | itself s => exact ⟨s, rfl⟩
  | asked a _ =>
      cases a with
      | none => exact absurd rfl (hh _ List.mem_cons_self)
      | some s => exact ⟨s, rfl⟩

theorem StringPart.isStringParam {args : Arguments} {i : Nat} {h : History}
    {p : Option JavaObject} (hp : StringPart args i h p) (hh : AllConverted h) :
    IsStringParam args i h p := by
  obtain ⟨hv, ht, -⟩ := hp
  obtain ⟨s, rfl⟩ := ht.some_of_allConverted hh
  refine ⟨s, ?_, rfl⟩
  cases ht with
  | itself => exact Or.inl hv
  | asked _ hstring => exact Or.inr ⟨_, hv, hstring, List.mem_cons_self⟩

theorem Stringify.isStringified {v : Value} {h : History} {p : Option JavaObject}
    (hs : Stringify v h p) (hh : AllConverted h) : IsStringified h v p := by
  cases hs with
  | @called global json stringify receiver ret h a ht _ =>
      have hcall : ⟨.call .jsonMember stringify receiver [v], ret⟩ ∈
          jsonHead "stringify" global json stringify ++
            ⟨.call .jsonMember stringify receiver [v], ret⟩ :: h :=
        List.mem_append_right _ List.mem_cons_self
      have hret : ∃ s, ret = some (.string s) := by
        by_contra hno
        exact hh _ hcall fun s hs => hno ⟨s, hs⟩
      obtain ⟨s, rfl⟩ := hret
      cases ht with
      | value ht =>
          cases ht with
          | itself => exact ⟨stringify, receiver, s, hcall, rfl⟩
          | asked _ hstring => cases hstring
  | noFunction _ => exact absurd trivial (hh _ (List.mem_append_right _ List.mem_cons_self))

theorem TaskPart.isPayload {args : Arguments} {h : History} {p : Option JavaObject}
    (ht : TaskPart args h p) (hh : AllConverted h) : IsPayload args 1 h p := by
  cases ht with
  | @object v h p hv hobject hs =>
      refine ⟨v, hv, ?_⟩
      cases v with
      | object _ => exact hs.isStringified hh
      | function _ => exact hs.isStringified hh
      | _ => cases hobject
  | string hv _ => exact ⟨_, hv, rfl⟩
  | @other v hv hobject hstring =>
      refine ⟨v, hv, ?_⟩
      cases v with
      | string _ => cases hstring
      | object _ => cases hobject
      | function _ => cases hobject
      | _ => rfl

/-- For `callAddElement` this takes a payload that is no string. -/
theorem DomPart.isPayload {args : Arguments} {h : History} {p : Option JavaObject}
    (ht : DomPart args h p) (hh : AllConverted h) (hno : ∀ s, args.get 2 ≠ some (.string s)) :
    IsPayload args 2 h p := by
  cases ht with
  | @object v h p hv hobject hs =>
      refine ⟨v, hv, ?_⟩
      cases v with
      | object _ => exact hs.isStringified hh
      | function _ => exact hs.isStringified hh
      | _ => cases hobject
  | @other v hv hobject =>
      refine ⟨v, hv, ?_⟩
      cases v with
      | string s => exact absurd hv (hno s)
      | object _ => cases hobject
      | function _ => cases hobject
      | _ => rfl

theorem CallNativeRun.converted {args : Arguments} {h : History} (hr : CallNativeRun args h)
    (hh : AllConverted h) {this : Option Nat} {params : List (Option JavaObject)} {flag : Int}
    (hj : ⟨.java .callNative this params, flag⟩ ∈ h) :
    AreConversions args h .callNative params := by
  obtain ⟨h₀, h₁, h₂⟩ := hr
  have hh₁ := hh.right
  have hh₂ := hh₁.right
  rw [← List.append_assoc, ← List.append_assoc] at hj
  cases eq_of_java_mem ((h₀.noJava.append h₁.noJava).append h₂.noJava) hj
  refine ⟨(h₀.isStringParam hh.left).mono ?_, (h₁.isPayload hh₁.left).mono ?_,
    (h₂.isStringParam hh₂.left).mono ?_⟩
  all_goals
    intro x hx
    simp [hx]

theorem CallAddElementRun.converted {args : Arguments} {h : History}
    (hr : CallAddElementRun args h) (hh : AllConverted h)
    (hno : ∀ s, args.get 2 ≠ some (.string s)) {this : Option Nat}
    {params : List (Option JavaObject)} {flag : Int}
    (hj : ⟨.java .callAddElement this params, flag⟩ ∈ h) :
    AreConversions args h .callAddElement params := by
  obtain ⟨h₀, h₁, h₂, h₃, h₄⟩ := hr
  have hh₁ := hh.right
  have hh₂ := hh₁.right
  have hh₃ := hh₂.right
  have hh₄ := hh₃.right
  rw [← List.append_assoc, ← List.append_assoc, ← List.append_assoc, ← List.append_assoc] at hj
  cases eq_of_java_mem ((((h₀.noJava.append h₁.noJava).append h₂.noJava).append
    h₃.noJava).append h₄.noJava) hj
  refine ⟨(h₀.isStringParam hh.left).mono ?_, (h₁.isStringParam hh₁.left).mono ?_,
    (h₂.isPayload hh₂.left hno).mono ?_, (h₃.isStringParam hh₃.left).mono ?_,
    (h₄.isStringParam hh₄.left).mono ?_⟩
  all_goals
    intro x hx
    simp [hx]

/-- Whoever has returned has called Java. -/
theorem CallNativeRun.java_mem {args : Arguments} {h : History} (hr : CallNativeRun args h) :
    ∃ this params flag, ⟨.java .callNative this params, flag⟩ ∈ h := by
  obtain ⟨h₀, h₁, h₂⟩ := hr
  exact ⟨_, _, _, List.mem_append_right _ (List.mem_append_right _
    (List.mem_append_right _ List.mem_cons_self))⟩

/-- A string as payload is passed on as `NULL`. -/
theorem CallAddElementRun.java_mem {args : Arguments} {h : History}
    (hr : CallAddElementRun args h) : ∃ this p₀ p₁ p₂ p₃ p₄ flag,
      ⟨.java .callAddElement this [p₀, p₁, p₂, p₃, p₄], flag⟩ ∈ h ∧
        ∀ s, args.get 2 = some (.string s) → p₂ = none := by
  obtain ⟨h₀, h₁, h₂, h₃, h₄⟩ := hr
  refine ⟨_, _, _, _, _, _, _, List.mem_append_right _ (List.mem_append_right _
    (List.mem_append_right _ (List.mem_append_right _ (List.mem_append_right _
      List.mem_cons_self)))), fun s hs => ?_⟩
  cases h₂ with
  | object hv hobject _ =>
      cases hv.symm.trans hs
      cases hobject
  | other _ _ => rfl

/-! ### In every run -/

theorem PassesConversions.of_crashed {method : JavaMethod} {args : Arguments} {h : History}
    (hno : NoJava h) (hh : AllConverted h) : PassesConversions method args h .crashed where
  converted := fun hj => absurd trivial (hno _ hj)
  failed := fun ⟨x, hx, hf⟩ => absurd hf (hh x hx)

/-- A failing conversion is too late to keep the bridge from calling Java, unless it
crashes. -/
theorem PassesConversions.allConverted {method : JavaMethod} {args : Arguments} {h : History}
    {o : Outcome Returned} (hp : PassesConversions method args h o)
    (hjava : o.isReturned = true → ∃ x ∈ h, x.question.IsJava) : AllConverted h := by
  intro x hx hf
  obtain ⟨hno, hreturned, -⟩ := hp.failed ⟨x, hx, hf⟩
  obtain ⟨y, hy, hyj⟩ := hjava hreturned
  exact hno y hy hyj

theorem passesConversions_callNative {rely : Exchange Answer → World → World → Prop}
    {args : Arguments} {s t : World} {h : History} {o : Outcome Returned}
    (hr : Runs rely (body (.callNative args) s) h o t) :
    PassesConversions .callNative args h o ↔ AllConverted h := by
  rcases runs_callNative hr with ⟨ho, hrun⟩ | ⟨rfl, hno⟩
  · constructor
    · intro hp
      obtain ⟨this, params, flag, hj⟩ := hrun.java_mem
      exact hp.allConverted fun _ => ⟨_, hj, trivial⟩
    · intro hh
      exact ⟨hrun.converted hh, fun ⟨x, hx, hf⟩ => absurd hf (hh x hx)⟩
  · exact ⟨fun hp => hp.allConverted nofun, PassesConversions.of_crashed hno⟩

theorem passesConversions_callAddElement {rely : Exchange Answer → World → World → Prop}
    {args : Arguments} {s t : World} {h : History} {o : Outcome Returned}
    (hr : Runs rely (body (.callAddElement args) s) h o t) :
    PassesConversions .callAddElement args h o ↔ AllConverted h ∧
      ∀ str, args.get 2 = some (.string str) → ¬ TextsWritable args [0, 1, 3, 4] h := by
  rcases runs_callAddElement hr with ⟨ho, hrun⟩ | ⟨rfl, hno⟩
  · constructor
    · intro hp
      obtain ⟨this, p₀, p₁, p₂, p₃, p₄, flag, hj, hnull⟩ := hrun.java_mem
      refine ⟨hp.allConverted fun _ => ⟨_, hj, trivial⟩, fun str hstr => ?_⟩
      obtain ⟨-, -, ⟨v, hv, hp₂⟩, -⟩ := hp.converted hj
      cases hv.symm.trans hstr
      cases hp₂.symm.trans (hnull str hstr)
    · intro ⟨hh, hstring⟩
      have hno : ∀ str, args.get 2 ≠ some (.string str) := fun str hstr =>
        hstring str hstr (HasPart.textsWritable hrun.part)
      exact ⟨hrun.converted hh hno, fun ⟨x, hx, hf⟩ => absurd hf (hh x hx)⟩
  · constructor
    · intro hp
      exact ⟨hp.allConverted nofun, fun str hstr => not_writable_of_crashed hstr rfl hr⟩
    · intro hh
      exact PassesConversions.of_crashed hno hh.1

/-- In every run, `callNative` and `callAddElement` pass on conversions only, and stop at
one that fails, exactly when none fails and the payload of `callAddElement` is no string:
or one of its other texts cannot be written, and Java is not called at all. -/
theorem passesConversions_iff {platform : Platform} {c : BridgeConfig} (hc : AnyRun platform c)
    {inv : BridgeInvocation} (hinv : inv ∈ c.log) {method : JavaMethod} {args : Arguments}
    (hentry : inv.entry.callback = some (method, args)) (hmethod : method ≠ .setTimeoutNative) :
    PassesConversions method args inv.history inv.outcome ↔
      AllConverted inv.history ∧
        (method = .callAddElement → ∀ str, args.get 2 = some (.string str) →
          ¬ TextsWritable args [0, 1, 3, 4] inv.history) := by
  have hr := runs_of_reachable hc hinv
  generalize inv.entry = entry at hr hentry
  cases entry with
  | callNative args' =>
      cases hentry
      rw [passesConversions_callNative hr]
      exact ⟨fun hh => ⟨hh, nofun⟩, And.left⟩
  | callAddElement args' =>
      cases hentry
      rw [passesConversions_callAddElement hr]
      exact ⟨fun hh => ⟨hh.1, fun _ => hh.2⟩, fun hh => ⟨hh.1, hh.2 rfl⟩⟩
  | setTimeoutNative args' =>
      cases hentry
      exact absurd rfl hmethod
  | _ => cases hentry

/-- `callNative("i", "t", "c")` during a call of `execJS`. -/
theorem passesConversions_strings :
    let args : Arguments :=
      ⟨[.string (.literal "i"), .string (.literal "t"), .string (.literal "c")]⟩
    let run := (body (.callNative args) (.calling .plain)).play Question.usual
    PassesConversions .callNative args run.1 run.2.1 := by
  intro args run
  obtain ⟨c, hc, hinv⟩ := anyRun_play (.callNative args) Question.usual
  have hlength : run.1.length = 1 := by decide +kernel
  have hj : (JavaMethod.callNative, some 3, [some (.stringUTF [0x69]), some (.byteArray [0x74]),
      some (.stringUTF [0x63])], 0) ∈ javaCalls run.1 := by decide +kernel
  obtain ⟨y, hy⟩ := List.length_eq_one_iff.mp hlength
  have hall : AllConverted run.1 := by
    intro x hx
    have hx' := mem_of_mem_javaCalls hj
    rw [hy] at hx hx'
    rw [List.mem_singleton.mp hx, ← List.mem_singleton.mp hx']
    exact id
  exact (passesConversions_iff hc hinv rfl nofun).mpr ⟨hall, nofun⟩

/-- An environment whose `toString` throws. -/
def Question.throwing : (question : Question) → Answer question
  | .toString _ _ => none
  | question => question.usual

/-- `callNative(o, "t", "c")` calls Java with `NULL` when `o.toString()` throws. -/
theorem not_passesConversions : ¬ ∀ {platform c}, AnyRun platform c → ∀ inv ∈ c.log,
    ∀ {method args}, inv.entry.callback = some (method, args) → method ≠ .setTimeoutNative →
      PassesConversions method args inv.history inv.outcome := by
  intro h
  obtain ⟨c, hc, hinv⟩ := anyRun_play
    (.callNative ⟨[.object 7, .string (.literal "t"), .string (.literal "c")]⟩) Question.throwing
  have hp := h hc _ hinv rfl nofun
  have hj : (JavaMethod.callNative, some 3, [none, some (.byteArray [0x74]),
      some (.stringUTF [0x63])], 0) ∈ javaCalls ((body (.callNative
        ⟨[.object 7, .string (.literal "t"), .string (.literal "c")]⟩)
          (.calling .plain)).play Question.throwing).1 := by decide +kernel
  obtain ⟨⟨s, -, hs⟩, -⟩ := hp.converted (mem_of_mem_javaCalls hj)
  cases hs

end WeexBridge
