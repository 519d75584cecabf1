/-
# Local references

All callbacks of one `execJS` share a frame of local references.  A callback that
returns has deleted the references it made, each of them once, whatever its
conversions ran in between.

The exception is `nativeLog`: where a lookup finds nothing it keeps the message.
-/
import WeexBridge.Bridge.Stable

namespace WeexBridge

open Reentrant

/-! ## Ownership -/

/-- The references of `objs`. -/
def refIds (objs : List JObject) : List Nat :=
  objs.flatMap fun r => (r.map LocalRef.id).toList

/-- `s'` has the references of `s`, and nothing has been deleted that was not live. -/
structure Balanced (s s' : World) : Prop where
  live : s'.localRefs.Perm s.localRefs
  strays : s'.strayDeletes = s.strayDeletes

theorem Balanced.refl (s : World) : Balanced s s := ⟨.refl _, rfl⟩

theorem Balanced.trans {s₁ s₂ s₃ : World} (h : Balanced s₁ s₂) (h' : Balanced s₂ s₃) :
    Balanced s₁ s₃ :=
  ⟨h'.live.trans h.live, h'.strays.trans h.strays⟩

/-- `s` has the references of `objs` besides those of `base`. -/
structure Owns (base : World) (objs : List JObject) (s : World) : Prop where
  live : s.localRefs.Perm (refIds objs ++ base.localRefs)
  strays : s.strayDeletes = base.strayDeletes

theorem owns_nil {base s : World} : Owns base [] s ↔ Balanced base s :=
  ⟨fun h => ⟨h.live, h.strays⟩, fun h => ⟨h.live, h.strays⟩⟩

theorem Owns.balanced {base s s' : World} {objs : List JObject} (h : Owns base objs s)
    (h' : Balanced s s') : Owns base objs s' :=
  ⟨h'.live.trans h.live, h'.strays.trans h.strays⟩

/-- The lookups the source tests have found something. -/
def Found (x : Exchange Answer) : Prop :=
  match x with
  | ⟨.findClass _, found⟩ => found = true
  | ⟨.getStaticMethodID _, found⟩ => found = true
  | _ => True

/-- `p` makes of the references of `objs` those of `objs'`. -/
def Owned (rely : Exchange Answer → World → World → Prop) (base : World) {α : Type}
    (objs : List JObject) (p : Bridge α) (objs' : α → List JObject) : Prop :=
  Triple rely (fun _ => True) (Owns base objs) p fun value s => Owns base (objs' value) s

section
variable {rely : Exchange Answer → World → World → Prop}
  (hrely : ∀ x s s', rely x s s' → Balanced s s') {base : World} {objs : List JObject}
  {α β : Type}

/-- `NULL` is no reference. -/
theorem Owned.pure (value : α) {objs' : α → List JObject}
    (h : refIds (objs' value) = refIds objs) : Owned rely base objs (Pure.pure value) objs' := by
  refine (Triple.pure value).strengthen fun {s} hs => ?_
  refine ⟨?_, hs.strays⟩
  rw [h]
  exact hs.live

theorem Owned.read (f : World → α) : Owned rely base objs (Program.read f) fun _ => objs :=
  Triple.read.strengthen id

theorem Owned.crash {objs' : α → List JObject} : Owned rely base objs Program.crash objs' :=
  Triple.crash.strengthen fun _ => trivial

theorem Owned.bind {p : Bridge α} {f : α → Bridge β} {objs₁ : α → List JObject}
    {objs₂ : β → List JObject} (hp : Owned rely base objs p objs₁)
    (hf : ∀ value, Owned rely base (objs₁ value) (f value) objs₂) :
    Owned rely base objs (p >>= f) objs₂ :=
  Triple.bind hp hf

/-- What touches no reference. -/
theorem Owned.modify {f : World → World} (hf : ∀ s, (f s).localRefs = s.localRefs)
    (hf' : ∀ s, (f s).strayDeletes = s.strayDeletes) :
    Owned rely base objs (Program.modify f) fun _ => objs :=
  Triple.modify.strengthen fun {s} hs => ⟨(hf s).symm ▸ hs.live, (hf' s).trans hs.strays⟩

theorem Owned.ite {c : Prop} [Decidable c] {p q : Bridge α} {objs' : α → List JObject}
    (hp : Owned rely base objs p objs') (hq : Owned rely base objs q objs') :
    Owned rely base objs (if c then p else q) objs' := by
  split_ifs
  · exact hp
  · exact hq

theorem Owned.newLocalRef (object : JavaObject) :
    Owned rely base objs (Bridge.newLocalRef object) fun r => some r :: objs :=
  fun _ hs => ⟨hs.live.cons _, hs.strays⟩

/-- An owned reference is live, so that deleting it is no stray delete. -/
theorem Owned.deleteLocalRef (r : JObject) (l₁ l₂ : List JObject) :
    Owned rely base (l₁ ++ r :: l₂) (Bridge.deleteLocalRef r) fun _ => l₁ ++ l₂ := by
  cases r with
  | none =>
      intro s hs
      refine ⟨?_, hs.strays⟩
      have hlive := hs.live
      simp only [refIds, List.flatMap_append, List.flatMap_cons, Option.map_none,
        Option.toList_none, List.nil_append] at hlive ⊢
      exact hlive
  | some r =>
      intro s hs
      have hids : (refIds (l₁ ++ some r :: l₂)).Perm (r.id :: refIds (l₁ ++ l₂)) := by
        simp only [refIds, List.flatMap_append, List.flatMap_cons, Option.map_some,
          Option.toList_some, List.singleton_append]
        exact List.perm_middle
      have hlive : s.localRefs.Perm (r.id :: (refIds (l₁ ++ l₂) ++ base.localRefs)) :=
        hs.live.trans (hids.append_right _)
      refine ⟨?_, ?_⟩
      · have herase := hlive.erase r.id
        rwa [List.erase_cons_head] at herase
      · have hmem : r.id ∈ s.localRefs := hlive.symm.subset List.mem_cons_self
        show (if r.id ∈ s.localRefs then s.strayDeletes else s.strayDeletes + 1) = _
        rw [if_pos hmem]
        exact hs.strays

theorem Owned.newLocalObject (object : Option JavaObject) :
    Owned rely base objs (Bridge.newLocalObject object) fun r => r :: objs := by
  cases object with
  | none => exact Owned.pure none rfl
  | some object => exact (Owned.newLocalRef object).bind fun r => Owned.pure (some r) rfl

theorem Owned.newStringUTF (memory : Option (List UInt8)) :
    Owned rely base objs (Bridge.newStringUTF memory) fun r => r :: objs := by
  cases memory with
  | none => exact Owned.pure none rfl
  | some memory => exact (Owned.newLocalRef _).bind fun r => Owned.pure (some r) rfl

theorem Owned.newByteArray (memory : List UInt8) :
    Owned rely base objs (Bridge.newByteArray memory) fun r => r :: objs := by
  simp only [Bridge.newByteArray]
  split_ifs
  · exact Owned.crash
  · exact (Owned.newLocalRef _).bind fun r => Owned.pure (some r) rfl

theorem Owned.v8String2JString (value : List UInt16 × Nat) :
    Owned rely base objs (Bridge.v8String2JString value) fun r => r :: objs :=
  (Owned.newStringUTF _).ite ((Owned.newLocalRef _).bind fun r => Owned.pure (some r) rfl)

theorem Owned.store (var : GlobalHandle) (value : Handle) :
    Owned rely base objs (Bridge.store var value) fun _ => objs :=
  Owned.modify (fun s => by cases var <;> rfl) (fun s => by cases var <;> rfl)

theorem Owned.use (var : GlobalHandle) : Owned rely base objs (Bridge.use var) fun _ => objs :=
  Owned.bind (Owned.modify (fun _ => rfl) fun _ => rfl) fun _ => Owned.read _

theorem Owned.getStringUTFChars (str : Option (List UInt16)) :
    Owned rely base objs (Bridge.getStringUTFChars str) fun _ => objs := by
  cases str with
  | none => exact Owned.pure _ rfl
  | some units =>
      exact (Owned.read _).bind fun _ =>
        Owned.bind (Owned.modify (fun _ => rfl) fun _ => rfl) fun _ => Owned.pure _ rfl

theorem Owned.releaseStringUTFChars (chars : Option (Nat × List UInt8)) :
    Owned rely base objs (Bridge.releaseStringUTFChars chars) fun _ => objs := by
  cases chars with
  | none => exact Owned.pure _ rfl
  | some chars => exact Owned.modify (fun _ => rfl) fun _ => rfl

/-- A frame goes with all that is left in it. -/
theorem Owned.withLocalFrame {code : Bridge α}
    (hc : Triple rely (fun _ => True) (Owns { base with localRefs := [] } []) code
      fun _ s => s.strayDeletes = base.strayDeletes) :
    Owned rely base objs (Bridge.withLocalFrame code) fun _ => objs := by
  intro s hs
  refine (hc { s with localRefs := [] } ⟨.refl _, hs.strays⟩).bind fun {value t} ht => ?_
  exact ⟨hs.live, ht⟩

theorem Owned.strays {p : Bridge α} {objs' : α → List JObject}
    (hp : Owned rely base objs p objs') : Triple rely (fun _ => True) (Owns base objs) p
      fun _ s => s.strayDeletes = base.strayDeletes :=
  hp.consequence id fun hs => hs.strays

theorem strays_withHandleScope {n : Nat} {code : Bridge α}
    (hc : Triple rely (fun _ => True) (Owns base objs) code fun _ s => s.strayDeletes = n) :
    Triple rely (fun _ => True) (Owns base objs) (Bridge.withHandleScope code)
      fun _ s => s.strayDeletes = n :=
  Triple.bind (Owned.modify (fun _ => rfl) fun _ => rfl) fun _ => Triple.bind hc
    fun _ _ hs => hs

theorem Owned.withHandleScope {code : Bridge α} {objs' : α → List JObject}
    (hc : Owned rely base objs code objs') :
    Owned rely base objs (Bridge.withHandleScope code) objs' :=
  Owned.bind (Owned.modify (fun _ => rfl) fun _ => rfl) fun _ => hc.bind fun _ =>
    Owned.bind (Owned.modify (fun _ => rfl) fun _ => rfl) fun _ => Owned.pure _ rfl

theorem Owned.doubleArgument (data : Option JavaObject) :
    Owned rely base objs (Bridge.doubleArgument data) fun _ => objs := by
  refine (Owned.read _).bind fun cached => Owned.ite ?_ ?_
  · refine (Owned.newLocalRef _).bind fun jDoubleClazz => ?_
    refine Owned.bind (Owned.modify (fun _ => rfl) fun _ => rfl) fun _ => ?_
    refine (Owned.deleteLocalRef (some jDoubleClazz) [] objs).bind fun _ => ?_
    split
    · exact Owned.pure _ rfl
    · exact Owned.crash
  · split
    · exact Owned.pure _ rfl
    · exact Owned.crash

theorem Owned.jString2V8String (str : Option (List UInt16)) :
    Owned rely base objs (Bridge.jString2V8String str) fun _ => objs := by
  intro s hs
  obtain ⟨text, n, hrun, -⟩ := Bridge.jString2V8String_eq str s
  rw [hrun]
  exact ⟨hs.live, hs.strays⟩

theorem Owned.onUnload : Owned rely base objs Bridge.onUnload fun _ => objs := by
  have hdelete (r : Option Nat) :
      Owned rely base objs (Bridge.deleteGlobalRef r) fun _ => objs := by
    cases r with
    | none => exact Owned.pure _ rfl
    | some r => exact Owned.modify (fun _ => rfl) fun _ => rfl
  have hdispose (context : Option Context) :
      Owned rely base objs (Bridge.dispose context) fun _ => objs := by
    cases context with
    | none => exact Owned.pure _ rfl
    | some context => exact Owned.modify (fun _ => rfl) fun _ => rfl
  exact (Owned.read _).bind fun _ => (hdispose _).bind fun _ => (Owned.read _).bind fun _ =>
    (hdelete _).bind fun _ => (Owned.read _).bind fun _ => hdelete _

theorem Owned.setEnvironment (name value : Option (List UInt16)) :
    Owned rely base objs (Bridge.setEnvironment name value) fun _ => objs := by
  refine (Owned.jString2V8String value).bind fun text => ?_
  cases name with
  | none => exact Triple.crash.strengthen fun _ => trivial
  | some name =>
      cases text with
      | none => exact Triple.crash.strengthen fun _ => trivial
      | some text => exact Owned.modify (fun _ => rfl) fun _ => rfl

include hrely

/-- Whatever is owned, asking keeps it. -/
theorem asking_owns (base : World) (objs : List JObject) :
    Asking rely (fun _ => True) (Owns base objs) where
  inv _ := trivial
  rely hx hs := hs.balanced (hrely _ _ _ hx)

/-! ## Callbacks -/

theorem Owned.newStringOf (args : Arguments) (i : Nat) :
    Owned rely base objs (Bridge.newStringOf args i) fun r => r :: objs :=
  Owned.bind ((asking_owns hrely base objs).utf8Value _ _) fun _ => Owned.newStringUTF _

theorem Owned.stringArgument (args : Arguments) (i : Nat) :
    Owned rely base objs (Bridge.stringArgument args i) fun r => r :: objs :=
  (Owned.newStringOf hrely args i).ite (Owned.pure none rfl)

theorem Owned.stringifyToBytes (arg : Handle) :
    Owned rely base objs (Bridge.stringifyToBytes arg) fun r => r :: objs := by
  have h := asking_owns hrely base objs
  exact Owned.bind h.globalObject fun _ => Owned.bind (h.objectGet _ _ _) fun _ =>
    (Owned.store _ _).bind fun _ => (Owned.use _).bind fun _ =>
      Owned.bind (h.objectGet _ _ _) fun _ => (Owned.store _ _).bind fun _ =>
        (Owned.use _).bind fun _ => (Owned.use _).bind fun _ =>
          Owned.bind (h.functionCall _ _ _ _) fun _ => Owned.bind (h.utf8Value _ _) fun _ =>
            Owned.newByteArray _

theorem Owned.stringToBytes (i : Nat) (arg : Handle) :
    Owned rely base objs (Bridge.stringToBytes i arg) fun r => r :: objs := by
  refine Owned.bind ((asking_owns hrely base objs).utf8Value _ _) fun tasks => ?_
  cases tasks with
  | none => exact Owned.crash
  | some tasks => exact Owned.newByteArray tasks

theorem Owned.taskArgument (arg : Handle) :
    Owned rely base objs (Bridge.taskArgument arg) fun r => r :: objs := by
  cases arg with
  | none => exact Owned.pure none rfl
  | some v =>
      refine Owned.ite (Owned.stringifyToBytes hrely _) ?_
      exact Owned.ite (Owned.stringToBytes hrely _ _) (Owned.pure none rfl)

theorem Owned.domArgument (arg : Handle) :
    Owned rely base objs (Bridge.domArgument arg) fun r => r :: objs := by
  cases arg with
  | none => exact Owned.crash
  | some v => exact Owned.ite (Owned.stringifyToBytes hrely _) (Owned.pure none rfl)

theorem Owned.callJava (method : JavaMethod) (args : List JObject) :
    Owned rely base objs (Bridge.callJava method args) fun _ => objs :=
  (asking_owns hrely base objs).callJava method args

theorem Owned.callNative (args : Arguments) :
    Owned rely base [] (Bridge.callNative args) fun _ => [] := by
  refine (Owned.stringArgument hrely args 0).bind fun jInstanceId => ?_
  refine (Owned.taskArgument hrely _).bind fun jTaskString => ?_
  refine (Owned.stringArgument hrely args 2).bind fun jCallback => ?_
  refine Owned.bind (Owned.modify (fun _ => rfl) fun _ => rfl) fun _ => ?_
  refine (Owned.callJava hrely _ _).bind fun flag => ?_
  refine (Owned.deleteLocalRef jTaskString [jCallback] [jInstanceId]).bind fun _ => ?_
  refine (Owned.deleteLocalRef jInstanceId [jCallback] []).bind fun _ => ?_
  exact (Owned.deleteLocalRef jCallback [] []).bind fun _ => Owned.pure _ rfl

theorem Owned.callAddElement (args : Arguments) :
    Owned rely base [] (Bridge.callAddElement args) fun _ => [] := by
  refine (Owned.stringArgument hrely args 0).bind fun jInstanceId => ?_
  refine (Owned.stringArgument hrely args 1).bind fun jref => ?_
  refine (Owned.domArgument hrely _).bind fun jdomString => ?_
  refine (Owned.stringArgument hrely args 3).bind fun jindex => ?_
  refine (Owned.stringArgument hrely args 4).bind fun jCallback => ?_
  refine Owned.bind (Owned.modify (fun _ => rfl) fun _ => rfl) fun _ => ?_
  refine (Owned.callJava hrely _ _).bind fun flag => ?_
  refine (Owned.deleteLocalRef jInstanceId [jCallback, jindex, jdomString, jref] []).bind
    fun _ => ?_
  refine (Owned.deleteLocalRef jref [jCallback, jindex, jdomString] []).bind fun _ => ?_
  refine (Owned.deleteLocalRef jdomString [jCallback, jindex] []).bind fun _ => ?_
  refine (Owned.deleteLocalRef jindex [jCallback] []).bind fun _ => ?_
  exact (Owned.deleteLocalRef jCallback [] []).bind fun _ => Owned.pure _ rfl

theorem Owned.setTimeoutNative (args : Arguments) :
    Owned rely base [] (Bridge.setTimeoutNative args) fun _ => [] := by
  refine (Owned.newStringOf hrely args 0).bind fun jCallbackID => ?_
  refine (Owned.newStringOf hrely args 1).bind fun jTime => ?_
  refine Owned.bind (Owned.modify (fun _ => rfl) fun _ => rfl) fun _ => ?_
  refine (Owned.callJava hrely _ _).bind fun _ => ?_
  refine (Owned.deleteLocalRef jCallbackID [jTime] []).bind fun _ => ?_
  exact (Owned.deleteLocalRef jTime [] []).bind fun _ => Owned.pure _ rfl

/-! ## `nativeLog` -/

section
variable (hfound : ∀ x s s', rely x s s' → Found x)
include hfound

theorem Owned.lookUpLogMethod : Triple rely (fun _ => True) (Owns base objs)
    Bridge.lookUpLogMethod fun found s => found = true ∧ Owns base objs s := by
  intro s hs
  show Meets _ _ _ ((if s.jLogMethodId then _ else _ : Bridge Bool) s)
  split_ifs
  · exact ⟨rfl, hs⟩
  · refine ⟨trivial, fun found s' hx => ⟨hfound _ _ _ hx, ?_, ?_⟩⟩
    · exact (hs.balanced (hrely _ _ _ hx)).live
    · exact (hs.balanced (hrely _ _ _ hx)).strays

theorem Owned.sendLog (strMsg : JObject) :
    Owned rely base [strMsg] (Bridge.sendLog strMsg) fun _ => [] := by
  have hclass : Triple rely (fun _ => True) (Owns base [strMsg])
      (Bridge.ask (.findClass "com/taobao/weex/utils/WXLogUtils"))
      fun found s => found = true ∧ Owns base [strMsg] s :=
    fun s hs => ⟨trivial, fun found s' hx => ⟨hfound _ _ _ hx, hs.balanced (hrely _ _ _ hx)⟩⟩
  refine Triple.bind hclass fun found s => ?_
  rintro ⟨rfl, hs⟩
  refine (Owned.newLocalRef _).bind (fun clazz => ?_) s hs
  refine Triple.bind (Owned.lookUpLogMethod hrely hfound) fun found s => ?_
  rintro ⟨rfl, hs⟩
  refine (Owned.newStringUTF _).bind (fun strTag => ?_) s hs
  refine Owned.bind ((asking_owns hrely _ _).ask _) fun _ => ?_
  refine (Owned.deleteLocalRef strMsg [strTag, some clazz] []).bind fun _ => ?_
  refine (Owned.deleteLocalRef strTag [] [some clazz]).bind fun _ => ?_
  exact (Owned.deleteLocalRef (some clazz) [] []).bind fun _ => Owned.pure _ rfl

theorem Owned.nativeLog (args : Arguments) :
    Owned rely base [] (Bridge.nativeLog args) fun _ => [] := by
  refine Owned.bind ((asking_owns hrely _ _).accumulate _ _) fun accumulator => ?_
  cases accumulator with
  | none => exact Owned.pure _ rfl
  | some accumulator =>
      refine (Owned.read _).bind fun platform => ?_
      split
      · exact Owned.crash
      · exact (Owned.v8String2JString _).bind fun strMsg =>
          (Owned.sendLog hrely hfound strMsg).bind fun _ => Owned.pure _ rfl

end

/-! ## Calls from Java -/

theorem Owned.reportToJava (jInstanceId : JObject) (func exceptionString : List UInt8) :
    Owned rely base objs (Bridge.reportToJava jInstanceId func exceptionString) fun _ => objs := by
  refine (Owned.newStringUTF _).bind fun jExceptionString => ?_
  refine (Owned.newStringUTF _).bind fun jFunc => (Owned.callJava hrely _ _).bind fun _ => ?_
  refine (Owned.deleteLocalRef jExceptionString [jFunc] objs).bind fun _ => ?_
  exact Owned.deleteLocalRef jFunc [] objs

theorem Owned.reportException (jInstanceId : JObject) (func : List UInt8) :
    Owned rely base objs (Bridge.reportException jInstanceId func) fun _ => objs := by
  have h := asking_owns hrely base objs
  exact Owned.bind (h.ask _) fun _ => Owned.bind (h.utf8Value _ _) fun _ =>
    Owned.bind (h.ask _) fun _ => Owned.ite
      (Owned.bind (h.ask _) fun _ => Owned.bind (h.utf8Value _ _) fun _ =>
        Owned.bind (h.ask _) fun _ => Owned.bind (h.ask _) fun _ =>
          Owned.bind (h.utf8Value _ _) fun _ => Owned.reportToJava hrely _ _ _)
      (Owned.reportToJava hrely _ _ _)

theorem Owned.jsonArgument (data : Option JavaObject) :
    Owned rely base objs (Bridge.jsonArgument data) fun _ => objs := by
  have h := asking_owns hrely base objs
  exact Owned.bind h.globalObject fun _ => Owned.bind (h.objectGet _ _ _) fun _ =>
    (Owned.store _ _).bind fun _ => (Owned.use _).bind fun _ =>
      Owned.bind (h.objectGet _ _ _) fun _ => (Owned.store _ _).bind fun _ =>
        Owned.bind (h.asString _) fun _ => (Owned.jString2V8String _).bind fun _ =>
          (Owned.use _).bind fun _ => (Owned.use _).bind fun _ => h.functionCall _ _ _ _

theorem Owned.convertValue (arg : WXJSObject) :
    Owned rely base objs (Bridge.convertValue arg) fun _ => objs := by
  have htext : Owned rely base objs (Bridge.textArgument arg.data) fun _ => objs :=
    Owned.bind ((asking_owns hrely base objs).asString _) fun _ =>
      (Owned.jString2V8String _).bind fun _ => Owned.pure _ rfl
  exact Owned.ite (Owned.doubleArgument _)
    (Owned.ite htext (Owned.ite (Owned.jsonArgument hrely _) (Owned.pure _ rfl)))

theorem Owned.convertArgument (arg : WXJSObject) :
    Owned rely base objs (Bridge.convertArgument arg) fun _ => objs := by
  refine (Owned.newLocalRef _).bind fun jArg => (Owned.newLocalObject _).bind fun jDataObj => ?_
  refine (Owned.convertValue hrely arg).bind fun obj => ?_
  refine (Owned.deleteLocalRef jDataObj [] (some jArg :: objs)).bind fun _ => ?_
  exact (Owned.deleteLocalRef (some jArg) [] objs).bind fun _ => Owned.pure _ rfl

theorem Owned.convertArguments : ∀ jargs : List WXJSObject,
    Owned rely base objs (Bridge.convertArguments jargs) fun _ => objs
  | [] => Owned.pure _ rfl
  | arg :: jargs => (Owned.convertArgument hrely arg).bind fun _ =>
      (Owned.convertArguments jargs).bind fun _ => Owned.pure _ rfl

theorem Owned.callTarget (jnamespace jfunction : Option (List UInt16))
    (func : Option (Nat × List UInt8)) (obj : List Handle) :
    Owned rely base objs (Bridge.callTarget jnamespace jfunction func obj) fun _ => objs := by
  have h := asking_owns hrely base objs
  refine Owned.bind h.globalObject fun global => ?_
  cases jnamespace with
  | none =>
      exact Owned.bind (h.stringNewOrCrash _) fun _ => Owned.bind (h.objectGet _ _ _) fun _ =>
        h.functionCall _ _ _ _
  | some units =>
      exact (Owned.jString2V8String _).bind fun _ => Owned.bind (h.objectGet _ _ _) fun _ =>
        (Owned.jString2V8String _).bind fun _ => Owned.bind (h.objectGet _ _ _) fun _ =>
          h.functionCall _ _ _ _

theorem Owned.execJS (jinstanceid : JObject) (jnamespace jfunction : Option (List UInt16))
    (jargs : List WXJSObject) :
    Owned rely base [] (Bridge.execJS jinstanceid jnamespace jfunction jargs) fun _ => [] := by
  refine (Owned.newLocalRef _).bind fun jsObjectClazz => ?_
  refine (Owned.convertArguments hrely jargs).bind fun obj => ?_
  refine (Owned.deleteLocalRef (some jsObjectClazz) [] []).bind fun _ => ?_
  refine (Owned.getStringUTFChars _).bind fun func => ?_
  refine (Owned.callTarget hrely _ _ _ _).bind fun result => ?_
  cases result with
  | none =>
      exact (Owned.reportException hrely _ _).bind fun _ =>
        (Owned.releaseStringUTFChars _).bind fun _ => Owned.pure _ rfl
  | some result => exact (Owned.releaseStringUTFChars _).bind fun _ => Owned.pure _ rfl

/-! ### Initialisation -/

theorem Owned.setParam (name getter : String) :
    Owned rely base objs (Bridge.setParam name getter) fun _ => objs := by
  refine Owned.bind ((asking_owns hrely base objs).ask _) fun value => ?_
  refine (Owned.newLocalObject _).bind fun r => ?_
  exact (Owned.setEnvironment _ _).bind fun _ => Owned.deleteLocalRef r [] objs

theorem Owned.setOption (option : Option (List UInt16) × Option (List UInt16)) :
    Owned rely base objs (Bridge.setOption option) fun _ => objs := by
  refine (Owned.newLocalObject _).bind fun jkey => (Owned.newLocalObject _).bind fun jvalue => ?_
  refine (Owned.getStringUTFChars _).bind fun cKey => (Owned.getStringUTFChars _).bind fun _ => ?_
  refine Owned.bind ((asking_owns hrely base _).stringNewOrCrash _) fun key => ?_
  refine (Owned.setEnvironment _ _).bind fun _ => ?_
  exact (Owned.deleteLocalRef jkey [jvalue] objs).bind fun _ => Owned.deleteLocalRef jvalue [] objs

theorem Owned.setOptions : ∀ options : List (Option (List UInt16) × Option (List UInt16)),
    Owned rely base objs (Bridge.setOptions options) fun _ => objs
  | [] => Owned.pure _ rfl
  | option :: options => (Owned.setOption hrely option).bind fun _ => Owned.setOptions options

/-- Two class references are left to the frame. -/
theorem Owned.readOptions : Triple rely (fun _ => True) (Owns base objs) Bridge.readOptions
    fun _ s => ∃ base' : World, base'.strayDeletes = base.strayDeletes ∧ Owns base' objs s := by
  refine Triple.bind ((asking_owns hrely base objs).ask _) fun array => ?_
  cases array with
  | none => exact Triple.crash.strengthen fun _ => trivial
  | some array =>
      refine Triple.bind (Owned.newLocalRef _) fun options => ?_
      refine Triple.bind (Owned.newLocalRef _) fun jmapclass => ?_
      refine Triple.bind (Owned.newLocalRef _) fun jsetkey => ?_
      refine Triple.bind (Owned.newLocalRef _) fun jsetclass => ?_
      refine Triple.bind (Owned.newLocalObject _) fun jobjArray => ?_
      refine Triple.bind (Owned.deleteLocalRef (some jsetkey) [jobjArray, some jsetclass]
        (some jmapclass :: some options :: objs)) fun _ => ?_
      refine Triple.bind (Owned.setOptions hrely _) fun _ => ?_
      refine Triple.bind (Owned.deleteLocalRef jobjArray []
        (some jsetclass :: some jmapclass :: some options :: objs)) fun _ => ?_
      refine (Owned.deleteLocalRef (some options) [some jsetclass, some jmapclass]
        objs).consequence id fun {_ s} hs => ?_
      refine ⟨{ base with localRefs := jsetclass.id :: jmapclass.id :: base.localRefs }, rfl, ?_,
        hs.strays⟩
      refine hs.live.trans ?_
      show (jsetclass.id :: jmapclass.id :: (refIds objs ++ base.localRefs)).Perm _
      exact (List.perm_middle.trans (List.perm_middle.cons _)).symm

theorem Owned.setJSFVersion : Owned rely base objs Bridge.setJSFVersion fun _ => objs := by
  have h := asking_owns hrely base objs
  refine Owned.bind h.globalObject fun _ => Owned.bind (h.objectGet _ _ _) fun _ => ?_
  refine Owned.bind (h.functionCall _ _ _ _) fun _ => Owned.bind (h.utf8Value _ _) fun _ => ?_
  refine (Owned.newStringUTF _).bind fun jversion => (Owned.callJava hrely _ _).bind fun _ => ?_
  exact Owned.deleteLocalRef jversion [] objs

theorem Owned.executeJavaScript (source : Option HeapString) :
    Owned rely base objs (Bridge.executeJavaScript source) fun _ => objs := by
  have h := asking_owns hrely base objs
  have hfailed : Owned rely base objs (do
      Bridge.reportException none (Bridge.cLiteral "")
      Pure.pure false) fun _ => objs :=
    (Owned.reportException hrely _ _).bind fun _ => Owned.pure _ rfl
  cases source with
  | none => exact hfailed
  | some source =>
      refine Owned.bind (h.ask _) fun compiled => Owned.ite ?_ hfailed
      refine Owned.bind (h.ask _) fun value => ?_
      cases value with
      | none => exact hfailed
      | some value => exact Owned.pure _ rfl

/-- Where it fails it leaves references to the frame as well. -/
theorem Owned.initFramework (script : Option (List UInt16)) :
    Triple rely (fun _ => True) (Owns base []) (Bridge.initFramework script)
      fun _ s => s.strayDeletes = base.strayDeletes := by
  have hglobal : Owned rely base [] Bridge.newGlobalRef fun _ => [] :=
    (Owned.read _).bind fun _ => Owned.bind (Owned.modify (fun _ => rfl) fun _ => rfl) fun _ =>
      Owned.pure _ rfl
  refine Triple.bind hglobal fun this => ?_
  refine Triple.bind (Owned.modify (fun _ => rfl) fun _ => rfl) fun _ => ?_
  refine Triple.bind (Owned.newLocalRef _) fun cParams => ?_
  refine Triple.bind (Owned.setParam hrely _ _) fun _ => ?_
  refine Triple.bind (Owned.setParam hrely _ _) fun _ => ?_
  refine Triple.bind (Owned.setParam hrely _ _) fun _ => ?_
  refine Triple.bind (Owned.setParam hrely _ _) fun _ => ?_
  refine Triple.bind (Owned.setParam hrely _ _) fun _ => ?_
  refine Triple.bind (Owned.setParam hrely _ _) fun _ => ?_
  refine Triple.bind (Owned.setParam hrely _ _) fun _ => ?_
  refine Triple.bind (Owned.setParam hrely _ _) fun _ => ?_
  refine Triple.bind (Owned.readOptions hrely) fun _ s => ?_
  rintro ⟨base', hbase, hs⟩
  have h := asking_owns hrely base' [some cParams]
  have hcontext : Owned rely base' [some cParams] Bridge.createShellContext
      fun _ => [some cParams] :=
    (Owned.read _).bind fun _ => Owned.bind (h.ask _) fun _ => (Owned.read _).bind fun _ =>
      Owned.bind (Owned.modify (fun _ => rfl) fun _ => rfl) fun _ => Owned.pure _ rfl
  refine Triple.bind hcontext (fun context => ?_) s hs
  refine Triple.bind (Owned.modify (fun _ => rfl) fun _ => rfl) fun _ => ?_
  refine Triple.bind (Owned.getStringUTFChars script) fun scriptStr => ?_
  cases scriptStr with
  | none => exact fun s hs => hs.strays.trans hbase
  | some chars =>
      refine Triple.bind (h.stringNew _) fun source => ?_
      refine Triple.bind (Owned.executeJavaScript hrely source) fun ok => ?_
      cases ok with
      | false => exact fun s hs => hs.strays.trans hbase
      | true =>
          refine Triple.bind (Owned.setJSFVersion hrely) fun _ => ?_
          refine Triple.bind (Owned.releaseStringUTFChars _) fun _ => ?_
          refine Triple.bind (Owned.deleteLocalRef (some cParams) [] []) fun _ => ?_
          exact fun s hs => hs.strays.trans hbase

/-! ## Every entry point -/

theorem Owned.body (hfound : ∀ x s s', rely x s s' → Found x) :
    ∀ entry : Entry, Owned rely base [] (body entry) fun _ => []
  | .initFramework script => Owned.withLocalFrame (strays_withHandleScope (Triple.bind
      (Owned.initFramework hrely script) fun _ _ hs => hs))
  | .execJS _ jnamespace jfunction jargs => Owned.withLocalFrame (strays_withHandleScope
      (Triple.bind (Owned.execJS hrely _ jnamespace jfunction jargs).strays fun _ _ hs => hs))
  | .callNative args =>
      Owned.withHandleScope ((Owned.callNative hrely args).bind fun _ => Owned.pure _ rfl)
  | .callAddElement args =>
      Owned.withHandleScope ((Owned.callAddElement hrely args).bind fun _ => Owned.pure _ rfl)
  | .setTimeoutNative args =>
      Owned.withHandleScope ((Owned.setTimeoutNative hrely args).bind fun _ => Owned.pure _ rfl)
  | .nativeLog args =>
      Owned.withHandleScope ((Owned.nativeLog hrely hfound args).bind fun _ => Owned.pure _ rfl)
  | .onUnload => Owned.withLocalFrame
      (Triple.bind Owned.onUnload.strays fun _ _ hs => hs)

end

/-! ## In every run -/

/-- Every entry point leaves the references it finds. -/
def balancedContract : Contract body where
  keeps _ := Balanced
  base := Balanced
  safe _ := True
  valid := Found
  admits _ _ := True
  admitted _ _ := True
  keeps_refl _ := Balanced.refl
  keeps_trans := Balanced.trans
  base_refl := Balanced.refl
  base_trans := Balanced.trans
  keeps_body {_ e s} _ _ _ :=
    (Owned.body (fun _ _ _ hr => hr.2) (fun _ _ _ hr => hr.1.1) e s
      (owns_nil.mpr (.refl s))).mono owns_nil.mp
  base_body {e s} _ _ :=
    (Owned.body (fun _ _ _ hr => hr.2) (fun _ _ _ hr => hr.1.1) e s
      (owns_nil.mpr (.refl s))).mono fun hs => ⟨owns_nil.mp hs, trivial⟩

/-- The moves of the runs in which the lookups that the source tests find something. -/
def FoundMove (_ : BridgeConfig) : BridgeMove → Prop
  | .enter _ => True
  | .answer x => Found x

/-- In every such run each callback returns with the references it was entered with, having
deleted nothing that was not live; and no number of callbacks adds to the frame of the call
that waits for them. -/
theorem balanced_of_found {platform : Platform} {c : BridgeConfig}
    (hc : Reachable body FoundMove (.loaded platform) c) :
    (∀ i ∈ c.log, i.outcome.isReturned = true → Balanced i.start i.final) ∧
      (c.crashed = false → ∀ f rest, c.stack = f :: rest → Balanced f.asked c.state) := by
  have hadmits : ∀ {c m}, FoundMove c m → balancedContract.Admits c m := by
    intro c m hm
    cases m with
    | enter entry => exact ⟨trivial, fun _ _ => trivial⟩
    | answer x => exact hm
  refine ⟨fun i hi hreturned => ?_, fun hcrashed f rest hstack => ?_⟩
  · obtain ⟨-, -, hruns⟩ := balancedContract.runs_log hadmits trivial hc hi
    cases ho : i.outcome with
    | crashed =>
        rw [ho] at hreturned
        cases hreturned
    | returned value =>
        rw [ho] at hruns
        exact owns_nil.mp ((Owned.body (fun _ _ _ hr => hr.2.2) (fun _ _ _ hr => hr.1) i.entry
          i.start (owns_nil.mpr (.refl _))).of_runs hruns)
  · exact balancedContract.keeps_of_pending hadmits trivial hc hcrashed hstack

theorem found_of_usual {x : Exchange Answer} (hx : x.answer = x.question.usual) : Found x := by
  obtain ⟨question, answer⟩ := x
  cases question with
  | findClass name => exact hx
  | getStaticMethodID name => exact hx
  | _ => trivial

/-- `nativeLog("a")`, called from JavaScript. -/
theorem balanced_nativeLog : Balanced (.calling .plain)
    ((body (.nativeLog ⟨[.string (.literal "a")]⟩) (.calling .plain)).play
      Question.usual).2.2 := by
  have husual : ∀ x : Exchange Answer, x.answer = x.question.usual →
      ∀ c, FoundMove c (.answer x) := fun x hx _ => found_of_usual hx
  have hcalling : ∃ c : BridgeConfig, Reachable body FoundMove (.loaded .plain) c ∧
      c.state = .calling .plain ∧ c.crashed = false :=
    reachable_calling trivial (fun _ _ _ => trivial) husual
  obtain ⟨c, hc, hstate, hcrashed⟩ := hcalling
  have hentry : FoundMove c (.enter (.nativeLog ⟨[.string (.literal "a")]⟩)) := trivial
  obtain ⟨c', hc', -, -, hlog, -⟩ := reachable_play hc hcrashed hentry Question.usual husual
  rw [hstate] at hlog
  have hreturned : ((body (.nativeLog ⟨[.string (.literal "a")]⟩) (.calling .plain)).play
      Question.usual).2.1.isReturned = true := by decide +kernel
  -- what the run computes is of no interest from here on
  generalize (body (.nativeLog ⟨[.string (.literal "a")]⟩) (.calling .plain)).play
    Question.usual = run at hlog hreturned ⊢
  have hi : ⟨_, .calling .plain, run.1, run.2.1, run.2.2⟩ ∈ c'.log := hlog ▸ List.mem_cons_self
  have hbalanced := (balanced_of_found hc').1 _ hi hreturned
  dsimp only at hbalanced
  exact hbalanced

/-- No class `WXLogUtils`. -/
def Question.withoutLog : (question : Question) → Answer question
  | .findClass _ => false
  | question => question.usual

/-- There `nativeLog` leaves its message behind. -/
theorem not_balanced : ¬ ∀ {platform c}, AnyRun platform c → ∀ i ∈ c.log,
    i.outcome.isReturned = true → i.final.localRefs.length = i.start.localRefs.length := by
  intro h
  obtain ⟨c, hc, hi⟩ :=
    anyRun_play (.nativeLog ⟨[.string (.literal "a")]⟩) Question.withoutLog
  have hreturned : ((body (.nativeLog ⟨[.string (.literal "a")]⟩) (.calling .plain)).play
      Question.withoutLog).2.1.isReturned = true := by decide +kernel
  have hlength : ((body (.nativeLog ⟨[.string (.literal "a")]⟩) (.calling .plain)).play
      Question.withoutLog).2.2.localRefs.length = (World.calling .plain).localRefs.length + 1 := by
    decide +kernel
  generalize (body (.nativeLog ⟨[.string (.literal "a")]⟩) (.calling .plain)).play
    Question.withoutLog = run at hi hreturned hlength
  have hequal := h hc _ hi hreturned
  dsimp only at hequal
  omega

end WeexBridge
