/-
# Invariants that most of the bridge cannot touch

What an invariant does not look at, the bridge may change.  Here is what that
means for each function of the bridge, in the order of what has to be ignored:

    Asking    nothing, for functions that only ask
    Stable    local references, method ids and the next identity, for the callbacks
              and for `execJS`, but for what it does with JSON and its buffer
    Scoped    also handle scopes and global handles, for JSON
    Loose     also buffers, global references and contexts, for `initFramework`
    Lax       all of these, for every entry point
-/
import WeexBridge.Bridge.System

namespace WeexBridge

open Reentrant

/-- `I` holds wherever the bridge stops, and again when an answer comes. -/
structure Asking (rely : Exchange Answer → World → World → Prop) (inv I : World → Prop) :
    Prop where
  inv : ∀ {s}, I s → inv s
  rely : ∀ {x s s'}, rely x s s' → I s → I s'

/-- What `Stable` lets an invariant ignore. -/
structure Stable (rely : Exchange Answer → World → World → Prop) (inv I : World → Prop) : Prop
    extends Asking rely inv I where
  next : ∀ {s : World} {n : Nat}, s.next ≤ n → I s → I { s with next := n }
  localRefs : ∀ {s : World} (l : List Nat), I s → I { s with localRefs := l }
  strayDeletes : ∀ {s : World} (n : Nat), I s → I { s with strayDeletes := n }
  callNativeId : ∀ {s : World}, I s → I { s with jCallNativeMethodId := true }
  callAddElementId : ∀ {s : World}, I s → I { s with jCallAddElementMethodId := true }
  setTimeoutNativeId : ∀ {s : World}, I s → I { s with jSetTimeoutNativeMethodId := true }
  logId : ∀ {s : World} (b : Bool), I s → I { s with jLogMethodId := b }
  doubleValueId : ∀ {s : World}, I s → I { s with jDoubleValueMethodId := true }
  wxEnvironment : ∀ {s : World} (l : List (List UInt16 × HeapString)), I s →
    I { s with wxEnvironment := l }

/-- `p` keeps `I`. -/
def Preserves (rely : Exchange Answer → World → World → Prop) (inv I : World → Prop) {α : Type}
    (p : Bridge α) : Prop :=
  Triple rely inv I p fun _ s => I s

section
variable {rely : Exchange Answer → World → World → Prop} {inv I : World → Prop} {α β : Type}

theorem Preserves.pure (value : α) : Preserves rely inv I (Pure.pure value : Bridge α) :=
  (Triple.pure value).strengthen id

theorem Preserves.bind {p : Bridge α} {f : α → Bridge β} (hp : Preserves rely inv I p)
    (hf : ∀ value, Preserves rely inv I (f value)) : Preserves rely inv I (p >>= f) :=
  Triple.bind hp hf

theorem Preserves.read (f : World → α) : Preserves rely inv I (Program.read f : Bridge α) :=
  Triple.read.strengthen id

theorem Preserves.modify {f : World → World} (hf : ∀ {s}, I s → I (f s)) :
    Preserves rely inv I (Program.modify f : Bridge Unit) :=
  Triple.modify.strengthen hf

theorem Preserves.ite {c : Prop} [Decidable c] {p q : Bridge α} (hp : Preserves rely inv I p)
    (hq : Preserves rely inv I q) : Preserves rely inv I (if c then p else q) := by
  split_ifs
  · exact hp
  · exact hq

namespace Asking
variable (h : Asking rely inv I)
include h

theorem crash : Preserves rely inv I (Program.crash : Bridge α) := Triple.crash.strengthen h.inv

theorem ask (question : Question) : Preserves rely inv I (Bridge.ask question) :=
  Triple.ask.strengthen fun hs => ⟨h.inv hs, fun _ _ hrely => h.rely hrely hs⟩

theorem globalObject : Preserves rely inv I Bridge.globalObject := by
  refine (Preserves.read _).bind fun context => ?_
  cases context with
  | none => exact h.crash
  | some context => exact Preserves.pure _

theorem objectGet (site : GetSite) (receiver : Handle) (key : Option HeapString) :
    Preserves rely inv I (Bridge.objectGet site receiver key) := by
  cases receiver with
  | none => exact h.crash
  | some v =>
      cases key with
      | none => exact h.crash
      | some key => exact h.crash.ite (h.ask _)

theorem functionCall (site : GetSite) (callee receiver : Handle) (args : List Handle) :
    Preserves rely inv I (Bridge.functionCall site callee receiver args) := by
  cases callee with
  | none => exact h.crash
  | some f =>
      refine h.crash.ite (Preserves.ite ?_ ((h.ask _).bind fun _ => Preserves.pure _))
      split
      · exact h.ask _
      · exact h.crash

theorem valueToString (site : TextSite) (v : Value) :
    Preserves rely inv I (Bridge.valueToString site v) := by
  cases v with
  | string s => exact Preserves.pure _
  | _ => exact h.ask _

theorem utf8Value (site : TextSite) (arg : Handle) :
    Preserves rely inv I (Bridge.utf8Value site arg) := by
  cases arg with
  | none => exact Preserves.pure _
  | some v =>
      refine (h.valueToString site v).bind fun s => ?_
      cases s with
      | none => exact Preserves.pure _
      | some s =>
          refine (Preserves.read _).bind fun platform => ?_
          split
          · exact Preserves.pure _
          · exact h.crash

theorem ofTree {result : Option (V8.MaybeObject V8.Str)}
    (hr : ∀ tree, result = some (some tree) →
      tree.WellFormed ∧ tree.length ≤ V8.Str.kMaxLength) :
    Preserves rely inv I (Bridge.ofTree result hr) := by
  cases result with
  | none => exact h.crash
  | some tree =>
      cases tree with
      | none => exact Preserves.pure _
      | some tree => exact Preserves.pure _

theorem stringNew (memory : List UInt8) : Preserves rely inv I (Bridge.stringNew memory) :=
  (Preserves.read _).bind fun _ => h.ofTree fun _ => V8.wellFormed_stringNew

theorem stringNewOrCrash (func : Option (Nat × List UInt8)) :
    Preserves rely inv I (Bridge.stringNewOrCrash func) := by
  cases func with
  | none => exact h.crash
  | some func => exact h.stringNew func.2

theorem callJava (method : JavaMethod) (args : List JObject) :
    Preserves rely inv I (Bridge.callJava method args) :=
  (Preserves.read _).bind fun _ => h.ask _

theorem concat (left : Option HeapString) (right : HeapString) :
    Preserves rely inv I (Bridge.concat left right) := by
  cases left with
  | none => exact h.crash
  | some left =>
      refine (Preserves.read _).bind fun platform => ?_
      split
      · exact Preserves.pure _
      · exact Preserves.pure _

theorem accumulate : ∀ (args : List Value) (accumulator : Option HeapString),
    Preserves rely inv I (Bridge.accumulate args accumulator)
  | [], _ => Preserves.pure _
  | arg :: args, accumulator => by
      refine (h.valueToString _ arg).bind fun s => ?_
      cases s with
      | none => exact accumulate args accumulator
      | some s => exact (h.concat accumulator s).bind fun left => accumulate args left

theorem asString (data : Option JavaObject) : Preserves rely inv I (Bridge.asString data) := by
  cases data with
  | none => exact Preserves.pure _
  | some object =>
      cases object with
      | string units => exact Preserves.pure _
      | _ => exact h.crash

end Asking

namespace Stable
variable (h : Stable rely inv I)
include h

theorem newLocalRef (object : JavaObject) : Preserves rely inv I (Bridge.newLocalRef object) :=
  (Preserves.read _).bind fun id => Preserves.bind
    (Preserves.modify fun {s} hs => h.localRefs (id :: s.localRefs) (h.next (Nat.le_succ _) hs))
    fun _ => Preserves.pure _

theorem newLocalObject (object : Option JavaObject) :
    Preserves rely inv I (Bridge.newLocalObject object) := by
  cases object with
  | none => exact Preserves.pure _
  | some object => exact (h.newLocalRef object).bind fun _ => Preserves.pure _

theorem deleteLocalRef (r : JObject) : Preserves rely inv I (Bridge.deleteLocalRef r) := by
  cases r with
  | none => exact Preserves.pure _
  | some r => exact Preserves.modify fun {s} hs =>
      h.strayDeletes _ (h.localRefs (s.localRefs.erase r.id) hs)

theorem withLocalFrame {code : Bridge α} (hc : Preserves rely inv I code) :
    Preserves rely inv I (Bridge.withLocalFrame code) :=
  (Preserves.read _).bind fun _ =>
    (Preserves.modify fun hs => h.localRefs _ hs).bind fun _ =>
      hc.bind fun _ => (Preserves.modify fun hs => h.localRefs _ hs).bind fun _ => Preserves.pure _

theorem newStringUTF (memory : Option (List UInt8)) :
    Preserves rely inv I (Bridge.newStringUTF memory) := by
  cases memory with
  | none => exact Preserves.pure _
  | some memory => exact (h.newLocalRef _).bind fun _ => Preserves.pure _

theorem newByteArray (memory : List UInt8) : Preserves rely inv I (Bridge.newByteArray memory) := by
  simp only [Bridge.newByteArray]
  split_ifs
  · exact h.crash
  · exact (h.newLocalRef _).bind fun _ => Preserves.pure _

theorem v8String2JString (value : List UInt16 × Nat) :
    Preserves rely inv I (Bridge.v8String2JString value) :=
  (h.newStringUTF _).ite ((h.newLocalRef _).bind fun _ => Preserves.pure _)

/-! ### Callbacks -/

theorem newStringOf (args : Arguments) (i : Nat) :
    Preserves rely inv I (Bridge.newStringOf args i) :=
  (h.utf8Value _ _).bind fun _ => h.newStringUTF _

theorem stringArgument (args : Arguments) (i : Nat) :
    Preserves rely inv I (Bridge.stringArgument args i) :=
  (h.newStringOf args i).ite (Preserves.pure _)

theorem stringToBytes (i : Nat) (arg : Handle) :
    Preserves rely inv I (Bridge.stringToBytes i arg) := by
  refine (h.utf8Value _ _).bind fun tasks => ?_
  cases tasks with
  | none => exact h.crash
  | some tasks => exact h.newByteArray tasks

/-- Payloads other than objects; what `stringifyToBytes` does is the invariant's
own matter. -/
theorem taskArgument (arg : Handle)
    (hs : ∀ v, arg = some v → v.isObject = true →
      Preserves rely inv I (Bridge.stringifyToBytes arg)) :
    Preserves rely inv I (Bridge.taskArgument arg) := by
  cases arg with
  | none => exact Preserves.pure _
  | some v =>
      simp only [Bridge.taskArgument]
      split_ifs with hobject
      · exact hs v rfl hobject
      · exact h.stringToBytes _ _
      · exact Preserves.pure _

theorem domArgument (arg : Handle)
    (hs : ∀ v, arg = some v → v.isObject = true →
      Preserves rely inv I (Bridge.stringifyToBytes arg)) :
    Preserves rely inv I (Bridge.domArgument arg) := by
  cases arg with
  | none => exact h.crash
  | some v =>
      simp only [Bridge.domArgument]
      split_ifs with hobject
      · exact hs v rfl hobject
      · exact Preserves.pure _

theorem callNative (args : Arguments)
    (hs : ∀ v, args.get 1 = some v → v.isObject = true →
      Preserves rely inv I (Bridge.stringifyToBytes (args.get 1))) :
    Preserves rely inv I (Bridge.callNative args) :=
  (h.stringArgument args 0).bind fun _ => (h.taskArgument _ hs).bind fun _ =>
    (h.stringArgument args 2).bind fun _ => (Preserves.modify h.callNativeId).bind fun _ =>
      (h.callJava _ _).bind fun _ => (h.deleteLocalRef _).bind fun _ =>
        (h.deleteLocalRef _).bind fun _ => (h.deleteLocalRef _).bind fun _ => Preserves.pure _

theorem callAddElement (args : Arguments)
    (hs : ∀ v, args.get 2 = some v → v.isObject = true →
      Preserves rely inv I (Bridge.stringifyToBytes (args.get 2))) :
    Preserves rely inv I (Bridge.callAddElement args) :=
  (h.stringArgument args 0).bind fun _ => (h.stringArgument args 1).bind fun _ =>
    (h.domArgument _ hs).bind fun _ => (h.stringArgument args 3).bind fun _ =>
      (h.stringArgument args 4).bind fun _ => (Preserves.modify h.callAddElementId).bind fun _ =>
        (h.callJava _ _).bind fun _ => (h.deleteLocalRef _).bind fun _ =>
          (h.deleteLocalRef _).bind fun _ => (h.deleteLocalRef _).bind fun _ =>
            (h.deleteLocalRef _).bind fun _ => (h.deleteLocalRef _).bind fun _ => Preserves.pure _

theorem setTimeoutNative (args : Arguments) :
    Preserves rely inv I (Bridge.setTimeoutNative args) :=
  (h.newStringOf args 0).bind fun _ => (h.newStringOf args 1).bind fun _ =>
    (Preserves.modify h.setTimeoutNativeId).bind fun _ => (h.callJava _ _).bind fun _ =>
      (h.deleteLocalRef _).bind fun _ => (h.deleteLocalRef _).bind fun _ => Preserves.pure _

theorem lookUpLogMethod : Preserves rely inv I Bridge.lookUpLogMethod := by
  refine (Preserves.read _).bind fun cached => (Preserves.pure _).ite ?_
  exact (h.ask _).bind fun found => (Preserves.modify (h.logId found)).bind fun _ =>
    Preserves.pure _

theorem sendLog (strMsg : JObject) : Preserves rely inv I (Bridge.sendLog strMsg) := by
  refine (h.ask _).bind fun found => Preserves.ite ?_ (Preserves.pure _)
  refine (h.newLocalRef _).bind fun clazz => h.lookUpLogMethod.bind fun found' => ?_
  refine Preserves.ite ?_ ((h.deleteLocalRef _).bind fun _ => Preserves.pure _)
  exact (h.newStringUTF _).bind fun _ => (h.ask _).bind fun _ => (h.deleteLocalRef _).bind fun _ =>
    (h.deleteLocalRef _).bind fun _ => (h.deleteLocalRef _).bind fun _ => Preserves.pure _

theorem nativeLog (args : Arguments) : Preserves rely inv I (Bridge.nativeLog args) := by
  refine (h.accumulate _ _).bind fun accumulator => ?_
  cases accumulator with
  | none => exact Preserves.pure _
  | some accumulator =>
      refine (Preserves.read _).bind fun platform => ?_
      split
      · exact h.crash
      · exact (h.v8String2JString _).bind fun strMsg => (h.sendLog strMsg).bind fun _ =>
          Preserves.pure _

/-! ### Reports -/

theorem reportToJava (jInstanceId : JObject) (func exceptionString : List UInt8) :
    Preserves rely inv I (Bridge.reportToJava jInstanceId func exceptionString) :=
  (h.newStringUTF _).bind fun _ => (h.newStringUTF _).bind fun _ => (h.callJava _ _).bind fun _ =>
    (h.deleteLocalRef _).bind fun _ => h.deleteLocalRef _

theorem reportException (jInstanceId : JObject) (func : List UInt8) :
    Preserves rely inv I (Bridge.reportException jInstanceId func) :=
  (h.ask _).bind fun _ => (h.utf8Value _ _).bind fun _ => (h.ask _).bind fun _ =>
    Preserves.ite
      ((h.ask _).bind fun _ => (h.utf8Value _ _).bind fun _ => (h.ask _).bind fun _ =>
        (h.ask _).bind fun _ => (h.utf8Value _ _).bind fun _ => h.reportToJava _ _ _)
      (h.reportToJava _ _ _)

theorem executeJavaScript (source : Option HeapString) :
    Preserves rely inv I (Bridge.executeJavaScript source) := by
  cases source with
  | none => exact (h.reportException _ _).bind fun _ => Preserves.pure _
  | some source =>
      refine (h.ask _).bind fun compiled => Preserves.ite ?_
        ((h.reportException _ _).bind fun _ => Preserves.pure _)
      refine (h.ask _).bind fun value => ?_
      cases value with
      | none => exact (h.reportException _ _).bind fun _ => Preserves.pure _
      | some value => exact Preserves.pure _

theorem setJSFVersion : Preserves rely inv I Bridge.setJSFVersion :=
  h.globalObject.bind fun _ => (h.objectGet _ _ _).bind fun _ => (h.functionCall _ _ _ _).bind
    fun _ => (h.utf8Value _ _).bind fun _ => (h.newStringUTF _).bind fun _ =>
      (h.callJava _ _).bind fun _ => h.deleteLocalRef _

theorem doubleArgument (data : Option JavaObject) :
    Preserves rely inv I (Bridge.doubleArgument data) := by
  refine (Preserves.read _).bind fun cached => Preserves.ite ?_ ?_
  · refine (h.newLocalRef _).bind fun _ => (Preserves.modify h.doubleValueId).bind fun _ =>
      (h.deleteLocalRef _).bind fun _ => ?_
    split
    · exact Preserves.pure _
    · exact h.crash
  · split
    · exact Preserves.pure _
    · exact h.crash

theorem jString2V8String (str : Option (List UInt16)) :
    Preserves rely inv I (Bridge.jString2V8String str) := by
  intro s hs
  obtain ⟨text, n, hrun, hn, -⟩ := Bridge.jString2V8String_eq str s
  rw [hrun]
  exact h.next hn hs

theorem textArgument (data : Option JavaObject) :
    Preserves rely inv I (Bridge.textArgument data) :=
  (h.asString data).bind fun _ => (h.jString2V8String _).bind fun _ => Preserves.pure _

/-- Arguments that are no JSON; what `jsonArgument` does is the invariant's own matter. -/
theorem convertValue (arg : WXJSObject)
    (hjson : arg.type = 3 → Preserves rely inv I (Bridge.jsonArgument arg.data)) :
    Preserves rely inv I (Bridge.convertValue arg) := by
  simp only [Bridge.convertValue]
  split_ifs with h₁ h₂ h₃
  · exact h.doubleArgument _
  · exact h.textArgument _
  · exact hjson h₃
  · exact Preserves.pure _

theorem convertArgument (arg : WXJSObject)
    (hjson : arg.type = 3 → Preserves rely inv I (Bridge.jsonArgument arg.data)) :
    Preserves rely inv I (Bridge.convertArgument arg) :=
  (h.newLocalRef _).bind fun _ => (h.newLocalObject _).bind fun _ =>
    (h.convertValue arg hjson).bind fun _ => (h.deleteLocalRef _).bind fun _ =>
      (h.deleteLocalRef _).bind fun _ => Preserves.pure _

theorem convertArguments : ∀ jargs : List WXJSObject,
    (∀ arg ∈ jargs, arg.type = 3 → Preserves rely inv I (Bridge.jsonArgument arg.data)) →
      Preserves rely inv I (Bridge.convertArguments jargs)
  | [], _ => Preserves.pure _
  | arg :: jargs, hjson =>
      (h.convertArgument arg (hjson arg List.mem_cons_self)).bind fun _ =>
        (convertArguments jargs fun arg' h' => hjson arg' (List.mem_cons_of_mem _ h')).bind
          fun _ => Preserves.pure _

theorem callTarget (jnamespace jfunction : Option (List UInt16))
    (func : Option (Nat × List UInt8)) (obj : List Handle) :
    Preserves rely inv I (Bridge.callTarget jnamespace jfunction func obj) := by
  refine h.globalObject.bind fun global => ?_
  cases jnamespace with
  | none =>
      exact (h.stringNewOrCrash _).bind fun _ => (h.objectGet _ _ _).bind fun _ =>
        h.functionCall _ _ _ _
  | some units =>
      exact (h.jString2V8String _).bind fun _ => (h.objectGet _ _ _).bind fun _ =>
        (h.jString2V8String _).bind fun _ => (h.objectGet _ _ _).bind fun _ =>
          h.functionCall _ _ _ _

/-- What `callFunction` does with its buffer is the invariant's own matter too. -/
theorem execJS (jinstanceid : JObject) (jnamespace jfunction : Option (List UInt16))
    (jargs : List WXJSObject)
    (hjson : ∀ arg ∈ jargs, arg.type = 3 → Preserves rely inv I (Bridge.jsonArgument arg.data))
    (hcall : ∀ obj, Preserves rely inv I
      (Bridge.callFunction jinstanceid jnamespace jfunction obj)) :
    Preserves rely inv I (Bridge.execJS jinstanceid jnamespace jfunction jargs) :=
  (h.newLocalRef _).bind fun _ => (h.convertArguments jargs hjson).bind fun obj =>
    (h.deleteLocalRef _).bind fun _ => hcall obj

/-! ### The environment of a context -/

theorem setEnvironment (name : Option (List UInt16)) (value : Option (List UInt16)) :
    Preserves rely inv I (Bridge.setEnvironment name value) := by
  refine (h.jString2V8String value).bind fun text => ?_
  cases name with
  | none => exact h.crash
  | some name =>
      cases text with
      | none => exact h.crash
      | some text => exact Preserves.modify fun hs => h.wxEnvironment _ hs

theorem setParam (name getter : String) : Preserves rely inv I (Bridge.setParam name getter) :=
  (h.ask _).bind fun _ => (h.newLocalObject _).bind fun _ => (h.setEnvironment _ _).bind fun _ =>
    h.deleteLocalRef _

end Stable

/-! ### What outlives a call -/

/-- What `Loose` lets an invariant ignore in addition. -/
structure Loose (rely : Exchange Answer → World → World → Prop) (inv I : World → Prop) : Prop
    extends Stable rely inv I where
  chars : ∀ {s : World} (l : List Nat), I s → I { s with chars := l }
  globalRefs : ∀ {s : World} (l : List Nat), I s → I { s with globalRefs := l }
  contexts : ∀ {s : World} (l : List Nat), I s → I { s with contexts := l }
  jThis : ∀ {s : World} (r : Option Nat), I s → I { s with jThis := r }
  v8context : ∀ {s : World} (context : Context), I s → I { s with v8context := some context }

namespace Loose
variable (h : Loose rely inv I)
include h

theorem getStringUTFChars (str : Option (List UInt16)) :
    Preserves rely inv I (Bridge.getStringUTFChars str) := by
  cases str with
  | none => exact Preserves.pure _
  | some units =>
      exact (Preserves.read _).bind fun id => Preserves.bind
        (Preserves.modify fun {s} hs => h.chars (id :: s.chars) (h.next (Nat.le_succ _) hs))
        fun _ => Preserves.pure _

theorem releaseStringUTFChars (chars : Option (Nat × List UInt8)) :
    Preserves rely inv I (Bridge.releaseStringUTFChars chars) := by
  cases chars with
  | none => exact Preserves.pure _
  | some chars => exact Preserves.modify fun hs => h.chars _ hs

theorem newGlobalRef : Preserves rely inv I Bridge.newGlobalRef :=
  (Preserves.read _).bind fun id => Preserves.bind
    (Preserves.modify fun {s} hs => h.globalRefs (id :: s.globalRefs) (h.next (Nat.le_succ _) hs))
    fun _ => Preserves.pure _

theorem deleteGlobalRef (r : Option Nat) : Preserves rely inv I (Bridge.deleteGlobalRef r) := by
  cases r with
  | none => exact Preserves.pure _
  | some r => exact Preserves.modify fun hs => h.globalRefs _ hs

theorem dispose (context : Option Context) : Preserves rely inv I (Bridge.dispose context) := by
  cases context with
  | none => exact Preserves.pure _
  | some context => exact Preserves.modify fun hs => h.contexts _ hs

theorem createShellContext : Preserves rely inv I Bridge.createShellContext :=
  (Preserves.read _).bind fun _ => (h.ask _).bind fun _ => (Preserves.read _).bind fun id =>
    Preserves.bind
      (Preserves.modify fun {s} hs => h.contexts (id :: s.contexts) (h.next (Nat.le_succ _) hs))
      fun _ => Preserves.pure _

theorem setOption (option : Option (List UInt16) × Option (List UInt16)) :
    Preserves rely inv I (Bridge.setOption option) :=
  (h.newLocalObject _).bind fun _ => (h.newLocalObject _).bind fun _ =>
    (h.getStringUTFChars _).bind fun _ => (h.getStringUTFChars _).bind fun _ =>
      (h.stringNewOrCrash _).bind fun _ => (h.setEnvironment _ _).bind fun _ =>
        (h.deleteLocalRef _).bind fun _ => h.deleteLocalRef _

theorem setOptions : ∀ options : List (Option (List UInt16) × Option (List UInt16)),
    Preserves rely inv I (Bridge.setOptions options)
  | [] => Preserves.pure _
  | option :: options => (h.setOption option).bind fun _ => setOptions options

theorem readOptions : Preserves rely inv I Bridge.readOptions := by
  refine (h.ask _).bind fun array => ?_
  cases array with
  | none => exact h.crash
  | some array =>
      exact (h.newLocalRef _).bind fun _ => (h.newLocalRef _).bind fun _ =>
        (h.newLocalRef _).bind fun _ => (h.newLocalRef _).bind fun _ =>
          (h.newLocalObject _).bind fun _ => (h.deleteLocalRef _).bind fun _ =>
            (h.setOptions _).bind fun _ => (h.deleteLocalRef _).bind fun _ => h.deleteLocalRef _

theorem initFramework (script : Option (List UInt16)) :
    Preserves rely inv I (Bridge.initFramework script) := by
  refine h.newGlobalRef.bind fun this => Preserves.bind
    (Preserves.modify fun hs => ?_) fun _ => (h.newLocalRef _).bind fun cParams => ?_
  · exact h.jThis (some this) (h.wxEnvironment [] hs)
  refine (h.setParam _ _).bind fun _ => (h.setParam _ _).bind fun _ => (h.setParam _ _).bind
    fun _ => (h.setParam _ _).bind fun _ => (h.setParam _ _).bind fun _ => (h.setParam _ _).bind
      fun _ => (h.setParam _ _).bind fun _ => (h.setParam _ _).bind fun _ => ?_
  refine h.readOptions.bind fun _ => h.createShellContext.bind fun context => ?_
  refine Preserves.bind (Preserves.modify (h.v8context _)) fun _ => ?_
  refine (h.getStringUTFChars script).bind fun scriptStr => ?_
  cases scriptStr with
  | none => exact Preserves.pure _
  | some chars =>
      refine (h.stringNew _).bind fun source => (h.executeJavaScript source).bind fun ok => ?_
      refine Preserves.ite ?_ (Preserves.pure _)
      exact h.setJSFVersion.bind fun _ => (h.releaseStringUTFChars _).bind fun _ =>
        (h.deleteLocalRef _).bind fun _ => Preserves.pure _

theorem onUnload : Preserves rely inv I Bridge.onUnload :=
  (Preserves.read _).bind fun _ => (h.dispose _).bind fun _ => (Preserves.read _).bind fun _ =>
    (h.deleteGlobalRef _).bind fun _ => (Preserves.read _).bind fun _ => h.deleteGlobalRef _

theorem callFunction (jinstanceid : JObject) (jnamespace jfunction : Option (List UInt16))
    (obj : List Handle) :
    Preserves rely inv I (Bridge.callFunction jinstanceid jnamespace jfunction obj) := by
  refine (h.getStringUTFChars _).bind fun func => (h.callTarget _ _ _ _).bind fun result => ?_
  cases result with
  | none =>
      exact (h.reportException _ _).bind fun _ => (h.releaseStringUTFChars _).bind fun _ =>
        Preserves.pure _
  | some result => exact (h.releaseStringUTFChars _).bind fun _ => Preserves.pure _

end Loose

/-! ### Scopes and global handles -/

/-- An invariant that of scopes and global handles sees at most whether `json` is
empty: an empty `json` crashes at its first use. -/
structure Scoped (rely : Exchange Answer → World → World → Prop) (I : World → Prop) : Prop
    extends Stable rely (fun _ => True) I where
  scopes : ∀ {s : World} (l : List Nat), I s → I { s with scopes := l }
  trace : ∀ {s : World} (l : List HandleEvent), I s → I { s with trace := l }
  json : ∀ {s : World} (v : Value) (scope : Nat), I s → I { s with json := ⟨some v, scope⟩ }
  jsonParse : ∀ {s : World} (h : ScopedHandle), I s → I { s with jsonParse := h }
  jsonStringify : ∀ {s : World} (h : ScopedHandle), I s → I { s with jsonStringify := h }

namespace Scoped
variable (h : Scoped rely I)
include h

theorem withHandleScope {code : Bridge α} (hc : Preserves rely (fun _ => True) I code) :
    Preserves rely (fun _ => True) I (Bridge.withHandleScope code) := by
  refine Preserves.bind (Preserves.modify fun {s} hs => ?_) fun _ => hc.bind fun _ =>
    Preserves.bind (Preserves.modify fun {s} hs => ?_) fun _ => Preserves.pure _
  · exact h.trace (.opened s.next :: s.trace)
      (h.scopes (s.next :: s.scopes) (h.next (Nat.le_succ _) hs))
  · exact h.trace (.closed s.scope :: s.trace) (h.scopes s.scopes.tail hs)

theorem use (var : GlobalHandle) : Preserves rely (fun _ => True) I (Bridge.use var) := by
  refine Preserves.bind (Preserves.modify fun {s} hs => ?_) fun _ => Preserves.read _
  exact h.trace (.used s.scope var (s.handle var) :: s.trace) hs

theorem storeParse (value : Handle) :
    Preserves rely (fun _ => True) I (Bridge.store .jsonParse value) := by
  refine Preserves.modify fun {s} hs => ?_
  exact h.trace (.stored s.scope .jsonParse ⟨value, s.scope⟩ :: s.trace)
    (h.jsonParse ⟨value, s.scope⟩ hs)

theorem storeStringify (value : Handle) :
    Preserves rely (fun _ => True) I (Bridge.store .jsonStringify value) := by
  refine Preserves.modify fun {s} hs => ?_
  exact h.trace (.stored s.scope .jsonStringify ⟨value, s.scope⟩ :: s.trace)
    (h.jsonStringify ⟨value, s.scope⟩ hs)

/-- An answer put into `json`, of which a member is read at once. -/
theorem storeJson (json : Handle) (name : Option HeapString) {f : Handle → Bridge α}
    (hf : ∀ member, Preserves rely (fun _ => True) I (f member)) :
    Preserves rely (fun _ => True) I (do
      Bridge.store .json json
      let member ← Bridge.objectGet .jsonMember (← Bridge.use .json) name
      f member) := by
  cases json with
  | none => exact fun s hs => trivial
  | some v =>
      refine Preserves.bind (Preserves.modify fun {s} hs => ?_) fun _ =>
        (h.use .json).bind fun _ => (h.objectGet _ _ _).bind hf
      exact h.trace (.stored s.scope .json ⟨some v, s.scope⟩ :: s.trace) (h.json v s.scope hs)

theorem stringifyToBytes (arg : Handle) :
    Preserves rely (fun _ => True) I (Bridge.stringifyToBytes arg) :=
  h.globalObject.bind fun _ => (h.objectGet _ _ _).bind fun json => h.storeJson json _
    fun _ => (h.storeStringify _).bind fun _ => (h.use _).bind fun _ => (h.use _).bind fun _ =>
      (h.functionCall _ _ _ _).bind fun _ => (h.utf8Value _ _).bind fun _ => h.newByteArray _

theorem jsonArgument (data : Option JavaObject) :
    Preserves rely (fun _ => True) I (Bridge.jsonArgument data) :=
  h.globalObject.bind fun _ => (h.objectGet _ _ _).bind fun json => h.storeJson json _
    fun _ => (h.storeParse _).bind fun _ => (h.asString _).bind fun _ =>
      (h.jString2V8String _).bind fun _ => (h.use _).bind fun _ => (h.use _).bind fun _ =>
        h.functionCall _ _ _ _

end Scoped

/-! ### Every entry point -/

/-- An invariant of what none of the entry points changes. -/
structure Lax (R : Exchange Answer → World → World → Prop) (I : World → Prop) : Prop
    extends Loose R (fun _ => True) I, Scoped R I

namespace Lax
variable (h : Lax rely I)
include h

theorem body : ∀ entry : Entry, Preserves rely (fun _ => True) I (body entry)
  | .initFramework script => h.withLocalFrame (h.withHandleScope
      ((h.initFramework script).bind fun _ => Preserves.pure _))
  | .execJS _ jnamespace jfunction jargs => h.withLocalFrame (h.withHandleScope
      ((h.execJS _ jnamespace jfunction jargs (fun arg _ _ => h.jsonArgument arg.data)
        (h.callFunction _ _ _)).bind fun _ => Preserves.pure _))
  | .callNative args => h.withHandleScope ((h.callNative args fun _ _ _ =>
      h.stringifyToBytes _).bind fun _ => Preserves.pure _)
  | .callAddElement args => h.withHandleScope ((h.callAddElement args fun _ _ _ =>
      h.stringifyToBytes _).bind fun _ => Preserves.pure _)
  | .setTimeoutNative args => h.withHandleScope
      ((h.setTimeoutNative args).bind fun _ => Preserves.pure _)
  | .nativeLog args => h.withHandleScope ((h.nativeLog args).bind fun _ => Preserves.pure _)
  | .onUnload => h.withLocalFrame (h.onUnload.bind fun _ => Preserves.pure _)

end Lax

end

end WeexBridge
