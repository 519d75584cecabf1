/-
# The bridge as a whole

The entry points that Java and JavaScript have into the bridge, and the machine
that runs them: the environment enters one, answers its questions, and may enter
others before it answers.
-/
import WeexBridge.Bridge.Callbacks
import WeexBridge.Bridge.Lifecycle

namespace WeexBridge

open Reentrant

/-- The entry points. -/
inductive Entry where
  | initFramework (script : Option (List UInt16))
  | execJS (jinstanceid jnamespace jfunction : Option (List UInt16)) (jargs : List WXJSObject)
  | callNative (args : Arguments)
  | callAddElement (args : Arguments)
  | setTimeoutNative (args : Arguments)
  | nativeLog (args : Arguments)
  | onUnload

/-- What an entry point returns. -/
inductive Returned where
  | value (v : Value)
  | jint (b : Bool)
  | void

/-- The environment enters through a handle scope, and from Java through a frame
of local references too. -/
def body : Entry → Bridge Returned
  | .initFramework script =>
      Bridge.withLocalFrame (Bridge.withHandleScope do
        pure (.jint (← Bridge.initFramework script)))
  | .execJS jinstanceid jnamespace jfunction jargs =>
      Bridge.withLocalFrame (Bridge.withHandleScope do
        let instance' := jinstanceid.map fun units => ⟨0, .string units⟩
        pure (.jint (← Bridge.execJS instance' jnamespace jfunction jargs)))
  | .callNative args => Bridge.withHandleScope do pure (.value (← Bridge.callNative args))
  | .callAddElement args => Bridge.withHandleScope do pure (.value (← Bridge.callAddElement args))
  | .setTimeoutNative args =>
      Bridge.withHandleScope do pure (.value (← Bridge.setTimeoutNative args))
  | .nativeLog args => Bridge.withHandleScope do pure (.value (← Bridge.nativeLog args))
  | .onUnload => Bridge.withLocalFrame do
      Bridge.onUnload
      pure .void

abbrev BridgeConfig := Config Answer World Entry Returned
abbrev BridgeMove := Move Answer Entry
abbrev BridgeInvocation := Invocation Answer World Entry Returned

/-- Before `JNI_OnLoad`: nothing is held. -/
def World.fresh (platform : Platform) : World where
  platform := platform
  jBridgeClazz := none
  jThis := none
  v8context := none
  json := ⟨none, 0⟩
  jsonParse := ⟨none, 0⟩
  jsonStringify := ⟨none, 0⟩
  wxEnvironment := []
  jCallNativeMethodId := false
  jCallAddElementMethodId := false
  jSetTimeoutNativeMethodId := false
  jLogMethodId := false
  jDoubleValueMethodId := false
  localRefs := []
  strayDeletes := 0
  globalRefs := []
  contexts := []
  chars := []
  scopes := []
  next := 1
  trace := []

/-- After `JNI_OnLoad`. -/
def World.loaded (platform : Platform) : World :=
  match Bridge.onLoad (.fresh platform) with
  | .done _ s => s
  | .crash s => s
  | .ask _ s _ => s

/-- The configurations of all runs after `JNI_OnLoad`. -/
abbrev AnyRun (platform : Platform) (c : BridgeConfig) : Prop :=
  Reachable body (fun _ _ => True) (World.loaded platform) c

/-! ## An environment in which everything succeeds -/

def Platform.plain : Platform := ⟨4, .empty, fun _ => 0, fun _ => 0⟩

/-- The answers of an environment that has what is looked up, and whose functions
return the empty string. -/
def Question.usual : (question : Question) → Answer question
  | .toString _ _ => some (.literal "")
  | .get .jsonObject _ _ => some (.object 1)
  | .get .namespaceObject _ _ => some (.object 2)
  | .get _ _ _ => some (.function 3)
  | .call _ _ _ _ => some (.string (.literal ""))
  | .callNonFunction _ _ _ _ => ()
  | .exception => none
  | .message => false
  | .scriptResourceName => none
  | .lineNumber => ()
  | .stackTrace => none
  | .compile _ => true
  | .run => some .undefined
  | .newContext _ => 0
  | .java _ _ _ => 0
  | .findClass _ => true
  | .getStaticMethodID _ => true
  | .param _ => none
  | .options => some (some [])

/-- After a first `initFramework` that succeeds. -/
def World.initialised (platform : Platform) : World :=
  ((body (.initFramework (some [])) (.loaded platform)).play Question.usual).2.2

section
variable {guard : BridgeConfig → BridgeMove → Prop}

/-- The machine gets there. -/
theorem reachable_initialised
    (hentry : guard (initial (.loaded .plain)) (.enter (.initFramework (some []))))
    (husual : ∀ x : Exchange Answer, x.answer = x.question.usual → ∀ c, guard c (.answer x)) :
    ∃ c : BridgeConfig, Reachable body guard (.loaded .plain) c ∧
      c.state = .initialised .plain ∧ c.stack = [] ∧ c.crashed = false := by
  have hstart : Reachable body guard (.loaded .plain) (initial (.loaded .plain)) :=
    Reachable.initial
  obtain ⟨c, hc, hstate, hstack, -, hcrashed⟩ :=
    reachable_play hstart rfl hentry Question.usual husual
  have hreturned : ((body (.initFramework (some [])) (.loaded .plain)).play
      Question.usual).2.1.isReturned = true := by decide +kernel
  simp only [initial] at hstate hstack hcrashed
  rw [hreturned] at hcrashed
  rw [World.initialised]
  exact ⟨c, hc, hstate, hstack, hcrashed⟩

/-- `execJS` looking up the function `f`: a getter may run JavaScript here. -/
def World.calling (platform : Platform) : World :=
  (body (.execJS none none (some [0x66]) []) (.initialised platform)).state

/-- The machine gets there too. -/
theorem reachable_calling
    (hinit : guard (initial (.loaded .plain)) (.enter (.initFramework (some []))))
    (hexec : ∀ c : BridgeConfig, c.state = .initialised .plain → c.stack = [] →
      guard c (.enter (.execJS none none (some [0x66]) [])))
    (husual : ∀ x : Exchange Answer, x.answer = x.question.usual → ∀ c, guard c (.answer x)) :
    ∃ c : BridgeConfig, Reachable body guard (.loaded .plain) c ∧ c.state = .calling .plain ∧
      c.crashed = false := by
  obtain ⟨c, hc, hstate, hstack, hcrashed⟩ := reachable_initialised hinit husual
  have hrunning : (body (.execJS none none (some [0x66]) []) (.initialised .plain)).isCrash
      = false := by decide +kernel
  refine ⟨_, Reachable.step hc (hexec c hstate hstack)
    (Step.enter (.execJS none none (some [0x66]) []) hcrashed), ?_, ?_⟩
  · rw [settle_state, hstate, World.calling]
  · rw [settle_crashed hcrashed, hstate, hrunning]

end

/-- After `initFramework` Java may invoke an entry point, with any answers. -/
theorem anyRun_play_initialised (entry : Entry)
    (oracle : (question : Question) → Answer question) : ∃ c : BridgeConfig, AnyRun .plain c ∧
      ⟨entry, .initialised .plain, ((body entry (.initialised .plain)).play oracle).1,
        ((body entry (.initialised .plain)).play oracle).2.1,
        ((body entry (.initialised .plain)).play oracle).2.2⟩ ∈ c.log := by
  obtain ⟨c, hc, hstate, -, hcrashed⟩ : ∃ c : BridgeConfig, AnyRun .plain c ∧
      c.state = .initialised .plain ∧ c.stack = [] ∧ c.crashed = false :=
    reachable_initialised trivial fun _ _ _ => trivial
  obtain ⟨c', hc', -, -, hlog, -⟩ :=
    reachable_play hc hcrashed (trivial : (fun _ _ => True) c (Move.enter entry)) oracle
      fun _ _ _ => trivial
  rw [hstate] at hlog
  exact ⟨c', hc', hlog ▸ List.mem_cons_self⟩

/-- During `execJS` JavaScript may invoke a callback, with any answers. -/
theorem anyRun_play (entry : Entry) (oracle : (question : Question) → Answer question) :
    ∃ c : BridgeConfig, AnyRun .plain c ∧
      ⟨entry, .calling .plain, ((body entry (.calling .plain)).play oracle).1,
        ((body entry (.calling .plain)).play oracle).2.1,
        ((body entry (.calling .plain)).play oracle).2.2⟩ ∈ c.log := by
  obtain ⟨c, hc, hstate, hcrashed⟩ : ∃ c : BridgeConfig, AnyRun .plain c ∧
      c.state = .calling .plain ∧ c.crashed = false :=
    reachable_calling trivial (fun _ _ _ => trivial) fun _ _ _ => trivial
  obtain ⟨c', hc', -, -, hlog, -⟩ :=
    reachable_play hc hcrashed (trivial : (fun _ _ => True) c (Move.enter entry)) oracle
      fun _ _ _ => trivial
  rw [hstate] at hlog
  exact ⟨c', hc', hlog ▸ List.mem_cons_self⟩

end WeexBridge
