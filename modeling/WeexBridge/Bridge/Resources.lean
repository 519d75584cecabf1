/-
# What outlives a call

Global references, contexts and buffers of `GetStringUTFChars`.  Once `initFramework`
has succeeded nothing the environment does changes them, as long as it does not
initialise again: `execJS` releases the buffer it takes on every path, and the
callbacks take none.

    Held     between two calls: the class, `jThis` and `V8context`, and nothing else
    Fixed    what a pending question relies on: with `jThis` set, all stays as it is

A first `initFramework` that succeeds, without options, leads from the one to the other.
A second one, one that fails and one with options do not.
-/
import WeexBridge.Bridge.Stable

namespace WeexBridge

open Reentrant

/-! ## Resources -/

/-- The resources the bridge holds, and the variables that name them. -/
structure Resources where
  jBridgeClazz : Option Nat
  jThis : Option Nat
  v8context : Option Context
  globalRefs : List Nat
  contexts : List Nat
  chars : List Nat
  deriving DecidableEq

def World.resources (s : World) : Resources :=
  ⟨s.jBridgeClazz, s.jThis, s.v8context, s.globalRefs, s.contexts, s.chars⟩

/-- One reference to the class, at most one to the bridge object and at most one context,
each the current one, and no buffer. -/
structure Held (r : Resources) : Prop where
  clazz : r.jBridgeClazz.isSome = true
  globalRefs : r.globalRefs.Perm (r.jBridgeClazz.toList ++ r.jThis.toList)
  contexts : r.contexts = r.v8context.toList.map Context.id
  chars : r.chars = []
  /-- A context comes after `jThis`. -/
  v8context : r.jThis = none → r.v8context = none

/-- With `jThis` set the resources stay as they are. -/
def Fixed (s s' : World) : Prop := s.jThis.isSome = true → s'.resources = s.resources

theorem Fixed.refl (s : World) : Fixed s s := fun _ => rfl

theorem Fixed.trans {s₁ s₂ s₃ : World} (h : Fixed s₁ s₂) (h' : Fixed s₂ s₃) : Fixed s₁ s₃ := by
  intro hs
  have hr := h hs
  have hs₂ : s₂.jThis.isSome = true := by
    show s₂.resources.jThis.isSome = true
    rw [hr]
    exact hs
  exact (h' hs₂).trans hr

/-- What a call that nothing has gone wrong with gives back.  The map of the options is
empty. -/
def Succeeds (x : Exchange Answer) : Prop :=
  match x with
  | ⟨.compile _, compiled⟩ => compiled = true
  | ⟨.run, result⟩ => result.isSome = true
  | ⟨.options, array⟩ => ∀ options, array = some (some options) → options = []
  | _ => True

/-! ## Code that touches no resource -/

/-- A property of the resources. -/
abbrev On (P : Resources → Prop) (s : World) : Prop := P s.resources

section
variable {rely : Exchange Answer → World → World → Prop}

theorem scoped_on {P : Resources → Prop}
    (hP : ∀ {x s s'}, rely x s s' → On P s → On P s') : Scoped rely (On P) where
  inv _ := trivial
  rely := hP
  next _ hs := hs
  localRefs _ hs := hs
  strayDeletes _ hs := hs
  callNativeId hs := hs
  callAddElementId hs := hs
  setTimeoutNativeId hs := hs
  logId _ hs := hs
  doubleValueId hs := hs
  wxEnvironment _ hs := hs
  scopes _ hs := hs
  trace _ hs := hs
  json _ _ hs := hs
  jsonParse _ hs := hs
  jsonStringify _ hs := hs

/-! ### References and contexts -/

/-- With a new reference in `jThis` and a new context in `V8context`. -/
def Resources.initialised (r : Resources) (this : Nat) (context : Context) : Resources :=
  { r with
    globalRefs := this :: r.globalRefs
    jThis := some this
    contexts := context.id :: r.contexts
    v8context := some context }

theorem Held.initialised {r : Resources} (hr : Held r) (hthis : r.jThis = none) (this : Nat)
    (context : Context) : Held (r.initialised this context) where
  clazz := hr.clazz
  globalRefs := by
    have hrefs := hr.globalRefs
    rw [hthis, Option.toList_none, List.append_nil] at hrefs
    show (this :: r.globalRefs).Perm (r.jBridgeClazz.toList ++ [this])
    exact (hrefs.cons this).trans (List.perm_append_singleton this _).symm
  contexts := by
    have hcontexts := hr.contexts
    rw [hr.v8context hthis] at hcontexts
    show context.id :: r.contexts = [context.id]
    rw [hcontexts]
    rfl
  chars := hr.chars
  v8context := nofun

theorem resources_newGlobalRef (r : Resources) :
    Triple rely (fun _ => True) (On (· = r)) Bridge.newGlobalRef
      fun this => On (· = { r with globalRefs := this :: r.globalRefs }) := by
  rintro s rfl
  exact rfl

/-! ### Buffers -/

/-- The resources with the buffer of `chars`. -/
def Resources.take (r : Resources) : Option (Nat × List UInt8) → Resources
  | none => r
  | some chars => { r with chars := chars.1 :: r.chars }

theorem Resources.take_jThis (r : Resources) (chars : Option (Nat × List UInt8)) :
    (r.take chars).jThis = r.jThis := by
  cases chars <;> rfl

theorem resources_getStringUTFChars (r : Resources) (str : Option (List UInt16)) :
    Triple rely (fun _ => True) (On (· = r)) (Bridge.getStringUTFChars str)
      fun chars s => chars.map Prod.snd = str.map (CodeUnits.modifiedUtf8 · ++ [0]) ∧
        On (· = r.take chars) s := by
  cases str with
  | none => exact fun _ hs => ⟨rfl, hs⟩
  | some units =>
      rintro s rfl
      exact ⟨rfl, rfl⟩

/-- The script, as a string: it is not too long. -/
theorem resources_stringNew {P : Resources → Prop} {script : List UInt16}
    (hfits : V8.Fits script) : Triple rely (fun _ => True) (On P)
      (Bridge.stringNew (CodeUnits.modifiedUtf8 script ++ [0]))
      fun source s => source.isSome = true ∧ On P s := by
  intro s hs
  obtain ⟨source, hrun, hmakes⟩ := Bridge.stringNew_modifiedUtf8 script s
  rw [hrun]
  refine ⟨?_, hs⟩
  rw [← Option.isSome_map]
  exact hmakes.fits_iff.mpr hfits

theorem resources_releaseStringUTFChars (r : Resources) (chars : Option (Nat × List UInt8)) :
    Triple rely (fun _ => True) (On (· = r.take chars)) (Bridge.releaseStringUTFChars chars)
      fun _ => On (· = r) := by
  cases chars with
  | none => exact fun _ hs => hs
  | some chars =>
      intro s hs
      have htake : s.resources = { r with chars := chars.1 :: r.chars } := hs
      show ({ s.resources with chars := s.resources.chars.erase chars.1 } : Resources) = r
      rw [htake]
      show ({ r with chars := (chars.1 :: r.chars).erase chars.1 } : Resources) = r
      rw [List.erase_cons_head]

/-- Without a context `execJS` crashes before it asks. -/
theorem crash_callTarget (jnamespace jfunction : Option (List UInt16))
    (func : Option (Nat × List UInt8)) (obj : List Handle) :
    Triple rely (fun _ => True) (fun s => s.v8context = none)
      (Bridge.callTarget jnamespace jfunction func obj) fun _ _ => False := by
  intro s hs
  have hglobal : Bridge.globalObject s = .crash s := by
    rw [Bridge.globalObject, Program.read_bind, hs]
    rfl
  show Meets _ _ _ ((Bridge.globalObject s).bind _)
  rw [hglobal]
  trivial

section
variable (hfixed : ∀ x s s', rely x s s' → Fixed s s')
include hfixed

/-- With `jThis` set, the resources are those of `r` throughout. -/
theorem scoped_eq {r : Resources} (hr : r.jThis.isSome = true) : Scoped rely (On (· = r)) :=
  scoped_on fun {x s s'} hx hs => by
    have hthis : s.jThis.isSome = true := by
      show s.resources.jThis.isSome = true
      rw [hs]
      exact hr
    exact (hfixed x s s' hx hthis).trans hs

theorem resources_createShellContext {r : Resources} (hr : r.jThis.isSome = true) :
    Triple rely (fun _ => True) (On (· = r)) Bridge.createShellContext
      fun context => On (· = { r with contexts := context.id :: r.contexts }) := by
  have h : Scoped rely (On (· = r)) := scoped_eq hfixed hr
  refine Triple.bind (Preserves.read _) fun environment => Triple.bind (h.ask _) fun global => ?_
  rintro s rfl
  exact rfl

/-- The buffer of the function's name is released on every path. -/
theorem resources_callFunction {r : Resources} (hr : r.jThis.isSome = true)
    (jinstanceid : JObject) (jnamespace jfunction : Option (List UInt16)) (obj : List Handle) :
    Preserves rely (fun _ => True) (On (· = r))
      (Bridge.callFunction jinstanceid jnamespace jfunction obj) := by
  refine Triple.bind (resources_getStringUTFChars r jfunction) fun func s => ?_
  rintro ⟨-, hs⟩
  have h : Scoped rely (On (· = r.take func)) :=
    scoped_eq hfixed ((r.take_jThis func).symm ▸ hr)
  refine Triple.bind (h.callTarget _ _ _ _) (fun result => ?_) s hs
  cases result with
  | none =>
      exact Triple.bind (h.reportException _ _) fun _ =>
        Triple.bind (resources_releaseStringUTFChars r func) fun _ _ hs => hs
  | some result =>
      exact Triple.bind (resources_releaseStringUTFChars r func) fun _ _ hs => hs

theorem on_callFunction {P : Resources → Prop}
    (hP : ∀ {r}, P r → r.jThis = none → r.v8context = none)
    (jinstanceid : JObject) (jnamespace jfunction : Option (List UInt16)) (obj : List Handle) :
    Preserves rely (fun _ => True) (On P)
      (Bridge.callFunction jinstanceid jnamespace jfunction obj) := by
  intro s hs
  cases hthis : s.jThis with
  | some this =>
      have hsome : s.resources.jThis.isSome = true := by
        show s.jThis.isSome = true
        rw [hthis]
        rfl
      refine (resources_callFunction hfixed hsome jinstanceid jnamespace jfunction obj s
        rfl).mono fun {_ t} ht => ?_
      show P t.resources
      rw [ht]
      exact hs
  | none =>
      refine Triple.bind (resources_getStringUTFChars s.resources jfunction)
        (fun func => Triple.bind ((crash_callTarget _ _ _ _).strengthen ?_) fun _ _ => False.elim)
        s rfl
      rintro t ⟨-, ht⟩
      show t.resources.v8context = none
      rw [ht]
      have hnone : s.resources.v8context = none := hP hs hthis
      cases func with
      | none => exact hnone
      | some func => exact hnone

/-- The entry points that change what outlives them. -/
def Entry.isLifecycle : Entry → Bool
  | .initFramework _ => true
  | .onUnload => true
  | _ => false

/-- The others touch only the buffer of `execJS`. -/
theorem on_body {P : Resources → Prop} (hrely : ∀ {x s s'}, rely x s s' → On P s → On P s')
    (hP : ∀ {r}, P r → r.jThis = none → r.v8context = none) (entry : Entry)
    (hentry : entry.isLifecycle = false) :
    Preserves rely (fun _ => True) (On P) (body entry) := by
  have h : Scoped rely (On P) := scoped_on hrely
  cases entry with
  | initFramework script => cases hentry
  | execJS jinstanceid jnamespace jfunction jargs =>
      exact h.withLocalFrame (h.withHandleScope ((h.execJS _ _ _ _
        (fun arg _ _ => h.jsonArgument arg.data)
        (on_callFunction hfixed hP _ _ _)).bind fun _ => Preserves.pure _))
  | callNative args =>
      exact h.withHandleScope ((h.callNative args fun _ _ _ => h.stringifyToBytes _).bind
        fun _ => Preserves.pure _)
  | callAddElement args =>
      exact h.withHandleScope ((h.callAddElement args fun _ _ _ => h.stringifyToBytes _).bind
        fun _ => Preserves.pure _)
  | setTimeoutNative args =>
      exact h.withHandleScope ((h.setTimeoutNative args).bind fun _ => Preserves.pure _)
  | nativeLog args =>
      exact h.withHandleScope ((h.nativeLog args).bind fun _ => Preserves.pure _)
  | onUnload => cases hentry

/-- They leave the resources as they are. -/
theorem fixed_other {s : World} {entry : Entry} (hentry : entry.isLifecycle = false) :
    Meets rely (fun _ => True) (fun _ t => Fixed s t) (body entry s) := by
  by_cases hthis : s.jThis.isSome = true
  · have hlinked : ∀ {r}, r = s.resources → r.jThis = none → r.v8context = none := by
      rintro r rfl hnone
      have hnone' : s.jThis = none := hnone
      rw [hnone'] at hthis
      cases hthis
    have heq := scoped_eq hfixed (r := s.resources) hthis
    exact (on_body hfixed heq.rely hlinked entry hentry s rfl).mono fun ht _ => ht
  · exact Meets.free (fun _ => trivial) (fun _ t hsome => absurd hsome hthis) _

/-! ## The first `initFramework` -/

section
variable (hsucceeds : ∀ x s s', rely x s s' → Succeeds x)
include hsucceeds

/-- Without options no buffer is taken. -/
theorem resources_readOptions {r : Resources} (hr : r.jThis.isSome = true) :
    Preserves rely (fun _ => True) (On (· = r)) Bridge.readOptions := by
  have h : Scoped rely (On (· = r)) := scoped_eq hfixed hr
  have hask : Triple rely (fun _ => True) (On (· = r)) (Bridge.ask .options)
      fun array s => (∀ options, array = some (some options) → options = []) ∧ On (· = r) s :=
    fun s hs => ⟨trivial, fun array s' hx => ⟨hsucceeds _ _ _ hx, h.rely hx hs⟩⟩
  refine Triple.bind hask fun array s => ?_
  rintro ⟨harray, hs⟩
  cases array with
  | none => trivial
  | some array =>
      have hempty : array.getD [] = [] := by
        cases array with
        | none => rfl
        | some options => exact harray options rfl
      refine ((h.newLocalRef _).bind fun _ => (h.newLocalRef _).bind fun _ =>
        (h.newLocalRef _).bind fun _ => (h.newLocalRef _).bind fun _ =>
          (h.newLocalObject _).bind fun _ => (h.deleteLocalRef _).bind fun _ => ?_) s hs
      rw [hempty]
      exact Preserves.bind (Preserves.pure ()) fun _ => (h.deleteLocalRef _).bind fun _ =>
        h.deleteLocalRef _

theorem resources_executeJavaScript {r : Resources} (hr : r.jThis.isSome = true)
    (source : HeapString) : Triple rely (fun _ => True) (On (· = r))
      (Bridge.executeJavaScript (some source)) fun ok s => ok = true ∧ On (· = r) s := by
  have h : Scoped rely (On (· = r)) := scoped_eq hfixed hr
  have hcompile : Triple rely (fun _ => True) (On (· = r)) (Bridge.ask (.compile source))
      fun compiled s => compiled = true ∧ On (· = r) s :=
    fun s hs => ⟨trivial, fun compiled s' hx => ⟨hsucceeds _ _ _ hx, h.rely hx hs⟩⟩
  have hrun : Triple rely (fun _ => True) (On (· = r)) (Bridge.ask .run)
      fun value s => value.isSome = true ∧ On (· = r) s :=
    fun s hs => ⟨trivial, fun value s' hx => ⟨hsucceeds _ _ _ hx, h.rely hx hs⟩⟩
  refine Triple.bind hcompile fun compiled s => ?_
  rintro ⟨rfl, hs⟩
  refine Triple.bind hrun (fun value s => ?_) s hs
  rintro ⟨hvalue, hs⟩
  obtain ⟨v, rfl⟩ := Option.isSome_iff_exists.mp hvalue
  exact ⟨rfl, hs⟩

/-- `initFramework` adds a reference and a context to what there is, and succeeds. -/
theorem resources_initFramework (r : Resources) {script : List UInt16}
    (hscript : V8.Fits script) :
    Triple rely (fun _ => True) (On (· = r)) (Bridge.initFramework (some script))
      fun ok s => ok = true ∧ ∃ this context, s.resources = r.initialised this context := by
  refine Triple.bind (resources_newGlobalRef r) fun this => ?_
  let r₁ : Resources := { r with globalRefs := this :: r.globalRefs, jThis := some this }
  have h₁ : Scoped rely (On (· = r₁)) := scoped_eq hfixed rfl
  have hthis : Triple rely (fun _ => True)
      (On (· = { r with globalRefs := this :: r.globalRefs }))
      (Program.modify fun s => { s with jThis := some this, wxEnvironment := [] })
      fun _ => On (· = r₁) := fun s hs => by
    show ({ s.resources with jThis := some this } : Resources) = r₁
    rw [hs]
  refine Triple.bind hthis fun _ => Triple.bind (h₁.newLocalRef _) fun cParams => ?_
  refine Triple.bind (h₁.setParam _ _) fun _ => Triple.bind (h₁.setParam _ _) fun _ => ?_
  refine Triple.bind (h₁.setParam _ _) fun _ => Triple.bind (h₁.setParam _ _) fun _ => ?_
  refine Triple.bind (h₁.setParam _ _) fun _ => Triple.bind (h₁.setParam _ _) fun _ => ?_
  refine Triple.bind (h₁.setParam _ _) fun _ => Triple.bind (h₁.setParam _ _) fun _ => ?_
  refine Triple.bind (resources_readOptions hfixed hsucceeds rfl) fun _ => ?_
  refine Triple.bind (resources_createShellContext hfixed rfl) fun context => ?_
  let r₂ : Resources := r.initialised this context
  have h₂ : Scoped rely (On (· = r₂)) := scoped_eq hfixed rfl
  have hcontext : Triple rely (fun _ => True)
      (On (· = { r₁ with contexts := context.id :: r₁.contexts }))
      (Program.modify fun s => { s with v8context := some context }) fun _ => On (· = r₂) :=
    fun s hs => by
      show ({ s.resources with v8context := some context } : Resources) = r₂
      rw [hs]
      rfl
  refine Triple.bind hcontext fun _ => ?_
  refine Triple.bind (resources_getStringUTFChars r₂ (some script)) fun scriptStr s => ?_
  rintro ⟨hchars, hs⟩
  obtain ⟨⟨id, _⟩, rfl, rfl⟩ := Option.map_eq_some_iff.mp hchars
  have h₃ : Scoped rely (On (· = r₂.take (some (id, CodeUnits.modifiedUtf8 script ++ [0])))) :=
    scoped_eq hfixed ((r₂.take_jThis _).symm ▸ rfl)
  refine Triple.bind (resources_stringNew hscript) (fun source s => ?_) s hs
  rintro ⟨hsource, hs⟩
  obtain ⟨source, rfl⟩ := Option.isSome_iff_exists.mp hsource
  refine Triple.bind (resources_executeJavaScript hfixed hsucceeds rfl source) (fun ok s => ?_) s hs
  rintro ⟨rfl, hs⟩
  refine Triple.bind h₃.setJSFVersion (fun _ => ?_) s hs
  refine Triple.bind (resources_releaseStringUTFChars r₂ _) fun _ => ?_
  exact Triple.bind (h₂.deleteLocalRef _) fun _ s hs => ⟨rfl, this, context, hs⟩

end

end

/-! ## In every run -/

theorem on_withLocalFrame {α : Type} {code : Bridge α} {P : Resources → Prop}
    {post : α → Resources → Prop}
    (hc : Triple rely (fun _ => True) (On P) code fun value => On (post value)) :
    Triple rely (fun _ => True) (On P) (Bridge.withLocalFrame code)
      fun value => On (post value) := by
  intro s hs
  refine (hc { s with localRefs := [] } hs).bind fun {value t} ht => ?_
  exact ht

theorem on_withHandleScope {α : Type} {code : Bridge α} {P : Resources → Prop}
    {post : α → Resources → Prop}
    (hc : Triple rely (fun _ => True) (On P) code fun value => On (post value)) :
    Triple rely (fun _ => True) (On P) (Bridge.withHandleScope code)
      fun value => On (post value) := by
  intro s hs
  let opened : World := { s with
    scopes := s.next :: s.scopes
    next := s.next + 1
    trace := .opened s.next :: s.trace }
  refine (hc opened hs).bind fun {value t} ht => ?_
  exact ht

/-- How the entry points are used: `initFramework` without `jThis` and with a script that a
string can hold, and `JNI_OnUnload` not before the end. -/
def Proper (s : World) : Entry → Prop
  | .initFramework script => s.jThis = none ∧ ∃ units, script = some units ∧ V8.Fits units
  | .onUnload => False
  | _ => True

section
variable (hfixed : ∀ x s s', rely x s s' → Fixed s s')
include hfixed

theorem fixed_body {s : World} : ∀ {entry : Entry}, Proper s entry →
    Meets rely (fun _ => True) (fun _ t => Fixed s t) (body entry s)
  | .initFramework script, hproper => by
      refine Meets.free (fun _ => trivial) (fun _ t hthis => ?_) _
      rw [hproper.1] at hthis
      cases hthis
  | .onUnload, hproper => hproper.elim
  | .execJS jinstanceid jnamespace jfunction jargs, _ => fixed_other hfixed rfl
  | .callNative args, _ => fixed_other hfixed rfl
  | .callAddElement args, _ => fixed_other hfixed rfl
  | .setTimeoutNative args, _ => fixed_other hfixed rfl
  | .nativeLog args, _ => fixed_other hfixed rfl

theorem initialised_body (hsucceeds : ∀ x s s', rely x s s' → Succeeds x) {s : World}
    {script : Option (List UInt16)} (hscript : ∃ units, script = some units ∧ V8.Fits units) :
    Meets rely (fun _ => True)
      (fun value t => value = .jint true ∧
        ∃ this context, t.resources = s.resources.initialised this context)
      (body (.initFramework script) s) := by
  obtain ⟨script, rfl, hscript⟩ := hscript
  have hcode : Triple rely (fun _ => True) (On (· = s.resources))
      (do pure (Returned.jint (← Bridge.initFramework (some script))))
      fun value => On fun r => value = .jint true ∧
        ∃ this context, r = s.resources.initialised this context :=
    Triple.bind (resources_initFramework hfixed hsucceeds s.resources hscript)
      fun ok t ht => ⟨congrArg Returned.jint ht.1, ht.2⟩
  exact on_withLocalFrame (on_withHandleScope hcode) s rfl

theorem held_body (hheld : ∀ x s s', rely x s s' → On Held s → On Held s')
    (hsucceeds : ∀ x s s', rely x s s' → Succeeds x) {s : World} (hs : On Held s) :
    ∀ {entry : Entry}, Proper s entry →
      Meets rely (fun _ => True) (fun _ t => On Held t) (body entry s)
  | .initFramework script, hproper => by
      refine (initialised_body hfixed hsucceeds hproper.2).mono ?_
      rintro value t ⟨-, this, context, ht⟩
      show Held t.resources
      rw [ht]
      exact Held.initialised hs hproper.1 this context
  | .onUnload, hproper => hproper.elim
  | .execJS jinstanceid jnamespace jfunction jargs, _ =>
      on_body hfixed (hheld _ _ _) Held.v8context _ rfl s hs
  | .callNative args, _ => on_body hfixed (hheld _ _ _) Held.v8context _ rfl s hs
  | .callAddElement args, _ => on_body hfixed (hheld _ _ _) Held.v8context _ rfl s hs
  | .setTimeoutNative args, _ => on_body hfixed (hheld _ _ _) Held.v8context _ rfl s hs
  | .nativeLog args, _ => on_body hfixed (hheld _ _ _) Held.v8context _ rfl s hs

end

end

/-- Once initialised the entry points leave the resources as they are, and between two calls
what is held is what `Held` says. -/
def heldContract : Contract body where
  keeps _ := Fixed
  base s s' := On Held s → On Held s'
  safe _ := True
  valid := Succeeds
  admits _ _ := True
  admitted := Proper
  keeps_refl _ := Fixed.refl
  keeps_trans := Fixed.trans
  base_refl _ := id
  base_trans h h' := h' ∘ h
  keeps_body _ hproper _ := fixed_body (fun _ _ _ hr => hr.2) hproper
  base_body {e s} hproper _ := by
    by_cases hs : On Held s
    · exact (held_body (fun _ _ _ hr => hr.1.2.2) (fun _ _ _ hr => hr.2) (fun _ _ _ hr => hr.1.1)
        hs hproper).mono fun ht => ⟨fun _ => ht, trivial⟩
    · exact Meets.free (fun _ => trivial) (fun _ t => ⟨fun hs' => absurd hs' hs, trivial⟩) _

/-- The moves of the runs in which `initFramework` is called once, with a script, and
succeeds, and in which there are no options. -/
def ProperMove (c : BridgeConfig) : BridgeMove → Prop
  | .enter entry => Proper c.state entry
  | .answer x => Succeeds x

/-- Nothing is held. -/
structure Released (s : World) : Prop where
  globalRefs : s.globalRefs = []
  contexts : s.contexts = []
  chars : s.chars = []

theorem diff_of_perm : ∀ {l l' : List Nat}, l.Perm l' → l.diff l' = []
  | l, [], h => h.eq_nil
  | l, id :: l', h => by
      have hrest := h.erase id
      rw [List.erase_cons_head] at hrest
      rw [List.diff_cons]
      exact diff_of_perm hrest

theorem dispose_eq (context : Option Context) (s : World) : Bridge.dispose context s =
    .done () { s with contexts := s.contexts.diff (context.toList.map Context.id) } := by
  cases context with
  | none => rfl
  | some context =>
      show Result.done () { s with contexts := s.contexts.erase context.id } = _
      rw [Option.toList_some, List.map_singleton, List.diff_cons, List.diff_nil]

theorem deleteGlobalRef_eq (r : Option Nat) (s : World) : Bridge.deleteGlobalRef r s =
    .done () { s with globalRefs := s.globalRefs.diff r.toList } := by
  cases r with
  | none => rfl
  | some r =>
      show Result.done () { s with globalRefs := s.globalRefs.erase r } = _
      rw [Option.toList_some, List.diff_cons, List.diff_nil]

theorem onUnload_eq (s : World) : Bridge.onUnload s = .done ()
    { s with
      contexts := s.contexts.diff (s.v8context.toList.map Context.id)
      globalRefs := s.globalRefs.diff (s.jBridgeClazz.toList ++ s.jThis.toList) } := by
  show ((Bridge.dispose s.v8context s).bind _) = _
  rw [dispose_eq]
  show ((Bridge.deleteGlobalRef s.jBridgeClazz _).bind _) = _
  rw [deleteGlobalRef_eq]
  show Bridge.deleteGlobalRef s.jThis _ = _
  rw [deleteGlobalRef_eq, List.diff_append]

theorem Held.length_le {r : Resources} (hr : Held r) : r.globalRefs.length ≤ 2 := by
  rw [hr.globalRefs.length_eq, List.length_append]
  exact Nat.add_le_add Option.length_toList_le Option.length_toList_le

/-- `JNI_OnUnload` releases what is held between two calls. -/
theorem released_onUnload {s : World} (hs : On Held s) :
    ∃ t, body .onUnload s = .done .void t ∧ Released t := by
  have hrun : body .onUnload s = .done .void { s with
      contexts := s.contexts.diff (s.v8context.toList.map Context.id)
      globalRefs := s.globalRefs.diff (s.jBridgeClazz.toList ++ s.jThis.toList) } := by
    show ((Bridge.onUnload { s with localRefs := [] }).bind _).bind _ = _
    rw [onUnload_eq]
    rfl
  have hcontexts : s.contexts = s.v8context.toList.map Context.id := hs.contexts
  refine ⟨_, hrun, diff_of_perm hs.globalRefs, ?_, hs.chars⟩
  show s.contexts.diff _ = []
  rw [hcontexts]
  exact diff_of_perm (.refl _)

/-- In every run of such moves: whenever the last call has returned to Java the resources held
are the class, `jThis` and `V8context`, and `JNI_OnUnload` would leave nothing; a call of
`initFramework` that fails has changed nothing; and once there is a `jThis` neither has any
other call, at whatever depth. -/
theorem held_of_proper {platform : Platform} {c : BridgeConfig}
    (hc : Reachable body ProperMove (.loaded platform) c) :
    (c.stack = [] → c.crashed = false → On Held c.state ∧
      ∃ t, body .onUnload c.state = .done .void t ∧ Released t) ∧
    (∀ i ∈ c.log, i.outcome = .returned (.jint false) → ∀ script,
      i.entry = .initFramework script → i.final.resources = i.start.resources) ∧
    ∀ i ∈ c.log, i.outcome.isReturned = true → i.start.jThis.isSome = true →
      i.final.resources = i.start.resources := by
  have hadmits : ∀ {c m}, ProperMove c m → heldContract.Admits c m := by
    intro c m hm
    cases m with
    | enter entry => exact ⟨hm, fun _ _ => trivial⟩
    | answer x => exact hm
  refine ⟨fun hidle hcrashed => ?_, fun i hi hreturned script hentry => ?_,
    fun i hi hreturned hthis => ?_⟩
  · have hloaded : On Held (World.loaded platform) :=
      ⟨rfl, .refl _, rfl, rfl, fun _ => rfl⟩
    have hheld := heldContract.base_of_idle hadmits trivial hc hidle hcrashed hloaded
    exact ⟨hheld, released_onUnload hheld⟩
  · obtain ⟨hproper, -, hruns⟩ := heldContract.runs_log hadmits trivial hc hi
    rw [hentry] at hproper hruns
    rw [hreturned] at hruns
    have hvalue := ((initialised_body (fun _ _ _ hr => hr.2.2) (fun _ _ _ hr => hr.1)
      hproper.2).of_runs hruns).1
    cases hvalue
  · obtain ⟨hproper, -, hruns⟩ := heldContract.runs_log hadmits trivial hc hi
    cases ho : i.outcome with
    | crashed =>
        rw [ho] at hreturned
        cases hreturned
    | returned value =>
        rw [ho] at hruns
        exact (fixed_body (fun _ _ _ hr => hr.2.2) hproper).of_runs hruns hthis

theorem succeeds_of_usual {x : Exchange Answer} (hx : x.answer = x.question.usual) :
    Succeeds x := by
  obtain ⟨question, answer⟩ := x
  cases question with
  | compile source => exact hx
  | run =>
      cases hx
      rfl
  | options =>
      cases hx
      exact fun options h => (Option.some.inj (Option.some.inj h)).symm
  | _ => trivial

/-- `initFramework`, and then a call of `execJS`. -/
theorem held_execJS : On Held ((body (.execJS none none (some [0x66]) [])
    (.initialised .plain)).play Question.usual).2.2 := by
  have husual : ∀ x : Exchange Answer, x.answer = x.question.usual →
      ∀ c, ProperMove c (.answer x) := fun x hx _ => succeeds_of_usual hx
  have hinit : ProperMove (initial (.loaded .plain)) (.enter (.initFramework (some []))) :=
    ⟨rfl, [], rfl, by decide⟩
  obtain ⟨c, hc, hstate, hstack, hcrashed⟩ := reachable_initialised hinit husual
  have hentry : ProperMove c (.enter (.execJS none none (some [0x66]) [])) := trivial
  obtain ⟨c', hc', hstate', hstack', -, hcrashed'⟩ :=
    reachable_play hc hcrashed hentry Question.usual husual
  rw [hstate] at hstate' hcrashed'
  have hreturned : ((body (.execJS none none (some [0x66]) []) (.initialised .plain)).play
      Question.usual).2.1.isReturned = true := by decide +kernel
  rw [hreturned] at hcrashed'
  have hheld := (held_of_proper hc').1 (hstack'.trans hstack) hcrashed'
  rw [hstate'] at hheld
  exact hheld.1

/-- A second `initFramework` leaves a third global reference. -/
theorem not_held : ¬ ∀ {platform c}, AnyRun platform c → c.stack = [] → c.crashed = false →
    On Held c.state := by
  intro h
  let entry : Entry := .initFramework (some [])
  obtain ⟨c, hc, hstate, hstack, hcrashed⟩ : ∃ c : BridgeConfig, AnyRun .plain c ∧
      c.state = .initialised .plain ∧ c.stack = [] ∧ c.crashed = false :=
    reachable_initialised trivial fun _ _ _ => trivial
  obtain ⟨c', hc', hstate', hstack', -, hcrashed'⟩ :=
    reachable_play hc hcrashed (trivial : (fun _ _ => True) c (Move.enter entry)) Question.usual
      fun _ _ _ => trivial
  rw [hstate] at hstate' hcrashed'
  have hreturned : ((body entry (.initialised .plain)).play
      Question.usual).2.1.isReturned = true := by decide +kernel
  have hlength : ¬ ((body entry (.initialised .plain)).play
      Question.usual).2.2.resources.globalRefs.length ≤ 2 := by decide +kernel
  rw [hreturned] at hcrashed'
  have hheld := h hc' (hstack'.trans hstack) hcrashed'
  rw [hstate'] at hheld
  exact hlength hheld.length_le

end WeexBridge
