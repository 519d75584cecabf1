/-
# What the callbacks hand to Java

An invocation of `callNative`, `callAddElement` or `setTimeoutNative` as its
history shows it: one part for each conversion, each with the parameter it makes,
and at the end the call of the Java method with these parameters.  An invocation
that crashes has not called Java.  A text that cannot be written makes it crash.

    Text        `ToString` of a value, and its result
    StringPart  an argument as a Java string
    Stringify   `JSON.stringify` of an object, and its result as a byte array
    TaskPart    `args[1]` of `callNative`
    DomPart     `args[2]` of `callAddElement`
-/
import WeexBridge.Bridge.System

namespace WeexBridge

open Reentrant CodeUnits

abbrev BridgeExchange := Exchange Answer
abbrev History := List BridgeExchange

/-- A call of a Java method. -/
def Question.IsJava : Question → Prop
  | .java _ _ _ => True
  | _ => False

/-- Nothing of Java has been called. -/
def NoJava (h : History) : Prop := ∀ x ∈ h, ¬ x.question.IsJava

theorem noJava_nil : NoJava [] := fun _ hx => absurd hx List.not_mem_nil

theorem NoJava.append {h h' : History} (hh : NoJava h) (hh' : NoJava h') : NoJava (h ++ h') := by
  intro x hx
  rcases List.mem_append.mp hx with hx | hx
  · exact hh x hx
  · exact hh' x hx

/-- The calls of Java in a history: the method, the object, the parameters and the
result. -/
def javaCalls : History → List (JavaMethod × Option Nat × List (Option JavaObject) × Int)
  | [] => []
  | ⟨.java method this params, flag⟩ :: h => (method, this, params, flag) :: javaCalls h
  | _ :: h => javaCalls h

theorem mem_of_mem_javaCalls {method : JavaMethod} {this : Option Nat}
    {params : List (Option JavaObject)} {flag : Int} : ∀ {h : History},
    (method, this, params, flag) ∈ javaCalls h → ⟨.java method this params, flag⟩ ∈ h
  | [], hm => absurd hm List.not_mem_nil
  | ⟨question, a⟩ :: h, hm => by
      cases question with
      | java method' this' params' =>
          rcases List.mem_cons.mp hm with heq | hm
          · cases heq
            exact List.mem_cons_self
          · exact List.mem_cons_of_mem _ (mem_of_mem_javaCalls hm)
      | _ => exact List.mem_cons_of_mem _ (mem_of_mem_javaCalls hm)

/-! ## Strings -/

/-- What `NewStringUTF` makes of a JavaScript string. -/
def javaString (s : HeapString) : JavaObject := .stringUTF (cString (utf8 s.units))

/-- What `ToCString`, `NewByteArray` and `SetByteArrayRegion` make of one, or of none:
as many bytes as an `int` holds of the length. -/
def javaBytes (a : Option HeapString) : JavaObject :=
  let bytes := (a.map fun s => cString (utf8 s.units)).getD
    (cString (Bridge.cLiteral "<string conversion failed>"))
  .byteArray (bytes.take (Bridge.jint bytes.length).toNat)

/-- `ToString` of a value, with its history. -/
inductive Text (site : TextSite) : Value → History → Option HeapString → Prop where
  | itself (s : HeapString) : Text site (.string s) [] (some s)
  | asked {v : Value} (a : Option HeapString) : v.isString = false →
      Text site v [⟨.toString site v, a⟩] a

theorem Text.noJava {site : TextSite} {v : Value} {h : History} {a : Option HeapString}
    (ht : Text site v h a) : NoJava h := by
  cases ht with
  | itself s => exact noJava_nil
  | asked a hv =>
      intro x hx
      rw [List.mem_singleton.mp hx]
      exact id

/-- The same for a handle. -/
inductive HandleText (site : TextSite) : Handle → History → Option HeapString → Prop where
  | empty : HandleText site none [] none
  | value {v : Value} {h : History} {a : Option HeapString} : Text site v h a →
      HandleText site (some v) h a

theorem HandleText.noJava {site : TextSite} {v : Handle} {h : History} {a : Option HeapString}
    (ht : HandleText site v h a) : NoJava h := by
  cases ht with
  | empty => exact noJava_nil
  | value ht => exact ht.noJava

/-- `WriteUtf8` can write the text, if there is one. -/
def Writes (a : Option HeapString) : Prop := ∀ s, a = some s → s.tree.Writable

theorem writes_none : Writes none := nofun

/-- What a buffer of `Utf8Value` says as a C string. -/
structure BufferOf (a : Option HeapString) (buffer : Option (List UInt8)) : Prop where
  cString : buffer.map cString = a.map fun s => cString (utf8 s.units)
  writes : Writes a

namespace Bridge

variable {rely : Exchange Answer → World → World → Prop}

theorem returns_valueToString (site : TextSite) (v : Value) :
    Returns rely (valueToString site v) (Text site v) := by
  cases v with
  | string s =>
      refine (Returns.pure (some s)).consequence fun hp => ?_
      obtain ⟨rfl, rfl⟩ := hp
      exact Text.itself s
  | _ =>
      refine (Returns.ask _).consequence fun {h a} hp => ?_
      cases hp
      exact Text.asked a rfl

theorem returns_utf8Value (site : TextSite) (v : Handle) : Returns rely (utf8Value site v)
    fun h buffer => ∃ a, HandleText site v h a ∧ BufferOf a buffer := by
  cases v with
  | none =>
      refine (Returns.pure none).consequence fun hp => ?_
      obtain ⟨rfl, rfl⟩ := hp
      exact ⟨none, HandleText.empty, rfl, writes_none⟩
  | some v =>
      refine (returns_valueToString site v).bind fun {a h₁} ht => ?_
      cases a with
      | none =>
          refine (Returns.pure none).consequence fun hp => ?_
          obtain ⟨rfl, rfl⟩ := hp
          rw [List.append_nil]
          exact ⟨none, HandleText.value ht, rfl, writes_none⟩
      | some s =>
          refine (Returns.read _).skip fun platform => ?_
          by_cases hwritable : s.tree.Writable
          · obtain ⟨rest, hrest⟩ := V8.utf8Value_eq platform.fill platform.garbage s.wellFormed
              s.length_le hwritable
            simp only [hrest]
            refine (Returns.pure _).consequence fun hp => ?_
            obtain ⟨rfl, rfl⟩ := hp
            rw [List.append_nil]
            refine ⟨some s, HandleText.value ht,
              congrArg some (cString_append (utf8 s.units) rest), fun s' hs' => ?_⟩
            cases hs'
            exact hwritable
          · simp only [V8.utf8Value_eq_none platform.fill platform.garbage s.wellFormed
              s.length_le hwritable]
            exact Returns.crash

/-! ## Java objects -/

theorem returns_newLocalRef (object : JavaObject) :
    Returns rely (newLocalRef object) fun h r => h = [] ∧ r.object = object := by
  refine (Returns.read _).skip fun id => (Returns.modify _).skip fun _ => ?_
  refine (Returns.pure _).consequence fun hp => ?_
  obtain ⟨rfl, rfl⟩ := hp
  exact ⟨rfl, rfl⟩

theorem returns_newStringUTF (memory : Option (List UInt8)) : Returns rely (newStringUTF memory)
    fun h r => h = [] ∧ JObject.content r = (memory.map cString).map .stringUTF := by
  cases memory with
  | none =>
      refine (Returns.pure none).consequence fun hp => ?_
      obtain ⟨rfl, rfl⟩ := hp
      exact ⟨rfl, rfl⟩
  | some memory =>
      refine (returns_newLocalRef _).then fun {r} hr => (Returns.pure _).consequence fun hp => ?_
      obtain ⟨rfl, rfl⟩ := hp
      exact ⟨rfl, congrArg some hr⟩

theorem returns_newByteArray {a : Option HeapString} {buffer : Option (List UInt8)}
    (hbuffer : BufferOf a buffer) : Returns rely (newByteArray (toCString buffer))
      fun h r => h = [] ∧ JObject.content r = some (javaBytes a) := by
  have hbytes : cString (toCString buffer) = (a.map fun s => cString (utf8 s.units)).getD
      (cString (cLiteral "<string conversion failed>")) := by
    rw [← hbuffer.cString]
    cases buffer with
    | none => rfl
    | some buffer => rfl
  simp only [newByteArray, hbytes]
  split_ifs
  · exact Returns.crash
  · refine (returns_newLocalRef _).then fun {r} hr => (Returns.pure _).consequence fun hp => ?_
    obtain ⟨rfl, rfl⟩ := hp
    exact ⟨rfl, congrArg some hr⟩

theorem returns_deleteLocalRef (r : JObject) :
    Returns rely (deleteLocalRef r) fun h _ => h = [] := by
  cases r with
  | none => exact (Returns.pure ()).consequence And.left
  | some r => exact Returns.modify _

theorem returns_callJava (method : JavaMethod) (args : List JObject) :
    Returns rely (callJava method args) fun h flag => ∃ this,
      h = [⟨.java method this (args.map JObject.content), flag⟩] := by
  refine (Returns.read _).skip fun this => (Returns.ask _).consequence fun hp => ?_
  exact ⟨this, hp⟩

end Bridge

/-! ## Arguments -/

/-- The argument is the string `s`, or `s` is what `ToString` answered for it. -/
def IsText (args : Arguments) (i : Nat) (h : History) (s : HeapString) : Prop :=
  args.get i = some (.string s) ∨ ∃ v, args.get i = some v ∧ v.isString = false ∧
    ⟨.toString (.argument i) v, some s⟩ ∈ h

theorem IsText.mono {args : Arguments} {i : Nat} {h h' : History} {s : HeapString}
    (hle : h ⊆ h') (hs : IsText args i h s) : IsText args i h' s := by
  rcases hs with hs | ⟨v, hv, hstring, hm⟩
  · exact Or.inl hs
  · exact Or.inr ⟨v, hv, hstring, hle hm⟩

/-- `WriteUtf8` can write the texts of these arguments. -/
def TextsWritable (args : Arguments) (sites : List Nat) (h : History) : Prop :=
  ∀ i ∈ sites, ∀ s, IsText args i h s → s.tree.Writable

theorem TextsWritable.mono {args : Arguments} {sites : List Nat} {h h' : History}
    (hle : h ⊆ h') (hw : TextsWritable args sites h') : TextsWritable args sites h :=
  fun i hi s hs => hw i hi s (hs.mono hle)

/-- An argument as a Java string: `NULL` where the conversion fails. -/
inductive StringPart (args : Arguments) (i : Nat) : History → Option JavaObject → Prop where
  | intro {v : Value} {h : History} {a : Option HeapString} : args.get i = some v →
      Text (.argument i) v h a → Writes a → StringPart args i h (a.map javaString)

theorem StringPart.noJava {args : Arguments} {i : Nat} {h : History} {p : Option JavaObject}
    (hp : StringPart args i h p) : NoJava h := by
  cases hp with
  | intro _ ht _ => exact ht.noJava

/-- `json = global->Get("JSON")` and the read of its member. -/
def jsonHead (name : String) (global : Nat) (json member : Value) : History :=
  [⟨.get .jsonObject (.object global) (.literal "JSON"), some json⟩,
   ⟨.get .jsonMember json (.literal name), some member⟩]

theorem noJava_jsonHead (name : String) (global : Nat) (json member : Value) :
    NoJava (jsonHead name global json member) := by
  intro x hx
  rcases List.mem_cons.mp hx with rfl | hx
  · exact id
  · rw [List.mem_singleton.mp hx]
    exact id

/-- `JSON.stringify` of the object `v`, as a byte array. -/
inductive Stringify (v : Value) : History → Option JavaObject → Prop where
  /-- It is called, and its result converted. -/
  | called {global json stringify receiver ret h a} : HandleText .json ret h a → Writes a →
      Stringify v (jsonHead "stringify" global json stringify ++
        ⟨.call .jsonMember stringify receiver [v], ret⟩ :: h) (some (javaBytes a))
  /-- There is no function to call. -/
  | noFunction {global json stringify receiver} : stringify.isFunction = false →
      Stringify v (jsonHead "stringify" global json stringify ++
        [⟨.callNonFunction .jsonMember stringify receiver [some v], ()⟩]) (some (javaBytes none))

theorem Stringify.noJava {v : Value} {h : History} {p : Option JavaObject}
    (hs : Stringify v h p) : NoJava h := by
  cases hs with
  | called ht _ =>
      refine (noJava_jsonHead _ _ _ _).append fun x hx => ?_
      rcases List.mem_cons.mp hx with rfl | hx
      · exact id
      · exact ht.noJava x hx
  | noFunction _ =>
      refine (noJava_jsonHead _ _ _ _).append fun x hx => ?_
      rw [List.mem_singleton.mp hx]
      exact id

/-- A payload of `callNative`: an object, a string, or nothing. -/
inductive TaskPart (args : Arguments) : History → Option JavaObject → Prop where
  | object {v h p} : args.get 1 = some v → v.isObject = true → Stringify v h p → TaskPart args h p
  | string {s} : args.get 1 = some (.string s) → s.tree.Writable →
      TaskPart args [] (some (javaBytes (some s)))
  | other {v} : args.get 1 = some v → v.isObject = false → v.isString = false →
      TaskPart args [] none

/-- A payload of `callAddElement`: an object, or nothing. -/
inductive DomPart (args : Arguments) : History → Option JavaObject → Prop where
  | object {v h p} : args.get 2 = some v → v.isObject = true → Stringify v h p → DomPart args h p
  | other {v} : args.get 2 = some v → v.isObject = false → DomPart args [] none

theorem TaskPart.noJava {args : Arguments} {h : History} {p : Option JavaObject}
    (ht : TaskPart args h p) : NoJava h := by
  cases ht with
  | object _ _ hs => exact hs.noJava
  | string _ _ => exact noJava_nil
  | other _ _ _ => exact noJava_nil

theorem DomPart.noJava {args : Arguments} {h : History} {p : Option JavaObject}
    (ht : DomPart args h p) : NoJava h := by
  cases ht with
  | object _ _ hs => exact hs.noJava
  | other _ _ => exact noJava_nil


namespace Bridge

variable {rely : Exchange Answer → World → World → Prop}

theorem returns_newStringOf (args : Arguments) (i : Nat) : Returns rely (newStringOf args i)
    fun h r => StringPart args i h (JObject.content r) := by
  refine (returns_utf8Value _ _).bind fun {buffer h₁} hv => ?_
  obtain ⟨a, ht, hbuffer⟩ := hv
  refine (returns_newStringUTF buffer).consequence fun hp => ?_
  obtain ⟨rfl, hr⟩ := hp
  rw [List.append_nil, hr, hbuffer.cString, Option.map_map]
  cases ht with
  | value ht => exact StringPart.intro rfl ht hbuffer.writes

theorem returns_stringArgument (args : Arguments) (i : Nat) :
    Returns rely (stringArgument args i) fun h r => StringPart args i h (JObject.content r) :=
  returns_newStringOf args i

theorem returns_globalObject : Returns rely globalObject
    fun h v => h = [] ∧ ∃ global, v = .object global := by
  refine (Returns.read _).skip fun context => ?_
  cases context with
  | none => exact Returns.crash
  | some context => exact (Returns.pure _).consequence fun hp => ⟨hp.1, _, hp.2⟩

theorem returns_objectGet (site : GetSite) (receiver : Handle) (key : Option HeapString) :
    Returns rely (objectGet site receiver key) fun h a => ∃ v name, receiver = some v ∧
      key = some name ∧ v.isSmi = false ∧ h = [⟨.get site v name, a⟩] := by
  cases receiver with
  | none => exact Returns.crash
  | some v =>
      cases key with
      | none => exact Returns.crash
      | some name =>
          simp only [objectGet]
          split_ifs with hsmi
          · exact Returns.crash
          · exact (Returns.ask _).consequence fun hp =>
              ⟨v, name, rfl, rfl, eq_false_of_ne_true hsmi, hp⟩

/-- A call of a function is answered; of anything else it throws. -/
theorem returns_functionCall (site : GetSite) (callee receiver : Handle) (args : List Handle) :
    Returns rely (functionCall site callee receiver args) fun h a => ∃ f, callee = some f ∧
      f.isSmi = false ∧ ((∃ v values, f.isFunction = true ∧ receiver = some v ∧
          args.mapM id = some values ∧ h = [⟨.call site f v values, a⟩]) ∨
        (f.isFunction = false ∧ a = none ∧ h = [⟨.callNonFunction site f receiver args, ()⟩])) := by
  cases callee with
  | none => exact Returns.crash
  | some f =>
      simp only [functionCall]
      split_ifs with hsmi hfunction
      · exact Returns.crash
      · split
        · rename_i v values hvalues
          refine (Returns.ask _).consequence fun hp => ?_
          exact ⟨f, rfl, eq_false_of_ne_true hsmi,
            Or.inl ⟨v, values, hfunction, rfl, hvalues, hp⟩⟩
        · exact Returns.crash
      · refine (Returns.ask _).bind fun hv => (Returns.pure none).consequence fun hp => ?_
        obtain ⟨rfl, rfl⟩ := hp
        exact ⟨f, rfl, eq_false_of_ne_true hsmi, Or.inr ⟨eq_false_of_ne_true hfunction, rfl, by
          rw [hv, List.append_nil]⟩⟩

theorem returns_use (var : GlobalHandle) : Returns rely (use var) fun h _ => h = [] :=
  (Returns.modify _).skip fun _ => Returns.read _

/-- A value that is put into a global handle and taken out at once is the same. -/
theorem returns_store_use {β : Type} (var : GlobalHandle) (value : Handle)
    {f : Handle → Bridge β} {post : History → β → Prop} (hf : Returns rely (f value) post) :
    Returns rely (do store var value; let h ← use var; f h) post := by
  intro s h v t hr
  cases var with
  | _ => exact hf _ h v t hr

theorem returns_stringifyToBytes (v : Value) : Returns rely (stringifyToBytes (some v))
    fun h r => Stringify v h (JObject.content r) := by
  refine returns_globalObject.then fun hglobal => ?_
  obtain ⟨global, rfl⟩ := hglobal
  refine (returns_objectGet _ _ _).bind fun {json h₁} hjson => ?_
  obtain ⟨_, _, hv, hname, -, rfl⟩ := hjson
  cases hv
  cases hname
  refine returns_store_use .json json ((returns_objectGet _ _ _).bind fun {stringify h₂} hget => ?_)
  obtain ⟨json, _, rfl, hname, -, rfl⟩ := hget
  cases hname
  refine returns_store_use .jsonStringify stringify ((returns_use .json).skip fun receiver => ?_)
  refine (returns_functionCall _ _ _ _).bind fun {ret h₃} hret => ?_
  obtain ⟨stringify, rfl, -, ⟨receiver, values, -, rfl, hvalues, rfl⟩ |
    ⟨hfunction, rfl, rfl⟩⟩ := hret
  · cases hvalues
    refine (returns_utf8Value _ _).bind fun {buffer h₄} hbuffer => ?_
    obtain ⟨a, ht, hbuffer⟩ := hbuffer
    have hwrites := hbuffer.writes
    refine (returns_newByteArray hbuffer).consequence fun {h r} hp => ?_
    obtain ⟨rfl, hr⟩ := hp
    rw [List.append_nil, hr]
    exact Stringify.called ht hwrites
  · refine (returns_utf8Value _ _).bind fun {buffer h₄} hbuffer => ?_
    obtain ⟨a, ht, hbuffer⟩ := hbuffer
    cases ht
    refine (returns_newByteArray hbuffer).consequence fun {h r} hp => ?_
    obtain ⟨rfl, hr⟩ := hp
    rw [List.append_nil, hr]
    exact Stringify.noFunction hfunction

theorem returns_stringToBytes (i : Nat) (s : HeapString) :
    Returns rely (stringToBytes i (some (.string s)))
      fun h r => h = [] ∧ s.tree.Writable ∧ JObject.content r = some (javaBytes (some s)) := by
  refine (returns_utf8Value _ _).bind fun {buffer h₁} hbuffer => ?_
  obtain ⟨a, ht, hbuffer⟩ := hbuffer
  cases buffer with
  | none => exact Returns.crash
  | some tasks =>
      cases ht with
      | value ht =>
          cases ht with
          | itself =>
              exact (returns_newByteArray hbuffer).consequence fun hp =>
                ⟨hp.1, hbuffer.writes s rfl, hp.2⟩
          | asked _ hv => cases hv

theorem returns_taskArgument (args : Arguments) : Returns rely (taskArgument (args.get 1))
    fun h r => TaskPart args h (JObject.content r) := by
  generalize hv : args.get 1 = v
  cases v with
  | none => cases hv
  | some v =>
      simp only [taskArgument]
      split_ifs with hobject hstring
      · exact (returns_stringifyToBytes v).consequence (TaskPart.object hv hobject)
      · cases v with
        | string s =>
            refine (returns_stringToBytes 1 s).consequence fun hp => ?_
            obtain ⟨rfl, hwritable, hr⟩ := hp
            rw [hr]
            exact TaskPart.string hv hwritable
        | _ => cases hstring
      · refine (Returns.pure none).consequence fun hp => ?_
        obtain ⟨rfl, rfl⟩ := hp
        exact TaskPart.other hv (eq_false_of_ne_true hobject) (eq_false_of_ne_true hstring)

theorem returns_domArgument (args : Arguments) : Returns rely (domArgument (args.get 2))
    fun h r => DomPart args h (JObject.content r) := by
  generalize hv : args.get 2 = v
  cases v with
  | none => cases hv
  | some v =>
      simp only [domArgument]
      split_ifs with hobject
      · exact (returns_stringifyToBytes v).consequence (DomPart.object hv hobject)
      · refine (Returns.pure none).consequence fun hp => ?_
        obtain ⟨rfl, rfl⟩ := hp
        exact DomPart.other hv (eq_false_of_ne_true hobject)

end Bridge

/-! ## Callbacks -/

/-- The history of a callback: its conversions, and the call of Java. -/
inductive CallNativeRun (args : Arguments) : History → Prop where
  | intro {h₀ h₁ h₂ p₀ p₁ p₂ this flag} : StringPart args 0 h₀ p₀ → TaskPart args h₁ p₁ →
      StringPart args 2 h₂ p₂ → CallNativeRun args
        (h₀ ++ (h₁ ++ (h₂ ++ [⟨.java .callNative this [p₀, p₁, p₂], flag⟩])))

inductive CallAddElementRun (args : Arguments) : History → Prop where
  | intro {h₀ h₁ h₂ h₃ h₄ p₀ p₁ p₂ p₃ p₄ this flag} : StringPart args 0 h₀ p₀ →
      StringPart args 1 h₁ p₁ → DomPart args h₂ p₂ → StringPart args 3 h₃ p₃ →
      StringPart args 4 h₄ p₄ → CallAddElementRun args
        (h₀ ++ (h₁ ++ (h₂ ++ (h₃ ++ (h₄ ++
          [⟨.java .callAddElement this [p₀, p₁, p₂, p₃, p₄], flag⟩])))))

inductive SetTimeoutNativeRun (args : Arguments) : History → Prop where
  | intro {h₀ h₁ p₀ p₁ this flag} : StringPart args 0 h₀ p₀ → StringPart args 1 h₁ p₁ →
      SetTimeoutNativeRun args (h₀ ++ (h₁ ++ [⟨.java .setTimeoutNative this [p₀, p₁], flag⟩]))

namespace Bridge

variable {rely : Exchange Answer → World → World → Prop}

theorem returns_callNative (args : Arguments) :
    Returns rely (callNative args) fun h _ => CallNativeRun args h := by
  refine (returns_stringArgument args 0).bind fun h₀ => ?_
  refine (returns_taskArgument args).bind fun h₁ => ?_
  refine (returns_stringArgument args 2).bind fun h₂ => (Returns.modify _).skip fun _ => ?_
  refine (returns_callJava _ _).bind fun hjava => ?_
  obtain ⟨this, rfl⟩ := hjava
  refine (returns_deleteLocalRef _).skip fun _ => (returns_deleteLocalRef _).skip fun _ =>
    (returns_deleteLocalRef _).skip fun _ => (Returns.pure _).consequence fun hp => ?_
  rw [hp.1, List.append_nil]
  exact CallNativeRun.intro h₀ h₁ h₂

theorem returns_callAddElement (args : Arguments) :
    Returns rely (callAddElement args) fun h _ => CallAddElementRun args h := by
  refine (returns_stringArgument args 0).bind fun h₀ => ?_
  refine (returns_stringArgument args 1).bind fun h₁ => ?_
  refine (returns_domArgument args).bind fun h₂ => ?_
  refine (returns_stringArgument args 3).bind fun h₃ => ?_
  refine (returns_stringArgument args 4).bind fun h₄ => (Returns.modify _).skip fun _ => ?_
  refine (returns_callJava _ _).bind fun hjava => ?_
  obtain ⟨this, rfl⟩ := hjava
  refine (returns_deleteLocalRef _).skip fun _ => (returns_deleteLocalRef _).skip fun _ =>
    (returns_deleteLocalRef _).skip fun _ => (returns_deleteLocalRef _).skip fun _ =>
      (returns_deleteLocalRef _).skip fun _ => (Returns.pure _).consequence fun hp => ?_
  rw [hp.1, List.append_nil]
  exact CallAddElementRun.intro h₀ h₁ h₂ h₃ h₄

theorem returns_setTimeoutNative (args : Arguments) :
    Returns rely (setTimeoutNative args) fun h _ => SetTimeoutNativeRun args h := by
  refine (returns_newStringOf args 0).bind fun h₀ => ?_
  refine (returns_newStringOf args 1).bind fun h₁ => (Returns.modify _).skip fun _ => ?_
  refine (returns_callJava _ _).bind fun hjava => ?_
  obtain ⟨this, rfl⟩ := hjava
  refine (returns_deleteLocalRef _).skip fun _ => (returns_deleteLocalRef _).skip fun _ =>
    (Returns.pure _).consequence fun hp => ?_
  rw [hp.1, List.append_nil]
  exact SetTimeoutNativeRun.intro h₀ h₁

theorem returns_withHandleScope {α : Type} {code : Bridge α} {post : History → α → Prop}
    (hc : Returns rely code post) : Returns rely (withHandleScope code) post := by
  refine (Returns.modify _).skip fun _ => hc.bind fun hv => (Returns.modify _).skip fun _ => ?_
  refine (Returns.pure _).consequence fun hp => ?_
  obtain ⟨rfl, rfl⟩ := hp
  rwa [List.append_nil]

/-- A callback as an entry point. -/
theorem returns_scoped {α β : Type} {code : Bridge α} (f : α → β) {post : History → Prop}
    (hc : Returns rely code fun h _ => post h) :
    Returns rely (withHandleScope do pure (f (← code))) fun h _ => post h := by
  refine returns_withHandleScope (hc.bind fun hv => (Returns.pure _).consequence fun hp => ?_)
  rw [hp.1, List.append_nil]
  exact hv

/-! ### Crashes -/

/-- Whether it returns or crashes, it does not call Java. -/
structure Quiet (rely : Exchange Answer → World → World → Prop) {α : Type} (p : Bridge α) :
    Prop where
  returns : Returns rely p fun h _ => NoJava h
  crashes : Crashes rely p NoJava

namespace Quiet

theorem of_returns {α : Type} {p : Bridge α} (hr : Returns rely p fun h _ => h = [])
    (hc : Crashes rely p fun h => h = []) : Quiet rely p :=
  ⟨hr.consequence fun hp => hp ▸ noJava_nil, hc.consequence fun hp => hp ▸ noJava_nil⟩

theorem pure {α : Type} (value : α) : Quiet rely (Pure.pure value : Bridge α) :=
  of_returns ((Returns.pure value).consequence And.left) (Crashes.pure value)

theorem read {α : Type} (f : World → α) : Quiet rely (Program.read f : Bridge α) :=
  of_returns (Returns.read f) (Crashes.read f)

theorem modify (f : World → World) : Quiet rely (Program.modify f : Bridge Unit) :=
  of_returns (Returns.modify f) (Crashes.modify f)

theorem crash {α : Type} : Quiet rely (Program.crash : Bridge α) :=
  of_returns Returns.crash Crashes.crash

theorem ask {question : Question} (hq : ¬ question.IsJava) : Quiet rely (Bridge.ask question) := by
  refine ⟨(Returns.ask question).consequence fun hp x hx => ?_, Crashes.ask question⟩
  rw [hp] at hx
  rw [List.mem_singleton.mp hx]
  exact hq

theorem bind {α β : Type} {p : Bridge α} {f : α → Bridge β} (hp : Quiet rely p)
    (hf : ∀ value, Quiet rely (f value)) : Quiet rely (p >>= f) where
  returns := hp.returns.bind fun h₁ => (hf _).returns.consequence h₁.append
  crashes := Crashes.bind hp.returns hp.crashes fun h₁ => (hf _).crashes.consequence h₁.append

theorem ite {α : Type} {c : Prop} [Decidable c] {p q : Bridge α} (hp : Quiet rely p)
    (hq : Quiet rely q) : Quiet rely (if c then p else q) := by
  split_ifs
  · exact hp
  · exact hq

theorem valueToString (site : TextSite) (v : Value) :
    Quiet rely (Bridge.valueToString site v) := by
  cases v with
  | string s => exact Quiet.pure _
  | _ => exact Quiet.ask id

theorem utf8Value (site : TextSite) (arg : Handle) : Quiet rely (Bridge.utf8Value site arg) := by
  cases arg with
  | none => exact Quiet.pure _
  | some v =>
      refine (valueToString site v).bind fun s => ?_
      cases s with
      | none => exact Quiet.pure _
      | some s =>
          refine (Quiet.read _).bind fun platform => ?_
          split
          · exact Quiet.pure _
          · exact Quiet.crash

theorem newLocalRef (object : JavaObject) : Quiet rely (Bridge.newLocalRef object) :=
  (Quiet.read _).bind fun _ => (Quiet.modify _).bind fun _ => Quiet.pure _

theorem newStringUTF (memory : Option (List UInt8)) :
    Quiet rely (Bridge.newStringUTF memory) := by
  cases memory with
  | none => exact Quiet.pure _
  | some memory => exact (newLocalRef _).bind fun _ => Quiet.pure _

theorem newByteArray (memory : List UInt8) : Quiet rely (Bridge.newByteArray memory) := by
  simp only [Bridge.newByteArray]
  exact Quiet.crash.ite ((newLocalRef _).bind fun _ => Quiet.pure _)

theorem newStringOf (args : Arguments) (i : Nat) : Quiet rely (Bridge.newStringOf args i) :=
  (utf8Value _ _).bind fun _ => newStringUTF _

theorem stringArgument (args : Arguments) (i : Nat) :
    Quiet rely (Bridge.stringArgument args i) :=
  (newStringOf args i).ite (Quiet.pure _)

theorem globalObject : Quiet rely Bridge.globalObject := by
  refine (Quiet.read _).bind fun context => ?_
  cases context with
  | none => exact Quiet.crash
  | some context => exact Quiet.pure _

theorem objectGet (site : GetSite) (receiver : Handle) (key : Option HeapString) :
    Quiet rely (Bridge.objectGet site receiver key) := by
  cases receiver with
  | none => exact Quiet.crash
  | some v =>
      cases key with
      | none => exact Quiet.crash
      | some key => exact Quiet.crash.ite (Quiet.ask id)

theorem functionCall (site : GetSite) (callee receiver : Handle) (args : List Handle) :
    Quiet rely (Bridge.functionCall site callee receiver args) := by
  cases callee with
  | none => exact Quiet.crash
  | some f =>
      refine Quiet.crash.ite (Quiet.ite ?_ ((Quiet.ask id).bind fun _ => Quiet.pure _))
      split
      · exact Quiet.ask id
      · exact Quiet.crash

theorem use (var : GlobalHandle) : Quiet rely (Bridge.use var) :=
  (Quiet.modify _).bind fun _ => Quiet.read _

theorem stringifyToBytes (arg : Handle) : Quiet rely (Bridge.stringifyToBytes arg) :=
  globalObject.bind fun _ => (objectGet _ _ _).bind fun _ => (Quiet.modify _).bind fun _ =>
    (use .json).bind fun _ => (objectGet _ _ _).bind fun _ => (Quiet.modify _).bind fun _ =>
      (use .jsonStringify).bind fun _ => (use .json).bind fun _ => (functionCall _ _ _ _).bind
        fun _ => (utf8Value _ _).bind fun _ => newByteArray _

theorem taskArgument (arg : Handle) : Quiet rely (Bridge.taskArgument arg) := by
  cases arg with
  | none => exact Quiet.pure _
  | some v =>
      refine (stringifyToBytes _).ite (Quiet.ite ?_ (Quiet.pure _))
      refine (utf8Value _ _).bind fun tasks => ?_
      cases tasks with
      | none => exact Quiet.crash
      | some tasks => exact newByteArray tasks

theorem domArgument (arg : Handle) : Quiet rely (Bridge.domArgument arg) := by
  cases arg with
  | none => exact Quiet.crash
  | some v => exact (stringifyToBytes _).ite (Quiet.pure _)

end Quiet

/-- It never crashes. -/
def Steady (rely : Exchange Answer → World → World → Prop) {α : Type} (p : Bridge α) : Prop :=
  Crashes rely p fun _ => False

namespace Steady

theorem bind {α β : Type} {p : Bridge α} {f : α → Bridge β} (hp : Steady rely p)
    (hf : ∀ value, Steady rely (f value)) : Steady rely (p >>= f) :=
  Crashes.bind (M := fun _ _ => True) (fun _ _ _ _ _ => trivial) hp fun {value _} _ => hf value

theorem pure {α : Type} (value : α) : Steady rely (Pure.pure value : Bridge α) :=
  Crashes.pure value

theorem valueToString (site : TextSite) (v : Value) :
    Steady rely (Bridge.valueToString site v) := by
  cases v with
  | string s => exact Steady.pure _
  | _ => exact Crashes.ask _

theorem newLocalRef (object : JavaObject) : Steady rely (Bridge.newLocalRef object) :=
  Steady.bind (Crashes.read _) fun _ => Steady.bind (Crashes.modify _) fun _ => Steady.pure _

theorem newStringUTF (memory : Option (List UInt8)) :
    Steady rely (Bridge.newStringUTF memory) := by
  cases memory with
  | none => exact Steady.pure _
  | some memory => exact (newLocalRef _).bind fun _ => Steady.pure _

theorem deleteLocalRef (r : JObject) : Steady rely (Bridge.deleteLocalRef r) := by
  cases r with
  | none => exact Crashes.pure _
  | some r => exact Crashes.modify _

theorem callJava (method : JavaMethod) (args : List JObject) :
    Steady rely (Bridge.callJava method args) :=
  bind (Crashes.read _) fun _ => Crashes.ask _

end Steady

/-- What follows quiet code and never crashes does not matter. -/
theorem Quiet.crashes_bind {α β : Type} {p : Bridge α} {f : α → Bridge β} (hp : Quiet rely p)
    (hf : ∀ value, Crashes rely (f value) NoJava) : Crashes rely (p >>= f) NoJava :=
  Crashes.bind hp.returns hp.crashes fun h₁ => (hf _).consequence h₁.append

theorem Steady.noJava {α : Type} {p : Bridge α} (hp : Steady rely p) : Crashes rely p NoJava :=
  Crashes.consequence hp False.elim

/-- A callback that crashes has not called Java. -/
theorem crashes_callNative (args : Arguments) : Crashes rely (callNative args) NoJava := by
  refine (Quiet.stringArgument args 0).crashes_bind fun _ => ?_
  refine (Quiet.taskArgument _).crashes_bind fun _ => ?_
  refine (Quiet.stringArgument args 2).crashes_bind fun _ => ?_
  refine (Quiet.modify _).crashes_bind fun _ => Steady.noJava ?_
  exact (Steady.callJava _ _).bind fun _ => (Steady.deleteLocalRef _).bind fun _ =>
    (Steady.deleteLocalRef _).bind fun _ => (Steady.deleteLocalRef _).bind fun _ => Steady.pure _

theorem crashes_callAddElement (args : Arguments) : Crashes rely (callAddElement args) NoJava := by
  refine (Quiet.stringArgument args 0).crashes_bind fun _ => ?_
  refine (Quiet.stringArgument args 1).crashes_bind fun _ => ?_
  refine (Quiet.domArgument _).crashes_bind fun _ => ?_
  refine (Quiet.stringArgument args 3).crashes_bind fun _ => ?_
  refine (Quiet.stringArgument args 4).crashes_bind fun _ => ?_
  refine (Quiet.modify _).crashes_bind fun _ => Steady.noJava ?_
  exact (Steady.callJava _ _).bind fun _ => (Steady.deleteLocalRef _).bind fun _ =>
    (Steady.deleteLocalRef _).bind fun _ => (Steady.deleteLocalRef _).bind fun _ =>
      (Steady.deleteLocalRef _).bind fun _ => (Steady.deleteLocalRef _).bind fun _ => Steady.pure _

theorem crashes_setTimeoutNative (args : Arguments) :
    Crashes rely (setTimeoutNative args) NoJava := by
  refine (Quiet.newStringOf args 0).crashes_bind fun _ => ?_
  refine (Quiet.newStringOf args 1).crashes_bind fun _ => ?_
  refine (Quiet.modify _).crashes_bind fun _ => Steady.noJava ?_
  exact (Steady.callJava _ _).bind fun _ => (Steady.deleteLocalRef _).bind fun _ =>
    (Steady.deleteLocalRef _).bind fun _ => Steady.pure _

/-! ### Texts that cannot be written -/

/-- `Utf8Value` crashes only on a text that cannot be written. -/
theorem sound_utf8Value {good : BridgeExchange → Prop} {pre : World → Prop} {site : TextSite}
    {arg : Handle} (hargs : ∀ s, arg = some (.string s) → s.tree.Writable)
    (hgood : ∀ {v s}, arg = some v → v.isString = false → good ⟨.toString site v, some s⟩ →
      s.tree.Writable) : Sound rely good pre (utf8Value site arg) := by
  cases arg with
  | none => exact Sound.pure _
  | some v =>
      refine Sound.bind (Triple.free _) (returns_valueToString site v)
        (Sound.of_crashes (Steady.valueToString site v)) fun {a h} ht hh => ?_
      cases a with
      | none => exact Sound.pure _
      | some s =>
          have hwritable : s.tree.Writable := by
            cases ht with
            | itself => exact hargs s rfl
            | asked _ hstring => exact hgood rfl hstring (hh _ List.mem_cons_self)
          refine Sound.of_crashes (Steady.bind (Crashes.read _) fun platform => ?_)
          obtain ⟨rest, hrest⟩ := V8.utf8Value_eq platform.fill platform.garbage s.wellFormed
            s.length_le hwritable
          simp only [hrest]
          exact Steady.pure _

section
variable {args : Arguments} {sites : List Nat} {pre : World → Prop} {i : Nat} (hi : i ∈ sites)
  (hargs : TextsWritable args sites [])
include hi hargs

/-- An argument crashes the callback only if its text cannot be written. -/
theorem sound_argument :
    Sound rely (fun x => TextsWritable args sites [x]) pre (utf8Value (.argument i) (args.get i)) :=
  sound_utf8Value (fun s hs => hargs i hi s (Or.inl hs)) fun hv hstring hgood =>
    hgood i hi _ (Or.inr ⟨_, hv, hstring, List.mem_cons_self⟩)

theorem sound_stringArgument :
    Sound rely (fun x => TextsWritable args sites [x]) pre (stringArgument args i) :=
  Sound.bind (Triple.free _) (M := fun _ _ => True) (fun _ _ _ _ _ => trivial)
    (sound_argument hi hargs) fun _ _ => Sound.of_crashes (Steady.newStringUTF _)

end

/-- Whether or not the history counts. -/
theorem crashes_of_sound {α : Type} {p : Bridge α} {args : Arguments} {sites : List Nat}
    (hp : TextsWritable args sites [] →
      Sound rely (fun x => TextsWritable args sites [x]) (fun _ => True) p) :
    Crashes rely p fun h => ¬ TextsWritable args sites h := by
  intro s h t hr hh
  refine hp (hh.mono (List.nil_subset h)) s trivial h t hr fun x hx => hh.mono ?_
  exact List.cons_subset.mpr ⟨hx, List.nil_subset h⟩

/-- Only objects bring `callAddElement` to where it may crash, and texts. -/
theorem crashes_callAddElement_other {args : Arguments} {v : Value} (hv : args.get 2 = some v)
    (hobject : v.isObject = false) :
    Crashes rely (callAddElement args) fun h => ¬ TextsWritable args [0, 1, 3, 4] h := by
  have hdom : domArgument (args.get 2) = Pure.pure none := by
    rw [hv]
    simp only [domArgument, hobject]
    rfl
  refine crashes_of_sound fun hargs => ?_
  refine Sound.bind_any (Triple.free _) (sound_stringArgument (by decide) hargs) fun _ => ?_
  refine Sound.bind_any (Triple.free _) (sound_stringArgument (by decide) hargs) fun _ => ?_
  rw [hdom]
  refine Sound.bind_any (Triple.free _) (Sound.pure none) fun _ => ?_
  refine Sound.bind_any (Triple.free _) (sound_stringArgument (by decide) hargs) fun _ => ?_
  refine Sound.bind_any (Triple.free _) (sound_stringArgument (by decide) hargs) fun _ => ?_
  refine Sound.bind_any (Triple.free _) (Sound.modify _) fun _ => Sound.of_crashes ?_
  exact (Steady.callJava _ _).bind fun _ => (Steady.deleteLocalRef _).bind fun _ =>
    (Steady.deleteLocalRef _).bind fun _ => (Steady.deleteLocalRef _).bind fun _ =>
      (Steady.deleteLocalRef _).bind fun _ => (Steady.deleteLocalRef _).bind fun _ => Steady.pure _

/-- A callback as an entry point. -/
theorem crashes_scoped {α β : Type} {code : Bridge α} (f : α → β) {post : History → Prop}
    (hc : Crashes rely code post) :
    Crashes rely (withHandleScope do pure (f (← code))) post := by
  have hcode : Crashes rely (do pure (f (← code)) : Bridge β) post :=
    Crashes.bind (M := fun _ _ => True) (fun _ _ _ _ _ => trivial) hc fun _ => Crashes.pure _
  refine Crashes.bind (Returns.modify _) (Crashes.modify _) fun {_ h₁} hh => ?_
  cases hh
  exact Crashes.bind (M := fun _ _ => True) (fun _ _ _ _ _ => trivial) hcode fun _ =>
    (Steady.bind (Crashes.modify _) fun _ => Steady.pure _).consequence False.elim

end Bridge

/-! ## Every invocation -/

section
variable {rely : Exchange Answer → World → World → Prop} {args : Arguments} {s t : World}
  {h : History} {o : Outcome Returned}

/-- An invocation returns with the history of its callback, or it crashes before it
has called Java. -/
theorem runs_of_scoped {α : Type} {code : Bridge α} {f : α → Returned} {post : History → Prop}
    (hreturns : Returns rely code fun h _ => post h) (hcrashes : Crashes rely code NoJava)
    (hr : Runs rely (Bridge.withHandleScope (do pure (f (← code))) s) h o t) :
    (o.isReturned = true ∧ post h) ∨ (o = .crashed ∧ NoJava h) := by
  cases o with
  | returned value => exact Or.inl ⟨rfl, Bridge.returns_scoped f hreturns s h value t hr⟩
  | crashed => exact Or.inr ⟨rfl, Bridge.crashes_scoped f hcrashes s h t hr⟩

theorem runs_callNative (hr : Runs rely (body (.callNative args) s) h o t) :
    (o.isReturned = true ∧ CallNativeRun args h) ∨ (o = .crashed ∧ NoJava h) :=
  runs_of_scoped (Bridge.returns_callNative args) (Bridge.crashes_callNative args) hr

theorem runs_callAddElement (hr : Runs rely (body (.callAddElement args) s) h o t) :
    (o.isReturned = true ∧ CallAddElementRun args h) ∨ (o = .crashed ∧ NoJava h) :=
  runs_of_scoped (Bridge.returns_callAddElement args) (Bridge.crashes_callAddElement args) hr

/-- Without an object, `callAddElement` crashes on texts that cannot be written only. -/
theorem not_writable_of_crashed {v : Value} (hv : args.get 2 = some v)
    (hobject : v.isObject = false) (hr : Runs rely (body (.callAddElement args) s) h .crashed t) :
    ¬ TextsWritable args [0, 1, 3, 4] h :=
  Bridge.crashes_scoped _ (Bridge.crashes_callAddElement_other hv hobject) s h t hr

theorem runs_setTimeoutNative (hr : Runs rely (body (.setTimeoutNative args) s) h o t) :
    (o.isReturned = true ∧ SetTimeoutNativeRun args h) ∨ (o = .crashed ∧ NoJava h) :=
  runs_of_scoped (Bridge.returns_setTimeoutNative args) (Bridge.crashes_setTimeoutNative args) hr

end

end WeexBridge
