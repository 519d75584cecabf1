/-
# The bridge and its environment

What `com_taobao_weex_bridge_WXBridge.cpp` works on: its process-wide variables,
the handles, references and buffers it holds, and the calls it makes to V8 and to
JNI.  A call that can run JavaScript or Java code is a `Question` to the
environment; until it is answered the environment may enter the bridge again.

A handle is `none` when it is empty, as `String::New` leaves it for a text that
is too long.  Using an empty handle, or asking a small integer for its isolate,
reads memory that holds no object, and is a crash; so is what JNI aborts on.

The VM is taken to have memory, V8 too within its limits, and a JNI lookup whose
result the source does not test is taken to succeed.  The current thread is
attached, so `GetEnv` succeeds.  Logging is left out.
-/
import WeexBridge.Lib.Reentrant
import WeexBridge.V8.ConsString
import WeexBridge.V8.Utf8Decoder
import WeexBridge.V8.Utf8Value

namespace WeexBridge

open Reentrant

/-! ## Values -/

/-- A string of the V8 heap, with its invariant. -/
structure HeapString where
  tree : V8.Str
  wellFormed : tree.WellFormed
  length_le : tree.length ≤ V8.Str.kMaxLength
  deriving DecidableEq

namespace HeapString

def units (s : HeapString) : List UInt16 := s.tree.units

theorem length_units (s : HeapString) : s.units.length = s.tree.length :=
  V8.Str.length_units s.wellFormed

/-- `String::Empty` -/
def empty : HeapString := ⟨V8.Str.emptyString, trivial, Nat.zero_le _⟩

/-- A literal of the source; none is too long. -/
def literal (s : String) : HeapString :=
  let chars := V8.FlatChars.oneByte (s.toList.map fun c => .ofNat c.toNat)
  if h : chars.length ≤ V8.Str.kMaxLength then ⟨.seq chars, trivial, h⟩ else empty

end HeapString

/-- A JavaScript value.  An object or function is its identity; a number is an
`int` or the bits of a `double`. -/
inductive Value where
  | undefined
  | null
  | boolean (b : Bool)
  | integer (n : Int)
  | number (bits : UInt64)
  | string (s : HeapString)
  | object (ref : Nat)
  | function (ref : Nat)
  deriving DecidableEq

namespace Value

/-- `Value::IsObject`. -/
def isObject : Value → Bool
  | object _ => true
  | function _ => true
  | _ => false

/-- `Value::IsString`. -/
def isString : Value → Bool
  | string _ => true
  | _ => false

def isFunction : Value → Bool
  | function _ => true
  | _ => false

/-- `NumberFromDouble` makes a small integer of a `double` when it is an integer
of 31 bits and not minus zero. -/
def isSmallInteger (bits : Nat) : Bool :=
  let negative := bits / 2 ^ 63 = 1
  let exponent := bits / 2 ^ 52 % 2 ^ 11
  let mantissa := 2 ^ 52 + bits % 2 ^ 52
  let unit := 2 ^ (1075 - exponent)
  bits = 0 ||
    (1023 ≤ exponent && exponent ≤ 1053 && mantissa % unit = 0 &&
      (mantissa / unit < 2 ^ 30 || negative && mantissa / unit = 2 ^ 30))

/-- The value is no heap object. -/
def isSmi : Value → Bool
  | integer n => -2 ^ 30 ≤ n && n < 2 ^ 30
  | number bits => isSmallInteger bits.toNat
  | _ => false

end Value

/-- A handle: `none` when it is empty. -/
abbrev Handle := Option Value

/-- `v8::Arguments`. -/
structure Arguments where
  values : List Value

namespace Arguments

/-- `Arguments::operator[]`: undefined past the end. -/
def get (args : Arguments) (i : Nat) : Handle := some (args.values.getD i .undefined)

end Arguments

/-! ## Java objects -/

/-- The content of a Java object. -/
inductive JavaObject where
  /-- A string made by `NewStringUTF` from these bytes. -/
  | stringUTF (bytes : List UInt8)
  /-- A string of these code units. -/
  | string (units : List UInt16)
  | byteArray (bytes : List UInt8)
  | double (bits : UInt64)
  | other
  deriving DecidableEq, Repr

/-- A local reference; two references may have the same content. -/
structure LocalRef where
  id : Nat
  object : JavaObject
  deriving DecidableEq, Repr

/-- A `jobject` of the source: `none` for `NULL`. -/
abbrev JObject := Option LocalRef

/-- What Java sees of a reference it is given. -/
def JObject.content (r : JObject) : Option JavaObject := r.map LocalRef.object

/-- `WXJSObject`. -/
structure WXJSObject where
  type : Int
  data : Option JavaObject
  deriving DecidableEq, Repr

/-- The Java methods the bridge calls with its results. -/
inductive JavaMethod where
  | callNative
  | callAddElement
  | setTimeoutNative
  | reportJSException
  | setJSFrmVersion
  | logD
  deriving DecidableEq, Repr

/-! ## The state -/

/-- `V8context`: its identity, and that of its global object. -/
structure Context where
  id : Nat
  global : Nat
  deriving DecidableEq, Repr

/-- The globals that hold handles from one callback to the next. -/
inductive GlobalHandle where
  | json
  | jsonParse
  | jsonStringify
  deriving DecidableEq, Repr

/-- A handle and the scope it was created in. -/
structure ScopedHandle where
  value : Handle
  scope : Nat

/-- What happens to the global handles; `scope` is that of the invocation. -/
inductive HandleEvent where
  | opened (scope : Nat)
  | closed (scope : Nat)
  | stored (scope : Nat) (var : GlobalHandle) (h : ScopedHandle)
  | used (scope : Nat) (var : GlobalHandle) (h : ScopedHandle)

/-- What the build and the moment decide: the word size of `NonAsciiStart`, the
string table, and what uninitialised memory holds. -/
structure Platform where
  word : Nat
  stringTable : V8.StringTable
  fill : Nat → UInt16
  garbage : Nat → UInt8

/-- The variables of the bridge and the resources it holds. -/
structure World where
  platform : Platform
  jBridgeClazz : Option Nat
  jThis : Option Nat
  v8context : Option Context
  json : ScopedHandle
  jsonParse : ScopedHandle
  jsonStringify : ScopedHandle
  wxEnvironment : List (List UInt16 × HeapString)
  jCallNativeMethodId : Bool
  jCallAddElementMethodId : Bool
  jSetTimeoutNativeMethodId : Bool
  jLogMethodId : Bool
  jDoubleValueMethodId : Bool
  /-- JNI local references of the current frame. -/
  localRefs : List Nat
  /-- How often `DeleteLocalRef` was given a reference that is not live. -/
  strayDeletes : Nat
  /-- JNI global references. -/
  globalRefs : List Nat
  /-- Persistent contexts. -/
  contexts : List Nat
  /-- Buffers of `GetStringUTFChars`. -/
  chars : List Nat
  /-- Open handle scopes, the innermost first. -/
  scopes : List Nat
  /-- The next identity. -/
  next : Nat
  /-- What has happened to the global handles, the latest first. -/
  trace : List HandleEvent

namespace World

def handle (s : World) : GlobalHandle → ScopedHandle
  | .json => s.json
  | .jsonParse => s.jsonParse
  | .jsonStringify => s.jsonStringify

def setHandle (s : World) (h : ScopedHandle) : GlobalHandle → World
  | .json => { s with json := h }
  | .jsonParse => { s with jsonParse := h }
  | .jsonStringify => { s with jsonStringify := h }

/-- The scope of the invocation that runs. -/
def scope (s : World) : Nat := s.scopes.headD 0

end World

/-! ## Questions -/

/-- Which lookup of the source a property read is. -/
inductive GetSite where
  /-- `global->Get("JSON")` -/
  | jsonObject
  /-- `json->Get("parse")` and `json->Get("stringify")` -/
  | jsonMember
  /-- `global->Get(namespace)` -/
  | namespaceObject
  /-- The function `execJS` calls. -/
  | target
  /-- `global->Get("getJSFMVersion")` -/
  | version
  deriving DecidableEq, Repr

/-- Which conversion to a string of the source a `ToString` is. -/
inductive TextSite where
  /-- `args[i]` of a callback, as a Java string. -/
  | argument (i : Nat)
  /-- The result of `JSON.stringify`. -/
  | json
  /-- An argument of `nativeLog`. -/
  | log
  /-- What `ReportException` prints. -/
  | report
  /-- The version of the framework. -/
  | version
  deriving DecidableEq, Repr

/-- Calls that leave the bridge. -/
inductive Question where
  | toString (site : TextSite) (v : Value)
  | get (site : GetSite) (receiver : Value) (key : HeapString)
  | call (site : GetSite) (callee receiver : Value) (args : List Value)
  /-- `Function::Call` on a value that is no function. -/
  | callNonFunction (site : GetSite) (callee : Value) (receiver : Handle) (args : List Handle)
  | exception
  | message
  | scriptResourceName
  | lineNumber
  | stackTrace
  | compile (source : HeapString)
  | run
  | newContext (environment : List (List UInt16 × HeapString))
  | java (method : JavaMethod) (this : Option Nat) (args : List (Option JavaObject))
  | findClass (name : String)
  | getStaticMethodID (name : String)
  /-- A getter of `WXParams`. -/
  | param (getter : String)
  /-- `getOptions`, and what `keySet`, `toArray` and `get` give of it. -/
  | options

/-- What comes back.  An API call that throws gives an empty handle. -/
abbrev Answer : Question → Type
  | .toString _ _ => Option HeapString
  | .get _ _ _ => Handle
  | .call _ _ _ _ => Handle
  | .callNonFunction _ _ _ _ => Unit
  | .exception => Handle
  | .message => Bool
  | .scriptResourceName => Handle
  | .lineNumber => Unit
  | .stackTrace => Handle
  | .compile _ => Bool
  | .run => Handle
  | .newContext _ => Nat
  | .java _ _ _ => Int
  | .findClass _ => Bool
  | .getStaticMethodID _ => Bool
  | .param _ => Option (List UInt16)
  | .options => Option (Option (List (Option (List UInt16) × Option (List UInt16))))

/-- Code of the bridge. -/
abbrev Bridge (α : Type) := Program Answer World α

namespace Bridge

open Program (read modify crash)

def ask (question : Question) : Bridge (Answer question) := Program.ask question

/-! ## V8 -/

/-- `V8context->Global()`. -/
def globalObject : Bridge Value := do
  match ← read World.v8context with
  | some context => pure (.object context.global)
  | none => crash

/-- `Object::Get`. -/
def objectGet (site : GetSite) (receiver : Handle) (key : Option HeapString) : Bridge Handle :=
  match receiver, key with
  | some v, some key => if v.isSmi then crash else ask (.get site v key)
  | _, _ => crash

/-- `Function::Call`.  On a value that is no function it throws before it looks at
the receiver and the arguments. -/
def functionCall (site : GetSite) (callee receiver : Handle) (args : List Handle) :
    Bridge Handle :=
  match callee with
  | none => crash
  | some f =>
      if f.isSmi then crash
      else if f.isFunction then
        match receiver, args.mapM id with
        | some receiver, some args => ask (.call site f receiver args)
        | _, _ => crash
      else do
        let _ ← ask (.callNonFunction site f receiver args)
        pure none

/-- `Value::ToString`; on a string it is the string. -/
def valueToString (site : TextSite) : Value → Bridge (Option HeapString)
  | .string s => pure (some s)
  | v => ask (.toString site v)

/-- `String::Utf8Value`: the buffer, or `none` for `NULL`.  Its `TryCatch` keeps
an exception of `ToString` to itself. -/
def utf8Value (site : TextSite) : Handle → Bridge (Option (List UInt8))
  | none => pure none
  | some v => do
      match ← valueToString site v with
      | none => pure none
      | some s =>
          let platform ← read World.platform
          match V8.utf8Value platform.fill platform.garbage s.tree with
          | some buffer => pure (some buffer)
          | none => crash

/-- A string that V8 has built; it is empty when V8 has refused it. -/
def ofTree (result : Option (V8.MaybeObject V8.Str))
    (h : ∀ tree, result = some (some tree) →
      tree.WellFormed ∧ tree.length ≤ V8.Str.kMaxLength) : Bridge (Option HeapString) :=
  match result, h with
  | some (some tree), h => pure (some ⟨tree, (h tree rfl).1, (h tree rfl).2⟩)
  | some none, _ => pure none
  | none, _ => crash

theorem ofTree_of_eq_some {result : Option (V8.MaybeObject V8.Str)} {tree : V8.MaybeObject V8.Str}
    (h : ∀ tree, result = some (some tree) →
      tree.WellFormed ∧ tree.length ≤ V8.Str.kMaxLength)
    (hr : result = some tree) (s : World) :
    ∃ text, ofTree result h s = .done text s ∧ text.map HeapString.tree = tree := by
  subst hr
  cases tree with
  | none => exact ⟨none, rfl, rfl⟩
  | some tree => exact ⟨some ⟨tree, (h tree rfl).1, (h tree rfl).2⟩, rfl, rfl⟩

/-- `String::New` on a C string. -/
def stringNew (memory : List UInt8) : Bridge (Option HeapString) := do
  let platform ← read World.platform
  ofTree (V8.stringNew platform.word memory) fun _ => V8.wellFormed_stringNew

/-! ## The global handles -/

/-- `json = ...` and the like. -/
def store (var : GlobalHandle) (value : Handle) : Bridge Unit :=
  modify fun s =>
    let h := ⟨value, s.scope⟩
    { s.setHandle h var with trace := .stored s.scope var h :: s.trace }

/-- A use of a global handle as callee or receiver. -/
def use (var : GlobalHandle) : Bridge Handle := do
  modify fun s => { s with trace := .used s.scope var (s.handle var) :: s.trace }
  read fun s => (s.handle var).value

/-- A handle scope around `code`. -/
def withHandleScope {α : Type} (code : Bridge α) : Bridge α := do
  modify fun s =>
    { s with scopes := s.next :: s.scopes, next := s.next + 1, trace := .opened s.next :: s.trace }
  let value ← code
  modify fun s => { s with scopes := s.scopes.tail, trace := .closed s.scope :: s.trace }
  pure value

/-! ## JNI -/

/-- A new local reference. -/
def newLocalRef (object : JavaObject) : Bridge LocalRef := do
  let id ← read World.next
  modify fun s => { s with next := s.next + 1, localRefs := id :: s.localRefs }
  pure ⟨id, object⟩

/-- `DeleteLocalRef`; nothing for `NULL`. -/
def deleteLocalRef : JObject → Bridge Unit
  | none => pure ()
  | some r => modify fun s =>
      { s with
        localRefs := s.localRefs.erase r.id
        strayDeletes := if r.id ∈ s.localRefs then s.strayDeletes else s.strayDeletes + 1 }

/-- The references of a call from Java go with it. -/
def withLocalFrame {α : Type} (code : Bridge α) : Bridge α := do
  let outer ← read World.localRefs
  modify fun s => { s with localRefs := [] }
  let value ← code
  modify fun s => { s with localRefs := outer }
  pure value

/-- `NewStringUTF` reads up to the zero byte; `NULL` gives `NULL`. -/
def newStringUTF : Option (List UInt8) → Bridge JObject
  | none => pure none
  | some memory => do pure (some (← newLocalRef (.stringUTF (CodeUnits.cString memory))))

/-- An `int` that is given a `size_t`. -/
@[irreducible] def jint (n : Nat) : Int := (n : Int).bmod 0x100000000

/-- `NewByteArray(strLen)` and `SetByteArrayRegion`, where `strLen` is an `int`
that holds `strlen(memory)`. -/
def newByteArray (memory : List UInt8) : Bridge JObject :=
  let bytes := CodeUnits.cString memory
  let strLen := jint bytes.length
  if strLen < 0 then crash
  else do pure (some (← newLocalRef (.byteArray (bytes.take strLen.toNat))))

/-- `GetStringUTFChars`: the buffer and its contents; `NULL` gives `NULL`. -/
def getStringUTFChars : Option (List UInt16) → Bridge (Option (Nat × List UInt8))
  | none => pure none
  | some units => do
      let id ← read World.next
      modify fun s => { s with next := s.next + 1, chars := id :: s.chars }
      pure (some (id, CodeUnits.modifiedUtf8 units ++ [0]))

/-- `ReleaseStringUTFChars`. -/
def releaseStringUTFChars : Option (Nat × List UInt8) → Bridge Unit
  | none => pure ()
  | some (id, _) => modify fun s => { s with chars := s.chars.erase id }

/-- A call of a method of `jThis`. -/
def callJava (method : JavaMethod) (args : List JObject) : Bridge Int := do
  let this ← read World.jThis
  ask (.java method this (args.map JObject.content))

/-! ## Small functions of the source -/

/-- A `const char*` literal. -/
def cLiteral (s : String) : List UInt8 := (s.toList.map fun c => .ofNat c.toNat) ++ [0]

/-- `ToCString`. -/
def toCString (value : Option (List UInt8)) : List UInt8 :=
  value.getD (cLiteral "<string conversion failed>")

/-- `jString2V8String`. -/
def jString2V8String (str : Option (List UInt16)) : Bridge (Option HeapString) :=
  match str with
  | none => stringNew (cLiteral "")
  | some units => do
      match ← getStringUTFChars (some units) with
      | some cStr =>
          let ret ← stringNew cStr.2
          releaseStringUTFChars (some cStr)
          pure ret
      | none => stringNew (cLiteral "")

/-- `v8String2JString`, on the buffer and the length of the `String::Value`. -/
def v8String2JString (value : List UInt16 × Nat) : Bridge JObject :=
  if value.2 = 0 then newStringUTF (some (cLiteral ""))
  else do pure (some (← newLocalRef (.string (value.1.take value.2))))

/-! ### Strings from Java -/

/-- `String::New` of what `GetStringUTFChars` gives. -/
theorem stringNew_modifiedUtf8 (t : List UInt16) (s : World) : ∃ text,
    stringNew (CodeUnits.modifiedUtf8 t ++ [0]) s = .done text s ∧
      V8.Makes (CodeUnits.modifiedUtf8 t) (V8.decodedUnits t) (text.map HeapString.tree) := by
  obtain ⟨result, hresult, hmakes⟩ := V8.stringNew_modifiedUtf8 s.platform.word t []
  obtain ⟨text, hrun, htree⟩ := ofTree_of_eq_some (fun _ => V8.wellFormed_stringNew) hresult s
  exact ⟨text, hrun, htree.symm ▸ hmakes⟩

/-- `jString2V8String` always returns, and holds no buffer then. -/
theorem jString2V8String_eq (str : Option (List UInt16)) (s : World) : ∃ text n,
    jString2V8String str s = .done text { s with next := n } ∧ s.next ≤ n ∧
      V8.Makes (CodeUnits.modifiedUtf8 (str.getD [])) (V8.decodedUnits (str.getD []))
        (text.map HeapString.tree) := by
  cases str with
  | none =>
      obtain ⟨text, htext, hmakes⟩ := stringNew_modifiedUtf8 [] s
      exact ⟨text, s.next, htext, le_refl _, hmakes⟩
  | some t =>
      obtain ⟨text, htext, hmakes⟩ :=
        stringNew_modifiedUtf8 t { s with next := s.next + 1, chars := s.next :: s.chars }
      have hrun : jString2V8String (some t) s = .done text
          { s with next := s.next + 1, chars := (s.next :: s.chars).erase s.next } := by
        show (stringNew (CodeUnits.modifiedUtf8 t ++ [0]) _).bind _ = _
        rw [htext]
        rfl
      rw [List.erase_cons_head] at hrun
      exact ⟨text, s.next + 1, hrun, Nat.le_succ _, hmakes⟩

end Bridge

end WeexBridge
