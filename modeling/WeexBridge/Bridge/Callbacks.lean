/-
# The native functions of the global object

`callNative`, `callAddElement`, `setTimeoutNative` and `nativeLog`, which
JavaScript calls to reach Java.
-/
import WeexBridge.Bridge.World

namespace WeexBridge

namespace Bridge

open Reentrant.Program (read modify crash)

/-! ## Arguments -/

/-- `Utf8Value x(args[i]); env->NewStringUTF(*x)`. -/
def newStringOf (args : Arguments) (i : Nat) : Bridge JObject := do
  let value ← utf8Value (.argument i) (args.get i)
  newStringUTF value

/-- The same behind `if (!args[i].IsEmpty())`. -/
def stringArgument (args : Arguments) (i : Nat) : Bridge JObject :=
  if (args.get i).isSome then newStringOf args i else pure none

/-- The branch of both callbacks for an object: `JSON.stringify` of it, as bytes. -/
def stringifyToBytes (arg : Handle) : Bridge JObject := do
  let global ← globalObject
  store .json (← objectGet .jsonObject (some global) (some (.literal "JSON")))
  store .jsonStringify (← objectGet .jsonMember (← use .json) (some (.literal "stringify")))
  let ret ← functionCall .jsonMember (← use .jsonStringify) (← use .json) [arg]
  let str ← utf8Value .json ret
  newByteArray (toCString str)

/-- The branch of both callbacks for a string. -/
def stringToBytes (i : Nat) (arg : Handle) : Bridge JObject := do
  match ← utf8Value (.argument i) arg with
  | some tasks => newByteArray tasks
  | none => crash

/-- task args[1] -/
def taskArgument : Handle → Bridge JObject
  | some v =>
      if v.isObject then stringifyToBytes (some v)
      else if v.isString then stringToBytes 1 (some v)
      else pure none
  | none => pure none

/-- dom node args[2].  The second test is for an empty handle, which has no type. -/
def domArgument : Handle → Bridge JObject
  | some v => if v.isObject then stringifyToBytes (some v) else pure none
  | none => crash

/-! ## The callbacks -/

def callNative (args : Arguments) : Bridge Value := do
  let jInstanceId ← stringArgument args 0
  let jTaskString ← taskArgument (args.get 1)
  let jCallback ← stringArgument args 2
  modify fun s => { s with jCallNativeMethodId := true }
  let flag ← callJava .callNative [jInstanceId, jTaskString, jCallback]
  deleteLocalRef jTaskString
  deleteLocalRef jInstanceId
  deleteLocalRef jCallback
  pure (.integer flag)

def callAddElement (args : Arguments) : Bridge Value := do
  let jInstanceId ← stringArgument args 0
  let jref ← stringArgument args 1
  let jdomString ← domArgument (args.get 2)
  let jindex ← stringArgument args 3
  let jCallback ← stringArgument args 4
  modify fun s => { s with jCallAddElementMethodId := true }
  let flag ← callJava .callAddElement [jInstanceId, jref, jdomString, jindex, jCallback]
  deleteLocalRef jInstanceId
  deleteLocalRef jref
  deleteLocalRef jdomString
  deleteLocalRef jindex
  deleteLocalRef jCallback
  pure (.integer flag)

def setTimeoutNative (args : Arguments) : Bridge Value := do
  let jCallbackID ← newStringOf args 0
  let jTime ← newStringOf args 1
  modify fun s => { s with jSetTimeoutNativeMethodId := true }
  let _ ← callJava .setTimeoutNative [jCallbackID, jTime]
  deleteLocalRef jCallbackID
  deleteLocalRef jTime
  pure (.boolean true)

/-- `String::Concat`; an empty left operand has no isolate. -/
def concat (left : Option HeapString) (right : HeapString) : Bridge (Option HeapString) :=
  match left with
  | none => crash
  | some left => do
      let platform ← read World.platform
      match h : V8.Str.allocateConsString platform.stringTable platform.fill left.tree
          right.tree with
      | some tree =>
          pure (some ⟨tree, (V8.Str.allocateConsString_some left.wellFormed right.wellFormed h).1,
            V8.Str.length_allocateConsString_le left.wellFormed right.wellFormed left.length_le
              right.length_le h⟩)
      | none => pure none

/-- The loop of `nativeLog` over the arguments. -/
def accumulate : List Value → Option HeapString → Bridge (Option HeapString)
  | [], accumulator => pure accumulator
  | arg :: args, accumulator => do
      match ← valueToString .log arg with
      | some strArg => accumulate args (← concat accumulator strArg)
      | none => accumulate args accumulator

/-- `if (jLogMethodId == NULL) ...`: whether there is a method to call. -/
def lookUpLogMethod : Bridge Bool := do
  if ← read World.jLogMethodId then pure true
  else
    let found ← ask (.getStaticMethodID "d")
    modify fun s => { s with jLogMethodId := found }
    pure found

/-- The lookups and the call of `WXLogUtils.d`. -/
def sendLog (strMsg : JObject) : Bridge Bool := do
  if ← ask (.findClass "com/taobao/weex/utils/WXLogUtils") then
    let clazz ← newLocalRef .other
    if ← lookUpLogMethod then
      let strTag ← newStringUTF (some (cLiteral "jsLog"))
      let _ ← ask (.java .logD none [JObject.content strTag, JObject.content strMsg])
      deleteLocalRef strMsg
      deleteLocalRef strTag
      deleteLocalRef (some clazz)
      pure true
    else
      deleteLocalRef (some clazz)
      pure false
  else pure false

def nativeLog (args : Arguments) : Bridge Value := do
  match ← accumulate args.values (some .empty) with
  | none => pure (.boolean false)
  | some accumulator =>
      let platform ← read World.platform
      match accumulator.tree.stringValue platform.fill with
      | none => crash
      | some arg =>
          let strMsg ← v8String2JString arg
          let result ← sendLog strMsg
          pure (.boolean result)

end Bridge

end WeexBridge
