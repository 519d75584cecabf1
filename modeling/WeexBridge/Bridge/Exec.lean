/-
# `execJS` and exception reports

`execJS` converts an array of Java objects to JavaScript values, looks a function
up by name, calls it, and reports to Java when there is no result.
-/
import WeexBridge.Bridge.World

namespace WeexBridge

namespace Bridge

open Reentrant.Program (read modify crash)

/-! ## Reports -/

/-- `reportException` -/
def reportToJava (jInstanceId : JObject) (func exceptionString : List UInt8) : Bridge Unit := do
  let jExceptionString ← newStringUTF (some exceptionString)
  let jFunc ← newStringUTF (some func)
  let _ ← callJava .reportJSException [jInstanceId, jFunc, jExceptionString]
  deleteLocalRef jExceptionString
  deleteLocalRef jFunc

/-- `ReportException` -/
def reportException (jInstanceId : JObject) (func : List UInt8) : Bridge Unit := do
  let exception ← utf8Value .report (← ask .exception)
  if ← ask .message then
    let _ ← utf8Value .report (← ask .scriptResourceName)
    ask .lineNumber
    -- Print line of source code.
    let _ ← utf8Value .report (← ask .stackTrace)
    reportToJava jInstanceId func (toCString exception)
  else reportToJava jInstanceId func (toCString exception)

/-! ## Arguments -/

/-- `(jstring) jDataObj`; JNI aborts on an object that is no string. -/
def asString : Option JavaObject → Bridge (Option (List UInt16))
  | none => pure none
  | some (.string units) => pure (some units)
  | some _ => crash

/-- A reference that JNI returns, `NULL` for no object. -/
def newLocalObject : Option JavaObject → Bridge JObject
  | none => pure none
  | some object => do pure (some (← newLocalRef object))

/-- `jTypeInt == 1` -/
def doubleArgument (data : Option JavaObject) : Bridge Handle := do
  if !(← read World.jDoubleValueMethodId) then
    let jDoubleClazz ← newLocalRef .other
    modify fun s => { s with jDoubleValueMethodId := true }
    deleteLocalRef (some jDoubleClazz)
  match data with
  | some (.double bits) => pure (some (.number bits))
  | _ => crash

/-- `jTypeInt == 2` -/
def textArgument (data : Option JavaObject) : Bridge Handle := do
  let text ← jString2V8String (← asString data)
  pure (text.map .string)

/-- `jTypeInt == 3` -/
def jsonArgument (data : Option JavaObject) : Bridge Handle := do
  let global ← globalObject
  store .json (← objectGet .jsonObject (some global) (some (.literal "JSON")))
  store .jsonParse (← objectGet .jsonMember (← use .json) (some (.literal "parse")))
  let text ← jString2V8String (← asString data)
  functionCall .jsonMember (← use .jsonParse) (← use .json) [text.map .string]

/-- The branches on `jTypeInt`; another type leaves `obj[i]` empty. -/
def convertValue (arg : WXJSObject) : Bridge Handle :=
  if arg.type = 1 then doubleArgument arg.data
  else if arg.type = 2 then textArgument arg.data
  else if arg.type = 3 then jsonArgument arg.data
  else pure none

/-- One turn of the loop over `jargs`. -/
def convertArgument (arg : WXJSObject) : Bridge Handle := do
  let jArg ← newLocalRef .other
  let jDataObj ← newLocalObject arg.data
  let obj ← convertValue arg
  deleteLocalRef jDataObj
  deleteLocalRef (some jArg)
  pure obj

def convertArguments : List WXJSObject → Bridge (List Handle)
  | [] => pure []
  | arg :: jargs => do
      let obj ← convertArgument arg
      let objs ← convertArguments jargs
      pure (obj :: objs)

/-! ## The call -/

/-- `String::New(func)`; `strlen(NULL)` is a crash. -/
def stringNewOrCrash : Option (Nat × List UInt8) → Bridge (Option HeapString)
  | some func => stringNew func.2
  | none => crash

/-- The lookup and the call. -/
def callTarget (jnamespace jfunction : Option (List UInt16)) (func : Option (Nat × List UInt8))
    (obj : List Handle) : Bridge Handle := do
  let global ← globalObject
  match jnamespace with
  | none =>
      let function ← objectGet .target (some global) (← stringNewOrCrash func)
      functionCall .target function (some global) obj
  | some units =>
      let master ←
        objectGet .namespaceObject (some global) (← jString2V8String (some units))
      let function ← objectGet .target master (← jString2V8String jfunction)
      functionCall .target function master obj

/-- `execJS` from the name of the function on. -/
def callFunction (jinstanceid : JObject) (jnamespace jfunction : Option (List UInt16))
    (obj : List Handle) : Bridge Bool := do
  let func ← getStringUTFChars jfunction
  match ← callTarget jnamespace jfunction func obj with
  | none =>
      reportException jinstanceid ((func.map Prod.snd).getD (cLiteral ""))
      releaseStringUTFChars func
      pure false
  | some _ =>
      releaseStringUTFChars func
      pure true

def execJS (jinstanceid : JObject) (jnamespace jfunction : Option (List UInt16))
    (jargs : List WXJSObject) : Bridge Bool := do
  let jsObjectClazz ← newLocalRef .other
  let obj ← convertArguments jargs
  deleteLocalRef (some jsObjectClazz)
  callFunction jinstanceid jnamespace jfunction obj

end Bridge

end WeexBridge
