/-
# Loading, initialising and unloading

`JNI_OnLoad`, `initFramework` and `JNI_OnUnload`: where the bridge acquires and
releases what outlives a call.
-/
import WeexBridge.Bridge.Exec

namespace WeexBridge

namespace Bridge

open Reentrant.Program (read modify crash)

/-! ## References and contexts -/

/-- `NewGlobalRef` -/
def newGlobalRef : Bridge Nat := do
  let id ← read World.next
  modify fun s => { s with next := s.next + 1, globalRefs := id :: s.globalRefs }
  pure id

/-- `DeleteGlobalRef`; nothing for `NULL`. -/
def deleteGlobalRef : Option Nat → Bridge Unit
  | none => pure ()
  | some id => modify fun s => { s with globalRefs := s.globalRefs.erase id }

/-- `Context::New` in `CreateShellContext`, with the template of `WXEnvironment`. -/
def createShellContext : Bridge Context := do
  let environment ← read World.wxEnvironment
  let global ← ask (.newContext environment)
  let id ← read World.next
  modify fun s => { s with next := s.next + 1, contexts := id :: s.contexts }
  pure ⟨id, global⟩

/-- `Persistent::Dispose`; nothing for an empty handle. -/
def dispose : Option Context → Bridge Unit
  | none => pure ()
  | some context => modify fun s => { s with contexts := s.contexts.erase context.id }

/-! ## `WXEnvironment` -/

/-- `WXEnvironment->Set(name, jString2V8String(env, value))`; the template reads both handles. -/
def setEnvironment (name : Option (List UInt16)) (value : Option (List UInt16)) :
    Bridge Unit := do
  let text ← jString2V8String value
  match name, text with
  | some name, some text =>
      modify fun s => { s with wxEnvironment := s.wxEnvironment ++ [(name, text)] }
  | _, _ => crash

/-- One property of `WXEnvironment` from a getter of `WXParams`. -/
def setParam (name getter : String) : Bridge Unit := do
  let value ← ask (.param getter)
  let ref ← newLocalObject (value.map .string)
  setEnvironment (some (name.toList.map fun c => .ofNat c.toNat)) value
  deleteLocalRef ref

def setPlatform : Bridge Unit := setParam "platform" "getPlatform"
def setOsVersion : Bridge Unit := setParam "osVersion" "getOsVersion"
def setAppVersion : Bridge Unit := setParam "appVersion" "getAppVersion"
def setWeexVersion : Bridge Unit := setParam "weexVersion" "getWeexVersion"
def setDeviceModel : Bridge Unit := setParam "deviceModel" "getDeviceModel"
def setAppName : Bridge Unit := setParam "appName" "getAppName"
def setDeviceWidth : Bridge Unit := setParam "deviceWidth" "getDeviceWidth"
def setDeviceHeight : Bridge Unit := setParam "deviceHeight" "getDeviceHeight"

/-- One turn of the loop over the options.  The two buffers are not released; a
key that is `NULL` has no name to set. -/
def setOption (option : Option (List UInt16) × Option (List UInt16)) : Bridge Unit := do
  let jkey ← newLocalObject (option.1.map .string)
  let jvalue ← newLocalObject (option.2.map .string)
  let cKey ← getStringUTFChars option.1
  let _ ← getStringUTFChars option.2
  let key ← stringNewOrCrash cKey
  setEnvironment (key.map HeapString.units) option.2
  deleteLocalRef jkey
  deleteLocalRef jvalue

def setOptions : List (Option (List UInt16) × Option (List UInt16)) → Bridge Unit
  | [] => pure ()
  | option :: options => do
      setOption option
      setOptions options

/-- The options of the application; JNI aborts on a call on `NULL`. -/
def readOptions : Bridge Unit := do
  match ← ask .options with
  | none => crash
  | some array =>
      let options ← newLocalRef .other
      let _jmapclass ← newLocalRef .other
      let jsetkey ← newLocalRef .other
      let _jsetclass ← newLocalRef .other
      let jobjArray ← newLocalObject (array.map fun _ => .other)
      deleteLocalRef (some jsetkey)
      setOptions (array.getD [])
      deleteLocalRef jobjArray
      deleteLocalRef (some options)

/-! ## The framework -/

/-- `ExecuteJavaScript`, with `report_exceptions` set. -/
def executeJavaScript : Option HeapString → Bridge Bool
  | none => do
      reportException none (cLiteral "")
      pure false
  | some source => do
      if ← ask (.compile source) then
        match ← ask .run with
        | some _ => pure true
        | none =>
            reportException none (cLiteral "")
            pure false
      else
        reportException none (cLiteral "")
        pure false

def setJSFVersion : Bridge Unit := do
  let global ← globalObject
  let getJSFMVersion ← objectGet .version (some global) (some (.literal "getJSFMVersion"))
  let version ← functionCall .version getJSFMVersion (some global) []
  let str ← utf8Value .version version
  let jversion ← newStringUTF str
  let _ ← callJava .setJSFrmVersion [jversion]
  deleteLocalRef jversion

def initFramework (script : Option (List UInt16)) : Bridge Bool := do
  let this ← newGlobalRef
  modify fun s => { s with jThis := some this, wxEnvironment := [] }
  let cParams ← newLocalRef .other
  setPlatform
  setOsVersion
  setAppVersion
  setWeexVersion
  setDeviceModel
  setAppName
  setDeviceWidth
  setDeviceHeight
  readOptions
  let context ← createShellContext
  modify fun s => { s with v8context := some context }
  let scriptStr ← getStringUTFChars script
  match scriptStr with
  | none => pure false
  | some chars =>
      let source ← stringNew chars.2
      if ← executeJavaScript source then
        setJSFVersion
        releaseStringUTFChars scriptStr
        deleteLocalRef (some cParams)
        pure true
      else pure false

/-! ## Loading and unloading -/

/-- `JNI_OnLoad`, in a fresh process. -/
def onLoad : Bridge Unit := do
  let clazz ← newGlobalRef
  modify fun s => { s with jBridgeClazz := some clazz }

def onUnload : Bridge Unit := do
  dispose (← read World.v8context)
  deleteGlobalRef (← read World.jBridgeClazz)
  deleteGlobalRef (← read World.jThis)

end Bridge

end WeexBridge
