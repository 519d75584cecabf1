import WeexBridge.Lib.CodeUnits
import WeexBridge.Lib.Memory
import WeexBridge.Lib.Reentrant
import WeexBridge.V8.HeapString
import WeexBridge.V8.Flatten
import WeexBridge.V8.ConsString
import WeexBridge.V8.Unicode
import WeexBridge.V8.Utf8Length
import WeexBridge.V8.Utf8Value
import WeexBridge.V8.Utf8Decoder
import WeexBridge.Bridge.World
import WeexBridge.Bridge.Callbacks
import WeexBridge.Bridge.Exec
import WeexBridge.Bridge.Lifecycle
import WeexBridge.Bridge.System
import WeexBridge.Bridge.Marshalling
import WeexBridge.Bridge.Fidelity
import WeexBridge.Bridge.Payloads
import WeexBridge.Bridge.Stable
import WeexBridge.Bridge.Remains
import WeexBridge.Bridge.Calls
import WeexBridge.Bridge.CallContract
import WeexBridge.Bridge.CallRuns
import WeexBridge.Bridge.LocalRefs
import WeexBridge.Bridge.Resources
import WeexBridge.Bridge.Handles
import WeexBridge.Bridge.ByteArrays
import WeexBridge.Bridge.Log
import WeexBridge.V8.JsonQuote
import WeexBridge.V8.JsonWriter
import WeexBridge.V8.JsHeap
import WeexBridge.V8.JsonStringifier
import WeexBridge.Bridge.ObjectPayloads
import WeexBridge.Lib.Simulation
import WeexBridge.V8.JsonAgreement
import WeexBridge.V8.JsonOutcome
import WeexBridge.Lib.Decimal
import WeexBridge.Lib.JsonGrammar
import WeexBridge.V8.JsonParser
import WeexBridge.V8.JsonScan
import WeexBridge.V8.JsonNumber
import WeexBridge.V8.JsonParsing
import WeexBridge.V8.JsonVariants
import WeexBridge.V8.JsonObjects
import WeexBridge.V8.JsonRoundTrip
import WeexBridge.Lib.Ring
import WeexBridge.V8.ConsIterator
import WeexBridge.V8.CharacterStream
import WeexBridge.V8.StringHasher
import WeexBridge.V8.Utf8Keys
import WeexBridge.V8.StringEquals
import WeexBridge.Lib.Probing
import WeexBridge.V8.HashTable
import WeexBridge.V8.StringHeap
import WeexBridge.V8.InternedKeys
import WeexBridge.V8.Interning
import WeexBridge.V8.StringRuns
import WeexBridge.V8.JsonKeys
import WeexBridge.V8.Utf8Strings
import WeexBridge.Bridge.PayloadRoundTrip
