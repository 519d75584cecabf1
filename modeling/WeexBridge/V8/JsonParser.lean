/-
# `JsonParser`

The parser of `JSON.parse`, from `json-parser.h`.  It works on a flat string; what
is left of the source from `position_` on is a list, whose first element is `c0_`.
The variant for sequential one-byte strings (`seqAscii`) scans the keys of objects
on a path of its own.

Strings are scanned fast as long as they are one-byte and without escapes; what
comes then is copied into a string of limited length, which is replaced by a longer
one, or a two-byte one, when that is needed.  One that is longer than a sequential
string may be is not allocated, and its empty handle dereferenced.

No user code runs: properties are stored in the object itself.
-/
import WeexBridge.V8.JsHeap
import WeexBridge.V8.JsonQuote

namespace WeexBridge.V8

/-! ## What is parsed -/

/-- A value that `JSON.parse` makes: its elements by index, and its named properties in
the order they were added. -/
inductive JsonValue where
  | null
  | boolean (b : Bool)
  | number (n : JsNumber)
  | string (chars : FlatChars)
  | array (elements : List JsonValue)
  | object (elements : List (Nat × JsonValue)) (named : List (List UInt16 × JsonValue))

/-- What the parser uses of V8: the value of a numeral, and the string table, whose strings
are no longer than strings may be. -/
structure ParserPlatform where
  stringToDouble : List UInt8 → UInt64
  stringTable : (chars : List UInt8) → Option
    { found : FlatChars //
      found.units = chars.map UInt8.toUInt16 ∧ chars.length ≤ kMaxOneByteLength }

/-- Why there is no value: `c0_` is not expected, with the source from `position_` on; the
stack is full; the empty handle of a string is used; a string is written past its end; or a
loop does not end. -/
inductive ParseFailure where
  | unexpectedCharacter (rest : List UInt16)
  | stackOverflow
  | refused
  | overrun
  | diverged
  deriving DecidableEq, Repr

namespace JsonParser

/-- The source from a position on. -/
abbrev Source := List UInt16

/-- Results come with the source from the new position on. -/
abbrev Parsed := Except ParseFailure

/-- `ReportUnexpectedCharacter` -/
def reportUnexpectedCharacter {α : Type} (source : Source) : Parsed α :=
  .error (.unexpectedCharacter source)

/-! ## Characters -/

def isWhitespace (c : UInt16) : Bool := c = 0x20 || c = 0x09 || c = 0x0A || c = 0x0D

def skipWhitespace (source : Source) : Source := source.dropWhile isWhitespace

def advanceSkipWhitespace (source : Source) : Source := skipWhitespace source.tail

/-- `MatchSkipWhiteSpace`: the source behind the character, if it is there. -/
def matchSkipWhiteSpace (c : UInt16) (source : Source) : Option Source :=
  if source.head? = some c then some (advanceSkipWhitespace source) else none

def isDecimalDigit (c : UInt16) : Bool := 0x30 ≤ c && c ≤ 0x39

/-- `'0' <= c0_ && c0_ <= '9'` -/
def startsWithDigit (source : Source) : Bool := source.head?.any isDecimalDigit

/-- `HexValue`, on unsigned integers. -/
def hexValue (c : UInt16) : Option Nat :=
  let digit := c.toUInt32 - 0x30
  if digit ≤ 9 then some digit.toNat
  else
    let letter := (digit ||| 0x20) - (0x61 - 0x30)
    if letter ≤ 5 then some (letter.toNat + 10) else none

/-! ## Strings -/

def kMaxOneByteCharCode : UInt16 := 0xFF

def kInitialSpecialStringLength : Nat := 1024

/-- `NewRawString` of a length, whose result is dereferenced. -/
def newRawString (twoByte : Bool) (length : Nat) : Parsed Nat :=
  if length ≤ Str.maxFlatLength (!twoByte) then .ok length else .error .refused

/-- The length of the string that `SlowScanJsonString` allocates for `count` characters
and more to come. -/
def slowScanLength (count : Nat) (source : Source) : Nat :=
  min (count + source.length) (max kInitialSpecialStringLength (2 * count))

/-- The loop over the digits of `\u`. -/
def scanHex : Nat → Nat → Source → Parsed (Nat × Source)
  | 0, value, source => .ok (value, source)
  | _ + 1, _, [] => reportUnexpectedCharacter []
  | i + 1, value, c :: source =>
      match hexValue c with
      | some digit => scanHex i (value * 16 + digit) source
      | none => reportUnexpectedCharacter (c :: source)

/-- The escapes of one character. -/
def escapedCharacter (c : UInt16) : Option UInt16 :=
  if c = 0x22 ∨ c = 0x5C ∨ c = 0x2F then some c
  else if c = 0x62 then some 0x08
  else if c = 0x66 then some 0x0C
  else if c = 0x6E then some 0x0A
  else if c = 0x72 then some 0x0D
  else if c = 0x74 then some 0x09
  else none

/-- The character at `c0_`, which is not `"`: one that stands for itself, or what a
backslash begins.  With it, whether it was written with `\u`. -/
def scanCharacter : Source → Parsed ((UInt16 × Bool) × Source)
  | [] => reportUnexpectedCharacter []
  | c :: source =>
      if c ≠ 0x5C then .ok ((c, false), source)
      else
        match source with
        | [] => reportUnexpectedCharacter []
        | e :: source =>
            if e = 0x75 then do
              let (value, source) ← scanHex 4 0 source
              pure ((.ofNat value, true), source)
            else
              match escapedCharacter e with
              | some u => .ok ((u, false), source)
              | none => reportUnexpectedCharacter (e :: source)

/-- The string that has been written. -/
def seqString (twoByte : Bool) (sink : List UInt16) : FlatChars :=
  if twoByte then .twoByte sink else .oneByte (sink.map UInt16.toUInt8)

/-- `SlowScanJsonString` from its loop on.  `sink` is what has been written to a string
of `length` characters, of one or two bytes; where it has to be replaced, the function
calls itself. -/
def slowScanLoop (seqAscii : Bool) :
    Nat → Bool → Nat → List UInt16 → Source → Parsed (FlatChars × Source)
  | 0, _, _, _, _ => .error .diverged
  | _ + 1, _, _, _, [] => reportUnexpectedCharacter []
  | fuel + 1, twoByte, length, sink, c :: source => do
      let count := sink.length
      if c = 0x22 then pure (seqString twoByte sink, skipWhitespace source)
      else if c < 0x20 then reportUnexpectedCharacter (c :: source)
      else if length ≤ count then
        let length ← newRawString twoByte (slowScanLength count (c :: source))
        slowScanLoop seqAscii fuel twoByte length sink (c :: source)
      else
        let ((value, unicode), rest) ← scanCharacter (c :: source)
        -- a character of the source is tested unless the source is ASCII, one of `\u` always
        if twoByte || (seqAscii && !unicode) || value ≤ kMaxOneByteCharCode then
          let stored := if twoByte then value else value.toUInt8.toUInt16
          slowScanLoop seqAscii fuel twoByte length (sink ++ [stored]) rest
        else
          let length ← newRawString true (slowScanLength count (c :: source))
          slowScanLoop seqAscii fuel true length sink (c :: source)

/-- `SlowScanJsonString` after the characters of `beginning`. -/
def slowScanJsonString (seqAscii twoByte : Bool) (beginning : List UInt16) (source : Source) :
    Parsed (FlatChars × Source) := do
  let length ← newRawString twoByte (slowScanLength beginning.length source)
  if beginning.length ≤ length then
    slowScanLoop seqAscii (2 * source.length + 3) twoByte length beginning source
  else .error .overrun

/-- The end of `ScanJsonString`, at the last quote. -/
def finishString (seqAscii isInternalized : Bool) (scanned : List UInt16) (source : Source) :
    Parsed (FlatChars × Source) := do
  let result : FlatChars := .oneByte (scanned.map UInt16.toUInt8)
  if seqAscii && isInternalized then
    -- `InternalizeOneByteString`, whose empty handle is returned
    if scanned.length ≤ kMaxOneByteLength then pure (result, skipWhitespace source)
    else reportUnexpectedCharacter (skipWhitespace source)
  else
    let _ ← newRawString false scanned.length
    pure (result, skipWhitespace source)

/-- The loop of `ScanJsonString` over one-byte characters without escapes. -/
def fastScanLoop (seqAscii isInternalized : Bool) :
    List UInt16 → Source → Parsed (FlatChars × Source)
  | _, [] => reportUnexpectedCharacter []
  | scanned, c :: source =>
      if c = 0x22 then finishString seqAscii isInternalized scanned source
      else if c < 0x20 then reportUnexpectedCharacter (c :: source)
      else if c ≠ 0x5C then
        if seqAscii || c ≤ kMaxOneByteCharCode then
          fastScanLoop seqAscii isInternalized (scanned ++ [c]) source
        else slowScanJsonString seqAscii true scanned (c :: source)
      else slowScanJsonString seqAscii false scanned (c :: source)

/-- The loop of `ScanJsonString` for a key of an ASCII source.  It leaves `position_`
alone unless it finds a backslash or a string of the table; `start` is the source there. -/
def internalizedScanLoop (platform : ParserPlatform) (start : Source) :
    List UInt16 → Source → Parsed (FlatChars × Source)
  | _, [] => reportUnexpectedCharacter start
  | scanned, c :: source =>
      if c = 0x5C then slowScanJsonString true false scanned (c :: source)
      else if c < 0x20 then reportUnexpectedCharacter start
      else
        match source with
        | [] => reportUnexpectedCharacter start
        | d :: rest =>
            if d = 0x22 then
              match platform.stringTable ((scanned ++ [c]).map UInt16.toUInt8) with
              | some found => .ok (found.val, skipWhitespace rest)
              | none => fastScanLoop true true [] start
            else internalizedScanLoop platform start (scanned ++ [c]) (d :: rest)

/-- `ScanJsonString`, at the first quote. -/
def scanJsonString (platform : ParserPlatform) (seqAscii isInternalized : Bool)
    (source : Source) : Parsed (FlatChars × Source) :=
  let source := source.tail
  if source.head? = some 0x22 then .ok (.oneByte [], advanceSkipWhitespace source)
  else if seqAscii && isInternalized then internalizedScanLoop platform source [] source
  else fastScanLoop seqAscii isInternalized [] source

/-! ## Numbers -/

/-- The number that the digits of a decimal numeral make. -/
def decimalValue (digits : List UInt16) : Nat :=
  digits.foldl (fun i c => i * 10 + (c.toNat - 0x30)) 0

/-- `StringToDouble` of what has been scanned, and `NewNumber`. -/
def stringToNumber (stringToDouble : List UInt8 → UInt64) (chars : List UInt16) : JsNumber :=
  numberFromDouble (stringToDouble (chars.map UInt16.toUInt8))

/-- The end of `ParseJsonNumber`; `start` is where the number begins. -/
def finishNumber (platform : ParserPlatform) (start source : Source) :
    Parsed (JsNumber × Source) :=
  .ok (stringToNumber platform.stringToDouble (start.take (start.length - source.length)),
    skipWhitespace source)

/-- The exponent, and what follows it. -/
def scanExponent (platform : ParserPlatform) (start source : Source) :
    Parsed (JsNumber × Source) :=
  if source.head?.any fun e => e ||| 0x20 = 0x65 then
    let source := source.tail
    let source :=
      if source.head? = some 0x2D ∨ source.head? = some 0x2B then source.tail else source
    if startsWithDigit source then
      finishNumber platform start (source.dropWhile isDecimalDigit)
    else reportUnexpectedCharacter source
  else finishNumber platform start source

/-- The fraction, and what follows it. -/
def scanFraction (platform : ParserPlatform) (start source : Source) :
    Parsed (JsNumber × Source) :=
  if source.head? = some 0x2E then
    let source := source.tail
    if startsWithDigit source then
      scanExponent platform start (source.dropWhile isDecimalDigit)
    else reportUnexpectedCharacter source
  else scanExponent platform start source

/-- `c0_ != '.' && c0_ != 'e' && c0_ != 'E'` -/
def endsInteger (source : Source) : Bool :=
  source.head? ≠ some 0x2E && source.head? ≠ some 0x65 && source.head? ≠ some 0x45

/-- `ParseJsonNumber` behind the sign. -/
def parseInteger (platform : ParserPlatform) (start : Source) (negative : Bool)
    (source : Source) : Parsed (JsNumber × Source) :=
  if source.head? = some 0x30 then
    -- a zero stands alone before a decimal point or an exponent
    if startsWithDigit source.tail then reportUnexpectedCharacter source.tail
    else scanFraction platform start source.tail
  else if startsWithDigit source then
    let digits := source.takeWhile isDecimalDigit
    let rest := source.dropWhile isDecimalDigit
    if endsInteger rest && digits.length < 10 then
      let i : Int := decimalValue digits
      .ok (.smi (if negative then -i else i), skipWhitespace rest)
    else scanFraction platform start rest
  else reportUnexpectedCharacter source

def parseJsonNumber (platform : ParserPlatform) (start : Source) : Parsed (JsNumber × Source) :=
  if start.head? = some 0x2D then parseInteger platform start true start.tail
  else parseInteger platform start false start

/-! ## Objects -/

/-- The properties of an object that is being built. -/
structure Properties where
  elements : List (Nat × JsonValue)
  named : List (List UInt16 × JsonValue)

namespace Properties

def empty : Properties := ⟨[], []⟩

/-- `SetOwnElement`; elements are enumerated by their index. -/
def setElement (index : Nat) (value : JsonValue) :
    List (Nat × JsonValue) → List (Nat × JsonValue)
  | [] => [(index, value)]
  | (i, v) :: elements =>
      if index < i then (index, value) :: (i, v) :: elements
      else if index = i then (index, value) :: elements
      else (i, v) :: setElement index value elements

/-- `TryTransitionToField` and `SetLocalPropertyIgnoreAttributes`: a property that is there
keeps its place. -/
def setNamed (key : List UInt16) (value : JsonValue) :
    List (List UInt16 × JsonValue) → List (List UInt16 × JsonValue)
  | [] => [(key, value)]
  | (k, v) :: named =>
      if key = k then (key, value) :: named else (k, v) :: setNamed key value named

def toObject (properties : Properties) : JsonValue :=
  .object properties.elements properties.named

end Properties

/-- The key of a member. -/
inductive MemberKey where
  | element (index : Nat)
  | named (key : List UInt16)
  deriving DecidableEq, Repr

def Properties.set (key : MemberKey) (value : JsonValue) (properties : Properties) : Properties :=
  match key with
  | .element index => { properties with elements := setElement index value properties.elements }
  | .named key => { properties with named := setNamed key value properties.named }

/-- The loop over the digits of an index, as far as it fits into 32 bits. -/
def scanIndexLoop : Nat → Source → Nat × Source
  | index, [] => (index, [])
  | index, c :: source =>
      if isDecimalDigit c then
        let d := c.toNat - 0x30
        if index > 429496729 - (if d > 5 then 1 else 0) then (index, c :: source)
        else scanIndexLoop (index * 10 + d) source
      else (index, c :: source)

/-- The index that a key begins with, and the source behind it. -/
def scanIndex (source : Source) : Nat × Source :=
  if source.head? = some 0x30 then (0, source.tail) else scanIndexLoop 0 source

/-- The key, at its first quote, up to what must be a colon. -/
def parseKey (platform : ParserPlatform) (seqAscii : Bool) (source : Source) :
    Parsed (MemberKey × Source) :=
  let index := scanIndex source.tail
  if startsWithDigit source.tail ∧ index.2.head? = some 0x22 then
    .ok (.element index.1, advanceSkipWhitespace index.2)
  else do
    -- not an index, fall back to the slow path
    let (key, rest) ← scanJsonString platform seqAscii true source
    pure (.named key.units, rest)

/-! ## Values -/

/-- `ParseJsonValue`, where the value begins. -/
abbrev ValueParser := Source → Parsed (JsonValue × Source)

section
variable (platform : ParserPlatform) (seqAscii : Bool)

/-- A member: its key, a colon and its value. -/
def parseMember (parse : ValueParser) (source : Source) :
    Parsed ((MemberKey × JsonValue) × Source) := do
  if source.head? ≠ some 0x22 then reportUnexpectedCharacter source
  else
    let (key, source) ← parseKey platform seqAscii source
    if source.head? ≠ some 0x3A then reportUnexpectedCharacter source
    else
      let (value, source) ← parse (advanceSkipWhitespace source)
      pure ((key, value), source)

/-- The loop over members. -/
def parseMembers (parse : ValueParser) :
    Nat → Properties → Source → Parsed (Properties × Source)
  | 0, _, _ => .error .diverged
  | fuel + 1, properties, source => do
      let ((key, value), source) ← parseMember platform seqAscii parse source
      let properties := properties.set key value
      match matchSkipWhiteSpace 0x2C source with
      | some source => parseMembers parse fuel properties source
      | none => pure (properties, source)

def parseJsonObject (parse : ValueParser) (source : Source) : Parsed (JsonValue × Source) := do
  let source := advanceSkipWhitespace source
  if source.head? = some 0x7D then pure (Properties.empty.toObject, advanceSkipWhitespace source)
  else
    let (properties, source) ←
      parseMembers platform seqAscii parse (source.length + 1) .empty source
    if source.head? ≠ some 0x7D then reportUnexpectedCharacter source
    else pure (properties.toObject, advanceSkipWhitespace source)

/-- The loop over elements. -/
def parseElements (parse : ValueParser) :
    Nat → List JsonValue → Source → Parsed (List JsonValue × Source)
  | 0, _, _ => .error .diverged
  | fuel + 1, elements, source => do
      let (element, source) ← parse source
      match matchSkipWhiteSpace 0x2C source with
      | some source => parseElements parse fuel (elements ++ [element]) source
      | none => pure (elements ++ [element], source)

def parseJsonArray (parse : ValueParser) (source : Source) : Parsed (JsonValue × Source) := do
  let source := advanceSkipWhitespace source
  if source.head? = some 0x5D then pure (.array [], advanceSkipWhitespace source)
  else
    let (elements, source) ← parseElements parse (source.length + 1) [] source
    if source.head? ≠ some 0x5D then reportUnexpectedCharacter source
    else pure (.array elements, advanceSkipWhitespace source)

/-- The rest of a literal, whose first character has been seen. -/
def parseLiteral (value : JsonValue) : List UInt16 → Source → Parsed (JsonValue × Source)
  | [], source => .ok (value, skipWhitespace source)
  | l :: literal, source =>
      if source.head? = some l then parseLiteral value literal source.tail
      else reportUnexpectedCharacter source

/-- The characters of a literal of the source. -/
def literalUnits (s : String) : List UInt16 := (literalBytes s).map UInt8.toUInt16

/-- `ParseJsonValue` -/
def parseJsonValue (parse : ValueParser) : ValueParser := fun source =>
  match source with
  | [] => reportUnexpectedCharacter []
  | c :: rest =>
      if c = 0x22 then do
        let (chars, source) ← scanJsonString platform seqAscii false source
        pure (.string chars, source)
      else if isDecimalDigit c ∨ c = 0x2D then do
        let (n, source) ← parseJsonNumber platform source
        pure (.number n, source)
      else if c = 0x7B then parseJsonObject platform seqAscii parse source
      else if c = 0x5B then parseJsonArray parse source
      else if c = 0x66 then parseLiteral (.boolean false) (literalUnits "alse") rest
      else if c = 0x74 then parseLiteral (.boolean true) (literalUnits "rue") rest
      else if c = 0x6E then parseLiteral .null (literalUnits "ull") rest
      else reportUnexpectedCharacter source

/-- `ParseJsonValue`, with room for `limit` more levels on the stack. -/
def valueParser : Nat → ValueParser
  | 0 => fun _ => .error .stackOverflow
  | limit + 1 => parseJsonValue platform seqAscii (valueParser limit)

end

end JsonParser

/-! ## The result -/

/-- The messages of a `SyntaxError`. -/
inductive SyntaxMessage where
  | unexpectedEos
  | unexpectedTokenNumber
  | unexpectedTokenString
  | unexpectedToken (c : UInt16)
  deriving DecidableEq, Repr

/-- What `JSON.parse` throws; an error of the syntax has a place in the source. -/
inductive ParseError where
  | syntaxError (message : SyntaxMessage) (position : Nat)
  | stackOverflow
  | crash
  deriving DecidableEq, Repr

namespace JsonParser

/-- The message for the character that is not expected. -/
def syntaxMessage : Source → SyntaxMessage
  | [] => .unexpectedEos
  | c :: _ =>
      if c = 0x2D ∨ isDecimalDigit c then .unexpectedTokenNumber
      else if c = 0x22 then .unexpectedTokenString
      else .unexpectedToken c

def syntaxError (source rest : Source) : ParseError :=
  .syntaxError (syntaxMessage rest) (source.length - rest.length)

/-- `ParseJson` -/
def parseJson (platform : ParserPlatform) (seqAscii : Bool) (limit : Nat)
    (source : Source) : Except ParseError JsonValue :=
  match valueParser platform seqAscii limit (skipWhitespace source) with
  | .ok (value, []) => .ok value
  | .ok (_, c :: rest) => .error (syntaxError source (c :: rest))
  | .error (.unexpectedCharacter rest) => .error (syntaxError source rest)
  | .error .stackOverflow => .error .stackOverflow
  | .error .refused => .error .crash
  | .error .overrun => .error .crash
  | .error .diverged => .error .crash

end JsonParser

/-- `IsSeqOneByteString` of a flat string. -/
def Str.isSeqOneByteString : Str → Bool
  | .seq (.oneByte _) => true
  | _ => false

/-- `Runtime_ParseJson`: the source is flattened, if there is memory for it (`allocated`) and it
is not too long, and parsed by the variant for its representation.  `ParseJson` flattens what
is left of a cons string, or reads its characters one by one. -/
def runtimeParseJson (platform : ParserPlatform) (fill : Nat → UInt16) (allocated : Bool)
    (limit : Nat) (source : Str) : Except ParseError JsonValue :=
  match source.tryFlattenGetString fill allocated with
  | some source => JsonParser.parseJson platform source.isSeqOneByteString limit source.units
  | none => .error .crash

end WeexBridge.V8
