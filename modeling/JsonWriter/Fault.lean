import JsonWriter.Decimal.Number
import JsonWriter.Setting
import JsonWriter.Text.Quoted

/-!
What can go wrong, by cause, and the wording of each.
-/

namespace JsonWriter

/-- The classes of error that a self-rendering object may raise by itself. -/
inductive FaultClass
  | encoding
  | type
  | value
  | key
  | runtime
deriving DecidableEq

/-- The source that an encoding error points at. -/
inductive Document
  | text (t : Text)
  | bytes (raw : List UInt8)
deriving DecidableEq

/-- Data without a JSON form. Values in messages are given as they are shown. -/
inductive EncodingFault
  | surrogate (source : Text) (shown : Text)
  | notAscii (output : Text)
  | notFinite (token : Text)
  | tooManyDigits
  | illFormed (byte : UInt8) (raw : List UInt8)
  | notText (kind returned : Text)
  | rawNotMapping (kind : Text)
  | rawUnknownTag (shown : Text)
  | rawOtherTag (expected actual : Text)
  | rawNotArray
  | rawNotInteger (index : Nat) (shown : Text)
  | rawOutOfRange (index : Nat) (shown : Text)
  | raised (message : Text)
deriving DecidableEq

/-- A value of a type that cannot be used where it stands, or arguments that are too few or too
many. An object that is built counts as an argument. -/
inductive TypeFault
  | settingNotInteger (s : Setting) (kind : Text)
  | settingNotText (s : Setting) (kind : Text)
  | notOrdered (sign left right : Text)
  | notConcatenable (sequence other : Text)
  | notExtensible (bytes other : Text)
  | noOperation (sign left right : Text)
  | notCount (kind : Text)
  | notPart (index : Nat) (kind : Text)
  | unhashable (kind : Text)
  | escapedText
  | notBytes (kind target : Text)
  | notNumber (type kinds kind : Text)
  | notIterable (kind : Text)
  | notPair (index : Nat)
  | notShownAsText (kind : Text)
  | noEncoding
  | notInteger (kind : Text)
  | notBinary (kind : Text)
  | messageNotText
  | missingArguments (callee : Text) (names : List Text)
  | excessArguments (callee : Text) (least most given : Nat)
  | raised (message : Text)
deriving DecidableEq

/-- A value of the right type that is out of range. -/
inductive ValueFault
  | negativeSetting (s : Setting)
  | negativeCount
  | byteRange (item : Text)
  | errorByteRange
  | notWhole (shown : Text)
  | notFloating (shown : Text)
  | tooLongNumeral (length : Nat)
  | nanToInteger
  | pairLength (index length : Nat)
  | tooManyDigits
  | raised (message : Text)
deriving DecidableEq

/-- A number too big for a machine word or a floating-point number, or for what is repeated. -/
inductive OverflowFault
  | quotient
  | count (kind : Text)
  | floating
  | infinityToInteger
  | repeatedText
  | repeatedBytes
deriving DecidableEq

/-- A key that is not found is given as it is shown, if it can be. -/
inductive Fault
  | encoding (cause : EncodingFault)
  | nesting (depth limit : Number)
  | notMapping (kind : Text)
  | type (cause : TypeFault)
  | value (cause : ValueFault)
  | key (shown? : Option Text)
  | overflow (cause : OverflowFault)
  | runtime (message : Text)
  | endless
deriving DecidableEq

def digitLimitText : Text := text "Exceeds the limit (4300 digits) for integer string conversion"

def digitLimitAdvice : Text := text "use sys.set_int_max_str_digits() to increase the limit"

/-- Why a number of too many digits is not written. -/
def digitLimitMessage : Text := digitLimitText ++ text "; " ++ digitLimitAdvice

namespace EncodingFault

def message : EncodingFault → Text
  | surrogate _ shown => text "source sequence " ++ shown ++ text " is illegal/malformed utf-8"
  | notAscii output =>
    text "source sequence " ++ Quoted.ofText output ++ text " is not ASCII"
  | notFinite token => token ++ text " not allowed in JSON"
  | tooManyDigits => text "integer too large to convert: " ++ digitLimitMessage
  | illFormed byte _ => text "invalid utf8 byte: '\\x" ++ Escape.hex 2 byte.toNat ++ text "'"
  | notText kind returned =>
    kind ++ text ".to_json returned " ++ returned ++ text ", not str"
  | rawNotMapping kind => text "raw object must be a mapping, not " ++ kind
  | rawUnknownTag shown => text "unknown raw object type: " ++ shown
  | rawOtherTag expected actual =>
    text "expected raw object of type " ++ expected ++ text ", got " ++ actual
  | rawNotArray => text "raw object 'raw' must be an array"
  | rawNotInteger index shown =>
    text "raw element " ++ Decimal.ofNat index ++ text " is not an integer: " ++ shown
  | rawOutOfRange index shown =>
    text "raw element " ++ Decimal.ofNat index ++ text " out of range: " ++ shown
  | raised message => message

/-- The text or bytes at fault, empty when there are none to show. -/
def document : EncodingFault → Document
  | surrogate source _ => .text source
  | notAscii output => .text output
  | notFinite token => .text token
  | illFormed _ raw => .bytes raw
  | _ => .text []

def byte? : EncodingFault → Option UInt8
  | illFormed byte _ => some byte
  | _ => none

end EncodingFault

namespace TypeFault

def message : TypeFault → Text
  | settingNotInteger s kind =>
    s.name ++ text " must be an integer" ++
      if s = .bufferLength then [] else text ", not " ++ kind
  | settingNotText s kind => s.name ++ text " must be a string, not " ++ kind
  | notOrdered sign left right =>
    text "'" ++ sign ++ text "' not supported between instances of '" ++ left ++ text "' and '" ++
      right ++ text "'"
  | notConcatenable sequence other =>
    text "can only concatenate " ++ sequence ++ text " (not \"" ++ other ++ text "\") to " ++ sequence
  | notExtensible bytes other => text "can't concat " ++ other ++ text " to " ++ bytes
  | noOperation sign left right =>
    text "unsupported operand type(s) for " ++ sign ++ text ": '" ++ left ++ text "' and '" ++
      right ++ text "'"
  | notCount kind => text "can't multiply sequence by non-int of type '" ++ kind ++ text "'"
  | notPart index kind =>
    text "sequence item " ++ Decimal.ofNat index ++ text ": expected str instance, " ++ kind ++
      text " found"
  | unhashable kind => text "unhashable type: '" ++ kind ++ text "'"
  | escapedText => text "escaper input must be UTF-8 bytes, not str"
  | notBytes kind target => text "cannot convert '" ++ kind ++ text "' object to " ++ target
  | notNumber type kinds kind =>
    type ++ text "() argument must be " ++ kinds ++ text " or a real number, not '" ++ kind ++ text "'"
  | notIterable kind => text "'" ++ kind ++ text "' object is not iterable"
  | notPair index =>
    text "cannot convert dictionary update sequence element #" ++ Decimal.ofNat index ++
      text " to a sequence"
  | notShownAsText kind => text "__str__ returned non-string (type " ++ kind ++ text ")"
  | noEncoding => text "string argument without an encoding"
  | notInteger kind =>
    text "'" ++ kind ++ text "' object cannot be interpreted as an integer"
  | notBinary kind => text "raw objects wrap bytes or bytearray, not " ++ kind
  | messageNotText => text "msg must be a string"
  | missingArguments callee names =>
    callee ++ text "() missing " ++ Decimal.ofNat names.length ++
      text (if names.length = 1 then " required positional argument: " else
        " required positional arguments: ") ++
      Text.join (text " and ") (names.map Quoted.ofText)
  | excessArguments callee least most given =>
    callee ++ text "() takes " ++
      (if least = most then [] else text "from " ++ Decimal.ofNat least ++ text " to ") ++
      Decimal.ofNat most ++ text " positional arguments but " ++ Decimal.ofNat given ++
      text " were given"
  | raised message => message

end TypeFault

namespace ValueFault

def message : ValueFault → Text
  | negativeSetting s => s.name ++ text " must be non-negative"
  | negativeCount => text "negative count"
  | byteRange item => item ++ text " must be in range(0, 256)"
  | errorByteRange => text "byte must be in range 0-255"
  | notWhole shown => text "invalid literal for int() with base 10: " ++ shown
  | notFloating shown => text "could not convert string to float: " ++ shown
  | tooLongNumeral length =>
    digitLimitText ++ text ": value has " ++ Decimal.ofNat length ++ text " digits; " ++
      digitLimitAdvice
  | nanToInteger => text "cannot convert float NaN to integer"
  | pairLength index length =>
    text "dictionary update sequence element #" ++ Decimal.ofNat index ++ text " has length " ++
      Decimal.ofNat length ++ text "; 2 is required"
  | tooManyDigits => digitLimitMessage
  | raised message => message

end ValueFault

namespace OverflowFault

def message : OverflowFault → Text
  | quotient => text "integer division result too large for a float"
  | count kind => text "cannot fit '" ++ kind ++ text "' into an index-sized integer"
  | floating => text "int too large to convert to float"
  | infinityToInteger => text "cannot convert float infinity to integer"
  | repeatedText => text "repeated string is too long"
  | repeatedBytes => text "repeated bytes are too long"

end OverflowFault

namespace Fault

def name : Fault → Text
  | encoding _ => text "EncodingError"
  | nesting _ _ => text "NestingLimitExceeded"
  | notMapping _ => text "ConfigurationTypeError"
  | type _ => text "TypeError"
  | value _ => text "ValueError"
  | key _ => text "KeyError"
  | overflow _ => text "OverflowError"
  | runtime _ => text "RuntimeError"
  | endless => text "EndlessValue"

def message : Fault → Text
  | encoding cause => cause.message
  | nesting depth _ => text "nesting of " ++ depth.shown ++ text " is too deep"
  | notMapping kind => text "can't convert " ++ kind ++ text " into a mapping"
  | type cause => cause.message
  | value cause => cause.message
  | key shown? => shown?.getD digitLimitMessage
  | overflow cause => cause.message
  | runtime message => message
  | endless => text "the value contains itself and no limit is set"

/-- The faults of generation itself, which are recorded where they leave it. -/
def IsGeneration : Fault → Prop
  | encoding _ | nesting _ _ => True
  | _ => False

instance (f : Fault) : Decidable f.IsGeneration := by cases f <;> unfold IsGeneration <;> infer_instance

/-- The fault for a container at that depth; a depth of too many digits cannot be reported. -/
def tooDeep (depth limit : Number) : Fault :=
  if depth.IsShort then nesting depth limit else value .tooManyDigits

/-- The fault of that class with the given message. -/
def raised (c : FaultClass) (message : Text) : Fault :=
  match c with
  | .encoding => encoding (.raised message)
  | .type => type (.raised message)
  | .value => value (.raised message)
  | .key => key (some (Quoted.ofText message))
  | .runtime => runtime message

end Fault

end JsonWriter
