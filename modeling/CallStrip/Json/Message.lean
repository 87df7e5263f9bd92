import CallStrip.Json.Value
import CallStrip.Text.Visible

/-!
The wording of faults in a document.
-/

namespace CallStrip.Json

def ticked (t : Text) : Text := '\x60' :: t ++ ['\x60']

def Met.describe : Met → Text
  | .scalar .null => "null".toList
  | .scalar (.flag b) => "boolean ".toList ++ ticked (Scalar.flag b).render
  | .scalar (.number (.whole i)) => "integer ".toList ++ ticked (Text.ofInt i)
  | .scalar (.number (.real x)) => "floating point ".toList ++ ticked (layout.render x)
  | .scalar (.text t) => "string ".toList ++ t.visible
  | .list => "sequence".toList
  | .object => "map".toList

def Wanted.describe : Wanted → Text
  | .list => "a sequence".toList
  | .record name => "struct ".toList ++ name

def Cause.message : Cause → Text
  | .endInValue => "EOF while parsing a value".toList
  | .endInList => "EOF while parsing a list".toList
  | .endInObject => "EOF while parsing an object".toList
  | .endInText => "EOF while parsing a string".toList
  | .noValue => "expected value".toList
  | .badWord => "expected ident".toList
  | .noColon => "expected ".toList ++ ticked [':']
  | .listNotContinued => "expected ".toList ++ ticked [','] ++ " or ".toList ++ ticked [']']
  | .objectNotContinued => "expected ".toList ++ ticked [','] ++ " or ".toList ++ ticked ['\x7d']
  | .keyNotText => "key must be a string".toList
  | .trailingComma => "trailing comma".toList
  | .trailingBytes => "trailing characters".toList
  | .badNumber => "invalid number".toList
  | .numberOutOfRange => "number out of range".toList
  | .badEscape => "invalid escape".toList
  | .loneSurrogate => "lone leading surrogate in hex escape".toList
  | .surrogateCutShort => "unexpected end of hex escape".toList
  | .controlByte => "control character (\\u0000-\\u001F) found while parsing a string".toList
  | .notUnicode => "invalid unicode code point".toList
  | .tooDeep => "recursion limit exceeded".toList
  | .mismatch met wanted =>
    "invalid type: ".toList ++ met.describe ++ ", expected ".toList ++ wanted.describe
  | .missing key => "missing field ".toList ++ ticked key
  | .duplicate key => "duplicate field ".toList ++ ticked key
  | .tooShort count name width =>
    "invalid length ".toList ++ Text.ofNat count ++ ", expected struct ".toList ++ name ++
      " with ".toList ++ Text.ofNat width ++ (if width = 1 then " element" else " elements").toList

def Located.message (f : Located) : Text :=
  f.cause.message ++ " at line ".toList ++ Text.ofNat f.place.line ++ " column ".toList ++
    Text.ofNat f.place.column

end CallStrip.Json
