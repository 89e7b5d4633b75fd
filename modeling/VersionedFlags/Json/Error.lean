/-!
# Why a text was refused

A cause is placed where reading stopped.  Lines count from one and a column
counts the bytes of its line up to the place.
-/

namespace VersionedFlags

namespace Json

/-- The shape that a typed reader found in place of the one it wanted. -/
inductive Shape where
  | null
  | bool (value : Bool)
  | number (text : String)
  | fraction (text : String)
  | string (quoted : String)
  | sequence
  | map
  deriving DecidableEq, Repr

def Shape.describe : Shape → String
  | .null => "null"
  | .bool true => "boolean `true`"
  | .bool false => "boolean `false`"
  | .number text => "integer `" ++ text ++ "`"
  | .fraction text => "floating point `" ++ text ++ "`"
  | .string quoted => "string " ++ quoted
  | .sequence => "sequence"
  | .map => "map"

inductive Cause where
  | listCut
  | objectCut
  | stringCut
  | valueCut
  | expectedColon
  | expectedListEnd
  | expectedObjectEnd
  | expectedWord
  | expectedValue
  | invalidEscape
  | invalidNumber
  | numberOutOfRange
  | controlCharacter
  | keyNotString
  | loneSurrogate
  | escapeCut
  | trailingComma
  | trailingCharacters
  | tooDeep
  | unknownField (name : String) (known : List String)
  | repeatedField (name : String)
  | missingField (name : String)
  | wrongShape (found : Shape) (wanted : String)
  | wrongValue (found : Shape) (wanted : String)
  | wrongLength (found : Nat) (wanted : String)
  deriving DecidableEq, Repr

def oneOf : List String → String
  | [] => "there are no fields"
  | [name] => "expected `" ++ name ++ "`"
  | [first, second] => "expected `" ++ first ++ "` or `" ++ second ++ "`"
  | names =>
      "expected one of " ++
        ", ".intercalate (names.map fun name => "`" ++ name ++ "`")

def Cause.describe : Cause → String
  | .listCut => "EOF while parsing a list"
  | .objectCut => "EOF while parsing an object"
  | .stringCut => "EOF while parsing a string"
  | .valueCut => "EOF while parsing a value"
  | .expectedColon => "expected `:`"
  | .expectedListEnd => "expected `,` or `]`"
  | .expectedObjectEnd => "expected `,` or `\x7d`"
  | .expectedWord => "expected ident"
  | .expectedValue => "expected value"
  | .invalidEscape => "invalid escape"
  | .invalidNumber => "invalid number"
  | .numberOutOfRange => "number out of range"
  | .controlCharacter =>
      "control character (\\u0000-\\u001F) found while parsing a string"
  | .keyNotString => "key must be a string"
  | .loneSurrogate => "lone leading surrogate in hex escape"
  | .escapeCut => "unexpected end of hex escape"
  | .trailingComma => "trailing comma"
  | .trailingCharacters => "trailing characters"
  | .tooDeep => "recursion limit exceeded"
  | .unknownField name known =>
      "unknown field `" ++ name ++ "`, " ++ oneOf known
  | .repeatedField name => "duplicate field `" ++ name ++ "`"
  | .missingField name => "missing field `" ++ name ++ "`"
  | .wrongShape found wanted =>
      "invalid type: " ++ found.describe ++ ", expected " ++ wanted
  | .wrongValue found wanted =>
      "invalid value: " ++ found.describe ++ ", expected " ++ wanted
  | .wrongLength found wanted =>
      "invalid length " ++ toString found ++ ", expected " ++ wanted

structure Error where
  cause : Cause
  line : Nat
  column : Nat
  deriving DecidableEq, Repr

def Error.message (error : Error) : String :=
  error.cause.describe ++ " at line " ++ toString error.line ++ " column " ++
    toString error.column

end Json

end VersionedFlags
