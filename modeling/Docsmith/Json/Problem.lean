import Docsmith.Chars.Digit
import Docsmith.Place

/-! # Texts that are no JSON

What a reader of JSON finds wrong with a text, and where: also an integer with too many digits, or
arrays and objects too deep inside each other. -/

namespace Docsmith.Json

inductive Flaw where
  | noValue
  | noName
  | noColon
  | noComma
  | unclosed
  | control
  | badEscape
  | badCode
  | extra
  | marked
deriving Repr, DecidableEq

def Flaw.message : Flaw → String
  | .noValue => "Expecting value"
  | .noName => "Expecting property name enclosed in double quotes"
  | .noColon => "Expecting ':' delimiter"
  | .noComma => "Expecting ',' delimiter"
  | .unclosed => "Unterminated string starting at"
  | .control => "Invalid control character at"
  | .badEscape => "Invalid \\escape"
  | .badCode => "Invalid \\uXXXX escape"
  | .extra => "Extra data"
  | .marked => "Unexpected UTF-8 BOM (decode using utf-8-sig)"

def placeMessage (p : Place) : String :=
  "line " ++ toString p.line ++ " column " ++ toString p.column ++ " (char " ++ toString p.offset
    ++ ")"

inductive Nest where
  | array
  | object
deriving Repr, DecidableEq

def Nest.word : Nest → String
  | .array => "array"
  | .object => "object"

inductive Problem where
  | malformed (flaw : Flaw) (place : Place)
  | tooManyDigits (count : Nat)
  | tooDeep (nest : Nest)
deriving Repr, DecidableEq

def tooManyDigitsMessage (count : Nat) : String :=
  "Exceeds the limit (" ++ toString Chars.maxDigits
    ++ " digits) for integer string conversion: value has " ++ toString count
    ++ " digits; use sys.set_int_max_str_digits() to increase the limit"

def Problem.message : Problem → String
  | .malformed flaw place => flaw.message ++ ": " ++ placeMessage place
  | .tooManyDigits count => tooManyDigitsMessage count
  | .tooDeep nest =>
    "maximum recursion depth exceeded while decoding a JSON " ++ nest.word
      ++ " from a unicode string"

end Docsmith.Json
