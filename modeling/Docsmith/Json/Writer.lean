import Docsmith.Decimal.Shortest
import Docsmith.Json.Basic
import Docsmith.Text

/-! # Writing JSON

A style fixes what stands between items and which characters are escaped. -/

namespace Docsmith.Json

structure Style where
  comma : String
  colon : String
  /-- The indentation of a level, if every item has its own line. -/
  indent : Option Nat
  /-- Whether a character is written as an escape with its code. -/
  escapes : Char → Bool

namespace Style

def compact : Style :=
  { comma := ",", colon := ":", indent := none, escapes := fun c => c.toNat < 0x20 }

def pretty : Style :=
  { comma := ",", colon := ": ", indent := some 4,
    escapes := fun c => c.toNat < 0x20 || c.toNat > 0x7e }

end Style

def unicodeEscape (c : Char) : List Char :=
  let n := (Chars.half? c).getD c.toNat
  if n < 0x10000 then '\\' :: 'u' :: Chars.hexDigits 4 n
  else
    let m := n - 0x10000
    '\\' :: 'u' :: Chars.hexDigits 4 (0xd800 + m / 0x400)
      ++ '\\' :: 'u' :: Chars.hexDigits 4 (0xdc00 + m % 0x400)

def writeChar (style : Style) (c : Char) : List Char :=
  match c with
  | '"' => ['\\', '"']
  | '\\' => ['\\', '\\']
  | '\n' => ['\\', 'n']
  | '\r' => ['\\', 'r']
  | '\t' => ['\\', 't']
  | '\x08' => ['\\', 'b']
  | '\x0c' => ['\\', 'f']
  | c => if style.escapes c then unicodeEscape c else [c]

def writeString (style : Style) (s : String) : String :=
  "\"" ++ .ofList (s.toList.flatMap (writeChar style)) ++ "\""

def writeReal (x : Binary64) : String :=
  match x with
  | .nan => "NaN"
  | .infinite negative => if negative then "-Infinity" else "Infinity"
  | x => x.text

def lineStart (style : Style) (level : Nat) : String :=
  match style.indent with
  | none => ""
  | some width => "\n" ++ .ofList (List.replicate (width * level) ' ')

def writeRow (style : Style) (level : Nat) (items : List String) : String :=
  lineStart style (level + 1) ++ Text.join (style.comma ++ lineStart style (level + 1)) items
    ++ lineStart style level

mutual

def write (style : Style) (level : Nat) : Json → String
  | .null => "null"
  | .bool b => if b then "true" else "false"
  | .int n => toString n
  | .real x => writeReal x
  | .str s => writeString style s
  | .arr [] => "[]"
  | .arr (v :: vs) =>
    "[" ++ writeRow style level (writeItems style (level + 1) (v :: vs)) ++ "]"
  | .obj [] => "\x7b\x7d"
  | .obj (f :: fs) =>
    "\x7b" ++ writeRow style level (writeFields style (level + 1) (f :: fs)) ++ "\x7d"

def writeItems (style : Style) (level : Nat) : List Json → List String
  | [] => []
  | v :: vs => write style level v :: writeItems style level vs

def writeFields (style : Style) (level : Nat) : List (String × Json) → List String
  | [] => []
  | (n, v) :: fs =>
    (writeString style n ++ style.colon ++ write style level v) :: writeFields style level fs

end

def compact (v : Json) : String :=
  v.write .compact 0

def pretty (v : Json) : String :=
  v.write .pretty 0

end Docsmith.Json
