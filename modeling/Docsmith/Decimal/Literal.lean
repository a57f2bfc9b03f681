import Docsmith.Chars.Blank
import Docsmith.Chars.Digit
import Docsmith.Decimal.Binary64

/-! # Numbers in settings

Whole and decimal numbers as people write them: blanks around, an optional sign, single low lines
between digits. -/

namespace Docsmith.Decimal

def isPadding (c : Char) : Bool :=
  Chars.isBlank c && !(0x1c ≤ c.toNat && c.toNat ≤ 0x1f)

/-- Low lines must stand between digits; `afterDigit` says whether a digit came before. -/
def dropMarks (afterDigit : Bool) : List Char → Option (List Char)
  | [] => some []
  | ['_'] => none
  | '_' :: c :: cs =>
    if afterDigit && Chars.isDigit c then (dropMarks true cs).map (c :: ·) else none
  | c :: cs => (dropMarks (Chars.isDigit c) cs).map (c :: ·)

def sign : List Char → Bool × List Char
  | '-' :: cs => (true, cs)
  | '+' :: cs => (false, cs)
  | cs => (false, cs)

def readInt? (cs : List Char) : Option Int := do
  let (negative, digits) := sign (← dropMarks false (Chars.trim isPadding cs))
  if digits.isEmpty || !digits.all Chars.isDigit || digits.length > Chars.maxDigits then none
  else some (if negative then -(Chars.number digits : Int) else Chars.number digits)

def readExponent? : List Char → Option Int
  | [] => some 0
  | c :: cs =>
    if c == 'e' || c == 'E' then
      let (negative, digits) := sign cs
      if digits.isEmpty || !digits.all Chars.isDigit then none
      else some (if negative then -(Chars.number digits : Int) else Chars.number digits)
    else none

def readUnsigned? (negative : Bool) (cs : List Char) : Option Binary64 := do
  let whole := cs.takeWhile Chars.isDigit
  let rest := cs.dropWhile Chars.isDigit
  let (part, rest) := match rest with
    | '.' :: rest => (rest.takeWhile Chars.isDigit, rest.dropWhile Chars.isDigit)
    | rest => ([], rest)
  if whole.isEmpty && part.isEmpty then none
  else
    let e ← readExponent? rest
    some (.ofDecimal negative (Chars.number (whole ++ part)) (e - part.length))

def readReal? (cs : List Char) : Option Binary64 := do
  let (negative, body) := sign (← dropMarks false (Chars.trim isPadding cs))
  match String.ofList (body.map Char.toLower) with
  | "inf" => some (.infinite negative)
  | "infinity" => some (.infinite negative)
  | "nan" => some .nan
  | _ => readUnsigned? negative body

end Docsmith.Decimal
