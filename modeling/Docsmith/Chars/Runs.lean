/-! # Runs of characters

A property of characters by how many code points in a row lack it and how many have it, in turn.
Tables of such numbers are written in letters. -/

namespace Docsmith.Chars

/-- The digits of a number are to base 26, the last one is a capital, and a negative number has a
sign. -/
def numbersFrom (negative : Bool) (value : Nat) : List Char → List Int
  | [] => []
  | '-' :: cs => numbersFrom true value cs
  | c :: cs =>
    if c.isUpper then
      let n := 26 * value + (c.toNat - 'A'.toNat)
      (if negative then -n else n) :: numbersFrom false 0 cs
    else numbersFrom negative (26 * value + (c.toNat - 'a'.toNat)) cs

def numbers (letters : String) : List Int :=
  numbersFrom false 0 letters.toList

def lengths (letters : String) : List Nat :=
  (numbers letters).map Int.toNat

def inRuns : List Nat → Nat → Bool
  | gap :: width :: rest, n =>
    n ≥ gap && (n < gap + width || inRuns rest (n - gap - width))
  | _, _ => false

end Docsmith.Chars
