/-! # Blank characters and stripping

Texts are lists of characters here; `Docsmith.Text` lifts the functions to strings. -/

namespace Docsmith.Chars

/-- Every Unicode separator and the control characters that move the cursor or separate records. -/
def isBlank (c : Char) : Bool :=
  let n := c.toNat
  (0x09 ≤ n && n ≤ 0x0d) || (0x1c ≤ n && n ≤ 0x20) || n == 0x85 || n == 0xa0 || n == 0x1680
    || (0x2000 ≤ n && n ≤ 0x200a) || n == 0x2028 || n == 0x2029 || n == 0x202f || n == 0x205f
    || n == 0x3000

def trimRight (p : Char → Bool) (cs : List Char) : List Char :=
  (cs.reverse.dropWhile p).reverse

def trim (p : Char → Bool) (cs : List Char) : List Char :=
  trimRight p (cs.dropWhile p)

def strip (cs : List Char) : List Char :=
  trim isBlank cs

end Docsmith.Chars
