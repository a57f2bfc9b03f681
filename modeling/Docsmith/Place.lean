/-! # Places in a text -/

namespace Docsmith

/-- A place in a text. Lines and columns count from one. -/
structure Place where
  line : Nat
  column : Nat
  offset : Nat
deriving Repr, DecidableEq

namespace Place

def after (cs : List Char) : Place where
  line := cs.count '\n' + 1
  column := (cs.reverse.takeWhile (· != '\n')).length + 1
  offset := cs.length

end Place

end Docsmith
