/-! # Tabs

A tab reaches to the next column whose number is a multiple of eight. -/

namespace Docsmith.Chars

def tabWidth : Nat := 8

def expandFrom (column : Nat) : List Char → List Char
  | [] => []
  | '\t' :: cs =>
    let width := tabWidth - column % tabWidth
    List.replicate width ' ' ++ expandFrom (column + width) cs
  | c :: cs => c :: expandFrom (if c == '\n' || c == '\r' then 0 else column + 1) cs

def expandTabs (cs : List Char) : List Char :=
  expandFrom 0 cs

end Docsmith.Chars
