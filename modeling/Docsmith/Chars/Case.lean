import Docsmith.Chars.CaseTable
import Docsmith.Chars.Runs
import Docsmith.Chars.SigmaTable

/-! # Upper and lower case

By the full mappings of Unicode: one character may become several, and the capital sigma has two
forms in lower case. -/

namespace Docsmith.Chars

def upperOf (c : Char) : List Char :=
  match upperLong.lookup c.toNat with
  | some ns => ns.map Char.ofNat
  | none =>
    match upperRuns.find? (·.covers c.toNat) with
    | some r => [Char.ofNat (r.apply c.toNat)]
    | none => [c]

/-- Only the dotted capital I has two characters in its lower case form. -/
def lowerOf (c : Char) : List Char :=
  if c.toNat < 0x80 then [c.toLower]
  else if c.toNat == 0x130 then ['i', Char.ofNat 0x307]
  else
    match lowerRuns.find? (·.covers c.toNat) with
    | some r => [Char.ofNat (r.apply c.toNat)]
    | none => [c]

def upper (cs : List Char) : List Char :=
  cs.flatMap upperOf

def meetsCase (cs : List Char) : Bool :=
  match cs.dropWhile (inRuns passedRuns ·.toNat) with
  | [] => false
  | c :: _ => inRuns casedRuns c.toNat

/-- A capital sigma between two parts of a text, the first from its end: it has another form at the
end of a word. -/
def lowerSigma (before after : List Char) : Char :=
  Char.ofNat (if meetsCase before && !meetsCase after then 0x3c2 else 0x3c3)

/-- The characters `before` are listed from the nearest on. -/
def lowerAfter (before : List Char) : List Char → List Char
  | [] => []
  | c :: cs =>
    (if c.toNat == 0x3a3 then [lowerSigma before cs] else lowerOf c) ++ lowerAfter (c :: before) cs

def lower (cs : List Char) : List Char :=
  lowerAfter [] cs

end Docsmith.Chars
