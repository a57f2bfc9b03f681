/-! # Patterns for names

`*` stands for any characters, `?` for any single one and a set in brackets for one of its members,
or for any other if it starts with an exclamation mark. A bracket that is never closed stands for
itself. -/

namespace Docsmith.Chars

inductive Piece where
  | char (c : Char)
  | any
  | many
  | oneOf (ranges : List (Char × Char))
  | noneOf (ranges : List (Char × Char))
deriving Repr, DecidableEq

def inRanges (ranges : List (Char × Char)) (c : Char) : Bool :=
  ranges.any fun (first, last) => first ≤ c && c ≤ last

def Piece.fits (c : Char) : Piece → Bool
  | .char d => c == d
  | .any => true
  | .many => true
  | .oneOf ranges => inRanges ranges c
  | .noneOf ranges => !inRanges ranges c

/-! ## Sets -/

/-- The text starts after the opening bracket of a set. A closing bracket at the start is a
member. -/
def setInside? (cs : List Char) : Option (List Char × List Char) :=
  let (mark, rest) := match cs with
    | '!' :: rest => (['!'], rest)
    | rest => ([], rest)
  let (first, rest) := match rest with
    | ']' :: rest => ([']'], rest)
    | rest => ([], rest)
  let inside := rest.takeWhile (· != ']')
  match rest.drop inside.length with
  | [] => none
  | _ :: after => some (mark ++ first ++ inside, after)

/-- Such a hyphen has at least `least` characters before it in its part, which is `acc` in reverse
so far. -/
def rangeParts (least : Nat) (acc : List Char) : List Char → List (List Char)
  | [] => [acc.reverse]
  | c :: cs =>
    if c == '-' && acc.length ≥ least then acc.reverse :: rangeParts 2 [] cs
    else rangeParts least (c :: acc) cs

def closeParts : List (List Char) → List (List Char)
  | [part, []] => [part ++ ['-']]
  | part :: rest => part :: closeParts rest
  | [] => []

/-- Where a part would start a range that has no members, the ends of that range are dropped. -/
def joinPart (part : List Char) (parts : List (List Char)) : List (List Char) :=
  match part.getLast?, parts with
  | some a, (b :: more) :: rest =>
    if b < a then (part.dropLast ++ more) :: rest else part :: parts
  | _, _ => part :: parts

def betweenParts : List (List Char) → List (Char × Char)
  | part :: next :: rest =>
    (match part.getLast?, next.head? with
      | some a, some b => [(a, b)]
      | _, _ => []) ++ betweenParts (next :: rest)
  | _ => []

def setPiece (inside : List Char) : Piece :=
  let least := if inside.head? == some '!' then 2 else 1
  let parts := (closeParts (rangeParts least [] inside)).foldr joinPart []
  let ranges (parts : List (List Char)) : List (Char × Char) :=
    parts.flatten.map (fun c => (c, c)) ++ betweenParts parts
  match parts with
  | ('!' :: part) :: rest => .noneOf (ranges (part :: rest))
  | parts => .oneOf (ranges parts)

/-! ## Matching -/

def pieces : Nat → List Char → List Piece
  | 0, _ => []
  | _, [] => []
  | fuel + 1, c :: cs =>
    match c with
    | '*' => .many :: pieces fuel (cs.dropWhile (· == '*'))
    | '?' => .any :: pieces fuel cs
    | '[' =>
      match setInside? cs with
      | some (inside, rest) => setPiece inside :: pieces fuel rest
      | none => .char '[' :: pieces fuel cs
    | c => .char c :: pieces fuel cs

/-- Whether a text ends in something that `f` holds of, the text itself and the empty text
included. -/
def anyTail (f : List Char → Bool) : List Char → Bool
  | [] => f []
  | c :: cs => f (c :: cs) || anyTail f cs

def fitsAll : List Piece → List Char → Bool
  | [], cs => cs.isEmpty
  | .many :: ps, cs => anyTail (fitsAll ps) cs
  | p :: ps, c :: cs => p.fits c && fitsAll ps cs
  | _ :: _, [] => false

def fitsPattern (pattern cs : List Char) : Bool :=
  fitsAll (pieces pattern.length pattern) cs

def isPattern (cs : List Char) : Bool :=
  cs.any fun c => c == '*' || c == '?' || c == '['

end Docsmith.Chars
