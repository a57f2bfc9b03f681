import Docsmith.Text

/-! # Words in a drawing

A word is a run of letters, digits, low lines and points, a text in double quotes or angle brackets,
or a run of commas and characters beyond ASCII. White space and comments may stand in between;
before a word of the last kind only comments are passed over. -/

namespace Docsmith.Facts.Words

/-! ## Gaps -/

def isSpace (c : Char) : Bool :=
  c == ' ' || c == '\n' || c == '\t' || c == '\r'

def dropSpace (cs : List Char) : List Char :=
  cs.dropWhile isSpace

def afterComment? : List Char → Option (List Char)
  | [] => none
  | '*' :: '/' :: rest => some rest
  | _ :: rest => afterComment? rest

/-- What follows the comment at the start of a text: one up to the end of the line, or one between
marks. -/
def comment? : List Char → Option (List Char)
  | '/' :: '/' :: rest => some (rest.dropWhile (· != '\n'))
  | '#' :: rest => some (rest.dropWhile (· != '\n'))
  | '/' :: '*' :: rest => afterComment? rest
  | _ => none

/-- Drops comments and the white space before each of them, at most `fuel` comments. -/
def dropComments : Nat → List Char → List Char
  | 0, cs => cs
  | fuel + 1, cs =>
    match comment? (dropSpace cs) with
    | some rest => dropComments fuel rest
    | none => cs

def dropGap (fuel : Nat) (cs : List Char) : List Char :=
  dropSpace (dropComments fuel cs)

def mark? (fuel : Nat) (c : Char) (cs : List Char) : Option (List Char) :=
  match dropGap fuel cs with
  | d :: rest => if d == c then some rest else none
  | [] => none

def passMark (fuel : Nat) (c : Char) (cs : List Char) : List Char :=
  (mark? fuel c cs).getD (dropGap fuel cs)

def keyword? (fuel : Nat) (word : String) (cs : List Char) : Option (List Char) :=
  let cs := dropGap fuel cs
  if (cs.take word.length).map Char.toLower == word.toList then some (cs.drop word.length) else none

/-! ## Words -/

def run? (kind : Char → Bool) (cs : List Char) : Option (String × List Char) :=
  match cs.takeWhile kind with
  | [] => none
  | run => some (.ofList run, cs.dropWhile kind)

def isPlain (c : Char) : Bool :=
  c.isAlphanum || c == '_' || c == '.'

def isOdd (c : Char) : Bool :=
  c == ',' || c.toNat < 0x20 || c.toNat > 0x7e

/-- Up to the closing quote, in reverse onto `acc`. A backslash keeps the character after it. -/
def quoted? (acc : List Char) : List Char → Option (List Char × List Char)
  | [] => none
  | '"' :: rest => some ('"' :: acc, rest)
  | '\\' :: c :: rest => quoted? (c :: '\\' :: acc) rest
  | ['\\'] => none
  | c :: rest => quoted? (c :: acc) rest

mutual

def angled? : Nat → List Char → Option (List Char × List Char)
  | 0, _ => none
  | fuel + 1, cs =>
    match cs with
    | '<' :: rest => do
      let (inside, rest) := angledInside fuel rest
      let rest ← mark? fuel '>' rest
      some ('<' :: inside ++ ['>'], rest)
    | _ => none

def angledInside : Nat → List Char → List Char × List Char
  | 0, cs => ([], cs)
  | fuel + 1, cs =>
    match angled? fuel (dropGap fuel cs) with
    | some (text, rest) =>
      let (more, rest) := angledInside fuel rest
      (text ++ more, rest)
    | none =>
      let here := dropComments fuel cs
      match here.takeWhile fun c => c != '<' && c != '>' with
      | [] => ([], cs)
      | text =>
        let (more, rest) := angledInside fuel (here.drop text.length)
        (text ++ more, rest)

end

def word? (fuel : Nat) (cs : List Char) : Option (String × List Char) :=
  let next := dropGap fuel cs
  match run? isPlain next, next with
  | some found, _ => some found
  | none, '<' :: _ =>
    match angled? fuel next with
    | some (text, rest) => some (.ofList text, rest)
    | none => run? isOdd (dropComments fuel cs)
  | none, '"' :: rest =>
    match quoted? ['"'] rest with
    | some (text, rest) => some (.ofList text.reverse, rest)
    | none => run? isOdd (dropComments fuel cs)
  | none, _ => run? isOdd (dropComments fuel cs)

def number? (fuel : Nat) (cs : List Char) : Option (String × List Char) :=
  let isDigit (c : Char) : Bool := c.isDigit || c == '.'
  match dropGap fuel cs with
  | '-' :: rest => (run? isDigit rest).map fun (ds, rest) => ("-" ++ ds, rest)
  | cs => run? isDigit cs

def value? (fuel : Nat) (cs : List Char) : Option (String × List Char) :=
  (number? fuel cs).or (word? fuel cs)

/-! ## Names -/

def dropEnd (cs : List Char) : List Char :=
  if cs.getLast? == some '\n' then cs.dropLast else cs

def isBetween (first last : Char) (cs : List Char) : Bool :=
  cs.head? == some first && (dropEnd cs).getLast? == some last && (dropEnd cs).length ≥ 2

def isName (kind : Char → Bool) (cs : List Char) : Bool :=
  match dropEnd cs with
  | [] => false
  | c :: rest => (c.isAlpha || c == '_') && rest.all kind

def inName (c : Char) : Bool :=
  c.isAlphanum || c == '_' || c == ','

def keywords : List String := ["graph", "subgraph", "digraph", "node", "edge", "strict"]

def isClean (s : String) : Bool :=
  let cs := s.toList
  let beyond := cs.any fun c => c.toNat > 0x7f || c.toNat == 0
  keywords.contains s || isBetween '"' '"' cs || isBetween '<' '>' cs
    || (!beyond && (isName inName cs
      || (!(dropEnd cs).isEmpty && (dropEnd cs).all fun c => c.isDigit || c == ',')
      || (isName (fun c => inName c || c == ':' || c == '"') cs && (dropEnd cs).length ≥ 2
        && (dropEnd cs).getLast? != some ':')))

/-- Whether a name can do without quotes; it may consist of two clean parts with a colon in
between. -/
def needsNoQuotes (s : String) : Bool :=
  isClean s ||
    match Text.splitOn ":" s with
    | [a, b] => !(s.toList.any fun c => c.toNat > 0x7f || c.toNat == 0) && isClean a && isClean b
    | _ => false

def nameOf (s : String) : String :=
  if s.isEmpty || needsNoQuotes s then s
  else "\"" ++ Text.replace "\r" "\\r" (Text.replace "\n" "\\n" (Text.replace "\"" "\\\"" s)) ++ "\""

end Docsmith.Facts.Words
