import Docsmith.Chars.Half
import Docsmith.Json.Basic
import Docsmith.Json.Problem

/-! # Reading JSON

A recursive descent over the characters, with the length of the text as fuel. Beyond the standard
`NaN`, `Infinity` and `-Infinity` are numbers. -/

namespace Docsmith.Json

/-! ## Stops -/

inductive Stop where
  | flaw (flaw : Flaw) (left : Nat)
  | tooManyDigits (count : Nat)
  | tooDeep (nest : Nest)
deriving Repr, DecidableEq

def Stop.problem (text : List Char) : Stop → Problem
  | .flaw f left => .malformed f (.after (text.take (text.length - left)))
  | .tooManyDigits count => .tooManyDigits count
  | .tooDeep nest => .tooDeep nest

def flawAt {α : Type} (flaw : Flaw) (left : List Char) : Except Stop α :=
  .error (.flaw flaw left.length)

/-! ## Strings -/

def skipSpace (cs : List Char) : List Char :=
  cs.dropWhile fun c => c == ' ' || c == '\t' || c == '\n' || c == '\r'

def hexValue? (c : Char) : Option Nat :=
  if '0' ≤ c && c ≤ '9' then some (c.toNat - '0'.toNat)
  else if 'a' ≤ c && c ≤ 'f' then some (c.toNat - 'a'.toNat + 10)
  else if 'A' ≤ c && c ≤ 'F' then some (c.toNat - 'A'.toNat + 10)
  else none

def hexQuad? (a b c d : Char) : Option Nat := do
  let a ← hexValue? a
  let b ← hexValue? b
  let c ← hexValue? c
  let d ← hexValue? d
  return ((a * 16 + b) * 16 + c) * 16 + d

def escaped? (c : Char) : Option Char :=
  match c with
  | '"' => some '"'
  | '\\' => some '\\'
  | '/' => some '/'
  | 'b' => some '\x08'
  | 'f' => some '\x0c'
  | 'n' => some '\n'
  | 'r' => some '\r'
  | 't' => some '\t'
  | _ => none

/-- A second half makes one character with the first half that it follows. -/
def pushCode (n : Nat) (acc : List Char) : List Char :=
  if Chars.firstLowHalf ≤ n && n < Chars.afterHalves then
    match acc with
    | [] => [Chars.half n]
    | c :: cs =>
      match Chars.half? c with
      | some m => if m < Chars.firstLowHalf then Chars.ofHalves m n :: cs else Chars.half n :: acc
      | none => Chars.half n :: acc
  else if Chars.firstHalf ≤ n && n < Chars.firstLowHalf then Chars.half n :: acc
  else Char.ofNat n :: acc

/-- The quote is the first of `start`. After `\u` stand four digits and at least one more
character. -/
def readString (start acc : List Char) : List Char → Except Stop (String × List Char)
  | [] => flawAt .unclosed start
  | '"' :: rest => .ok (.ofList acc.reverse, rest)
  | ['\\'] => flawAt .unclosed start
  | '\\' :: 'u' :: rest =>
    match rest with
    | a :: b :: c :: d :: more =>
      match hexQuad? a b c d with
      | some n =>
        if more.isEmpty then .error (.flaw .badCode (rest.length + 1))
        else readString start (pushCode n acc) more
      | none => .error (.flaw .badCode (rest.length + 1))
    | _ => .error (.flaw .badCode (rest.length + 1))
  | '\\' :: e :: rest =>
    match escaped? e with
    | some c => readString start (c :: acc) rest
    | none => flawAt .badEscape ('\\' :: e :: rest)
  | c :: rest =>
    if c.toNat < 0x20 then flawAt .control (c :: rest) else readString start (c :: acc) rest

def readQuoted (cs : List Char) : Except Stop (String × List Char) :=
  readString ('"' :: cs) [] cs

/-! ## Numbers -/

def digitsValue (ds : List Char) : Nat :=
  ds.foldl (fun n d => n * 10 + (d.toNat - '0'.toNat)) 0

/-- The digits of an integer: a zero alone or digits that start with none. -/
def readDigits? (cs : List Char) : Option (List Char × List Char) :=
  match cs with
  | '0' :: rest => some (['0'], rest)
  | _ =>
    let ds := cs.takeWhile (·.isDigit)
    if ds.isEmpty then none else some (ds, cs.drop ds.length)

def readFraction (cs : List Char) : Option (List Char) × List Char :=
  match cs with
  | '.' :: rest =>
    let ds := rest.takeWhile (·.isDigit)
    if ds.isEmpty then (none, cs) else (some ds, rest.drop ds.length)
  | _ => (none, cs)

def readExponent (cs : List Char) : Option Int × List Char :=
  match cs with
  | e :: rest =>
    if e == 'e' || e == 'E' then
      let (negative, rest') := match rest with
        | '-' :: r => (true, r)
        | '+' :: r => (false, r)
        | r => (false, r)
      let ds := rest'.takeWhile (·.isDigit)
      if ds.isEmpty then (none, cs)
      else
        let n : Int := digitsValue ds
        (some (if negative then -n else n), rest'.drop ds.length)
    else (none, cs)
  | [] => (none, cs)

def readNumber (start : List Char) (negative : Bool) (cs : List Char) :
    Except Stop (Json × List Char) :=
  match readDigits? cs with
  | none => flawAt .noValue start
  | some (ds, rest) =>
    let (fraction, rest) := readFraction rest
    let (exponent, rest) := readExponent rest
    match fraction, exponent with
    | none, none =>
      if ds.length > Chars.maxDigits then .error (.tooManyDigits ds.length)
      else
        let n : Int := digitsValue ds
        .ok (.int (if negative then -n else n), rest)
    | _, _ =>
      let fs := fraction.getD []
      .ok (.real (.ofDecimal negative (digitsValue (ds ++ fs)) (exponent.getD 0 - fs.length)), rest)

/-! ## Values -/

def dropWord? (word : String) (cs : List Char) : Option (List Char) :=
  if word.toList.isPrefixOf cs then some (cs.drop word.length) else none

def wordValues : List (String × Json) :=
  [("null", .null), ("true", .bool true), ("false", .bool false), ("NaN", .real .nan),
   ("Infinity", .real (.infinite false)), ("-Infinity", .real (.infinite true))]

def readWord? (cs : List Char) : Option (Json × List Char) :=
  wordValues.findSome? fun (word, v) => (dropWord? word cs).map (v, ·)

def readAtom (cs : List Char) : Except Stop (Json × List Char) :=
  match readWord? cs with
  | some found => .ok found
  | none =>
    match cs with
    | '"' :: rest => do
      let (s, rest) ← readQuoted rest
      return (.str s, rest)
    | '-' :: rest => readNumber cs true rest
    | _ => readNumber cs false cs

def maxDepth : Nat := 985

mutual

/-- A value at the start of a text, which has no white space in front; it may hold others down to
the given depth. -/
def readValue (depth : Nat) : Nat → List Char → Except Stop (Json × List Char)
  | 0, cs => flawAt .noValue cs
  | fuel + 1, cs =>
    match cs with
    | '[' :: rest =>
      match depth with
      | 0 => .error (.tooDeep .array)
      | depth + 1 =>
        match skipSpace rest with
        | ']' :: rest => .ok (.arr [], rest)
        | rest => do
          let (items, rest) ← readItems depth fuel rest
          return (.arr items, rest)
    | '\x7b' :: rest =>
      match depth with
      | 0 => .error (.tooDeep .object)
      | depth + 1 =>
        match skipSpace rest with
        | '\x7d' :: rest => .ok (.obj [], rest)
        | rest => do
          let (fields, rest) ← readFields depth fuel rest
          return (.ofFields fields, rest)
    | _ => readAtom cs

def readItems (depth : Nat) : Nat → List Char → Except Stop (List Json × List Char)
  | 0, cs => flawAt .noValue cs
  | fuel + 1, cs => do
    let (v, rest) ← readValue depth fuel cs
    match skipSpace rest with
    | ',' :: rest =>
      let (vs, rest) ← readItems depth fuel (skipSpace rest)
      return (v :: vs, rest)
    | ']' :: rest => return ([v], rest)
    | rest => flawAt .noComma rest

def readFields (depth : Nat) : Nat → List Char → Except Stop (List (String × Json) × List Char)
  | 0, cs => flawAt .noName cs
  | fuel + 1, cs =>
    match cs with
    | '"' :: rest => do
      let (name, rest) ← readQuoted rest
      match skipSpace rest with
      | ':' :: rest =>
        let (v, rest) ← readValue depth fuel (skipSpace rest)
        match skipSpace rest with
        | ',' :: rest =>
          let (fs, rest) ← readFields depth fuel (skipSpace rest)
          return ((name, v) :: fs, rest)
        | '\x7d' :: rest => return ([(name, v)], rest)
        | rest => flawAt .noComma rest
      | rest => flawAt .noColon rest
    | _ => flawAt .noName cs

end

def readAll (cs : List Char) : Except Stop Json := do
  if cs.head? == some (Char.ofNat 0xfeff) then flawAt .marked cs
  let (v, rest) ← readValue maxDepth (cs.length + 1) (skipSpace cs)
  match skipSpace rest with
  | [] => return v
  | rest => flawAt .extra rest

def parse (s : String) : Except Problem Json :=
  (readAll s.toList).mapError (Stop.problem s.toList)

def parse? (s : String) : Option Json :=
  (parse s).toOption

end Docsmith.Json
