import Docsmith.Decimal.Binary64

/-! # The shortest decimal text of a number

The fewest digits that read back as the number, and of those the nearest to it. Numbers from
`10 ^ -4` below `10 ^ 16` are written positionally, others with an exponent of at least two digits.
-/

namespace Docsmith.Binary64

/-- The interval of reals that round to `m · 2 ^ e`, its ends and its middle as multiples of
`2 ^ (e - 2)`. -/
structure Interval where
  low : Nat
  middle : Nat
  high : Nat
  closed : Bool

def interval (m : Nat) (e : Int) : Interval :=
  let below := if m = Nat.pow 2 52 && e > minExponent then 1 else 2
  { low := 4 * m - below, middle := 4 * m, high := 4 * m + 2, closed := m % 2 == 0 }

def Interval.has (i : Interval) (unit point : Nat) : Bool :=
  if i.closed then i.low * unit ≤ point && point ≤ i.high * unit
  else i.low * unit < point && point < i.high * unit

/-- How many times `10 ^ k` is nearest to the number among the two multiples that enclose it, if one
lies in the interval; half way between them the even one. -/
def digitsAt (i : Interval) (e : Int) (k : Int) : Option Nat :=
  -- the number is `middle · 2 ^ (e - 2)`; bring it and the grid to integers
  let two := e - 2
  let num := i.middle * (if two ≥ 0 then Nat.pow 2 two.toNat else 1) * (if k < 0 then Nat.pow 10 (-k).toNat else 1)
  let unit := (if two ≥ 0 then Nat.pow 2 two.toNat else 1) * (if k < 0 then Nat.pow 10 (-k).toNat else 1)
  let grid := (if two < 0 then Nat.pow 2 (-two).toNat else 1) * (if k ≥ 0 then Nat.pow 10 k.toNat else 1)
  let d := num / grid
  let lower := i.has unit (d * grid)
  let upper := i.has unit ((d + 1) * grid)
  if lower && upper then
    some (roundDiv num grid)
  else if lower then some d
  else if upper then some (d + 1)
  else none

def shortestFrom (i : Interval) (e : Int) : Nat → Int → Nat × Int
  | 0, k => ((digitsAt i e k).getD 0, k)
  | tries + 1, k =>
    match digitsAt i e k with
    | some d => if d = 0 then shortestFrom i e tries (k - 1) else (d, k)
    | none => shortestFrom i e tries (k - 1)

/-- The shortest digits of a positive number, without trailing zeros, and the exponent of ten that
goes with them. -/
def shortest (m : Nat) (e : Int) : Nat × Int :=
  let top : Int := ((m.log2 : Int) + e) * 30103 / 100000 + 2
  let (d, k) := shortestFrom (interval m e) e 25 top
  let ds := (Nat.toDigits 10 d).reverse
  let zeros := (ds.takeWhile (· == '0')).length
  (d / Nat.pow 10 zeros, k + zeros)

def layout (digits : Nat) (exponent : Int) : String :=
  let ds := Nat.toDigits 10 digits
  let point : Int := ds.length + exponent
  if -4 < point && point ≤ 16 then
    if point ≤ 0 then "0." ++ .ofList (List.replicate (-point).toNat '0' ++ ds)
    else if ds.length ≤ point.toNat then
      .ofList (ds ++ List.replicate (point.toNat - ds.length) '0') ++ ".0"
    else .ofList (ds.take point.toNat) ++ "." ++ .ofList (ds.drop point.toNat)
  else
    let power := point - 1
    let rest := ds.drop 1
    let body := .ofList (ds.take 1) ++ (if rest.isEmpty then "" else "." ++ .ofList rest)
    let size := Nat.toDigits 10 power.natAbs
    body ++ (if power < 0 then "e-" else "e+") ++ (if size.length < 2 then "0" else "") ++ .ofList size

def text : Binary64 → String
  | .nan => "nan"
  | .infinite negative => if negative then "-inf" else "inf"
  | .finite negative m e =>
    let sign := if negative then "-" else ""
    if m = 0 then sign ++ "0.0"
    else
      let (d, k) := shortest m e
      sign ++ layout d k

end Docsmith.Binary64
