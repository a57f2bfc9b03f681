/-! # Double precision numbers

A number with 53 binary digits, as an integer times a power of two, and the number nearest to a
decimal one. All arithmetic is exact. -/

namespace Docsmith

/-- A double precision number: `mantissa · 2 ^ exponent`, signed. -/
inductive Binary64 where
  | nan
  | infinite (negative : Bool)
  | finite (negative : Bool) (mantissa : Nat) (exponent : Int)
deriving Repr, DecidableEq

namespace Binary64

def minExponent : Int := -1074

def maxExponent : Int := 971

def roundDiv (num den : Nat) : Nat :=
  let q := num / den
  let r := 2 * (num % den)
  if r < den then q
  else if r > den then q + 1
  else q + q % 2

/-- The exponent at which the quotient `num / den` has 53 binary digits, but not less than the least
one. -/
def exponentFor (num den : Nat) : Int :=
  let guess : Int := (num.log2 : Int) - den.log2 - 52
  let high := if guess ≥ 0 then num ≥ den * Nat.pow 2 (guess.toNat + 52)
              else num * Nat.pow 2 (-guess).toNat ≥ den * Nat.pow 2 52
  max minExponent (if high then guess else guess - 1)

def ofQuotient (negative : Bool) (num den : Nat) : Binary64 :=
  let e := exponentFor num den
  let m := if e ≥ 0 then roundDiv num (den * Nat.pow 2 e.toNat)
           else roundDiv (num * Nat.pow 2 (-e).toNat) den
  let (m, e) := if m ≥ Nat.pow 2 53 then (Nat.pow 2 52, e + 1) else (m, e)
  if e > maxExponent then .infinite negative else .finite negative m e

def ofDecimal (negative : Bool) (digits : Nat) (exponent : Int) : Binary64 :=
  let size : Int := (Nat.toDigits 10 digits).length
  if digits = 0 then .finite negative 0 minExponent
  else if size + exponent > 310 then .infinite negative
  else if size + exponent < -330 then .finite negative 0 minExponent
  else if exponent ≥ 0 then ofQuotient negative (digits * Nat.pow 10 exponent.toNat) 1
  else ofQuotient negative digits (Nat.pow 10 (-exponent).toNat)

end Binary64

end Docsmith
