/-! # Bytes that are no text

Where and why a row of bytes is not a text in UTF-8. -/

namespace Docsmith.Utf8

inductive Reason where
  | start
  | continuation
  | ending
deriving Repr, DecidableEq

def Reason.message : Reason → String
  | .start => "invalid start byte"
  | .continuation => "invalid continuation byte"
  | .ending => "unexpected end of data"

/-- The first bytes of a row that are no character: their positions from `first` to `last`, and the
first of them. -/
structure Flaw where
  first : Nat
  last : Nat
  byte : UInt8
  reason : Reason
deriving Repr, DecidableEq

def hexByte (b : UInt8) : String :=
  let ds := Nat.toDigits 16 b.toNat
  .ofList (List.replicate (2 - ds.length) '0' ++ ds)

def Flaw.message (f : Flaw) : String :=
  "'utf-8' codec can't decode "
    ++ (if f.first == f.last then "byte 0x" ++ hexByte f.byte ++ " in position " ++ toString f.first
        else "bytes in position " ++ toString f.first ++ "-" ++ toString f.last)
    ++ ": " ++ f.reason.message

def lead? (b : UInt8) : Option (Nat × UInt8 × UInt8) :=
  if b < 0x80 then some (0, 0x80, 0xbf)
  else if b < 0xc2 then none
  else if b < 0xe0 then some (1, 0x80, 0xbf)
  else if b == 0xe0 then some (2, 0xa0, 0xbf)
  else if b == 0xed then some (2, 0x80, 0x9f)
  else if b < 0xf0 then some (2, 0x80, 0xbf)
  else if b == 0xf0 then some (3, 0x90, 0xbf)
  else if b < 0xf4 then some (3, 0x80, 0xbf)
  else if b == 0xf4 then some (3, 0x80, 0x8f)
  else none

/-- How many bytes a character has and what comes after them, or how many of its bytes there are and
why no more. -/
def passRest (got : Nat) (low high : UInt8) :
    Nat → List UInt8 → Except (Nat × Reason) (Nat × List UInt8)
  | 0, bs => .ok (got, bs)
  | _ + 1, [] => .error (got, .ending)
  | need + 1, b :: bs =>
    if low ≤ b && b ≤ high then passRest (got + 1) 0x80 0xbf need bs
    else .error (got, .continuation)

/-- The first flaw of a row of bytes after `start` others; at most `fuel` characters are passed. -/
def flawFrom? (start : Nat) : Nat → List UInt8 → Option Flaw
  | 0, _ => none
  | _, [] => none
  | fuel + 1, b :: bs =>
    match lead? b with
    | none => some { first := start, last := start, byte := b, reason := .start }
    | some (need, low, high) =>
      match passRest 1 low high need bs with
      | .ok (count, rest) => flawFrom? (start + count) fuel rest
      | .error (count, reason) =>
        some { first := start, last := start + count - 1, byte := b, reason }

def flaw? (bs : List UInt8) : Option Flaw :=
  flawFrom? 0 bs.length bs

end Docsmith.Utf8
