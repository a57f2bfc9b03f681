/-! # Halves of characters

A character beyond the first 65536 may be written in two halves. A half on its own is kept as a
private character of the last plane that has the same last four digits. -/

namespace Docsmith.Chars

def firstHalf : Nat := 0xd800

def firstLowHalf : Nat := 0xdc00

def afterHalves : Nat := 0xe000

def halfShift : Nat := 0x100000

def half (unit : Nat) : Char :=
  Char.ofNat (halfShift + unit)

def half? (c : Char) : Option Nat :=
  if halfShift + firstHalf ≤ c.toNat && c.toNat < halfShift + afterHalves then
    some (c.toNat - halfShift)
  else none

def ofHalves (high low : Nat) : Char :=
  Char.ofNat (0x10000 + (high - firstHalf) * 0x400 + (low - firstLowHalf))

end Docsmith.Chars
