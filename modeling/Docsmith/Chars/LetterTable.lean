import Docsmith.Chars.Runs

/-! # Letters and digits

Those of the Latin, Greek and Cyrillic scripts. -/

namespace Docsmith.Chars

def letterRuns : List Nat := lengths <|
  "bWKHbAGbAbVBHCBBDCFXBbFBnGlCFBCCEBBGBBDBBBUBcLOGBfJIgKivOJgBGbYBBBFFNBpBWCGCbMCGCIBBBBBBBb"
    ++ "FCcBBHBBDDBHDECGENFDBHbyvZbVQbFbvBB"

def isLetter (c : Char) : Bool :=
  inRuns letterRuns c.toNat

end Docsmith.Chars
