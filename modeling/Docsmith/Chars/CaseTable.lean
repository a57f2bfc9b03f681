import Docsmith.Chars.Runs

/-! # Case mappings of Unicode

The characters whose other case differs, as runs of code points that share one distance, and those
whose upper case form is several characters. -/

namespace Docsmith.Chars

/-- The code points `first`, `first + step`, …, as many as `count`, each `shift` away from its other
case. -/
structure CaseRun where
  first : Nat
  count : Nat
  step : Nat
  shift : Int

namespace CaseRun

def covers (r : CaseRun) (n : Nat) : Bool :=
  r.first ≤ n && n < r.first + r.step * r.count && (n - r.first) % r.step == 0

def apply (r : CaseRun) (n : Nat) : Nat :=
  (n + r.shift).toNat

def swapped (r : CaseRun) : CaseRun :=
  { r with first := r.apply r.first, shift := -r.shift }

end CaseRun

/-- Runs by how far each begins after the one before, their counts, steps and shifts. -/
def runsAfter (start : Nat) : List Int → List CaseRun
  | gap :: count :: step :: shift :: rest =>
    let first := start + gap.toNat
    ⟨first, count.toNat, step.toNat, shift⟩ :: runsAfter first rest
  | _ => []

def pairedRuns : List CaseRun := runsAfter 0 <| numbers <|
  "cNbABbGeXXBbGYHBbGbOYCBbYDCBHICBRXCBbUBB-eRBDCBIBBiCBCCBEBBhYBBBBCCBhXCBBBDBBdBBBBhUBBBhVB"
    ++ "BBBCBBhXBBBhZCBBiDBBBiBBBBBEBBiDBBBiFCBBiGBDCBGBBiKBBBBCBBiKDBBBCBBiKBBBBCCBiJCCCBEBBiLBBB"
    ++ "BEBBBIBBCDBBCDBBCDICBRJCBTBBCDBBBCBB-dTBBB-cEBUCBbOBB-fACJCBYBBpzFBBBBCBB-gHBBBpzCDBBBCBB-"
    ++ "hNBBBcRBBBcTBFCBlMCCBGBBBJBBeMHBBbMCDBbLEBBcMCCBcLDRBbGSJBbGbSBBIJMCBbFBBBCBB-HBBBBDDB-fAD"
    ++ "QBdCQbGBbGdCRCBbQbBCBcCBBPBHCBPbWCBdTbMBbWeiPbMBktKbNBBktKGBBktKbbVdCBcfmUdCGBIdgYbRB-elSb"
    ++ "TDB-elSmLcXCBgEbWCBeAIB-IQGB-IQIB-IQIB-IQGB-IREC-IPIB-IdCCB-ICCB-cWOEB-dIQCB-ICCB-dWOCB-IC"
    ++ "CB-eICBB-HMCB-eYCCB-eWmABBbCbUQBQbJBBBbfNbABbActUbWBbWdSBBBCBB-pxFBBB-fqSBBB-pwPDDCBGBB-py"
    ++ "QBBB-pxLBBB-pyTBBB-pySCBBBDBBBJCB-pzZCbYCBeDCCBHBBBbtyKXCBcMOCBgGHCBQbFCBcTCCBEBB-cagYBFCB"
    ++ "NBBBCBB-ckoEDCCBGKCBUBB-ckpGBBB-ckpRBBB-ckpNBBB-ckpDBBB-ckpGCBB-cknIBBB-ckoGBBB-cknLBBBbjS"
    ++ "BICBQBB-bWBBB-ckpFBBB-caiYBCCBJBBBGCCBbFBBBbhaIbABbGbvZbOBbOgUbKBbOhKTCbNBFCbNMHCbNQDCbNIB"
    ++ "BbNcqDbZBcMepKbGBbGbglCbGBbGbumQbIBbI"

def capitalRuns : List CaseRun := runsAfter 0 <| numbers <|
  "rLBBBDBBBDBBBbNBBBtUBB-cIkcOBB-lgXjAIB-IQIB-IQIB-IUBB-JQBB-JbWBB-JlMBB-ldDEBB-mkLBBB-mfU"

def smallRuns : List CaseRun := runsAfter 0 <| numbers <|
  "gZBBbcPeUBB-iYdABB-lOcSBB-BDBB-BDBB-BbNBB-BnBBBdGeVBB-bFOBB-cKBBB-cFEBB-bVBBB-cCbABB-dIBBB"
    ++ "-dCEBB-dSjhRBB-jgOBBB-jgNBBB-jgEBCB-jgCCBB-jgDBBB-jfWBBB-jdTBBBcaeKuLBB-cHlFBB-krD"

def upperRuns : List CaseRun :=
  smallRuns ++ pairedRuns.map (·.swapped)

def lowerRuns : List CaseRun :=
  capitalRuns ++ pairedRuns

def upperIota : List (Nat × List Nat) :=
  [(8064, 7944), (8072, 7944), (8080, 7976), (8088, 7976), (8096, 8040), (8104, 8040)].flatMap fun e =>
    (List.range 8).map fun i => (e.1 + i, [e.2 + i, 921])

def upperLong : List (Nat × List Nat) := upperIota ++
  [(223, [83, 83]), (329, [700, 78]), (496, [74, 780]), (912, [921, 776, 769]),
   (944, [933, 776, 769]), (1415, [1333, 1362]), (7830, [72, 817]), (7831, [84, 776]),
   (7832, [87, 778]), (7833, [89, 778]), (7834, [65, 702]), (8016, [933, 787]),
   (8018, [933, 787, 768]), (8020, [933, 787, 769]), (8022, [933, 787, 834]), (8114, [8122, 921]),
   (8115, [913, 921]), (8116, [902, 921]), (8118, [913, 834]), (8119, [913, 834, 921]),
   (8124, [913, 921]), (8130, [8138, 921]), (8131, [919, 921]), (8132, [905, 921]),
   (8134, [919, 834]), (8135, [919, 834, 921]), (8140, [919, 921]), (8146, [921, 776, 768]),
   (8147, [921, 776, 769]), (8150, [921, 834]), (8151, [921, 776, 834]), (8162, [933, 776, 768]),
   (8163, [933, 776, 769]), (8164, [929, 787]), (8166, [933, 834]), (8167, [933, 776, 834]),
   (8178, [8186, 921]), (8179, [937, 921]), (8180, [911, 921]), (8182, [937, 834]),
   (8183, [937, 834, 921]), (8188, [937, 921]), (64256, [70, 70]), (64257, [70, 73]),
   (64258, [70, 76]), (64259, [70, 70, 73]), (64260, [70, 70, 76]), (64261, [83, 84]),
   (64262, [83, 84]), (64275, [1348, 1350]), (64276, [1348, 1333]), (64277, [1348, 1339]),
   (64278, [1358, 1350]), (64279, [1348, 1341])]

end Docsmith.Chars
