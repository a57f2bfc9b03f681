import Docsmith.Chars.Runs

/-! # Characters that do not show

Beyond ASCII: controls, format marks, separators, private characters and code points that are no
characters yet. -/

namespace Docsmith.Chars

def hiddenRuns : List Nat := lengths <|
  "eYbHMBbbMCGEHBBBUBpHBbMCbYCDBcDIbBEGRWBhKBbWCcHCdXOcHCbXCPBbCCBBLFbFJcWBgFBICCCWBHBBDECJCC"
    ++ "CEIBECBFCZCDBGECCWBHBCBCBCCBBFECCDDBHEBBHRKDBJBDBWBHBCBFCKBDBDCBPECMHHBDBICCCWBHBCBFCJCCCD"
    ++ "HDECBFCSKCBGDDBEDCBBBCDCDDDMEFDDBECBGBOVFNBDBXBQCJBDBEHCBDCBCECKHWBDBXBKBFCJBDBEHCGCBECKBC"
    ++ "NNBDBbZBDBGEQCbABDBSDYBJBBCHDBEGBBBIGKCDMcGEbDbLCBBBFBYBBBXCFBBBGCKCEbGcUBbKEbNBbKBPBNbLhQ"
    ++ "BBFBCoNBECHBBBECbPBECbHBECHBBBECPBcFBECcPCbGDbAGdICGCyQBbCDdLHWJYJUMNBDBCMdQCKGKGOBLGdLHbR"
    ++ "FcSKbFBMEMEBDbQCFLbSEbAGLDcKCcNBbDCLGKGOCbFbXcZDbVBeMIcIDPDcIHbRCLIbRFuOCGCbMCGCIBBBBBBBbF"
    ++ "CcBBPBOCGBTCDBJRYIbVRCCbBBNDbHPbHPfKEzNZLVcrSCbGBnLFbTBBFBCcEHCOYJHBHBHBHBHBHBHBHBeWbIbABd"
    ++ "LMiGbAMFcLBdICdZFbRBdQBdGMbVBbriRDcDJnKUhCIhVFCBBBFYcHDKGcEIcSIMGeMLbEDdABLEbHBcDJOCKCdZYb"
    ++ "CKGCGCGJHBHBcIEeWCKGqnSMXEbXmnCoCCeCbMHMFFbABFBBBCBCBeVQrDCcCHBbGbQGbZBTBEEFBfFEhIDGCGCGCD"
    ++ "DHBHNCCMBbABTBCBPCObIeTFDEbTDdKBNDBbVbUfAbDDbXPbCEbKJbEFbRFbEBbLEObQgCCKGbKEbKEbOIcALMBPBH"
    ++ "BCBLBPBHBCcPlZJWKIYGBbQBJcRGCBBbSBCDBCXBcUIJbWTBCFbHDbBFBcMcEEUCbYBCFIBDBbDCDEKHJHcMbGbNEM"
    ++ "JcCDbDCbBFbAHEMHdCcVcDbZNbZHbUIKlIbFBbQBDCCdAbOIbQWbAbMbCUXJdAEbKJcKBFNZHKGcBBSIbNJdSBULSB"
    ++ "bScNHBBBEBPBLGcHFKGEBICCCWBHBCBFBKCCCDCBGBFHCHDFfJdOBFbEcUIKgKcCCbMbIcRLKGNTcGGKcCbBCPEXhD"
    ++ "cIdWdFMICBCIBCBbEBCCMJKcSICbUCLbBcUIdFNcVkDJBbTBOKbDDbGCWBOcVHBCBbSDBBCBJIKGGBCBbLBCBGHKlY"
    ++ "ZhBBPbYNbjNdYeHBFLhOdxKdVNbpFfzTwLmuBvXHbFBKEdDBKGbECGKcSKKBHBVFTbaMdNdXcXEcFHRcMFLCOjcAIb"
    ++ "vQbQJnfREBHBCBlFbTDREIpGdkUeDFNDJHKCEgyYbUCXJeMcIjMKbNCcWIeIVcSfYUMdJJZfFdHBcTBCCBCCCEBMBB"
    ++ "BHBcNBECIBHBbCBEBFBBDHBnCClGCbbAPFBPbqMbFiRHBRCHBCBFiFbTDOCKECmIbFRcGFBbwAHBEBCBPBhPCQbPcY"
    ++ "EKECbeFcQcYcJhMEBbBBCBBCBBKBEBBBBGBEBBBBBBDBCBBCBBBBBBBBBBCBBCEBHBEBEBBBKBRFDBFBRcACkKbSEd"
    ++ "WMPCPBPBbLKgScEbDNbSEJHCOGfYblWFQDNDeMMdLHMEBPMEcEIKGbOIbECCdAnCMOCFDFDHJbDDLFGKKGIIHJfRBc"
    ++ "DbLKbnQclfCbGgdTHiOCinQOlbLepJuWcfYhhZbotmRjGlecU"

end Docsmith.Chars
