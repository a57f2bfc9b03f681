import Docsmith.Chars.Runs

/-! # Characters around a sigma

The lower case form of the capital sigma depends on whether letters with a case stand around it.
Some characters, most of them marks, are passed over in the search for these. -/

namespace Docsmith.Chars

def casedRuns : List Nat := lengths <|
  "cNbAGbAbVBKBEBFXBbFBhNBEEiABbBhKECCDDBBGBBDBBBUBdFBfJIgKBbMJbPefFbMBBFBCbRCDzWdICGdfUJHbRC"
    ++ "DcMbScLNBbIdXkSCGCbMCGCIBBBBBBBbFCcBBHBBDDBHDECGENFDBHkBBEBCKBBDFGBBBBBBEBGEBCEFFEBRbGDCbf"
    ++ "LcAcrUeUCdZGEDCMbMBBFBbtwCbUSbCfEdABXDEBcHFCBBBFbBCDBbfPbRFJHdCbeaIHMFbnTbAGbAbtTdCdSbKEbK"
    ++ "eMLBPBHBCBLBPBHBCcoPbZNbZekZcMbgiQcMbmlKdHBcTBCCBCCCEBMBBBHBcNBECIBHBbCBEBFBBDHBnCCZBZBbFB"
    ++ "ZBbFBZBbFBZBbFBZBIcsYKBUdtHcQdaAbAGbAGbA"

def passedRuns : List Nat := lengths <|
  "bNBGBLBbJBBBcTBEBBBEBCCtJhKECEBJCBBjRHhZBFBbXbTBBBCBCBBbSBLGKLBBbJBKVQBdXIBKBEbHBBBbEbBdNL"
    ++ "cGLEBCBYYbRDbSBHCGIbPcGcDBBBEIEBDHKCNBPBcGBEEIBUCbABCCcFBECECCDDBbECDBLCcFBEFBCEBUCWGBBcGB"
    ++ "CBBEIBHCLCbEBcJBMBbYBDBcDBBDFDBEHCLCbDBcGBCBGBFCUCbCCcFCEEIBUCbDBcUBHDBBdMBCHLJdUBCJJBBGcW"
    ++ "CbBBBBBBcDOBFBCFLBbKJBdYEBGBCCCZCEDQENBCCGBPBdQBxKDbkKDbDCbECbECcMCBHIBCLDBFBbTFbZBcNCbIBe"
    ++ "ODECJBGDiLCCBcGBBHBBBBCIGKCBbNBIbFbXEbWBBFBBFBbOJMCbGECCBDcEBBCDBBDcGICCcMGdEDBNBHEBGBDCbY"
    ++ "cLNBbIdXrDBBDLDNDNDNCMFICKBCBCFbXFBKBBNBQNbZbHejRCeJDeVBPBdSbGbVBsBBbKEDFFBdPGdPDbqbUBbwCG"
    ++ "kKBdUEBKBBbCEdCCObIdABXDdZDDCIBDBEBZCFBfVCbASNBbMIZLbUDbWBCECCRBVCcOGCCCCMBIBbJBLBbZBBDCCF"
    ++ "CBBbBBOCFCBBdWFJDeRBCBEBbdzSBfRRwBQDBMQbIBCBgNBHBGBLBbJBBBbVBbTCcPBVDtTBiSBfTFbnPGBbQBJwKD"
    ++ "BCFEbODEBgJCwBEoXCfXLbXEeTBcCPbPBCCKDbXECCCBEBKBbYDbKFBIcKBMCcAJKECBdRDCBBCGBgEBDIVCcFCDBb"
    ++ "LHDFhNICDBBXBdGGBBECBCjEEGCBCbBCdHICBBCeCBBBCGBBdXDCEBFjZJBCjWCBBEBfOECCEBbGKbOGCEIBJGCDbU"
    ++ "NBCpQHBGBBdEWCHBCBCeSGDBBCBHBBcUCDBBBnJCibBJusTFcHHJEbnVBcLRcMCBCygPEBHBCeuGCBEgyUbUCXuYDJ"
    ++ "QCHbEEfSDcyDcDEbYIBOBWFBPcaIHBRCHBCBFkBOoEBcJEcfWHeFIebFFbsxxPBbEdSeYjG"

end Docsmith.Chars
