import Docsmith.Calls.Routines
import Docsmith.Facts.Analysis
import Docsmith.Generate.Modules
import Docsmith.Generate.Records
import Docsmith.Generate.Repository
import Docsmith.Generate.Routines

/-! # From sources to documents

The sources of a project are surveyed by the analysis for their language; then routines, records,
modules and the repository are documented. -/

namespace Docsmith.Pipeline

abbrev Parser := String → Option Calls.Source

def survey (parse : Parser) (language : Option Language) (p : Project) : Run Project := do
  match language with
  | some .cpp =>
    let (routines, records) ← Facts.analyse p.output p.sources
    return { p with routines, records }
  | some .python =>
    let routines ← Run.ofExcept (Calls.callGraph { folder := (← get).folder, parse } p.sources)
    return { p with routines, records := {} }
  | none => throw (.unsupportedLanguage "None")

def document (parse : Parser) (language : Option Language) (p : Project) : Run Project := do
  let p ← survey parse language p
  Generate.documentRoutines p
  Generate.documentRecords p
  Generate.documentModules p
  Generate.documentRepositoryByIndex p
  return p

end Docsmith.Pipeline
