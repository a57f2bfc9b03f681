import Docsmith.Generate.Tasks
import Docsmith.Json.Reader
import Docsmith.Prompt.Comparison
import Docsmith.Service.Delivery
import Docsmith.Service.Report

/-! # The comparison service

Several reports are put before the model, which is to compare the software that they are about. -/

namespace Docsmith.Service

/-! ## Reports as texts -/

def needed (v : Json) (name : String) : Except Fault Json :=
  match v.field? name with
  | some x => .ok x
  | none => .error (.unknownName name)

def itemsAt (v : Json) (name : String) : Except Fault (List String) := do
  match ← needed v name with
  | .str text => return (Text.splitLines text).map (Text.stripOf ['-', ' '])
  | x => throw (.lacks x.kindWord "splitlines")

def textAt (v : Json) (name : String) : Except Fault String :=
  match v.field? name with
  | some (.str s) => .ok s
  | _ => .error .badReport

def repositoryOf (v : Json) : Except Fault RepositoryDoc := do
  let features ← itemsAt v "features"
  let standards ← itemsAt v "standards"
  let scenarios ← itemsAt v "scenarios"
  return {
    name := ← textAt v "name", description := ← textAt v "description",
    features := some features, standards := some standards, scenarios := some scenarios }

def moduleOf (v : Json) : Except Fault ModuleDoc := do
  let _ ← itemsAt v "functions"
  let name ← textAt v "name"
  let description ← textAt v "description"
  return { name, description, usage := none, functions := some [] }

/-- What a report says about its software: the repository in full and the modules in short. -/
def describe (r : Report) : Except Fault String := do
  let repo ← match r.repo with
    | [] => pure ""
    | v :: _ => do pure ((← Document.markdown (← repositoryOf v)) ++ "\n")
  let modules ← r.modules.mapM fun v => do
    return (← Document.markdown (← moduleOf v)) ++ "\n"
  return repo ++ Text.join "" modules

def describeAll (rs : List Report) : Except Fault String := do
  let parts ← rs.zipIdx.mapM fun (r, i) => do
    return "## Software " ++ toString (i + 1) ++ "\n" ++ (← describe r) ++ "---"
  return Text.join "" parts

/-! ## Comparing -/

def compare (rs : List Report) : Run String := do
  let text ← Run.ofExcept (describeAll rs)
  let software ← Run.ofExcept (Prompt.quote Prompt.mark text)
  let reply ← Generate.askUser (Prompt.comparison software) id
  inFolder (Files.write "compare.md" reply)
  return reply

structure Comparison where
  id : String
  callback : String
  results : List String

def comparisonBody (id : String) (status : Status) (message : String)
    (result : Option String) : Json :=
  .obj [("requestId", .str id), ("status", .int status.code), ("message", .str message),
    ("result", .ofStr? result)]

def acceptComparison (c : Comparison) : Json :=
  comparisonBody c.id .received "task received" none

def readReport (text : String) : Except Fault Report :=
  match Json.parse? text with
  | some v => Report.ofJson v
  | none => .error .badReport

def workComparison (c : Comparison) : Run Unit :=
  workAndReport c.callback
    (do
      let rs ← Run.ofExcept (c.results.mapM readReport)
      return (comparisonBody c.id .success "ok" (some (← compare rs))).compact)
    fun message => (comparisonBody c.id .failure message none).compact

end Docsmith.Service
