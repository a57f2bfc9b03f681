import Docsmith.Json.Access
import Docsmith.Json.Writer
import Docsmith.Project
import Docsmith.Session.World

/-! # Reports on a project

The documents on a project as JSON objects. Lists of names are texts with one bullet a line. -/

namespace Docsmith.Service

structure Report where
  functions : List Json
  classes : List Json
  modules : List Json
  repo : List Json

namespace Report

/-! ## Documents in a report -/

def list (items : Option (List String)) : Except Fault Json :=
  (bulletsOf items).map .str

def ofRoutine (d : RoutineDoc) : Json :=
  .obj [("name", .str d.name), ("description", .str d.description), ("detail", .ofStr? d.detail),
    ("example", .ofStr? d.usage), ("parameters", .ofStr? d.parameters), ("code", .ofStr? d.code)]

def ofRecord (d : RecordDoc) : Json :=
  .obj [("name", .str d.name), ("description", .str d.description), ("detail", .ofStr? d.detail),
    ("attributes", .ofStr? d.attributes)]

def ofModule (d : ModuleDoc) : Except Fault Json := do
  let functions ← list d.functions
  return .obj [("name", .str d.name), ("description", .str d.description),
    ("example", .ofStr? d.usage), ("functions", functions)]

def ofRepository (d : RepositoryDoc) : Except Fault Json := do
  let features ← list d.features
  let standards ← list d.standards
  let scenarios ← list d.scenarios
  return .obj [("name", .str d.name), ("description", .str d.description),
    ("features", features), ("standards", standards), ("scenarios", scenarios)]

/-! ## Reports in JSON -/

def toJson (r : Report) : Json :=
  .obj [("functions", .arr r.functions), ("classes", .arr r.classes), ("modules", .arr r.modules),
    ("repo", .arr r.repo)]

def objects (v : Json) (name : String) : Except Fault (List Json) := do
  let some (.arr items) := v.field? name | throw .badReport
  items.forM fun
    | .obj _ => .ok ()
    | _ => .error .badReport
  return items

def ofJson (v : Json) : Except Fault Report := do
  return {
    functions := ← objects v "functions", classes := ← objects v "classes",
    modules := ← objects v "modules", repo := ← objects v "repo" }

/-! ## Collecting -/

def present {δ : Type} (d : Option δ) : Run δ :=
  match d with
  | some d => return d
  | none => throw .nothingToReport

/-- One document on each visible routine and record, those on the modules and the one on the
repository. -/
def collect (p : Project) : Run Report := do
  let functions ← ((← Run.ofExcept p.routines.all).filter (·.visible)).mapM fun r => do
    return ofRoutine (← present (← inFolder (p.loadRoutine? r.symbol)))
  let classes ← ((← Run.ofExcept p.records.all).filter (·.visible)).mapM fun r => do
    return ofRecord (← present (← inFolder (p.loadRecord? r.symbol)))
  let modules ← Run.ofExcept ((← inFolder p.loadModules).mapM ofModule)
  let repo ← Run.ofExcept (ofRepository (← present (← inFolder p.loadRepository?)))
  return { functions, classes, modules, repo := [repo] }

end Report

end Docsmith.Service
