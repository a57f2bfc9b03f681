import Docsmith.Facts.Graph
import Docsmith.Json.Reader
import Docsmith.Json.Writer
import Docsmith.Session.World

/-! # Reading the facts of a compiler

A compiler leaves its facts in files of JSON. A file that is missing is looked for beside the
sources; one that cannot be read counts as empty. -/

namespace Docsmith.Facts

def factsAt (f : Folder) (path : String) : Except Fault Json := do
  match Json.parse (← f.readText path) with
  | .ok (.obj fields) => return .obj fields
  | .ok (.arr items) => return .arr items
  | .ok (.str s) => return .str s
  | .ok _ => throw .unsetList
  | .error problem => throw (.badJson problem)

def readFacts (path sources : String) : Run Json := do
  unless (← get).clock do throw .noClock
  let folder := (← get).folder
  match factsAt folder path with
  | .ok facts => return facts
  | .error (.noSuchFile _) =>
    if sources.isEmpty then return .obj []
    else
      match factsAt folder (Path.join sources (Path.base path)) with
      | .ok facts => return facts
      | .error _ => return .obj []
  | .error _ => return .obj []

def writeFacts (path : String) (facts : Json) : Files Unit :=
  Files.write path facts.pretty

def fieldsOf : Json → Except Fault (List (String × Json))
  | .obj fields => .ok fields
  | v => .error (.lacks v.kindWord "items")

def need (record : Json) (name : String) : Except Fault Json :=
  match record with
  | .obj fields =>
    match fields.lookup name with
    | some v => .ok v
    | none => .error (.unknownName name)
  | v => .error (.notIndexable v.kindWord)

def typeNameOf : Json → Except Fault String
  | .str t => .ok (typeName t)
  | v => .error (.lacks v.kindWord "strip")

/-! ## Aliases -/

def aliasesOf (facts : Json) : Except Fault (List (String × String)) := do
  let pairs ← (← fieldsOf facts).mapM fun (name, type) => do
    return (typeName name, ← typeNameOf type)
  return Assoc.ofList pairs

def readAliases (output sources : String) : Run (List (String × String)) := do
  Run.ofExcept (aliasesOf (← readFacts (Path.join output "typedefs.json") sources))

/-! ## Routines -/

/-- Routines without parameters and free ones with a known file are passed over; the record of any
other does not fit. -/
def routineOf? (name : String) (record : Json) : Except Fault (Option Routine) := do
  if (← need record "params").isEmpty then return none
  if !Text.contains "::" name then
    match ← need record "file" with
    | .str "" => pure ()
    | .str "unknown" => pure ()
    | _ => return none
  let _ ← need record "file"
  let _ ← need record "content"
  throw .unfitRecord

def routinesOf (facts : Json) : Except Fault (List (String × Routine)) := do
  let found ← (← fieldsOf facts).mapM fun (name, record) => do
    return (← routineOf? name record).map (name, ·)
  return found.filterMap id

def readRoutines (output sources : String) : Run (List (String × Routine)) := do
  Run.ofExcept (routinesOf (← readFacts (Path.join output "functions.json") sources))

/-! ## Records -/

def recordOf (routines : Catalog Routine) (aliases : List (String × String)) (name : String)
    (record : Json) : Except Fault Record := do
  let fields ← (← fieldsOf (← need record "fields")).mapM fun (field, type) => do
    return { name := field, symbol := ← typeNameOf type : Field }
  let methods ← methodsOf name routines aliases
  let _ ← outline name fields methods
  throw .unfitRecord

def recordsOf (routines : Catalog Routine) (aliases : List (String × String)) (facts : Json) :
    Except Fault (List (String × Record)) := do
  (← fieldsOf facts).mapM fun (name, record) => do
    return (name, ← recordOf routines aliases name record)

def readRecords (output sources : String) (routines : Catalog Routine)
    (aliases : List (String × String)) : Run (List (String × Record)) := do
  Run.ofExcept
    (recordsOf routines aliases (← readFacts (Path.join output "records.json") sources))

end Docsmith.Facts
