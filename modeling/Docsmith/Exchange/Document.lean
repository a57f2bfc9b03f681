import Docsmith.Json.Access
import Docsmith.Store

/-! # Documents in JSON -/

namespace Docsmith.Exchange

inductive DocKind where
  | routine
  | record
  | module
  | repository
deriving Repr, DecidableEq

inductive AnyDoc where
  | routine (d : RoutineDoc)
  | record (d : RecordDoc)
  | module (d : ModuleDoc)
  | repository (d : RepositoryDoc)

namespace AnyDoc

def markdown : AnyDoc → Except Fault String
  | .routine d => Document.markdown d
  | .record d => Document.markdown d
  | .module d => Document.markdown d
  | .repository d => Document.markdown d

def kind : AnyDoc → String
  | .routine _ => Document.kind RoutineDoc
  | .record _ => Document.kind RecordDoc
  | .module _ => Document.kind ModuleDoc
  | .repository _ => Document.kind RepositoryDoc

def save (file : String) : AnyDoc → Files Unit
  | .routine d => Store.save file d
  | .record d => Store.save file d
  | .module d => Store.save file d
  | .repository d => Store.save file d

def fields : AnyDoc → List (String × Json)
  | .routine d => [("name", .str d.name), ("description", .str d.description),
      ("detail", .ofStr? d.detail), ("example", .ofStr? d.usage),
      ("parameters", .ofStr? d.parameters), ("code", .ofStr? d.code)]
  | .record d => [("name", .str d.name), ("description", .str d.description),
      ("detail", .ofStr? d.detail), ("attributes", .ofStr? d.attributes)]
  | .module d => [("name", .str d.name), ("description", .str d.description),
      ("example", .ofStr? d.usage), ("functions", .ofStrs? d.functions)]
  | .repository d => [("name", .str d.name), ("description", .str d.description),
      ("features", .ofStrs? d.features), ("standards", .ofStrs? d.standards),
      ("scenarios", .ofStrs? d.scenarios)]

def ofJson (kind : DocKind) (v : Json) : Except Fault AnyDoc :=
  match v.getStr? "name", v.getStr? "description" with
  | some name, some description =>
    let text := v.getStr?
    let list := v.getStrs?
    .ok (match kind with
      | .routine => .routine { name, description, detail := text "detail", usage := text "example",
                               parameters := text "parameters", code := text "code" }
      | .record => .record { name, description, detail := text "detail",
                             attributes := text "attributes" }
      | .module => .module { name, description, usage := text "example",
                             functions := list "functions" }
      | .repository => .repository { name, description, features := list "features",
                                     standards := list "standards",
                                     scenarios := list "scenarios" })
  | _, _ => .error .noDescription

def all {m : Type → Type} [Monad m] (kind : DocKind)
    (read : (δ : Type) → [Document δ] → m (List δ)) : m (List AnyDoc) :=
  match kind with
  | .routine => do return (← read RoutineDoc).map .routine
  | .record => do return (← read RecordDoc).map .record
  | .module => do return (← read ModuleDoc).map .module
  | .repository => do return (← read RepositoryDoc).map .repository

def routine? : AnyDoc → Option RoutineDoc
  | .routine d => some d
  | _ => none

def record? : AnyDoc → Option RecordDoc
  | .record d => some d
  | _ => none

end AnyDoc

end Docsmith.Exchange
