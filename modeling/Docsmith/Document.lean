import Docsmith.Chapter

/-! # Documents

Documents on a routine, a record, a module and a whole repository. Each is a chapter of Markdown,
and each can be read from one (`Document.ofChapter`, `Document.ofText`, `Document.markdown`). -/

namespace Docsmith

structure RoutineDoc where
  name : String
  description : String
  detail : Option String := none
  usage : Option String := none
  parameters : Option String := none
  code : Option String := none
deriving Repr, DecidableEq

structure RecordDoc where
  name : String
  description : String
  detail : Option String := none
  attributes : Option String := none
deriving Repr, DecidableEq

/-- A document on a module: functions that serve one purpose. -/
structure ModuleDoc where
  name : String
  description : String
  usage : Option String := none
  functions : Option (List String) := none
deriving Repr, DecidableEq

structure RepositoryDoc where
  name : String
  description : String
  features : Option (List String) := none
  standards : Option (List String) := none
  scenarios : Option (List String) := none
deriving Repr, DecidableEq

class Document (δ : Type) where
  kind : String
  name : δ → String
  description : δ → String
  /-- The document of a chapter, from its title, its description and the text under the title. -/
  ofBlock : String → String → String → Except Fault δ
  sections : δ → Except Fault String

namespace Document

variable {δ : Type} [Document δ]

def ofChapter (text : String) : Except Fault δ :=
  match Chapter.title? text with
  | none => .error .noTitle
  | some (name, block) =>
    match Chapter.section? "Description" block with
    | none => .error .noDescription
    | some description => ofBlock name description block

def ofText (text : String) : Except Fault (List δ) :=
  (Chapter.split text).mapM ofChapter

def markdown (d : δ) : Except Fault String :=
  (sections d).map fun s => Chapter.head (name d) (description d) ++ Text.strip s

end Document

def bulletsOf (items : Option (List String)) : Except Fault String :=
  match items with
  | some items => .ok (Chapter.bullets items)
  | none => .error .unsetList

def RoutineDoc.sections (d : RoutineDoc) : String :=
  Chapter.writeSection? "Parameters" d.parameters
    ++ Chapter.writeSection? "Code Details" d.detail
    ++ Chapter.writeSection? "Example" d.usage
    ++ Chapter.writeSection? "Source Code" d.code

def RoutineDoc.markdown (d : RoutineDoc) : String :=
  Chapter.head d.name d.description ++ Text.strip d.sections

instance : Document RoutineDoc where
  kind := "function"
  name := RoutineDoc.name
  description := RoutineDoc.description
  ofBlock name description block := .ok {
    name, description,
    detail := Chapter.section? "Code Details" block,
    usage := Chapter.section? "Example" block,
    parameters := Chapter.section? "Parameters" block,
    code := Chapter.section? "Source Code" block }
  sections d := .ok d.sections

theorem RoutineDoc.markdown_eq (d : RoutineDoc) : Document.markdown d = .ok d.markdown := rfl

def RecordDoc.sections (d : RecordDoc) : String :=
  Chapter.writeSection? "Attributes" d.attributes
    ++ Chapter.writeSection "Code Details" (d.detail.getD "None")

def RecordDoc.markdown (d : RecordDoc) : String :=
  Chapter.head d.name d.description ++ Text.strip d.sections

instance : Document RecordDoc where
  kind := "class"
  name := RecordDoc.name
  description := RecordDoc.description
  ofBlock name description block := .ok {
    name, description,
    detail := Chapter.section? "Code Details" block,
    attributes := Chapter.section? "Attributes" block }
  sections d := .ok d.sections

instance : Document ModuleDoc where
  kind := "module"
  name := ModuleDoc.name
  description := ModuleDoc.description
  ofBlock name description block := do
    return {
      name, description,
      functions := some (← Chapter.itemsOf "Functions" block),
      usage := Chapter.section? "Use Case" block }
  sections d := .ok
    (Chapter.writeItems? "Functions" d.functions
      ++ match d.usage with
        | none | some "" => ""
        | some text => Chapter.writeSection "Use Case" text)

instance : Document RepositoryDoc where
  kind := "repo"
  name := RepositoryDoc.name
  description := RepositoryDoc.description
  ofBlock name description block := do
    return {
      name, description,
      features := some (← Chapter.itemsOf "Features" block),
      standards := some (← Chapter.itemsOf "Standards" block),
      scenarios := match Chapter.section? "Scenarios" block with
        | none | some "" => none
        | some text => some (Chapter.items text) }
  sections d := do
    return Chapter.writeSection "Features" (← bulletsOf d.features)
      ++ Chapter.writeSection "Standards" (← bulletsOf d.standards)
      ++ Chapter.writeItems? "Scenarios" d.scenarios

end Docsmith
