import Docsmith.Generate.Tasks
import Docsmith.Prompt.Draft

/-! # Documents on routines, by draft and revision

First every routine gets a draft, after those it calls; then the drafts are revised, each after
those that call it. -/

namespace Docsmith.Generate

def draftFile (p : Project) (source : String) : String :=
  Path.join p.docs (source ++ "." ++ Document.kind RoutineDoc ++ ".v2_draft.md")

def fenced (fence : String) (r : Routine) : String :=
  "```" ++ fence ++ "\n" ++ r.code ++ "\n```"

def draftPrompt (fence : String) (r : Routine) (symbol : String) (callees : List RoutineDoc) :
    Except Fault String := do
  let prompt : Prompt.DraftPrompt := {}
  let prompt ← (prompt.parameters r.params |>.code r.code).callees callees
  return prompt.lang fence |>.name symbol |>.build

/-- Drafts the document on a routine. The routines it calls are quoted from their finished
documents. -/
def draftRoutine (p : Project) (symbol : String) : Run Unit := do
  let r ← Run.ofExcept (p.routines.get symbol)
  let file := draftFile p r.file
  if (← inFolder (Store.load? RoutineDoc symbol file)).isSome then return
  let callees ← routineDocs p (p.routines.graph.successors symbol)
  let fence ← Run.ofExcept p.fence
  let reply ← askDocument (← Run.ofExcept (draftPrompt fence r symbol callees)) id
  let doc : RoutineDoc ← Run.ofExcept (Document.ofChapter (titled symbol reply))
  inFolder (Store.save file { doc with code := some (fenced fence r) })

/-- The text from the section on, or the last character if there is none. -/
def fromSection (header text : String) : String :=
  match Text.breakOn header text with
  | some (_, rest) => header ++ rest
  | none => .ofList (text.toList.drop (text.length - 1))

/-- Revises the draft on a routine. A draft on a routine that no documented routine calls is taken
as it is. -/
def reviseRoutine (p : Project) (symbol : String) : Run Unit := do
  if (← inFolder (p.loadRoutine? symbol)).isSome then return
  let r ← Run.ofExcept (p.routines.get symbol)
  let callers ← routineDocs p (p.routines.graph.predecessors symbol)
  let draft ← inFolder (Store.load? RoutineDoc symbol (draftFile p r.file))
  if callers.isEmpty then
    let file ← Run.ofExcept (p.routineFile symbol)
    inFolder (Store.saveOption file draft)
  else
    match draft with
    | none => throw .noDocument
    | some draft =>
      let fence ← Run.ofExcept p.fence
      let prompt ← Run.ofExcept (Prompt.revision fence r.params callers draft)
      let reply ← askDocument prompt (fromSection "#### Description")
      let doc : RoutineDoc ← Run.ofExcept (Document.ofChapter (titled symbol reply))
      inFolder (p.saveRoutine symbol { doc with code := some (fenced fence r) })

def draftAndRevise (p : Project) : Run Unit := do
  overGraph p.routines.graph (draftRoutine p)
  overGraph p.routines.graph.reverse (reviseRoutine p)

end Docsmith.Generate
