import Docsmith.Generate.Tasks
import Docsmith.Prompt.Module
import Docsmith.Session.Index

/-! # Documents on modules

A model sorts the visible routines into modules, all at once or in groups that are merged
afterwards. Each module is then improved. -/

namespace Docsmith.Generate

def visible (p : Project) : Except Fault (List String) := do
  return ((← p.routines.all).filter (·.visible)).map Routine.symbol

def listed (symbol : String) (d : RoutineDoc) : String :=
  "- " ++ symbol ++ "\n > " ++ d.description ++ "\n\n"

def listing (p : Project) (symbols : List String) : Run String := do
  return Text.join "" (← symbols.mapM fun s => do return listed s (← routineDoc p s))

/-- Modules of one routine are dropped, unless there is only one module. -/
def worthwhile (modules : List ModuleDoc) : List ModuleDoc :=
  modules.filter fun m => modules.length == 1 || (m.functions.getD []).length > 1

def modulesDraftFile (p : Project) : String := Path.join p.docs "modules.v1_draft.md"

def loadOr (file : String) (make : Run (List ModuleDoc)) : Run (List ModuleDoc) := do
  match ← inFolder (Store.loadAll ModuleDoc file) with
  | [] =>
    let docs ← make
    inFolder (docs.forM (Store.save file))
    return docs
  | docs => return docs

def draftModules (p : Project) : Run (List ModuleDoc) :=
  loadOr (modulesDraftFile p) do
    let symbols ← Run.ofExcept (visible p)
    let reply ← askUser (Prompt.modules (← listing p symbols)) id
    return worthwhile (← Run.ofExcept (Document.ofText reply))

def moduleRoutines (p : Project) (m : ModuleDoc) : Run (List String) :=
  (m.functions.getD []).filterMapM fun f =>
    match p.routines.get f with
    | .ok _ => do return some (← routineDoc p f).markdown
    | .error _ => return none

def enhanceModule (p : Project) (m : ModuleDoc) : Run Unit := do
  let routines ← Run.ofExcept <|
    Prompt.quote Prompt.mark (Text.join Prompt.rule (← moduleRoutines p m))
  let own ← Run.ofExcept do Prompt.quote Prompt.mark (← Document.markdown m)
  let fence ← Run.ofExcept p.fence
  let reply ← askUser (Prompt.enhanceModule fence own routines) id
  let doc ← Run.ofExcept (Document.ofChapter reply)
  inFolder (p.saveModule doc)

def enhanceModules (p : Project) (drafts : List ModuleDoc) : Run Unit := do
  if (← inFolder p.loadModules).isEmpty then
    let _ ← collect (enhanceModule p) drafts

def documentModules (p : Project) : Run Unit := do
  if (← Run.ofExcept (visible p)).isEmpty then return
  enhanceModules p (← draftModules p)

/-! ## By groups -/

def groupsDraftFile (p : Project) : String := Path.join p.docs "modules-v2-draft.md"

def withoutRules (text : String) : String :=
  Text.strip (Text.replace "---" "" text)

def draftGroup (p : Project) (symbols : List String) : Run (List ModuleDoc) := do
  let routines ← Run.ofExcept <| Prompt.quote ">" (← listing p symbols)
  let reply ← askUser (Prompt.group routines) withoutRules
  let docs ← Run.ofExcept (Document.ofText reply)
  inFolder (docs.forM (Store.save (groupsDraftFile p)))
  return docs

/-- Groups the visible routines by their descriptions and sorts each group into modules. -/
def draftGroups (p : Project) : Run (List ModuleDoc) := do
  match ← inFolder (Store.loadAll ModuleDoc (groupsDraftFile p)) with
  | [] =>
    let symbols ← Run.ofExcept (visible p)
    let docs ← symbols.mapM (routineDoc p)
    let groups ← Index.cluster docs.length
    let drafts ← collect (draftGroup p) (groups.map fun g => g.filterMap (symbols[·]?))
    return drafts.flatten
  | docs => return docs

def mergeModules (p : Project) (drafts : List ModuleDoc) : Run (List ModuleDoc) :=
  loadOr (modulesDraftFile p) do
    let texts ← Run.ofExcept (drafts.mapM Document.markdown)
    let all ← Run.ofExcept (Prompt.quote ">" (Text.join "\n" texts))
    let reply ← askUser (Prompt.merge all) withoutRules
    return worthwhile (← Run.ofExcept (Document.ofText reply))

def documentGroups (p : Project) : Run Unit := do
  if (← Run.ofExcept (visible p)).isEmpty then return
  let drafts ← draftGroups p
  enhanceModules p (← mergeModules p drafts)

end Docsmith.Generate
