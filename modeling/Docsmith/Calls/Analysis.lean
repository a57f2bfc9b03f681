import Docsmith.Calls.Lineage
import Docsmith.Calls.ModuleName
import Docsmith.Calls.Settle

/-! # Analysing a program

Every file is visited twice: the first round finds all definitions, so that classes can be given
their lines; the second resolves names that were used before they were known. Then everything is
settled. -/

namespace Docsmith.Calls

structure Program where
  folder : Folder
  parse : String → Option Source

def lift {α : Type} (result : Except Fault α) : Visit α :=
  match result with
  | .ok a => return a
  | .error f => throw f

def Program.nameOf (p : Program) (root : Option String) (file : String) : Except Fault String :=
  match root with
  | some top => moduleNameFrom top file
  | none => moduleName p.folder file

def visitFile (p : Program) (file : String) : Visit Unit := do
  let s ← get
  if !s.files.contains file then throw (.unannounced file s.files)
  let text ← lift (p.folder.readText file)
  modify ({ · with file := some file })
  let name ← lift (p.nameOf s.root file)
  modify ({ · with module := name })
  match p.parse text with
  | none => throw .badSyntax
  | some source =>
    addScopes source.block
    visitModule source.body
  modify ({ · with module := "", file := none })

def inScope {α : Type} (space : String) (step : Visit α) : Visit α := do
  let _ ← scopeOf space
  modify fun s => { s with within := space :: s.within }
  let result ← step
  modify fun s => { s with within := s.within.tail }
  return result

def baseClass (space : String) (base : Tree) : Visit (Option Id) := do
  let found ← inScope space <| match base with
    | .name id _ => valueOf id
    | .attribute value attr mode => do return (← readAttribute value attr mode).2
    | _ => return none
  match found with
  | some id => return if (← symbolOf id).isWild then none else some id
  | none => return none

def findLines : Visit Unit := do
  let parents ← (← get).bases.mapM fun (id, trees) => do
    let space := (← symbolOf id).space.getD ""
    return (id, ← trees.filterMapM (baseClass space))
  modify fun s => { s with parents, lineage := Lineage.lines parents }

def start (p : Program) (files : List String) (root : Option String) : Except Fault State := do
  let modules ← files.mapM fun f => do return (← moduleName p.folder f, f)
  return { modules := Assoc.ofList modules, files, root }

def analyse (p : Program) (files : List String) (root : Option String) : Except Fault State := do
  let begin ← start p files root
  let steps : Visit Unit := do
    files.forM (visitFile p)
    findLines
    files.forM (visitFile p)
    settle
  match steps.run.run begin with
  | (.ok (), s) => .ok s
  | (.error f, _) => .error f

end Docsmith.Calls
