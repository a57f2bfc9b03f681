import Docsmith.Calls.Analysis
import Docsmith.Definition
import Docsmith.Digraph.Acyclic

/-! # The call graph of a program

The routines of a program with their code, and which of them use which. -/

namespace Docsmith.Calls

/-- The text of a span, from the lines of a file. Columns count characters. -/
def Span.cut (s : Span) (lines : List String) : String :=
  let line (n : Nat) : List Char := (lines.getD (n - 1) "").toList
  if s.line == s.endLine then
    .ofList (((line s.line).take s.endColumn).drop s.column)
  else
    let between := (lines.take (s.endLine - 1)).drop s.line
    String.ofList ((line s.line).drop s.column) ++ Text.join "" between
      ++ String.ofList ((line s.endLine).take s.endColumn)

def isPrivate (name : String) : Bool :=
  Text.startsWith "_" name

/-- A routine is visible if it is not private, and the block around it is neither a routine nor a
private class. -/
def isVisible (id : Id) : Visit Bool := do
  if isPrivate (← symbolOf id).name then return false
  let outer ← symbolOf (← parentOf id)
  return !outer.isFunction && !(outer.isClass && isPrivate outer.name)

def routineOf (folder : Folder) (top : String) (id : Id) : Visit Routine := do
  let visible ← isVisible id
  let x ← symbolOf id
  let file := x.file.getD "None"
  let text ← lift (folder.readText file)
  let code := match x.origin.bind (·.span) with
    | some span => span.cut (Text.keepLines text)
    | none => ""
  return {
    symbol := x.fullName, code, visible,
    file := Text.stripOf ['/'] (Text.dropStart top file),
    access := if visible then "public" else "private" }

def addRoutine (folder : Folder) (top : String) (c : Catalog Routine) (id : Id) :
    Visit (Catalog Routine) := do
  let r ← routineOf folder top id
  return c.add r.symbol r

def ensureRoutine (folder : Folder) (top : String) (c : Catalog Routine) (id : Id) :
    Visit (Catalog Routine) := do
  if c.graph.nodes.contains (← symbolOf id).fullName then return c
  else addRoutine folder top c id

def addCalls (folder : Folder) (top : String) (c : Catalog Routine) (source : Id)
    (targets : List Id) : Visit (Catalog Routine) := do
  let caller := (← symbolOf source).fullName
  let c ← ensureRoutine folder top c source
  targets.foldlM (fun c target => do
    let t ← symbolOf target
    if t.isFunction && t.fullName != caller then
      return (← ensureRoutine folder top c target).addEdge (caller, t.fullName)
    else return c) c

def catalog (folder : Folder) (top : String) : Visit (Catalog Routine) := do
  let s ← get
  let ids := (s.table.flatMap Prod.snd).filter fun id => (s.symbol id).isFunction
  let c ← ids.foldlM (addRoutine folder top) {}
  s.uses.foldlM (fun c (source, targets) =>
    if (s.symbol source).isFunction then addCalls folder top c source targets
    else return c) c

def callGraph (p : Program) (top : String) : Except Fault (Catalog Routine) := do
  let s ← analyse p (← programs p.folder top) none
  match ((catalog p.folder top).run.run s).1 with
  | .ok c => return { c with graph := c.graph.acyclic }
  | .error f => throw f

end Docsmith.Calls
