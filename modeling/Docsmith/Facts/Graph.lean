import Docsmith.Definition
import Docsmith.Digraph.Acyclic
import Docsmith.Facts.Drawing
import Docsmith.Facts.TypeName

/-! # Graphs from the facts of a compiler

The call graph is the drawing of the compiler as far as its labels are known routines; the graph of
records has an edge to each record that a field holds. Both are freed of cycles. -/

namespace Docsmith.Facts

/-! ## Routines -/

/-- The name that each node stands for; of two labels of a node the later counts. -/
def nameTable (routines : List (String × Routine)) (d : Drawing) : List (String × String) :=
  Assoc.ofList (d.nodeList.filterMap fun (id, label) =>
    let name := Text.stripOf ['"'] label
    if Assoc.has name routines then some (id, name) else none)

/-- The calls between two nodes that stand for known routines. A node does not count as calling
itself. -/
def drawnCalls (routines : List (String × Routine)) (d : Drawing) : List (String × String) :=
  let names := nameTable routines d
  d.edgeList.filterMap fun (a, b) =>
    if a = b then none
    else
      match Assoc.get? a names, Assoc.get? b names with
      | some f, some g => some (f, g)
      | _, _ => none

def drawnRoutines (routines : List (String × Routine)) (d : Drawing) : Catalog Routine :=
  d.nodeList.foldl (fun c (_, label) =>
    let name := Text.stripOf ['"'] label
    match Assoc.get? name routines with
    | some r => c.add name r
    | none => c) {}

def freed {δ : Type} (c : Catalog δ) : Catalog δ :=
  { c with graph := c.graph.acyclic }

def callGraph (routines : List (String × Routine)) (d : Drawing) : Catalog Routine :=
  freed ((drawnCalls routines d).foldl Catalog.addEdge (drawnRoutines routines d))

/-- The nodes of the graph are names and not routines, so none of the routines is found in it. -/
def sample (routines : List (String × Routine)) (starts : List String) :
    Except Fault (Digraph String) := do
  let found ← starts.mapM fun name =>
    match Assoc.get? name routines with
    | some r => .ok r
    | none => .error (.unknownName name)
  match found with
  | [] => return {}
  | r :: _ => throw (.notInGraph r.symbol)

/-! ## Records -/

def namesOf (aliases : List (String × String)) (record : String) : List String :=
  record :: (aliases.filter (·.2 == record)).map Prod.fst

/-- The routines of a record: those whose symbol starts with one of its names. -/
def methodsOf (record : String) (routines : Catalog Routine) (aliases : List (String × String)) :
    Except Fault (List Routine) := do
  let names := namesOf aliases record
  return (← routines.all).filter fun r =>
    names.any fun name => Text.startsWith (name ++ "::") r.symbol

def held (aliases : List (String × String)) (r : Record) : List String :=
  r.fields.map fun f =>
    let name := typeName f.symbol
    (Assoc.get? name aliases).getD name

def recordGraph (records : List (String × Record)) (aliases : List (String × String)) :
    Catalog Record :=
  let start := records.foldl (fun c (name, r) => c.add name r) ({} : Catalog Record)
  freed (records.foldl (fun c (name, r) =>
    (held aliases r).foldl (fun c t =>
      if Assoc.has t records then c.addEdge (name, t) else c) c) start)

/-! ## The outline of a record -/

def paramText : Param → Except Fault String
  | .text s => .ok s
  | .typed _ => .error .notAParameter

def methodLine (r : Routine) : Except Fault String := do
  let params ← r.params.mapM paramText
  let name := (Text.splitOn "::" r.symbol).getLast?.getD ""
  return "    " ++ name ++ "(" ++ Text.join ", " params ++ ");"

def outline (symbol : String) (fields : List Field) (methods : List Routine) :
    Except Fault String := do
  let fieldLines := if fields.isEmpty then [] else
    "    /* fields */" :: fields.map fun f => "    " ++ f.symbol ++ ";"
  let methodLines ← if methods.isEmpty then pure [] else do
    pure ("    /* methods */" :: (← methods.mapM methodLine))
  return Text.join "\n"
    (["class " ++ symbol ++ " \x7b", "public:"] ++ fieldLines ++ methodLines ++ ["\x7d;"])

end Docsmith.Facts
