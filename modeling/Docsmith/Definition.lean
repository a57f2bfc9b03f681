import Docsmith.Assoc
import Docsmith.Digraph.Basic
import Docsmith.Fault

/-! # Definitions in a code base

A routine is a function or method, a record is a class, a field is an attribute of a record or a
parameter of a routine. Two definitions with the same symbol are the same. -/

namespace Docsmith

structure Field where
  name : String
  symbol : String
  access : String := "public"
deriving Repr, DecidableEq

/-- A parameter: one with a name and a type, or the text of one. -/
inductive Param where
  | typed (field : Field)
  | text (text : String)
deriving Repr, DecidableEq

structure Routine where
  symbol : String
  code : String := ""
  file : String := ""
  visible : Bool := true
  access : String := "public"
  params : List Param := []
deriving Repr, DecidableEq

structure Record where
  symbol : String
  code : String := ""
  file : String := ""
  visible : Bool := true
  fields : List Field := []
  methods : List Routine := []
deriving Repr, DecidableEq

/-- A definition of either kind, or a text, which is neither. -/
inductive Definition where
  | routine (r : Routine)
  | record (r : Record)
  | text (s : String)
deriving Repr, DecidableEq

namespace Definition

def same : Definition → Definition → Bool
  | .routine a, .routine b => a.symbol == b.symbol
  | .record a, .record b => a.symbol == b.symbol
  | .text a, .text b => a == b
  | _, _ => false

def distinct (ds : List Definition) : List Definition :=
  ds.foldl (fun kept d => if kept.any (same d) then kept else kept ++ [d]) []

end Definition

/-- A symbol that is only named by an edge has nothing known about it. -/
structure Catalog (δ : Type) where
  graph : Digraph String := {}
  known : List (String × δ) := []

namespace Catalog

variable {δ : Type}

def get (c : Catalog δ) (symbol : String) : Except Fault δ :=
  match Assoc.get? symbol c.known with
  | some d => .ok d
  | none => .error (.unknownName symbol)

def all (c : Catalog δ) : Except Fault (List δ) :=
  c.graph.nodes.mapM c.get

def add (c : Catalog δ) (symbol : String) (d : δ) : Catalog δ where
  graph := c.graph.addNode symbol
  known := Assoc.set symbol d c.known

def addEdge (c : Catalog δ) (e : String × String) : Catalog δ :=
  { c with graph := c.graph.addEdge e }

end Catalog

end Docsmith
