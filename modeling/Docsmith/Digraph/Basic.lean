/-! # Directed graphs in order of insertion

Nodes, edges and neighbours are listed in the order in which they were added, so every traversal is
determined by how the graph was built. -/

namespace Docsmith

/-- A finite directed graph without repeated nodes or edges. -/
structure Digraph (α : Type) where
  nodes : List α := []
  edges : List (α × α) := []
deriving Repr

namespace Digraph

variable {α : Type} [DecidableEq α]

def addNode (g : Digraph α) (n : α) : Digraph α :=
  if n ∈ g.nodes then g else { g with nodes := g.nodes ++ [n] }

def addEdge (g : Digraph α) (e : α × α) : Digraph α :=
  let g := (g.addNode e.1).addNode e.2
  if e ∈ g.edges then g else { g with edges := g.edges ++ [e] }

def removeEdge (g : Digraph α) (e : α × α) : Digraph α :=
  { g with edges := g.edges.erase e }

def build (nodes : List α) (edges : List (α × α)) : Digraph α :=
  edges.foldl addEdge (nodes.foldl addNode {})

def successors (g : Digraph α) (n : α) : List α :=
  (g.edges.filter (·.1 == n)).map (·.2)

def predecessors (g : Digraph α) (n : α) : List α :=
  (g.edges.filter (·.2 == n)).map (·.1)

def edgesByTail (g : Digraph α) : List (α × α) :=
  g.nodes.flatMap fun n => g.edges.filter (·.1 == n)

/-- Edges in the order of `edgesByTail`. -/
def reverse (g : Digraph α) : Digraph α :=
  { nodes := g.nodes, edges := g.edgesByTail.map fun (a, b) => (b, a) }

theorem mem_successors {g : Digraph α} {a b : α} : b ∈ g.successors a ↔ (a, b) ∈ g.edges := by
  simp [successors]

theorem mem_predecessors {g : Digraph α} {a b : α} :
    b ∈ g.predecessors a ↔ (b, a) ∈ g.edges := by
  simp [predecessors]

end Digraph

end Docsmith
