import Docsmith.Text

/-! # Drawings of graphs

A compiler draws its call graph as a list of nodes with labels and of edges between them. -/

namespace Docsmith.Facts

/-- Nodes with their labels and edges between nodes, in the order of the text. -/
structure Drawing where
  nodes : List (String × String) := []
  edges : List (String × String) := []
deriving Repr, DecidableEq

namespace Drawing

/-- The items of a list with those of one key together, the keys in order of first appearance. -/
def gathered {κ β : Type} [BEq κ] (key : β → κ) (xs : List β) : List β :=
  (xs.map key).eraseDups.flatMap fun k => xs.filter (key · == k)

def nodeList (d : Drawing) : List (String × String) :=
  gathered Prod.fst d.nodes

def edgeList (d : Drawing) : List (String × String) :=
  gathered id d.edges

end Drawing

end Docsmith.Facts
