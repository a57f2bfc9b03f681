import Docsmith.Digraph.Cycle
import Docsmith.Digraph.Layers
import Docsmith.Digraph.Rank

/-! # Making a graph acyclic

As long as the graph has a cycle, the edge of the first cycle whose head has the least rank is
dropped. The ranks are those of the graph at the start. -/

namespace Docsmith.Digraph

variable {α κ : Type} [DecidableEq α] [Hashable α]

def firstLeast (lt : κ → κ → Bool) (key : α → κ) : List α → Option α
  | [] => none
  | a :: rest => some (rest.foldl (fun best b => if lt (key b) (key best) then b else best) a)

def weakestEdge? (lt : κ → κ → Bool) (rank : α → κ) (g : Digraph α) : Option (α × α) :=
  g.findCycle?.bind (firstLeast lt fun e => rank e.2)

def breakCycles (lt : κ → κ → Bool) (rank : α → κ) (g : Digraph α) : Digraph α :=
  if g.isAcyclic then g
  else
    match g.weakestEdge? lt rank with
    | none => g
    | some e => if _h : e ∈ g.edges then breakCycles lt rank (g.removeEdge e) else g
termination_by g.edges.length
decreasing_by
  have := List.length_erase_of_mem _h
  have := List.length_pos_of_mem _h
  simp only [removeEdge]
  omega

def acyclic (g : Digraph α) : Digraph α :=
  let ranks := g.ranks
  g.breakCycles (· < ·) fun n => (ranks.lookup n).getD 0.0

end Docsmith.Digraph
