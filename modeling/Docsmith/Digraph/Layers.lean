import Docsmith.Digraph.Basic
import Std.Data.HashSet

/-! # Layers of a graph

The nodes are peeled off in layers: a node is ready when none of its successors is left. Nodes that
can reach a cycle stay behind. -/

namespace Docsmith.Digraph

variable {α : Type} [DecidableEq α] [Hashable α]

/-- The nodes with a successor in `rest`, found in one pass over the edges. -/
def busy (g : Digraph α) (rest : List α) : Std.HashSet α :=
  let left := Std.HashSet.ofList rest
  .ofList ((g.edges.filter fun e => left.contains e.2).map Prod.fst)

def ready (g : Digraph α) (rest : List α) : List α :=
  let busy := g.busy rest
  rest.filter (!busy.contains ·)

def waiting (g : Digraph α) (rest : List α) : List α :=
  let busy := g.busy rest
  rest.filter busy.contains

theorem contains_busy (g : Digraph α) (rest : List α) (n : α) :
    (g.busy rest).contains n = !(g.successors n).all (· ∉ rest) := by
  have hall : (g.successors n).all (· ∉ rest) = false ↔ ∃ m ∈ g.successors n, m ∈ rest := by
    rw [List.all_eq_false]
    simp only [decide_eq_true_eq, Decidable.not_not]
  rw [Bool.eq_iff_iff, Bool.not_eq_true', hall, busy, Std.HashSet.contains_ofList,
    List.contains_iff_mem, List.mem_map]
  constructor
  · rintro ⟨⟨a, b⟩, he, rfl⟩
    have he := List.mem_filter.1 he
    rw [Std.HashSet.contains_ofList, List.contains_iff_mem] at he
    exact ⟨b, mem_successors.2 he.1, he.2⟩
  · rintro ⟨m, hm, hr⟩
    refine ⟨(n, m), List.mem_filter.2 ⟨mem_successors.1 hm, ?_⟩, rfl⟩
    rw [Std.HashSet.contains_ofList, List.contains_iff_mem]
    exact hr

theorem ready_eq (g : Digraph α) (rest : List α) :
    g.ready rest = rest.filter fun n => (g.successors n).all (· ∉ rest) := by
  simp only [ready, contains_busy, Bool.not_not]

theorem waiting_eq (g : Digraph α) (rest : List α) :
    g.waiting rest = rest.filter fun n => !(g.successors n).all (· ∉ rest) := by
  have h : (g.busy rest).contains = fun n => !(g.successors n).all (· ∉ rest) :=
    funext (contains_busy g rest)
  simp only [waiting, h]

theorem length_waiting_lt {g : Digraph α} {rest : List α} (h : g.ready rest ≠ []) :
    (g.waiting rest).length < rest.length := by
  rw [ready_eq] at h
  rw [waiting_eq]
  refine Nat.lt_of_le_of_ne (List.length_filter_le ..) fun he => h ?_
  have hall := List.length_filter_eq_length_iff.1 he
  refine List.filter_eq_nil_iff.2 fun n hn => ?_
  have := hall n hn
  simpa using this

/-- Peels layer after layer off `rest`: the layers, first the ready nodes, and the nodes that stay
behind. -/
def peel (g : Digraph α) (rest : List α) : List (List α) × List α :=
  let now := g.ready rest
  if _h : now = [] then ([], rest)
  else
    let (layers, stuck) := peel g (g.waiting rest)
    (now :: layers, stuck)
termination_by rest.length
decreasing_by exact length_waiting_lt _h

/-- The nodes that can reach a cycle, if there are any, form a group of their own in front. -/
def layers (g : Digraph α) : List (List α) :=
  let (layers, stuck) := g.peel g.nodes
  if stuck.isEmpty then layers else stuck :: layers

def isAcyclic (g : Digraph α) : Bool :=
  (g.peel g.nodes).2.isEmpty

end Docsmith.Digraph
