import Docsmith.Digraph.Basic

/-! # Finding a cycle

A depth-first search over the nodes in order. The first edge that leads back onto the path the
search stands on closes a cycle. -/

namespace Docsmith.Digraph

variable {α : Type}

theorem length_filter_lt {p q : α → Bool} {l : List α} (hpq : ∀ x, p x = true → q x = true)
    {a : α} (ha : a ∈ l) (hq : q a = true) (hp : p a = false) :
    (l.filter p).length < (l.filter q).length := by
  induction l with
  | nil => simp at ha
  | cons x xs ih =>
    have hle : (xs.filter p).length ≤ (xs.filter q).length := by
      clear ih ha
      induction xs with
      | nil => simp
      | cons y ys ihy =>
        by_cases hy : p y = true
        · simp [hy, hpq y hy, ihy]
        · by_cases hy' : q y = true
          · simp [hy, hy']; omega
          · simp [hy, hy', ihy]
    rcases List.mem_cons.1 ha with rfl | hx
    · simp [hp, hq]; omega
    · have := ih hx
      by_cases hy : p x = true
      · simp [hy, hpq x hy, this]
      · by_cases hy' : q x = true
        · simp [hy, hy']; omega
        · simp [hy, hy', this]

/-- Nodes from the current one back to the start, each with the successors that are still to be
tried. -/
abbrev Trail (α : Type) := List (α × List α)

def Trail.nodes (trail : Trail α) : List α :=
  trail.map (·.1)

@[simp] theorem Trail.nodes_cons (n : α) (ms : List α) (trail : Trail α) :
    Trail.nodes ((n, ms) :: trail) = n :: Trail.nodes trail := rfl

def Trail.weight (trail : Trail α) : Nat :=
  (trail.map (·.2.length + 1)).foldr (· + ·) 0

@[simp] theorem Trail.weight_cons (n : α) (ms : List α) (trail : Trail α) :
    Trail.weight ((n, ms) :: trail) = ms.length + 1 + Trail.weight trail := rfl

variable [DecidableEq α]

/-- The edges along a trail from `goal` to its current node, and the edge from there back to
`goal`. -/
def closeCycle (trail : Trail α) (goal : α) : List (α × α) :=
  let back := trail.nodes.takeWhile (· ≠ goal)
  (goal :: back.reverse).zip (back.reverse ++ [goal])

def fresh (g : Digraph α) (done path : List α) : List α :=
  g.nodes.filter fun n => n ∉ done && n ∉ path

theorem mem_fresh {g : Digraph α} {done path : List α} {m : α} :
    m ∈ g.fresh done path ↔ m ∈ g.nodes ∧ m ∉ done ∧ m ∉ path := by
  simp [fresh]

theorem length_fresh_cons_lt {g : Digraph α} {done path : List α} {m : α}
    (h : m ∈ g.fresh done path) :
    (g.fresh done (m :: path)).length < (g.fresh done path).length := by
  have hm := List.mem_filter.1 h
  refine length_filter_lt ?_ hm.1 hm.2 (by simp)
  intro x hx
  simp only [List.mem_cons, Bool.and_eq_true, decide_eq_true_eq] at hx ⊢
  exact ⟨hx.1, fun hc => hx.2 (Or.inr hc)⟩

theorem fresh_done (g : Digraph α) (done path : List α) (n : α) :
    g.fresh (n :: done) path = g.fresh done (n :: path) := by
  refine List.filter_congr fun x _ => ?_
  by_cases hx : x = n <;> simp [hx]

def search (g : Digraph α) (done : List α) : Trail α → List (α × α) ⊕ List α
  | [] => .inr done
  | (n, []) :: trail => search g (n :: done) trail
  | (n, m :: ms) :: trail =>
    if _hp : m = n ∨ m ∈ Trail.nodes trail then .inl (closeCycle ((n, ms) :: trail) m)
    else if _hf : m ∈ g.nodes ∧ m ∉ done then
      search g done ((m, g.successors m) :: (n, ms) :: trail)
    else search g done ((n, ms) :: trail)
termination_by trail => ((g.fresh done (Trail.nodes trail)).length, Trail.weight trail)
decreasing_by
  · rw [fresh_done]
    exact Prod.Lex.right _ (by simp)
  · have hm : m ∈ g.fresh done (n :: Trail.nodes trail) :=
      mem_fresh.2 ⟨_hf.1, _hf.2, fun h => _hp (List.mem_cons.1 h)⟩
    exact Prod.Lex.left _ _ (length_fresh_cons_lt hm)
  · exact Prod.Lex.right _ (by simp)

def searchFrom (g : Digraph α) (done : List α) : List α → Option (List (α × α))
  | [] => none
  | n :: ns =>
    if n ∈ done then searchFrom g done ns
    else
      match g.search done [(n, g.successors n)] with
      | .inl cycle => some cycle
      | .inr done => searchFrom g done ns

def findCycle? (g : Digraph α) : Option (List (α × α)) :=
  searchFrom g [] g.nodes

end Docsmith.Digraph
