import Docsmith.Facts.Graph
import Docsmith.Proofs.Dispatch

/-! # Graphs freed of cycles

The search for a cycle lists a node as done when all its successors are, so one that ends without a
cycle has listed every node after its successors (`Finished`). Hence it finds a cycle in every graph
that has one (`exists_findCycle?`).

Each turn of the loop drops the weakest edge of a cycle and leaves the way back along it, so it only
takes an edge whose ends lead to each other, and what was linked stays linked (`thinned_of_turn`,
`thinned_of_turns`). There are no more turns than edges (`wellFounded_turn`), and the loop ends
where no cycle is left (`turns_breakCycles`). -/

namespace Docsmith

open Relation List

def Mutual {α : Type} (r : α → α → Prop) (a b : α) : Prop :=
  ReflTransGen r a b ∧ ReflTransGen r b a

lemma Mutual.mono {α : Type} {r r' : α → α → Prop} (h : ∀ a b, r a b → r' a b) {a b : α}
    (hab : Mutual r a b) : Mutual r' a b :=
  ⟨ReflTransGen.mono h _ _ hab.1, ReflTransGen.mono h _ _ hab.2⟩

namespace Digraph

variable {α : Type}

/-! ## Walks -/

section Walks

variable {r : α → α → Prop}

lemma reflTransGen_of_isChain {a c : α} {b : List α} (h : List.IsChain r (a :: (b ++ [c]))) :
    ReflTransGen r a c := by
  induction b generalizing a with
  | nil => exact .single (isChain_cons_cons.mp h).1
  | cons x b ih =>
    obtain ⟨hax, hrest⟩ := isChain_cons_cons.mp h
    exact (ih hrest).head hax

lemma of_mem_steps {a c : α} {b : List α} (h : List.IsChain r (a :: (b ++ [c]))) {e : α × α}
    (he : e ∈ (a :: b).zip (b ++ [c])) :
    r e.1 e.2 ∧ ReflTransGen r a e.1 ∧ ReflTransGen r e.2 c := by
  induction b generalizing a with
  | nil =>
    obtain rfl : e = (a, c) := mem_singleton.mp he
    exact ⟨(isChain_cons_cons.mp h).1, .refl, .refl⟩
  | cons x b ih =>
    obtain ⟨hax, hrest⟩ := isChain_cons_cons.mp h
    rcases mem_cons.mp he with rfl | he
    · exact ⟨hax, .refl, reflTransGen_of_isChain hrest⟩
    · obtain ⟨hstep, hstart, hend⟩ := ih hrest he
      exact ⟨hstep, hstart.head hax, hend⟩

lemma reflTransGen_avoiding {u v x : α} (h : ReflTransGen r x u) :
    ReflTransGen (fun a b => r a b ∧ (a, b) ≠ (u, v)) x u := by
  induction h using ReflTransGen.head_induction_on with
  | refl => exact .refl
  | @head a b hstep _ ih =>
    by_cases hab : (a, b) = (u, v)
    · obtain ⟨rfl, -⟩ := Prod.mk.inj hab
      exact .refl
    · exact ih.head ⟨hstep, hab⟩

end Walks

/-! ## Searching -/

/-- Nodes, each listed after all its successors; the last one comes first. -/
def Finished (g : Digraph α) : List α → Prop
  | [] => True
  | n :: done => (∀ m, g.Edge n m → m ∈ done) ∧ Finished g done

variable {g : Digraph α} {done : List α}

lemma Finished.mem_of_edge (h : g.Finished done) {a b : α} (ha : a ∈ done) (hab : g.Edge a b) :
    b ∈ done := by
  induction done with
  | nil => cases ha
  | cons n done ih =>
    rcases mem_cons.mp ha with rfl | ha
    · exact mem_cons_of_mem _ (h.1 b hab)
    · exact mem_cons_of_mem _ (ih h.2 ha)

lemma Finished.mem_of_reflTransGen (h : g.Finished done) {a b : α} (ha : a ∈ done)
    (hab : ReflTransGen g.Edge a b) : b ∈ done := by
  induction hab with
  | refl => exact ha
  | tail _ hstep ih => exact h.mem_of_edge ih hstep

lemma Finished.not_transGen (h : g.Finished done) {a : α} (ha : a ∈ done) :
    ¬ TransGen g.Edge a a := by
  induction done with
  | nil => cases ha
  | cons n done ih =>
    rcases mem_cons.mp ha with rfl | ha
    · intro hcycle
      obtain ⟨m, hstep, hback⟩ := TransGen.head'_iff.mp hcycle
      exact ih h.2 (h.2.mem_of_reflTransGen (h.1 m hstep) hback) hcycle
    · exact ih h.2 ha

/-- The successors of a node on a trail are still to be tried, or done, or the next node on it. -/
def Trodden (g : Digraph α) (done : List α) : Option α → Trail α → Prop
  | _, [] => True
  | next, (n, ms) :: trail =>
    (∀ m, g.Edge n m → m ∈ ms ∨ m ∈ done ∨ next = some m) ∧
      (∀ m, m ∈ ms ∨ next = some m → g.Edge n m) ∧ Trodden g done (some n) trail

variable {trail : Trail α}

lemma Trodden.mono {done done' : List α} (hdone : done ⊆ done') {next : Option α}
    (h : g.Trodden done next trail) : g.Trodden done' next trail := by
  induction trail generalizing next with
  | nil => trivial
  | cons entry trail ih =>
    obtain ⟨hall, hsome, hrest⟩ := h
    refine ⟨fun m hm => ?_, hsome, ih hrest⟩
    exact (hall m hm).imp_right (Or.imp_left fun hm => hdone hm)

lemma Trodden.leave {n : α} (h : g.Trodden done (some n) trail) :
    g.Trodden (n :: done) none trail := by
  cases trail with
  | nil => trivial
  | cons entry trail =>
    obtain ⟨hall, hsome, hrest⟩ := h
    refine ⟨fun m hm => ?_, fun m hm => ?_, hrest.mono (subset_cons_self n done)⟩
    · rcases hall m hm with hm | hm | hm
      · exact Or.inl hm
      · exact Or.inr (Or.inl (mem_cons_of_mem _ hm))
      · exact Or.inr (Or.inl (Option.some.inj hm ▸ mem_cons_self))
    · rcases hm with hm | hm
      · exact hsome m (Or.inl hm)
      · cases hm

variable [DecidableEq α]

lemma isChain_trail {c goal : α} {rest : List α} (h : g.Trodden done (some c) trail)
    (hgoal : goal ∈ trail.nodes) (hchain : List.IsChain g.Edge (c :: rest)) :
    List.IsChain g.Edge
      (goal :: ((trail.nodes.takeWhile (· ≠ goal)).reverse ++ c :: rest)) := by
  induction trail generalizing c rest with
  | nil => cases hgoal
  | cons entry trail ih =>
    obtain ⟨n, ms⟩ := entry
    obtain ⟨-, hsome, hrest⟩ := h
    have hstep : g.Edge n c := hsome c (Or.inr rfl)
    have hlonger : List.IsChain g.Edge (n :: c :: rest) := .cons_cons hstep hchain
    rw [Trail.nodes_cons] at hgoal ⊢
    by_cases hn : n = goal
    · rw [takeWhile_cons_of_neg (by simp [hn]), ← hn]
      exact hlonger
    · rw [takeWhile_cons_of_pos (by simp [hn]), reverse_cons, append_assoc]
      refine ih hrest ?_ hlonger
      exact (mem_cons.mp hgoal).resolve_left (Ne.symm hn)

def Cyclic (g : Digraph α) (cycle : List (α × α)) : Prop :=
  cycle ≠ [] ∧ ∀ e ∈ cycle, g.Edge e.1 e.2 ∧ ReflTransGen g.Edge e.2 e.1

lemma cyclic_closeCycle {n goal : α} {ms : List α}
    (h : g.Trodden done none ((n, goal :: ms) :: trail)) (hgoal : goal = n ∨ goal ∈ trail.nodes) :
    g.Cyclic (closeCycle ((n, ms) :: trail) goal) := by
  obtain ⟨-, hsome, hrest⟩ := h
  have hback : g.Edge n goal := hsome goal (Or.inl mem_cons_self)
  have hchain : ∃ back, closeCycle ((n, ms) :: trail) goal = (goal :: back).zip (back ++ [goal]) ∧
      List.IsChain g.Edge (goal :: (back ++ [goal])) := by
    refine ⟨_, rfl, ?_⟩
    rw [Trail.nodes_cons]
    by_cases hn : n = goal
    · rw [takeWhile_cons_of_neg (by simp [hn])]
      rw [hn] at hback
      exact .cons_cons hback (.singleton goal)
    · rw [takeWhile_cons_of_pos (by simp [hn]), reverse_cons, append_assoc]
      exact isChain_trail hrest (hgoal.resolve_left (Ne.symm hn))
        (.cons_cons hback (.singleton goal))
  obtain ⟨back, heq, hchain⟩ := hchain
  rw [heq]
  refine ⟨?_, fun e he => ?_⟩
  · cases back <;> simp
  · obtain ⟨hstep, hstart, hend⟩ := of_mem_steps hchain he
    exact ⟨hstep, hend.trans hstart⟩

lemma search_spec (hg : g.Closed) (done : List α) (trail : Trail α) (hdone : g.Finished done)
    (htrail : g.Trodden done none trail) :
    (∃ cycle, g.search done trail = .inl cycle ∧ g.Cyclic cycle) ∨
      ∃ done', g.search done trail = .inr done' ∧ g.Finished done' ∧ done ⊆ done' ∧
        trail.nodes ⊆ done' := by
  fun_induction search g done trail with
  | case1 done => exact Or.inr ⟨done, rfl, hdone, List.Subset.refl _, nil_subset _⟩
  | case2 done n trail ih =>
    obtain ⟨hall, -, hrest⟩ := htrail
    have hn : ∀ m, g.Edge n m → m ∈ done := by
      intro m hm
      rcases hall m hm with hm | hm | hm
      · cases hm
      · exact hm
      · cases hm
    refine (ih ⟨hn, hdone⟩ hrest.leave).imp_right ?_
    rintro ⟨done', heq, hfin, hsub, hnodes⟩
    refine ⟨done', heq, hfin, fun a ha => hsub (mem_cons_of_mem _ ha), ?_⟩
    exact cons_subset.mpr ⟨hsub mem_cons_self, hnodes⟩
  | case3 done n m ms trail hpath =>
    exact Or.inl ⟨_, rfl, cyclic_closeCycle htrail hpath⟩
  | case4 done n m ms trail hpath hfresh ih =>
    obtain ⟨hall, hsome, hrest⟩ := htrail
    have hpushed : g.Trodden done none ((m, g.successors m) :: (n, ms) :: trail) := by
      refine ⟨fun x hx => Or.inl (mem_successors.mpr hx), fun x hx => ?_, fun x hx => ?_,
        fun x hx => ?_, hrest⟩
      · rcases hx with hx | hx
        · exact mem_successors.mp hx
        · cases hx
      · rcases hall x hx with hx | hx | hx
        · rcases mem_cons.mp hx with rfl | hx
          · exact Or.inr (Or.inr rfl)
          · exact Or.inl hx
        · exact Or.inr (Or.inl hx)
        · cases hx
      · rcases hx with hx | hx
        · exact hsome x (Or.inl (mem_cons_of_mem _ hx))
        · exact hsome x (Or.inl (Option.some.inj hx ▸ mem_cons_self))
    refine (ih hdone hpushed).imp_right ?_
    rintro ⟨done', heq, hfin, hsub, hnodes⟩
    exact ⟨done', heq, hfin, hsub, fun a ha => hnodes (mem_cons_of_mem _ ha)⟩
  | case5 done n m ms trail hpath hfresh ih =>
    obtain ⟨hall, hsome, hrest⟩ := htrail
    -- the successor is a node, so it is passed over because it is done
    have hm : m ∈ done := by
      by_contra hno
      exact hfresh ⟨(hg _ (hsome m (Or.inl mem_cons_self))).2, hno⟩
    refine ih hdone ⟨fun x hx => ?_, fun x hx => ?_, hrest⟩
    · rcases hall x hx with hx | hx | hx
      · rcases mem_cons.mp hx with rfl | hx
        · exact Or.inr (Or.inl hm)
        · exact Or.inl hx
      · exact Or.inr (Or.inl hx)
      · cases hx
    · rcases hx with hx | hx
      · exact hsome x (Or.inl (mem_cons_of_mem _ hx))
      · cases hx

lemma searchFrom_spec (hg : g.Closed) (ns done : List α) (hdone : g.Finished done) :
    (∃ cycle, g.searchFrom done ns = some cycle ∧ g.Cyclic cycle) ∨
      g.searchFrom done ns = none ∧ ∃ done', g.Finished done' ∧ done ⊆ done' ∧ ns ⊆ done' := by
  induction ns generalizing done with
  | nil => exact Or.inr ⟨rfl, done, hdone, List.Subset.refl _, nil_subset _⟩
  | cons n ns ih =>
    rw [searchFrom]
    by_cases hn : n ∈ done
    · rw [if_pos hn]
      refine (ih done hdone).imp_right ?_
      rintro ⟨hnone, done', hfin, hsub, hns⟩
      exact ⟨hnone, done', hfin, hsub, cons_subset.mpr ⟨hsub hn, hns⟩⟩
    · rw [if_neg hn]
      have hstart : g.Trodden done none [(n, g.successors n)] := by
        refine ⟨fun m hm => Or.inl (mem_successors.mpr hm), fun m hm => ?_, trivial⟩
        rcases hm with hm | hm
        · exact mem_successors.mp hm
        · cases hm
      rcases search_spec hg done _ hdone hstart with
        ⟨cycle, heq, hcycle⟩ | ⟨done₁, heq, hfin₁, hsub₁, hnodes⟩
      · rw [heq]
        exact Or.inl ⟨cycle, rfl, hcycle⟩
      · rw [heq]
        refine (ih done₁ hfin₁).imp_right ?_
        rintro ⟨hnone, done', hfin, hsub, hns⟩
        have hn' : n ∈ done' := hsub (hnodes mem_cons_self)
        exact ⟨hnone, done', hfin, fun a ha => hsub (hsub₁ ha), cons_subset.mpr ⟨hn', hns⟩⟩

/-! ## Dropping edges -/

section Dropping

omit [DecidableEq α]

/-- Nodes and edges keep their order, an edge is only dropped where its ends lead to each other, and
what is linked when directions are ignored stays so. -/
structure Thinned (g g' : Digraph α) : Prop where
  nodes : g'.nodes = g.nodes
  edges : g'.edges.Sublist g.edges
  dropped : ∀ a b, g.Edge a b → ¬ g'.Edge a b → Mutual g.Edge a b
  linked : ∀ a b, EqvGen g.Edge a b → EqvGen g'.Edge a b

lemma Thinned.refl (g : Digraph α) : Thinned g g :=
  ⟨rfl, List.Sublist.refl _, fun _ _ h hno => absurd h hno, fun _ _ h => h⟩

lemma Thinned.edge {g g' : Digraph α} (h : Thinned g g') {a b : α} (hab : g'.Edge a b) :
    g.Edge a b :=
  h.edges.subset hab

lemma Thinned.trans {g₁ g₂ g₃ : Digraph α} (h₁ : Thinned g₁ g₂) (h₂ : Thinned g₂ g₃) :
    Thinned g₁ g₃ := by
  refine ⟨h₂.nodes.trans h₁.nodes, h₂.edges.trans h₁.edges, fun a b hab hno => ?_,
    fun a b hab => h₂.linked a b (h₁.linked a b hab)⟩
  by_cases hmid : g₂.Edge a b
  · exact (h₂.dropped a b hmid hno).mono fun _ _ => h₁.edge
  · exact h₁.dropped a b hab hmid

lemma Thinned.closed {g g' : Digraph α} (h : Thinned g g') (hg : g.Closed) : g'.Closed := by
  intro e he
  rw [h.nodes]
  exact hg e (h.edges.subset he)

end Dropping

lemma thinned_removeEdge {u v : α} (hback : ReflTransGen g.Edge v u) :
    Thinned g (g.removeEdge (u, v)) := by
  have hkept : ∀ a b, g.Edge a b ∧ (a, b) ≠ (u, v) → (g.removeEdge (u, v)).Edge a b :=
    fun a b h => (mem_erase_of_ne h.2).mpr h.1
  have hway : ReflTransGen (g.removeEdge (u, v)).Edge v u :=
    ReflTransGen.mono hkept _ _ (reflTransGen_avoiding hback)
  refine ⟨rfl, erase_sublist, fun a b hab hno => ?_, EqvGen.eqvGen_le fun a b hab => ?_⟩
  · by_cases heq : (a, b) = (u, v)
    · obtain ⟨rfl, rfl⟩ := Prod.mk.inj heq
      exact ⟨.single hab, hback⟩
    · exact absurd (hkept a b ⟨hab, heq⟩) hno
  · by_cases heq : (a, b) = (u, v)
    · obtain ⟨rfl, rfl⟩ := Prod.mk.inj heq
      exact .symm _ _ (EqvGen.reflTransGen_le_eqvGen _ _ _ hway)
    · exact .rel a b (hkept a b ⟨hab, heq⟩)

lemma Closed.removeEdge (hg : g.Closed) (e : α × α) : (g.removeEdge e).Closed :=
  fun d hd => hg d (mem_of_mem_erase hd)

/-! ## Turns -/

variable [Hashable α]

lemma exists_findCycle? (hg : g.Closed) (h : g.isAcyclic = false) :
    ∃ cycle, g.findCycle? = some cycle ∧ g.Cyclic cycle := by
  rcases searchFrom_spec hg g.nodes [] trivial with hfound | ⟨-, done, hfin, -, hall⟩
  · exact hfound
  · have hac : g.isAcyclic = true := by
      refine (isAcyclic_iff hg).mpr ?_
      rintro ⟨a, ha⟩
      obtain ⟨b, hab, -⟩ := TransGen.head'_iff.mp ha
      exact hfin.not_transGen (hall (hg _ hab).1) ha
    rw [h] at hac
    cases hac

section Least

variable {β κ : Type} {lt : κ → κ → Bool} {key : β → κ}

lemma foldl_least_mem (a : β) (rest : List β) :
    rest.foldl (fun best b => if lt (key b) (key best) then b else best) a ∈ a :: rest := by
  induction rest generalizing a with
  | nil => exact mem_cons_self
  | cons b rest ih =>
    rw [foldl_cons]
    by_cases hlt : lt (key b) (key a) = true
    · rw [if_pos hlt]
      exact mem_cons_of_mem _ (ih b)
    · rw [if_neg hlt]
      rcases mem_cons.mp (ih a) with heq | hmem
      · rw [heq]
        exact mem_cons_self
      · exact mem_cons_of_mem _ (mem_cons_of_mem _ hmem)

variable (lt key) in
lemma exists_firstLeast {xs : List β} (h : xs ≠ []) :
    ∃ a ∈ xs, firstLeast lt key xs = some a := by
  cases xs with
  | nil => exact absurd rfl h
  | cons a rest => exact ⟨_, foldl_least_mem a rest, rfl⟩

end Least

lemma exists_weakestEdge? {κ : Type} (lt : κ → κ → Bool) (rank : α → κ) (hg : g.Closed)
    (h : g.isAcyclic = false) :
    ∃ e, g.weakestEdge? lt rank = some e ∧ e ∈ g.edges ∧ Mutual g.Edge e.1 e.2 := by
  obtain ⟨cycle, hfind, hne, hcycle⟩ := exists_findCycle? hg h
  obtain ⟨e, he, hleast⟩ := exists_firstLeast lt (fun e => rank e.2) hne
  obtain ⟨hedge, hback⟩ := hcycle e he
  refine ⟨e, ?_, hedge, .single hedge, hback⟩
  rw [weakestEdge?, hfind]
  exact hleast

variable {κ : Type} (lt : κ → κ → Bool) (rank : α → κ)

/-- A turn of the loop: the graph has a cycle, and its weakest edge is dropped. -/
def Turn (g g' : Digraph α) : Prop :=
  g.isAcyclic = false ∧ ∃ e ∈ g.edges, g.weakestEdge? lt rank = some e ∧ g' = g.removeEdge e

variable {lt rank}

lemma thinned_of_turn {g g' : Digraph α} (hg : g.Closed) (h : Turn lt rank g g') :
    Thinned g g' := by
  obtain ⟨hcyclic, e, -, hweakest, rfl⟩ := h
  obtain ⟨e', he', -, hmutual⟩ := exists_weakestEdge? lt rank hg hcyclic
  obtain rfl : e = e' := Option.some.inj (hweakest.symm.trans he')
  exact thinned_removeEdge hmutual.2

lemma thinned_of_turns {g g' : Digraph α} (hg : g.Closed)
    (h : ReflTransGen (Turn lt rank) g g') : Thinned g g' := by
  induction h with
  | refl => exact .refl g
  | tail _ hturn ih => exact ih.trans (thinned_of_turn (ih.closed hg) hturn)

lemma length_edges_of_turn {g g' : Digraph α} (h : Turn lt rank g g') :
    g'.edges.length + 1 = g.edges.length := by
  obtain ⟨-, e, he, -, rfl⟩ := h
  have hlen := length_erase_of_mem he
  have hpos := length_pos_of_mem he
  show (g.edges.erase e).length + 1 = g.edges.length
  omega

lemma wellFounded_turn : WellFounded fun g' g : Digraph α => Turn lt rank g g' := by
  refine Subrelation.wf ?_ (measure fun g : Digraph α => g.edges.length).wf
  intro g' g h
  have hlen := length_edges_of_turn h
  show g'.edges.length < g.edges.length
  omega

variable (lt rank)

lemma turns_breakCycles (g : Digraph α) (hg : g.Closed) :
    ReflTransGen (Turn lt rank) g (g.breakCycles lt rank) ∧
      (g.breakCycles lt rank).isAcyclic = true := by
  fun_induction breakCycles lt rank g with
  | case1 g hac => exact ⟨.refl, hac⟩
  | case2 g hac hnone =>
    obtain ⟨e, he, -⟩ := exists_weakestEdge? lt rank hg (Bool.not_eq_true _ ▸ hac)
    rw [hnone] at he
    cases he
  | case3 g hac e hsome hmem ih =>
    obtain ⟨hturns, hend⟩ := ih (hg.removeEdge e)
    exact ⟨hturns.head ⟨Bool.not_eq_true _ ▸ hac, e, hmem, hsome, rfl⟩, hend⟩
  | case4 g hac e hsome hmem =>
    obtain ⟨e', he', hmem', -⟩ := exists_weakestEdge? lt rank hg (Bool.not_eq_true _ ▸ hac)
    obtain rfl : e = e' := Option.some.inj (hsome.symm.trans he')
    exact absurd hmem' hmem

/-- What is left of a graph: the nodes, all edges whose ends do not lead to each other, and no
cycle. -/
structure Freed (g g' : Digraph α) : Prop where
  nodes : g'.nodes = g.nodes
  edges : ∀ a b, g'.Edge a b → g.Edge a b
  kept : ∀ a b, g.Edge a b → ¬ Mutual g.Edge a b → g'.Edge a b
  acyclic : ¬ ∃ a, TransGen g'.Edge a a

lemma Thinned.freed {g g' : Digraph α} (h : Thinned g g') (hg : g.Closed)
    (hacyclic : g'.isAcyclic = true) : Freed g g' := by
  refine ⟨h.nodes, fun _ _ => h.edge, fun a b hab hno => ?_,
    (isAcyclic_iff (h.closed hg)).mp hacyclic⟩
  by_contra hdropped
  exact hno (h.dropped a b hab hdropped)

lemma freed_acyclic (hg : g.Closed) : Freed g g.acyclic := by
  obtain ⟨hturns, hend⟩ := turns_breakCycles (· < ·) (fun n => (g.ranks.lookup n).getD 0.0) g hg
  exact (thinned_of_turns hg hturns).freed hg hend

/-- **Freeing a graph of cycles** by dropping weakest edges. Whatever the ranks are, the result has
no cycle and the same nodes, edges are only dropped where their ends lead to each other, and what is
linked stays linked. -/
theorem breakCycles_thins (g : Digraph α) (hg : g.Closed) :
    (WellFounded fun g₂ g₁ : Digraph α => Turn lt rank g₁ g₂) ∧
    ReflTransGen (Turn lt rank) g (g.breakCycles lt rank) ∧
    (¬ ∃ a, TransGen (g.breakCycles lt rank).Edge a a) ∧
    Thinned g (g.breakCycles lt rank) ∧
    (∀ a b, g.Edge a b → ¬ Mutual g.Edge a b → (g.breakCycles lt rank).Edge a b) ∧
    ((¬ ∃ a, TransGen g.Edge a a) → g.breakCycles lt rank = g) ∧
    ∀ {δ : Type} (c : Catalog δ), (∃ rank, (Facts.freed c).graph
      = c.graph.breakCycles (fun x y : Float => decide (x < y)) rank) ∧
        (Facts.freed c).known = c.known := by
  obtain ⟨hturns, hend⟩ := turns_breakCycles lt rank g hg
  have hthin := thinned_of_turns hg hturns
  have hfreed := hthin.freed hg hend
  refine ⟨wellFounded_turn, hturns, hfreed.acyclic, hthin, hfreed.kept, fun hno => ?_,
    fun c => ⟨⟨_, rfl⟩, rfl⟩⟩
  rw [breakCycles, if_pos ((isAcyclic_iff hg).mpr hno)]

def eight : Digraph Nat :=
  { nodes := [0, 1, 2, 3], edges := [(0, 1), (1, 2), (2, 1), (1, 1), (2, 3), (3, 1)] }

theorem breakCycles_thins_eight : eight.Closed ∧
    (∀ rank : Nat → Nat, (eight.breakCycles (fun x y => decide (x < y)) rank).Edge 0 1) ∧
    ∀ rank : Nat → Nat, EqvGen (eight.breakCycles (fun x y => decide (x < y)) rank).Edge 1 3 := by
  have hclosed : eight.Closed := by
    unfold Closed eight
    decide
  have hback : ∀ a, ReflTransGen eight.Edge a 0 → a = 0 := by
    intro a h
    induction h using ReflTransGen.head_induction_on with
    | refl => rfl
    | head hstep _ ih =>
      subst ih
      simp [Edge, eight] at hstep
  refine ⟨hclosed, fun rank => ?_, fun rank => ?_⟩
  · obtain ⟨-, -, -, -, hkept, -⟩ := breakCycles_thins (fun x y => decide (x < y)) rank eight hclosed
    exact hkept 0 1 (by simp [Edge, eight]) fun h => absurd (hback 1 h.2) (by decide)
  · obtain ⟨-, -, -, hthin, -⟩ := breakCycles_thins (fun x y => decide (x < y)) rank eight hclosed
    exact hthin.linked 1 3 (.symm _ _ (.rel 3 1 (by simp [Edge, eight])))

end Digraph

end Docsmith

