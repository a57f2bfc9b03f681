import Docsmith.Proofs.Freeing
import Docsmith.Proofs.Tables

/-! # The graphs of a compiler's facts can be worked off in order

A node of a drawing stands for the last of its labels that names a routine; the graph of records has
an edge to every record that a field holds. Both graphs are freed of cycles, so an edge is missing
only where its ends lead to each other (`graphs_schedulable`). -/

namespace Docsmith

open Relation List

/-! ## Growing catalogs -/

namespace Catalog

variable {δ : Type}

lemma foldl_addEdge (c : Catalog δ) (hc : c.graph.Closed) (es : List (String × String))
    (hes : ∀ e ∈ es, e.1 ∈ c.graph.nodes ∧ e.2 ∈ c.graph.nodes) :
    (es.foldl addEdge c).known = c.known ∧ (es.foldl addEdge c).graph.nodes = c.graph.nodes ∧
      (es.foldl addEdge c).graph.Closed ∧
      ∀ a b, (es.foldl addEdge c).graph.Edge a b ↔ c.graph.Edge a b ∨ (a, b) ∈ es := by
  induction es generalizing c with
  | nil => exact ⟨rfl, rfl, hc, fun a b => by simp⟩
  | cons e es ih =>
    obtain ⟨⟨h1, h2⟩, hrest⟩ := forall_mem_cons.mp hes
    have hsame : (c.addEdge e).graph.nodes = c.graph.nodes := by
      rw [addEdge, Digraph.nodes_addEdge, Digraph.addNode, Digraph.addNode, if_pos h1, if_pos h2]
    obtain ⟨hknown, hnodes, hclosed, hedges⟩ :=
      ih (c.addEdge e) (hc.addEdge e) (hsame ▸ hrest)
    refine ⟨hknown, hnodes.trans hsame, hclosed, fun a b => (hedges a b).trans ?_⟩
    rw [Digraph.Edge, addEdge, Digraph.mem_edges_addEdge, mem_cons, or_assoc]
    rfl

lemma foldl_add (ds : List (String × δ)) :
    let c := ds.foldl (fun c x => c.add x.1 x.2) ({} : Catalog δ)
    c.known = Assoc.ofList ds ∧ c.graph.edges = [] ∧ c.graph.nodes.Nodup ∧
      ∀ n, n ∈ c.graph.nodes ↔ ∃ d, (n, d) ∈ ds := by
  induction ds using List.reverseRecOn with
  | nil => exact ⟨rfl, rfl, nodup_nil, fun n => by simp⟩
  | append_singleton ds d ih =>
    obtain ⟨hknown, hedges, hnodup, hnodes⟩ := ih
    simp only [foldl_append, foldl_cons, foldl_nil]
    refine ⟨?_, ?_, ?_, fun n => ?_⟩
    · rw [Assoc.ofList_concat, ← hknown]
      rfl
    · exact (Digraph.edges_addNode _ _).trans hedges
    · exact Digraph.nodup_addNode hnodup _
    · refine Digraph.mem_nodes_addNode.trans ((or_congr_left (hnodes n)).trans ?_)
      constructor
      · rintro (⟨d', hd'⟩ | rfl)
        · exact ⟨d', mem_append_left _ hd'⟩
        · exact ⟨d.2, mem_append_right _ mem_cons_self⟩
      · rintro ⟨d', hd'⟩
        rcases mem_append.mp hd' with hd' | hd'
        · exact Or.inl ⟨d', hd'⟩
        · exact Or.inr (congrArg Prod.fst (mem_singleton.mp hd'))

lemma get_ok_iff {c : Catalog δ} {n : String} {d : δ} :
    c.get n = .ok d ↔ Assoc.get? n c.known = some d := by
  rw [get]
  cases Assoc.get? n c.known with
  | none | some d' => simp

end Catalog

namespace Facts

/-! ## Drawings -/

namespace Drawing

section Gathering

variable {κ β : Type} [BEq κ] [LawfulBEq κ] (key : β → κ) (xs : List β)

lemma mem_gathered {x : β} : x ∈ gathered key xs ↔ x ∈ xs := by
  simp only [gathered, mem_flatMap, mem_eraseDups, mem_map, mem_filter,
    beq_iff_eq]
  constructor
  · rintro ⟨k, -, hx, -⟩
    exact hx
  · intro hx
    exact ⟨key x, ⟨x, hx, rfl⟩, hx, rfl⟩

lemma filter_gathered (k : κ) :
    (gathered key xs).filter (key · == k) = xs.filter (key · == k) := by
  have hgroups : ∀ ks : List κ, ks.Nodup →
      (ks.flatMap fun j => xs.filter (key · == j)).filter (key · == k)
        = if k ∈ ks then xs.filter (key · == k) else [] := by
    classical
    intro ks hks
    induction ks with
    | nil => rfl
    | cons j ks ih =>
      obtain ⟨hj, hks⟩ := nodup_cons.mp hks
      rw [flatMap_cons, filter_append, ih hks, filter_filter]
      by_cases hkj : k = j
      · subst hkj
        simp [hj]
      · have hnone : xs.filter (fun x => key x == k && key x == j) = [] := by
          rw [filter_eq_nil_iff]
          intro x _ hx
          rw [Bool.and_eq_true, beq_iff_eq, beq_iff_eq] at hx
          exact hkj (hx.1.symm.trans hx.2)
        simp [hnone, hkj]
  rw [gathered, hgroups _ (nodup_eraseDups _)]
  split
  · rfl
  · rename_i hno
    refine (filter_eq_nil_iff.mpr fun x hx heq => hno ?_).symm
    rw [mem_eraseDups, ← beq_iff_eq.mp heq]
    exact mem_map_of_mem hx

end Gathering

end Drawing

section Routines

variable (routines : List (String × Routine)) (d : Drawing)

def namesAt (id : String) : List String :=
  ((d.nodes.filter (·.1 == id)).map fun x => Text.stripOf ['"'] x.2).filter (Assoc.has · routines)

/-- A node stands for the last name of a routine that it was declared with. -/
def StandsFor (id name : String) : Prop :=
  (namesAt routines d id).getLast? = some name

/-- A drawing shows a call between what two different nodes stand for. -/
def Shows (f g : String) : Prop :=
  ∃ a b, (a, b) ∈ d.edges ∧ a ≠ b ∧ StandsFor routines d a f ∧ StandsFor routines d b g

def Labels (name : String) : Prop :=
  (∃ x ∈ d.nodes, Text.stripOf ['"'] x.2 = name) ∧ ∃ r, Assoc.get? name routines = some r

variable {routines d}

lemma get?_nameTable {id name : String} :
    Assoc.get? id (nameTable routines d) = some name ↔ StandsFor routines d id name := by
  rw [nameTable, Assoc.get?_ofList, StandsFor, namesAt, ← Drawing.filter_gathered Prod.fst d.nodes,
    ← Drawing.nodeList, filter_filterMap, map_filterMap, filter_map,
    filter_filter, ← filterMap_eq_map, ← filterMap_eq_filter,
    filterMap_filterMap]
  refine iff_of_eq (congrArg (fun l : List String => l.getLast? = some name) ?_)
  refine filterMap_congr fun x _ => ?_
  by_cases hname : Assoc.has (Text.stripOf ['"'] x.2) routines = true <;>
    by_cases hid : x.1 = id <;> simp [hname, hid, Option.guard]

lemma labels_of_standsFor {id name : String} (h : StandsFor routines d id name) :
    Labels routines d name := by
  have hmem := mem_filter.mp (mem_of_getLast? h)
  obtain ⟨x, hx, hname⟩ := mem_map.mp hmem.1
  exact ⟨⟨x, (mem_filter.mp hx).1, hname⟩, Assoc.has_iff.mp hmem.2⟩

lemma mem_drawnCalls {f g : String} :
    (f, g) ∈ drawnCalls routines d ↔ Shows routines d f g := by
  simp only [drawnCalls, mem_filterMap, Drawing.edgeList, Drawing.mem_gathered, Shows,
    ← get?_nameTable]
  constructor
  · rintro ⟨⟨a, b⟩, hmem, heq⟩
    by_cases hab : a = b
    · simp [hab] at heq
    · rw [if_neg hab] at heq
      cases ha : Assoc.get? a (nameTable routines d) with
      | none => simp [ha] at heq
      | some f' =>
        cases hb : Assoc.get? b (nameTable routines d) with
        | none => simp [ha, hb] at heq
        | some g' =>
          simp only [ha, hb, Option.some.injEq, Prod.mk.injEq] at heq
          exact ⟨a, b, hmem, hab, heq.1 ▸ ha, heq.2 ▸ hb⟩
  · rintro ⟨a, b, hmem, hab, ha, hb⟩
    refine ⟨(a, b), hmem, ?_⟩
    simp only [hab, if_false, ha, hb]

lemma drawnRoutines_eq : drawnRoutines routines d
    = (d.nodeList.filterMap fun x => (Assoc.get? (Text.stripOf ['"'] x.2) routines).map
        fun r => (Text.stripOf ['"'] x.2, r)).foldl (fun c x => c.add x.1 x.2) {} := by
  rw [foldl_filterMap, drawnRoutines]
  refine congrArg (fun step => List.foldl step ({} : Catalog Routine) d.nodeList) ?_
  funext c ⟨id, label⟩
  cases h : Assoc.get? (Text.stripOf ['"'] label) routines with
  | none => simp only [h, Option.map_none]
  | some r => simp only [h, Option.map_some]

variable (routines d) in
lemma drawnRoutines_spec : (drawnRoutines routines d).graph.edges = [] ∧
    (drawnRoutines routines d).graph.nodes.Nodup ∧
    (∀ n, n ∈ (drawnRoutines routines d).graph.nodes ↔ Labels routines d n) ∧
    ∀ n, Labels routines d n → ∀ r, Assoc.get? n routines = some r →
      (drawnRoutines routines d).get n = .ok r := by
  obtain ⟨hknown, hedges, hnodup, hnodes⟩ := Catalog.foldl_add
    (d.nodeList.filterMap fun x => (Assoc.get? (Text.stripOf ['"'] x.2) routines).map
      fun r => (Text.stripOf ['"'] x.2, r))
  rw [← drawnRoutines_eq] at hknown hedges hnodup hnodes
  have hentry : ∀ n r, (n, r) ∈ (d.nodeList.filterMap fun x =>
      (Assoc.get? (Text.stripOf ['"'] x.2) routines).map fun r => (Text.stripOf ['"'] x.2, r)) ↔
      (∃ x ∈ d.nodes, Text.stripOf ['"'] x.2 = n) ∧ Assoc.get? n routines = some r := by
    intro n r
    simp only [mem_filterMap, Drawing.nodeList, Drawing.mem_gathered, Option.map_eq_some_iff,
      Prod.mk.injEq]
    constructor
    · rintro ⟨x, hx, r', hr', rfl, rfl⟩
      exact ⟨⟨x, hx, rfl⟩, hr'⟩
    · rintro ⟨⟨x, hx, rfl⟩, hr⟩
      exact ⟨x, hx, r, hr, rfl, rfl⟩
  refine ⟨hedges, hnodup, fun n => (hnodes n).trans ?_, fun n hn r hr => ?_⟩
  · simp only [hentry, exists_and_left, Labels]
  · -- every entry under a name holds the one routine of that name
    obtain ⟨r', hr'⟩ : ∃ r', Assoc.get? n (drawnRoutines routines d).known = some r' := by
      rw [hknown, Assoc.get?_ofList, ← Option.isSome_iff_exists, getLast?_isSome]
      refine ne_nil_of_mem (mem_map_of_mem (f := Prod.snd) (a := (n, r))
        (mem_filter.mpr ⟨(hentry n r).mpr ⟨hn.1, hr⟩, ?_⟩))
      exact decide_eq_true rfl
    rw [Catalog.get_ok_iff, hr']
    rw [hknown, Assoc.get?_ofList] at hr'
    obtain ⟨⟨n', r''⟩, hmem, rfl⟩ := mem_map.mp (mem_of_getLast? hr')
    obtain ⟨hentry', hn'⟩ := mem_filter.mp hmem
    obtain rfl : n' = n := of_decide_eq_true hn'
    rw [← hr, ((hentry n' r'').mp hentry').2]

end Routines

/-! ## Records -/

section Records

variable (records : List (String × Record)) (aliases : List (String × String))

/-- A record has a field of the type of another, through at most one alias. -/
def Holds (s t : String) : Prop :=
  (∃ r, (s, r) ∈ records ∧ ∃ f ∈ r.fields,
    (Assoc.get? (typeName f.symbol) aliases).getD (typeName f.symbol) = t) ∧
  ∃ r, (t, r) ∈ records

def heldPairs : List (String × String) :=
  records.flatMap fun x => ((held aliases x.2).filter (Assoc.has · records)).map (x.1, ·)

variable {records aliases}

lemma mem_heldPairs {s t : String} :
    (s, t) ∈ heldPairs records aliases ↔ Holds records aliases s t := by
  simp only [heldPairs, mem_flatMap, mem_map, mem_filter, held, Holds, Assoc.has,
    Assoc.get?_isSome_iff, Prod.mk.injEq]
  constructor
  · rintro ⟨⟨s', r⟩, hr, t', ⟨⟨f, hf, rfl⟩, ht⟩, rfl, rfl⟩
    exact ⟨⟨r, hr, f, hf, rfl⟩, ht⟩
  · rintro ⟨⟨r, hr, f, hf, rfl⟩, ht⟩
    exact ⟨(s, r), hr, _, ⟨⟨f, hf, rfl⟩, ht⟩, rfl, rfl⟩

lemma recordGraph_eq : recordGraph records aliases
    = freed ((heldPairs records aliases).foldl Catalog.addEdge
        (records.foldl (fun c x => c.add x.1 x.2) {})) := by
  rw [heldPairs, foldl_flatMap]
  simp only [foldl_map, foldl_filter]
  rfl

end Records

/-! ## Both graphs -/

/-- There are no cycles, the given nodes and, where the ends do not lead to each other, the given
edges. -/
structure Schedulable {δ : Type} (c : Catalog δ) (node : String → Prop)
    (edge : String → String → Prop) : Prop where
  acyclic : ¬ ∃ a, TransGen c.graph.Edge a a
  nodup : c.graph.nodes.Nodup
  nodes : ∀ n, n ∈ c.graph.nodes ↔ node n
  sound : ∀ a b, c.graph.Edge a b → edge a b
  complete : ∀ a b, edge a b → ¬ Mutual edge a b → c.graph.Edge a b

lemma schedulable_freed {δ : Type} {c : Catalog δ} (hc : c.graph.edges = [])
    (hnodup : c.graph.nodes.Nodup) {node : String → Prop} (hnode : ∀ n, n ∈ c.graph.nodes ↔ node n)
    {es : List (String × String)} {edge : String → String → Prop}
    (hedge : ∀ a b, (a, b) ∈ es ↔ edge a b) (hends : ∀ a b, edge a b → node a ∧ node b) :
    Schedulable (freed (es.foldl Catalog.addEdge c)) node edge := by
  have hclosed : c.graph.Closed := by
    intro e he
    rw [hc] at he
    cases he
  obtain ⟨-, hnodes, hclosed', hedges⟩ := Catalog.foldl_addEdge c hclosed es fun e he => by
    obtain ⟨h1, h2⟩ := hends e.1 e.2 ((hedge e.1 e.2).mp he)
    exact ⟨(hnode _).mpr h1, (hnode _).mpr h2⟩
  have hsame : (es.foldl Catalog.addEdge c).graph.Edge = edge := by
    funext a b
    rw [eq_iff_iff, hedges, Digraph.Edge, hc, hedge]
    simp
  have hfreed := Digraph.freed_acyclic hclosed'
  rw [freed]
  refine ⟨hfreed.acyclic, ?_, fun n => ?_, fun a b hab => ?_, fun a b hab hno => ?_⟩
  · rw [hfreed.nodes, hnodes]
    exact hnodup
  · rw [hfreed.nodes, hnodes, hnode]
  · exact hsame ▸ hfreed.edges a b hab
  · exact hfreed.kept a b (hsame ▸ hab) (hsame ▸ hno)

/-- **The graphs of a compiler's facts can be worked off in order**, and are complete up to cycles:
the call graph has the routines that a drawing labels, each with its definition, and the calls that
it shows; the graph of records has the records and what they hold. -/
theorem graphs_schedulable (routines : List (String × Routine)) (d : Drawing)
    (records : List (String × Record)) (aliases : List (String × String)) :
    (Schedulable (callGraph routines d) (Labels routines d) (Shows routines d) ∧
      ∀ n ∈ (callGraph routines d).graph.nodes, ∃ r, Assoc.get? n routines = some r ∧
        (callGraph routines d).get n = .ok r) ∧
    Schedulable (recordGraph records aliases) (fun n => ∃ r, (n, r) ∈ records)
      (Holds records aliases) := by
  obtain ⟨hedges, hnodup, hnodes, hget⟩ := drawnRoutines_spec routines d
  have hends : ∀ f g, Shows routines d f g → Labels routines d f ∧ Labels routines d g := by
    rintro f g ⟨a, b, -, -, ha, hb⟩
    exact ⟨labels_of_standsFor ha, labels_of_standsFor hb⟩
  have hmem : ∀ f g, (f, g) ∈ drawnCalls routines d ↔ Shows routines d f g :=
    fun f g => mem_drawnCalls
  have hcalls := schedulable_freed hedges hnodup hnodes hmem hends
  refine ⟨⟨hcalls, fun n hn => ?_⟩, ?_⟩
  · have hlabel := (hcalls.nodes n).mp hn
    obtain ⟨r, hr⟩ := hlabel.2
    refine ⟨r, hr, ?_⟩
    have hknown : (callGraph routines d).known = (drawnRoutines routines d).known := by
      refine (Catalog.foldl_addEdge _ ?_ _ fun e he => ?_).1
      · intro e he
        rw [hedges] at he
        cases he
      · obtain ⟨h1, h2⟩ := hends e.1 e.2 (mem_drawnCalls.mp he)
        exact ⟨(hnodes _).mpr h1, (hnodes _).mpr h2⟩
    rw [Catalog.get_ok_iff, hknown, ← Catalog.get_ok_iff]
    exact hget n hlabel r hr
  · obtain ⟨-, hedges, hnodup, hnodes⟩ := Catalog.foldl_add records
    rw [recordGraph_eq]
    refine schedulable_freed hedges hnodup hnodes (fun s t => mem_heldPairs) ?_
    rintro s t ⟨⟨r, hr, -⟩, ht⟩
    exact ⟨⟨r, hr⟩, ht⟩

end Facts

end Docsmith
