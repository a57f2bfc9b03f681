import Docsmith.Calls.Routines
import Docsmith.Proofs.Dispatch
import Docsmith.Proofs.Settling
import Docsmith.Proofs.Visits

/-! # The catalog of an analysis

The catalog of a state has a node for every routine in the table, with the code and the file that
its symbol gives, and an edge for every use of one routine by another of a different name
(`does_catalog`). -/

namespace Docsmith.Calls

open Rules List

variable {folder : Folder} {top : String} {s₀ : State} {fails : Fault → Prop}

/-! ## One routine -/

structure Describes (folder : Folder) (top : String) (x : Symbol) (r : Routine) : Prop where
  symbol : r.symbol = x.fullName
  file : r.file = Text.stripOf ['/'] (Text.dropStart top (x.file.getD "None"))
  code : ∃ text, folder.readText (x.file.getD "None") = .ok text ∧
    r.code = ((x.origin.bind (·.span)).map (·.cut (Text.keepLines text))).getD ""

def listing (s₀ : State) (fails : Fault → Prop) : Rules State where
  fit := Unmoved s₀
  leads := fun _ _ => True
  fails := fails
  refl := fun _ => trivial
  trans := fun _ _ => trivial

lemma Unmoved.isFunction {s s' : State} (h : Unmoved s s') (id : Id) :
    (s'.symbol id).isFunction = (s.symbol id).isFunction := by
  rcases Nat.lt_or_ge id s.symbols.size with hlt | hge
  · obtain ⟨flavor, heq, -⟩ := h.symbol id hlt
    rw [heq]
    rfl
  · rw [Symbol.isFunction_eq, h.fresh id hge, Bool.and_false, State.symbol_of_size_le hge]
    rfl

lemma does_listing {α : Type} {x : Visit α} (h : Leads Unmoved x) :
    (listing s₀ fun _ => True).Does (fun _ => True) x fun _ _ => True := by
  intro s hs _
  rcases hrun : x.run.run s with ⟨r, s'⟩
  have hunmoved := h s
  rw [hrun] at hunmoved
  exact ⟨r, s', rfl, Unmoved.trans hs hunmoved, trivial, fun _ _ => trivial, fun _ _ => trivial⟩

lemma leads_isVisible (id : Id) : Leads Unmoved (isVisible id) := by
  refine (leads_symbolOf id).bind fun x => ?_
  split
  · exact leads_pure _
  · exact (leads_parentOf id).bind fun outer => (leads_symbolOf outer).bind fun _ => leads_pure _

lemma does_lift {T : Rules State} {pre : State → Prop} {α : Type} {result : Except Fault α}
    (h : ∀ e, result = .error e → T.fails e) :
    T.Does pre (lift result) fun a s => result = .ok a ∧ pre s := by
  cases result with
  | error e => exact does_throw (h e rfl)
  | ok a => exact does_pure fun _ _ hs => ⟨rfl, hs⟩

lemma does_routineSymbol {id : Id} (hid : (s₀.symbol id).isFunction = true) :
    (listing s₀ fails).Does (fun _ => True) (symbolOf id) fun x _ =>
      x.isFunction = true ∧ x.fullName = (s₀.symbol id).fullName ∧ x.file = (s₀.symbol id).file ∧
        x.origin = (s₀.symbol id).origin := by
  refine (does_symbolOf id).gives fun x s hs hx => ?_
  obtain ⟨flavor, heq, -⟩ := Unmoved.symbol hs id (State.lt_of_isFunction hid)
  rw [hx.1, heq]
  exact ⟨hid, rfl, rfl, rfl⟩

lemma does_otherSymbol {id : Id} (hid : (s₀.symbol id).isFunction ≠ true) :
    (listing s₀ fails).Does (fun _ => True) (symbolOf id) fun x _ => x.isFunction = false := by
  refine (does_symbolOf id).gives fun x s hs hx => ?_
  rw [hx.1, Unmoved.isFunction hs]
  exact Bool.eq_false_iff.mpr hid

lemma does_routineOf {id : Id} (hid : (s₀.symbol id).isFunction = true)
    (hvisible : (listing s₀ fails).Does (fun _ => True) (isVisible id) fun _ _ => True)
    (hread : ∀ e, folder.readText ((s₀.symbol id).file.getD "None") = .error e → fails e) :
    (listing s₀ fails).Does (fun _ => True) (routineOf folder top id)
      fun r _ => Describes folder top (s₀.symbol id) r := by
  refine hvisible.bind fun visible => (does_routineSymbol hid).bind_fact fun x hx => ?_
  obtain ⟨-, hname, hfile, horigin⟩ := hx
  rw [hname, hfile, horigin]
  refine (does_lift hread).bind fun text => does_pure fun s _ htext => ?_
  refine ⟨rfl, rfl, text, htext.1, ?_⟩
  dsimp only
  cases (s₀.symbol id).origin.bind (·.span) with
  | none | some span => rfl

/-! ## The catalog -/

structure Lists (folder : Folder) (top : String) (s₀ : State) (c : Catalog Routine) : Prop where
  described : ∀ n ∈ c.graph.nodes, ∃ id r, (s₀.symbol id).isFunction = true ∧
    (s₀.symbol id).fullName = n ∧ c.get n = .ok r ∧ Describes folder top (s₀.symbol id) r
  closed : c.graph.Closed
  nodup : c.graph.nodes.Nodup

def State.Invokes (s : State) (source target : Id) (e : String × String) : Prop :=
  (s.symbol source).isFunction = true ∧ (s.symbol target).isFunction = true ∧
    (s.symbol target).fullName ≠ (s.symbol source).fullName ∧
    e = ((s.symbol source).fullName, (s.symbol target).fullName)

section Catalog

variable {c : Catalog Routine} {id : Id}

lemma Lists.add (h : Lists folder top s₀ c) {r : Routine} (hid : (s₀.symbol id).isFunction = true)
    (hr : Describes folder top (s₀.symbol id) r) : Lists folder top s₀ (c.add r.symbol r) where
  described := by
    intro n hn
    by_cases hname : n = r.symbol
    · refine ⟨id, r, hid, hr.symbol.symm.trans hname.symm, ?_, hr⟩
      rw [Catalog.get, Catalog.add, Assoc.get?_set, if_pos hname]
    · obtain ⟨i, r', hi, hfull, hr', hdescribes⟩ :=
        h.described n ((Digraph.mem_nodes_addNode.mp hn).resolve_right hname)
      refine ⟨i, r', hi, hfull, ?_, hdescribes⟩
      rwa [Catalog.get, Catalog.add, Assoc.get?_set, if_neg hname]
  closed := h.closed.addNode r.symbol
  nodup := Digraph.nodup_addNode h.nodup r.symbol

lemma nodes_addEdge_of_mem {e : String × String} (h₁ : e.1 ∈ c.graph.nodes)
    (h₂ : e.2 ∈ c.graph.nodes) : (c.addEdge e).graph.nodes = c.graph.nodes := by
  rw [Catalog.addEdge, Digraph.nodes_addEdge, Digraph.addNode, Digraph.addNode, if_pos h₁, if_pos h₂]

structure Grown (folder : Folder) (top : String) (s₀ : State) (c c' : Catalog Routine)
    (new : String × String → Prop) : Prop where
  lists : Lists folder top s₀ c'
  nodes : ∀ n ∈ c.graph.nodes, n ∈ c'.graph.nodes
  edges : ∀ e, e ∈ c'.graph.edges ↔ e ∈ c.graph.edges ∨ new e

lemma Grown.trans {c' c'' : Catalog Routine} {new new' : String × String → Prop}
    (h : Grown folder top s₀ c c' new) (h' : Grown folder top s₀ c' c'' new') :
    Grown folder top s₀ c c'' fun e => new e ∨ new' e where
  lists := h'.lists
  nodes := fun n hn => h'.nodes n (h.nodes n hn)
  edges := fun e => by rw [h'.edges, h.edges, or_assoc]

lemma Grown.congr {c' : Catalog Routine} {new new' : String × String → Prop}
    (h : Grown folder top s₀ c c' new) (hnew : ∀ e, new e ↔ new' e) :
    Grown folder top s₀ c c' new' :=
  ⟨h.lists, h.nodes, fun e => (h.edges e).trans (or_congr_right (hnew e))⟩

lemma Lists.grown (h : Lists folder top s₀ c) {e : String × String} (h₁ : e.1 ∈ c.graph.nodes)
    (h₂ : e.2 ∈ c.graph.nodes) : Grown folder top s₀ c (c.addEdge e) (· = e) := by
  have hnodes := nodes_addEdge_of_mem h₁ h₂
  refine ⟨⟨?_, h.closed.addEdge e, ?_⟩, ?_, fun _ => Digraph.mem_edges_addEdge⟩
  · rw [hnodes]
    exact h.described
  · rw [hnodes]
    exact h.nodup
  · rw [hnodes]
    exact fun _ hn => hn

variable (hroutine : ∀ id, (s₀.symbol id).isFunction = true →
  (listing s₀ fails).Does (fun _ => True) (routineOf folder top id)
    fun r _ => Describes folder top (s₀.symbol id) r)

include hroutine

lemma does_addRoutine (h : Lists folder top s₀ c) (hid : (s₀.symbol id).isFunction = true) :
    (listing s₀ fails).Does (fun _ => True) (addRoutine folder top c id) fun c' _ =>
      Grown folder top s₀ c c' (fun _ => False) ∧ (s₀.symbol id).fullName ∈ c'.graph.nodes := by
  refine (hroutine id hid).bind fun r => does_pure fun s _ hr => ⟨⟨h.add hid hr, ?_, ?_⟩, ?_⟩
  · exact fun m hm => Digraph.mem_nodes_addNode.mpr (Or.inl hm)
  · intro e
    rw [or_false]
    exact Iff.of_eq (congrArg (e ∈ ·) (Digraph.edges_addNode _ _))
  · exact Digraph.mem_nodes_addNode.mpr (Or.inr hr.symbol.symm)

lemma does_ensureRoutine (h : Lists folder top s₀ c) (hid : (s₀.symbol id).isFunction = true) :
    (listing s₀ fails).Does (fun _ => True) (ensureRoutine folder top c id) fun c' _ =>
      Grown folder top s₀ c c' (fun _ => False) ∧ (s₀.symbol id).fullName ∈ c'.graph.nodes := by
  refine (does_routineSymbol hid).bind_fact fun x hx => ?_
  rw [hx.2.1]
  split
  · rename_i hmem
    refine does_pure fun _ _ _ => ⟨⟨h, fun _ hm => hm, fun e => ?_⟩, contains_iff_mem.mp hmem⟩
    rw [or_false]
  · exact does_addRoutine hroutine h hid

lemma does_addCalls (h : Lists folder top s₀ c) {source : Id}
    (hsource : (s₀.symbol source).isFunction = true) (targets : List Id) :
    (listing s₀ fails).Does (fun _ => True) (addCalls folder top c source targets) fun c' _ =>
      Grown folder top s₀ c c' fun e => ∃ t ∈ targets, s₀.Invokes source t e := by
  refine (does_routineSymbol hsource).bind_fact fun x hx => ?_
  rw [hx.2.1]
  refine (does_ensureRoutine hroutine h hsource).bind_fact fun c₁ hc₁ => ?_
  -- the calls to the targets that are done have been added
  let inv (done : List Id) (c' : Catalog Routine) : Prop :=
    Grown folder top s₀ c₁ c' fun e => ∃ t ∈ done, s₀.Invokes source t e
  have hstart : inv [] c₁ := ⟨hc₁.1.lists, fun _ hm => hm, fun e => by simp⟩
  refine (does_foldlM inv (fun done c' t _ hc' => ?_) hstart).gives ?_
  · have hnone : (∀ e, ¬ s₀.Invokes source t e) → inv (done ++ [t]) c' := fun hno =>
      hc'.congr fun e => by simp [hno e]
    by_cases ht : (s₀.symbol t).isFunction = true
    · refine (does_routineSymbol ht).bind_fact fun x hx => ?_
      rw [hx.1, hx.2.1, Bool.true_and]
      by_cases hname : (s₀.symbol t).fullName = (s₀.symbol source).fullName
      · rw [if_neg (by simp [hname])]
        exact does_pure fun _ _ _ => hnone fun e he => he.2.2.1 hname
      · rw [if_pos (by simp [hname])]
        refine (does_ensureRoutine hroutine hc'.lists ht).bind_fact fun c₂ hc₂ => ?_
        have hedge := hc₂.1.lists.grown (e := ((s₀.symbol source).fullName, (s₀.symbol t).fullName))
          (hc₂.1.nodes _ (hc'.nodes _ hc₁.2)) hc₂.2
        refine does_pure fun _ _ _ => (hc'.trans (hc₂.1.trans hedge)).congr fun e => ?_
        have hcall : s₀.Invokes source t e
            ↔ e = ((s₀.symbol source).fullName, (s₀.symbol t).fullName) :=
          ⟨fun h => h.2.2.2, fun h => ⟨hsource, ht, hname, h⟩⟩
        simp [hcall, or_and_right, exists_or]
    · refine (does_otherSymbol ht).bind_fact fun x hx => ?_
      rw [hx]
      exact does_pure fun _ _ _ => hnone fun e he => ht he.2.1
  · intro c' _ _ hc'
    exact (hc₁.1.trans hc').congr fun e => by simp

omit hroutine in
lemma lists_empty : Lists folder top s₀ {} where
  described := fun _ hn => absurd hn not_mem_nil
  closed := fun _ he => absurd he not_mem_nil
  nodup := nodup_nil

structure Catalogs (folder : Folder) (top : String) (s₀ : State) (c : Catalog Routine) : Prop where
  lists : Lists folder top s₀ c
  nodes : ∀ id ∈ s₀.table.flatMap Prod.snd, (s₀.symbol id).isFunction = true →
    (s₀.symbol id).fullName ∈ c.graph.nodes
  edges : ∀ e, e ∈ c.graph.edges ↔ ∃ u ∈ s₀.uses, ∃ t ∈ u.2, s₀.Invokes u.1 t e

lemma does_catalog : (listing s₀ fails).Does (· = s₀) (catalog folder top)
    fun c _ => Catalogs folder top s₀ c := by
  have hget : (listing s₀ fails).Does (· = s₀) (get : Visit State) fun s _ => s = s₀ :=
    does_get.gives fun _ _ _ h => h.1.trans h.2
  refine hget.bind_fact fun s hs => ?_
  subst hs
  -- the routines of the table, and then the uses one after the other
  let named (done : List Id) (c : Catalog Routine) : Prop :=
    Grown folder top s {} c (fun _ => False) ∧ ∀ id ∈ done, (s.symbol id).fullName ∈ c.graph.nodes
  have hempty : named [] {} :=
    ⟨⟨lists_empty, fun _ hm => hm, fun _ => by simp⟩, fun _ hm => absurd hm not_mem_nil⟩
  refine (does_foldlM named (fun done c id hid hc => ?_) hempty).bind_fact fun c hc => ?_
  · have hadd := does_addRoutine hroutine hc.1.lists (mem_filter.mp hid).2
    refine hadd.gives fun c' _ _ hc' => ⟨?_, fun i hi => ?_⟩
    · exact (hc.1.trans hc'.1).congr fun _ => or_self_iff
    · rcases mem_append.mp hi with hi | hi
      · exact hc'.1.nodes _ (hc.2 i hi)
      · exact mem_singleton.mp hi ▸ hc'.2
  · let used (done : List (Id × List Id)) (c' : Catalog Routine) : Prop :=
      Grown folder top s c c' fun e => ∃ u ∈ done, ∃ t ∈ u.2, s.Invokes u.1 t e
    have hstart : used [] c := ⟨hc.1.lists, fun _ hm => hm, fun _ => by simp⟩
    refine (does_foldlM used (fun done c' u _ hc' => ?_) hstart).gives ?_
    · obtain ⟨source, targets⟩ := u
      dsimp only
      split
      · rename_i hsource
        refine (does_addCalls hroutine hc'.lists hsource targets).gives ?_
        exact fun c'' _ _ hc'' => (hc'.trans hc'').congr fun e => by simp [or_and_right, exists_or]
      · rename_i hsource
        refine does_pure fun _ _ _ => hc'.congr fun e => ?_
        simp [or_and_right, exists_or, State.Invokes, hsource]
    · intro c' _ _ hc'
      refine ⟨hc'.lists, fun id hid hroutine => hc'.nodes _ (hc.2 id ?_), fun e => ?_⟩
      · exact mem_filter.mpr ⟨hid, hroutine⟩
      · rw [hc'.edges, hc.1.edges]
        simp

end Catalog

/-! ## The call graph -/

lemma analyse_ok_iff {p : Program} {files : List String} {s : State} :
    analyse p files none = .ok s ↔ ∃ s₃, p.Visited files s₃ ∧ settle.run.run s₃ = (.ok (), s) := by
  rw [analyse]
  cases hstart : start p files none with
  | error e => simp [bind, Except.bind, Program.Visited, hstart]
  | ok s₀ =>
    simp only [bind, Except.bind]
    constructor
    · intro h
      split at h
      · rename_i s' hrun
        obtain ⟨⟨⟩, s₁, h₁, hrun⟩ := run_bind_ok.mp hrun
        obtain ⟨⟨⟩, s₂, h₂, hrun⟩ := run_bind_ok.mp hrun
        obtain ⟨⟨⟩, s₃, h₃, hrun⟩ := run_bind_ok.mp hrun
        exact ⟨s₃, ⟨s₀, s₁, s₂, hstart, h₁, h₂, h₃⟩, Except.ok.inj h ▸ hrun⟩
      · cases h
    · rintro ⟨s₃, ⟨s₀', s₁, s₂, hs₀, h₁, h₂, h₃⟩, hrun⟩
      obtain rfl := Except.ok.inj (hstart.symm.trans hs₀)
      have hsteps : (do
          files.forM (visitFile p)
          findLines
          files.forM (visitFile p)
          settle : Visit Unit).run.run s₀ = (.ok (), s) := by
        rw [run_bind_of_ok h₁, run_bind_of_ok h₂, run_bind_of_ok h₃, hrun]
      simp only [bind] at hsteps
      rw [hsteps]

lemma callGraph_eq {p : Program} {top : String} {files : List String}
    (hfiles : programs p.folder top = .ok files) :
    callGraph p top = (analyse p files none >>= fun s => ((catalog p.folder top).run.run s).1).map
      fun c : Catalog Routine => { c with graph := c.graph.acyclic } := by
  rw [callGraph, hfiles]
  cases hs : analyse p files none with
  | error e => simp [bind, Except.bind, Except.map, hs]
  | ok s =>
    simp only [bind, Except.bind, hs]
    cases ((catalog p.folder top).run.run s).1 with
    | error e | ok c => rfl

lemma callGraph_of_catalog {p : Program} {top : String} {files : List String} {g : Digraph String}
    {known : List (String × Routine)} (hfiles : programs p.folder top = .ok files)
    (h : (analyse p files none >>= fun s => ((catalog p.folder top).run.run s).1).toOption.map
      (fun c => (c.graph.nodes, c.graph.edges, c.known)) = some (g.nodes, g.edges, known)) :
    callGraph p top = .ok { graph := g.acyclic, known } := by
  rw [callGraph_eq hfiles]
  cases hc : analyse p files none >>= fun s => ((catalog p.folder top).run.run s).1 with
  | error e =>
    rw [hc] at h
    cases h
  | ok c =>
    rw [hc] at h
    obtain ⟨hnodes, hrest⟩ := Prod.mk.inj (Option.some.inj h)
    obtain ⟨hedges, rfl⟩ := Prod.mk.inj hrest
    have hgraph : c.graph = g := congrArg₂ Digraph.mk hnodes hedges
    rw [← hgraph]
    rfl

lemma callGraph_ok_iff {p : Program} {top : String} {c : Catalog Routine} :
    callGraph p top = .ok c ↔ ∃ files s c₀, programs p.folder top = .ok files ∧
      analyse p files none = .ok s ∧ ((catalog p.folder top).run.run s).1 = .ok c₀ ∧
      c = { c₀ with graph := c₀.graph.acyclic } := by
  cases hfiles : programs p.folder top with
  | error e => simp [callGraph, hfiles, bind, Except.bind]
  | ok files =>
    rw [callGraph_eq hfiles]
    cases hs : analyse p files none with
    | error e => simp [bind, Except.bind, Except.map, hs]
    | ok s =>
      cases hc : ((catalog p.folder top).run.run s).1 with
      | error e => simp [bind, Except.bind, Except.map, hs, hc]
      | ok c₀ => simp [bind, Except.bind, Except.map, hs, hc, eq_comm]

end Docsmith.Calls
