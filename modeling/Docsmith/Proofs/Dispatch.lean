import Docsmith.Proofs.Heights
import Docsmith.Schedule

/-! # What a schedule runs

The tasks of a schedule run level by level, and a failure ends the schedule after the level in which
it occurs. So no task runs before all that it depends on, what has run is everything up to the level
of the first failure, and with a cycle nothing runs at all. Inside a level the tasks may run in any
order: `Schedule.Runs` relates a graph to all outcomes, and `Schedule.Orderly` collects what holds
of every one of them. -/

namespace Docsmith

open List

/-! ## Graphs of tasks -/

namespace Digraph

variable {α : Type} [DecidableEq α]

variable {g : Digraph α}

@[simp] lemma mem_nodes_addNode {n a : α} : a ∈ (g.addNode n).nodes ↔ a ∈ g.nodes ∨ a = n := by
  by_cases h : n ∈ g.nodes
  · rw [addNode, if_pos h]
    constructor
    · exact Or.inl
    · rintro (ha | rfl)
      · exact ha
      · exact h
  · rw [addNode, if_neg h]
    simp

@[simp] lemma edges_addNode (g : Digraph α) (n : α) : (g.addNode n).edges = g.edges := by
  by_cases h : n ∈ g.nodes
  · rw [addNode, if_pos h]
  · rw [addNode, if_neg h]

@[simp] lemma nodes_addEdge (g : Digraph α) (e : α × α) :
    (g.addEdge e).nodes = ((g.addNode e.1).addNode e.2).nodes := by
  by_cases h : e ∈ ((g.addNode e.1).addNode e.2).edges
  · rw [addEdge, if_pos h]
  · rw [addEdge, if_neg h]

@[simp] lemma mem_edges_addEdge {e d : α × α} :
    d ∈ (g.addEdge e).edges ↔ d ∈ g.edges ∨ d = e := by
  by_cases h : e ∈ ((g.addNode e.1).addNode e.2).edges
  · rw [addEdge, if_pos h, edges_addNode, edges_addNode]
    rw [edges_addNode, edges_addNode] at h
    constructor
    · exact Or.inl
    · rintro (hd | rfl)
      · exact hd
      · exact h
  · rw [addEdge, if_neg h]
    simp

lemma nodup_addNode (hg : g.nodes.Nodup) (n : α) : (g.addNode n).nodes.Nodup := by
  by_cases h : n ∈ g.nodes
  · rw [addNode, if_pos h]
    exact hg
  · rw [addNode, if_neg h]
    exact nodup_append.mpr ⟨hg, nodup_singleton n, fun a ha b hb hab => by
      rw [mem_singleton] at hb
      exact h (hb ▸ hab ▸ ha)⟩

lemma Closed.addNode (hg : g.Closed) (n : α) : (g.addNode n).Closed := by
  intro e he
  rw [edges_addNode] at he
  obtain ⟨h1, h2⟩ := hg e he
  exact ⟨mem_nodes_addNode.mpr (Or.inl h1), mem_nodes_addNode.mpr (Or.inl h2)⟩

lemma Closed.addEdge (hg : g.Closed) (e : α × α) : (g.addEdge e).Closed := by
  intro d hd
  rw [nodes_addEdge]
  rcases mem_edges_addEdge.mp hd with hd | rfl
  · exact ((hg.addNode e.1).addNode e.2) d (by rwa [edges_addNode, edges_addNode])
  · simp

end Digraph

namespace Schedule

variable {α : Type} [DecidableEq α]

/-- The first task of the list names the second among its dependencies. -/
def Needs (jobs : List (Job α)) (a b : α) : Prop :=
  ∃ job ∈ jobs, job.key = a ∧ b ∈ job.dependencies.getD []

def Involved (jobs : List (Job α)) (a : α) : Prop :=
  (∃ job ∈ jobs, job.key = a) ∨ ∃ b, Needs jobs b a

structure Added (g : Digraph α) (job : Job α) (deps : List α) (g' : Digraph α) : Prop where
  nodes : ∀ a, a ∈ g'.nodes ↔ a ∈ g.nodes ∨ a = job.key ∨ a ∈ deps
  edges : ∀ a b, (a, b) ∈ g'.edges ↔ (a, b) ∈ g.edges ∨ (a = job.key ∧ b ∈ deps)
  nodup : g.nodes.Nodup → g'.nodes.Nodup
  closed : g.Closed → g'.Closed

lemma added_addEdges (g : Digraph α) (job : Job α) (deps : List α)
    (hkey : job.key ∈ g.nodes) :
    Added g job deps (deps.foldl (fun g dep => g.addEdge (job.key, dep)) g) := by
  induction deps generalizing g with
  | nil =>
    refine ⟨fun a => ?_, fun a b => by simp, id, id⟩
    constructor
    · exact Or.inl
    · rintro (h | rfl | h)
      · exact h
      · exact hkey
      · exact nomatch h
  | cons dep deps ih =>
    rw [foldl_cons]
    have h := ih (g.addEdge (job.key, dep)) (by simp)
    refine ⟨fun a => ?_, fun a b => ?_, fun hg => ?_, fun hg => h.closed (hg.addEdge _)⟩
    · rw [h.nodes]
      simp only [Digraph.nodes_addEdge, Digraph.mem_nodes_addNode, mem_cons]
      tauto
    · rw [h.edges]
      simp only [Digraph.mem_edges_addEdge, Prod.mk.injEq, mem_cons]
      tauto
    · refine h.nodup ?_
      rw [Digraph.nodes_addEdge]
      exact Digraph.nodup_addNode (Digraph.nodup_addNode hg _) _

lemma added_add (g : Digraph α) (job : Job α) :
    Added g job (job.dependencies.getD []) (add g job) := by
  have h := added_addEdges (g.addNode job.key) job (job.dependencies.getD []) (by simp)
  refine ⟨fun a => ?_, fun a b => ?_, fun hg => ?_, fun hg => h.closed (hg.addNode _)⟩
  · rw [add, h.nodes, Digraph.mem_nodes_addNode]
    tauto
  · rw [add, h.edges, Digraph.edges_addNode]
  · exact h.nodup (Digraph.nodup_addNode hg _)

omit [DecidableEq α] in
lemma needs_cons {job : Job α} {jobs : List (Job α)} {a b : α} :
    Needs (job :: jobs) a b ↔ (a = job.key ∧ b ∈ job.dependencies.getD []) ∨ Needs jobs a b := by
  simp only [Needs, mem_cons, exists_eq_or_imp, eq_comm (a := a)]

omit [DecidableEq α] in
lemma involved_cons {job : Job α} {jobs : List (Job α)} {a : α} :
    Involved (job :: jobs) a ↔
      a = job.key ∨ a ∈ job.dependencies.getD [] ∨ Involved jobs a := by
  simp only [Involved, needs_cons, mem_cons, exists_eq_or_imp, exists_or,
    exists_eq_left]
  exact ⟨by rintro ((h | h) | (h | h)) <;> simp [h], by rintro (h | h | h | h) <;> simp [h]⟩

variable (jobs : List (Job α))

lemma foldl_add (g : Digraph α) :
    (∀ a, a ∈ (jobs.foldl add g).nodes ↔ a ∈ g.nodes ∨ Involved jobs a) ∧
      (∀ a b, (a, b) ∈ (jobs.foldl add g).edges ↔ (a, b) ∈ g.edges ∨ Needs jobs a b) ∧
      (g.nodes.Nodup → (jobs.foldl add g).nodes.Nodup) ∧
      (g.Closed → (jobs.foldl add g).Closed) := by
  induction jobs generalizing g with
  | nil => simp [Involved, Needs]
  | cons job jobs ih =>
    obtain ⟨hnodes, hedges, hnodup, hclosed⟩ := ih (add g job)
    have hadd := added_add g job
    rw [foldl_cons]
    refine ⟨fun a => ?_, fun a b => ?_, fun hg => hnodup (hadd.nodup hg),
      fun hg => hclosed (hadd.closed hg)⟩
    · rw [hnodes, hadd.nodes]
      rw [involved_cons]
      tauto
    · rw [hedges, hadd.edges, needs_cons]
      tauto

lemma mem_nodes_ofJobs {jobs : List (Job α)} {a : α} :
    a ∈ (ofJobs jobs).nodes ↔ Involved jobs a := by
  rw [ofJobs, (foldl_add jobs {}).1]
  exact or_iff_right not_mem_nil

lemma edge_ofJobs : (ofJobs jobs).Edge = Needs jobs := by
  funext a b
  refine propext ?_
  rw [Digraph.Edge, ofJobs, (foldl_add jobs {}).2.1]
  exact or_iff_right not_mem_nil

lemma nodup_ofJobs : (ofJobs jobs).nodes.Nodup :=
  (foldl_add jobs {}).2.2.1 nodup_nil

lemma closed_ofJobs : (ofJobs jobs).Closed :=
  (foldl_add jobs {}).2.2.2 (fun _ he => nomatch he)

variable {g : Digraph α}

lemma needs_jobsOf {a b : α} : Needs (jobsOf g) a b ↔ a ∈ g.nodes ∧ b ∈ g.successors a := by
  simp only [Needs, jobsOf, mem_map]
  constructor
  · rintro ⟨job, ⟨n, hn, rfl⟩, rfl, hb⟩
    exact ⟨hn, hb⟩
  · rintro ⟨ha, hb⟩
    exact ⟨_, ⟨a, ha, rfl⟩, rfl, hb⟩

lemma involved_jobsOf {a : α} :
    Involved (jobsOf g) a ↔ a ∈ g.nodes ∨ ∃ n ∈ g.nodes, a ∈ g.successors n := by
  simp only [Involved, needs_jobsOf]
  refine or_congr ?_ Iff.rfl
  simp only [jobsOf, mem_map]
  constructor
  · rintro ⟨job, ⟨n, hn, rfl⟩, rfl⟩
    exact hn
  · intro ha
    exact ⟨_, ⟨a, ha, rfl⟩, rfl⟩

lemma mem_nodes_jobsOf (hg : g.Closed) {a : α} : a ∈ (ofJobs (jobsOf g)).nodes ↔ a ∈ g.nodes := by
  rw [mem_nodes_ofJobs, involved_jobsOf]
  constructor
  · rintro (ha | ⟨n, -, ha⟩)
    · exact ha
    · exact (hg _ (Digraph.mem_successors.mp ha)).2
  · exact Or.inl

lemma edge_jobsOf (hg : g.Closed) : (ofJobs (jobsOf g)).Edge = g.Edge := by
  rw [edge_ofJobs]
  funext a b
  refine propext ?_
  rw [needs_jobsOf, Digraph.mem_successors]
  exact ⟨And.right, fun hab => ⟨(hg _ hab).1, hab⟩⟩

end Schedule

/-! ## Runs in any order -/

namespace Schedule

section Traces

variable {α σ : Type}

/-- A task that also notes that it runs, and the state that it starts in. -/
def traced (work : α → σ → Except Fault Unit × σ) (a : α) (s : List (α × σ) × σ) :
    Except Fault Unit × (List (α × σ) × σ) :=
  ((work a s.2).1, (s.1 ++ [(a, s.2)], (work a s.2).2))

variable (work : α → σ → Except Fault Unit × σ)

lemma runGroup_traced (group : List α) (t : List (α × σ)) (s : σ) :
    (runGroup (traced work) group (t, s)).1 = (runGroup work group s).1 ∧
      (runGroup (traced work) group (t, s)).2.2 = (runGroup work group s).2 := by
  induction group generalizing t s with
  | nil => exact ⟨rfl, rfl⟩
  | cons a rest ih =>
    obtain ⟨h1, h2⟩ := ih (t ++ [(a, s)]) (work a s).2
    simp only [runGroup, traced]
    cases hwork : (work a s).1 with
    | ok u => exact ⟨h1, h2⟩
    | error f => exact ⟨rfl, h2⟩

lemma runGroups_traced (groups : List (List α)) (t : List (α × σ)) (s : σ) :
    ((runGroups (traced work) groups (t, s)).1, (runGroups (traced work) groups (t, s)).2.2)
      = runGroups work groups s := by
  induction groups generalizing t s with
  | nil => rfl
  | cons group rest ih =>
    obtain ⟨h1, h2⟩ := runGroup_traced work group t s
    rcases hrun : runGroup (traced work) group (t, s) with ⟨outcome, t', s'⟩
    rcases hplain : runGroup work group s with ⟨outcome', s''⟩
    rw [hrun, hplain] at h1 h2
    obtain rfl : outcome = outcome' := h1
    obtain rfl : s' = s'' := h2
    simp only [runGroups, hrun, hplain]
    cases outcome with
    | none => exact ih t' s'
    | some f => rfl

lemma runGroup_cons (a : α) (rest : List α) (s : σ) :
    (runGroup work (a :: rest) s).2 = (runGroup work rest (work a s).2).2 ∧
      ((runGroup work (a :: rest) s).1 = none ↔
        (work a s).1 = .ok () ∧ (runGroup work rest (work a s).2).1 = none) := by
  simp only [runGroup]
  cases (work a s).1 with
  | ok u | error f => simp

lemma prefix_runGroup (group : List α) (s : List (α × σ) × σ) :
    s.1 <+: (runGroup (traced work) group s).2.1 := by
  induction group generalizing s with
  | nil => exact prefix_rfl
  | cons a rest ih =>
    rw [(runGroup_cons (traced work) a rest s).1]
    exact (prefix_append s.1 _).trans (ih (traced work a s).2)

lemma prefix_runGroups (groups : List (List α)) (s : List (α × σ) × σ) :
    s.1 <+: (runGroups (traced work) groups s).2.1 := by
  induction groups generalizing s with
  | nil => exact prefix_rfl
  | cons group rest ih =>
    have hgroup := prefix_runGroup work group s
    rw [runGroups]
    rcases hrun : runGroup (traced work) group s with ⟨outcome, s'⟩
    rw [hrun] at hgroup
    cases outcome with
    | none => exact hgroup.trans (ih s')
    | some f => exact hgroup

lemma runGroup_trace (group : List α) (s : List (α × σ) × σ) :
    (runGroup (traced work) group s).2.1.map Prod.fst = s.1.map Prod.fst ++ group := by
  induction group generalizing s with
  | nil => simp [runGroup]
  | cons a rest ih =>
    simp only [runGroup]
    have h := ih (traced work a s).2
    cases hwork : (traced work a s).1 with
    | ok u | error f => simpa [traced] using h

lemma runGroup_eq_none_iff {work : α → σ → Except Fault Unit × σ} {failing : Set α}
    (hwork : ∀ a s, (work a s).1 = .ok () ↔ a ∉ failing) (group : List α) (s : σ) :
    (runGroup work group s).1 = none ↔ ∀ a ∈ group, a ∉ failing := by
  induction group generalizing s with
  | nil => simp [runGroup]
  | cons a rest ih =>
    simp only [runGroup, forall_mem_cons, ← hwork a s]
    cases h : (work a s).1 with
    | ok u => simpa using ih (work a s).2
    | error f => simp

lemma runGroups_trace {work : α → σ → Except Fault Unit × σ} {failing : Set α}
    (hwork : ∀ a s, (work a s).1 = .ok () ↔ a ∉ failing) (groups : List (List α))
    (s : List (α × σ) × σ) :
    ∃ m, (runGroups (traced work) groups s).2.1.map Prod.fst
        = s.1.map Prod.fst ++ (groups.take m).flatten ∧
      (((runGroups (traced work) groups s).1 = .ok () ∧ m = groups.length ∧
          ∀ a ∈ groups.flatten, a ∉ failing) ∨
        ((∃ f, (runGroups (traced work) groups s).1 = .error f) ∧
          ∃ k, m = k + 1 ∧ (∀ a ∈ (groups.take k).flatten, a ∉ failing) ∧
            ∃ group, groups[k]? = some group ∧ ∃ a ∈ group, a ∈ failing)) := by
  induction groups generalizing s with
  | nil => exact ⟨0, by simp [runGroups], Or.inl ⟨rfl, rfl, by simp⟩⟩
  | cons group rest ih =>
    have htrace := runGroup_trace work group s
    obtain ⟨hsame, -⟩ := runGroup_traced work group s.1 s.2
    have hnone := runGroup_eq_none_iff hwork group s.2
    rw [← hsame] at hnone
    rcases hrun : runGroup (traced work) group s with ⟨outcome, s'⟩
    rw [hrun] at htrace hnone
    cases outcome with
    | none =>
      -- the group is through, the rest decides
      obtain ⟨m, hm, hcase⟩ := ih s'
      have hgood : ∀ a ∈ group, a ∉ failing := hnone.mp rfl
      simp only [runGroups, hrun]
      refine ⟨m + 1, ?_, ?_⟩
      · rw [hm, htrace, take_succ_cons, flatten_cons, append_assoc]
      · rcases hcase with ⟨hok, rfl, hall⟩ | ⟨herr, k, rfl, hbefore, hat⟩
        · refine Or.inl ⟨hok, rfl, fun a ha => ?_⟩
          rcases mem_append.mp ha with ha | ha
          · exact hgood a ha
          · exact hall a ha
        · refine Or.inr ⟨herr, k + 1, rfl, fun a ha => ?_, hat⟩
          rw [take_succ_cons] at ha
          rcases mem_append.mp ha with ha | ha
          · exact hgood a ha
          · exact hbefore a ha
    | some f =>
      simp only [runGroups, hrun]
      have hbad : ∃ a ∈ group, a ∈ failing := by
        by_contra hno
        push Not at hno
        exact nomatch hnone.mpr hno
      exact ⟨1, by simpa using htrace, Or.inr ⟨⟨f, rfl⟩, 0, rfl, by simp, group, rfl, hbad⟩⟩

end Traces

/-! ## Levels -/

section Levels

variable {α : Type} {g : Digraph α}

lemma mem_flatten_levels {n : Nat} {a : α} :
    a ∈ ((List.range n).map g.level).flatten ↔ a ∈ g.nodes ∧ height g.Edge a < (n : ℕ∞) := by
  simp only [mem_flatten, mem_map, mem_range]
  constructor
  · rintro ⟨l, ⟨i, hi, rfl⟩, ha⟩
    obtain ⟨hmem, hheight⟩ := Digraph.mem_level.mp ha
    exact ⟨hmem, by rw [hheight]; exact_mod_cast hi⟩
  · rintro ⟨ha, hlt⟩
    obtain ⟨i, hi⟩ := ENat.ne_top_iff_exists.mp hlt.ne_top
    rw [← hi] at hlt
    exact ⟨_, ⟨i, by exact_mod_cast hlt, rfl⟩, Digraph.mem_level.mpr ⟨ha, hi.symm⟩⟩

lemma nodup_flatten_levels (hg : g.nodes.Nodup) (n : Nat) :
    ((List.range n).map g.level).flatten.Nodup := by
  rw [nodup_flatten]
  constructor
  · intro l hl
    obtain ⟨i, -, rfl⟩ := mem_map.mp hl
    exact hg.filter _
  · rw [pairwise_map]
    refine pairwise_lt_range.imp fun {i j} hij => ?_
    intro a hi hj
    have h : (i : ℕ∞) = j := (Digraph.mem_level.mp hi).2.symm.trans (Digraph.mem_level.mp hj).2
    exact Nat.ne_of_lt hij (by exact_mod_cast h)

lemma rising_of_levels {ks : List Nat} (hks : ks.Pairwise (· ≤ ·)) {groups : List (List α)}
    (h : List.Forall₂ List.Perm groups (ks.map g.level)) :
    groups.flatten.Pairwise fun a b => height g.Edge a ≤ height g.Edge b := by
  induction ks generalizing groups with
  | nil =>
    rw [map_nil, forall₂_nil_right_iff] at h
    rw [h]
    exact List.Pairwise.nil
  | cons k ks ih =>
    obtain ⟨group, rest, hgroup, hrest, rfl⟩ := forall₂_cons_right_iff.mp h
    obtain ⟨hk, hks'⟩ := pairwise_cons.mp hks
    have hat : ∀ a ∈ group, height g.Edge a = k := fun a ha =>
      (Digraph.mem_level.mp (hgroup.mem_iff.mp ha)).2
    rw [flatten_cons, pairwise_append]
    refine ⟨?_, ih hks' hrest, ?_⟩
    · refine pairwise_of_forall_mem_list fun a ha b hb => ?_
      rw [hat a ha, hat b hb]
    · intro a ha b hb
      obtain ⟨l, hl, hbl⟩ := mem_flatten.mp ((List.Perm.flatten_congr hrest).mem_iff.mp hb)
      obtain ⟨j, hj, rfl⟩ := mem_map.mp hl
      rw [hat a ha, (Digraph.mem_level.mp hbl).2]
      exact_mod_cast hk j hj

/-- Groups in which all that a task depends on is in an earlier one or was there before. -/
def Layered (dep : α → α → Prop) : List α → List (List α) → Prop
  | _, [] => True
  | before, group :: rest =>
    (∀ a ∈ group, ∀ b, dep a b → b ∈ before) ∧ Layered dep (before ++ group) rest

lemma layered_of_levels (hclosed : g.Closed) (hfinite : ∀ a ∈ g.nodes, height g.Edge a ≠ ⊤)
    {k m : Nat} {groups : List (List α)}
    (h : List.Forall₂ List.Perm groups ((List.range' k m).map g.level)) {before : List α}
    (hbefore : ∀ a ∈ g.nodes, height g.Edge a < (k : ℕ∞) → a ∈ before) :
    Layered g.Edge before groups := by
  induction m generalizing k groups before with
  | zero =>
    rw [range'_zero, map_nil, forall₂_nil_right_iff] at h
    rw [h]
    trivial
  | succ m ih =>
    rw [range'_succ] at h
    obtain ⟨group, rest, hgroup, hrest, rfl⟩ := forall₂_cons_right_iff.mp h
    refine ⟨fun a ha b hab => ?_, ih hrest fun a ha hlt => ?_⟩
    · obtain ⟨hnode, hheight⟩ := Digraph.mem_level.mp (hgroup.mem_iff.mp ha)
      have hlt := height_lt_of_rel hab (hfinite a hnode)
      exact hbefore b (hclosed _ hab).2 (hheight ▸ hlt)
    · rw [Nat.cast_succ, ENat.lt_add_one_iff (ENat.natCast_ne_top k)] at hlt
      rcases hlt.lt_or_eq with hlt | heq
      · exact mem_append_left _ (hbefore a ha hlt)
      · exact mem_append_right _ (hgroup.mem_iff.mpr (Digraph.mem_level.mpr ⟨ha, heq⟩))

end Levels

/-! ## Runs of a graph -/

variable {α : Type} [DecidableEq α] [Hashable α] {σ : Type}

/-- The outcomes of running the tasks of a graph with the tasks of every group in some order. -/
inductive Runs (g : Digraph α) (work : α → σ → Except Fault Unit × σ) (s : σ) :
    Except Fault Unit × σ → Prop where
  | refused : g.isAcyclic = false → Runs g work s (.error .cyclicTasks, s)
  | inGroups {groups : List (List α)} : g.isAcyclic = true →
      List.Forall₂ List.Perm groups g.layers → Runs g work s (runGroups work groups s)

lemma runs_run (g : Digraph α) (work : α → σ → Except Fault Unit × σ) (s : σ) :
    Runs g work s (run g work s) := by
  rw [run]
  by_cases hac : g.isAcyclic = true
  · rw [if_pos hac]
    exact .inGroups hac (forall₂_same.mpr fun _ _ => List.Perm.refl _)
  · rw [if_neg hac]
    exact .refused (Bool.not_eq_true _ ▸ hac)

lemma runs_of_traced {g : Digraph α} {work : α → σ → Except Fault Unit × σ}
    {t : List (α × σ)} {s : σ} {out : Except Fault Unit × (List (α × σ) × σ)}
    (h : Runs g (traced work) (t, s) out) : Runs g work s (out.1, out.2.2) := by
  cases h with
  | refused hcyc => exact .refused hcyc
  | inGroups hac hperm =>
    rw [runGroups_traced]
    exact .inGroups hac hperm

lemma exists_traced_run (g : Digraph α) (work : α → σ → Except Fault Unit × σ) (s : σ) :
    ∃ notes, Runs g (traced work) ([], s) ((run g work s).1, notes, (run g work s).2) := by
  have h := runs_run g (traced work) ([], s)
  have hsame : ((run g (traced work) ([], s)).1, (run g (traced work) ([], s)).2.2)
      = run g work s := by
    rw [run, run]
    by_cases hac : g.isAcyclic = true
    · rw [if_pos hac, if_pos hac]
      exact runGroups_traced work g.layers [] s
    · rw [if_neg hac, if_neg hac]
  rw [← hsame]
  exact ⟨_, h⟩

lemma Runs.exists_groups {g : Digraph α} (hclosed : g.Closed)
    (hacyclic : ¬ ∃ a, Relation.TransGen g.Edge a a) {work : α → σ → Except Fault Unit × σ}
    {s : σ} {out : Except Fault Unit × σ} (h : Runs (ofJobs (jobsOf g)) work s out) :
    ∃ groups : List (List α), out = runGroups work groups s ∧ groups.flatten.Nodup ∧
      (∀ a, a ∈ groups.flatten ↔ a ∈ g.nodes) ∧ Layered g.Edge [] groups := by
  have hjobs := closed_ofJobs (jobsOf g)
  cases h with
  | refused hcyclic =>
    have hac := (Digraph.isAcyclic_iff hjobs).mpr (edge_jobsOf hclosed ▸ hacyclic)
    rw [hcyclic] at hac
    exact nomatch hac
  | @inGroups groups hac hperm =>
    obtain ⟨n, hlayers, -, hbound⟩ := Digraph.layers_eq_levels hjobs hac
    rw [hlayers] at hperm
    have hflat := List.Perm.flatten_congr hperm
    refine ⟨groups, rfl, ?_, fun a => ?_, ?_⟩
    · exact hflat.nodup_iff.mpr (nodup_flatten_levels (nodup_ofJobs _) n)
    · rw [hflat.mem_iff, mem_flatten_levels, ← mem_nodes_jobsOf hclosed]
      exact ⟨And.left, fun ha => ⟨ha, hbound a ha⟩⟩
    · rw [range_eq_range'] at hperm
      rw [← edge_jobsOf hclosed]
      exact layered_of_levels hjobs ((Digraph.isAcyclic_iff_height hjobs).mp hac) hperm (by simp)

/-- `dep` tells what depends on what, `failing` which tasks fail when they run, `trace` which ran
and in which order. -/
structure Orderly (dep : α → α → Prop) (task : α → Prop) (failing : Set α)
    (outcome : Except Fault Unit) (trace : List α) : Prop where
  /-- With tasks that depend on each other in a circle nothing runs. -/
  cyclic : (∃ a, Relation.TransGen dep a a) → outcome = .error .cyclicTasks ∧ trace = []
  /-- Without failures every task runs once. -/
  complete : (¬ ∃ a, Relation.TransGen dep a a) → (∀ a, task a → a ∉ failing) →
    outcome = .ok () ∧ trace.Nodup ∧ ∀ a, a ∈ trace ↔ task a
  /-- With failures the tasks run that are at most as high as the lowest one that fails. -/
  stopped : (¬ ∃ a, Relation.TransGen dep a a) → (∃ a, task a ∧ a ∈ failing) →
    (∃ f, outcome = .error f) ∧ trace.Nodup ∧
      ∀ a, a ∈ trace ↔ task a ∧ ∀ b, task b → b ∈ failing → height dep a ≤ height dep b
  /-- A task runs after all that it depends on. -/
  after : ∀ before a rest, trace = before ++ a :: rest → ∀ b, dep a b → b ∈ before
  /-- No task runs that depends on one that fails, be it through others. -/
  spared : ∀ a ∈ trace, ∀ b, Relation.TransGen dep a b → b ∉ failing

lemma exists_trace_height {g : Digraph α} (hclosed : g.Closed) (hnodup : g.nodes.Nodup)
    (hac : g.isAcyclic = true) {groups : List (List α)}
    (hperm : List.Forall₂ List.Perm groups g.layers)
    {work : α → σ → Except Fault Unit × σ} {failing : Set α}
    (hwork : ∀ a s, (work a s).1 = .ok () ↔ a ∉ failing) (s : σ) {trace : List α}
    {outcome : Except Fault Unit}
    (htrace : (runGroups (traced work) groups ([], s)).2.1.map Prod.fst = trace)
    (houtcome : (runGroups (traced work) groups ([], s)).1 = outcome) :
    ∃ m : Nat, trace.Nodup ∧
      (trace.Pairwise fun a b => height g.Edge a ≤ height g.Edge b) ∧
      (∀ a, a ∈ trace ↔ a ∈ g.nodes ∧ height g.Edge a < (m : ℕ∞)) ∧
      ((outcome = .ok () ∧ ∀ a ∈ g.nodes, height g.Edge a < (m : ℕ∞) ∧ a ∉ failing) ∨
        ((∃ f, outcome = .error f) ∧ ∃ k, m = k + 1 ∧
          (∃ a ∈ g.nodes, a ∈ failing ∧ height g.Edge a = k) ∧
            ∀ a ∈ g.nodes, a ∈ failing → (k : ℕ∞) ≤ height g.Edge a)) := by
  obtain ⟨n, hlayers, -, hbound⟩ := Digraph.layers_eq_levels hclosed hac
  rw [hlayers] at hperm
  have hlen : groups.length = n := by
    rw [hperm.length_eq, length_map, length_range]
  have htake : ∀ m ≤ n, List.Forall₂ List.Perm (groups.take m) ((List.range m).map g.level) := by
    intro m hm
    have h := forall₂_take m hperm
    rwa [← map_take, take_range, Nat.min_eq_left hm] at h
  obtain ⟨m, hm, hcase⟩ := runGroups_trace hwork groups ([], s)
  rw [htrace, map_nil, nil_append] at hm
  rw [houtcome] at hcase
  have hmn : m ≤ n := by
    rcases hcase with ⟨-, rfl, -⟩ | ⟨-, k, rfl, -, group, hk, -⟩
    · exact hlen.le
    · exact hlen ▸ (List.getElem?_eq_some_iff.mp hk).1
  have hflat := List.Perm.flatten_congr (htake m hmn)
  refine ⟨m, ?_, ?_, ?_, ?_⟩
  · rw [hm]
    exact hflat.nodup_iff.mpr (nodup_flatten_levels hnodup m)
  · rw [hm]
    exact rising_of_levels (pairwise_lt_range.imp Nat.le_of_lt) (htake m hmn)
  · intro a
    rw [hm, hflat.mem_iff, mem_flatten_levels]
  · rcases hcase with ⟨hok, rfl, hall⟩ | ⟨herr, k, rfl, hbefore, group, hk, a, ha, hfail⟩
    · refine Or.inl ⟨hok, fun a ha => ?_⟩
      have hlt : height g.Edge a < (groups.length : ℕ∞) := hlen ▸ hbound a ha
      refine ⟨hlt, hall a ?_⟩
      rw [take_length] at hflat
      exact hflat.mem_iff.mpr (mem_flatten_levels.mpr ⟨ha, hlt⟩)
    · refine Or.inr ⟨herr, k, rfl, ?_, ?_⟩
      · obtain ⟨hkl, rfl⟩ := List.getElem?_eq_some_iff.mp hk
        have hat := forall₂_iff_get.mp hperm |>.2 k hkl (by simpa using hmn)
        rw [get_eq_getElem, get_eq_getElem, getElem_map,
          getElem_range] at hat
        obtain ⟨hnode, hheight⟩ := Digraph.mem_level.mp (hat.mem_iff.mp ha)
        exact ⟨a, hnode, hfail, hheight⟩
      · intro b hb hbfail
        by_contra hlt
        refine hbefore b ?_ hbfail
        exact (List.Perm.flatten_congr (htake k (by omega))).mem_iff.mpr
          (mem_flatten_levels.mpr ⟨hb, not_le.mp hlt⟩)

lemma orderly_of_runs {g : Digraph α} (hclosed : g.Closed) (hnodup : g.nodes.Nodup)
    {work : α → σ → Except Fault Unit × σ} {failing : Set α}
    (hwork : ∀ a s, (work a s).1 = .ok () ↔ a ∉ failing) {s : σ}
    {out : Except Fault Unit × (List (α × σ) × σ)} (hrun : Runs g (traced work) ([], s) out) :
    Orderly g.Edge (· ∈ g.nodes) failing out.1 (out.2.1.map Prod.fst) := by
  cases hrun with
  | refused hcyc =>
    have hex : ∃ a, Relation.TransGen g.Edge a a := by
      by_contra hno
      exact absurd ((Digraph.isAcyclic_iff hclosed).mpr hno) (by simp [hcyc])
    refine ⟨fun _ => ⟨rfl, rfl⟩, (absurd hex), (absurd hex), ?_, ?_⟩
    · intro before a rest htrace
      simp at htrace
    · intro a ha
      exact nomatch ha
  | @inGroups groups hac hperm =>
    have hno := (Digraph.isAcyclic_iff hclosed).mp hac
    have hfin : ∀ a ∈ g.nodes, height g.Edge a ≠ ⊤ :=
      (Digraph.isAcyclic_iff_height hclosed).mp hac
    obtain ⟨m, hdistinct, hrising, hmem, hcase⟩ :=
      exists_trace_height hclosed hnodup hac hperm hwork s rfl rfl
    refine ⟨fun hex => absurd hex hno, fun _ hgood => ?_, fun _ hbad => ?_, ?_, ?_⟩
    · rcases hcase with ⟨hok, hall⟩ | ⟨-, k, -, ⟨a, ha, hfail, -⟩, -⟩
      · refine ⟨hok, hdistinct, fun a => ?_⟩
        rw [hmem]
        exact ⟨And.left, fun ha => ⟨ha, (hall a ha).1⟩⟩
      · exact absurd hfail (hgood a ha)
    · rcases hcase with ⟨-, hall⟩ | ⟨herr, k, rfl, ⟨b, hb, hbfail, hbk⟩, hleast⟩
      · obtain ⟨a, ha, hfail⟩ := hbad
        exact absurd hfail (hall a ha).2
      · refine ⟨herr, hdistinct, fun a => ?_⟩
        rw [hmem]
        refine and_congr_right fun _ => ?_
        rw [Nat.cast_succ, ENat.lt_add_one_iff (ENat.natCast_ne_top k)]
        constructor
        · intro hle c hc hcfail
          exact hle.trans (hleast c hc hcfail)
        · intro hle
          exact hbk ▸ hle b hb hbfail
    · intro before a rest htrace b hab
      have ha : a ∈ g.nodes ∧ height g.Edge a < (m : ℕ∞) := (hmem a).mp (by rw [htrace]; simp)
      have hlt := height_lt_of_rel hab (hfin a ha.1)
      have hb : b ∈ before ++ a :: rest := by
        rw [← htrace]
        exact (hmem b).mpr ⟨(hclosed _ hab).2, hlt.trans ha.2⟩
      rw [htrace, pairwise_append] at hrising
      -- what follows `a` is at least as high as `a`
      rcases mem_append.mp hb with hb | hb
      · exact hb
      · rcases mem_cons.mp hb with rfl | hb
        · exact absurd hlt (lt_irrefl _)
        · exact absurd hlt (not_lt.mpr ((pairwise_cons.mp hrising.2.1).1 b hb))
    · intro a ha b hab hbfail
      obtain ⟨hnode, hheight⟩ := (hmem a).mp ha
      have hb : b ∈ g.nodes := by
        obtain ⟨c, -, hcb⟩ := Relation.TransGen.tail'_iff.mp hab
        exact (hclosed _ hcb).2
      rcases hcase with ⟨-, hall⟩ | ⟨-, k, rfl, -, hleast⟩
      · exact (hall b hb).2 hbfail
      · have hlt := height_lt_of_transGen hab (hfin a hnode)
        rw [Nat.cast_succ, ENat.lt_add_one_iff (ENat.natCast_ne_top k)] at hheight
        exact absurd (hleast b hb hbfail) (not_le.mpr (hlt.trans_le hheight))

/-- **Schedules are safe.** Whatever the tasks of a list depend on, whichever of them fail and in
whichever order the tasks of a group run, what runs is orderly; the same holds of the nodes of a
graph. -/
theorem dispatch_orderly (work : α → σ → Except Fault Unit × σ) (failing : Set α)
    (hwork : ∀ a s, (work a s).1 = .ok () ↔ a ∉ failing) (s : σ) :
    (∀ g : Digraph α, Runs g work s (run g work s)) ∧
    (∀ (jobs : List (Job α)) out, Runs (ofJobs jobs) (traced work) ([], s) out →
      Runs (ofJobs jobs) work s (out.1, out.2.2) ∧
        Orderly (Needs jobs) (Involved jobs) failing out.1 (out.2.1.map Prod.fst)) ∧
    ∀ (g : Digraph α) out, Runs (ofJobs (jobsOf g)) (traced work) ([], s) out →
      Runs (ofJobs (jobsOf g)) work s (out.1, out.2.2) ∧
        Orderly (fun a b => a ∈ g.nodes ∧ b ∈ g.successors a)
          (fun a => a ∈ g.nodes ∨ ∃ n ∈ g.nodes, a ∈ g.successors n)
          failing out.1 (out.2.1.map Prod.fst) := by
  have hjobs : ∀ (jobs : List (Job α)) out, Runs (ofJobs jobs) (traced work) ([], s) out →
      Orderly (Needs jobs) (Involved jobs) failing out.1 (out.2.1.map Prod.fst) := by
    intro jobs out hrun
    have h := orderly_of_runs (closed_ofJobs jobs) (nodup_ofJobs jobs) hwork hrun
    rw [edge_ofJobs] at h
    simpa only [mem_nodes_ofJobs] using h
  refine ⟨fun g => runs_run g work s, fun jobs out hrun => ⟨runs_of_traced hrun, hjobs jobs out hrun⟩,
    fun g out hrun => ⟨runs_of_traced hrun, ?_⟩⟩
  have hdep : Needs (jobsOf g) = fun a b => a ∈ g.nodes ∧ b ∈ g.successors a := by
    funext a b
    exact propext needs_jobsOf
  have htask : Involved (jobsOf g) = fun a => a ∈ g.nodes ∨ ∃ n ∈ g.nodes, a ∈ g.successors n := by
    funext a
    exact propext involved_jobsOf
  rw [← hdep, ← htask]
  exact hjobs (jobsOf g) out hrun

/-- Three tasks, of which the first names a dependency twice and the last one that fails. -/
def threeJobs : List (Job Nat) :=
  [{ key := 1, dependencies := some [2, 2] }, { key := 3 },
    { key := 4, dependencies := some [1, 9] }]

def firstFails (a : Nat) (n : Nat) : Except Fault Unit × Nat :=
  (if a = 1 then .error .noReply else .ok (), n + 1)

lemma layers_threeJobs : (ofJobs threeJobs).isAcyclic = true ∧
    (ofJobs threeJobs).layers = [[2, 3, 9], [1], [4]] := by
  refine Digraph.layers_of_peel ?_
  rw [show ofJobs threeJobs = ⟨[1, 2, 3, 4, 9], [(1, 2), (4, 1), (4, 9)]⟩ from rfl]
  simp [Digraph.peel, Digraph.ready_eq, Digraph.waiting_eq, Digraph.successors]

theorem dispatch_orderly_threeJobs :
    Runs (ofJobs threeJobs) (traced firstFails) ([], 0)
        (.error .noReply, [(9, 0), (2, 1), (3, 2), (1, 3)], 4) ∧
      Orderly (Needs threeJobs) (Involved threeJobs) {1} (.error .noReply) [9, 2, 3, 1] := by
  have hrun : Runs (ofJobs threeJobs) (traced firstFails) ([], 0)
      (.error .noReply, [(9, 0), (2, 1), (3, 2), (1, 3)], 4) := by
    show Runs _ _ _ (runGroups (traced firstFails) [[9, 2, 3], [1], [4]] ([], 0))
    refine .inGroups layers_threeJobs.1 ?_
    rw [layers_threeJobs.2]
    exact .cons (by decide) (.cons (.refl _) (.cons (.refl _) .nil))
  refine ⟨hrun, ((dispatch_orderly firstFails {1} ?_ 0).2.1 threeJobs _ hrun).2⟩
  intro a n
  by_cases h : a = 1 <;> simp [firstFails, h]

end Schedule

end Docsmith

