import Docsmith.Proofs.Dispatch

/-! # What every task of a run does

What every task keeps, whether it fails or not, the run keeps (`Runs.keeps`). If every task goes
well once all that it depends on is done, the run goes well, and what the tasks establish holds in
the end for all of them (`Runs.steps`). -/

namespace Docsmith

open List

namespace Schedule

variable {α σ : Type} {work : α → σ → Except Fault Unit × σ}

/-! ## What no task breaks -/

section Keeps

variable {I : σ → Prop}

lemma runGroup_keeps (hstep : ∀ a s, I s → I (work a s).2) (group : List α) {s : σ} (hs : I s) :
    I (runGroup work group s).2 := by
  induction group generalizing s with
  | nil => exact hs
  | cons a rest ih =>
    rw [(runGroup_cons work a rest s).1]
    exact ih (hstep a s hs)

lemma runGroups_keeps (hstep : ∀ a s, I s → I (work a s).2) (groups : List (List α)) {s : σ}
    (hs : I s) : I (runGroups work groups s).2 := by
  induction groups generalizing s with
  | nil => exact hs
  | cons group rest ih =>
    have hgroup := runGroup_keeps hstep group hs
    rw [runGroups]
    rcases hrun : runGroup work group s with ⟨outcome, s'⟩
    rw [hrun] at hgroup
    cases outcome with
    | none => exact ih hgroup
    | some fault => exact hgroup

lemma Runs.keeps [DecidableEq α] [Hashable α] {g : Digraph α}
    (hstep : ∀ a s, I s → I (work a s).2) {s : σ} {out : Except Fault Unit × σ}
    (h : Runs g work s out) (hs : I s) : I out.2 := by
  cases h with
  | refused => exact hs
  | @inGroups groups => exact runGroups_keeps hstep groups hs

end Keeps

/-! ## What the tasks establish one after the other -/

section Steps

variable {dep : α → α → Prop} {task : α → Prop} {I : List α → σ → Prop}

lemma runGroup_steps
    (hstep : ∀ done a s, I done s → (∀ b ∈ done ++ [a], task b) → (done ++ [a]).Nodup →
      (∀ b, dep a b → b ∈ done) → (work a s).1 = .ok () ∧ I (done ++ [a]) (work a s).2)
    {group done : List α} {s : σ} (hs : I done s) (htask : ∀ a ∈ done ++ group, task a)
    (hnodup : (done ++ group).Nodup) (hdep : ∀ a ∈ group, ∀ b, dep a b → b ∈ done) :
    (runGroup work group s).1 = none ∧ I (done ++ group) (runGroup work group s).2 := by
  -- nothing in a group depends on the rest of it, so `done` can grow task by task
  induction group generalizing done s with
  | nil =>
    rw [append_nil]
    exact ⟨rfl, hs⟩
  | cons a rest ih =>
    rw [append_cons] at htask hnodup
    rw [forall_mem_cons] at hdep
    obtain ⟨hok, hfirst⟩ := hstep done a s hs
      (fun b hb => htask b (mem_append_left rest hb))
      (hnodup.sublist (sublist_append_left _ rest)) hdep.1
    obtain ⟨hrest, hall⟩ := ih hfirst htask hnodup fun b hb c hc =>
      mem_append_left _ (hdep.2 b hb c hc)
    obtain ⟨hstate, hfine⟩ := runGroup_cons work a rest s
    rw [hfine, hstate, append_cons]
    exact ⟨⟨hok, hrest⟩, hall⟩

lemma runGroups_steps
    (hstep : ∀ done a s, I done s → (∀ b ∈ done ++ [a], task b) → (done ++ [a]).Nodup →
      (∀ b, dep a b → b ∈ done) → (work a s).1 = .ok () ∧ I (done ++ [a]) (work a s).2)
    {groups : List (List α)} {done : List α} {s : σ} (hs : I done s)
    (htask : ∀ a ∈ done ++ groups.flatten, task a) (hnodup : (done ++ groups.flatten).Nodup)
    (hlayered : Layered dep done groups) :
    (runGroups work groups s).1 = .ok () ∧
      I (done ++ groups.flatten) (runGroups work groups s).2 := by
  induction groups generalizing done s with
  | nil =>
    rw [flatten_nil, append_nil]
    exact ⟨rfl, hs⟩
  | cons group rest ih =>
    rw [flatten_cons, ← append_assoc] at htask hnodup
    obtain ⟨hnone, hgroup⟩ := runGroup_steps hstep hs
      (fun a ha => htask a (mem_append_left rest.flatten ha))
      (hnodup.sublist (sublist_append_left _ _)) hlayered.1
    rw [runGroups, flatten_cons, ← append_assoc]
    rcases hrun : runGroup work group s with ⟨outcome, s'⟩
    rw [hrun] at hnone hgroup
    obtain rfl : outcome = none := hnone
    exact ih hgroup htask hnodup hlayered.2

lemma Runs.steps [DecidableEq α] [Hashable α] {g : Digraph α} (hclosed : g.Closed)
    (hacyclic : ¬ ∃ a, Relation.TransGen g.Edge a a)
    (hstep : ∀ done a s, I done s → (∀ b ∈ done ++ [a], b ∈ g.nodes) → (done ++ [a]).Nodup →
      (∀ b, g.Edge a b → b ∈ done) → (work a s).1 = .ok () ∧ I (done ++ [a]) (work a s).2)
    {s : σ} (hs : I [] s) {out : Except Fault Unit × σ}
    (h : Runs (ofJobs (jobsOf g)) work s out) :
    out.1 = .ok () ∧ ∃ done, done.Nodup ∧ (∀ a, a ∈ done ↔ a ∈ g.nodes) ∧ I done out.2 := by
  obtain ⟨groups, rfl, hnodup, hmem, hlayered⟩ := h.exists_groups hclosed hacyclic
  obtain ⟨hok, hall⟩ := runGroups_steps hstep hs (fun a ha => (hmem a).mp ha) hnodup hlayered
  exact ⟨hok, groups.flatten, hnodup, hmem, hall⟩

end Steps

end Schedule

/-! ## Graphs turned round -/

namespace Digraph

variable {α : Type} [DecidableEq α] {g : Digraph α}

lemma edge_reverse (hg : g.Closed) {a b : α} : g.reverse.Edge a b ↔ g.Edge b a := by
  simp only [Edge, reverse, edgesByTail, mem_map, mem_flatMap, mem_filter,
    Prod.exists, Prod.mk.injEq]
  constructor
  · rintro ⟨x, y, ⟨n, -, hxy, -⟩, rfl, rfl⟩
    exact hxy
  · intro hba
    exact ⟨b, a, ⟨b, (hg _ hba).1, hba, by simp⟩, rfl, rfl⟩

lemma closed_reverse (hg : g.Closed) : g.reverse.Closed := by
  rintro ⟨a, b⟩ hab
  exact (hg _ ((edge_reverse hg).mp hab)).symm

lemma acyclic_reverse (hg : g.Closed) (h : ¬ ∃ a, Relation.TransGen g.Edge a a) :
    ¬ ∃ a, Relation.TransGen g.reverse.Edge a a := by
  rintro ⟨a, ha⟩
  have hswap : g.reverse.Edge = Function.swap g.Edge := by
    funext x y
    exact propext (edge_reverse hg)
  rw [hswap] at ha
  exact h ⟨a, Relation.transGen_swap.mp ha⟩

end Digraph

end Docsmith
