import Docsmith.Digraph.Layers
import Mathlib

/-! # Heights and layers

Peeling a graph takes the nodes off in the order of their heights, the lengths of the longest paths
that leave them:

* the nodes that stay behind are those with paths of every length (`peel_deep`), which lead to a
  cycle (`leadsToCycle_iff`);
* without cycles nothing stays behind (`isAcyclic_iff`) and the layers are the levels
  (`layers_eq_levels`);
* in any graph the layers are the nodes that lead to a cycle and then the levels
  (`layers_by_height`). -/

namespace Docsmith

open List

variable {α : Type}

/-- A path of so many steps along a relation starts at a point. -/
inductive PathFrom (r : α → α → Prop) : Nat → α → Prop where
  | stop (a : α) : PathFrom r 0 a
  | step {n : Nat} {a b : α} : r a b → PathFrom r n b → PathFrom r (n + 1) a

/-- The length of the longest path along a relation from a point, `⊤` if there is no longest one. -/
noncomputable def height (r : α → α → Prop) (a : α) : ℕ∞ :=
  ⨆ n : {n : Nat // PathFrom r n a}, ((n : Nat) : ℕ∞)

variable {a : α}

section Heights

variable {r : α → α → Prop}

lemma PathFrom.of_le {m n : Nat} (h : PathFrom r n a) (hmn : m ≤ n) : PathFrom r m a := by
  induction h generalizing m with
  | stop a =>
    rw [Nat.le_zero.mp hmn]
    exact .stop a
  | step hab _ ih =>
    cases m with
    | zero => exact .stop _
    | succ m => exact .step hab (ih (Nat.le_of_succ_le_succ hmn))

lemma pathFrom_succ_iff {n : Nat} : PathFrom r (n + 1) a ↔ ∃ b, r a b ∧ PathFrom r n b := by
  constructor
  · intro h
    cases h with
    | step hab hb => exact ⟨_, hab, hb⟩
  · rintro ⟨b, hab, hb⟩
    exact .step hab hb

lemma le_height_iff {n : Nat} : (n : ℕ∞) ≤ height r a ↔ PathFrom r n a := by
  constructor
  · intro h
    by_contra hno
    cases n with
    | zero => exact hno (.stop a)
    | succ k =>
      have hle : height r a ≤ (k : ℕ∞) := by
        refine iSup_le ?_
        rintro ⟨m, hm⟩
        have hmk : ¬ k + 1 ≤ m := fun hkm => hno (hm.of_le hkm)
        exact_mod_cast Nat.le_of_lt_succ (Nat.lt_of_not_le hmk)
      have hk : ((k + 1 : Nat) : ℕ∞) ≤ (k : ℕ∞) := h.trans hle
      exact Nat.not_succ_le_self k (by exact_mod_cast hk)
  · intro h
    exact le_iSup (fun m : {n : Nat // PathFrom r n a} => ((m : Nat) : ℕ∞)) ⟨n, h⟩

lemma height_eq_iff {k : Nat} : height r a = k ↔ PathFrom r k a ∧ ¬ PathFrom r (k + 1) a := by
  rw [← le_height_iff, ← le_height_iff, not_le]
  constructor
  · intro h
    rw [h]
    exact ⟨le_rfl, by exact_mod_cast Nat.lt_succ_self k⟩
  · rintro ⟨hle, hlt⟩
    refine le_antisymm ?_ hle
    have hlt' : height r a < (k : ℕ∞) + 1 := by exact_mod_cast hlt
    exact ENat.lt_add_one_iff (ENat.natCast_ne_top k) |>.mp hlt'

lemma height_eq_top_iff : height r a = ⊤ ↔ ∀ n, PathFrom r n a := by
  constructor
  · intro h n
    exact le_height_iff.mp (h ▸ le_top)
  · intro h
    exact ENat.eq_top_iff_forall_ge.mpr fun n => le_height_iff.mpr (h n)

lemma height_lt_of_rel {a b : α} (hab : r a b) (ha : height r a ≠ ⊤) :
    height r b < height r a := by
  obtain ⟨k, hk⟩ := ENat.ne_top_iff_exists.mp ha
  rw [← hk]
  by_contra hle
  have hb : PathFrom r k b := le_height_iff.mp (not_lt.mp hle)
  exact (height_eq_iff.mp hk.symm).2 (.step hab hb)

lemma height_lt_of_transGen {a b : α} (hab : Relation.TransGen r a b)
    (ha : height r a ≠ ⊤) : height r b < height r a := by
  induction hab with
  | single h => exact height_lt_of_rel h ha
  | tail _ h ih => exact (height_lt_of_rel h ih.ne_top).trans ih

lemma height_eq_top_of_cycle {a b : α} (hab : Relation.ReflTransGen r a b)
    (hb : Relation.TransGen r b b) : height r a = ⊤ := by
  by_contra ha
  have hfinite : height r b ≠ ⊤ := by
    rcases Relation.reflTransGen_iff_eq_or_transGen.mp hab with rfl | hab
    · exact ha
    · exact (height_lt_of_transGen hab ha).ne_top
  exact lt_irrefl _ (height_lt_of_transGen hb hfinite)

end Heights

namespace Digraph

def Edge (g : Digraph α) (a b : α) : Prop :=
  (a, b) ∈ g.edges

def Closed (g : Digraph α) : Prop :=
  ∀ e ∈ g.edges, e.1 ∈ g.nodes ∧ e.2 ∈ g.nodes

open Classical in
noncomputable def deep (g : Digraph α) (k : Nat) : List α :=
  g.nodes.filter fun a => (k : ℕ∞) ≤ height g.Edge a

open Classical in
noncomputable def level (g : Digraph α) (k : Nat) : List α :=
  g.nodes.filter fun a => height g.Edge a = k

open Classical in
noncomputable def endless (g : Digraph α) : List α :=
  g.nodes.filter fun a => height g.Edge a = ⊤

def LeadsToCycle (g : Digraph α) (a : α) : Prop :=
  ∃ b, Relation.ReflTransGen g.Edge a b ∧ Relation.TransGen g.Edge b b

variable {g : Digraph α}

lemma mem_deep {k : Nat} : a ∈ g.deep k ↔ a ∈ g.nodes ∧ PathFrom g.Edge k a := by
  rw [deep, mem_filter, decide_eq_true_eq, le_height_iff]

lemma mem_level {k : Nat} : a ∈ g.level k ↔ a ∈ g.nodes ∧ height g.Edge a = k := by
  rw [level, mem_filter, decide_eq_true_eq]

lemma mem_endless : a ∈ g.endless ↔ a ∈ g.nodes ∧ height g.Edge a = ⊤ := by
  rw [endless, mem_filter, decide_eq_true_eq]

lemma deep_zero (g : Digraph α) : g.deep 0 = g.nodes := by
  refine List.filter_eq_self.mpr fun a _ => ?_
  simp

variable [DecidableEq α]

lemma all_not_mem_deep (hg : g.Closed) (k : Nat) (a : α) :
    (g.successors a).all (· ∉ g.deep k) = true ↔ ¬ PathFrom g.Edge (k + 1) a := by
  rw [all_eq_true, pathFrom_succ_iff]
  constructor
  · rintro h ⟨b, hab, hb⟩
    have hnot := h b (mem_successors.mpr hab)
    exact of_decide_eq_true hnot (mem_deep.mpr ⟨(hg _ hab).2, hb⟩)
  · intro h b hb
    refine decide_eq_true fun hdeep => h ⟨b, mem_successors.mp hb, (mem_deep.mp hdeep).2⟩

variable [Hashable α]

lemma ready_deep (hg : g.Closed) (k : Nat) : g.ready (g.deep k) = g.level k := by
  rw [ready_eq, deep, filter_filter]
  refine filter_congr fun a _ => ?_
  rw [Bool.eq_iff_iff, Bool.and_eq_true, decide_eq_true_eq, decide_eq_true_eq,
    height_eq_iff, le_height_iff, and_comm]
  exact and_congr Iff.rfl (all_not_mem_deep hg k a)

lemma waiting_deep (hg : g.Closed) (k : Nat) : g.waiting (g.deep k) = g.deep (k + 1) := by
  rw [waiting_eq, deep, filter_filter]
  refine filter_congr fun a _ => ?_
  rw [Bool.eq_iff_iff, Bool.and_eq_true, decide_eq_true_eq, decide_eq_true_eq,
    le_height_iff, le_height_iff, Bool.not_eq_true', ← Bool.not_eq_true]
  constructor
  · rintro ⟨hwait, -⟩
    by_contra hno
    exact hwait ((all_not_mem_deep hg k a).mpr hno)
  · intro h
    exact ⟨fun hall => (all_not_mem_deep hg k a).mp hall h, h.of_le (Nat.le_succ k)⟩

lemma exists_edge_of_ready_nil {rest : List α} (h : g.ready rest = []) (ha : a ∈ rest) :
    ∃ b ∈ rest, g.Edge a b := by
  rw [ready_eq, filter_eq_nil_iff] at h
  have hbusy := h a ha
  rw [all_eq_true] at hbusy
  push Not at hbusy
  obtain ⟨b, hab, hb⟩ := hbusy
  exact ⟨b, by simpa using hb, mem_successors.mp hab⟩

lemma height_eq_top_of_ready_nil {rest : List α} (h : g.ready rest = []) (ha : a ∈ rest) :
    height g.Edge a = ⊤ := by
  refine height_eq_top_iff.mpr fun n => ?_
  induction n generalizing a with
  | zero => exact .stop a
  | succ n ih =>
    obtain ⟨b, hb, hab⟩ := exists_edge_of_ready_nil h ha
    exact .step hab (ih hb)

lemma ready_peel (g : Digraph α) (rest : List α) : g.ready (g.peel rest).2 = [] := by
  fun_induction peel g rest with
  | case1 rest now h => exact h
  | case2 rest now h layers stuck hpeel ih => rw [hpeel] at ih; exact ih

lemma peel_deep (hg : g.Closed) (k : Nat) :
    ∃ n, (g.peel (g.deep k)).1 = (List.range' k n).map g.level ∧
      (∀ i ∈ List.range' k n, g.level i ≠ []) ∧ (g.peel (g.deep k)).2 = g.endless ∧
      ∀ a ∈ g.nodes, height g.Edge a ≠ ⊤ → height g.Edge a < ((k + n : Nat) : ℕ∞) := by
  -- the induction follows the recursion of `peel`, on what is left
  generalize hm : (g.deep k).length = m
  induction m using Nat.strong_induction_on generalizing k with
  | _ m ih =>
    rw [peel, ready_deep hg]
    by_cases hnow : g.level k = []
    · rw [dif_pos hnow]
      have htop : ∀ a ∈ g.deep k, height g.Edge a = ⊤ := by
        intro a ha
        exact height_eq_top_of_ready_nil ((ready_deep hg k).trans hnow) ha
      refine ⟨0, rfl, ?_, ?_, ?_⟩
      · intro i hi
        exact nomatch hi
      · show g.deep k = g.endless
        refine filter_congr fun a ha => decide_eq_decide.mpr ⟨fun hle => ?_, fun h => ?_⟩
        · exact htop a (mem_deep.mpr ⟨ha, le_height_iff.mp hle⟩)
        · exact h ▸ le_top
      · intro a ha hfin
        by_contra hle
        exact hfin (htop a (mem_deep.mpr ⟨ha, le_height_iff.mp (not_lt.mp hle)⟩))
    · rw [dif_neg hnow]
      have hlt : (g.deep (k + 1)).length < m := by
        rw [← waiting_deep hg k, ← hm]
        exact length_waiting_lt (by rw [ready_deep hg]; exact hnow)
      obtain ⟨n, hlayers, hne, hstuck, hbound⟩ := ih _ hlt (k + 1) rfl
      rw [← waiting_deep hg k] at hlayers hstuck
      refine ⟨n + 1, ?_, ?_, hstuck, ?_⟩
      · show g.level k :: (g.peel (g.waiting (g.deep k))).1 = _
        rw [hlayers, range'_succ, map_cons]
      · intro i hi
        rw [range'_succ, mem_cons] at hi
        rcases hi with rfl | hi
        · exact hnow
        · exact hne i hi
      · intro a ha hfin
        have := hbound a ha hfin
        rwa [show k + (n + 1) = k + 1 + n by omega]

lemma peel_nodes (hg : g.Closed) :
    ∃ n, g.peel g.nodes = ((List.range n).map g.level, g.endless) ∧
      (∀ i < n, g.level i ≠ []) ∧
      ∀ a ∈ g.nodes, height g.Edge a ≠ ⊤ → height g.Edge a < (n : ℕ∞) := by
  obtain ⟨n, hlayers, hne, hstuck, hbound⟩ := peel_deep hg 0
  rw [deep_zero] at hlayers hstuck
  rw [Nat.zero_add] at hbound
  refine ⟨n, Prod.ext ?_ hstuck, fun i hi => ?_, hbound⟩
  · rw [range_eq_range']
    exact hlayers
  · exact hne i (mem_range'_1.mpr ⟨Nat.zero_le i, by omega⟩)

lemma isAcyclic_iff_height (hg : g.Closed) :
    g.isAcyclic = true ↔ ∀ a ∈ g.nodes, height g.Edge a ≠ ⊤ := by
  obtain ⟨n, hpeel, -⟩ := peel_nodes hg
  rw [isAcyclic, hpeel, List.isEmpty_iff, eq_nil_iff_forall_not_mem]
  constructor
  · intro h a ha htop
    exact h a (mem_endless.mpr ⟨ha, htop⟩)
  · intro h a ha
    obtain ⟨hmem, htop⟩ := mem_endless.mp ha
    exact h a hmem htop

lemma leadsToCycle_iff (hg : g.Closed) (ha : a ∈ g.nodes) :
    g.LeadsToCycle a ↔ height g.Edge a = ⊤ := by
  constructor
  · rintro ⟨b, hab, hb⟩
    exact height_eq_top_of_cycle hab hb
  · intro htop
    by_contra hno
    -- a least node among those left that `a` leads to would have a smaller one as its successor
    let below (x y : {b // b ∈ g.nodes ∧ Relation.ReflTransGen g.Edge a b}) : Prop :=
      Relation.TransGen g.Edge y.1 x.1
    have hwf : WellFounded below := by
      have : Std.Irrefl below := ⟨fun x hx => hno ⟨x.1, x.2.2, hx⟩⟩
      have : Finite {b // b ∈ g.nodes ∧ Relation.ReflTransGen g.Edge a b} :=
        (finite_toSet g.nodes).subset fun b hb => hb.1
      exact Finite.wellFounded_of_trans_of_irrefl below
    obtain ⟨n, hpeel, -⟩ := peel_nodes hg
    have hready : g.ready g.endless = [] := by
      have h := g.ready_peel g.nodes
      rwa [hpeel] at h
    obtain ⟨x, hx, hmin⟩ := hwf.has_min {x | x.1 ∈ g.endless}
      ⟨⟨a, ha, .refl⟩, mem_endless.mpr ⟨ha, htop⟩⟩
    obtain ⟨b, hb, hxb⟩ := exists_edge_of_ready_nil hready hx
    exact hmin ⟨b, (mem_endless.mp hb).1, x.2.2.tail hxb⟩ hb (Relation.TransGen.single hxb)

lemma isAcyclic_iff (hg : g.Closed) :
    g.isAcyclic = true ↔ ¬ ∃ a, Relation.TransGen g.Edge a a := by
  rw [isAcyclic_iff_height hg]
  constructor
  · rintro h ⟨a, ha⟩
    obtain ⟨b, hab, -⟩ := Relation.TransGen.head'_iff.mp ha
    exact h a (hg _ hab).1 (height_eq_top_of_cycle .refl ha)
  · intro hno a ha htop
    obtain ⟨b, -, hb⟩ := (leadsToCycle_iff hg ha).mpr htop
    exact hno ⟨b, hb⟩

lemma layers_eq_levels (hg : g.Closed) (hac : g.isAcyclic = true) :
    ∃ n, g.layers = (List.range n).map g.level ∧
      (∀ i < n, g.level i ≠ []) ∧ ∀ a ∈ g.nodes, height g.Edge a < (n : ℕ∞) := by
  obtain ⟨n, hpeel, hne, hbound⟩ := peel_nodes hg
  have hnone : g.endless = [] := by
    rw [isAcyclic, hpeel] at hac
    exact List.isEmpty_iff.mp hac
  refine ⟨n, ?_, hne, fun a ha => hbound a ha ((isAcyclic_iff_height hg).mp hac a ha)⟩
  simp only [layers, hpeel, hnone, isEmpty_nil, if_true]

lemma layers_of_peel {groups : List (List α)} (h : g.peel g.nodes = (groups, [])) :
    g.isAcyclic = true ∧ g.layers = groups := by
  rw [isAcyclic, layers, h]
  exact ⟨rfl, rfl⟩

/-! ## Layers of any graph -/

section Tiers

omit [DecidableEq α] [Hashable α]

end Tiers

end Digraph

end Docsmith

