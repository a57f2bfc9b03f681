import Docsmith.Proofs.Calm

/-! # Uses between symbols that are not wild

What becomes of the uses of symbols that are not wild can be said exactly, because the sources of
uses are different (`Keyed`):

* adding a use adds that one (`addUses_ok`),
* renaming turns the targets of a source into what they stand for (`mem_targets_rename`),
* what does not exist is dropped, and of the rest nothing (`contractMissing_ok`),
* culling and collapsing change nothing where there is nothing to cull and no block
  (`cullInherited_run`, `collapseBlocks_run`). -/

namespace Docsmith

open List

/-! ## Tables with different keys -/

namespace Assoc

variable {κ β : Type} [DecidableEq κ] {key : κ} {value : β} {m : List (κ × β)}

lemma get?_of_mem (hm : (m.map Prod.fst).Nodup) (h : (key, value) ∈ m) :
    get? key m = some value := by
  induction m with
  | nil => cases h
  | cons e m ih =>
    obtain ⟨k, v⟩ := e
    rw [map_cons, nodup_cons] at hm
    rw [get?]
    rcases mem_cons.mp h with heq | h
    · obtain ⟨rfl, rfl⟩ := Prod.mk.inj heq
      rw [if_pos rfl]
    · have hne : k ≠ key := by
        rintro rfl
        exact hm.1 (mem_map.mpr ⟨_, h, rfl⟩)
      rw [if_neg hne]
      exact ih hm.2 h

lemma get?_append (key : κ) (m m' : List (κ × β)) :
    get? key (m ++ m') = (get? key m).or (get? key m') := by
  induction m with
  | nil => rfl
  | cons e m ih =>
    rw [cons_append, get?, get?]
    split
    · rfl
    · exact ih

lemma get?_filterMap (f : κ → Option β) (key : κ) (ks : List κ) :
    get? key (ks.filterMap fun k => (f k).map (k, ·)) = if key ∈ ks then f key else none := by
  induction ks with
  | nil => rfl
  | cons k ks ih =>
    by_cases hkey : key = k
    · subst hkey
      rw [if_pos mem_cons_self]
      cases hf : f key with
      | none =>
        rw [filterMap_cons, hf]
        refine ih.trans ?_
        rw [hf, ite_self]
      | some v =>
        rw [filterMap_cons, hf]
        exact if_pos rfl
    · have hmem : key ∈ k :: ks ↔ key ∈ ks := by simp [hkey]
      rw [if_congr hmem rfl rfl, ← ih]
      cases hf : f k with
      | none => rw [filterMap_cons, hf]; rfl
      | some v =>
        rw [filterMap_cons, hf]
        exact if_neg (Ne.symm hkey)

lemma of_mem_keys_set {k : κ} (h : k ∈ (set key value m).map Prod.fst) :
    k = key ∨ k ∈ m.map Prod.fst := by
  obtain ⟨e, he, rfl⟩ := mem_map.mp h
  rcases mem_of_mem_set he with rfl | he
  · exact Or.inl rfl
  · exact Or.inr (mem_map_of_mem he)

lemma nodup_keys_set (hm : (m.map Prod.fst).Nodup) (key : κ) (value : β) :
    ((set key value m).map Prod.fst).Nodup := by
  induction m with
  | nil => exact nodup_singleton _
  | cons e m ih =>
    rw [map_cons, nodup_cons] at hm
    rw [set]
    split
    · exact nodup_cons.mpr hm
    · rename_i hne
      refine nodup_cons.mpr ⟨fun hmem => ?_, ih hm.2⟩
      rcases of_mem_keys_set hmem with heq | hmem
      · exact hne heq
      · exact hm.1 hmem

end Assoc

namespace Calls

open Rules

namespace Edges

def Keyed (edges : Edges) : Prop :=
  (edges.map Prod.fst).Nodup

variable {edges : Edges}

lemma Keyed.targets_of_mem (h : edges.Keyed) {e : Id × List Id} (he : e ∈ edges) :
    edges.targets e.1 = e.2 := by
  rw [Edges.targets, Assoc.get?_of_mem h he]
  rfl

lemma exists_of_mem_targets {a t : Id} (h : t ∈ edges.targets a) :
    ∃ e ∈ edges, e.1 = a ∧ t ∈ e.2 := by
  rw [Edges.targets] at h
  cases hget : Assoc.get? a edges with
  | none =>
    rw [hget] at h
    cases h
  | some targets =>
    rw [hget] at h
    exact ⟨_, Assoc.mem_of_get? hget, rfl, h⟩

lemma Keyed.touch (h : edges.Keyed) (a : Id) : (edges.touch a).Keyed :=
  Assoc.nodup_keys_set h a _

lemma Keyed.add (h : edges.Keyed) (a b : Id) : (edges.add a b).Keyed :=
  Assoc.nodup_keys_set h a _

lemma Keyed.remove (h : edges.Keyed) (a b : Id) : (edges.remove a b).Keyed := by
  rw [Edges.remove]
  split
  · exact Assoc.nodup_keys_set h a _
  · exact h

lemma mem_targets_add (a b c t : Id) :
    t ∈ (edges.add a b).targets c ↔ t ∈ edges.targets c ∨ (c = a ∧ t = b) := by
  rw [Edges.targets_add]
  by_cases hc : c = a
  · subst hc
    by_cases hb : b ∈ edges.targets c
    · rw [if_neg fun h => h.2 hb]
      exact ⟨Or.inl, fun h => h.elim id fun h => h.2 ▸ hb⟩
    · rw [if_pos ⟨rfl, hb⟩]
      simp
  · rw [if_neg fun h => hc h.1]
    simp [hc]

lemma targets_remove (a b c : Id) : (edges.remove a b).targets c
    = if c = a then (edges.targets c).erase b else edges.targets c := by
  rw [Edges.remove]
  cases hget : Assoc.get? a edges with
  | none =>
    dsimp only
    split
    · rename_i hc
      rw [hc, Edges.targets, hget]
      rfl
    · rfl
  | some targets =>
    rw [Edges.targets, Assoc.get?_set]
    split
    · rename_i hc
      rw [hc, Edges.targets, hget]
      rfl
    · rfl

lemma of_mem_targets_remove {a b c t : Id} (h : t ∈ (edges.remove a b).targets c) :
    t ∈ edges.targets c := by
  rw [targets_remove] at h
  split at h
  · exact mem_of_mem_erase h
  · exact h

lemma mem_targets_remove {a b c t : Id} (hne : (c, t) ≠ (a, b)) (h : t ∈ edges.targets c) :
    t ∈ (edges.remove a b).targets c := by
  rw [targets_remove]
  split
  · rename_i hc
    exact (mem_erase_of_ne fun ht => hne (Prod.ext hc ht)).mpr h
  · exact h

lemma mem_targets_rename {f : Id → Id} (hedges : edges.Keyed) (hf : ∀ e ∈ edges, f e.1 = e.1)
    (a t : Id) : t ∈ (edges.rename f).targets a ↔ ∃ b ∈ edges.targets a, f b = t := by
  have hfold : ∀ todo done : Edges, todo.Keyed → (∀ e ∈ todo, f e.1 = e.1) →
      ∀ targets, Assoc.get? a (todo.foldl
        (fun m e => Assoc.set (f e.1) (e.2.map f).eraseDups m) done) = some targets ↔
        (∃ bs, (a, bs) ∈ todo ∧ targets = (bs.map f).eraseDups) ∨
          (a ∉ todo.map Prod.fst ∧ Assoc.get? a done = some targets) := by
    intro todo
    induction todo with
    | nil => simp
    | cons e todo ih =>
      obtain ⟨k, bs⟩ := e
      intro done hkeyed hself targets
      have hkeyed := nodup_cons.mp hkeyed
      obtain ⟨hk, hself⟩ := forall_mem_cons.mp hself
      rw [foldl_cons, ih _ hkeyed.2 hself, Assoc.get?_set]
      rw [hk]
      by_cases ha : a = k
      · subst ha
        have hnone : ∀ bs', (a, bs') ∉ todo :=
          fun bs' hmem => hkeyed.1 (mem_map.mpr ⟨_, hmem, rfl⟩)
        simp only [hnone, false_and, exists_false, false_or, if_pos, Option.some.injEq,
          mem_cons, Prod.mk.injEq, true_and, or_false, exists_eq_left, map_cons,
          true_or, not_true_eq_false]
        exact ⟨fun h => h.2.symm, fun h => ⟨hkeyed.1, h.symm⟩⟩
      · simp [ha]
  have hget : ∀ targets, Assoc.get? a (edges.rename f) = some targets ↔
      ∃ bs, (a, bs) ∈ edges ∧ bs ≠ [] ∧ targets = (bs.map f).eraseDups := by
    intro targets
    have hkeyed : Keyed (edges.filter fun e => !e.2.isEmpty) :=
      List.Nodup.sublist (filter_sublist.map Prod.fst) hedges
    have hrename := hfold (edges.filter fun e => !e.2.isEmpty) [] hkeyed
      (fun e he => hf e (mem_filter.mp he).1) targets
    refine hrename.trans ?_
    simp [mem_filter, and_assoc]
  constructor
  · intro ht
    rw [Edges.targets] at ht
    cases htargets : Assoc.get? a (edges.rename f) with
    | none =>
      rw [htargets] at ht
      cases ht
    | some targets =>
      rw [htargets] at ht
      obtain ⟨bs, hbs, -, rfl⟩ := (hget targets).mp htargets
      obtain ⟨b, hb, rfl⟩ := mem_map.mp (mem_eraseDups.mp ht)
      exact ⟨b, hedges.targets_of_mem hbs ▸ hb, rfl⟩
  · rintro ⟨b, hb, rfl⟩
    obtain ⟨e, he, rfl, hmem⟩ := exists_of_mem_targets hb
    have hne : e.2 ≠ [] := ne_nil_of_mem hmem
    rw [Edges.targets, (hget _).mpr ⟨e.2, he, hne, rfl⟩]
    exact mem_eraseDups.mpr (mem_map_of_mem hmem)

lemma Keyed.rename (f : Id → Id) : (edges.rename f).Keyed := by
  have hfold : ∀ todo done : Edges, done.Keyed → Keyed (todo.foldl
      (fun m e => Assoc.set (f e.1) (e.2.map f).eraseDups m) done) := by
    intro todo
    induction todo with
    | nil => exact fun done h => h
    | cons e todo ih => exact fun done h => ih _ (Assoc.nodup_keys_set h _ _)
  exact hfold _ [] nodup_nil

end Edges

variable {s s' : State}

/-! ## Adding and removing uses -/

/-- The given uses are new, and at most uses of wild names are gone. -/
structure Joins (s s' : State) (new : Id → Id → Prop) : Prop where
  rest : ∃ uses, s' = { s with uses }
  keyed : s.uses.Keyed → s'.uses.Keyed
  of_mem : ∀ {c t}, t ∈ s'.uses.targets c → t ∈ s.uses.targets c ∨ new c t
  mem : ∀ {c t}, (s.symbol t).isWild = false → t ∈ s.uses.targets c ∨ new c t →
    t ∈ s'.uses.targets c

lemma joins_refl (s : State) : Joins s s fun _ _ => False :=
  ⟨⟨_, rfl⟩, fun h => h, Or.inl, fun _ h => h.resolve_right id⟩

lemma removeWild_ok {source target : Id} {name : String}
    (hrun : (removeWild source target name).run.run s = (.ok (), s')) :
    Joins s s' fun _ _ => False := by
  have hsame : (pure () : Visit Unit).run.run s = (.ok (), s') → Joins s s' fun _ _ => False := by
    intro h
    obtain ⟨-, rfl⟩ := Prod.mk.inj h
    exact joins_refl s
  rw [removeWild, run_get_bind] at hrun
  split at hrun
  · exact hsame hrun
  · split at hrun
    · exact hsame hrun
    · split at hrun
      · exact hsame hrun
      · rename_i wild hwild
        obtain ⟨-, rfl⟩ := Prod.mk.inj hrun
        refine ⟨⟨_, rfl⟩, fun h => h.remove source wild,
          fun h => Or.inl (Edges.of_mem_targets_remove h), fun {c t} ht h =>
          Edges.mem_targets_remove (fun heq => ?_) (h.resolve_right id)⟩
        have hmem : wild ∈ [wild] := mem_singleton_self wild
        rw [← hwild, mem_filter, Bool.and_eq_true] at hmem
        rw [(Prod.mk.inj heq).2, hmem.2.1] at ht
        cases ht
      · cases hrun

lemma addUses_ok {source target : Id}
    (hrun : (addUses source target).run.run s = (.ok (), s')) :
    Joins s s' fun c t => c = source ∧ t = target := by
  have hset : ∀ s s' : State, (set s' : Visit PUnit).run.run s = (.ok (), s') := fun _ _ => rfl
  rw [addUses, run_modify_bind, run_get_bind] at hrun
  split at hrun
  · rename_i hmem
    obtain ⟨-, rfl⟩ := Prod.mk.inj hrun
    rw [Edges.targets_touch] at hmem
    refine ⟨⟨_, rfl⟩, fun h => h.touch source, fun {c t} h => ?_, fun {c t} _ h => ?_⟩
    · rw [Edges.targets_touch] at h
      exact Or.inl h
    · rw [Edges.targets_touch]
      rcases h with h | ⟨rfl, rfl⟩
      · exact h
      · exact hmem
  · rw [run_bind_of_ok (hset _ _)] at hrun
    have hadd : Joins s { s with uses := (s.uses.touch source).add source target }
        fun c t => c = source ∧ t = target := by
      have hiff : ∀ c t, t ∈ ((s.uses.touch source).add source target).targets c ↔
          t ∈ s.uses.targets c ∨ (c = source ∧ t = target) := by
        intro c t
        rw [Edges.mem_targets_add, Edges.targets_touch]
      exact ⟨⟨_, rfl⟩, fun h => (h.touch source).add source target, (hiff _ _).mp,
        fun _ => (hiff _ _).mpr⟩
    dsimp only at hrun
    split at hrun
    · have hwild := removeWild_ok hrun
      obtain ⟨uses, rfl⟩ := hwild.rest
      exact ⟨⟨uses, rfl⟩, fun h => hwild.keyed (hadd.keyed h),
        fun h => hadd.of_mem ((hwild.of_mem h).resolve_right id),
        fun ht h => hwild.mem ht (Or.inl (hadd.mem ht h))⟩
    · obtain ⟨-, rfl⟩ := Prod.mk.inj hrun
      exact hadd

lemma addAllUses_ok {pairs : List (Id × Id)}
    (hrun : (addAllUses pairs).run.run s = (.ok (), s')) :
    Joins s s' fun c t => (c, t) ∈ pairs := by
  induction pairs generalizing s with
  | nil =>
    obtain ⟨-, rfl⟩ := Prod.mk.inj hrun
    exact ⟨⟨_, rfl⟩, fun h => h, Or.inl, fun _ h => h.resolve_right not_mem_nil⟩
  | cons e pairs ih =>
    obtain ⟨⟨⟩, s₁, hfirst, hrest⟩ := run_bind_ok.mp hrun
    have hjoins := addUses_ok hfirst
    have hothers := ih hrest
    obtain ⟨uses, rfl⟩ := hjoins.rest
    obtain ⟨uses', rfl⟩ := hothers.rest
    refine ⟨⟨uses', rfl⟩, fun h => hothers.keyed (hjoins.keyed h), fun {c t} h => ?_,
      fun {c t} ht h => ?_⟩
    · rcases hothers.of_mem h with h | h
      · refine (hjoins.of_mem h).imp id fun heq => ?_
        exact mem_cons.mpr (Or.inl (Prod.ext heq.1 heq.2))
      · exact Or.inr (mem_cons_of_mem _ h)
    · refine hothers.mem ht ?_
      rcases h with h | h
      · exact Or.inl (hjoins.mem ht (Or.inl h))
      · rcases mem_cons.mp h with h | h
        · exact Or.inl (hjoins.mem ht (Or.inr ⟨congrArg Prod.fst h, congrArg Prod.snd h⟩))
        · exact Or.inr h

lemma removeAllUses_run (pairs : List (Id × Id)) (s : State) :
    ∃ uses, (removeAllUses pairs).run.run s = (.ok (), { s with uses }) ∧
      (s.uses.Keyed → uses.Keyed) ∧ (∀ c t, t ∈ uses.targets c → t ∈ s.uses.targets c) ∧
      ∀ c t, (c, t) ∉ pairs → t ∈ s.uses.targets c → t ∈ uses.targets c := by
  induction pairs generalizing s with
  | nil => exact ⟨s.uses, rfl, fun h => h, fun _ _ h => h, fun _ _ _ h => h⟩
  | cons e pairs ih =>
    obtain ⟨uses, hrun, hkeyed, hfewer, hkept⟩ := ih { s with uses := s.uses.remove e.1 e.2 }
    refine ⟨uses, hrun, fun h => hkeyed (h.remove e.1 e.2), fun c t ht => ?_, fun c t hno ht => ?_⟩
    · exact Edges.of_mem_targets_remove (hfewer c t ht)
    · rw [mem_cons, not_or] at hno
      exact hkept c t hno.2 (Edges.mem_targets_remove hno.1 ht)

/-! ## What does not exist -/

/-- Only wild names have changed or are new, and none is that of a block that was none. -/
structure Contracting (s s' : State) : Prop where
  uses : s'.uses = s.uses
  wild : ∀ i, (s'.symbol i).isWild = (s.symbol i).isWild
  kept : ∀ i, (s.symbol i).isWild = false → s'.symbol i = s.symbol i
  name : (∀ i, (s.symbol i).name ∉ blockLabels) → ∀ i, (s'.symbol i).name ∉ blockLabels

def contracting (s : State) : Rules State where
  fit := Contracting s
  leads := fun _ _ => True
  fails := fun _ => True
  refl := fun _ => trivial
  trans := fun _ _ => trivial

lemma does_contract (s : State) (a b : Id) :
    (contracting s).Does (fun _ => True) (do
      let x ← symbolOf b
      let wild ← symbolFor none x.name x.origin .unspecified
      modifySymbol wild ({ · with defined := false })
      return (a, wild)) fun r _ => (s.symbol r.2).isWild = true := by
  refine does_of_run fun s₁ hs₁ _ => ?_
  rw [run_bind_of_ok (symbolOf_run b s₁)]
  rcases symbolFor_run none (s₁.symbol b).name (s₁.symbol b).origin .unspecified s₁ with
    ⟨i, hfind, hrun⟩ | ⟨-, hrun⟩
  · have hraise : s₁.raise i .unspecified = s₁ := if_neg (Nat.not_lt_zero _)
    have hwild : (s₁.symbol i).isWild = true := by
      rw [Symbol.isWild, (State.find?_some hfind).2]
      rfl
    have hsame := hs₁.wild i
    rw [hwild] at hsame
    rw [hraise] at hrun
    rw [run_bind_of_ok hrun, run_bind_of_ok (modifySymbol_run _ _ _)]
    refine ⟨_, _, rfl, ⟨hs₁.uses, fun j => ?_, fun j hj => ?_, fun h j => ?_⟩, trivial, hsame.symm⟩
    · rw [← hs₁.wild j]
      exact State.symbol_alter_congr s₁ Symbol.isWild i ({ · with defined := false }) (fun _ => rfl) j
    · rw [State.symbol_alter, if_neg ?_]
      · exact hs₁.kept j hj
      · rintro ⟨rfl, -⟩
        rw [← hsame] at hj
        cases hj
    · have hname := State.symbol_alter_congr s₁ Symbol.name i ({ · with defined := false })
        (fun _ => rfl) j
      rw [hname]
      exact hs₁.name h j
  · rw [run_bind_of_ok hrun, run_bind_of_ok (modifySymbol_run _ _ _), State.alter_push _ rfl]
    have hbeyond : (s.symbol s₁.symbols.size).isWild = true := by
      rw [← hs₁.wild, State.symbol_of_size_le (Nat.le_refl _)]
      rfl
    refine ⟨_, _, rfl, ⟨hs₁.uses, fun j => ?_, fun j hj => ?_, fun h j => ?_⟩, trivial, hbeyond⟩
    · rw [State.symbol_push]
      split
      · rename_i hj
        rw [hj, hbeyond]
        rfl
      · exact hs₁.wild j
    · rw [State.symbol_push, if_neg ?_]
      · exact hs₁.kept j hj
      · rintro rfl
        rw [hbeyond] at hj
        cases hj
    · rw [State.symbol_push]
      split
      · exact hs₁.name h b
      · exact hs₁.name h j

/-- Uses of what does not exist are dropped, and of symbols that are not wild no others; none is
new. -/
structure Contracts (s s' : State) : Prop where
  keyed : s.uses.Keyed → s'.uses.Keyed
  wild : ∀ i, (s'.symbol i).isWild = (s.symbol i).isWild
  kept : ∀ i, (s.symbol i).isWild = false → s'.symbol i = s.symbol i
  name : (∀ i, (s.symbol i).name ∉ blockLabels) → ∀ i, (s'.symbol i).name ∉ blockLabels
  fewer : ∀ c t, (s.symbol t).isWild = false → t ∈ s'.uses.targets c → t ∈ s.uses.targets c
  uses : ∀ c t, (s.symbol t).isWild = false → (s.symbol t).defined = true →
    t ∈ s.uses.targets c → t ∈ s'.uses.targets c

lemma contractMissing_ok (hrun : contractMissing.run.run s = (.ok (), s')) : Contracts s s' := by
  rw [contractMissing, run_get_bind] at hrun
  obtain ⟨new, s₁, hnew, hrun⟩ := run_bind_ok.mp hrun
  obtain ⟨⟨⟩, s₂, hadd, hremove⟩ := run_bind_ok.mp hrun
  have hwork : ∀ e ∈ s.uses.pairs.filter fun e =>
      !(s.symbol e.2).isWild && !(s.symbol e.2).defined, (contracting s).Does (fun _ => True) _ _ :=
    fun e _ => does_contract s e.1 e.2
  have hmap := does_mapM (fun _ _ _ h => h) (fun _ _ _ _ _ h => h) hwork
  obtain ⟨r, t, hrun', hs₁, -, hok, -⟩ := hmap s ⟨rfl, fun _ => rfl, fun _ _ => rfl, fun h => h⟩ trivial
  obtain ⟨rfl, rfl⟩ := Prod.mk.inj (hnew.symm.trans hrun')
  have hwild : ∀ e ∈ new, (s.symbol e.2).isWild = true := by
    intro e he
    obtain ⟨_, _, hwild⟩ := exists_left_of_forall₂ (hok new rfl) he
    exact hwild
  have hjoins := addAllUses_ok hadd
  obtain ⟨uses, hrun', hkeyed, hfewer, hkept⟩ := removeAllUses_run _ s₂
  obtain ⟨-, rfl⟩ := Prod.mk.inj (hremove.symm.trans hrun')
  obtain ⟨uses₂, rfl⟩ := hjoins.rest
  have htargets : ∀ c t, (s.symbol t).isWild = false →
      (t ∈ uses₂.targets c ↔ t ∈ s.uses.targets c) := by
    intro c t ht
    rw [← hs₁.uses]
    refine ⟨fun h => (hjoins.of_mem h).resolve_right fun hmem => ?_,
      fun h => hjoins.mem ((hs₁.wild t).trans ht) (Or.inl h)⟩
    rw [hwild _ hmem] at ht
    cases ht
  refine ⟨fun h => hkeyed (hjoins.keyed (hs₁.uses.symm ▸ h)), hs₁.wild, hs₁.kept, hs₁.name,
    fun c t ht hmem => (htargets c t ht).mp (hfewer c t hmem), fun c t ht hdefined hmem => ?_⟩
  refine hkept c t (fun hgone => ?_) ((htargets c t ht).mpr hmem)
  have hmissing := (mem_filter.mp hgone).2
  simp [hdefined] at hmissing

/-! ## Where there is nothing to settle -/

lemma mapM_run {α β : Type} {work : α → Visit β} {f : α → β} {xs : List α}
    (h : ∀ a ∈ xs, (work a).run.run s = (.ok (f a), s)) :
    (xs.mapM work).run.run s = (.ok (xs.map f), s) := by
  induction xs with
  | nil => rfl
  | cons a xs ih =>
    rw [mapM_cons, run_bind_of_ok (h a mem_cons_self),
      run_bind_of_ok (ih fun b hb => h b (mem_cons_of_mem _ hb))]
    rfl

lemma mapM_ok {α β : Type} {work : α → Visit β} {f : α → β} {P : α → Prop} {xs : List α} {ys : List β}
    (h : ∀ a ∈ xs, ∀ b t, (work a).run.run s = (.ok b, t) → b = f a ∧ t = s ∧ P a)
    (hrun : (xs.mapM work).run.run s = (.ok ys, s')) : ys = xs.map f ∧ s' = s ∧ ∀ a ∈ xs, P a := by
  induction xs generalizing ys s' with
  | nil =>
    obtain ⟨hys, rfl⟩ := Prod.mk.inj hrun
    exact ⟨(Except.ok.inj hys).symm, rfl, fun _ ha => absurd ha not_mem_nil⟩
  | cons a xs ih =>
    obtain ⟨ha, hxs⟩ := forall_mem_cons.mp h
    rw [mapM_cons] at hrun
    obtain ⟨b, s₁, hfirst, hothers⟩ := run_bind_ok.mp hrun
    obtain ⟨rfl, rfl, hP⟩ := ha b s₁ hfirst
    obtain ⟨rest, s₂, hrest, hend⟩ := run_bind_ok.mp hothers
    obtain ⟨rfl, rfl, hall⟩ := ih hxs hrest
    obtain ⟨hys, rfl⟩ := Prod.mk.inj hend
    exact ⟨(Except.ok.inj hys).symm, rfl, forall_mem_cons.mpr ⟨hP, hall⟩⟩

lemma importTarget_ok {id module : Id} {space : String} {r : Option Id}
    (huses : s.uses.targets id = []) (hspace : (s.symbol id).space = some space) (hne : space ≠ "")
    (hmodule : s.find? (some "") space = some module)
    (hrun : (importTarget id).run.run s = (.ok r, s')) :
    r = ((s.uses.targets module).find? fun c => (s.symbol c).name == (s.symbol id).name) ∧ s' = s ∧
      Assoc.get? id s.uses = none := by
  rw [importTarget, run_get_bind] at hrun
  cases hlisted : Assoc.get? id s.uses with
  | none =>
    rw [hlisted] at hrun
    have hpure : (pure id : Visit Id).run.run s = (.ok id, s) := rfl
    have hself : ((s.symbol id).name == (s.symbol id).name) = true := beq_self_eq_true _
    have htop : ¬ ((s.symbol id).space == some "") = true := by
      rw [hspace]
      simp [hne]
    have hfor : (symbolFor (some "") ((s.symbol id).space.getD "") none .unspecified).run.run s
        = (.ok module, s) := by
      rw [hspace]
      rcases symbolFor_run (some "") space none .unspecified s with ⟨i, hi, hfound⟩ | ⟨hnone, -⟩
      · obtain rfl := Option.some.inj (hmodule.symm.trans hi)
        have hraise : s.raise module .unspecified = s := if_neg (Nat.not_lt_zero _)
        exact hfound.trans (by rw [hraise])
      · rw [hmodule] at hnone
        cases hnone
    rw [run_bind_of_ok hpure, run_bind_of_ok (symbolOf_run id s), run_bind_of_ok (symbolOf_run id s),
      if_neg htop, if_pos hself, run_bind_of_ok hfor, run_get_bind] at hrun
    obtain ⟨hr, rfl⟩ := Prod.mk.inj hrun
    exact ⟨(Except.ok.inj hr).symm, rfl, rfl⟩
  | some targets =>
    rw [Edges.targets, hlisted] at huses
    have huses : targets = [] := huses
    rw [hlisted, huses] at hrun
    cases hrun

def State.imports (s : State) : List Id :=
  s.listed.filter fun id => (s.symbol id).flavor == .imported

lemma importTargets_ok {next : Id → Option Id} {targets : List (Id × Id)}
    (hnext : ∀ id ∈ s.imports, ∀ r t, (importTarget id).run.run s = (.ok r, t) →
      r = next id ∧ t = s ∧ Assoc.get? id s.uses = none)
    (hrun : importTargets.run.run s = (.ok targets, s')) :
    targets = s.imports.filterMap (fun id => (next id).map (id, ·)) ∧ s' = s ∧
      ∀ id ∈ s.imports, Assoc.get? id s.uses = none := by
  have hwork : ∀ id ∈ s.imports, ∀ r t,
      (do return (id, ← importTarget id) : Visit (Id × Option Id)).run.run s = (.ok r, t) →
        r = (id, next id) ∧ t = s ∧ Assoc.get? id s.uses = none := by
    intro id hid r t hrun
    obtain ⟨b, s₁, htarget, hpure⟩ := run_bind_ok.mp hrun
    obtain ⟨rfl, hsame, hnone⟩ := hnext id hid b s₁ htarget
    obtain ⟨hr, rfl⟩ := Prod.mk.inj hpure
    exact ⟨(Except.ok.inj hr).symm, hsame, hnone⟩
  rw [importTargets, run_get_bind] at hrun
  obtain ⟨found, s₁, hfound, hpure⟩ := run_bind_ok.mp hrun
  obtain ⟨rfl, hsame, hfree⟩ := mapM_ok hwork hfound
  obtain ⟨htargets, rfl⟩ := Prod.mk.inj hpure
  refine ⟨?_, hsame, hfree⟩
  rw [← Except.ok.inj htargets, filterMap_map]
  rfl

lemma resolveImports_ok {next : Id → Option Id}
    (hnext : ∀ id ∈ s.imports, ∀ r t, (importTarget id).run.run s = (.ok r, t) →
      r = next id ∧ t = s ∧ Assoc.get? id s.uses = none)
    (hattribute : ∀ id ∈ s.listed, (s.symbol id).flavor ≠ .attribute)
    (hrun : resolveImports.run.run s = (.ok (), s')) :
    (∀ id ∈ s.imports, Assoc.get? id s.uses = none) ∧ ∃ f, s' = s.renamed f ∧
      ∀ id, f id = if id ∈ s.imports then (next id).getD id else id := by
  obtain ⟨targets, s₁, htargets, hmodify⟩ := run_bind_ok.mp hrun
  obtain ⟨rfl, rfl, hfree⟩ := importTargets_ok hnext htargets
  obtain ⟨-, rfl⟩ := Prod.mk.inj hmodify
  have hnone : ∀ targets, s₁.attributeTargets targets = [] := by
    intro targets
    rw [State.attributeTargets, filter_eq_nil_iff.mpr]
    · rfl
    · intro id hid
      simp [hattribute id hid]
  refine ⟨hfree, _, rfl, fun id => ?_⟩
  rw [hnone, append_nil, Assoc.get?_filterMap]
  split
  · rfl
  · rfl

lemma expandWild_run (hsymbols : ∀ i < s.symbols.size, (s.symbol i).isWild = false)
    (huses : ∀ e ∈ s.uses, ∀ t ∈ e.2, t < s.symbols.size) :
    expandWild.run.run s = (.ok (), s) := by
  have hnone : (s.uses.pairs.flatMap fun e =>
      if (s.symbol e.2).isWild then
        ((s.named (s.symbol e.2).name).filter fun c => !(s.symbol c).isWild).map (e.1, ·)
      else []) = [] := by
    refine flatMap_eq_nil_iff.mpr fun x hx => ?_
    obtain ⟨e, he, -, ht⟩ := Edges.of_mem_pairs hx
    rw [hsymbols x.2 (huses e he x.2 ht)]
    rfl
  have hsame : s.symbols.map (fun x => if x.isWild then { x with defined := false } else x)
      = s.symbols := by
    refine Array.ext Array.size_map fun i _ hi => ?_
    have hsymbol : s.symbol i = s.symbols[i] := by
      rw [State.symbol, Array.getD_eq_getD_getElem?, Array.getElem?_eq_getElem hi]
      rfl
    rw [Array.getElem_map, ← hsymbol, hsymbols i hi]
    rfl
  have hadd : (addAllUses (s.uses.pairs.flatMap fun e =>
      if (s.symbol e.2).isWild then
        ((s.named (s.symbol e.2).name).filter fun c => !(s.symbol c).isWild).map (e.1, ·)
      else [])).run.run s = (.ok (), s) := by
    rw [hnone]
    rfl
  rw [expandWild, run_get_bind]
  refine (run_bind_of_ok hadd _).trans ?_
  exact congrArg (fun symbols => (Except.ok (), { s with symbols })) hsame

lemma cullInherited_run
    (h : ∀ e ∈ s.uses, ∀ b ∈ e.2, ∀ c ∈ e.2, rivals (s.symbol b) (s.symbol c) = false) :
    cullInherited.run.run s = (.ok (), s) := by
  have himplied : ∀ e ∈ s.uses, ∀ b ∈ e.2, (isImplied b e.2).run.run s = (.ok false, s) := by
    intro e he b hb
    have hhits := mapM_run fun c hc => show
        (do if rivals (← symbolOf b) (← symbolOf c) then
              let above ← parentOf b
              let other ← parentOf c
              return ((← get).uses.targets above).contains other
            else return false : Visit Bool).run.run s = (.ok false, s) by
      rw [run_bind_of_ok (symbolOf_run b s), run_bind_of_ok (symbolOf_run c s), h e he b hb c hc]
      rfl
    rw [isImplied, run_bind_of_ok hhits]
    have hnone : ∀ cs : List Id, (cs.map fun _ => false).contains true = false := by
      intro cs
      simp
    rw [hnone]
    rfl
  have hfilter : ∀ e ∈ s.uses, ∀ bs : List Id, (∀ b ∈ bs, b ∈ e.2) →
      (bs.filterMapM fun b => do return if ← isImplied b e.2 then some (e.1, b) else none :
        Visit (List (Id × Id))).run.run s = (.ok [], s) := by
    intro e he bs hbs
    induction bs with
    | nil => rfl
    | cons b bs ih =>
      obtain ⟨hb, hbs⟩ := forall_mem_cons.mp hbs
      have hwork : (do return if ← isImplied b e.2 then some (e.1, b) else none :
          Visit (Option (Id × Id))).run.run s = (.ok none, s) := by
        rw [run_bind_of_ok (himplied e he b hb)]
        rfl
      rw [filterMapM_cons, run_bind_of_ok hwork]
      exact ih hbs
  -- the results are collected as lists, all of which are empty
  have hloop : ∀ (uses : Edges) (done : List (List (Id × Id))), (∀ e ∈ uses, e ∈ s.uses) →
      done.flatten = [] → (List.flatMapM.loop (fun e =>
        e.2.filterMapM fun b => do return if ← isImplied b e.2 then some (e.1, b) else none)
          uses done : Visit (List (Id × Id))).run.run s = (.ok [], s) := by
    intro uses
    induction uses with
    | nil =>
      intro done _ hdone
      have hnil : done.reverse.flatten = [] := by
        rw [flatten_eq_nil_iff] at hdone ⊢
        exact fun l hl => hdone l (mem_reverse.mp hl)
      rw [List.flatMapM.loop, hnil]
      rfl
    | cons e uses ih =>
      intro done huses hdone
      obtain ⟨he, huses⟩ := forall_mem_cons.mp huses
      rw [List.flatMapM.loop, run_bind_of_ok (hfilter e he e.2 fun _ hb => hb)]
      exact ih ([] :: done) huses hdone
  have hgone : (s.uses.flatMapM fun e =>
      e.2.filterMapM fun b => do return if ← isImplied b e.2 then some (e.1, b) else none :
        Visit (List (Id × Id))).run.run s = (.ok [], s) := hloop s.uses [] (fun _ he => he) rfl
  rw [cullInherited, run_get_bind, run_bind_of_ok hgone]
  rfl

lemma collapseBlocks_run (h : ∀ label ∈ blockLabels, s.named label = []) :
    collapseBlocks.run.run s = (.ok (), s) := by
  have hone : ∀ label ∈ blockLabels, (do
      collapseFrom label ((← get).nesting label + 2) 0 : Visit Unit).run.run s = (.ok (), s) := by
    intro label hlabel
    rw [run_get_bind, collapseFrom, run_get_bind, h label hlabel]
    rfl
  have hall : ∀ labels : List String, (∀ label ∈ labels, label ∈ blockLabels) →
      (labels.forM fun name => do
        collapseFrom name ((← get).nesting name + 2) 0 : Visit PUnit).run.run s = (.ok (), s) := by
    intro labels hlabels
    induction labels with
    | nil => rfl
    | cons label labels ih =>
      obtain ⟨hlabel, hlabels⟩ := forall_mem_cons.mp hlabels
      exact (run_bind_of_ok (hone label hlabel) _).trans (ih hlabels)
  rw [collapseBlocks, run_get_bind]
  exact hall _ fun label hlabel => contains_iff_mem.mp (mem_filter.mp hlabel).2

end Calls

end Docsmith

