import Docsmith.Calls.Related
import Docsmith.Proofs.Tables

/-! # Symbols around one

The search for the symbols related to one keeps a stack. What it has found is reachable, and all
that is next to it was found or waits on the stack (`Searched`). So it ends with everything that is
reachable, or with as many symbols as it may find (`related_neighbourhood`). -/

namespace Docsmith.Calls

open List

namespace State

variable (s : State) (space : String)

def InSpace (id : Id) : Prop :=
  ∃ own, (s.symbol id).space = some own ∧ Text.contains space own = true

/-- A symbol uses or defines another that is a source of such edges itself and in the space. -/
def NextTo (a b : Id) : Prop :=
  ((b ∈ s.uses.targets a ∧ Assoc.has b s.uses = true) ∨
    (b ∈ s.defines.targets a ∧ Assoc.has b s.defines = true)) ∧ s.InSpace space b

/-- The least set with a symbol and, with each of its symbols, all that are next to that one. -/
def neighbourhood (start : Id) : Set Id :=
  {id | Relation.ReflTransGen (s.NextTo space) start id}

/-- The space of every symbol that edges come from is known. -/
def KnownSources : Prop :=
  ∀ e ∈ s.uses ++ s.defines, (s.symbol e.1).space.isSome = true

/-- The table and the edges have no symbols but the given ones. -/
structure Within (ids : List Id) : Prop where
  table : ∀ e ∈ s.table, e.2 ⊆ ids
  uses : ∀ e ∈ s.uses, e.1 ∈ ids ∧ e.2 ⊆ ids
  defines : ∀ e ∈ s.defines, e.1 ∈ ids ∧ e.2 ⊆ ids

lemma within_restrict (ids : List Id) : (s.restrict ids).Within ids := by
  have hcut : ∀ edges : Edges, ∀ e ∈ (edges.filter fun e => ids.contains e.1).map
      fun e => (e.1, e.2.filter ids.contains), e.1 ∈ ids ∧ e.2 ⊆ ids := by
    intro edges e he
    obtain ⟨d, hd, rfl⟩ := mem_map.mp he
    refine ⟨contains_iff_mem.mp (mem_filter.mp hd).2, fun b hb => ?_⟩
    exact contains_iff_mem.mp (mem_filter.mp hb).2
  refine ⟨fun e he b hb => ?_, hcut s.uses, hcut s.defines⟩
  obtain ⟨d, -, rfl⟩ := mem_map.mp he
  exact contains_iff_mem.mp (mem_filter.mp hb).2

variable {s space}

/-! ## One step -/

lemma filterM_ok {test : Id → Except Fault Bool} (keep : Id → Bool)
    (h : ∀ a, test a = .ok (keep a)) (as : List Id) : as.filterM test = .ok (as.filter keep) := by
  have haux : ∀ done, as.filterAuxM test done = .ok ((as.filter keep).reverse ++ done) := by
    induction as with
    | nil => exact fun _ => rfl
    | cons a as ih =>
      intro done
      rw [filterAuxM, h a]
      cases hkeep : keep a with
      | true =>
        rw [filter_cons_of_pos hkeep, reverse_cons, append_assoc]
        exact ih (a :: done)
      | false =>
        rw [filter_cons_of_neg (Bool.eq_false_iff.mp hkeep)]
        exact ih done
  rw [List.filterM, haux [], append_nil]
  exact congrArg Except.ok (reverse_reverse _)

lemma onward_ok {edges : Edges} (h : ∀ e ∈ edges, (s.symbol e.1).space.isSome = true)
    (space : String) (found : List Id) (id : Id) :
    ∃ next, s.onward edges space found id = .ok next ∧ ∀ n, n ∈ next ↔
      n ∈ edges.targets id ∧ (Assoc.has n edges = true ∧ n ∉ found) ∧ s.InSpace space n := by
  classical
  refine ⟨_, filterM_ok (fun n => (Assoc.has n edges && !found.contains n) &&
    decide (s.InSpace space n)) (fun n => ?_) _, fun n => by simp⟩
  by_cases hn : (Assoc.has n edges && !found.contains n) = true
  · obtain ⟨v, hv⟩ := Assoc.get?_isSome_iff.mp (Bool.and_eq_true_iff.mp hn).1
    obtain ⟨own, hown⟩ := Option.isSome_iff_exists.mp (h _ hv)
    rw [if_pos hn, hn]
    simp [inSpace, InSpace, hown]
  · rw [if_neg hn, Bool.eq_false_iff.mpr hn, Bool.false_and]

/-- What is known of a search: all symbols found or waiting are reachable, and what is next to a
symbol found was found or waits. -/
structure Searched (s : State) (space : String) (start : Id) (found stack : List Id) : Prop where
  nodup : found.Nodup
  reached : ∀ id ∈ found ++ stack, id ∈ s.neighbourhood space start
  closed : ∀ a ∈ found, ∀ b, s.NextTo space a b → b ∈ found ++ stack

variable {start id : Id} {found rest used defined : List Id}

lemma Searched.skip (h : Searched s space start found (id :: rest)) (hid : id ∈ found) :
    Searched s space start found rest where
  nodup := h.nodup
  reached n hn := h.reached n (by simp only [mem_append, mem_cons] at hn ⊢; tauto)
  closed a ha b hb := by
    have hmem := h.closed a ha b hb
    rw [mem_append, mem_cons] at hmem
    rcases hmem with hmem | rfl | hmem
    · exact mem_append_left _ hmem
    · exact mem_append_left _ hid
    · exact mem_append_right _ hmem

lemma Searched.step (h : Searched s space start found (id :: rest)) (hid : id ∉ found)
    (hknown : s.KnownSources) : ∃ used defined,
      s.onward s.uses space (found ++ [id]) id = .ok used ∧
      s.onward s.defines space (found ++ [id]) id = .ok defined ∧
      Searched s space start (found ++ [id]) (defined.reverse ++ (used.reverse ++ rest)) := by
  obtain ⟨huses, hdefines⟩ := forall_mem_append.mp hknown
  obtain ⟨used, hused, hmem⟩ := onward_ok huses space (found ++ [id]) id
  obtain ⟨defined, hdefined, hmem'⟩ := onward_ok hdefines space (found ++ [id]) id
  have hstack : ∀ n, n ∈ defined.reverse ++ (used.reverse ++ rest) ↔
      (s.NextTo space id n ∧ n ∉ found ++ [id]) ∨ n ∈ rest := by
    intro n
    simp only [mem_append, mem_reverse, hmem, hmem', NextTo]
    tauto
  have hself := h.reached id (mem_append_right _ mem_cons_self)
  refine ⟨used, defined, hused, hdefined, ?_, fun n hn => ?_, fun a ha b hb => ?_⟩
  · exact nodup_append.mpr ⟨h.nodup, nodup_singleton id, fun a ha b hb => by grind⟩
  · rw [append_assoc, mem_append, mem_append, hstack] at hn
    rcases hn with hn | hn | ⟨hn, -⟩ | hn
    · exact h.reached n (mem_append_left _ hn)
    · exact mem_singleton.mp hn ▸ hself
    · exact hself.tail hn
    · exact h.reached n (mem_append_right _ (mem_cons_of_mem _ hn))
  · rw [mem_append, hstack]
    rcases mem_append.mp ha with ha | ha
    · have hmem := h.closed a ha b hb
      simp only [mem_append, mem_cons] at hmem ⊢
      tauto
    · by_cases hfound : b ∈ found ++ [id]
      · exact Or.inl hfound
      · exact Or.inr (Or.inl ⟨mem_singleton.mp ha ▸ hb, hfound⟩)

/-! ## The whole search -/

/-- A search ends with as many symbols as it may find, or with nothing left to find. -/
lemma Searched.search (hknown : s.KnownSources) (limit : Nat) {stack : List Id}
    (h : Searched s space start found stack) :
    ∃ r, s.search space limit found stack = .ok r ∧ found ++ stack.head?.toList ⊆ r ∧
      r.Nodup ∧ (∀ id ∈ r, id ∈ s.neighbourhood space start) ∧
      (r.length = found.length + limit + 1 ∨
        r.length ≤ found.length + limit ∧ ∀ a ∈ r, ∀ b, s.NextTo space a b → b ∈ r) := by
  fun_induction State.search s space limit found stack with
  | case1 limit found =>
    refine ⟨found, rfl, by simp, h.nodup, ?_, Or.inr ⟨Nat.le_add_right .., ?_⟩⟩
    · exact fun n hn => h.reached n (mem_append_left _ hn)
    · simpa using h.closed
  | case2 limit found id rest hid ih =>
    have hid := contains_iff_mem.mp hid
    obtain ⟨r, hr, hsub, hall⟩ := ih (h.skip hid)
    have hfound : found ⊆ r := fun n hn => hsub (mem_append_left _ hn)
    exact ⟨r, hr, append_subset.mpr ⟨hfound, by simpa using hfound hid⟩, hall⟩
  | case3 found id rest hid =>
    obtain ⟨used, defined, -, -, hstep⟩ := h.step (mt contains_iff_mem.mpr hid) hknown
    refine ⟨found ++ [id], rfl, Subset.refl _, hstep.nodup, ?_, Or.inl (by simp)⟩
    exact fun n hn => hstep.reached n (mem_append_left _ hn)
  | case4 found id rest hid limit found' ih =>
    obtain ⟨used, defined, hused, hdefined, hstep⟩ := h.step (mt contains_iff_mem.mpr hid) hknown
    obtain ⟨r, hr, hsub, hnodup, hreached, hend⟩ := ih used defined hstep
    have hlength : found'.length = found.length + 1 := length_append
    rw [hlength] at hend
    refine ⟨r, ?_, fun n hn => hsub (mem_append_left _ hn), hnodup, hreached, ?_⟩
    · rw [hused, hdefined]
      exact hr
    · exact hend.imp (fun h => by omega) (And.imp_left fun h => by omega)

end State

/-- **Bounded search.** If all sources have a space, the search for the symbols related to one finds
that one and only symbols of its neighbourhood, all of them or as many as it may, and restricting
the state to them leaves no others in it. -/
theorem related_neighbourhood {s : State} (hknown : s.KnownSources) (start : Id) (space : String)
    (limit : Nat) :
    ∃ found, s.related (some start) (some space) limit = .ok found ∧ found.Nodup ∧ start ∈ found ∧
      (∀ id ∈ found, id ∈ s.neighbourhood space start) ∧
      (found.length : ℕ∞) = min (s.neighbourhood space start).encard (limit + 1) ∧
      ((s.neighbourhood space start).encard ≤ limit + 1 →
        ∀ id, id ∈ found ↔ id ∈ s.neighbourhood space start) ∧
      (s.restrict found).Within found := by
  have hstart : State.Searched s space start [] [start] := {
    nodup := nodup_nil
    reached := fun n hn => mem_singleton.mp hn ▸ Relation.ReflTransGen.refl
    closed := nofun }
  obtain ⟨r, hr, hsub, hnodup, hreached, hend⟩ := hstart.search hknown limit
  have hself : start ∈ r := hsub mem_cons_self
  have hcard : (r.length : ℕ∞) = {id | id ∈ r}.encard := by
    rw [← toFinset_card_of_nodup hnodup, ← Set.encard_coe_eq_coe_finsetCard, coe_toFinset]
  have hle : {id | id ∈ r} ⊆ s.neighbourhood space start := hreached
  have hlength : (r.length : ℕ∞) = min (s.neighbourhood space start).encard (limit + 1) := by
    rcases hend with hend | ⟨hend, hclosed⟩
    · have hfull : (r.length : ℕ∞) = limit + 1 := by simp [hend]
      rw [min_eq_right (hfull ▸ hcard ▸ Set.encard_le_encard hle), hfull]
    · have hall : s.neighbourhood space start = {id | id ∈ r} := by
        refine hle.antisymm' fun id hid => ?_
        induction hid with
        | refl => exact hself
        | tail _ hnext ih => exact hclosed _ ih _ hnext
      have hfits : (r.length : ℕ∞) ≤ limit + 1 := by
        exact_mod_cast (Nat.le_succ_of_le (by simpa using hend) : r.length ≤ limit + 1)
      rw [hall, ← hcard, min_eq_left hfits]
  refine ⟨r, hr, hnodup, hself, hreached, hlength, fun hfits id => ?_, s.within_restrict r⟩
  rw [min_eq_left hfits, hcard] at hlength
  exact Set.ext_iff.mp (r.finite_toSet.eq_of_subset_of_encard_le hle hlength.ge) id

/-- Three functions of a module, of which the first two use each other and the third. -/
def ring : State where
  symbols := #[⟨some "m", "f", none, none, .function, true⟩,
    ⟨some "m", "g", none, none, .function, true⟩, ⟨some "m", "h", none, none, .function, true⟩]
  uses := [(0, [1]), (1, [2, 0]), (2, [])]
  defines := [(0, [2])]

theorem related_neighbourhood_ring : ring.KnownSources ∧
    ∃ found, ring.related (some 0) (some "m") 1 = .ok found ∧
      (found.length : ℕ∞) = min (ring.neighbourhood "m" 0).encard (1 + 1) := by
  have hknown : ring.KnownSources := by
    rw [State.KnownSources]
    decide
  obtain ⟨found, hfound, -, -, -, hlength, -⟩ := related_neighbourhood hknown 0 "m" 1
  exact ⟨hknown, found, hfound, hlength⟩

end Docsmith.Calls
