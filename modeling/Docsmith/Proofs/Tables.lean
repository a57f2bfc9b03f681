import Docsmith.Assoc
import Mathlib

/-! # Tables

Association lists and lists without repetition. Of several entries with one key the last one set
counts (`get?_ofList`). -/

namespace Docsmith

open List

/-! ## Association lists -/

namespace Assoc

variable {κ β : Type} [DecidableEq κ] {key : κ} {value : β} {m : List (κ × β)}

lemma mem_of_get? (h : get? key m = some value) : (key, value) ∈ m := by
  induction m with
  | nil => exact nomatch h
  | cons e m ih =>
    obtain ⟨k, v⟩ := e
    rw [get?] at h
    by_cases hk : k = key
    · rw [if_pos hk, Option.some.injEq] at h
      rw [hk, h]
      exact mem_cons_self
    · rw [if_neg hk] at h
      exact mem_cons_of_mem _ (ih h)

lemma has_iff : has key m = true ↔ ∃ v, get? key m = some v :=
  Option.isSome_iff_exists

lemma get?_isSome_iff : (get? key m).isSome = true ↔ ∃ v, (key, v) ∈ m := by
  constructor
  · intro h
    obtain ⟨v, hv⟩ := Option.isSome_iff_exists.mp h
    exact ⟨v, mem_of_get? hv⟩
  · rintro ⟨v, hv⟩
    induction m with
    | nil => cases hv
    | cons e m ih =>
      obtain ⟨k, w⟩ := e
      rw [get?]
      by_cases hk : k = key
      · rw [if_pos hk]
        rfl
      · rw [if_neg hk]
        refine ih ((mem_cons.mp hv).resolve_left ?_)
        rintro ⟨⟩
        exact hk rfl

lemma get?_set (key other : κ) (value : β) (m : List (κ × β)) :
    get? other (set key value m) = if other = key then some value else get? other m := by
  by_cases h : other = key
  · rw [if_pos h, h, get?_set_self]
  · rw [if_neg h, get?_set_of_ne value m h]

lemma mem_of_mem_set {e : κ × β} (h : e ∈ set key value m) : e = (key, value) ∨ e ∈ m := by
  induction m with
  | nil => exact Or.inl (mem_singleton.mp h)
  | cons d m ih =>
    obtain ⟨k, v⟩ := d
    rw [set] at h
    split at h
    · rename_i hk
      rcases mem_cons.mp h with rfl | h
      · exact Or.inl (hk ▸ rfl)
      · exact Or.inr (mem_cons_of_mem _ h)
    · rcases mem_cons.mp h with rfl | h
      · exact Or.inr mem_cons_self
      · exact (ih h).imp id fun h => mem_cons_of_mem _ h

lemma ofList_concat (es : List (κ × β)) (e : κ × β) :
    ofList (es ++ [e]) = set e.1 e.2 (ofList es) := by
  rw [ofList, foldl_append]
  rfl

lemma mem_of_mem_ofList {e : κ × β} {es : List (κ × β)} (h : e ∈ ofList es) : e ∈ es := by
  induction es using List.reverseRecOn with
  | nil => exact h
  | append_singleton es d ih =>
    rw [ofList_concat] at h
    rcases mem_of_mem_set h with rfl | h
    · exact mem_append_right _ mem_cons_self
    · exact mem_append_left _ (ih h)

lemma get?_ofList (key : κ) (es : List (κ × β)) :
    get? key (ofList es) = ((es.filter (·.1 = key)).map Prod.snd).getLast? := by
  induction es using List.reverseRecOn with
  | nil => rfl
  | append_singleton es e ih =>
    rw [ofList_concat, get?_set, filter_append, map_append, getLast?_append, ih]
    by_cases h : e.1 = key
    · simp [h]
    · simp [h, Ne.symm h]

end Assoc

/-! ## Lists without repetition -/

section Distinct

variable {α : Type} [BEq α] [LawfulBEq α]

lemma nodup_eraseDups (xs : List α) : xs.eraseDups.Nodup := by
  -- every step takes the first element and all that equal it
  induction h : xs.length using Nat.strong_induction_on generalizing xs with
  | _ n ih =>
    cases xs with
    | nil => exact nodup_nil
    | cons a as =>
      rw [eraseDups_cons, nodup_cons]
      refine ⟨fun ha => ?_, ih _ ?_ _ rfl⟩
      · simpa using (mem_filter.mp (mem_eraseDups.mp ha)).2
      · rw [← h]
        exact Nat.lt_succ_of_le (length_filter_le ..)

end Distinct

/-! ## Lists that are made item by item -/

lemma exists_left_of_forall₂ {α β : Type} {R : α → β → Prop} {xs : List α} {ys : List β}
    (h : List.Forall₂ R xs ys) {b : β} (hb : b ∈ ys) : ∃ a ∈ xs, R a b := by
  induction h with
  | nil => cases hb
  | cons hab _ ih =>
    rcases mem_cons.mp hb with rfl | hb
    · exact ⟨_, mem_cons_self, hab⟩
    · obtain ⟨a, ha, hab⟩ := ih hb
      exact ⟨a, mem_cons_of_mem _ ha, hab⟩

lemma exists_forall₂_iff {α β : Type} {R : α → β → Prop} {as : List α} :
    (∃ bs, List.Forall₂ R as bs) ↔ ∀ a ∈ as, ∃ b, R a b := by
  induction as with
  | nil => exact ⟨fun _ => by simp, fun _ => ⟨[], .nil⟩⟩
  | cons a as ih =>
    rw [forall_mem_cons, ← ih]
    constructor
    · rintro ⟨bs, h⟩
      cases h with
      | cons hfirst hrest => exact ⟨⟨_, hfirst⟩, _, hrest⟩
    · rintro ⟨⟨b, hb⟩, bs, hbs⟩
      exact ⟨b :: bs, .cons hb hbs⟩

lemma map_ok_iff {α β ε : Type} {f : α → β} {x : Except ε α} {b : β} :
    x.map f = .ok b ↔ ∃ a, x = .ok a ∧ f a = b := by
  cases x with
  | error e | ok a => simp [Except.map]

lemma mapM_ok_iff {α β ε : Type} {f : α → Except ε β} {as : List α} {bs : List β} :
    as.mapM f = .ok bs ↔ List.Forall₂ (fun a b => f a = .ok b) as bs := by
  induction as generalizing bs with
  | nil =>
    rw [mapM_nil, forall₂_nil_left_iff]
    constructor
    · intro h
      exact (Except.ok.inj h).symm
    · rintro rfl
      rfl
  | cons a as ih =>
    rw [mapM_cons, forall₂_cons_left_iff]
    cases hb : f a with
    | error e => simp [bind, Except.bind]
    | ok b =>
      cases hbs : as.mapM f with
      | error e =>
        simp only [← ih, hbs]
        simp [bind, Except.bind]
      | ok bs' =>
        simp only [← ih, hbs]
        simp [bind, Except.bind, pure, Except.pure, eq_comm]

lemma exists_mapM_ok_iff {α β ε : Type} {f : α → Except ε β} {as : List α} :
    (∃ bs, as.mapM f = .ok bs) ↔ ∀ a ∈ as, ∃ b, f a = .ok b := by
  simp only [mapM_ok_iff, exists_forall₂_iff]

end Docsmith
