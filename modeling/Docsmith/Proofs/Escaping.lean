import Docsmith.Proofs.DumpScript

/-! # Escaping quotes

The command of a block is escaped by two replacements, of which the second takes back what the first
did to quotes with a backslash before them. Together they put a backslash before exactly the other
quotes, so none is left bare and a second escaping changes nothing (`escapeQuotes_shields`). -/

namespace Docsmith.Build

open List

/-- The characters of a text, each with the one before it; `before` stands before the first. -/
def withPrevious (before : Option Char) (cs : List Char) : List (Char × Option Char) :=
  cs.zip (before :: cs.map some)

/-- The text with a backslash before each quote that has none. -/
def shield (before : Option Char) (cs : List Char) : List Char :=
  (withPrevious before cs).flatMap fun (c, previous) =>
    if c = '"' ∧ previous ≠ some '\\' then ['\\', c] else [c]

/-- Every quote has a backslash before it. -/
def IsShielded (before : Option Char) (cs : List Char) : Prop :=
  ∀ p ∈ withPrevious before cs, p.1 = '"' → p.2 = some '\\'

variable {c : Char} {cs : List Char}

lemma shield_cons (before : Option Char) (c : Char) (cs : List Char) : shield before (c :: cs)
    = (if c = '"' ∧ before ≠ some '\\' then ['\\', c] else [c]) ++ shield (some c) cs := rfl

lemma isShielded_cons {before : Option Char} : IsShielded before (c :: cs) ↔
    (c = '"' → before = some '\\') ∧ IsShielded (some c) cs :=
  forall_mem_cons

lemma isShielded_shield (before : Option Char) (cs : List Char) :
    IsShielded before (shield before cs) := by
  induction cs generalizing before with
  | nil => exact fun p hp => absurd hp not_mem_nil
  | cons c cs ih =>
    rw [shield_cons]
    split
    · exact isShielded_cons.mpr ⟨by simp, isShielded_cons.mpr ⟨fun _ => rfl, ih _⟩⟩
    · rename_i h
      exact isShielded_cons.mpr ⟨fun hc => not_not.mp fun hb => h ⟨hc, hb⟩, ih _⟩

lemma shield_eq_self {before : Option Char} (h : IsShielded before cs) : shield before cs = cs := by
  induction cs generalizing before with
  | nil => rfl
  | cons c cs ih =>
    obtain ⟨hc, hcs⟩ := isShielded_cons.mp h
    rw [shield_cons, if_neg fun hbare => hbare.2 (hc hbare.1), ih hcs, singleton_append]

/-! ## The two replacements -/

def guardAll (cs : List Char) : List Char :=
  Chars.replaceFrom ['"'] ['\\', '"'] cs 0

def takeBack (cs : List Char) : List Char :=
  Chars.replaceFrom ['\\', '\\', '"'] ['\\', '"'] cs 0

lemma guardAll_quote (cs : List Char) : guardAll ('"' :: cs) = '\\' :: '"' :: guardAll cs :=
  Chars.replaceFrom_append (show ['"'] ≠ [] by decide) _ cs

lemma guardAll_cons (hc : c ≠ '"') (cs : List Char) : guardAll (c :: cs) = c :: guardAll cs :=
  Chars.replaceFrom_cons (fun h => hc (cons_prefix_cons.mp h).1.symm) _

lemma quote_not_prefix_guardAll (cs : List Char) : ¬ ['"'] <+: guardAll cs := by
  cases cs with
  | nil => decide
  | cons c cs =>
    by_cases hc : c = '"'
    · rw [hc, guardAll_quote]
      simp
    · rw [guardAll_cons hc]
      simpa using Ne.symm hc

lemma takeBack_cons (h : ¬ ['\\', '\\', '"'] <+: c :: cs) : takeBack (c :: cs) = c :: takeBack cs :=
  Chars.replaceFrom_cons h _

/-- Both replacements of a text, after a backslash and otherwise. -/
lemma takeBack_guardAll (cs : List Char) :
    (∀ before ≠ some '\\', takeBack (guardAll cs) = shield before cs) ∧
      takeBack ('\\' :: guardAll cs) = '\\' :: shield (some '\\') cs := by
  induction cs with
  | nil => exact ⟨fun _ _ => rfl, by decide⟩
  | cons c cs ih =>
    obtain ⟨hbare, hescaped⟩ := ih
    by_cases hquote : c = '"'
    · subst hquote
      rw [guardAll_quote]
      refine ⟨fun before hbefore => ?_, ?_⟩
      · rw [takeBack_cons (by simp), takeBack_cons (by simp), hbare (some '"') (by decide),
          shield_cons, if_pos ⟨rfl, hbefore⟩, cons_append, singleton_append]
      · have hhit : takeBack (['\\', '\\', '"'] ++ guardAll cs)
            = ['\\', '"'] ++ takeBack (guardAll cs) :=
          Chars.replaceFrom_append (by decide) _ _
        rw [hbare (some '"') (by decide)] at hhit
        exact hhit
    · have hshield : ∀ before, shield before (c :: cs) = c :: shield (some c) cs := fun before => by
        rw [shield_cons, if_neg fun h => hquote h.1, singleton_append]
      rw [guardAll_cons hquote]
      by_cases hslash : c = '\\'
      · subst hslash
        refine ⟨fun before _ => by rw [hescaped, hshield], ?_⟩
        -- the text after the first replacement does not start with a quote
        have hmiss : ¬ ['\\', '\\', '"'] <+: '\\' :: '\\' :: guardAll cs := fun h =>
          quote_not_prefix_guardAll cs (cons_prefix_cons.mp (cons_prefix_cons.mp h).2).2
        rw [takeBack_cons hmiss, hescaped, hshield]
      · have hrest : takeBack (c :: guardAll cs) = c :: shield (some c) cs := by
          rw [takeBack_cons (by simp [Ne.symm hslash]), hbare (some c) (by simp [hslash])]
        refine ⟨fun before _ => by rw [hrest, hshield], ?_⟩
        rw [takeBack_cons (by simp [Ne.symm hslash]), hrest, hshield]

lemma toList_escapeQuotes_eq_shield (s : String) :
    (escapeQuotes s).toList = shield none s.toList :=
  (toList_escapeQuotes s).trans ((takeBack_guardAll s.toList).1 none (by decide))

/-- Escaping puts a backslash before exactly the quotes that have none and changes nothing else.
Then every quote has one, and escaping again changes nothing. -/
theorem escapeQuotes_shields (s : String) :
    (escapeQuotes s).toList = shield none s.toList ∧ IsShielded none (escapeQuotes s).toList ∧
      escapeQuotes (escapeQuotes s) = escapeQuotes s := by
  have hshielded : IsShielded none (escapeQuotes s).toList :=
    toList_escapeQuotes_eq_shield s ▸ isShielded_shield none _
  refine ⟨toList_escapeQuotes_eq_shield s, hshielded, ?_⟩
  rw [← String.toList_inj, toList_escapeQuotes_eq_shield, shield_eq_self hshielded]

end Docsmith.Build
