import Docsmith.Text
import Mathlib

/-! # Occurrences, cuts, ends and lines

A pattern that lacks a character cannot reach across it, one that has it in front only cannot reach
into it, and one that ends in something else than a blank does not see blanks that are added. These
facts tell where `breakOn`, `before` and `splitOn` cut, and what `strip` leaves. -/

namespace Docsmith.Chars

open List

variable {pat x y : List Char} {c : Char}

/-! ## Where a pattern occurs -/

lemma prefix_of_prefix_append_cons (hc : c ∉ pat) (h : pat <+: x ++ c :: y) : pat <+: x := by
  induction x generalizing pat with
  | nil =>
    cases pat with
    | nil => exact prefix_rfl
    | cons d p =>
      obtain ⟨rfl, -⟩ := cons_prefix_cons.mp h
      exact absurd mem_cons_self hc
  | cons e x ih =>
    cases pat with
    | nil => exact nil_prefix
    | cons d p =>
      obtain ⟨rfl, hp⟩ := cons_prefix_cons.mp h
      exact cons_prefix_cons.mpr ⟨rfl, ih (fun hm => hc (mem_cons_of_mem _ hm)) hp⟩

lemma infix_append_cons_iff (hne : pat ≠ []) (hc : c ∉ pat) :
    pat <:+: x ++ c :: y ↔ pat <:+: x ∨ pat <:+: y := by
  induction x with
  | nil =>
    rw [nil_append, infix_cons_iff, infix_nil]
    constructor
    · rintro (h | h)
      · exact absurd (prefix_nil.mp (prefix_of_prefix_append_cons (x := []) hc h)) hne
      · exact Or.inr h
    · rintro (h | h)
      · exact absurd h hne
      · exact Or.inr h
  | cons d x ih =>
    rw [cons_append, infix_cons_iff, ih, infix_cons_iff, ← or_assoc]
    refine or_congr_left (or_congr_left ⟨fun h => ?_, fun h => ?_⟩)
    · exact prefix_of_prefix_append_cons (x := d :: x) hc h
    · exact h.trans (prefix_append (d :: x) (c :: y))

lemma cons_infix_append_cons_iff (hc : c ∉ pat) :
    c :: pat <:+: x ++ c :: y ↔ c :: pat <:+: x ∨ c :: pat <:+: c :: y := by
  induction x with
  | nil => simp
  | cons d x ih =>
    rw [cons_append, infix_cons_iff, ih, infix_cons_iff (a := d), ← or_assoc]
    refine or_congr_left (or_congr_left ⟨fun h => ?_, fun h => ?_⟩)
    · obtain ⟨rfl, hp⟩ := cons_prefix_cons.mp h
      exact cons_prefix_cons.mpr ⟨rfl, prefix_of_prefix_append_cons hc hp⟩
    · exact h.trans (prefix_append (d :: x) (c :: y))

lemma prefix_append_iff_of_last {p : Char → Bool} (hne : pat ≠ [])
    (hlast : p (pat.getLast hne) = false) (hy : ∀ c ∈ y, p c = true) :
    pat <+: x ++ y ↔ pat <+: x := by
  constructor
  · intro h
    rcases prefix_or_prefix_of_prefix h (prefix_append x y) with hx | ⟨z, rfl⟩
    · exact hx
    · cases z with
      | nil => simp
      | cons d z =>
        -- the pattern would end in one of the added characters
        have hz : d :: z <+: y := (prefix_append_right_inj x).mp h
        have hmem := getLast_mem (l := d :: z) (by simp)
        rw [getLast_append_of_ne_nil _ (by simp)] at hlast
        rw [hy _ (hz.subset hmem)] at hlast
        exact nomatch hlast
  · intro h
    exact h.trans (prefix_append x y)

lemma infix_append_iff_of_last {p : Char → Bool} (hne : pat ≠ [])
    (hlast : p (pat.getLast hne) = false) (hy : ∀ c ∈ y, p c = true) :
    pat <:+: x ++ y ↔ pat <:+: x := by
  induction x with
  | nil =>
    rw [nil_append, infix_nil]
    constructor
    · intro h
      have hmem := h.subset (getLast_mem hne)
      rw [hy _ hmem] at hlast
      exact nomatch hlast
    · intro h
      exact absurd h hne
  | cons d x ih =>
    rw [cons_append, infix_cons_iff, ih, infix_cons_iff]
    refine or_congr_left ?_
    exact prefix_append_iff_of_last (x := d :: x) hne hlast hy

/-! ## Cutting -/

lemma breakOn_of_prefix (hne : pat ≠ []) : breakOn pat (pat ++ y) = some ([], y) := by
  cases pat with
  | nil => exact absurd rfl hne
  | cons d p =>
    rw [cons_append, breakOn, if_pos]
    · rw [← cons_append, drop_left]
    · exact isPrefixOf_iff_prefix.mpr (prefix_append (d :: p) y)

variable {cs : List Char}

lemma breakOn_eq_none_iff (hne : pat ≠ []) : breakOn pat cs = none ↔ ¬ pat <:+: cs := by
  induction cs with
  | nil =>
    rw [breakOn, if_neg (by simpa using hne), infix_nil]
    simpa using hne
  | cons d cs ih =>
    rw [breakOn, infix_cons_iff, not_or, ← ih]
    by_cases h : pat.isPrefixOf (d :: cs) = true
    · rw [if_pos h]
      simp [ isPrefixOf_iff_prefix.mp h]
    · rw [if_neg h, Option.map_eq_none_iff]
      rw [ isPrefixOf_iff_prefix] at h
      simp [h]

lemma breakOn_append (h : ∀ z, z <:+ x → z ≠ [] → ¬ pat <+: z ++ y) :
    breakOn pat (x ++ y) = (breakOn pat y).map fun r => (x ++ r.1, r.2) := by
  induction x with
  | nil => simp
  | cons d x ih =>
    have hhead : ¬ pat <+: d :: (x ++ y) := h (d :: x) suffix_rfl (by simp)
    rw [cons_append, breakOn, if_neg (by simpa using hhead),
      ih fun z hz => h z (hz.trans (suffix_cons d x)), Option.map_map]
    rfl

lemma breakOn_append_cons (hc : c ∉ pat) (h : ¬ pat <:+: x) :
    breakOn pat (x ++ c :: y) = (breakOn pat y).map fun r => (x ++ c :: r.1, r.2) := by
  rw [show x ++ c :: y = (x ++ [c]) ++ y by simp, breakOn_append]
  · simp
  · intro z hz hzne hp
    -- a suffix that is not empty ends in the character
    rcases suffix_concat_iff.mp hz with rfl | ⟨w, rfl, hw⟩
    · exact hzne rfl
    · rw [append_assoc] at hp
      exact h ((prefix_of_prefix_append_cons hc hp).isInfix.trans hw.isInfix)

lemma breakOn_cons_append_cons (hc : c ∉ pat) (h : ¬ c :: pat <:+: x) :
    breakOn (c :: pat) (x ++ c :: y)
      = (breakOn (c :: pat) (c :: y)).map fun r => (x ++ r.1, r.2) := by
  refine breakOn_append fun z hz hne hp => h ?_
  cases z with
  | nil => exact absurd rfl hne
  | cons d z =>
    obtain ⟨rfl, htail⟩ := cons_prefix_cons.mp hp
    have hpre : c :: pat <+: c :: z :=
      cons_prefix_cons.mpr ⟨rfl, prefix_of_prefix_append_cons hc htail⟩
    exact hpre.isInfix.trans hz.isInfix

lemma breakOn_append_of_last {p : Char → Bool} (hne : pat ≠ [])
    (hlast : p (pat.getLast hne) = false) (hy : ∀ c ∈ y, p c = true) :
    breakOn pat (x ++ y) = (breakOn pat x).map fun r => (r.1, r.2 ++ y) := by
  induction x with
  | nil =>
    have hno : ¬ pat <:+: [] ++ y := fun h =>
      hne (infix_nil.mp ((infix_append_iff_of_last hne hlast hy).mp h))
    rw [(breakOn_eq_none_iff hne).mpr hno, breakOn, if_neg (by simpa using hne)]
    rfl
  | cons d x ih =>
    rw [cons_append, breakOn, breakOn, ih]
    have hiff := prefix_append_iff_of_last (x := d :: x) hne hlast hy
    rw [← isPrefixOf_iff_prefix, ← isPrefixOf_iff_prefix, cons_append] at hiff
    by_cases h : pat.isPrefixOf (d :: x) = true
    · rw [if_pos h, if_pos (hiff.mpr h), Option.map_some, ← cons_append,
        drop_append_of_le_length ( isPrefixOf_iff_prefix.mp h).length_le]
    · rw [if_neg h, if_neg (fun h' => h (hiff.mp h')), Option.map_map, Option.map_map]
      rfl

lemma before_eq_self (hne : pat ≠ []) (h : ¬ pat <:+: cs) : before pat cs = cs := by
  rw [before, (breakOn_eq_none_iff hne).mpr h]

lemma before_prefix (pat cs : List Char) : before pat cs <+: cs := by
  rw [before]
  split
  · rename_i b a hcut
    rw [eq_append_of_breakOn hcut, append_assoc]
    exact prefix_append b _
  · exact prefix_rfl

lemma before_append_cons (hne : pat ≠ []) (hc : c ∉ pat) (h : ¬ pat <:+: x) :
    before pat (x ++ c :: (pat ++ y)) = x ++ [c] := by
  rw [before, breakOn_append_cons hc h, breakOn_of_prefix hne]
  rfl

lemma not_infix_before (hne : pat ≠ []) (cs : List Char) : ¬ pat <:+: before pat cs := by
  induction cs with
  | nil =>
    rw [before, breakOn, if_neg (by simpa using hne), infix_nil]
    exact hne
  | cons d cs ih =>
    rw [before, breakOn]
    by_cases h : pat.isPrefixOf (d :: cs) = true
    · rw [if_pos h, infix_nil]
      exact hne
    · rw [if_neg h]
      rw [ isPrefixOf_iff_prefix] at h
      rw [before] at ih
      cases hcut : breakOn pat cs with
      | none =>
        rw [hcut] at ih
        exact fun hin => (infix_cons_iff.mp hin).elim h ih
      | some r =>
        rw [hcut] at ih
        have hcs := eq_append_of_breakOn (b := r.1) (a := r.2) hcut
        refine fun hin => (infix_cons_iff.mp hin).elim (fun hp => h ?_) ih
        rw [hcs, append_assoc]
        exact hp.trans (prefix_append (d :: r.1) _)

lemma splitFrom_skip (cs : List Char) (k : Nat) :
    splitFrom pat cs k = splitFrom pat (cs.drop k) 0 := by
  induction k generalizing cs with
  | zero => rfl
  | succ k ih =>
    cases cs with
    | nil => rfl
    | cons d cs => exact ih cs

lemma splitOn_eq (hne : pat ≠ []) (cs : List Char) :
    splitOn pat cs = match breakOn pat cs with
      | none => [cs]
      | some (b, a) => b :: splitOn pat a := by
  have hempty : pat.isEmpty = false := by simpa using hne
  simp only [splitOn, hempty, Bool.false_eq_true, if_false]
  induction cs with
  | nil => simp [splitFrom, breakOn, hne]
  | cons d cs ih =>
    by_cases h : pat.isPrefixOf (d :: cs) = true
    · rw [splitFrom, breakOn, if_pos h, if_pos h, splitFrom_skip]
      cases pat with
      | nil => exact absurd rfl hne
      | cons e p => rfl
    · rw [splitFrom, breakOn, if_neg h, if_neg h, ih]
      cases breakOn pat cs with
      | none | some r => rfl

lemma splitOn_ne_nil (hne : pat ≠ []) (cs : List Char) : splitOn pat cs ≠ [] := by
  rw [splitOn_eq hne]
  cases breakOn pat cs with
  | none | some r => simp

/-! ## Pieces between single characters -/

lemma splitOn_cons_self (c : Char) (cs : List Char) :
    splitOn [c] (c :: cs) = [] :: splitOn [c] cs := by
  have hcut : breakOn [c] (c :: cs) = some ([], cs) := breakOn_of_prefix (cons_ne_nil c [])
  rw [splitOn_eq (by simp), hcut]

lemma splitOn_cons {d : Char} (hd : d ≠ c) {cs q : List Char} {qs : List (List Char)}
    (h : splitOn [c] cs = q :: qs) : splitOn [c] (d :: cs) = (d :: q) :: qs := by
  have hno : ¬ [c].isPrefixOf (d :: cs) = true := by simpa using fun h => hd h.symm
  rw [splitOn_eq (by simp)] at h
  rw [splitOn_eq (by simp), breakOn, if_neg hno]
  cases hcut : breakOn [c] cs with
  | none | some r =>
    rw [hcut] at h
    obtain ⟨rfl, rfl⟩ := List.cons.inj h
    rfl

lemma splitOn_append (hx : c ∉ x) {q : List Char} {qs : List (List Char)}
    (h : splitOn [c] y = q :: qs) : splitOn [c] (x ++ y) = (x ++ q) :: qs := by
  induction x with
  | nil => exact h
  | cons d x ih =>
    rw [mem_cons, not_or] at hx
    exact splitOn_cons (Ne.symm hx.1) (ih hx.2)

lemma splitOn_append_cons (c : Char) (x y : List Char) :
    splitOn [c] (x ++ c :: y) = splitOn [c] x ++ splitOn [c] y := by
  induction x with
  | nil => exact splitOn_cons_self c y
  | cons d x ih =>
    by_cases hd : d = c
    · subst hd
      rw [cons_append, splitOn_cons_self, splitOn_cons_self, ih, cons_append]
    · obtain ⟨q, qs, hq⟩ := exists_cons_of_ne_nil (splitOn_ne_nil (cons_ne_nil c []) x)
      rw [hq, cons_append] at ih
      rw [cons_append, splitOn_cons hd ih, splitOn_cons hd hq, cons_append]

/-! ## Ends -/

variable {p : Char → Bool}

lemma trimRight_eq (cs : List Char) : trimRight p cs = cs.rdropWhile p := rfl

lemma exists_eq_trim (p : Char → Bool) (cs : List Char) :
    ∃ l r, cs = l ++ trim p cs ++ r ∧ (∀ c ∈ l, p c = true) ∧ ∀ c ∈ r, p c = true := by
  refine ⟨cs.takeWhile p, (cs.dropWhile p).rtakeWhile p, ?_, ?_, ?_⟩
  · rw [trim, trimRight_eq, append_assoc, rdropWhile_append_rtakeWhile,
      takeWhile_append_dropWhile]
  · intro c hc
    exact mem_takeWhile_imp hc
  · intro c hc
    exact mem_rtakeWhile_imp hc

lemma trim_infix (p : Char → Bool) (cs : List Char) : trim p cs <:+: cs := by
  obtain ⟨l, r, h, -, -⟩ := exists_eq_trim p cs
  exact ⟨l, r, h.symm⟩

lemma trim_append_of_all (h : ∀ c ∈ y, p c = true) : trim p (x ++ y) = trim p x := by
  induction y using List.reverseRecOn with
  | nil => rw [append_nil]
  | append_singleton y c ih =>
    have hc : p c = true := h c (by simp)
    rw [← ih fun d hd => h d (by simp [hd]), ← append_assoc, trim, trim, trimRight_eq,
      trimRight_eq, dropWhile_append]
    by_cases hall : (List.dropWhile p (x ++ y)).isEmpty = true
    · rw [if_pos hall, List.isEmpty_iff.mp hall]
      simp [hc]
    · rw [if_neg hall, rdropWhile_concat_pos _ _ _ hc]

lemma trim_cons_of_pos (h : p c = true) : trim p (c :: x) = trim p x := by
  rw [trim, dropWhile_cons_of_pos h, trim]

lemma trim_append_of_all_left (h : ∀ c ∈ x, p c = true) : trim p (x ++ y) = trim p y := by
  induction x with
  | nil => rfl
  | cons c x ih =>
    rw [cons_append, trim_cons_of_pos (h c mem_cons_self),
      ih fun d hd => h d (mem_cons_of_mem c hd)]

lemma trim_eq_self_iff :
    trim p cs = cs ↔ ∀ h : cs ≠ [], p (cs.head h) = false ∧ p (cs.getLast h) = false := by
  constructor
  · intro heq h
    cases cs with
    | nil => exact absurd rfl h
    | cons c cs =>
      have hhead : p c = false := by
        by_contra hc
        rw [Bool.not_eq_false] at hc
        rw [trim_cons_of_pos hc] at heq
        have hlen := ( trim_infix p cs).length_le
        rw [heq] at hlen
        exact absurd hlen (Nat.not_succ_le_self cs.length)
      refine ⟨hhead, ?_⟩
      rw [trim, dropWhile_cons_of_neg (by simp [hhead]), trimRight_eq,
        rdropWhile_eq_self_iff] at heq
      simpa using heq h
  · intro h
    cases cs with
    | nil => rfl
    | cons c cs =>
      obtain ⟨hhead, hlast⟩ := h (by simp)
      rw [trim, dropWhile_cons_of_neg (by simpa using hhead), trimRight_eq,
        rdropWhile_eq_self_iff]
      intro hne
      simpa using hlast

lemma trim_append_eq (hx : x ≠ []) (hhead : p (x.head hx) = false)
    (hlast : p (x.getLast hx) = false) (hy : ∀ c ∈ y, p c = true) : trim p (x ++ y) = x := by
  rw [trim_append_of_all hy]
  exact trim_eq_self_iff.mpr fun _ => ⟨hhead, hlast⟩

lemma trim_trim (p : Char → Bool) (cs : List Char) : trim p (trim p cs) = trim p cs := by
  obtain ⟨l, r, h, hl, hr⟩ := exists_eq_trim p cs
  have hcs := congrArg (trim p) h
  rw [trim_append_of_all hr, trim_append_of_all_left hl] at hcs
  exact hcs.symm

/-! ## Lines -/

variable {l : List Char}

lemma splitLines_cons (hc : isLineBreak c = false) (cs : List Char) :
    splitLines (c :: cs) = match splitLines cs with
      | [] => [[c]]
      | line :: lines => (c :: line) :: lines := by
  rw [splitLines]
  · exact if_neg (by simp [hc])
  · rintro rest rfl -
    exact absurd hc (by decide)

lemma splitLines_ne_nil (h : cs ≠ []) : splitLines cs ≠ [] := by
  fun_cases splitLines cs with
  | case1 => exact absurd rfl h
  | case2 rest | case3 d rest | case4 d rest | case5 d rest => simp

lemma splitLines_append_newline (hl : ∀ c ∈ l, isLineBreak c = false) (cs : List Char) :
    splitLines (l ++ '\n' :: cs) = l :: splitLines cs := by
  induction l with
  | nil =>
    rw [nil_append, splitLines, if_pos (by decide)]
    rintro rest h
    exact absurd h (by decide)
  | cons c l ih =>
    obtain ⟨hc, hrest⟩ := forall_mem_cons.mp hl
    rw [cons_append, splitLines_cons hc, ih hrest]

lemma splitLines_line (hl : ∀ c ∈ l, isLineBreak c = false) (hne : l ≠ []) :
    splitLines l = [l] := by
  induction l with
  | nil => exact absurd rfl hne
  | cons c l ih =>
    obtain ⟨hc, hrest⟩ := forall_mem_cons.mp hl
    rw [splitLines_cons hc]
    by_cases hnil : l = []
    · subst hnil
      rfl
    · rw [ih hrest hnil]

lemma mem_splitLines (h : l ∈ splitLines cs) : l <:+: cs ∧ ∀ c ∈ l, isLineBreak c = false := by
  fun_induction splitLines cs generalizing l with
  | case1 => exact absurd h not_mem_nil
  | case2 rest ih =>
    rcases mem_cons.mp h with rfl | h
    · exact ⟨ nil_infix, by simp⟩
    · exact ⟨(ih h).1.trans ⟨['\r', '\n'], [], by simp⟩, (ih h).2⟩
  | case3 c rest _ hc ih =>
    rcases mem_cons.mp h with rfl | h
    · exact ⟨ nil_infix, by simp⟩
    · exact ⟨(ih h).1.trans (suffix_cons c rest).isInfix, (ih h).2⟩
  | case4 c rest _ hc hnil ih =>
    rw [mem_singleton.mp h]
    exact ⟨⟨[], rest, by simp⟩, by simpa using hc⟩
  | case5 c rest _ hc line lines hlines ih =>
    rcases mem_cons.mp h with rfl | h
    · have hline := ih (hlines ▸ mem_cons_self)
      have hpre := head_splitLines_prefix hlines
      exact ⟨(cons_prefix_cons.mpr ⟨rfl, hpre⟩).isInfix,
        forall_mem_cons.mpr ⟨by simpa using hc, hline.2⟩⟩
    · have hline := ih (hlines ▸ mem_cons_of_mem line h)
      exact ⟨hline.1.trans (suffix_cons c rest).isInfix, hline.2⟩

/-! ## The place of a character -/

lemma append_cons_inj {c : Char} {u v r s : List Char} (h : u ++ c :: r = v ++ c :: s)
    (hcount : u.count c = v.count c) : u = v ∧ r = s := by
  rcases append_eq_append_iff.mp h with ⟨m, rfl, hm⟩ | ⟨m, rfl, hm⟩
  · cases m with
    | nil =>
      rw [nil_append] at hm
      exact ⟨(append_nil u).symm, (List.cons.inj hm).2⟩
    | cons d m =>
      obtain ⟨rfl, -⟩ := List.cons.inj hm
      rw [count_append, count_cons_self] at hcount
      omega
  · cases m with
    | nil =>
      rw [nil_append] at hm
      exact ⟨append_nil v, (List.cons.inj hm).2.symm⟩
    | cons d m =>
      obtain ⟨rfl, -⟩ := List.cons.inj hm
      rw [count_append, count_cons_self] at hcount
      omega

end Docsmith.Chars
