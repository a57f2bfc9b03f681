import Docsmith.Proofs.Extracting
import Docsmith.Proofs.Schedulable

/-! # Types around a name

A type is a name with qualifiers before it and the mark of a pointer or a reference, the size of an
array or the arguments of a template behind it. Qualifiers are removed wherever a blank follows
them, also at the end of the name. So the name is found unless it ends like a qualifier and the mark
has a blank before it (`typeName_decorated_iff`). -/

namespace Docsmith

open List

namespace Chars

variable {w u : List Char}

lemma word_prefix_iff (hw : ' ' ∉ w) (hu : ' ' ∉ u) (v : List Char) :
    w ++ [' '] <+: u ++ ' ' :: v ↔ w = u := by
  constructor
  · rintro ⟨t, ht⟩
    rw [append_assoc, singleton_append] at ht
    exact (append_cons_inj ht (by rw [count_eq_zero.mpr hw, count_eq_zero.mpr hu])).1
  · rintro rfl
    exact ⟨v, by simp⟩

/-- A word before a blank is removed with the blank, also at the end of another. -/
lemma remove_word (hw : ' ' ∉ w) (hu : ' ' ∉ u) (v : List Char) :
    replaceFrom (w ++ [' ']) [] (u ++ w ++ ' ' :: v) 0 = u ++ replaceFrom (w ++ [' ']) [] v 0 := by
  induction u with
  | nil =>
    have hhit := replaceFrom_append (concat_ne_nil ' ' w) [] v
    rwa [append_assoc] at hhit
  | cons c u ih =>
    rw [mem_cons, not_or] at hu
    have hmiss : ¬ w ++ [' '] <+: c :: (u ++ w ++ ' ' :: v) := by
      intro hpre
      have h := (word_prefix_iff hw (u := c :: (u ++ w)) (by simp [hu, hw]) v).mp hpre
      have hlength := congrArg List.length h
      rw [length_cons, length_append] at hlength
      omega
    rw [cons_append, cons_append, replaceFrom_cons hmiss, ih hu.2, cons_append]

/-- A word that does not end with the one to be removed stays, and so does the blank after it. -/
lemma remove_other (hw : ' ' ∉ w) (hu : ' ' ∉ u) (h : ¬ w <:+ u) (v : List Char) :
    replaceFrom (w ++ [' ']) [] (u ++ ' ' :: v) 0
      = u ++ ' ' :: replaceFrom (w ++ [' ']) [] v 0 := by
  have hmiss : ¬ w ++ [' '] <+: u ++ ' ' :: v :=
    fun hpre => h ((word_prefix_iff hw hu v).mp hpre ▸ suffix_rfl)
  induction u with
  | nil => exact replaceFrom_cons hmiss []
  | cons c u ih =>
    have hrest : ¬ w <:+ u := fun hsuf => h (hsuf.trans (suffix_cons c u))
    have hu := not_mem_of_not_mem_cons hu
    rw [cons_append] at hmiss ⊢
    rw [replaceFrom_cons hmiss, ih hu hrest, cons_append]
    exact fun hpre => hrest ((word_prefix_iff hw hu v).mp hpre ▸ suffix_rfl)

lemma remove_eq_filter (d : Char) (cs : List Char) :
    replaceFrom [d] [] cs 0 = cs.filter (· ≠ d) := by
  induction cs with
  | nil => rfl
  | cons c cs ih =>
    by_cases hc : c = d
    · subst hc
      rw [filter_cons_of_neg (by simp), ← ih]
      exact replaceFrom_append (cons_ne_nil c []) [] cs
    · rw [replaceFrom_cons (by simpa using Ne.symm hc), ih, filter_cons_of_pos (by simpa using hc)]

lemma before_append_of_not_mem {d : Char} (hu : d ∉ u) (y : List Char) :
    before [d] (u ++ y) = u ++ before [d] y := by
  have hmiss : ∀ z, z <:+ u → z ≠ [] → ¬ [d] <+: z ++ y := by
    intro z hz hne hp
    obtain ⟨c, z, rfl⟩ := exists_cons_of_ne_nil hne
    exact hu (hz.subset ((cons_prefix_cons.mp hp).1 ▸ mem_cons_self))
  rw [before, breakOn_append hmiss, before]
  cases breakOn [d] y with
  | none | some r => rfl

lemma before_cons_self (d : Char) (y : List Char) : before [d] (d :: y) = [] := by
  rw [before, show d :: y = [d] ++ y from rfl, breakOn_of_prefix (cons_ne_nil d [])]

lemma strip_eq_self {cs : List Char} (hhead : ∀ c ∈ cs.head?, isBlank c = false)
    (hlast : ∀ c ∈ cs.getLast?, isBlank c = false) : strip cs = cs :=
  trim_eq_self_iff.mpr fun hne =>
    ⟨hhead _ (head?_eq_some_head hne), hlast _ (getLast?_eq_some_getLast hne)⟩

end Chars

namespace Facts

open Chars

/-- A character that is neither blank nor stands around names, as letters, digits and the underscore
are. -/
def isPlain (c : Char) : Bool :=
  !isBlank c && !"[<(*&:".toList.contains c

/-- The qualifiers that can stand before a name. -/
def fronts : List String := ["", "struct ", "const ", "const struct ", "struct const "]

def marks : List String := ["", "*", "&", " *", " &"]

/-- What can stand behind a name: a mark, the size of an array, or the arguments of a template. -/
def IsBack (back : String) : Prop :=
  back ∈ marks ∨ ∃ inner, back = "[" ++ inner ++ "]" ∨ back = "<" ++ inner ++ ">"

/-- A name that ends like a qualifier, and a mark with a blank before it. -/
def Swallowed (name back : String) : Prop :=
  (back = " *" ∨ back = " &") ∧ ("const".toList <:+ name.toList ∨ "struct".toList <:+ name.toList)

/-! ## Qualifiers -/

def without (w : String) (cs : List Char) : List Char :=
  replaceFrom (w.toList ++ [' ']) [] cs 0

def unqualified (cs : List Char) : List Char :=
  without "struct" (without "const" (replaceFrom "std::".toList [] cs 0))

variable {front : String} {x y : List Char} {d : Char}

lemma without_eq_self (w : String) (h : ' ' ∉ x) : without w x = x :=
  replaceFrom_eq_self (fun hin => h (hin.subset (by simp))) []

lemma without_front (h : front ∈ fronts) (x : List Char) :
    without "struct" (without "const" (front.toList ++ x))
      = without "struct" (without "const" x) := by
  have hconst (y : List Char) : without "const" ("const ".toList ++ y) = without "const" y := by
    simpa [without] using remove_word (w := "const".toList) (by simp) not_mem_nil y
  have hstruct (y : List Char) : without "struct" ("struct ".toList ++ y) = without "struct" y := by
    simpa [without] using remove_word (w := "struct".toList) (by simp) not_mem_nil y
  have hother (y : List Char) :
      without "const" ("struct ".toList ++ y) = "struct ".toList ++ without "const" y := by
    simpa [without] using remove_other (w := "const".toList) (u := "struct".toList) (by simp)
      (by simp) (by decide) y
  rw [fronts] at h
  simp only [mem_cons, not_mem_nil, or_false] at h
  rcases h with rfl | rfl | rfl | rfl | rfl
  · rw [String.toList_empty, nil_append]
  · rw [hother, hstruct]
  · rw [hconst]
  · rw [show "const struct " = "const " ++ "struct " by rfl, String.toList_append, append_assoc,
      hconst, hother, hstruct]
  · rw [show "struct const " = "struct " ++ "const " by rfl, String.toList_append, append_assoc,
      hother, hstruct, hconst]

lemma unqualified_front (h : front ∈ fronts) (hx : ':' ∉ x) :
    unqualified (front.toList ++ x) = without "struct" (without "const" x) := by
  have hfront : ':' ∉ front.toList := by
    revert h front
    decide
  have hstd : ¬ "std::".toList <:+: front.toList ++ x := fun hin =>
    not_mem_append hfront hx (hin.subset (by simp))
  rw [unqualified, replaceFrom_eq_self hstd, without_front h]

lemma unqualified_append_cons (hd : d ∉ "std::const struct ".toList) (x y : List Char) :
    unqualified (x ++ d :: y) = unqualified x ++ d :: unqualified y := by
  simp only [unqualified, without]
  rw [replaceFrom_append_cons (by simp) (by simp_all),
    replaceFrom_append_cons (by simp) (by simp_all),
    replaceFrom_append_cons (by simp) (by simp_all)]

/-! ## Marks and brackets -/

/-- The part before the first bracket. -/
def unbracketed (cs : List Char) : List Char :=
  before ['('] (before ['<'] (before ['['] cs))

def unmarked (cs : List Char) : List Char :=
  strip (replaceFrom ['&'] [] (replaceFrom ['*'] [] (unbracketed cs) 0) 0)

lemma typeName_eq (t : String) :
    (typeName t).toList = unmarked (unqualified (strip t.toList)) := by
  simp [typeName, qualifiers, Text.strip, Text.replace, Text.before, Chars.replace, unmarked,
    unbracketed, unqualified, without]

lemma not_mem_of_plain (hx : ∀ c ∈ x, isPlain c) (hd : isPlain d = false) : d ∉ x :=
  fun hmem => absurd (hx d hmem) (by simp [hd])

lemma strip_of_plain (hx : ∀ c ∈ x, isPlain c) : strip x = x := by
  have hblank : ∀ c ∈ x, isBlank c = false := fun c hc => by
    have := hx c hc
    simp_all [isPlain]
  exact strip_eq_self (fun c hc => hblank c (mem_of_mem_head? hc))
    fun c hc => hblank c (mem_of_getLast? hc)

lemma unmarked_append (hx : ∀ c ∈ x, isPlain c) (hy : ∀ c ∈ unbracketed y, c ∈ [' ', '*', '&']) :
    unmarked (x ++ y) = x := by
  have hcut : unbracketed (x ++ y) = x ++ unbracketed y := by
    rw [unbracketed, before_append_of_not_mem (not_mem_of_plain hx (by decide)),
      before_append_of_not_mem (not_mem_of_plain hx (by decide)),
      before_append_of_not_mem (not_mem_of_plain hx (by decide)), unbracketed]
  have hkeep : x.filter (fun c => c ≠ '&' && c ≠ '*') = x := by
    refine List.filter_eq_self.mpr fun c hc => ?_
    have := hx c hc
    simp_all [isPlain]
  rw [unmarked, hcut, remove_eq_filter, remove_eq_filter, filter_filter, filter_append, hkeep,
    strip, trim_append_of_all]
  · exact strip_of_plain hx
  · intro c hc
    have hblank : c = ' ' := by
      have := hy c (mem_filter.mp hc).1
      simp_all
    exact hblank ▸ rfl

lemma unbracketed_bracket (hd : d = '[' ∨ d = '<') (y : List Char) : unbracketed (d :: y) = [] := by
  rcases hd with rfl | rfl
  · rw [unbracketed, before_cons_self]
    rfl
  · have hkeep : before ['['] ('<' :: y) = '<' :: before ['['] y :=
      before_append_of_not_mem (u := ['<']) (by decide) y
    rw [unbracketed, hkeep, before_cons_self]
    rfl

lemma unbracketed_subset (cs : List Char) : unbracketed cs ⊆ cs :=
  (( before_prefix _ _).trans (( before_prefix _ _).trans ( before_prefix _ _))).subset

/-! ## Decorated names -/

section Decorated

variable (hf : front ∈ fronts) (hx : ∀ c ∈ x, isPlain c)

include hf hx

lemma unmarked_bracket (hd : d = '[' ∨ d = '<') (y : List Char) :
    unmarked (unqualified (front.toList ++ (x ++ d :: y))) = x := by
  have hblank : ' ' ∉ x := not_mem_of_plain hx (by decide)
  rw [← append_assoc, unqualified_append_cons (by rcases hd with rfl | rfl <;> decide),
    unqualified_front hf (not_mem_of_plain hx (by decide)), without_eq_self _ hblank,
    without_eq_self _ hblank]
  exact unmarked_append hx (by simp [unbracketed_bracket hd])

lemma unmarked_adjacent (hy : ∀ c ∈ y, c = '*' ∨ c = '&') :
    unmarked (unqualified (front.toList ++ (x ++ y))) = x := by
  have hout {d : Char} (hd : isPlain d = false) (hmark : ¬ (d = '*' ∨ d = '&')) : d ∉ x ++ y :=
    not_mem_append (not_mem_of_plain hx hd) fun hmem => hmark (hy d hmem)
  have hblank : ' ' ∉ x ++ y := hout (by decide) (by decide)
  rw [unqualified_front hf (hout (by decide) (by decide)), without_eq_self _ hblank,
    without_eq_self _ hblank]
  refine unmarked_append hx fun c hc => ?_
  rcases hy c (unbracketed_subset _ hc) with rfl | rfl <;> simp

lemma unmarked_apart_iff (hd : d = '*' ∨ d = '&') :
    unmarked (unqualified (front.toList ++ (x ++ [' ', d]))) = x
      ↔ ¬ ("const".toList <:+ x ∨ "struct".toList <:+ x) := by
  have hblank : ' ' ∉ x := not_mem_of_plain hx (by decide)
  have hmark : ' ' ∉ [d] := by rcases hd with rfl | rfl <;> decide
  have hcolon : ':' ∉ x ++ [' ', d] :=
    not_mem_append (not_mem_of_plain hx (by decide)) (by rcases hd with rfl | rfl <;> decide)
  have htail : ∀ c ∈ unbracketed [' ', d], c ∈ [' ', '*', '&'] := fun c hc => by
    have := unbracketed_subset _ hc
    aesop
  -- a qualifier at the end of the name goes, and what is left is another name
  have hgone {u : List Char} {w : String} (hw : ' ' ∉ w.toList) (hu : u ++ w.toList = x) :
      without w (x ++ [' ', d]) = u ++ [d] ∧ unmarked (u ++ [d]) = u := by
    have hplain : ∀ c ∈ u, isPlain c := fun c hc => hx c (hu ▸ mem_append_left _ hc)
    have hcut := remove_word hw (not_mem_of_plain hplain (by decide)) [d]
    refine ⟨?_, unmarked_append hplain fun c hc => ?_⟩
    · rw [hu] at hcut
      exact hcut.trans (congrArg (u ++ ·) (without_eq_self w hmark))
    · have := unbracketed_subset _ hc
      aesop
  have hkept {w : String} (hw : ' ' ∉ w.toList) (h : ¬ w.toList <:+ x) :
      without w (x ++ [' ', d]) = x ++ [' ', d] :=
    (remove_other hw hblank h [d]).trans (congrArg (x ++ ' ' :: ·) (without_eq_self w hmark))
  rw [unqualified_front hf hcolon]
  by_cases hconst : "const".toList <:+ x
  · obtain ⟨u, hu⟩ := hconst
    obtain ⟨hcut, hleft⟩ := hgone (by simp) hu
    have hfree : ' ' ∉ u ++ [d] := not_mem_append (fun h => hblank (hu ▸ mem_append_left _ h)) hmark
    rw [hcut, without_eq_self _ hfree, hleft, ← hu]
    simp
  · rw [hkept (by simp) hconst]
    by_cases hstruct : "struct".toList <:+ x
    · obtain ⟨u, hu⟩ := hstruct
      obtain ⟨hcut, hleft⟩ := hgone (by simp) hu
      rw [hcut, hleft, ← hu]
      simp
    · rw [hkept (by simp) hstruct, unmarked_append hx htail]
      simp only [hconst, hstruct, or_self, not_false_eq_true]

lemma strip_decorated (hne : x ≠ []) {back : String} (hb : IsBack back) :
    strip (front.toList ++ (x ++ back.toList)) = front.toList ++ (x ++ back.toList) := by
  have hfront : ∀ c ∈ front.toList.head?, isBlank c = false := by
    simp only [fronts, mem_cons, not_mem_nil, or_false] at hf
    rcases hf with rfl | rfl | rfl | rfl | rfl <;> simp <;> rfl
  have hback : ∀ c ∈ back.toList.getLast?, isBlank c = false := by
    rcases hb with hmark | ⟨inner, rfl | rfl⟩
    · simp only [marks, mem_cons, not_mem_nil, or_false] at hmark
      rcases hmark with rfl | rfl | rfl | rfl | rfl <;> simp <;> rfl
    · rw [String.toList_append, show "]".toList = [']'] by simp, getLast?_concat]
      exact fun c hc => Option.some.inj hc ▸ rfl
    · rw [String.toList_append, show ">".toList = ['>'] by simp, getLast?_concat]
      exact fun c hc => Option.some.inj hc ▸ rfl
  have hself := trim_eq_self_iff.mp (strip_of_plain hx) hne
  refine strip_eq_self (fun c hc => ?_) fun c hc => ?_
  · rw [head?_append, head?_append, head?_eq_some_head hne] at hc
    cases hhead : front.toList.head? with
    | none =>
      rw [hhead] at hc
      exact Option.some.inj hc ▸ hself.1
    | some a => exact hfront c (by simpa [hhead] using hc)
  · rw [getLast?_append, getLast?_append, getLast?_eq_some_getLast hne] at hc
    cases hlast : back.toList.getLast? with
    | none =>
      rw [hlast] at hc
      exact Option.some.inj hc ▸ hself.2
    | some a => exact hback c (by simpa [hlast] using hc)

end Decorated

/-- The name in a decorated type is found exactly when it does not end like a qualifier before the
blank of a mark. A record with a field of such a type holds the record of the name. -/
theorem typeName_decorated_iff {front name back : String} (hf : front ∈ fronts)
    (hne : name ≠ "") (hplain : ∀ c ∈ name.toList, isPlain c) (hb : IsBack back) :
    (typeName (front ++ name ++ back) = name ↔ ¬ Swallowed name back) ∧
    ∀ (records : List (String × Record)) (aliases : List (String × String)) s r f,
      (s, r) ∈ records → f ∈ r.fields → f.symbol = front ++ name ++ back →
      ¬ Swallowed name back → (∃ r, ((Assoc.get? name aliases).getD name, r) ∈ records) →
      (s, (Assoc.get? name aliases).getD name) ∈ heldPairs records aliases := by
  have hfound : typeName (front ++ name ++ back) = name ↔ ¬ Swallowed name back := by
    have hspaced : ¬ (back = " *" ∨ back = " &") → ¬ Swallowed name back := fun h hs => h hs.1
    rw [← String.toList_inj, typeName_eq, String.toList_append, String.toList_append, append_assoc,
      strip_decorated hf hplain (by simpa using hne) hb]
    rcases hb with hmark | ⟨inner, rfl | rfl⟩
    · simp only [marks, mem_cons, not_mem_nil, or_false] at hmark
      rcases hmark with rfl | rfl | rfl | rfl | rfl
      · exact iff_of_true (unmarked_adjacent hf hplain (by simp)) (hspaced (by decide))
      · exact iff_of_true (unmarked_adjacent hf hplain (by simp)) (hspaced (by decide))
      · exact iff_of_true (unmarked_adjacent hf hplain (by simp)) (hspaced (by decide))
      · rw [show " *".toList = [' ', '*'] by simp, unmarked_apart_iff hf hplain (.inl rfl),
          Swallowed, and_iff_right (.inl rfl)]
      · rw [show " &".toList = [' ', '&'] by simp, unmarked_apart_iff hf hplain (.inr rfl),
          Swallowed, and_iff_right (.inr rfl)]
    · refine iff_of_true ?_ (hspaced (by simp [← String.toList_inj]))
      rw [String.append_assoc, String.toList_append, show "[".toList = ['['] by simp]
      exact unmarked_bracket hf hplain (.inl rfl) _
    · refine iff_of_true ?_ (hspaced (by simp [← String.toList_inj]))
      rw [String.append_assoc, String.toList_append, show "<".toList = ['<'] by simp]
      exact unmarked_bracket hf hplain (.inr rfl) _
  refine ⟨hfound, fun records aliases s r f hr hfield hsymbol hkept hknown => ?_⟩
  exact mem_heldPairs.mpr ⟨⟨r, hr, f, hfield, by rw [hsymbol, hfound.mpr hkept]⟩, hknown⟩

theorem typeName_decorated_iff_point :
    typeName "const Point *" = "Point" ∧
      ("Line", "Point") ∈ heldPairs
        [("Line", { symbol := "Line", fields := [{ name := "start", symbol := "const Point *" }] }),
          ("Point", { symbol := "Point" })] [] := by
  have hpoint := @typeName_decorated_iff "const " "Point" " *" (by decide) (by decide)
    (by simp [isPlain, isBlank]) (.inl (by decide))
  have hkept : ¬ Swallowed "Point" " *" := by
    rw [Swallowed]
    decide
  exact ⟨hpoint.1.mpr hkept, hpoint.2 _ [] "Line" _ _ mem_cons_self mem_cons_self rfl hkept
    ⟨_, mem_cons_of_mem _ mem_cons_self⟩⟩

/-- A name that ends like a qualifier loses its end. -/
theorem typeName_swallows : typeName "myconst *" = "my" := by
  decide +kernel

end Facts

end Docsmith
