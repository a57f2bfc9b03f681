import Docsmith.Chapter
import Docsmith.Proofs.Search

/-! # Reading what was written

The parts of a chapter can be told apart again when they do not hold the marks that separate them:
`cut_body` finds every section of a list of `Unmarked` ones, and `split_file` every chapter of a
file whose chapters are made of `Inner` texts, of which no line looks like a title. -/

namespace Docsmith.Chapter

open List

def headers : List String :=
  ["Description", "Parameters", "Code Details", "Example", "Source Code", "Attributes",
    "Functions", "Use Case", "Features", "Standards", "Scenarios"]

def sectionMark : List Char := ['#', '#', '#', '#']

/-- What a chapter starts with, after the end of the line before. -/
def chapterMark : List Char := ['#', '#', '#', ' ']

def Unmarked (text : List Char) : Prop :=
  ¬ sectionMark <:+: text

instance (text : List Char) : Decidable (Unmarked text) :=
  inferInstanceAs (Decidable (¬ sectionMark <:+: text))

def Inner (text : List Char) : Prop :=
  ¬ '\n' :: chapterMark <:+: '\n' :: text

instance (text : List Char) : Decidable (Inner text) :=
  inferInstanceAs (Decidable (¬ '\n' :: chapterMark <:+: '\n' :: text))

def heading (h : String) : List Char := sectionMark ++ ' ' :: h.toList

variable {h : String}

lemma header_chars (hh : h ∈ headers) : '#' ∉ h.toList ∧ '\n' ∉ h.toList ∧ '\r' ∉ h.toList := by
  revert h
  decide

lemma header_last (hh : h ∈ headers) :
    ∃ hne : h.toList ≠ [], Chars.isBlank (h.toList.getLast hne) = false := by
  revert h
  decide

lemma eq_of_header_prefix {h k : String} (hh : h ∈ headers) (hk : k ∈ headers)
    (hp : h.toList <+: k.toList) : h = k := by
  have hall : ∀ h ∈ headers, ∀ k ∈ headers, h.toList <+: k.toList → h = k := by decide
  exact hall h hh k hk hp

lemma newline_notMem_heading (hh : h ∈ headers) : '\n' ∉ heading h := by
  simpa [heading, sectionMark] using (header_chars hh).2.1

lemma heading_ne_nil (h : String) : heading h ≠ [] := by
  simp [heading]

lemma heading_last (hh : h ∈ headers) :
    Chars.isBlank ((heading h).getLast (heading_ne_nil h)) = false := by
  obtain ⟨hne, hlast⟩ := header_last hh
  simpa [heading, getLast_append_of_ne_nil, getLast_cons hne] using hlast

/-! ## Sections -/

def cut (h : String) (cs : List Char) : Option (List Char) :=
  (Chars.breakOn (heading h) cs).map fun r => Chars.strip (Chars.before sectionMark r.2)

lemma section?_eq (h b : String) :
    Chapter.section? h b = (cut h b.toList).map String.ofList := by
  have hhead : ("#### " ++ h).toList = heading h := by simp [heading, sectionMark]
  have hmark : "####".toList = sectionMark := by simp [sectionMark]
  rw [section?, cut, Text.breakOn, hhead, Option.map_map]
  cases Chars.breakOn (heading h) b.toList with
  | none => rfl
  | some r =>
    show some (Text.strip (Text.before "####" (.ofList r.2))) = _
    simp only [Text.strip, Text.before, hmark, String.toList_ofList, Option.map_some,
      Function.comp_apply]

def sectionChars (s : String × String) : List Char :=
  heading s.1 ++ '\n' :: (s.2.toList ++ ['\n', '\n'])

def bodyChars (ss : List (String × String)) : List Char :=
  ss.flatMap sectionChars

lemma toList_writeSection (h t : String) :
    (writeSection h t).toList = sectionChars (h, t) := by
  simp [writeSection, sectionChars, heading, sectionMark]

lemma not_infix_heading {h k : String} (hh : h ∈ headers) (hk : k ∈ headers) (hne : h ≠ k) :
    ¬ heading h <:+: heading k := by
  have hp : ¬ h.toList <+: k.toList := fun hp => hne ( eq_of_header_prefix hh hk hp)
  have hin : ¬ heading h <:+: k.toList := fun hin =>
    (header_chars hk).1 (hin.subset (by simp [heading, sectionMark]))
  simpa [heading, sectionMark, infix_cons_iff, hp] using hin

lemma Unmarked.not_infix_heading {t : List Char} (ht : Unmarked t) (h : String) :
    ¬ heading h <:+: t := fun hin =>
  ht ((prefix_append sectionMark _).isInfix.trans hin)

lemma cut_nil (h : String) : cut h [] = none := by
  rw [cut, (Chars.breakOn_eq_none_iff (heading_ne_nil h)).mpr, Option.map_none]
  rw [infix_nil]
  exact heading_ne_nil h

lemma cut_append_newline (hh : h ∈ headers) {x : List Char} (hx : ¬ heading h <:+: x)
    (y : List Char) : cut h (x ++ '\n' :: y) = cut h y := by
  rw [cut, cut, Chars.breakOn_append_cons (newline_notMem_heading hh) hx, Option.map_map]
  rfl

lemma cut_section_of_ne {h k : String} {t : String} (hh : h ∈ headers) (hk : k ∈ headers)
    (hne : h ≠ k) (ht : Unmarked t.toList) (y : List Char) :
    cut h (sectionChars (k, t) ++ y) = cut h y := by
  have hchars : sectionChars (k, t) ++ y
      = heading k ++ '\n' :: (t.toList ++ '\n' :: ([] ++ '\n' :: y)) := by
    simp [sectionChars]
  have hempty : ¬ heading h <:+: [] := by
    rw [infix_nil]
    exact heading_ne_nil h
  rw [hchars, cut_append_newline hh (not_infix_heading hh hk hne),
    cut_append_newline hh (ht.not_infix_heading h), cut_append_newline hh hempty]

lemma cut_section_self {h t : String} (ht : Unmarked t.toList) {y : List Char}
    (hy : y = [] ∨ sectionMark <+: y) :
    cut h (sectionChars (h, t) ++ y) = some (Chars.strip t.toList) := by
  have hmark : ¬ sectionMark <:+: [] ++ '\n' :: (t.toList ++ '\n' :: []) := by
    rw [Chars.infix_append_cons_iff (by decide) (by decide),
      Chars.infix_append_cons_iff (by decide) (by decide)]
    rintro (h | h | h)
    · exact absurd h (by decide)
    · exact ht h
    · exact absurd h (by decide)
  have hbefore : Chars.before sectionMark (([] ++ '\n' :: (t.toList ++ '\n' :: [])) ++ '\n' :: y)
      = ([] ++ '\n' :: (t.toList ++ '\n' :: [])) ++ ['\n'] := by
    rcases hy with rfl | ⟨z, rfl⟩
    · refine Chars.before_eq_self (by decide) ?_
      rwa [Chars.infix_append_iff_of_last (p := (· == '\n')) (by decide) (by decide) (by simp)]
    · exact Chars.before_append_cons (by decide) (by decide) hmark
  have hchars : sectionChars (h, t) ++ y
      = heading h ++ (([] ++ '\n' :: (t.toList ++ '\n' :: [])) ++ '\n' :: y) := by
    simp [sectionChars]
  rw [cut, hchars, Chars.breakOn_of_prefix (heading_ne_nil h), Option.map_some, hbefore]
  show some (Chars.trim Chars.isBlank _) = _
  have hfeed : ∀ c ∈ ['\n'], Chars.isBlank c = true := forall_mem_singleton.mpr (by decide)
  rw [Chars.trim_append_of_all hfeed, Chars.trim_append_of_all_left (by simp),
    Chars.trim_cons_of_pos (by decide), Chars.trim_append_of_all hfeed]
  rfl

def Tidy (ss : List (String × String)) : Prop :=
  ∀ s ∈ ss, s.1 ∈ headers ∧ Unmarked s.2.toList

lemma bodyChars_cons (s : String × String) (ss : List (String × String)) :
    bodyChars (s :: ss) = sectionChars s ++ bodyChars ss := rfl

lemma bodyChars_starts (ss : List (String × String)) :
    bodyChars ss = [] ∨ sectionMark <+: bodyChars ss := by
  cases ss with
  | nil => exact Or.inl rfl
  | cons s ss =>
    rw [bodyChars_cons, sectionChars, heading, append_assoc, append_assoc]
    exact Or.inr (prefix_append sectionMark _)

variable {ss : List (String × String)}

lemma cut_body (hh : h ∈ headers) (hss : Tidy ss) :
    cut h (bodyChars ss) = (ss.lookup h).map fun t => Chars.strip t.toList := by
  induction ss with
  | nil => exact cut_nil h
  | cons s ss ih =>
    obtain ⟨k, t⟩ := s
    obtain ⟨⟨hk, ht⟩, hrest⟩ := forall_mem_cons.mp hss
    rw [bodyChars_cons]
    by_cases hne : h = k
    · subst hne
      rw [cut_section_self ht (bodyChars_starts ss), lookup_cons_self]
      rfl
    · rw [cut_section_of_ne hh hk hne ht, ih hrest, lookup_cons, beq_false_of_ne hne]

lemma cut_append_blanks (hh : h ∈ headers) {x w : List Char}
    (hw : ∀ c ∈ w, Chars.isBlank c = true) : cut h (x ++ w) = cut h x := by
  rw [cut, cut, Chars.breakOn_append_of_last (heading_ne_nil h) (heading_last hh) hw,
    Option.map_map]
  congr 1
  funext r
  show Chars.strip (Chars.before sectionMark (r.2 ++ w))
    = Chars.strip (Chars.before sectionMark r.2)
  rw [Chars.before, Chars.before, Chars.breakOn_append_of_last (by decide) (by decide) hw]
  cases Chars.breakOn sectionMark r.2 with
  | none => exact Chars.trim_append_of_all hw
  | some q => rfl

lemma strip_body (ss : List (String × String)) :
    ∃ w, (∀ c ∈ w, Chars.isBlank c = true) ∧ bodyChars ss = Chars.strip (bodyChars ss) ++ w := by
  obtain ⟨l, w, he, hl, hw⟩ := Chars.exists_eq_trim Chars.isBlank (bodyChars ss)
  refine ⟨w, hw, ?_⟩
  cases l with
  | nil => exact he
  | cons c l =>
    -- the first character is that of a mark
    rcases bodyChars_starts ss with hnil | ⟨z, hz⟩
    · exact absurd (hnil.symm.trans he) (by simp)
    · have hc : '#' = c := (List.cons.inj (hz.trans he)).1
      exact absurd (hl c mem_cons_self) (by subst hc; decide)

/-! ## Lines that look like a title -/

lemma inner_nil : Inner [] := by
  rw [Inner]
  decide

lemma Inner.of_append {x w : List Char} (h : Inner (x ++ w)) : Inner x := fun hin =>
  h (hin.trans (prefix_append ('\n' :: x) w).isInfix)

lemma not_infix_of_inner {t : List Char} (ht : Inner t) : ¬ '\n' :: chapterMark <:+: t := fun h =>
  ht (h.trans (suffix_cons '\n' t).isInfix)

lemma inner_section {h t : String} (hh : h ∈ headers) (y : List Char) :
    Inner (sectionChars (h, t) ++ y) ↔ Inner t.toList ∧ Inner y := by
  have hchars : '\n' :: (sectionChars (h, t) ++ y) = ('\n' :: heading h)
      ++ '\n' :: (t.toList ++ '\n' :: ([] ++ '\n' :: y)) := by
    simp [sectionChars]
  have hheading : ¬ '\n' :: chapterMark <:+: '\n' :: heading h := by
    intro hin
    rcases infix_cons_iff.mp hin with hp | hin
    · simp [chapterMark, heading, sectionMark] at hp
    · exact newline_notMem_heading hh (hin.subset mem_cons_self)
  have hnil := inner_nil
  rw [Inner] at hnil
  rw [Inner, hchars, Chars.cons_infix_append_cons_iff (by decide), ← cons_append,
    Chars.cons_infix_append_cons_iff (by decide), ← cons_append,
    Chars.cons_infix_append_cons_iff (by decide), Inner, Inner]
  tauto

lemma inner_body (hss : Tidy ss) : Inner (bodyChars ss) ↔ ∀ s ∈ ss, Inner s.2.toList := by
  induction ss with
  | nil => simp [bodyChars, inner_nil]
  | cons s ss ih =>
    obtain ⟨⟨hh, -⟩, hrest⟩ := forall_mem_cons.mp hss
    rw [bodyChars_cons, inner_section hh, ih hrest, forall_mem_cons]

/-! ## Chapters -/

lemma title?_ofList {name : List Char} (hname : '\n' ∉ name) (b : List Char) :
    title? (.ofList (chapterMark ++ (name ++ '\n' :: b)))
      = some (Text.strip (.ofList name), .ofList (Chars.before ('\n' :: chapterMark) b)) := by
  have hmark : "### ".toList = chapterMark := by simp [chapterMark]
  have hline : "\n".toList = ['\n'] := by simp
  have hnext : "\n### ".toList = '\n' :: chapterMark := by simp [chapterMark]
  have hcut : Chars.breakOn ['\n'] (name ++ '\n' :: b) = some (name, b) := by
    have hno : ¬ ['\n'] <:+: name := fun h => hname (h.subset mem_cons_self)
    rw [Chars.breakOn_cons_append_cons (by simp) hno, ← singleton_append (l := b),
      Chars.breakOn_of_prefix (by simp)]
    simp
  have hfirst := Chars.breakOn_of_prefix (y := name ++ '\n' :: b) (cons_ne_nil '#' ['#', '#', ' '])
  simp only [title?, Text.breakOn, String.toList_ofList, hmark, hline,
    show chapterMark = '#' :: ['#', '#', ' '] from rfl, hfirst, Option.map_some, hcut, Text.before,
    hnext, Option.pure_def, Option.bind_eq_bind, Option.bind_some]

lemma title?_chapter {name b : List Char} (hname : '\n' ∉ name) (hb : Inner b) :
    title? (.ofList (chapterMark ++ (name ++ '\n' :: b)))
      = some (Text.strip (.ofList name), .ofList b) := by
  rw [title?_ofList hname,
    Chars.before_eq_self (cons_ne_nil '\n' chapterMark) (not_infix_of_inner hb)]

/-- The characters of a chapter after its mark: a title, a description and sections. -/
def chapterChars (name description : String) (ss : List (String × String)) : List Char :=
  name.toList ++ '\n' :: (sectionChars ("Description", description) ++ Chars.strip (bodyChars ss))

variable {name description : String}

lemma not_infix_chapterChars (hname : '\n' ∉ name.toList)
    (hss : Tidy (("Description", description) :: ss))
    (hinner : ∀ s ∈ ("Description", description) :: ss, Inner s.2.toList) :
    Inner (sectionChars ("Description", description) ++ Chars.strip (bodyChars ss)) ∧
      ¬ '\n' :: chapterMark <:+: chapterChars name description ss := by
  obtain ⟨w, -, hw⟩ := strip_body ss
  have hbody : Inner (sectionChars ("Description", description) ++ Chars.strip (bodyChars ss)) := by
    refine Inner.of_append (w := w) ?_
    rw [append_assoc, ← hw, ← bodyChars_cons]
    exact (inner_body hss).mpr hinner
  refine ⟨hbody, ?_⟩
  rw [chapterChars, Chars.cons_infix_append_cons_iff (by decide), not_or]
  exact ⟨fun h => hname (h.subset mem_cons_self), hbody⟩

lemma return_notMem_chapterChars (hname : '\r' ∉ name.toList)
    (hss : ∀ s ∈ ("Description", description) :: ss, s.1 ∈ headers ∧ '\r' ∉ s.2.toList) :
    '\r' ∉ chapterChars name description ss := by
  have hsection : ∀ s ∈ ("Description", description) :: ss, '\r' ∉ sectionChars s := by
    intro s hs
    obtain ⟨hh, ht⟩ := hss s hs
    simp [sectionChars, heading, sectionMark, (header_chars hh).2.2, ht]
  have hbody : '\r' ∉ bodyChars ss := by
    simpa [bodyChars] using fun h t hs => hsection (h, t) (mem_cons_of_mem _ hs)
  have hstrip : '\r' ∉ Chars.strip (bodyChars ss) := fun h =>
    hbody (( Chars.trim_infix Chars.isBlank _).subset h)
  simp [chapterChars, hname, hsection, hstrip]

lemma read_chapter (hname : '\n' ∉ name.toList) (hss : Tidy (("Description", description) :: ss))
    (hinner : ∀ s ∈ ("Description", description) :: ss, Inner s.2.toList) (n : Nat) :
    ∃ b, title? (.ofList (chapterMark
        ++ (chapterChars name description ss ++ List.replicate n '\n')))
          = some (Text.strip name, b) ∧
      ∀ h ∈ headers,
        Chapter.section? h b = ((("Description", description) :: ss).lookup h).map Text.strip := by
  obtain ⟨hbody, -⟩ := not_infix_chapterChars hname hss hinner
  refine ⟨.ofList (sectionChars ("Description", description) ++ Chars.strip (bodyChars ss)
    ++ List.replicate n '\n'), ?_, ?_⟩
  · have hlonger : Inner (sectionChars ("Description", description) ++ Chars.strip (bodyChars ss)
        ++ List.replicate n '\n') := by
      rw [Inner, ← cons_append,
        Chars.infix_append_iff_of_last (p := (· == '\n')) (by decide) (by decide) (by simp)]
      exact hbody
    have htitle := title?_chapter hname hlonger
    rw [String.ofList_toList] at htitle
    rw [chapterChars, append_assoc name.toList, cons_append]
    exact htitle
  · intro h hh
    obtain ⟨w, hblank, hw⟩ := strip_body ss
    have hnl : ∀ c ∈ List.replicate n '\n', Chars.isBlank c = true := by
      intro c hc
      rw [eq_of_mem_replicate hc]
      decide
    rw [section?_eq, String.toList_ofList, cut_append_blanks hh hnl, ← cut_append_blanks hh hblank,
      append_assoc, ← hw, ← bodyChars_cons, cut_body hh hss, Option.map_map]
    rfl

def fileChars (ts : List (List Char)) : List Char :=
  ts.flatMap fun t => chapterMark ++ (t ++ ['\n'])

/-- Chapters as they are found in their file: the last one keeps its line feed. -/
def found : List (List Char) → List (List Char)
  | [] => []
  | [t] => [t ++ ['\n']]
  | t :: ts => t :: found ts

lemma splitOn_file {t : List Char} (ht : ¬ '\n' :: chapterMark <:+: t) {ts : List (List Char)}
    (hts : ∀ u ∈ ts, ¬ '\n' :: chapterMark <:+: u) :
    Chars.splitOn ('\n' :: chapterMark) (t ++ '\n' :: fileChars ts) = found (t :: ts) := by
  induction ts generalizing t with
  | nil =>
    have hend : ¬ '\n' :: chapterMark <:+: t ++ ['\n'] := by
      rw [Chars.cons_infix_append_cons_iff (by decide), not_or]
      exact ⟨ht, inner_nil⟩
    rw [Chars.splitOn_eq (by decide), fileChars, flatMap_nil,
      (Chars.breakOn_eq_none_iff (by decide)).mpr hend]
    rfl
  | cons u ts ih =>
    obtain ⟨hu, hrest⟩ := forall_mem_cons.mp hts
    have hchars : '\n' :: fileChars (u :: ts)
        = ('\n' :: chapterMark) ++ (u ++ '\n' :: fileChars ts) := by
      simp [fileChars]
    rw [Chars.splitOn_eq (by decide), Chars.breakOn_cons_append_cons (by decide) ht, hchars,
      Chars.breakOn_of_prefix (by decide)]
    simp only [Option.map_some, append_nil, ih hu hrest]
    rfl

lemma split_file {ts : List (List Char)} (hts : ∀ t ∈ ts, ¬ '\n' :: chapterMark <:+: t) :
    split (.ofList (fileChars ts)) = (found ts).map fun t => .ofList (chapterMark ++ t) := by
  have hmark : "###".toList = ['#', '#', '#'] := by simp
  have hnext : "\n### ".toList = '\n' :: chapterMark := by simp [chapterMark]
  have hfirst : ∀ x : List Char, "###" ++ String.ofList (' ' :: x) = .ofList (chapterMark ++ x) := by
    intro x
    rw [← String.toList_inj]
    simp [chapterMark]
  have hother : ∀ x : List Char, "### " ++ String.ofList x = .ofList (chapterMark ++ x) := by
    intro x
    rw [← String.toList_inj]
    simp [chapterMark]
  cases ts with
  | nil => simp [split, Text.breakOn, hmark, fileChars, Chars.breakOn, found]
  | cons t ts =>
    obtain ⟨ht, hrest⟩ := forall_mem_cons.mp hts
    have hblank : ¬ '\n' :: chapterMark <:+: ' ' :: t := by
      rw [infix_cons_iff, not_or]
      exact ⟨by simp, ht⟩
    have hchars : fileChars (t :: ts)
        = ['#', '#', '#'] ++ ((' ' :: t) ++ '\n' :: fileChars ts) := by
      simp [fileChars, chapterMark]
    rw [split, Text.breakOn, hmark, String.toList_ofList, hchars,
      Chars.breakOn_of_prefix (by simp)]
    simp only [Option.map_some, Text.splitOn, String.toList_ofList, hnext,
      splitOn_file hblank hrest]
    cases ts with
    | nil => simp only [found, map_cons, map_nil, cons_append, hfirst]
    | cons u ts =>
      simp only [found, map_cons, map_map, hfirst]
      exact congrArg _ (map_congr_left fun x _ => hother x)

end Docsmith.Chapter
