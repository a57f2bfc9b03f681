import Docsmith.Folder.Files
import Docsmith.Proofs.Search

/-! # The parts of a path

Parts of a path that are empty lead nowhere, so `solid` leaves them out: a joined path has the solid
parts of the first path and then those of the second, and the folder of a file has all but the last.
-/

namespace Docsmith.Path

open List

def pieces (cs : List Char) : List (List Char) :=
  Chars.splitOn ['/'] cs

variable (p : String)

lemma parts_eq : parts p = (pieces p.toList).map String.ofList := by
  have hslash : "/".toList = ['/'] := by simp
  rw [parts, Text.splitOn, hslash, pieces]

lemma pieces_nil : pieces [] = [[]] := rfl

variable (cs : List Char)

lemma pieces_slash : pieces ('/' :: cs) = [] :: pieces cs :=
  Chars.splitOn_cons_self '/' cs

lemma pieces_ne_nil : pieces cs ≠ [] :=
  Chars.splitOn_ne_nil (by simp) cs

variable {qs : List (List Char)}

lemma pieces_cons {c : Char} (hc : c ≠ '/') {cs q : List Char} (h : pieces cs = q :: qs) :
    pieces (c :: cs) = (c :: q) :: qs :=
  Chars.splitOn_cons hc h

lemma pieces_append (a b : List Char) : pieces (a ++ '/' :: b) = pieces a ++ pieces b :=
  Chars.splitOn_append_cons '/' a b

lemma pieces_of_notMem {a : List Char} (h : '/' ∉ a) : pieces a = [a] := by
  have hno : ¬ ['/'] <:+: a := fun hin => h (hin.subset mem_cons_self)
  rw [pieces, Chars.splitOn_eq (by simp), (Chars.breakOn_eq_none_iff (by simp)).mpr hno]

lemma pieces_append_of_notMem {a t q : List Char} (h : pieces a = qs ++ [q]) (ht : '/' ∉ t) :
    pieces (a ++ t) = qs ++ [q ++ t] := by
  induction a generalizing q qs with
  | nil =>
    rw [pieces_nil] at h
    obtain ⟨rfl, hq⟩ := append_inj' (show [] ++ [[]] = qs ++ [q] from h) rfl
    rw [← (List.cons.inj hq).1]
    exact pieces_of_notMem ht
  | cons c a ih =>
    by_cases hc : c = '/'
    · subst hc
      rw [pieces_slash] at h
      rw [cons_append, pieces_slash]
      cases qs with
      | nil => exact absurd (List.cons.inj h).2 (pieces_ne_nil a)
      | cons p qs =>
        obtain ⟨rfl, hrest⟩ := List.cons.inj h
        rw [ih hrest, cons_append]
    · obtain ⟨p, ps, hp⟩ := exists_cons_of_ne_nil (pieces_ne_nil a)
      rw [pieces_cons hc hp] at h
      cases qs with
      | nil =>
        obtain ⟨rfl, rfl⟩ := List.cons.inj h
        rw [cons_append]
        exact pieces_cons hc (ih (show pieces a = [] ++ [p] from hp))
      | cons r qs =>
        obtain ⟨rfl, rfl⟩ := List.cons.inj h
        rw [cons_append, cons_append]
        exact pieces_cons hc (ih (show pieces a = (p :: qs) ++ [q] from hp))

lemma mem_pieces {q cs : List Char} (h : q ∈ pieces cs) : '/' ∉ q ∧ q ⊆ cs := by
  induction cs generalizing q with
  | nil =>
    rw [mem_singleton.mp h]
    simp
  | cons c cs ih =>
    by_cases hc : c = '/'
    · subst hc
      rw [pieces_slash] at h
      rcases mem_cons.mp h with rfl | h
      · simp
      · exact ⟨(ih h).1, List.Subset.trans (ih h).2 (subset_cons_self _ _)⟩
    · obtain ⟨r, rs, hr⟩ := exists_cons_of_ne_nil (pieces_ne_nil cs)
      rw [pieces_cons hc hr] at h
      rcases mem_cons.mp h with rfl | h
      · have hmem := ih (hr ▸ mem_cons_self)
        exact ⟨by simp [Ne.symm hc, hmem.1], cons_subset_cons c hmem.2⟩
      · have hmem := ih (hr ▸ mem_cons_of_mem r h)
        exact ⟨hmem.1, List.Subset.trans hmem.2 (subset_cons_self _ _)⟩

lemma intercalate_pieces : List.intercalate ['/'] (pieces cs) = cs := by
  induction cs with
  | nil => rfl
  | cons c cs ih =>
    obtain ⟨q, qs, hq⟩ := exists_cons_of_ne_nil (pieces_ne_nil cs)
    rw [hq] at ih
    by_cases hc : c = '/'
    · subst hc
      rw [pieces_slash, hq, intercalate_cons_cons, ih]
      rfl
    · rw [pieces_cons hc hq]
      cases qs with
      | nil =>
        rw [intercalate_singleton] at ih ⊢
        rw [ih]
      | cons r rs =>
        rw [intercalate_cons_cons] at ih ⊢
        rw [← ih]
        simp

lemma pieces_injective {a b : List Char} (h : pieces a = pieces b) : a = b := by
  rw [← intercalate_pieces a, h, intercalate_pieces]

lemma exists_eq_append_slash {cs q : List Char} (hqs : qs ≠ []) (h : pieces cs = qs ++ [q]) :
    ∃ a, cs = a ++ '/' :: q ∧ pieces a = qs := by
  have hslash : '/' ∈ cs.reverse := by
    by_contra hno
    rw [mem_reverse] at hno
    rw [pieces_of_notMem hno] at h
    exact hqs (append_eq_singleton_iff.mp h.symm |>.elim And.left fun h => absurd h.2 (by simp))
  obtain ⟨t, u, htu, ht⟩ := eq_append_cons_of_mem hslash
  have hcs : cs = u.reverse ++ '/' :: t.reverse := by
    rw [← reverse_reverse cs, htu]
    simp
  have hlast : '/' ∉ t.reverse := by simpa using ht
  rw [hcs, pieces_append, pieces_of_notMem hlast] at h
  obtain ⟨hfront, hq⟩ := append_inj' h rfl
  exact ⟨u.reverse, by rw [hcs, (List.cons.inj hq).1], hfront⟩

lemma size_parts : ((parts p).map fun q => q.utf8ByteSize + 1).sum = p.utf8ByteSize + 1 := by
  have hpieces : ∀ cs : List Char, ((pieces cs).map fun q => (String.ofList q).utf8ByteSize + 1).sum
      = (String.ofList cs).utf8ByteSize + 1 := by
    intro cs
    induction cs with
    | nil => simp [pieces_nil]
    | cons c cs ih =>
      by_cases hc : c = '/'
      · have hsize : "/".utf8ByteSize = 1 := by decide
        subst hc
        rw [pieces_slash, map_cons, sum_cons, ih]
        simp [hsize]
        omega
      · obtain ⟨q, qs, hq⟩ := exists_cons_of_ne_nil (pieces_ne_nil cs)
        rw [hq, map_cons, sum_cons] at ih
        rw [pieces_cons hc hq, map_cons, sum_cons]
        simp only [String.ofList_cons, String.utf8ByteSize_append] at ih ⊢
        omega
  have hp := hpieces p.toList
  rw [String.ofList_toList] at hp
  rw [← hp, parts_eq, map_map]
  rfl

lemma size_le_of_prefix {p q : String} (h : p.toList <+: q.toList) :
    p.utf8ByteSize ≤ q.utf8ByteSize := by
  obtain ⟨t, ht⟩ := h
  have hq : q = p ++ .ofList t := by
    rw [← String.toList_inj, String.toList_append, String.toList_ofList, ht]
  rw [hq, String.utf8ByteSize_append]
  exact Nat.le_add_right _ _

/-! ## Solid parts -/

def solid (ps : List String) : List String :=
  ps.filter (!·.isEmpty)

lemma solid_append (ps qs : List String) : solid (ps ++ qs) = solid ps ++ solid qs :=
  filter_append _ _

lemma solid_parts_append_slashes (a : List Char) (n : Nat) :
    solid (parts (.ofList (a ++ List.replicate n '/'))) = solid (parts (.ofList a)) := by
  induction n with
  | zero => simp
  | succ n ih =>
    have hlast : a ++ List.replicate (n + 1) '/' = a ++ List.replicate n '/' ++ '/' :: [] := by
      rw [replicate_succ', append_assoc]
    rw [hlast, parts_eq, String.toList_ofList, pieces_append, map_append, solid_append]
    rw [parts_eq, String.toList_ofList] at ih
    rw [ih, pieces_nil]
    exact append_nil _

lemma solid_parts_trimmed : solid (parts (Folder.trimmed p)) = solid (parts p) := by
  have hsplit : p.toList = p.toList.rdropWhile (· == '/')
      ++ List.replicate (p.toList.rtakeWhile (· == '/')).length '/' := by
    conv_lhs => rw [← rdropWhile_append_rtakeWhile (p := (· == '/')) (l := p.toList)]
    congr 1
    refine eq_replicate_iff.mpr ⟨rfl, fun c hc => ?_⟩
    simpa using mem_rtakeWhile_imp hc
  conv_rhs => rw [← String.ofList_toList (s := p), hsplit, solid_parts_append_slashes]
  rfl

lemma isAbsolute_eq : isAbsolute p = (p.toList.head? == some '/') := by
  have hslash : "/".toList = ['/'] := by simp
  rw [isAbsolute, Text.startsWith, hslash]
  cases p.toList with
  | nil => rfl
  | cons c cs => simp [eq_comm, List.isPrefixOf]

lemma parts_join {docs x : String} (hdocs : docs ≠ "") (hx : isAbsolute x = false) :
    isAbsolute (join docs x) = isAbsolute docs ∧
      ∃ front, front ≠ [] ∧ parts (join docs x) = front ++ parts x ∧
        solid front = solid (parts docs) := by
  have hne : docs.toList ≠ [] := fun h => hdocs (String.toList_eq_nil_iff.mp h)
  obtain ⟨c, cs, hcs⟩ := exists_cons_of_ne_nil hne
  have hempty : docs.isEmpty = false := by
    rw [Bool.eq_false_iff]
    exact fun h => hdocs (String.isEmpty_iff.mp h)
  rw [join, hx, hempty, Bool.false_or]
  by_cases hend : Text.endsWith "/" docs = true
  · obtain ⟨e, he⟩ : ∃ e, docs.toList = e ++ ['/'] := by
      have hslash : "/".toList.reverse = ['/'] := by simp
      rw [Text.endsWith, hslash, isPrefixOf_iff_prefix] at hend
      obtain ⟨r, hr⟩ := hend
      exact ⟨r.reverse, by rw [← reverse_reverse docs.toList, ← hr]; simp⟩
    rw [if_neg (by simp), if_pos hend]
    refine ⟨by simp [isAbsolute_eq, hcs], (pieces e).map String.ofList, ?_, ?_, ?_⟩
    · simpa using pieces_ne_nil e
    · rw [parts_eq, parts_eq, String.toList_append, he, append_assoc, singleton_append,
        pieces_append, map_append]
    · have hdrop := solid_parts_append_slashes e 1
      rw [replicate_one, ← he, String.ofList_toList] at hdrop
      rw [hdrop, parts_eq, String.toList_ofList]
  · rw [if_neg (by simp), if_neg hend]
    refine ⟨by simp [isAbsolute_eq, hcs], parts docs, ?_, ?_, rfl⟩
    · rw [parts_eq]
      simpa using pieces_ne_nil docs.toList
    · have hchars : (docs ++ "/" ++ x).toList = docs.toList ++ '/' :: x.toList := by simp
      rw [parts_eq, parts_eq, parts_eq, hchars, pieces_append, map_append]

lemma trimRight_concat_slash (a : List Char) :
    Chars.trimRight (· == '/') (a ++ ['/']) = Chars.trimRight (· == '/') a := by
  rw [Chars.trimRight_eq, rdropWhile_concat_pos _ _ _ (by simp), Chars.trimRight_eq]

lemma dir_of_append_slash {q : String} {a n : List Char} (hq : q.toList = a ++ '/' :: n)
    (hn : '/' ∉ n) : dir q = if (a ++ ['/']).all (· == '/') then .ofList (a ++ ['/'])
      else .ofList (Chars.trimRight (· == '/') a) := by
  have hhead : (q.toList.reverse.dropWhile (· ≠ '/')).reverse = a ++ ['/'] := by
    have hdrop : ∀ c ∈ n.reverse, decide (c ≠ '/') = true := by
      intro c hc
      rw [mem_reverse] at hc
      rw [decide_eq_true_iff]
      rintro rfl
      exact hn hc
    rw [hq, reverse_append, reverse_cons, append_assoc,
      dropWhile_append_of_pos hdrop]
    simp
  rw [← trimRight_concat_slash, ← hhead, dir]

lemma dir_append_slash {q : String} {a n : List Char} (hq : q.toList = a ++ '/' :: n)
    (hn : '/' ∉ n) :
    Folder.trimmed (dir q) = Folder.trimmed (.ofList a) ∧ dir q ≠ "" ∧
      isAbsolute (dir q) = isAbsolute q := by
  have htrim := trimRight_concat_slash a
  have hidem : Chars.trimRight (· == '/') (Chars.trimRight (· == '/') a)
      = Chars.trimRight (· == '/') a := by
    rw [Chars.trimRight_eq, Chars.trimRight_eq, rdropWhile_idempotent]
  have hdir := dir_of_append_slash hq hn
  rw [hdir]
  by_cases hall : (a ++ ['/']).all (· == '/') = true
  · rw [if_pos hall]
    refine ⟨?_, by simp, ?_⟩
    · rw [Folder.trimmed, String.toList_ofList, htrim, Folder.trimmed, String.toList_ofList]
    · rw [isAbsolute_eq, isAbsolute_eq, String.toList_ofList, hq]
      cases a with
      | nil | cons c a => rfl
  · rw [if_neg hall]
    -- some character of the folder is no slash, so its first one stays
    have hsome : ∃ c r, Chars.trimRight (· == '/') a = c :: r := by
      refine exists_cons_of_ne_nil fun hnil => hall ?_
      rw [Chars.trimRight_eq, rdropWhile_eq_nil_iff] at hnil
      simpa using hnil
    obtain ⟨c, r, hcr⟩ := hsome
    have hpre : c :: r <+: a := hcr ▸ rdropWhile_prefix _ a
    refine ⟨?_, ?_, ?_⟩
    · rw [Folder.trimmed, String.toList_ofList, hidem, Folder.trimmed, String.toList_ofList]
    · rw [hcr]
      simp
    · obtain ⟨t, rfl⟩ := hpre
      rw [isAbsolute_eq, isAbsolute_eq, String.toList_ofList, hcr, hq]
      rfl

lemma dir_spec {q name : String} {front : List String} (hfront : front ≠ [])
    (hq : parts q = front ++ [name]) :
    dir q ≠ "" ∧ isAbsolute (dir q) = isAbsolute q ∧
      solid (parts (Folder.trimmed (dir q))) = solid front ∧
      (Folder.trimmed (dir q)).toList <+: q.toList := by
  have hpieces : pieces q.toList = front.map String.toList ++ [name.toList] := by
    have hmap := congrArg (List.map String.toList) hq
    rw [parts_eq, map_map] at hmap
    simpa using hmap
  obtain ⟨a, ha, hfa⟩ := exists_eq_append_slash (by simpa using hfront) hpieces
  have hname : '/' ∉ name.toList := by
    have hmem : name.toList ∈ pieces q.toList := by simp [hpieces]
    exact (mem_pieces hmem).1
  obtain ⟨htrim, hne, habs⟩ := dir_append_slash ha hname
  refine ⟨hne, habs, ?_, ?_⟩
  · rw [htrim, solid_parts_trimmed, parts_eq, String.toList_ofList, hfa, map_map]
    simp
  · rw [htrim, Folder.trimmed, String.toList_ofList, String.toList_ofList, ha]
    exact ( rdropWhile_prefix _ a).trans (prefix_append a _)

end Docsmith.Path
