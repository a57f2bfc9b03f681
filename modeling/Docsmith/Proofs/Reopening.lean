import Docsmith.Proofs.Survival

/-! # Documents that open again

A file of documents on modules can be read exactly if each of them can be read alone
(`readable_file_iff`). A document that was read itself opens again exactly if it names a function
and no line of its texts is like a title (`reopens_iff`). -/

namespace Docsmith

open List

/-! ## Cutting texts in a row -/

namespace Chars

variable {pat p x y : List Char} {c : Char}

lemma breakOn_append_right (hne : pat ≠ []) {b a : List Char} (h : breakOn pat x = some (b, a))
    (y : List Char) : breakOn pat (x ++ y) = some (b, a ++ y) := by
  induction x generalizing b with
  | nil =>
    rw [breakOn, if_neg (by simpa using hne)] at h
    cases h
  | cons c x ih =>
    have hlen : pat.length ≤ (c :: x).length := by
      rw [eq_append_of_breakOn h, length_append, length_append]
      omega
    have hpre : pat <+: c :: (x ++ y) ↔ pat <+: c :: x :=
      ⟨fun hp => prefix_of_prefix_length_le hp (prefix_append (c :: x) y) hlen,
        fun hp => hp.trans (prefix_append (c :: x) y)⟩
    rw [breakOn] at h
    rw [cons_append, breakOn]
    by_cases hp : pat <+: c :: x
    · rw [if_pos ( isPrefixOf_iff_prefix.mpr hp)] at h
      obtain ⟨rfl, rfl⟩ := h
      rw [if_pos ( isPrefixOf_iff_prefix.mpr (hpre.mpr hp)), ← cons_append,
        drop_append_of_le_length hlen]
    · rw [if_neg (by simpa using hp), Option.map_eq_some_iff] at h
      obtain ⟨⟨b', a'⟩, hrest, heq⟩ := h
      rw [Prod.mk.injEq] at heq
      obtain ⟨rfl, rfl⟩ := heq
      rw [if_neg (by rw [ isPrefixOf_iff_prefix, hpre]; exact hp),
        ih hrest]
      rfl

lemma splitOn_of_not_infix (hne : pat ≠ []) (h : ¬ pat <:+: x) : splitOn pat x = [x] := by
  rw [splitOn_eq hne, (breakOn_eq_none_iff hne).mpr h]

lemma splitOn_append_append (hc : c ∉ p) (x y : List Char) :
    splitOn (c :: p) (x ++ (c :: p ++ y)) = splitOn (c :: p) x ++ splitOn (c :: p) y := by
  have hne : c :: p ≠ [] := cons_ne_nil c p
  induction hlen : x.length using Nat.strongRecOn generalizing x with
  | ind n ih =>
    rw [splitOn_eq hne, splitOn_eq hne x]
    cases hcut : breakOn (c :: p) x with
    | none =>
      have hno := (breakOn_eq_none_iff hne).mp hcut
      rw [cons_append, breakOn_cons_append_cons hc hno, ← cons_append,
        breakOn_of_prefix hne]
      simp
    | some r =>
      obtain ⟨b, a⟩ := r
      have hshort : a.length < n := by
        rw [← hlen, eq_append_of_breakOn hcut]
        simp only [length_append, length_cons]
        omega
      rw [breakOn_append_right hne hcut]
      simp only [cons_append]
      rw [← cons_append, ih a.length hshort a rfl]

lemma splitOn_append_of_last {f : Char → Bool} (hne : pat ≠ [])
    (hlast : f (pat.getLast hne) = false) (hy : ∀ c ∈ y, f c = true) (x : List Char) :
    ∃ qs q, splitOn pat x = qs ++ [q] ∧ splitOn pat (x ++ y) = qs ++ [q ++ y] := by
  induction hlen : x.length using Nat.strongRecOn generalizing x with
  | ind n ih =>
    rw [splitOn_eq hne, splitOn_eq hne, breakOn_append_of_last hne hlast hy]
    cases hcut : breakOn pat x with
    | none => exact ⟨[], x, rfl, rfl⟩
    | some r =>
      obtain ⟨b, a⟩ := r
      have hpos := length_pos_iff.mpr hne
      have hshort : a.length < n := by
        rw [← hlen, eq_append_of_breakOn hcut, length_append, length_append]
        omega
      obtain ⟨qs, q, hx, hxy⟩ := ih a.length hshort a rfl
      refine ⟨b :: qs, q, ?_, ?_⟩
      · simp only [hx, cons_append]
      · simp only [Option.map_some, hxy, cons_append]

lemma splitOn_append_left (hx : c ∉ x) {q : List Char} {qs : List (List Char)}
    (h : splitOn (c :: p) y = q :: qs) : splitOn (c :: p) (x ++ y) = (x ++ q) :: qs := by
  have hne : c :: p ≠ [] := cons_ne_nil c p
  have hcut : breakOn (c :: p) (x ++ y)
      = (breakOn (c :: p) y).map fun r => (x ++ r.1, r.2) := by
    refine breakOn_append fun z hz hzne hp => ?_
    obtain ⟨d, z, rfl⟩ := exists_cons_of_ne_nil hzne
    rw [cons_append, cons_prefix_cons] at hp
    exact hx (hz.subset (by simp [hp.1]))
  rw [splitOn_eq hne] at h
  rw [splitOn_eq hne, hcut]
  cases hy : breakOn (c :: p) y with
  | none | some r =>
    rw [hy] at h
    simp only [List.cons.injEq] at h
    obtain ⟨rfl, rfl⟩ := h
    rfl

lemma head_splitOn_prefix (hne : pat ≠ []) {q : List Char} {qs : List (List Char)}
    (h : splitOn pat x = q :: qs) : q <+: x := by
  rw [splitOn_eq hne] at h
  cases hcut : breakOn pat x with
  | none =>
    rw [hcut] at h
    simp only [List.cons.injEq] at h
    rw [h.1]
  | some r =>
    rw [hcut] at h
    simp only [List.cons.injEq] at h
    rw [← h.1, eq_append_of_breakOn hcut, append_assoc]
    exact prefix_append r.1 _

lemma unifyBreaks_append (hy : ∀ c ∈ y.head?, c ≠ '\n') (x : List Char) :
    unifyBreaks (x ++ y) = unifyBreaks x ++ unifyBreaks y := by
  fun_induction unifyBreaks x with
  | case1 => rfl
  | case2 rest ih => exact congrArg ('\n' :: ·) ih
  | case3 rest hrest ih =>
    have hapart : ∀ r, rest ++ y = '\n' :: r → False := by
      intro r hr
      cases rest with
      | nil =>
        rw [nil_append] at hr
        exact hy '\n' (by simp [hr]) rfl
      | cons c rest =>
        rw [cons_append, List.cons.injEq] at hr
        exact hrest rest (by rw [hr.1])
    rw [cons_append, unifyBreaks.eq_3 _ hapart, ih, cons_append]
  | case4 c rest hfirst hreturn ih =>
    rw [cons_append, unifyBreaks.eq_4 _ _ (fun r h _ => hreturn h) hreturn, ih,
      cons_append]

lemma exists_unifyBreaks_append_newline (x : List Char) :
    ∃ t, unifyBreaks (x ++ ['\n']) = t ++ ['\n'] := by
  have hlast : ∀ z : List Char, z.getLast? = some '\n' →
      (unifyBreaks z).getLast? = some '\n' := by
    intro z hz
    fun_induction unifyBreaks z with
    | case1 => cases hz
    | case2 rest ih =>
      cases rest with
      | nil => rfl
      | cons d rest =>
        rw [getLast?_cons_cons] at hz
        rw [getLast?_cons, ih hz]
        rfl
    | case3 rest _ ih =>
      cases rest with
      | nil => cases hz
      | cons d rest =>
        rw [getLast?_cons_cons] at hz
        rw [getLast?_cons, ih hz]
        rfl
    | case4 c rest _ _ ih =>
      cases rest with
      | nil => exact hz
      | cons d rest =>
        rw [getLast?_cons_cons] at hz
        rw [getLast?_cons, ih hz]
        rfl
  exact getLast?_eq_some_iff.mp (hlast _ getLast?_concat)

end Chars

/-! ## Chapters after any text -/

variable {cs : List Char}

namespace Chapter

def Chapterless (cs : List Char) : Prop :=
  ¬ ['#', '#', '#'] <:+: cs

lemma breakOn_chapterless (h : Chapterless cs) (t : List Char) :
    ∃ b k, k ≤ 2 ∧ Chars.breakOn ['#', '#', '#'] (cs ++ (chapterMark ++ t))
      = some (b, List.replicate k '#' ++ ' ' :: t) := by
  have hmark : ['#', '#', '#'] <:+: cs ++ (chapterMark ++ t) :=
    ⟨cs, ' ' :: t, by simp [chapterMark]⟩
  cases hcut : Chars.breakOn ['#', '#', '#'] (cs ++ (chapterMark ++ t)) with
  | none => exact absurd hmark ((Chars.breakOn_eq_none_iff (by simp)).mp hcut)
  | some r =>
    obtain ⟨b, a⟩ := r
    have hsplit := Chars.eq_append_of_breakOn hcut
    have hno : ¬ ['#', '#', '#'] <:+: b := by
      have hbefore := Chars.not_infix_before (cons_ne_nil '#' ['#', '#'])
        (cs ++ (chapterMark ++ t))
      rwa [Chars.before, hcut] at hbefore
    refine ⟨b, ?_⟩
    rw [append_assoc] at hsplit
    rcases append_eq_append_iff.mp hsplit with ⟨s, rfl, hs⟩ | ⟨s, rfl, hs⟩
    · -- the mark itself is the first place where there are three signs
      rcases s with _ | ⟨_, _ | ⟨_, _ | ⟨_, s⟩⟩⟩
      · exact ⟨0, by simp, by simpa [chapterMark] using hs.symm⟩
      · simp [chapterMark] at hs
      · simp [chapterMark] at hs
      · simp only [chapterMark, cons_append, List.cons.injEq] at hs
        obtain ⟨rfl, rfl, rfl, -⟩ := hs
        exact absurd ⟨cs, s, by simp⟩ hno
    · -- of the text at most two signs count
      rcases s with _ | ⟨_, _ | ⟨_, _ | ⟨_, s⟩⟩⟩
      · exact ⟨0, by simp, by simpa [chapterMark] using hs⟩
      · simp only [chapterMark, cons_append, nil_append, List.cons.injEq] at hs
        exact ⟨1, by simp, by simp [hs]⟩
      · simp only [chapterMark, cons_append, nil_append, List.cons.injEq] at hs
        exact ⟨2, by simp, by simp [hs]⟩
      · simp only [cons_append] at hs
        obtain ⟨rfl, rfl, rfl, -⟩ := hs
        exact absurd ⟨b, s, by simp⟩ h

lemma title?_replicate {k : Nat} (hk : k ≤ 2) (u : List Char) :
    title? (.ofList (List.replicate k '#' ++ (chapterMark ++ u)))
      = title? (.ofList (chapterMark ++ u)) := by
  have hmark : "### ".toList = chapterMark := by simp [chapterMark]
  have hcut : ∀ k ≤ 2, Chars.breakOn chapterMark (List.replicate k '#' ++ (chapterMark ++ u))
      = some (List.replicate k '#', u) := by
    intro k hk
    have hfirst := Chars.breakOn_of_prefix (y := u) (cons_ne_nil '#' ['#', '#', ' '])
    obtain rfl | rfl | rfl : k = 0 ∨ k = 1 ∨ k = 2 := by omega
    · exact hfirst
    · simp [chapterMark, Chars.breakOn]
    · simp [chapterMark, Chars.breakOn]
  have hzero := hcut 0 (by simp)
  rw [replicate_zero] at hzero
  simp only [title?, Text.breakOn, String.toList_ofList, hmark, hcut k hk]
  rfl

lemma split_chapterless (h : Chapterless cs) (t : List Char) :
    ∃ q qs k, Chars.splitOn ('\n' :: chapterMark) t = q :: qs ∧ k ≤ 2 ∧
      split (.ofList (cs ++ (chapterMark ++ t)))
        = .ofList (List.replicate k '#' ++ (chapterMark ++ q))
          :: qs.map fun u => .ofList (chapterMark ++ u) := by
  have hmark : "###".toList = ['#', '#', '#'] := by simp
  have hnext : "\n### ".toList = '\n' :: chapterMark := by simp [chapterMark]
  obtain ⟨b, k, hk, hcut⟩ := breakOn_chapterless h t
  obtain ⟨q, qs, hpieces⟩ := exists_cons_of_ne_nil
    (Chars.splitOn_ne_nil (cons_ne_nil '\n' chapterMark) t)
  have hfirst := Chars.splitOn_append_left (x := List.replicate k '#' ++ [' ']) (by simp) hpieces
  rw [append_assoc, singleton_append] at hfirst
  refine ⟨q, qs, k, hpieces, hk, ?_⟩
  rw [split, Text.breakOn, hmark, String.toList_ofList, hcut]
  simp only [Option.map_some, Text.splitOn, String.toList_ofList, hnext, hfirst, map_cons,
    map_map, List.cons.injEq]
  constructor
  · -- the signs can as well stand in front of the mark
    rw [← String.toList_inj]
    obtain rfl | rfl | rfl : k = 0 ∨ k = 1 ∨ k = 2 := by omega
    · simp [chapterMark]
    · simp [chapterMark]
    · simp [chapterMark]
  · refine map_congr_left fun u _ => ?_
    rw [← String.toList_inj]
    simp [chapterMark]

end Chapter

/-! ## Files that can be read -/

namespace Document

open Chapter

def Readable (cs : List Char) : Prop :=
  ∃ ds : List ModuleDoc, ofText (.ofList cs) = .ok ds

def ReadsChapter (u : List Char) : Prop :=
  ∃ d : ModuleDoc, ofChapter (.ofList (chapterMark ++ u)) = .ok d

lemma ofChapter_ok_iff {t : String} : (∃ d : ModuleDoc, ofChapter t = .ok d) ↔
    ∃ r ∈ title? t, (Chapter.section? "Description" r.2).isSome = true ∧
      (Chapter.section? "Functions" r.2).isSome = true := by
  rw [ofChapter]
  cases title? t with
  | none => simp
  | some r =>
    obtain ⟨n, b⟩ := r
    simp only [Option.mem_some_iff, exists_eq_left']
    cases Chapter.section? "Description" b with
    | none => simp
    | some s =>
      simp only [ModuleDoc.ofBlock_eq, itemsOf]
      cases Chapter.section? "Functions" b with
      | none | some list => simp [Except.map]

lemma readsChapter_line {n : List Char} (hn : '\n' ∉ n) (b : List Char) :
    ReadsChapter (n ++ '\n' :: b) ↔
      (cut "Description" (Chars.before ('\n' :: chapterMark) b)).isSome = true ∧
      (cut "Functions" (Chars.before ('\n' :: chapterMark) b)).isSome = true := by
  rw [ReadsChapter, ofChapter_ok_iff, title?_ofList hn]
  simp only [Option.mem_some_iff, exists_eq_left', section?_eq, String.toList_ofList,
    Option.isSome_map]

lemma not_readsChapter {u : List Char} (hu : '\n' ∉ u) : ¬ ReadsChapter u := by
  have hmark : "### ".toList = chapterMark := by simp [chapterMark]
  have hline : "\n".toList = ['\n'] := by simp
  have hfirst := Chars.breakOn_of_prefix (y := u) (cons_ne_nil '#' ['#', '#', ' '])
  have hnone : Chars.breakOn ['\n'] u = none :=
    (Chars.breakOn_eq_none_iff (by simp)).mpr fun hin => hu (hin.subset mem_cons_self)
  have htitle : title? (.ofList (chapterMark ++ u)) = none := by
    simp only [title?, Text.breakOn, String.toList_ofList, hmark, hline,
      show chapterMark = '#' :: ['#', '#', ' '] from rfl, hfirst, Option.map_some, hnone,
      Option.map_none, Option.bind_eq_bind, Option.bind_some, Option.bind_none]
  rw [ReadsChapter, ofChapter_ok_iff, htitle]
  simp

lemma readsChapter_append_newline (u : List Char) :
    ReadsChapter (u ++ ['\n']) ↔ ReadsChapter u := by
  by_cases hline : '\n' ∈ u
  · obtain ⟨n, b, rfl, hn⟩ := eq_append_cons_of_mem hline
    rw [append_assoc, cons_append, readsChapter_line hn, readsChapter_line hn,
      Chars.before, Chars.before,
      Chars.breakOn_append_of_last (p := (· == '\n')) (cons_ne_nil '\n' chapterMark)
        (by decide) (by simp)]
    cases Chars.breakOn ('\n' :: chapterMark) b with
    | some r => rfl
    | none =>
      have hfeed : ∀ c ∈ ['\n'], Chars.isBlank c = true :=
        forall_mem_singleton.mpr (by decide)
      simp only [Option.map_none]
      rw [cut_append_blanks (by decide) hfeed, cut_append_blanks (by decide) hfeed]
  · refine iff_of_false ?_ (not_readsChapter hline)
    rw [readsChapter_line hline, Chars.before_eq_self (by simp) (by simp), cut_nil]
    simp

lemma forall_splitOn_append_newline (t : List Char) :
    (∀ u ∈ Chars.splitOn ('\n' :: chapterMark) (t ++ ['\n']), ReadsChapter u) ↔
      ∀ u ∈ Chars.splitOn ('\n' :: chapterMark) t, ReadsChapter u := by
  obtain ⟨qs, q, ht, hlonger⟩ := Chars.splitOn_append_of_last (f := (· == '\n'))
    (cons_ne_nil '\n' chapterMark) (by decide) (y := ['\n']) (by simp) t
  rw [ht, hlonger, forall_mem_append, forall_mem_append, forall_mem_singleton,
    forall_mem_singleton, readsChapter_append_newline]

lemma readable_chapterless_iff (h : Chapterless cs) (t : List Char) :
    Readable (cs ++ (chapterMark ++ t)) ↔
      ∀ u ∈ Chars.splitOn ('\n' :: chapterMark) t, ReadsChapter u := by
  obtain ⟨q, qs, k, hpieces, hk, hsplit⟩ := split_chapterless h t
  have hfirst : (∃ d : ModuleDoc, ofChapter (.ofList (List.replicate k '#' ++ (chapterMark ++ q)))
      = .ok d) ↔ ReadsChapter q := by
    rw [ReadsChapter, ofChapter_ok_iff, ofChapter_ok_iff, title?_replicate hk]
  rw [Readable, ofText, hsplit, exists_mapM_ok_iff, hpieces, forall_mem_cons,
    forall_mem_cons, hfirst, forall_mem_map]
  rfl

/-- **A file can be read exactly if each chapter in it can be read alone**, whatever stands in front
of them. -/
lemma readable_file_iff (h : Chapterless cs) {ts : List (List Char)} (hts : ts ≠ []) :
    Readable (cs ++ fileChars ts) ↔ ∀ t ∈ ts, Readable (fileChars [t]) := by
  have hsingle : ∀ t, Readable (fileChars [t]) ↔
      ∀ u ∈ Chars.splitOn ('\n' :: chapterMark) t, ReadsChapter u := by
    intro t
    have hempty : Chapterless [] := by rw [Chapterless]; decide
    rw [← forall_splitOn_append_newline, ← readable_chapterless_iff hempty]
    simp [fileChars]
  obtain ⟨t, ts, rfl⟩ := exists_cons_of_ne_nil hts
  have hfile : cs ++ fileChars (t :: ts) = cs ++ (chapterMark ++ (t ++ '\n' :: fileChars ts)) := by
    simp [fileChars]
  rw [hfile, readable_chapterless_iff h, forall_mem_cons, hsingle t]
  clear hfile hts h
  -- a chapter ends where the mark of the next one starts, so the pieces are those of all
  induction ts generalizing t with
  | nil => simpa [fileChars] using forall_splitOn_append_newline t
  | cons t' ts ih =>
    have hnext : t ++ '\n' :: fileChars (t' :: ts)
        = t ++ ('\n' :: chapterMark ++ (t' ++ '\n' :: fileChars ts)) := by
      simp [fileChars]
    rw [hnext, Chars.splitOn_append_append (by decide), forall_mem_append,
      forall_mem_cons, hsingle t']
    exact and_congr_right fun _ => ih t'

/-! ## Documents in a row -/

def written (d : ModuleDoc) : String :=
  (markdown d).toOption.getD "" ++ "\n"

lemma markdown_written (d : ModuleDoc) :
    ∃ text, markdown d = .ok text ∧ written d = text ++ "\n" ∧
      ∃ t, text.toList = chapterMark ++ t := by
  obtain ⟨s, hs, -⟩ := d.exists_sections
  have hmarkdown : markdown d = .ok (Chapter.head d.name d.description ++ Text.strip s) := by
    rw [markdown, hs]
    rfl
  refine ⟨_, hmarkdown, by rw [written, hmarkdown]; rfl, ?_⟩
  exact ⟨d.name.toList ++ '\n' :: ((writeSection "Description" d.description).toList
    ++ (Text.strip s).toList), by simp [Chapter.head, chapterMark]⟩

def Reopens (d : ModuleDoc) : Prop :=
  Readable (Chars.unifyBreaks (written d).toList)

lemma exists_chapter (d : ModuleDoc) :
    ∃ t, Chars.unifyBreaks (written d).toList = fileChars [t] := by
  obtain ⟨text, -, hwritten, t, ht⟩ := markdown_written d
  obtain ⟨u, hu⟩ := Chars.exists_unifyBreaks_append_newline t
  refine ⟨u, ?_⟩
  have hmark : ∀ x, Chars.unifyBreaks (chapterMark ++ x) = chapterMark ++ Chars.unifyBreaks x :=
    fun x => rfl
  rw [hwritten, String.toList_append, ht]
  show chapterMark ++ Chars.unifyBreaks (t ++ ['\n']) = _
  rw [hu]
  simp [fileChars]

def addAll (s : String) (ds : List ModuleDoc) : String :=
  ds.foldl (fun s d => s ++ written d) s

lemma toList_addAll (s : String) (ds : List ModuleDoc) :
    (addAll s ds).toList = s.toList ++ ds.flatMap fun d => (written d).toList := by
  induction ds generalizing s with
  | nil => simp [addAll]
  | cons d ds ih =>
    rw [addAll, foldl_cons, ← addAll, ih, String.toList_append, append_assoc,
      flatMap_cons]

lemma unifyBreaks_flatMap_written (x : List Char) (ds : List ModuleDoc) :
    Chars.unifyBreaks (x ++ ds.flatMap fun d => (written d).toList)
      = Chars.unifyBreaks x ++ ds.flatMap fun d => Chars.unifyBreaks (written d).toList := by
  induction ds generalizing x with
  | nil => simp
  | cons d ds ih =>
    obtain ⟨text, -, hwritten, t, ht⟩ := markdown_written d
    have hstart : ∀ y : List Char, ∀ c ∈ ((written d).toList ++ y).head?, c ≠ '\n' := by
      intro y c hc
      rw [hwritten, String.toList_append, ht] at hc
      simp only [chapterMark, cons_append, head?_cons, Option.mem_some_iff] at hc
      rw [← hc]
      decide
    rw [flatMap_cons, Chars.unifyBreaks_append (hstart _), ih, flatMap_cons]

lemma chapterless_of_read (h : ofText (.ofList cs) = .ok ([] : List ModuleDoc)) :
    Chapterless cs := by
  have hmark : "###".toList = ['#', '#', '#'] := by simp
  rw [ofText, mapM_ok_iff, split, Text.breakOn, hmark,
    String.toList_ofList] at h
  cases hcut : Chars.breakOn ['#', '#', '#'] cs with
  | none => exact (Chars.breakOn_eq_none_iff (by simp)).mp hcut
  | some r =>
    rw [hcut] at h
    simp only [Option.map_some, Text.splitOn] at h
    obtain ⟨q, qs, hpieces⟩ := exists_cons_of_ne_nil (Chars.splitOn_ne_nil (by simp)
      (String.ofList r.2).toList : Chars.splitOn "\n### ".toList (String.ofList r.2).toList ≠ [])
    rw [hpieces] at h
    cases h

/-- **What was added can be read exactly if each document can be read alone**, and then there is
something. -/
lemma readable_addAll_iff {s : String}
    (hs : ofText (Text.unifyBreaks s) = .ok ([] : List ModuleDoc)) {ds : List ModuleDoc}
    (hds : ds ≠ []) :
    ((∃ es : List ModuleDoc, ofText (Text.unifyBreaks (addAll s ds)) = .ok es) ↔
        ∀ d ∈ ds, Reopens d) ∧
      ofText (Text.unifyBreaks (addAll s ds)) ≠ .ok ([] : List ModuleDoc) := by
  choose chapter hchapter using exists_chapter
  have hfile : (ds.flatMap fun d => Chars.unifyBreaks (written d).toList)
      = fileChars (ds.map chapter) := by
    simp [hchapter, fileChars, flatMap_map]
  have hnone := chapterless_of_read hs
  have hmap : ds.map chapter ≠ [] := by simpa using hds
  rw [Text.unifyBreaks, toList_addAll, unifyBreaks_flatMap_written, hfile]
  constructor
  · rw [← Readable, readable_file_iff hnone hmap, forall_mem_map]
    exact forall₂_congr fun d _ => by rw [Reopens, hchapter]
  · obtain ⟨t, ts, hcons⟩ := exists_cons_of_ne_nil hmap
    intro hread
    rw [hcons] at hread
    have hsome : ¬ Chapterless (Chars.unifyBreaks s.toList ++ fileChars (t :: ts)) := by
      simp only [Chapterless, not_not]
      exact ⟨Chars.unifyBreaks s.toList, ' ' :: (t ++ '\n' :: fileChars ts),
        by simp [fileChars, chapterMark]⟩
    exact hsome (chapterless_of_read hread)

/-! ## Documents that were read -/

lemma cut_eq_none_iff {h : String} : cut h cs = none ↔ ¬ heading h <:+: cs := by
  rw [cut, Option.map_eq_none_iff, Chars.breakOn_eq_none_iff (heading_ne_nil h)]

lemma not_infix_after_description {description : String} {ss : List (String × String)}
    (hdescription : Unmarked description.toList) (hss : Tidy ss)
    (hother : ss.lookup "Description" = none) :
    ¬ heading "Description" <:+:
      description.toList ++ '\n' :: ([] ++ '\n' :: Chars.strip (bodyChars ss)) := by
  have hline : '\n' ∉ heading "Description" := newline_notMem_heading (by decide)
  have hbody : ¬ heading "Description" <:+: bodyChars ss := by
    rw [← cut_eq_none_iff, cut_body (by decide) hss, hother, Option.map_none]
  rw [Chars.infix_append_cons_iff (heading_ne_nil _) hline,
    Chars.infix_append_cons_iff (heading_ne_nil _) hline, not_or, not_or]
  refine ⟨hdescription.not_infix_heading _, ?_, fun hin => hbody (hin.trans (Chars.trim_infix _ _))⟩
  rw [infix_nil]
  exact heading_ne_nil _

lemma heading_infix_of_readsChapter {u : List Char} (h : ReadsChapter u) :
    heading "Description" <:+: u := by
  by_cases hline : '\n' ∈ u
  · obtain ⟨n, b, rfl, hn⟩ := eq_append_cons_of_mem hline
    have hcut := ((readsChapter_line hn b).mp h).1
    have hin : heading "Description" <:+: Chars.before ('\n' :: chapterMark) b := by
      by_contra hno
      rw [cut_eq_none_iff.mpr hno] at hcut
      cases hcut
    exact (hin.trans (Chars.before_prefix _ b).isInfix).trans ⟨n ++ ['\n'], [], by simp⟩
  · exact absurd h (not_readsChapter hline)

lemma single_of_readsChapters {name description : String} {ss : List (String × String)}
    (hname : '\n' ∉ name.toList) (hdescription : Unmarked description.toList) (hss : Tidy ss)
    (hother : ss.lookup "Description" = none)
    (h : ∀ u ∈ Chars.splitOn ('\n' :: chapterMark) (chapterChars name description ss),
      ReadsChapter u) : ¬ '\n' :: chapterMark <:+: chapterChars name description ss := by
  intro hin
  have hne : '\n' :: chapterMark ≠ [] := cons_ne_nil _ _
  cases hcut : Chars.breakOn ('\n' :: chapterMark) (chapterChars name description ss) with
  | none => exact (Chars.breakOn_eq_none_iff hne).mp hcut hin
  | some r =>
    obtain ⟨b, a⟩ := r
    -- the first piece after the cut is a chapter, so it has a description
    have hdescribed : heading "Description" <:+: a := by
      obtain ⟨q, qs, hpieces⟩ := exists_cons_of_ne_nil (Chars.splitOn_ne_nil hne a)
      have hq : ReadsChapter q := by
        refine h q ?_
        rw [Chars.splitOn_eq hne, hcut]
        simp only [hpieces, mem_cons, true_or, or_true]
      exact (heading_infix_of_readsChapter hq).trans
        (Chars.head_splitOn_prefix hne hpieces).isInfix
    have hsplit := Chars.eq_append_of_breakOn hcut
    have hchars : chapterChars name description ss
        = (name.toList ++ '\n' :: (heading "Description" ++ ['\n']))
          ++ (description.toList ++ '\n' :: ([] ++ '\n' :: Chars.strip (bodyChars ss))) := by
      simp [chapterChars, sectionChars]
    rw [hchars] at hsplit
    rcases append_eq_append_iff.mp hsplit.symm with ⟨x, hx, -⟩ | ⟨x, -, hx⟩
    · -- no line up to the heading is like a title
      have hinfix : '\n' :: chapterMark <:+:
          name.toList ++ '\n' :: (heading "Description" ++ ['\n']) :=
        ⟨b, x, hx.symm⟩
      rw [Chars.cons_infix_append_cons_iff (by decide)] at hinfix
      rcases hinfix with hin | hin
      · exact hname (hin.subset mem_cons_self)
      · exact absurd hin (by decide)
    · exact not_infix_after_description hdescription hss hother
        (hdescribed.trans ⟨x, [], by rw [append_nil, ← hx]⟩)

lemma unifyBreaks_written {d : ModuleDoc} (h : Known d d.fields) :
    Chars.unifyBreaks (written d).toList
      = fileChars [chapterChars d.name d.description (setFields d.fields)] := by
  have hreturn : '\r' ∉ chapterChars d.name d.description (setFields d.fields) :=
    return_notMem_chapterChars h.title.noReturn fun s hs => ⟨(h.mem s hs).1, (h.mem s hs).2.2.1⟩
  obtain ⟨text, htext, hwritten, -⟩ := markdown_written d
  obtain rfl := Except.ok.inj (htext.symm.trans h.markdown_eq)
  have hchars : (written d).toList
      = fileChars [chapterChars d.name d.description (setFields d.fields)] := by
    rw [hwritten]
    simp [fileChars]
    rfl
  rw [hchars, Chars.unifyBreaks_eq_self]
  simpa [fileChars, chapterMark] using hreturn

section Known

variable {d : ModuleDoc}

lemma Known.tidy (h : Known d d.fields) :
    Tidy (("Description", d.description) :: setFields d.fields) :=
  fun s hs => ⟨(h.mem s hs).1, (h.mem s hs).2.1⟩

lemma lookup_description_fields (d : ModuleDoc) :
    (setFields d.fields).lookup "Description" = none := by
  rw [lookup_eq_none_iff]
  rintro ⟨k, u⟩ hu
  have hk := mem_setFields.mp hu
  simp only [ModuleDoc.fields, mem_cons, Prod.mk.injEq, not_mem_nil, or_false] at hk
  rcases hk with ⟨rfl, -⟩ | ⟨rfl, -⟩
  · rfl
  · rfl

lemma Known.reopens_iff_forall (h : Known d d.fields) :
    Reopens d ↔ ∀ u ∈ Chars.splitOn ('\n' :: chapterMark)
      (chapterChars d.name d.description (setFields d.fields)), ReadsChapter u := by
  have hempty : Chapterless [] := by rw [Chapterless]; decide
  rw [Reopens, unifyBreaks_written h, ← forall_splitOn_append_newline,
    ← readable_chapterless_iff hempty]
  simp [fileChars]

lemma Known.inner_of_reopens (h : Known d d.fields) (hopen : Reopens d) :
    d.functions ≠ some [] ∧ Inner d.description.toList ∧ ∀ u ∈ d.usage, Inner u.toList := by
  have hall := h.reopens_iff_forall.mp hopen
  have hsingle : ¬ '\n' :: chapterMark <:+:
      chapterChars d.name d.description (setFields d.fields) :=
    single_of_readsChapters h.title.line h.summary.unmarked
      (forall_mem_cons.mp h.tidy).2 (lookup_description_fields d) hall
  rw [Chars.splitOn_of_not_infix (cons_ne_nil _ _) hsingle, forall_mem_singleton,
    ← readsChapter_append_newline] at hall
  obtain ⟨d', hd'⟩ := hall
  obtain ⟨hdescription, htexts, b, hblock, hsections⟩ :=
    h.of_read (ofText_single_iff.mpr ⟨hsingle, hd'⟩)
  simp only [ModuleDoc.fields, forall_mem_cons] at htexts hsections
  refine ⟨fun hnone => ?_, hdescription, fun u hu => ?_⟩
  · -- an empty list is not written, but a list has to be there
    rw [ModuleDoc.ofBlock_eq] at hblock
    obtain ⟨ys, hys, -⟩ := map_ok_iff.mp hblock
    obtain ⟨list, hlist, -⟩ := itemsOf_ok_iff.mp hys
    rw [hsections.1, hnone] at hlist
    cases hlist
  · -- an empty text is not written either, and it has no line like a title
    by_cases hblank : u = ""
    · rw [hblank]
      exact inner_nil
    · refine htexts.2.1 u ?_
      rw [Option.mem_def.mp hu]
      exact Option.filter_some_pos (by simpa using hblank)

lemma Known.reopens_of_inner (h : Known d d.fields) {xs : List String} (hxs : xs ≠ [])
    (hfunctions : d.functions = some xs) (hitems : ∀ x ∈ xs, IsItem x.toList)
    (hdescription : Inner d.description.toList) (hinner : ∀ u ∈ d.usage, Inner u.toList) :
    Reopens d := by
  have hset : (d.functions.filter (· ≠ [])).map bullets = some (bullets xs) := by
    rw [hfunctions, Option.filter_some_pos (by simpa using hxs), Option.map_some]
  have htexts : ∀ f ∈ d.fields, ∀ u ∈ f.2, Unmarked u.toList ∧ Inner u.toList := by
    intro f hf u hu
    refine ⟨(h.texts f hf u hu).1, ?_⟩
    simp only [ModuleDoc.fields, mem_cons, not_mem_nil, or_false] at hf
    rcases hf with rfl | rfl
    · rw [hset, Option.mem_some_iff] at hu
      rw [← hu]
      exact inner_bullets hitems
    · exact hinner u (Option.eq_some_of_filter_eq_some hu)
  have hsingle : ¬ '\n' :: chapterMark <:+:
      chapterChars d.name d.description (setFields d.fields) :=
    (not_infix_chapterChars h.title.line h.tidy
      (forall_mem_cons.mpr ⟨hdescription, fun s hs =>
        (htexts (s.1, some s.2) (mem_setFields.mp hs) s.2 rfl).2⟩)).2
  obtain ⟨b, hb, hsections⟩ := ofChapter_chapterChars (δ := ModuleDoc) h.title.line
    h.headed ⟨h.summary.unmarked, hdescription⟩ htexts 0
  rw [h.reopens_iff_forall, Chars.splitOn_of_not_infix (cons_ne_nil _ _) hsingle,
    forall_mem_singleton]
  -- of the sections only the list of functions is asked for
  have hlist := hsections ("Functions", some (bullets xs)) (by rw [ModuleDoc.fields, hset]; simp)
  rw [replicate_zero, append_nil, ModuleDoc.ofBlock_eq, itemsOf, hlist] at hb
  exact ⟨_, hb⟩

end Known

/-- **A document that was read opens again exactly if it names a function and no line of its texts
is like a title.** -/
lemma reopens_iff {t : String} (ht : '\r' ∉ t.toList) {d : ModuleDoc}
    (h : ofChapter t = .ok d) : Reopens d ↔ d.functions ≠ some [] ∧ Inner d.description.toList ∧
      ∀ u ∈ d.usage, Inner u.toList := by
  obtain ⟨hknown, ⟨xs, hfunctions, hitems⟩, -⟩ := ModuleDoc.known_of_read ht h
  constructor
  · exact hknown.inner_of_reopens
  · rintro ⟨hsome, hdescription, hinner⟩
    have hxs : xs ≠ [] := by
      rintro rfl
      exact hsome hfunctions
    exact hknown.reopens_of_inner hxs hfunctions (fun x hx => (hitems x hx).1) hdescription hinner

end Document

end Docsmith

