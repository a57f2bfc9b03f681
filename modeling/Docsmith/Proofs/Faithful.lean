import Docsmith.Proofs.Documents

/-! # Documents that their chapter gives back

`RoutineDoc.ofChapter_markdown_iff` says which documents on routines are read from their own
chapter. What is read has no blanks at its ends and no mark of a section. The first section with a
line like a title is read up to that line (`inner_of_cut`), and no other section can stand in for
what is missing, because each is looked for under its own heading. -/

namespace Docsmith.Chapter

open List

lemma before_mark {c : Char} {pat x : List Char} (hc : c ∉ pat) (hx : ¬ c :: pat <:+: x)
    (y : List Char) : Chars.before (c :: pat) (x ++ (c :: pat ++ y)) = x := by
  have hfirst := Chars.breakOn_of_prefix (y := y) (cons_ne_nil c pat)
  rw [cons_append] at hfirst ⊢
  rw [Chars.before, Chars.breakOn_cons_append_cons hc hx, hfirst, Option.map_some]
  exact append_nil x

variable {ss : List (String × String)}

lemma cut_body_append {h : String} (hh : h ∈ headers) (hss : Tidy ss) (hno : h ∉ ss.map Prod.fst)
    (y : List Char) : cut h (bodyChars ss ++ y) = cut h y := by
  induction ss with
  | nil => rfl
  | cons s ss ih =>
    obtain ⟨⟨hk, ht⟩, hrest⟩ := forall_mem_cons.mp hss
    rw [map_cons, mem_cons, not_or] at hno
    rw [bodyChars_cons, append_assoc, cut_section_of_ne hh hk hno.1 ht, ih hrest hno.2]

lemma inner_body_append (hss : Tidy ss) (y : List Char) :
    Inner (bodyChars ss ++ y) ↔ (∀ s ∈ ss, Inner s.2.toList) ∧ Inner y := by
  induction ss with
  | nil => simp [bodyChars]
  | cons s ss ih =>
    obtain ⟨⟨hh, -⟩, hrest⟩ := forall_mem_cons.mp hss
    rw [bodyChars_cons, append_assoc, inner_section hh, ih hrest, forall_mem_cons,
      and_assoc]

lemma inner_heading_append {h : String} (hh : h ∈ headers) {u t : List Char}
    (hu : u <+: '\n' :: t) (hno : ¬ '\n' :: chapterMark <:+: u) : Inner (heading h ++ u) := by
  have hheading : ¬ '\n' :: chapterMark <:+: '\n' :: heading h := by
    intro hin
    rcases infix_cons_iff.mp hin with hp | hin
    · simp [chapterMark, heading, sectionMark] at hp
    · exact newline_notMem_heading hh (hin.subset mem_cons_self)
  rcases prefix_cons_iff.mp hu with rfl | ⟨u, rfl, -⟩
  · rw [append_nil]
    exact hheading
  · rw [Inner, ← cons_append, Chars.cons_infix_append_cons_iff (by decide), not_or]
    exact ⟨hheading, hno⟩

lemma exists_first_title {t : List Char} (hstripped : Chars.strip t = t) (h : ¬ Inner t) :
    ∃ u v, '\n' :: t = u ++ ('\n' :: chapterMark ++ v) ∧ ¬ '\n' :: chapterMark <:+: u ∧
      ∃ hv : v ≠ [], Chars.isBlank (v.getLast hv) = false := by
  obtain ⟨⟨u, v⟩, hcut⟩ : ∃ r, Chars.breakOn ('\n' :: chapterMark) ('\n' :: t) = some r := by
    rw [← Option.ne_none_iff_exists', ne_eq, Chars.breakOn_eq_none_iff (by decide)]
    exact h
  have heq := Chars.eq_append_of_breakOn hcut
  rw [append_assoc] at heq
  have hbefore : Chars.before ('\n' :: chapterMark) ('\n' :: t) = u := by rw [Chars.before, hcut]
  have hne : t ≠ [] := by
    rintro rfl
    exact h inner_nil
  have hlast := (Chars.trim_eq_self_iff.mp hstripped hne).2
  rw [← getLast_cons (a := '\n') hne, getLast_congr _ (by simp) heq] at hlast
  refine ⟨u, v, heq, hbefore ▸ Chars.not_infix_before (by decide) _, ?_⟩
  rw [getLast_append_of_ne_nil _ (by simp)] at hlast
  have hv : v ≠ [] := by
    rintro rfl
    exact absurd hlast (by decide)
  exact ⟨hv, by rwa [getLast_append_of_ne_nil _ hv] at hlast⟩

lemma inner_of_cut (hss : Tidy ss) (hkeys : (ss.map Prod.fst).Nodup)
    (hstripped : ∀ s ∈ ss, Chars.strip s.2.toList = s.2.toList) {x w : List Char}
    (hx : bodyChars ss = x ++ w) (hw : ∀ c ∈ w, Chars.isBlank c = true)
    (hread : ∀ s ∈ ss, cut s.1 (Chars.before ('\n' :: chapterMark) x) = some s.2.toList) :
    ∀ s ∈ ss, Inner s.2.toList := by
  by_contra hno
  push Not at hno
  -- the first section with a line like a title
  obtain ⟨s, hfind⟩ : ∃ s, ss.find? (fun s => decide (¬ Inner s.2.toList)) = some s := by
    obtain ⟨s, hmem, hs⟩ := hno
    rw [← Option.isSome_iff_exists, find?_isSome]
    exact ⟨s, hmem, decide_eq_true hs⟩
  obtain ⟨hs, pre, post, rfl, hpre⟩ := find?_eq_some_iff_append.mp hfind
  have hmem : s ∈ pre ++ s :: post := by simp
  have htidy : Tidy pre := fun p hp => hss p (by simp [hp])
  obtain ⟨u, v, heq, hu, hv, hlast⟩ :=
    exists_first_title (hstripped s hmem) (of_decide_eq_true hs)
  -- the chapter ends before that line
  have hfirst : ¬ '\n' :: chapterMark <:+: bodyChars pre ++ (heading s.1 ++ u) := by
    refine not_infix_of_inner ((inner_body_append htidy _).mpr ⟨fun p hp => ?_, ?_⟩)
    · simpa using hpre p hp
    · exact inner_heading_append (hss s hmem).1 (heq ▸ prefix_append u _) hu
  have hprefix : bodyChars pre ++ (heading s.1 ++ u) ++ ('\n' :: chapterMark ++ v) <+: x := by
    refine (Chars.prefix_append_iff_of_last (by simp) ?_ hw).mp ?_
    · rwa [getLast_append_of_ne_nil _ (by simp), getLast_append_of_ne_nil _ hv]
    · refine ⟨['\n', '\n'] ++ bodyChars post, ?_⟩
      have hsection : sectionChars s = heading s.1 ++ ('\n' :: s.2.toList ++ ['\n', '\n']) := by
        simp [sectionChars]
      have hbody : bodyChars (pre ++ s :: post)
          = bodyChars pre ++ (sectionChars s ++ bodyChars post) := by
        simp [bodyChars]
      rw [← hx, hbody, hsection, heq]
      simp
  obtain ⟨rest, rfl⟩ := hprefix
  have hcut := hread s hmem
  have hother : s.1 ∉ pre.map Prod.fst := by
    rw [map_append, map_cons, nodup_append] at hkeys
    exact fun hin => hkeys.2.2 _ hin _ mem_cons_self rfl
  rw [append_assoc, append_assoc ('\n' :: chapterMark), before_mark (by decide) hfirst,
    cut_body_append (hss s hmem).1 htidy hother, cut, Chars.breakOn_of_prefix (heading_ne_nil s.1),
    Option.map_some, Option.some.injEq] at hcut
  -- what is read is too short
  have hshort := ( Chars.trim_infix Chars.isBlank (Chars.before sectionMark u)).length_le.trans
    (Chars.before_prefix sectionMark u).length_le
  have hlong := congrArg List.length heq
  rw [show Chars.trim Chars.isBlank (Chars.before sectionMark u) = s.2.toList from hcut] at hshort
  simp only [length_append, length_cons, chapterMark, length_nil] at hlong
  omega

lemma setFields_sublist (fs : List (String × Option String)) :
    ((setFields fs).map Prod.fst).Sublist (fs.map Prod.fst) := by
  induction fs with
  | nil => exact List.Sublist.refl _
  | cons f fs ih =>
    obtain ⟨k, o⟩ := f
    cases o with
    | none => exact ih.cons k
    | some t => exact ih.cons_cons k

lemma exists_of_title? {t n b : String} (h : title? t = some (n, b)) : ∃ x rest title block,
    Chars.breakOn "### ".toList t.toList = some (x, rest) ∧
    Chars.breakOn ['\n'] rest = some (title, block) ∧ Text.strip (.ofList title) = n ∧
    Text.before "\n### " (.ofList block) = b := by
  simp only [title?, Text.breakOn, Option.bind_eq_bind, Option.bind_eq_some_iff,
    Option.map_eq_some_iff, Option.pure_def, Option.some.injEq, Prod.mk.injEq] at h
  obtain ⟨-, ⟨⟨x, rest⟩, hx, rfl⟩, -, ⟨⟨title, block⟩, hline, rfl⟩, hn, hb⟩ := h
  exact ⟨x, rest, title, block, hx, by simpa using hline, hn, hb⟩

lemma title?_spec {t n b : String} (h : title? t = some (n, b)) :
    Text.strip n = n ∧ '\n' ∉ n.toList := by
  obtain ⟨-, rest, title, block, -, hline, rfl, -⟩ := exists_of_title? h
  have htitle : Chars.before ['\n'] rest = title := by rw [Chars.before, hline]
  refine ⟨strip_ofList_strip _, ?_⟩
  rw [Text.strip, String.toList_ofList, String.toList_ofList]
  intro hin
  obtain ⟨u, v, huv⟩ := append_of_mem (( Chars.trim_infix Chars.isBlank title).subset hin)
  refine Chars.not_infix_before (cons_ne_nil '\n' []) rest ?_
  rw [htitle, huv]
  exact ⟨u, v, by simp⟩

end Docsmith.Chapter

namespace Docsmith

open Chapter Document List

lemma Document.ofChapter_eq_ok {δ : Type} [Document δ] {t : String} {d : δ}
    (h : ofChapter t = .ok d) : ∃ n s b, title? t = some (n, b) ∧
      Chapter.section? "Description" b = some s ∧ ofBlock n s b = .ok d := by
  rw [ofChapter] at h
  cases htitle : title? t with
  | none =>
    rw [htitle] at h
    cases h
  | some r =>
    obtain ⟨n, b⟩ := r
    simp only [htitle] at h
    cases hs : Chapter.section? "Description" b with
    | none =>
      rw [hs] at h
      cases h
    | some s =>
      rw [hs] at h
      exact ⟨n, s, b, rfl, hs, h⟩

/-- The sections of a document on a routine that are set, the description included. -/
def RoutineDoc.written (d : RoutineDoc) : List (String × String) :=
  ("Description", d.description) :: setFields d.fields

lemma RoutineDoc.mem_written {d : RoutineDoc} {t : String} :
    (∃ s ∈ d.written, s.2 = t) ↔ t = d.description ∨ d.parameters = some t ∨ d.detail = some t ∨
      d.usage = some t ∨ d.code = some t := by
  simp only [RoutineDoc.written, RoutineDoc.fields, mem_cons, Prod.exists, exists_eq_right,
    mem_setFields]
  simp only [Prod.mk.injEq, not_mem_nil, or_false, exists_or, exists_eq_left,
    eq_comm (a := some t)]

lemma RoutineDoc.nodup_written (d : RoutineDoc) : (d.written.map Prod.fst).Nodup :=
  d.headed.1.sublist ((setFields_sublist d.fields).cons_cons _)

lemma RoutineDoc.markdown_chars (d : RoutineDoc) :
    d.markdown = .ofList (chapterMark ++ chapterChars d.name d.description (setFields d.fields)) := by
  have h := Document.markdown_eq (d := d) (s := d.sections) rfl d.toList_sections
  rwa [RoutineDoc.markdown_eq, Except.ok.injEq] at h

lemma RoutineDoc.sections_of_read {t : String} {d : RoutineDoc} (h : ofChapter t = .ok d) :
    ∃ b, title? t = some (d.name, b) ∧ ∀ f ∈ ("Description", some d.description) :: d.fields,
      Chapter.section? f.1 b = f.2 := by
  obtain ⟨n, s, b, htitle, hs, hblock⟩ := ofChapter_eq_ok h
  obtain rfl := Except.ok.inj hblock
  refine ⟨b, htitle, ?_⟩
  simpa only [RoutineDoc.fields, forall_mem_cons, true_and] using
    ⟨hs, fun f hf => absurd hf not_mem_nil⟩

lemma RoutineDoc.ofChapter_markdown {d : RoutineDoc}
    (hname : Text.strip d.name = d.name ∧ '\n' ∉ d.name.toList)
    (htexts : ∀ s ∈ d.written, Text.strip s.2 = s.2 ∧ Unmarked s.2.toList ∧ Inner s.2.toList) :
    ofChapter d.markdown = .ok d := by
  obtain ⟨hdescription, hset⟩ := forall_mem_cons.mp htexts
  have hfields : ∀ f ∈ d.fields, ∀ t ∈ f.2,
      Text.strip t = t ∧ Unmarked t.toList ∧ Inner t.toList := by
    rintro ⟨k, o⟩ hf t rfl
    exact hset (k, t) (mem_setFields.mpr hf)
  obtain ⟨b, hb, hsections⟩ := ofChapter_chapterChars (δ := RoutineDoc) hname.2 d.headed
    hdescription.2 (fun f hf t ht => (hfields f hf t ht).2) 0
  rw [replicate_zero, append_nil, ← d.markdown_chars, hname.1, hdescription.1] at hb
  have hsame : ∀ f ∈ d.fields, Chapter.section? f.1 b = f.2 := by
    intro f hf
    rw [hsections f hf]
    cases hft : f.2 with
    | none => rfl
    | some t => exact congrArg some (hfields f hf t hft).1
  obtain ⟨hparameters, hdetail, husage, hcode, -⟩ := by
    simpa only [RoutineDoc.fields, forall_mem_cons] using hsame
  rw [hb]
  show Except.ok _ = _
  rw [hparameters, hdetail, husage, hcode]

/-- **A document on a routine is what its chapter is read as** just when its name is one line
without blanks at its ends, and each text that is set has no blanks at its ends, no mark of a
section and no line like the title of a chapter. -/
theorem RoutineDoc.ofChapter_markdown_iff (d : RoutineDoc) :
    ofChapter d.markdown = .ok d ↔ (Text.strip d.name = d.name ∧ '\n' ∉ d.name.toList) ∧
      ∀ t, t = d.description ∨ d.parameters = some t ∨ d.detail = some t ∨ d.usage = some t ∨
        d.code = some t → Text.strip t = t ∧ Unmarked t.toList ∧ Inner t.toList := by
  simp only [← RoutineDoc.mem_written, forall_exists_index, and_imp, forall_apply_eq_imp_iff₂]
  refine ⟨fun h => ?_, fun h => RoutineDoc.ofChapter_markdown h.1 h.2⟩
  obtain ⟨b, htitle, hread⟩ := RoutineDoc.sections_of_read h
  have hname := title?_spec htitle
  rw [d.markdown_chars, chapterChars, title?_ofList hname.2, Option.some.injEq,
    Prod.mk.injEq] at htitle
  have hset : ∀ s ∈ d.written, (s.1, some s.2) ∈ ("Description", some d.description) :: d.fields := by
    refine List.forall_mem_cons.mpr ⟨List.mem_cons_self, fun s hs => ?_⟩
    exact List.mem_cons_of_mem _ (mem_setFields.mp hs)
  have hfound : ∀ s ∈ d.written, Text.strip s.2 = s.2 ∧ Unmarked s.2.toList := fun s hs =>
    have hspec := section?_spec (hread _ (hset s hs))
    ⟨hspec.1, hspec.2.1⟩
  have htidy : Tidy d.written := by
    refine fun s hs => ⟨?_, (hfound s hs).2⟩
    rcases List.mem_cons.mp (hset s hs) with heq | hf
    · rw [congrArg Prod.fst heq]
      exact List.mem_cons_self
    · exact d.headed.2 _ hf
  obtain ⟨w, hw, hbody⟩ := strip_body (setFields d.fields)
  have hinner : ∀ s ∈ d.written, Inner s.2.toList := by
    refine inner_of_cut (x := sectionChars ("Description", d.description)
      ++ Chars.strip (bodyChars (setFields d.fields))) htidy d.nodup_written (fun s hs => ?_) ?_ hw
      fun s hs => ?_
    · have hstripped := congrArg String.toList (hfound s hs).1
      rwa [Text.strip, String.toList_ofList] at hstripped
    · rw [List.append_assoc, ← hbody]
      rfl
    · have hcut := hread _ (hset s hs)
      rw [← htitle.2, section?_eq, String.toList_ofList, Option.map_eq_some_iff] at hcut
      obtain ⟨cs, hcs, heq⟩ := hcut
      rw [hcs, ← heq, String.toList_ofList]
  exact ⟨hname, fun s hs => ⟨(hfound s hs).1, (hfound s hs).2, hinner s hs⟩⟩

end Docsmith
