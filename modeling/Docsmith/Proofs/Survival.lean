import Docsmith.Proofs.Faithful
import Docsmith.Proofs.Shelf

/-! # Documents that survive being stored

`survives_iff_clean` says for each kind of documents when one that was read comes back from a file:
a text may start like the title of a chapter, a document on a record may have no details and is
written with some, lists and texts that are empty are not written, and blanks at the end of the last
item are dropped. -/

namespace Docsmith.Chapter

open List

/-! ## Lines like a title in what is written -/

lemma two_le_length_splitOn {pat cs : List Char} (hne : pat ≠ []) (h : pat <:+: cs) :
    2 ≤ (Chars.splitOn pat cs).length := by
  have hpos : ∀ cs : List Char, 1 ≤ (Chars.splitOn pat cs).length := by
    intro cs
    rw [Chars.splitOn_eq hne]
    split
    · exact Nat.le_refl 1
    · exact Nat.le_add_left 1 _
  rw [Chars.splitOn_eq hne]
  split
  · rename_i hnone
    exact absurd h ((Chars.breakOn_eq_none_iff hne).mp hnone)
  · exact Nat.succ_le_succ (hpos _)

lemma two_le_length_split {t : List Char} (h : '\n' :: chapterMark <:+: t) :
    2 ≤ (split (.ofList (chapterMark ++ t))).length := by
  have hmark : "###".toList = ['#', '#', '#'] := by simp
  have hnext : "\n### ".toList = '\n' :: chapterMark := by simp [chapterMark]
  have hchars : chapterMark ++ t = ['#', '#', '#'] ++ (' ' :: t) := rfl
  have htwo := two_le_length_splitOn (cons_ne_nil '\n' chapterMark)
    (h.trans (suffix_cons ' ' t).isInfix)
  rw [split, Text.breakOn, hmark, String.toList_ofList, hchars, Chars.breakOn_of_prefix (by simp)]
  simp only [Option.map_some, Text.splitOn, String.toList_ofList, hnext]
  generalize Chars.splitOn ('\n' :: chapterMark) (' ' :: t) = pieces at htwo ⊢
  cases pieces with
  | nil => exact absurd htwo (by simp)
  | cons p ps => simpa using htwo

lemma exists_more_of_not_inner {t : List Char} (hstripped : Chars.strip t = t) (h : ¬ Inner t) :
    ∃ v, ∃ hv : v ≠ [], Chars.isBlank (v.getLast hv) = false ∧
      '\n' :: (chapterMark ++ v) <:+: '\n' :: t := by
  obtain ⟨u, v, heq, -, hv, hlast⟩ := exists_first_title hstripped h
  refine ⟨v, hv, hlast, u, [], ?_⟩
  rw [append_nil, heq, cons_append]

lemma infix_sectionChars (s : String × String) : '\n' :: s.2.toList <:+: sectionChars s :=
  ⟨heading s.1, ['\n', '\n'], by simp [sectionChars]⟩

lemma infix_bodyChars {s : String × String} {ss : List (String × String)} (hs : s ∈ ss) :
    sectionChars s <:+: bodyChars ss :=
  infix_of_mem_flatten (mem_map_of_mem hs)

lemma inner_of_chapter {name description : String} {ss : List (String × String)}
    (h : ¬ '\n' :: chapterMark <:+: chapterChars name description ss) {s : String × String}
    (hs : s ∈ ("Description", description) :: ss) (hstripped : Chars.strip s.2.toList = s.2.toList) :
    Inner s.2.toList := by
  by_contra hinner
  obtain ⟨v, hv, hlast, hin⟩ := exists_more_of_not_inner hstripped hinner
  obtain ⟨w, hblank, hw⟩ := strip_body ss
  have hbody : '\n' :: (chapterMark ++ v) <:+:
      (sectionChars ("Description", description) ++ Chars.strip (bodyChars ss)) ++ w := by
    rw [append_assoc, ← hw]
    exact (hin.trans (infix_sectionChars s)).trans (infix_bodyChars hs)
  rw [Chars.infix_append_iff_of_last (by simp)
    (by rwa [getLast_cons (by simp [hv]), getLast_append_of_ne_nil _ hv]) hblank] at hbody
  refine h (List.IsInfix.trans ?_ (hbody.trans ⟨name.toList ++ ['\n'], [], by simp [chapterChars]⟩))
  exact (prefix_append ('\n' :: chapterMark) v).isInfix

end Docsmith.Chapter

namespace Docsmith.Document

open Chapter List

variable {δ : Type} [Document δ]

/-! ## Reading one chapter -/

lemma ofText_single_iff {t : List Char} {d : δ} :
    ofText (.ofList (fileChars [t])) = .ok [d] ↔ ¬ '\n' :: chapterMark <:+: t ∧
      ofChapter (.ofList (chapterMark ++ (t ++ ['\n']))) = .ok d := by
  by_cases hin : '\n' :: chapterMark <:+: t
  · have htwo : 2 ≤ (split (.ofList (fileChars [t]))).length := by
      rw [fileChars, flatMap_singleton]
      exact two_le_length_split (hin.trans (prefix_append t ['\n']).isInfix)
    constructor
    · intro h
      rw [ofText, mapM_ok_iff] at h
      rw [h.length_eq] at htwo
      exact absurd htwo (by simp)
    · intro h
      exact absurd hin h.1
  · rw [ofText, split_file (forall_mem_singleton.mpr hin), mapM_ok_iff]
    simp [found, hin]

structure IsCut (t : String) : Prop where
  stripped : Text.strip t = t
  unmarked : Unmarked t.toList
  noReturn : '\r' ∉ t.toList

lemma IsCut.isText {t : String} (h : IsCut t) (hinner : Inner t.toList) : IsText t :=
  ⟨h.stripped, h.unmarked, hinner, h.noReturn⟩

lemma isCut_section? {h b t : String} (hb : '\r' ∉ b.toList)
    (ht : Chapter.section? h b = some t) : IsCut t := by
  obtain ⟨hstripped, hunmarked, hinfix⟩ := section?_spec ht
  exact ⟨hstripped, hunmarked, fun hin => hb ( hinfix.subset hin)⟩

lemma isTitle_title? {t n b : String} (ht : '\r' ∉ t.toList) (h : title? t = some (n, b)) :
    IsTitle n ∧ '\r' ∉ b.toList := by
  obtain ⟨hstripped, hline⟩ := title?_spec h
  obtain ⟨x, rest, title, block, hx, hbreak, rfl, rfl⟩ := exists_of_title? h
  have hrest : '\r' ∉ title ∧ '\r' ∉ block := by
    rw [Chars.eq_append_of_breakOn hx, Chars.eq_append_of_breakOn hbreak] at ht
    simp only [mem_append, not_or] at ht
    exact ⟨ht.2.1.1, ht.2.2⟩
  refine ⟨⟨hstripped, hline, ?_⟩, ?_⟩
  · rw [Text.strip, String.toList_ofList, String.toList_ofList]
    exact fun hin => hrest.1 (( Chars.trim_infix Chars.isBlank title).subset hin)
  · show '\r' ∉ (Text.before "\n### " (.ofList block)).toList
    simp only [Text.before, String.toList_ofList]
    exact fun hin => hrest.2 ((Chars.before_prefix _ block).subset hin)

lemma ofChapter_ok {t : String} (ht : '\r' ∉ t.toList) {d : δ} (h : ofChapter t = .ok d) :
    ∃ n s b, IsTitle n ∧ IsCut s ∧ '\r' ∉ b.toList ∧ ofBlock n s b = .ok d := by
  obtain ⟨n, s, b, htitle, hs, hblock⟩ := ofChapter_eq_ok h
  obtain ⟨hn, hb⟩ := isTitle_title? ht htitle
  exact ⟨n, s, b, hn, isCut_section? hb hs, hb, hblock⟩

/-- Each text of a document that was read is stripped, or no line of it is like a title. -/
structure Known (d : δ) (fs : List (String × Option String)) : Prop where
  written : ∃ s, sections d = .ok s ∧ s.toList = bodyChars (setFields fs)
  headed : Headed fs
  title : IsTitle (name d)
  summary : IsCut (description d)
  texts : ∀ f ∈ fs, ∀ t ∈ f.2, Unmarked t.toList ∧ '\r' ∉ t.toList ∧
    (Text.strip t = t ∨ Inner t.toList)

variable {d : δ} {fs : List (String × Option String)}

lemma Known.markdown_eq (h : Known d fs) : markdown d
    = .ok (.ofList (chapterMark ++ chapterChars (name d) (description d) (setFields fs))) := by
  obtain ⟨s, hs, hchars⟩ := h.written
  exact Document.markdown_eq hs hchars

lemma Known.mem (h : Known d fs) :
    ∀ s ∈ ("Description", description d) :: setFields fs, s.1 ∈ headers ∧ Unmarked s.2.toList ∧
      '\r' ∉ s.2.toList ∧ (Text.strip s.2 = s.2 ∨ Inner s.2.toList) := by
  refine forall_mem_cons.mpr ⟨⟨mem_cons_self, h.summary.unmarked,
    h.summary.noReturn, Or.inl h.summary.stripped⟩, ?_⟩
  rintro ⟨k, t⟩ hs
  have hf := mem_setFields.mp hs
  exact ⟨h.headed.2 _ hf, h.texts _ hf t rfl⟩

lemma Known.of_read (h : Known d fs) {d' : δ}
    (hread : ofText (.ofList (fileChars [chapterChars (name d) (description d) (setFields fs)]))
      = .ok [d']) :
    Inner (description d).toList ∧ (∀ f ∈ fs, ∀ t ∈ f.2, Inner t.toList) ∧
      ∃ b, ofBlock (name d) (description d) b = .ok d' ∧
        ∀ f ∈ fs, Chapter.section? f.1 b = f.2.map Text.strip := by
  obtain ⟨hsingle, hchapter⟩ := ofText_single_iff.mp hread
  have hinner : ∀ s ∈ ("Description", description d) :: setFields fs, Inner s.2.toList := by
    intro s hs
    rcases (h.mem s hs).2.2.2 with hstripped | hinner
    · have hchars := congrArg String.toList hstripped
      rw [Text.strip, String.toList_ofList] at hchars
      exact inner_of_chapter hsingle hs hchars
    · exact hinner
  obtain ⟨hdescription, hset⟩ := forall_mem_cons.mp hinner
  have htexts : ∀ f ∈ fs, ∀ t ∈ f.2, Inner t.toList := by
    rintro ⟨k, o⟩ hf t rfl
    exact hset (k, t) (mem_setFields.mpr hf)
  refine ⟨hdescription, htexts, ?_⟩
  obtain ⟨b, hb, hsections⟩ := ofChapter_chapterChars (δ := δ) h.title.line h.headed
    ⟨h.summary.unmarked, hdescription⟩
    (fun f hf t ht => ⟨(h.texts f hf t ht).1, htexts f hf t ht⟩) 1
  refine ⟨b, ?_, hsections⟩
  rw [h.title.stripped, h.summary.stripped] at hb
  exact hb.symm.trans hchapter

lemma Known.read_of_legible (h : Known d fs) (hlegible : ∃ t, Legible d t) :
    ofText (.ofList (fileChars [chapterChars (name d) (description d) (setFields fs)]))
      = .ok [d] := by
  obtain ⟨t, ht⟩ := hlegible
  have hsame := Except.ok.inj (h.markdown_eq.symm.trans ht.written)
  rw [String.ofList_inj, append_cancel_left_eq] at hsame
  rw [hsame, ofText_single_iff]
  exact ⟨ht.single, ht.read 1⟩

/-! ## Lists that were read -/

lemma isItem_of_items {t : String} (ht : IsCut t) :
    ∀ x ∈ items t, IsItem x.toList ∧ Unmarked x.toList := by
  intro x hx
  rw [items_eq] at hx
  obtain ⟨y, hy, rfl⟩ := mem_map.mp hx
  obtain ⟨hitem, hin⟩ := isItem_of_mem hy
  rw [String.toList_ofList]
  exact ⟨hitem, fun hmark => ht.unmarked (hmark.trans hin)⟩

lemma bullets_of_items {xs : List String}
    (h : ∀ x ∈ xs, IsItem x.toList ∧ Unmarked x.toList) :
    Unmarked (bullets xs).toList ∧ '\r' ∉ (bullets xs).toList ∧
      (Text.strip (bullets xs) = bullets xs ∨ Inner (bullets xs).toList) :=
  ⟨unmarked_bullets fun x hx => (h x hx).2, return_notMem_bullets fun x hx => (h x hx).1,
    Or.inr (inner_bullets fun x hx => (h x hx).1)⟩

lemma isList_of_items {xs : List String} (h : ∀ x ∈ xs, IsItem x.toList ∧ Unmarked x.toList)
    (hread : items (Text.strip (bullets xs)) = xs) : IsList xs :=
  ⟨fun x hx => (h x hx).1, fun x hx => (h x hx).2,
    (items_strip_bullets fun x hx => (h x hx).1).mp hread⟩

end Docsmith.Document

namespace Docsmith

open Chapter Document

/-! ## The four kinds -/

variable {t : String}

lemma RoutineDoc.known_of_read (ht : '\r' ∉ t.toList) {d : RoutineDoc} (h : ofChapter t = .ok d) :
    Known d d.fields ∧ ∀ f ∈ d.fields, ∀ t ∈ f.2, IsCut t := by
  obtain ⟨n, s, b, hn, hs, hb, hblock⟩ := ofChapter_ok ht h
  have hd := Except.ok.inj hblock
  have hcut : ∀ f ∈ d.fields, ∀ t ∈ f.2, IsCut t := by
    simp only [← hd, RoutineDoc.fields, List.forall_mem_cons]
    exact ⟨fun t => isCut_section? hb, fun t => isCut_section? hb, fun t => isCut_section? hb,
      fun t => isCut_section? hb, by simp⟩
  refine ⟨⟨⟨_, rfl, d.toList_sections⟩, d.headed, hd ▸ hn, hd ▸ hs, fun f hf t ht => ?_⟩, hcut⟩
  exact ⟨(hcut f hf t ht).unmarked, (hcut f hf t ht).noReturn, Or.inl (hcut f hf t ht).stripped⟩

lemma RoutineDoc.read_iff_clean (ht : '\r' ∉ t.toList) {d : RoutineDoc} (h : ofChapter t = .ok d) :
    ofText (.ofList (fileChars [chapterChars d.name d.description (setFields d.fields)]))
      = .ok [d] ↔ d.Clean := by
  obtain ⟨hknown, hcut⟩ := RoutineDoc.known_of_read ht h
  constructor
  · intro hread
    obtain ⟨hsummary, htexts, -⟩ := hknown.of_read hread
    exact ⟨hknown.title, hknown.summary.isText hsummary, fun f hf t ht =>
      (hcut f hf t ht).isText (htexts f hf t ht)⟩
  · intro hclean
    exact hknown.read_of_legible hclean.legible

lemma RecordDoc.known_of_read (ht : '\r' ∉ t.toList) {d : RecordDoc} (h : ofChapter t = .ok d) :
    Known d d.fields ∧ (∀ t ∈ d.attributes, IsCut t) ∧
      ∀ t ∈ d.detail, IsCut t := by
  obtain ⟨n, s, b, hn, hs, hb, hblock⟩ := ofChapter_ok ht h
  have hd := Except.ok.inj hblock
  have hattributes : ∀ t ∈ d.attributes, IsCut t := by
    rw [← hd]
    exact fun t => isCut_section? hb
  have hdetail : ∀ t ∈ d.detail, IsCut t := by
    rw [← hd]
    exact fun t => isCut_section? hb
  have hnone : IsCut "None" := ⟨by decide, by decide, by decide⟩
  have hcut : ∀ f ∈ d.fields, ∀ t ∈ f.2, IsCut t := by
    simp only [RecordDoc.fields, List.forall_mem_cons]
    refine ⟨hattributes, ?_, by simp⟩
    cases hset : d.detail with
    | none => simpa using hnone
    | some t => simpa using hdetail t hset
  refine ⟨⟨⟨_, rfl, d.toList_sections⟩, d.headed, hd ▸ hn, hd ▸ hs, fun f hf t ht => ?_⟩,
    hattributes, hdetail⟩
  exact ⟨(hcut f hf t ht).unmarked, (hcut f hf t ht).noReturn, Or.inl (hcut f hf t ht).stripped⟩

lemma RecordDoc.read_iff_clean (ht : '\r' ∉ t.toList) {d : RecordDoc} (h : ofChapter t = .ok d) :
    ofText (.ofList (fileChars [chapterChars d.name d.description (setFields d.fields)]))
      = .ok [d] ↔ d.Clean := by
  obtain ⟨hknown, hattributes, hdetail⟩ := RecordDoc.known_of_read ht h
  constructor
  · intro hread
    obtain ⟨hsummary, htexts, b, hblock, hsections⟩ := hknown.of_read hread
    simp only [RecordDoc.fields, List.forall_mem_cons] at htexts hsections
    -- details are read in any case, so they were set
    have hset := (congrArg RecordDoc.detail (Except.ok.inj hblock)).symm.trans hsections.2.1
    obtain ⟨detail, hd⟩ : ∃ t, d.detail = some t := ⟨_, hset⟩
    rw [hd] at htexts
    exact ⟨hknown.title, hknown.summary.isText hsummary, fun t ht =>
      (hattributes t ht).isText (htexts.1 t ht), detail, hd,
      (hdetail detail hd).isText (htexts.2.1 detail rfl)⟩
  · intro hclean
    exact hknown.read_of_legible hclean.legible

lemma itemsOf_ok_iff {h b : String} {xs : List String} :
    itemsOf h b = .ok xs ↔ ∃ t, Chapter.section? h b = some t ∧ items t = xs := by
  rw [itemsOf]
  cases Chapter.section? h b with
  | none | some t => simp

lemma ModuleDoc.known_of_read (ht : '\r' ∉ t.toList) {d : ModuleDoc} (h : ofChapter t = .ok d) :
    Known d d.fields ∧
      (∃ xs, d.functions = some xs ∧ ∀ x ∈ xs, IsItem x.toList ∧ Unmarked x.toList) ∧
      ∀ t ∈ d.usage, IsCut t := by
  obtain ⟨n, s, b, hn, hs, hb, hblock⟩ := ofChapter_ok ht h
  rw [ModuleDoc.ofBlock_eq] at hblock
  obtain ⟨xs, hxs, hd⟩ := map_ok_iff.mp hblock
  obtain ⟨list, hlist, rfl⟩ := itemsOf_ok_iff.mp hxs
  have hitems := isItem_of_items (isCut_section? hb hlist)
  have hfunctions : d.functions = some (items list) := by rw [← hd]
  have husage : ∀ t ∈ d.usage, IsCut t := by
    rw [← hd]
    exact fun t => isCut_section? hb
  refine ⟨⟨d.exists_sections, d.headed, hd ▸ hn, hd ▸ hs, ?_⟩, ⟨_, hfunctions, hitems⟩, husage⟩
  simp only [ModuleDoc.fields, List.forall_mem_cons]
  refine ⟨?_, fun t ht => ?_, by simp⟩
  · rw [hfunctions]
    intro t ht
    obtain ⟨xs, hxs, rfl⟩ := Option.map_eq_some_iff.mp ht
    rw [Option.some.inj (Option.eq_some_of_filter_eq_some hxs)] at hitems
    exact bullets_of_items hitems
  · have hcut := husage t (Option.eq_some_of_filter_eq_some ht)
    exact ⟨hcut.unmarked, hcut.noReturn, Or.inl hcut.stripped⟩

lemma ModuleDoc.read_iff_clean (ht : '\r' ∉ t.toList) {d : ModuleDoc} (h : ofChapter t = .ok d) :
    ofText (.ofList (fileChars [chapterChars d.name d.description (setFields d.fields)]))
      = .ok [d] ↔ d.Clean := by
  obtain ⟨hknown, ⟨xs, hfunctions, hitems⟩, husage⟩ := ModuleDoc.known_of_read ht h
  constructor
  · intro hread
    obtain ⟨hsummary, htexts, b, hblock, hsections⟩ := hknown.of_read hread
    simp only [ModuleDoc.fields, List.forall_mem_cons] at htexts hsections
    rw [ModuleDoc.ofBlock_eq] at hblock
    obtain ⟨ys, hys, hd⟩ := map_ok_iff.mp hblock
    obtain ⟨list, hlist, rfl⟩ := itemsOf_ok_iff.mp hys
    have hsame : items list = xs := by
      rw [← hd] at hfunctions
      exact Option.some.inj hfunctions
    -- an empty list would not have been written
    rw [hsections.1, hfunctions, Option.map_map, Option.map_eq_some_iff] at hlist
    obtain ⟨zs, hzs, rfl⟩ := hlist
    obtain ⟨hxs, hne⟩ := Option.filter_eq_some_iff.mp hzs
    obtain rfl := Option.some.inj hxs
    have husage' : d.usage = (d.usage.filter (· ≠ "")).map Text.strip := by
      rw [← hsections.2.1]
      exact (congrArg ModuleDoc.usage hd).symm
    refine ⟨hknown.title, hknown.summary.isText hsummary,
      ⟨xs, hfunctions, by simpa using hne, isList_of_items hitems hsame⟩, fun t ht => ?_⟩
    rw [Option.mem_def.mp ht] at husage' htexts
    by_cases hempty : t = ""
    · rw [hempty] at husage'
      cases husage'
    · have hkept : (some t).filter (fun t : String => decide (t ≠ "")) = some t :=
        Option.filter_some_pos (by simpa using hempty)
      exact ⟨hempty, (husage t ht).isText (htexts.2.1 t hkept)⟩
  · intro hclean
    exact hknown.read_of_legible hclean.legible

lemma RepositoryDoc.ofBlock_ok {n s b : String} {d : RepositoryDoc}
    (h : ofBlock n s b = .ok d) : ∃ features standards,
      Chapter.section? "Features" b = some features ∧
      Chapter.section? "Standards" b = some standards ∧
      d = { name := n, description := s, features := some (items features),
            standards := some (items standards),
            scenarios := ((Chapter.section? "Scenarios" b).filter (· ≠ "")).map items } := by
  rw [RepositoryDoc.ofBlock_eq] at h
  cases hxs : itemsOf "Features" b with
  | error e =>
    rw [hxs] at h
    exact nomatch h
  | ok xs =>
    rw [hxs] at h
    obtain ⟨ys, hys, rfl⟩ := map_ok_iff.mp h
    obtain ⟨features, hfeatures, rfl⟩ := itemsOf_ok_iff.mp hxs
    obtain ⟨standards, hstandards, rfl⟩ := itemsOf_ok_iff.mp hys
    exact ⟨features, standards, hfeatures, hstandards, rfl⟩

lemma RepositoryDoc.known_of_read (ht : '\r' ∉ t.toList) {d : RepositoryDoc}
    (h : ofChapter t = .ok d) : Known d d.fields ∧
      (∃ xs, d.features = some xs ∧ ∀ x ∈ xs, IsItem x.toList ∧ Unmarked x.toList) ∧
      (∃ xs, d.standards = some xs ∧ ∀ x ∈ xs, IsItem x.toList ∧ Unmarked x.toList) ∧
      ∀ xs ∈ d.scenarios, ∀ x ∈ xs, IsItem x.toList ∧ Unmarked x.toList := by
  obtain ⟨n, s, b, hn, hs, hb, hblock⟩ := ofChapter_ok ht h
  obtain ⟨features, standards, hfeatures, hstandards, hd⟩ := RepositoryDoc.ofBlock_ok hblock
  have hxs := isItem_of_items (isCut_section? hb hfeatures)
  have hys := isItem_of_items (isCut_section? hb hstandards)
  have hset : d.features = some (items features) ∧ d.standards = some (items standards) := by
    rw [hd]
    exact ⟨rfl, rfl⟩
  have hscenarios : ∀ zs ∈ d.scenarios, ∀ z ∈ zs, IsItem z.toList ∧ Unmarked z.toList := by
    intro zs hzs
    rw [hd] at hzs
    obtain ⟨list, hlist, rfl⟩ := Option.map_eq_some_iff.mp hzs
    exact isItem_of_items (isCut_section? hb (Option.eq_some_of_filter_eq_some hlist))
  refine ⟨⟨RepositoryDoc.exists_sections hset.1 hset.2, d.headed, hd ▸ hn, hd ▸ hs, ?_⟩,
    ⟨_, hset.1, hxs⟩, ⟨_, hset.2, hys⟩, hscenarios⟩
  simp only [RepositoryDoc.fields, List.forall_mem_cons, hset, Option.map_some, Option.mem_some_iff]
  refine ⟨?_, ?_, fun t ht => ?_, by simp⟩
  · rintro t rfl
    exact bullets_of_items hxs
  · rintro t rfl
    exact bullets_of_items hys
  · obtain ⟨zs, hzs, rfl⟩ := Option.map_eq_some_iff.mp ht
    exact bullets_of_items (hscenarios zs (Option.eq_some_of_filter_eq_some hzs))

lemma RepositoryDoc.read_iff_clean (ht : '\r' ∉ t.toList) {d : RepositoryDoc}
    (h : ofChapter t = .ok d) :
    ofText (.ofList (fileChars [chapterChars d.name d.description (setFields d.fields)]))
      = .ok [d] ↔ d.Clean := by
  obtain ⟨hknown, ⟨xs, hxs, hxs'⟩, ⟨ys, hys, hys'⟩, hzs'⟩ := RepositoryDoc.known_of_read ht h
  constructor
  · intro hread
    obtain ⟨hsummary, -, b, hblock, hsections⟩ := hknown.of_read hread
    simp only [RepositoryDoc.fields, List.forall_mem_cons, hxs, hys, Option.map_some] at hsections
    obtain ⟨features, standards, hfeatures, hstandards, hd⟩ := RepositoryDoc.ofBlock_ok hblock
    rw [hsections.1, Option.some.injEq] at hfeatures
    rw [hsections.2.1, Option.some.injEq] at hstandards
    rw [hsections.2.2.1] at hd
    have hfirst : items (Text.strip (bullets xs)) = xs := by
      rw [hd, hfeatures.symm] at hxs
      exact Option.some.inj hxs
    have hsecond : items (Text.strip (bullets ys)) = ys := by
      rw [hd, hstandards.symm] at hys
      exact Option.some.inj hys
    refine ⟨hknown.title, hknown.summary.isText hsummary, ⟨xs, hxs, isList_of_items hxs' hfirst⟩,
      ⟨ys, hys, isList_of_items hys' hsecond⟩, fun zs hzs => ?_⟩
    have hthird := congrArg RepositoryDoc.scenarios hd
    simp only [Option.mem_def.mp hzs] at hthird
    obtain ⟨list, hlist, hitems⟩ := Option.map_eq_some_iff.mp hthird.symm
    have hwritten := Option.eq_some_of_filter_eq_some hlist
    rw [Option.map_map, Option.map_eq_some_iff] at hwritten
    obtain ⟨ws, hws, rfl⟩ := hwritten
    obtain ⟨hsame, hne⟩ := Option.filter_eq_some_iff.mp hws
    obtain rfl := Option.some.inj hsame
    exact ⟨by simpa using hne, isList_of_items (hzs' zs hzs) hitems⟩
  · intro hclean
    exact hknown.read_of_legible hclean.legible

/-! ## A new file -/

/-- Nothing is where a file goes once the folder for it is made, and the file can be made there. -/
def Fresh (f : Folder) (file : String) : Prop :=
  ∃ f₁ place, (Store.prepare file).run.run f = (.ok (), f₁) ∧ f₁.writable file = .ok place ∧
    f₁.get? place = none

def saveAndLoad {δ : Type} [Document δ] (file : String) (d : δ) : Files (List δ) := do
  Store.save file d
  Store.loadAll δ file

lemma saveAndLoad_run {δ : Type} [Document δ] {f : Folder} {file : String} (h : Fresh f file)
    {d : δ} {text : String} (hd : markdown d = .ok text) (hreturn : '\r' ∉ text.toList) :
    ((saveAndLoad file d).run.run f).1
      = (Folder.checkText (text ++ "\n")).bind fun _ => ofText (text ++ "\n") := by
  obtain ⟨f₁, place, hprepare, hw, hnone⟩ := h
  obtain ⟨f₂, hrun₂, -, hw₂, _, hkept₂, hadded₂, -⟩ :=
    Files.append_run hw (t := none) hnone ""
  rw [hadded₂ rfl] at hkept₂
  obtain ⟨f₃, hrun₃, -, hw₃, added, hkept₃, hadded₃, -⟩ :=
    Files.append_run hw₂ hkept₂ (text ++ "\n")
  have hchecked : Folder.checkText "" = .ok () := rfl
  have hsave : (Store.save file d).run.run f = (Folder.checkText (text ++ "\n"), f₃) := by
    rw [Store.save, run_bind, hprepare]
    simp only [run_bind, hrun₂, hchecked, Files.run_ask, hd, hrun₃]
  rw [saveAndLoad, run_bind, hsave]
  cases hcheck : Folder.checkText (text ++ "\n") with
  | error e => rfl
  | ok u =>
    rw [hadded₃ hcheck] at hkept₃
    obtain ⟨hexists, hread⟩ := Store.readText_eq hw₃ hkept₃
    rw [Store.unifyBreaks_eq_self (by simpa using hreturn)] at hread
    simp only [Store.run_loadAll, if_pos hexists, hread]
    rfl

def Encodable {δ : Type} [Document δ] (d : δ) : Prop :=
  ∃ text, markdown d = .ok text ∧ Folder.checkText (text ++ "\n") = .ok ()

lemma Document.Known.saveAndLoad_iff {δ : Type} [Document δ] {d : δ}
    {fs : List (String × Option String)} (h : Known d fs) {f : Folder} {file : String}
    (hfresh : Fresh f file) (ds : List δ) :
    ((saveAndLoad file d).run.run f).1 = .ok ds ↔ ofText (.ofList (fileChars
      [chapterChars (name d) (description d) (setFields fs)])) = .ok ds ∧ Encodable d := by
  have hreturn := return_notMem_chapterChars h.title.noReturn fun s hs =>
    ⟨(h.mem s hs).1, (h.mem s hs).2.2.1⟩
  have htext : String.ofList (chapterMark ++ chapterChars (name d) (description d) (setFields fs))
      ++ "\n" = .ofList (fileChars [chapterChars (name d) (description d) (setFields fs)]) := by
    rw [← String.toList_inj]
    simp [fileChars]
  rw [saveAndLoad_run hfresh h.markdown_eq (by simpa [chapterMark] using hreturn),
    Encodable, h.markdown_eq]
  simp only [Except.ok.injEq, exists_eq_left', htext]
  cases Folder.checkText _ with
  | error e | ok u => simp [Except.bind]

/-! ## When a document survives -/

/-- A document that was read, saved to a new file and loaded comes back, and nothing else with it,
just under the given condition and if its text can be written. -/
def Survives {δ : Type} [Document δ] (t : String) (f : Folder) (file : String)
    (condition : δ → Prop) : Prop :=
  ∀ d : δ, ofChapter t = .ok d →
    (((saveAndLoad file d).run.run f).1 = .ok [d] ↔ condition d ∧ Encodable d)

/-- A document of any kind that was read from a text survives being stored just when it is clean. -/
theorem survives_iff_clean {t : String} {f : Folder} {file : String} (ht : '\r' ∉ t.toList)
    (hfresh : Fresh f file) :
    Survives t f file RoutineDoc.Clean ∧ Survives t f file RecordDoc.Clean ∧
      Survives t f file ModuleDoc.Clean ∧ Survives t f file RepositoryDoc.Clean := by
  refine ⟨?_, ?_, ?_, ?_⟩
  · intro d hd
    rw [(RoutineDoc.known_of_read ht hd).1.saveAndLoad_iff hfresh, ← RoutineDoc.read_iff_clean ht hd]
    rfl
  · intro d hd
    rw [(RecordDoc.known_of_read ht hd).1.saveAndLoad_iff hfresh, ← RecordDoc.read_iff_clean ht hd]
    rfl
  · intro d hd
    rw [(ModuleDoc.known_of_read ht hd).1.saveAndLoad_iff hfresh, ← ModuleDoc.read_iff_clean ht hd]
    rfl
  · intro d hd
    rw [(RepositoryDoc.known_of_read ht hd).1.saveAndLoad_iff hfresh,
      ← RepositoryDoc.read_iff_clean ht hd]
    rfl

lemma fresh_empty : Fresh .empty "docs/a.md" :=
  ⟨_, ["docs", "a.md"], rfl, by decide +kernel, by decide +kernel⟩

def moduleText : String :=
  "x ###  sums\n#### Functions - f\n\n--  g - twice\n#### Description\n Adds.\n"
    ++ "#### Use Case # none\n\n-\n"

def readModule : ModuleDoc where
  name := "sums"
  description := "Adds."
  functions := some ["f", "g - twice"]
  usage := some "# none\n\n-"

theorem survives_iff_clean_readModule :
    ofChapter moduleText = .ok readModule ∧ Fresh .empty "docs/a.md" ∧
      ((saveAndLoad "docs/a.md" readModule).run.run .empty).1 = .ok [readModule] := by
  have hread : ofChapter moduleText = .ok readModule := by decide +kernel
  refine ⟨hread, fresh_empty, ?_⟩
  rw [(survives_iff_clean (by decide +kernel) fresh_empty).2.2.1 _ hread]
  exact ⟨by decide +kernel, _, rfl, by decide +kernel⟩

def bareRecord : RecordDoc where
  name := "A"
  description := "d"

/-- A document on a record without details comes back with some. -/
theorem bareRecord_changes :
    '\r' ∉ "### A\n#### Description\nd".toList ∧
      ofChapter "### A\n#### Description\nd" = .ok bareRecord ∧ Fresh .empty "docs/a.md" ∧
      ((saveAndLoad "docs/a.md" bareRecord).run.run .empty).1
        = .ok [{ bareRecord with detail := some "None" }] ∧
      { bareRecord with detail := some "None" } ≠ bareRecord :=
  ⟨by decide +kernel, by decide +kernel, fresh_empty, by decide +kernel, by decide +kernel⟩

end Docsmith

