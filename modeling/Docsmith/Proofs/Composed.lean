import Docsmith.Proofs.Documents

/-! # Documents chapter by chapter

A text of several chapters is cut where each of them starts (`split_join`), so reading it is reading
every chapter by itself, up to the first one that cannot be read (`ofText_join`). -/

namespace Docsmith

open List

lemma mapM_error_iff {α β ε : Type} {f : α → Except ε β} {as : List α} {e : ε} :
    as.mapM f = .error e ↔ ∃ before a after, as = before ++ a :: after ∧
      (∀ b ∈ before, ∃ r, f b = .ok r) ∧ f a = .error e := by
  constructor
  · intro h
    induction as with
    | nil => cases h
    | cons a as ih =>
      rw [mapM_cons] at h
      cases ha : f a with
      | error e' =>
        rw [ha] at h
        exact ⟨[], a, as, rfl, by simp, by rw [ha, Except.error.inj h]⟩
      | ok b =>
        cases hrest : as.mapM f with
        | ok bs =>
          rw [ha, hrest] at h
          cases h
        | error e' =>
          rw [ha, hrest] at h
          obtain ⟨before, c, after, rfl, hbefore, hc⟩ := ih (hrest.trans h)
          exact ⟨a :: before, c, after, rfl, forall_mem_cons.mpr ⟨⟨b, ha⟩, hbefore⟩, hc⟩
  · rintro ⟨before, a, after, rfl, hbefore, ha⟩
    obtain ⟨rs, hrs⟩ := exists_mapM_ok_iff.mpr hbefore
    rw [mapM_append, hrs, mapM_cons, ha]
    rfl

namespace Chapter

lemma contains_eq_false_iff {pat s : String} (h : pat.toList ≠ []) :
    Text.contains pat s = false ↔ ¬ pat.toList <:+: s.toList := by
  rw [Text.contains, Chars.contains, ← Chars.breakOn_eq_none_iff h]
  exact Option.isSome_eq_false_iff.trans Option.isNone_iff_eq_none

/-- A text that starts a chapter and holds no start of another. -/
def IsChapter (s : String) : Prop :=
  Text.startsWith "### " s = true ∧ Text.contains "\n### " s = false

instance (s : String) : Decidable (IsChapter s) :=
  inferInstanceAs (Decidable (_ ∧ _))

def afterMark (s : String) : List Char := s.toList.drop chapterMark.length

variable {c p : String} {cs : List String}

lemma IsChapter.toList_eq (h : IsChapter c) : c.toList = chapterMark ++ afterMark c := by
  obtain ⟨t, ht⟩ := isPrefixOf_iff_prefix.mp h.1
  rw [afterMark, ← ht]
  rfl

lemma IsChapter.unmarked (h : IsChapter c) : ¬ '\n' :: chapterMark <:+: ' ' :: afterMark c := by
  have hno := (contains_eq_false_iff (by simp)).mp h.2
  rw [h.toList_eq] at hno
  exact fun hin => hno (hin.trans (suffix_append ['#', '#', '#'] _).isInfix)

lemma splitOn_flatMap {t : List Char} (ht : ¬ '\n' :: chapterMark <:+: t) {ts : List (List Char)}
    (hts : ∀ u ∈ ts, ¬ '\n' :: chapterMark <:+: u) :
    Chars.splitOn ('\n' :: chapterMark) (t ++ ts.flatMap (('\n' :: chapterMark) ++ ·)) = t :: ts := by
  induction ts generalizing t with
  | nil =>
    rw [Chars.splitOn_eq (by decide), flatMap_nil, append_nil,
      (Chars.breakOn_eq_none_iff (by decide)).mpr ht]
  | cons u ts ih =>
    obtain ⟨hu, hrest⟩ := forall_mem_cons.mp hts
    have hchars : (u :: ts).flatMap (('\n' :: chapterMark) ++ ·) = '\n' :: (chapterMark
        ++ (u ++ ts.flatMap (('\n' :: chapterMark) ++ ·))) := by
      simp
    rw [Chars.splitOn_eq (by decide), hchars, Chars.breakOn_cons_append_cons (by decide) ht,
      ← cons_append, Chars.breakOn_of_prefix (by decide)]
    simp only [Option.map_some, append_nil, ih hu hrest]

lemma toList_join_chapters (hcs : ∀ d ∈ c :: cs, IsChapter d) :
    (Text.join "\n" (c :: cs)).toList
      = chapterMark ++ (afterMark c ++ (cs.map afterMark).flatMap (('\n' :: chapterMark) ++ ·)) := by
  induction cs generalizing c with
  | nil => simp [(hcs c mem_cons_self).toList_eq]
  | cons d cs ih =>
    obtain ⟨hc, hrest⟩ := forall_mem_cons.mp hcs
    rw [Text.join_cons_cons, String.toList_append, ih hrest, String.toList_append, hc.toList_eq]
    simp

lemma split_join (hp : Text.contains "###" p = false) (hne : cs ≠ [])
    (hcs : ∀ c ∈ cs, IsChapter c) : split (p ++ "\n" ++ Text.join "\n" cs) = cs := by
  have hmark : "###".toList = ['#', '#', '#'] := by simp
  have hnext : "\n### ".toList = '\n' :: chapterMark := by simp [chapterMark]
  cases cs with
  | nil => exact absurd rfl hne
  | cons c cs =>
    obtain ⟨hc, hrest⟩ := forall_mem_cons.mp hcs
    let others := (cs.map afterMark).flatMap (('\n' :: chapterMark) ++ ·)
    have hchars : (p ++ "\n" ++ Text.join "\n" (c :: cs)).toList
        = p.toList ++ '\n' :: (['#', '#', '#'] ++ ((' ' :: afterMark c) ++ others)) := by
      rw [String.toList_append, toList_join_chapters hcs]
      simp [chapterMark, others]
    have hothers : ∀ t ∈ cs.map afterMark, ¬ '\n' :: chapterMark <:+: t := by
      rw [forall_mem_map]
      exact fun d hd h => (hrest d hd).unmarked (h.trans (suffix_cons ' ' _).isInfix)
    rw [split, Text.breakOn, hmark, hchars,
      Chars.breakOn_append_cons (by decide) (hmark ▸ (contains_eq_false_iff (by simp)).mp hp),
      Chars.breakOn_of_prefix (by simp)]
    simp only [Option.map_some, Text.splitOn, String.toList_ofList, hnext, others,
      splitOn_flatMap hc.unmarked hothers, map_cons, map_map]
    congr 1
    · rw [← String.toList_inj, hc.toList_eq]
      simp [chapterMark]
    · refine (map_congr_left fun d hd => ?_).trans (map_id cs)
      rw [id, ← String.toList_inj, (hrest d hd).toList_eq]
      simp [chapterMark]

end Chapter

namespace Document

variable {δ : Type} [Document δ]

/-- A text of chapters is read chapter by chapter: what is below a text without a mark gives the
documents of all chapters in their order, or the failure of the first that has none. -/
theorem ofText_join {p : String} (hp : Text.contains "###" p = false) {cs : List String}
    (hne : cs ≠ []) (hcs : ∀ c ∈ cs, Chapter.IsChapter c) :
    (∀ ds : List δ, ofText (p ++ "\n" ++ Text.join "\n" cs) = .ok ds ↔
      List.Forall₂ (fun c d => ofChapter c = .ok d) cs ds) ∧
    ∀ e, (ofText (p ++ "\n" ++ Text.join "\n" cs) : Except Fault (List δ)) = .error e ↔
      ∃ before c after, cs = before ++ c :: after ∧
        (∀ b ∈ before, ∃ d : δ, ofChapter b = .ok d) ∧
        (ofChapter c : Except Fault δ) = .error e := by
  rw [ofText, Chapter.split_join hp hne hcs]
  exact ⟨fun ds => mapM_ok_iff, fun e => mapM_error_iff⟩

/-- Two chapters that hold marks of other levels, the second without a description. -/
def markedChapters : List String :=
  ["### a\n#### Description\nx\n##\n###\n", "### b ### c\n\n##### d"]

theorem ofText_join_marked : (∀ c ∈ markedChapters, Chapter.IsChapter c) ∧
    (ofText ("# Top\n##" ++ "\n" ++ Text.join "\n" markedChapters) : Except Fault (List RecordDoc))
      = .error .noDescription := by
  have hcs : ∀ c ∈ markedChapters, Chapter.IsChapter c := by decide
  have hfirst : ofChapter "### a\n#### Description\nx\n##\n###\n"
      = .ok ({ name := "a", description := "x\n##\n###" } : RecordDoc) := by rfl
  refine ⟨hcs, ((ofText_join (by rfl) (by simp [markedChapters]) hcs).2 _).mpr
    ⟨_, _, [], rfl, forall_mem_singleton.mpr ⟨_, hfirst⟩, by rfl⟩⟩

end Document

end Docsmith
