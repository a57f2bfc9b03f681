import Docsmith.Generate.Drafts
import Docsmith.Proofs.Resume

/-! # Drafts and finished documents

Each source file has a file for drafts on its routines and one for finished documents (`Shelved`).
The fence around the code in a finished document changes nothing about which marks are in the text
(`unmarked_fenced_iff`, `inner_fenced_iff`). -/

namespace Docsmith

open Chapter List

variable {d : RoutineDoc}

lemma RoutineDoc.clean_iff_texts : d.Clean ↔ IsTitle d.name ∧ ∀ t ∈ d.texts, IsText t := by
  rw [RoutineDoc.clean_iff, RoutineDoc.texts, forall_mem_cons]
  refine and_congr_right fun _ => and_congr_right fun _ => ?_
  simp only [mem_filterMap]
  constructor
  · rintro h t ⟨f, hf, ht⟩
    exact h f hf t ht
  · intro h f hf t ht
    exact h t ⟨f, hf, ht⟩

lemma RoutineDoc.mem_texts_code {c t : String}
    (h : t ∈ ({ d with code := some c } : RoutineDoc).texts) : t ∈ d.texts ∨ t = c := by
  simp only [texts, fields, mem_cons, mem_filterMap] at h ⊢
  rcases h with h | ⟨f, hf, ht⟩
  · exact Or.inl (Or.inl h)
  · rcases hf with rfl | rfl | rfl | rfl | hf
    · exact Or.inl (Or.inr ⟨_, Or.inl rfl, ht⟩)
    · exact Or.inl (Or.inr ⟨_, Or.inr (Or.inl rfl), ht⟩)
    · exact Or.inl (Or.inr ⟨_, Or.inr (Or.inr (Or.inl rfl)), ht⟩)
    · exact Or.inr (Option.some.inj ht).symm
    · exact absurd hf not_mem_nil

namespace Generate

open Project Store

/-! ## Files for drafts and for finished documents -/

def draftName (source : String) : String :=
  fileName (Document.kind RoutineDoc ++ ".v2_draft") source

def finalName (source : String) : String :=
  (Slot.routines source).name

lemma draftFile_eq (p : Project) (source : String) :
    draftFile p source = Path.join p.docs (draftName source) := by
  rw [draftFile, draftName, fileName]
  simp only [String.append_assoc]
  rfl

variable {r : Routine} {s : String}

lemma routineFile_eq {p : Project} (hr : p.routines.get s = .ok r) :
    p.routineFile s = .ok (Path.join p.docs (finalName r.file)) := by
  rw [routineFile, hr]
  rfl

lemma run_saveRoutine {p : Project} (hr : p.routines.get s = .ok r) (d : RoutineDoc) (f : Folder) :
    (p.saveRoutine s d).run.run f
      = (Store.save (Path.join p.docs (finalName r.file)) d).run.run f := by
  rw [saveRoutine, run_bind, Files.run_ask, routineFile_eq hr]

structure Naming (name : String → String) : Prop where
  isFile : ∀ {source}, IsSource source → IsFile (name source)
  injective : Function.Injective name

lemma fileName_injective (kind : String) : Function.Injective (fileName kind) := by
  intro source source' h
  simpa [fileName, ← String.toList_inj] using h

lemma naming_draftName : Naming draftName :=
  ⟨isFile_fileName (by decide), fileName_injective _⟩

lemma naming_finalName : Naming finalName :=
  ⟨fun h => Slot.isFile (σ := .routines _) h, fileName_injective _⟩

lemma draftName_ne_finalName (source source' : String) :
    draftName source ≠ finalName source' := by
  intro h
  have hchars := congrArg (fun s : String => s.toList.reverse) h
  simp only [draftName, finalName, Slot.name, Slot.reverse_fileName] at hchars
  simp [Document.kind] at hchars

/-! ## What the files hold -/

def docOn? (ds : List RoutineDoc) (s : String) : Option RoutineDoc :=
  ds.find? fun d => d.name == s

lemma docOn?_eq_none_iff {ds : List RoutineDoc} :
    docOn? ds s = none ↔ s ∉ ds.map RoutineDoc.name := by
  simp [docOn?, find?_eq_none]

lemma docOn?_spec {ds : List RoutineDoc} (h : docOn? ds s = some d) : d ∈ ds ∧ d.name = s :=
  ⟨mem_of_find?_eq_some h, by simpa using List.find?_some h⟩

lemma exists_docOn? {ds : List RoutineDoc} (h : s ∈ ds.map RoutineDoc.name) :
    ∃ d, docOn? ds s = some d ∧ d ∈ ds ∧ d.name = s := by
  cases hd : docOn? ds s with
  | none => exact absurd h (docOn?_eq_none_iff.mp hd)
  | some d => exact ⟨d, rfl, docOn?_spec hd⟩

/-- The files with the given names hold documents, each in the one for its routine. -/
def Filed (p : Project) (name : String → String) (texts : String → Option String)
    (ds : List RoutineDoc) : Prop :=
  ∀ source, IsSource source →
    Document.Holds ((texts (name source)).getD "") (ds.filter fun d => inFile p source d.name)

section Filed

variable {p : Project} {name : String → String} {texts : String → Option String}
  {ds : List RoutineDoc} {f : Folder}

lemma Filed.load (h : Filed p name texts ds) (hname : Naming name) (hkeeps : Keeps p.docs f texts)
    (hr : p.routines.get s = .ok r) (hsource : IsSource r.file) :
    (load? RoutineDoc s (Path.join p.docs (name r.file))).run.run f = (.ok (docOn? ds s), f) := by
  -- documents in other files have other names
  have hfind : (ds.filter fun d => inFile p r.file d.name).find? (fun d => d.name == s)
      = docOn? ds s := by
    rw [find?_filter, docOn?]
    congr 1
    funext d
    by_cases hd : d.name = s
    · rw [hd, inFile_self hr]
      simp
    · simp [hd]
  rw [load?, run_bind, loadAll_run hkeeps (hname.isFile hsource) (h r.file hsource), ← hfind]
  rfl

lemma Filed.add (h : Filed p name texts ds) (hname : Naming name)
    (hr : p.routines.get d.name = .ok r) {u : List Char} (hu : Document.Legible d u)
    {t : Option String}
    (ht : t.getD "" = (texts (name r.file)).getD "" ++ (.ofList (chapterMark ++ u) ++ "\n")) :
    Filed p name (Function.update texts (name r.file) t) (ds ++ [d]) := by
  intro source hsource
  rw [filter_append]
  by_cases hfile : r.file = source
  · subst hfile
    have hown : [d].filter (fun d => inFile p r.file d.name) = [d] :=
      filter_cons_of_pos (inFile_self hr)
    rw [Function.update_self, ht, hown]
    exact (h r.file hsource).append (Document.holds_single hu)
  · have hother : [d].filter (fun d => inFile p source d.name) = [] := by
      refine filter_cons_of_neg ?_
      rw [inFile, hr]
      simpa [Except.toOption] using hfile
    rw [Function.update_of_ne (fun he => hfile (hname.injective he).symm), hother,
      append_nil]
    exact h source hsource

lemma Filed.update (h : Filed p name texts ds) {x : String} (hx : ∀ source, name source ≠ x)
    (t : Option String) : Filed p name (Function.update texts x t) ds := by
  intro source hsource
  rw [Function.update_of_ne (hx source)]
  exact h source hsource

lemma Filed.save (h : Filed p name texts ds) (hname : Naming name) (hkeeps : Keeps p.docs f texts)
    (hr : p.routines.get d.name = .ok r) (hsource : IsSource r.file)
    (hfits : Fits p.docs (name r.file)) (hclean : d.Clean)
    (hcheck : Folder.checkText (d.markdown ++ "\n") = .ok ()) :
    ∃ f' t, (Store.save (Path.join p.docs (name r.file)) d).run.run f = (.ok (), f') ∧
      Keeps p.docs f' (Function.update texts (name r.file) t) ∧
      Filed p name (Function.update texts (name r.file) t) (ds ++ [d]) := by
  obtain ⟨u, hu⟩ := hclean.legible
  obtain ⟨result, f', t, hrun, hkeeps', hadded, -, hok⟩ :=
    save_run hkeeps (hname.isFile hsource) d.markdown_eq
  obtain rfl := hok hfits hcheck
  have htext : d.markdown = .ofList (chapterMark ++ u) :=
    Except.ok.inj (d.markdown_eq.symm.trans hu.written)
  refine ⟨f', t, hrun, hkeeps', h.add hname hr hu ?_⟩
  rw [hadded rfl, htext]

end Filed

/-- The folder holds drafts and finished documents, in the order of the lists. -/
def Shelved (p : Project) (f : Folder) (drafts finals : List RoutineDoc) : Prop :=
  ∃ texts, Keeps p.docs f texts ∧ Filed p draftName texts drafts ∧ Filed p finalName texts finals

section Shelved

variable {p : Project} {f : Folder} {drafts finals : List RoutineDoc}

lemma shelved_empty (h : f.lookup? p.docs = some (.folder .empty)) : Shelved p f [] [] :=
  ⟨_, keeps_empty h, fun _ _ => Document.holds_nil, fun _ _ => Document.holds_nil⟩

lemma Shelved.loadDraft (h : Shelved p f drafts finals) (hr : p.routines.get s = .ok r)
    (hsource : IsSource r.file) :
    (load? RoutineDoc s (draftFile p r.file)).run.run f = (.ok (docOn? drafts s), f) := by
  obtain ⟨texts, hkeeps, hdrafts, -⟩ := h
  rw [draftFile_eq]
  exact hdrafts.load naming_draftName hkeeps hr hsource

lemma Shelved.loadFinal (h : Shelved p f drafts finals) (hr : p.routines.get s = .ok r)
    (hsource : IsSource r.file) : (p.loadRoutine? s).run.run f = (.ok (docOn? finals s), f) := by
  obtain ⟨texts, hkeeps, -, hfinals⟩ := h
  rw [loadRoutine?, run_bind, Files.run_ask, routineFile_eq hr]
  exact hfinals.load naming_finalName hkeeps hr hsource

lemma Shelved.loadMany (h : Shelved p f drafts finals) {symbols : List String}
    (hsymbols : ∀ s ∈ symbols, ∃ r, p.routines.get s = .ok r ∧ IsSource r.file) :
    (symbols.filterMapM p.loadRoutine?).run.run f
      = (.ok (symbols.filterMap (docOn? finals)), f) := by
  induction symbols with
  | nil => rfl
  | cons s symbols ih =>
    rw [forall_mem_cons] at hsymbols
    obtain ⟨⟨r, hr, hsource⟩, hrest⟩ := hsymbols
    rw [filterMapM_cons, run_bind, h.loadFinal hr hsource]
    cases hfound : docOn? finals s with
    | none =>
      rw [filterMap_cons_none hfound]
      exact ih hrest
    | some d =>
      simp only [run_bind, ih hrest, filterMap_cons_some hfound]
      rfl

lemma Shelved.saveDraft (h : Shelved p f drafts finals) (hr : p.routines.get d.name = .ok r)
    (hsource : IsSource r.file) (hfits : Fits p.docs (draftName r.file)) (hclean : d.Clean)
    (hcheck : Folder.checkText (d.markdown ++ "\n") = .ok ()) :
    ∃ f', (Store.save (draftFile p r.file) d).run.run f = (.ok (), f') ∧
      Shelved p f' (drafts ++ [d]) finals := by
  obtain ⟨texts, hkeeps, hdrafts, hfinals⟩ := h
  obtain ⟨f', t, hrun, hkeeps', hdrafts'⟩ :=
    hdrafts.save naming_draftName hkeeps hr hsource hfits hclean hcheck
  rw [draftFile_eq]
  exact ⟨f', hrun, _, hkeeps', hdrafts', hfinals.update
    (fun source => (draftName_ne_finalName r.file source).symm) t⟩

lemma Shelved.saveFinal (h : Shelved p f drafts finals) (hr : p.routines.get d.name = .ok r)
    (hsource : IsSource r.file) (hfits : Fits p.docs (finalName r.file)) (hclean : d.Clean)
    (hcheck : Folder.checkText (d.markdown ++ "\n") = .ok ()) :
    ∃ f', (Store.save (Path.join p.docs (finalName r.file)) d).run.run f = (.ok (), f') ∧
      Shelved p f' drafts (finals ++ [d]) := by
  obtain ⟨texts, hkeeps, hdrafts, hfinals⟩ := h
  obtain ⟨f', t, hrun, hkeeps', hfinals'⟩ :=
    hfinals.save naming_finalName hkeeps hr hsource hfits hclean hcheck
  exact ⟨f', hrun, _, hkeeps', hdrafts.update
    (fun source => draftName_ne_finalName source r.file) t, hfinals'⟩

end Shelved

/-! ## Texts that can be stored -/

/-- A text that a file can hold and that no line of looks like the title of a chapter. -/
@[mk_iff]
structure Plain (t : String) : Prop where
  inner : Inner t.toList
  noReturn : '\r' ∉ t.toList
  writable : Folder.checkText t = .ok ()

instance (t : String) : Decidable (Plain t) :=
  decidable_of_iff _ (plain_iff t).symm

lemma checkText_append {a b : String} : Folder.checkText (a ++ b) = .ok () ↔
    Folder.checkText a = .ok () ∧ Folder.checkText b = .ok () := by
  simp only [Folder.checkText_ok_iff, String.toList_append, forall_mem_append]

lemma checkText_section? {h : String} (hh : Folder.checkText h = .ok ()) {t : Option String}
    (ht : ∀ u ∈ t, Folder.checkText u = .ok ()) :
    Folder.checkText (Chapter.writeSection? h t) = .ok () := by
  cases t with
  | none => rfl
  | some u =>
    simp only [Chapter.writeSection?, Chapter.writeSection, checkText_append]
    exact ⟨⟨⟨⟨rfl, hh⟩, rfl⟩, ht u rfl⟩, rfl⟩

lemma checkText_markdown (hname : Folder.checkText d.name = .ok ())
    (htexts : ∀ t ∈ d.texts, Folder.checkText t = .ok ()) :
    Folder.checkText (d.markdown ++ "\n") = .ok () := by
  rw [RoutineDoc.texts, forall_mem_cons] at htexts
  obtain ⟨hdescription, hfields⟩ := htexts
  have hfield : ∀ h t, (h, t) ∈ d.fields → Folder.checkText h = .ok () →
      Folder.checkText (Chapter.writeSection? h t) = .ok () := fun h t hmem hh =>
    checkText_section? hh fun u hu => hfields u (mem_filterMap.mpr ⟨_, hmem, hu⟩)
  have hsections : Folder.checkText d.sections = .ok () := by
    simp only [RoutineDoc.sections, checkText_append]
    refine ⟨⟨⟨hfield _ _ ?_ rfl, hfield _ _ ?_ rfl⟩, hfield _ _ ?_ rfl⟩, hfield _ _ ?_ rfl⟩ <;>
      simp [RoutineDoc.fields]
  have hhead : Folder.checkText (Chapter.head d.name d.description) = .ok () := by
    simp only [Chapter.head, checkText_append]
    refine ⟨⟨⟨rfl, hname⟩, rfl⟩, checkText_section? (t := some d.description) rfl ?_⟩
    rintro t ⟨⟩
    exact hdescription
  rw [RoutineDoc.markdown, checkText_append, checkText_append]
  refine ⟨⟨hhead, ?_⟩, rfl⟩
  rw [Folder.checkText_ok_iff] at hsections ⊢
  intro c hc
  rw [Text.strip, String.toList_ofList] at hc
  exact hsections c (( Chars.trim_infix _ _).subset hc)

/-! ## Code in a fence -/

variable (l : Language)

lemma toList_fenced (r : Routine) : (fenced l.markdown r).toList
    = ('`' :: '`' :: '`' :: l.markdown.toList) ++ '\n' :: (r.code.toList ++ '\n' :: ['`', '`', '`']) := by
  simp [fenced]

lemma unmarked_fenced_iff (r : Routine) :
    Unmarked (fenced l.markdown r).toList ↔ Unmarked r.code.toList := by
  have hfence : ¬ sectionMark <:+: '`' :: '`' :: '`' :: l.markdown.toList := by
    cases l <;> decide
  have hend : ¬ sectionMark <:+: ['`', '`', '`'] := by decide
  rw [Unmarked, Unmarked, toList_fenced, Chars.infix_append_cons_iff (by decide) (by decide),
    Chars.infix_append_cons_iff (by decide) (by decide)]
  simp [hfence, hend]

lemma inner_fenced_iff (r : Routine) :
    ¬ '\n' :: chapterMark <:+: (fenced l.markdown r).toList ↔ Inner r.code.toList := by
  have hfence : ¬ '\n' :: chapterMark <:+: '`' :: '`' :: '`' :: l.markdown.toList := by
    cases l <;> decide
  have hend : ¬ '\n' :: chapterMark <:+: ['\n', '`', '`', '`'] := by decide
  rw [Chapter.Inner, toList_fenced, Chars.cons_infix_append_cons_iff (by decide), ← cons_append,
    Chars.cons_infix_append_cons_iff (by decide)]
  simp [hfence, hend]

lemma isText_fenced (hmark : Unmarked r.code.toList) (hplain : Plain r.code) :
    IsText (fenced l.markdown r) := by
  -- the fence starts with a backtick, so a title can only be on a later line
  have hstart : Inner (fenced l.markdown r).toList := by
    have hcons : ('\n' :: chapterMark <:+: '\n' :: (fenced l.markdown r).toList)
        ↔ '\n' :: chapterMark <:+: (fenced l.markdown r).toList := by
      rw [infix_cons_iff]
      simp [toList_fenced, chapterMark]
    rw [Chapter.Inner, hcons, inner_fenced_iff]
    exact hplain.inner
  have hlast : ∀ h, (fenced l.markdown r).toList.getLast h = '`' := by
    simp [toList_fenced]
  refine ⟨?_, (unmarked_fenced_iff l r).mpr hmark, hstart, ?_⟩
  · rw [Text.strip, Chars.strip, Chars.trim_eq_self_iff.mpr, String.ofList_toList]
    intro h
    rw [hlast h]
    simp only [toList_fenced, cons_append, head_cons]
    decide
  · have hlang : '\r' ∉ l.markdown.toList := by cases l <;> decide
    simp [toList_fenced, hlang, hplain.noReturn]

lemma checkText_fenced (hplain : Plain r.code) :
    Folder.checkText (fenced l.markdown r) = .ok () := by
  have hlang : Folder.checkText l.markdown = .ok () := by cases l <;> rfl
  simp only [fenced, checkText_append]
  exact ⟨⟨⟨⟨rfl, hlang⟩, rfl⟩, hplain.writable⟩, rfl⟩

end Generate

end Docsmith
