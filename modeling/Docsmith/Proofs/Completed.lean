import Docsmith.Proofs.Collecting

/-! # Reports on completed work

Work that goes well to its end need not leave all that a report needs. `success_reported_iff` names
the only gaps: the documents on routines were read when modules were sought, those on modules when
the repository was documented, and no later step touches their files. -/

namespace Docsmith

open Folder Generate List

/-! ## The files of a project -/

namespace Project

variable {p : Project} {n : String}

def suffix (kind : String) : String := "." ++ kind ++ ".md"

lemma ends_fileFor (p : Project) {kind : String} (hkind : '/' ∉ (suffix kind).toList)
    (source : String) : ∃ base, Ends (p.fileFor kind source) (base ++ suffix kind) := by
  have hlong : 2 < (suffix kind).toList.length := by
    simp only [suffix, String.toList_append, length_append]
    have hend : ".md".toList.length = 3 := by decide
    omega
  have hjoin : ∃ front, p.fileFor kind source = front ++ suffix kind := by
    have hname : source ++ "." ++ kind ++ ".md" = source ++ suffix kind := by
      simp only [suffix, String.append_assoc]
    rw [fileFor, hname, Path.join]
    split
    · exact ⟨source, rfl⟩
    · split
      · exact ⟨p.docs ++ source, String.append_assoc.symm⟩
      · exact ⟨p.docs ++ "/" ++ source, String.append_assoc.symm⟩
  obtain ⟨front, hfront⟩ := hjoin
  rw [hfront]
  exact ends_append hkind hlong front

lemma append_ne {s m : String} (h : ¬ s.toList <:+ m.toList) (base : String) : base ++ s ≠ m := by
  rintro rfl
  exact h ⟨base.toList, String.toList_append.symm⟩

lemma append_notMem {s : String} {names : List String}
    (h : ∀ m ∈ names, ¬ s.toList <:+ m.toList) (base : String) : base ++ s ∉ names :=
  fun hmem => append_ne (h _ hmem) base rfl

lemma ends_of_file {α : Type} {kind path : String} (hkind : '/' ∉ (suffix kind).toList)
    {x : Except Fault α} {source : α → String}
    (h : (do return p.fileFor kind (source (← x))) = Except.ok path) :
    ∃ base, Ends path (base ++ suffix kind) := by
  cases x with
  | error e => cases h
  | ok a =>
    obtain rfl := Except.ok.inj h
    exact ends_fileFor p hkind (source a)

lemma ends_routineFile {s path : String} (h : p.routineFile s = .ok path) :
    ∃ base, Ends path (base ++ suffix "function") :=
  ends_of_file (by decide) h

lemma ends_recordFile {s path : String} (h : p.recordFile s = .ok path) :
    ∃ base, Ends path (base ++ suffix "class") :=
  ends_of_file (by decide) h

lemma untouched_saveAt {δ : Type} [Document δ] {kind : String} (hn : IsFilename n)
    (hother : ¬ (suffix kind).toList <:+ n.toList) {file : Except Fault String}
    (hends : ∀ path, file = .ok path → ∃ base, Ends path (base ++ suffix kind)) (d : δ) :
    Leads (Untouched n) (do Store.save (← Files.ask fun _ => file) d) := by
  intro f
  rw [run_bind]
  cases file with
  | error e => exact refl_of (Untouched n) f
  | ok path =>
    obtain ⟨base, hbase⟩ := hends path rfl
    exact untouched_save hn hbase (append_ne hother base) d f

lemma loadRoutine?_kept {s : String} {d : RoutineDoc} {f f' : Folder}
    (h : ∀ base, Untouched (base ++ suffix "function") f f')
    (hload : ((p.loadRoutine? s).run.run f).1 = .ok (some d)) :
    ((p.loadRoutine? s).run.run f').1 = .ok (some d) := by
  obtain ⟨path, hpath, hfound⟩ := load?_ask_iff.mp hload
  obtain ⟨base, hends⟩ := ends_routineFile hpath
  exact load?_ask_iff.mpr ⟨path, hpath, (h base).load? hends hfound⟩

lemma isFilename_suffix (base : String) : IsFilename (base ++ suffix "function") := by
  have h : ∀ m, ¬ (suffix "function").toList <:+ m.toList → base ++ suffix "function" ≠ m :=
    fun m hm => append_ne hm base
  exact ⟨⟨h "" (by decide), h "." (by decide), h ".." (by decide)⟩, h rootName (by decide)⟩

end Project

/-! ## What the steps leave alone -/

section Stages

variable {n : String} (hn : IsFilename n) (p : Project)

include hn

lemma untouched_documentRoutines (hnotes : n ≠ Store.notes)
    (hother : ¬ (Project.suffix "function").toList <:+ n.toList) :
    Leads (Unreported (Untouched n)) (documentRoutines p) :=
  unreported_documentRoutines (untouched_noted hn hnotes) fun _ d =>
    Project.untouched_saveAt hn hother (fun _ => Project.ends_routineFile) d

lemma untouched_documentRecords (hnotes : n ≠ Store.notes)
    (hother : ¬ (Project.suffix "class").toList <:+ n.toList) :
    Leads (Unreported (Untouched n)) (documentRecords p) :=
  unreported_documentRecords (untouched_noted hn hnotes) fun _ d =>
    Project.untouched_saveAt hn hother (fun _ => Project.ends_recordFile) d

lemma untouched_documentModules (hnotes : n ≠ Store.notes)
    (hother : n ∉ ["modules.v1_draft.md", "modules.md"]) :
    Leads (Unreported (Untouched n)) (documentModules p) := by
  simp only [mem_cons, not_mem_nil, or_false, not_or] at hother
  obtain ⟨hdrafts, hmodules⟩ := hother
  refine unreported_documentModules (untouched_noted hn hnotes) (fun d => ?_) fun d => ?_
  · exact untouched_save hn (ends_join (by decide) (by decide) p.docs) (Ne.symm hdrafts) d
  · exact untouched_save hn (ends_join (by decide) (by decide) p.docs) (Ne.symm hmodules) d

lemma untouched_documentRepository (hnotes : n ≠ Store.notes)
    (hother : n ∉ ["repo-draft.md", "repo-q.md", "repo-a.md", "repo.md"]) :
    Leads (Unreported (Untouched n)) (documentRepositoryByIndex p) := by
  simp only [mem_cons, not_mem_nil, or_false, not_or] at hother
  obtain ⟨hdraft, hquestions, hanswers, hrepo⟩ := hother
  refine unreported_documentRepositoryByIndex (untouched_noted hn hnotes) (fun d => ?_)
    (fun text => ?_) (fun text => ?_) fun d => ?_
  · exact untouched_save hn (ends_join (by decide) (by decide) p.docs) (Ne.symm hdraft) d
  · exact untouched_write hn (ends_join (by decide) (by decide) p.docs) (Ne.symm hquestions) text
  · exact untouched_write hn (ends_join (by decide) (by decide) p.docs) (Ne.symm hanswers) text
  · exact untouched_save hn (ends_join (by decide) (by decide) p.docs) (Ne.symm hrepo) d

end Stages

/-! ## Documents that were read on the way -/

section Reading

variable {p : Project} {w w' : World}

lemma routineDoc_iff {s : String} {d : RoutineDoc} :
    (routineDoc p s).run.run w = (.ok d, w) ↔
      ((p.loadRoutine? s).run.run w.folder).1 = .ok (some d) := by
  have hload := p.loadRoutine?_folder s
  rw [routineDoc, (reads_inFolder hload).bind_ok_iff]
  simp only [run_inFolder_iff hload]
  constructor
  · rintro ⟨o, ho, hd⟩
    cases o with
    | none => cases hd
    | some d' =>
      obtain rfl := Except.ok.inj (Prod.mk.inj hd).1
      exact ho
  · intro h
    exact ⟨some d, h, rfl⟩

lemma loaded_of_listing {symbols : List String} {text : String}
    (h : (Generate.listing p symbols).run.run w = (.ok text, w')) :
    w' = w ∧ ∀ s ∈ symbols, ∃ d, ((p.loadRoutine? s).run.run w.folder).1 = .ok (some d) := by
  have hread : ∀ s, Reads (do return listed s (← routineDoc p s)) :=
    fun s => (reads_routineDoc p s).bind fun _ => reads_pure _
  obtain ⟨r, hr⟩ := reads_listing p symbols w
  obtain ⟨-, rfl⟩ := Prod.mk.inj (hr.symm.trans h)
  refine ⟨rfl, fun s hs => ?_⟩
  rw [Generate.listing, (reads_mapM hread symbols).bind_ok_iff] at h
  obtain ⟨texts, htexts, -⟩ := h
  rw [mapM_reads_iff hread] at htexts
  obtain ⟨t, ht⟩ := exists_forall₂_iff.mp ⟨texts, htexts⟩ s hs
  obtain ⟨d, hd, -⟩ := (reads_routineDoc p s).bind_ok_iff.mp ht
  exact ⟨d, routineDoc_iff.mp hd⟩

lemma loaded_of_documentModules (hdrafts : w.folder.Lacks (modulesDraftFile p))
    (h : (documentModules p).run.run w = (.ok (), w')) :
    ∃ symbols, visible p = .ok symbols ∧
      ∀ s ∈ symbols, ∃ d, ((p.loadRoutine? s).run.run w.folder).1 = .ok (some d) := by
  cases hvisible : visible p with
  | error e =>
    rw [documentModules, hvisible] at h
    cases h
  | ok symbols =>
    refine ⟨symbols, rfl, ?_⟩
    cases symbols with
    | nil => simp
    | cons symbol symbols =>
      rw [documentModules_eq hvisible, run_bind_ok] at h
      obtain ⟨drafts, w₁, hdraft, -⟩ := h
      rw [draftModules_eq] at hdraft
      rcases loadOr_ok hdraft with ⟨hne, hload, -⟩ | ⟨-, w₂, hmake, -⟩
      · -- drafts that were found would have to be on file
        obtain ⟨m, ms, rfl⟩ := exists_cons_of_ne_nil hne
        obtain ⟨c, t, hhas, -⟩ := has_of_loadAll hload
        exact absurd hhas hdrafts.not_has
      · rw [proposed, run_bind_ok] at hmake
        obtain ⟨found, w₃, hfound, hmake⟩ := hmake
        rw [hvisible] at hfound
        obtain ⟨hsymbols, rfl⟩ := Prod.mk.inj hfound
        obtain rfl := Except.ok.inj hsymbols
        obtain ⟨text, w₄, hlisting, -⟩ := run_bind_ok.mp hmake
        exact (loaded_of_listing hlisting).2

lemma modules_of_documentRepository
    (h : (documentRepositoryByIndex p).run.run w = (.ok (), w')) :
    w' = w ∨ ∃ m ms, (p.loadModules.run.run w.folder).1 = .ok (m :: ms) := by
  rw [documentRepositoryByIndex, documentRepositoryWith, run_bind_ok] at h
  obtain ⟨ms, w₁, hload, hrest⟩ := h
  rw [run_inFolder, p.loadModules_folder] at hload
  obtain ⟨hms, rfl⟩ := Prod.mk.inj hload
  cases ms with
  | nil => exact Or.inl (Prod.mk.inj hrest).2.symm
  | cons m ms => exact Or.inr ⟨m, ms, hms⟩

end Reading

/-! ## What is left for a report -/

namespace Document

lemma exists_chapter_of_load {δ : Type} [Document δ] {path : String} {f : Folder} {d : δ}
    {ds : List δ} (h : ((Store.loadAll δ path).run.run f).1 = .ok ds) (hd : d ∈ ds) :
    ∃ chapter : String, '\r' ∉ chapter.toList ∧ ofChapter chapter = .ok d := by
  obtain ⟨e, rest, rfl⟩ := exists_cons_of_ne_nil (ne_nil_of_mem hd)
  obtain ⟨c, t, -, ht, hall⟩ := has_of_loadAll h
  obtain ⟨s, rfl⟩ := textOf_ok ht
  obtain ⟨chapter, hchapter, hread⟩ := exists_chapter_of_mem hall hd
  refine ⟨chapter, fun hreturn => ?_, hread⟩
  have hin := Chapter.return_mem_of_split hchapter hreturn
  rw [Text.unifyBreaks, String.toList_ofList] at hin
  exact Chars.return_notMem_unifyBreaks _ hin

end Document

namespace Service

open Report

/-- What work that went well may fail to leave. -/
structure Reportable (p : Project) (f : Folder) : Prop where
  repository : ∃ d : RepositoryDoc,
    (p.loadRepository?.run.run f).1 = .ok (some d) ∧ d.scenarios ≠ none
  records : ∃ records, p.records.all = .ok records ∧
    ∀ r ∈ records, r.visible = true → ∃ d, ((p.loadRecord? r.symbol).run.run f).1 = .ok (some d)

structure Left (p : Project) (f : Folder) : Prop where
  routines : ∃ routines, p.routines.all = .ok routines ∧
    ∀ r ∈ routines, r.visible = true → ∃ d, ((p.loadRoutine? r.symbol).run.run f).1 = .ok (some d)
  modules : (∃ d, (p.loadRepository?.run.run f).1 = .ok (some d)) →
    ∃ m ms, (p.loadModules.run.run f).1 = .ok (m :: ms)

section Left

variable {p : Project} {f : Folder}

lemma ofModule_of_load {m : ModuleDoc} {ms : List ModuleDoc}
    (h : (p.loadModules.run.run f).1 = .ok ms) (hm : m ∈ ms) : ∃ v, ofModule m = .ok v := by
  obtain ⟨chapter, hreturn, hread⟩ := Document.exists_chapter_of_load h hm
  obtain ⟨-, ⟨xs, hxs, -⟩, -⟩ := ModuleDoc.known_of_read hreturn hread
  rw [ofModule, hxs]
  exact ⟨_, rfl⟩

lemma ofRepository_iff {d : RepositoryDoc}
    (h : (p.loadRepository?.run.run f).1 = .ok (some d)) :
    (∃ v, ofRepository d = .ok v) ↔ d.scenarios ≠ none := by
  obtain ⟨ds, hload⟩ := Project.loadRepository?_ok_iff.mp h
  obtain ⟨chapter, hreturn, hread⟩ := Document.exists_chapter_of_load hload mem_cons_self
  obtain ⟨-, ⟨xs, hxs, -⟩, ⟨ys, hys, -⟩, -⟩ := RepositoryDoc.known_of_read hreturn hread
  rw [ofRepository, hxs, hys]
  cases d.scenarios with
  | none =>
    constructor
    · rintro ⟨v, hv⟩
      cases hv
    · intro hne
      exact absurd rfl hne
  | some zs => exact ⟨fun _ hnone => Option.some_ne_none zs hnone, fun _ => ⟨_, rfl⟩⟩

lemma exists_scenarios
    (h : ((((Store.loadAll RepositoryDoc p.repositoryFile).run.run f).1.toOption.bind
      List.head?).bind (·.scenarios)).isSome = true) :
    ∃ d : RepositoryDoc, (p.loadRepository?.run.run f).1 = .ok (some d) ∧ d.scenarios ≠ none := by
  cases hload : ((Store.loadAll RepositoryDoc p.repositoryFile).run.run f).1 with
  | error e =>
    rw [hload] at h
    cases h
  | ok ds =>
    rw [hload] at h
    cases ds with
    | nil => cases h
    | cons d ds =>
      exact ⟨d, Project.loadRepository?_ok_iff.mpr ⟨ds, hload⟩,
        Option.isSome_iff_ne_none.mp h⟩

lemma exists_collected_iff (hleft : Left p f) :
    (∃ report, Collected p f report) ↔ Reportable p f := by
  constructor
  · rintro ⟨report, h⟩
    obtain ⟨d, v, hd, hv, -⟩ := h.repo
    obtain ⟨records, hrecords, hclasses⟩ := h.classes
    exact ⟨⟨d, hd, (ofRepository_iff hd).mp ⟨v, hv⟩⟩, records, hrecords,
      exists_presents_iff.mp ⟨_, hclasses⟩⟩
  · rintro ⟨⟨d, hd, hscenarios⟩, records, hrecords, hfound'⟩
    obtain ⟨routines, hroutines, hfound⟩ := hleft.routines
    obtain ⟨m, ms, hms⟩ := hleft.modules ⟨d, hd⟩
    obtain ⟨v, hv⟩ := (ofRepository_iff hd).mpr hscenarios
    obtain ⟨modules, hmodules⟩ : ∃ vs, (m :: ms).mapM ofModule = .ok vs :=
      exists_mapM_ok_iff.mpr fun m' hm' => ofModule_of_load hms hm'
    obtain ⟨functions, hfunctions⟩ := exists_presents_iff.mpr hfound
    obtain ⟨classes, hclasses⟩ := exists_presents_iff.mpr hfound'
    exact ⟨⟨functions, classes, modules, [v]⟩, ⟨routines, hroutines, hfunctions⟩,
      ⟨records, hrecords, hclasses⟩, ⟨m :: ms, hms, hmodules⟩, ⟨d, v, hd, hv, rfl⟩⟩

end Left

/-! ## Work that went well -/

section Work

variable {parse : Pipeline.Parser} {language : Option Language} {p₀ p : Project} {w w' : World}

/-- Neither drafts of modules nor a document on the repository are on file. -/
structure Fresh (docs : String) (f : Folder) : Prop where
  drafts : f.Lacks (Path.join docs "modules.v1_draft.md")
  repository : f.Lacks (Path.join docs "repo.md")

lemma docs_of_survey (h : (Pipeline.survey parse language p₀).run.run w = (.ok p, w')) :
    p.docs = p₀.docs := by
  cases language with
  | none => cases h
  | some language =>
    cases language with
    | cpp =>
      obtain ⟨found, w₁, -, hrest⟩ := run_bind_ok.mp h
      rw [← Except.ok.inj (Prod.mk.inj hrest).1]
    | python =>
      obtain ⟨w₁, w₂, -, hrest⟩ := run_bind_ok.mp h
      obtain ⟨routines, w₃, -, hrest⟩ := run_bind_ok.mp hrest
      rw [← Except.ok.inj (Prod.mk.inj hrest).1]

lemma records_of_survey
    (h : (Pipeline.survey parse (some .python) p₀).run.run w = (.ok p, w')) : p.records = {} := by
  obtain ⟨w₁, w₂, -, hrest⟩ := run_bind_ok.mp h
  obtain ⟨routines, w₃, -, hrest⟩ := run_bind_ok.mp hrest
  rw [← Except.ok.inj (Prod.mk.inj hrest).1]

lemma untouched_of_run {α : Type} {n : String} {step : Run α} {r : Except Fault α}
    (hstep : Leads (Unreported (Untouched n)) step) (h : step.run.run w = (r, w')) :
    Untouched n w.folder w'.folder := by
  have hleads := (hstep w).folder
  rwa [h] at hleads

lemma document_ok (h : (Pipeline.document parse language p₀).run.run w = (.ok p, w')) :
    ∃ w₁ w₂ w₃ w₄, (Pipeline.survey parse language p₀).run.run w = (.ok p, w₁) ∧
      (documentRoutines p).run.run w₁ = (.ok (), w₂) ∧
      (documentRecords p).run.run w₂ = (.ok (), w₃) ∧
      (documentModules p).run.run w₃ = (.ok (), w₄) ∧
      (documentRepositoryByIndex p).run.run w₄ = (.ok (), w') := by
  obtain ⟨q, w₁, hsurvey, h⟩ := run_bind_ok.mp h
  obtain ⟨⟨⟩, w₂, hroutines, h⟩ := run_bind_ok.mp h
  obtain ⟨⟨⟩, w₃, hrecords, h⟩ := run_bind_ok.mp h
  obtain ⟨⟨⟩, w₄, hmodules, h⟩ := run_bind_ok.mp h
  obtain ⟨⟨⟩, w₅, hrepository, h⟩ := run_bind_ok.mp h
  obtain ⟨hq, rfl⟩ := Prod.mk.inj h
  obtain rfl := Except.ok.inj hq
  exact ⟨w₁, w₂, w₃, w₄, hsurvey, hroutines, hrecords, hmodules, hrepository⟩

section Between

variable {w₁ w₂ w₃ w₄ : World}

lemma untouched_before {n : String} (hn : IsFilename n) (hnotes : n ≠ Store.notes)
    (hfunction : ¬ (Project.suffix "function").toList <:+ n.toList)
    (hclass : ¬ (Project.suffix "class").toList <:+ n.toList)
    (hroutines : (documentRoutines p).run.run w₁ = (.ok (), w₂))
    (hrecords : (documentRecords p).run.run w₂ = (.ok (), w₃)) :
    Untouched n w₁.folder w₃.folder :=
  trans_of (Untouched n)
    (untouched_of_run (untouched_documentRoutines hn p hnotes hfunction) hroutines)
    (untouched_of_run (untouched_documentRecords hn p hnotes hclass) hrecords)

lemma untouched_after (hmodules : (documentModules p).run.run w₃ = (.ok (), w₄))
    (hrepository : (documentRepositoryByIndex p).run.run w₄ = (.ok (), w')) (base : String) :
    Untouched (base ++ Project.suffix "function") w₃.folder w'.folder := by
  have hn := Project.isFilename_suffix base
  have hnotes : base ++ Project.suffix "function" ≠ Store.notes :=
    Project.append_ne (by decide) base
  exact trans_of (Untouched _)
    (untouched_of_run (untouched_documentModules hn p hnotes
      (Project.append_notMem (by decide) base)) hmodules)
    (untouched_of_run (untouched_documentRepository hn p hnotes
      (Project.append_notMem (by decide) base)) hrepository)

end Between

lemma left_of_document
    (hfresh : Fresh p₀.docs ((Pipeline.survey parse language p₀).run.run w).2.folder)
    (h : (Pipeline.document parse language p₀).run.run w = (.ok p, w')) : Left p w'.folder := by
  obtain ⟨w₁, w₂, w₃, w₄, hsurvey, hroutines, hrecords, hmodules, hrepository⟩ := document_ok h
  rw [hsurvey, ← docs_of_survey hsurvey] at hfresh
  constructor
  case routines =>
    have hends : Ends (modulesDraftFile p) "modules.v1_draft.md" :=
      ends_join (by decide) (by decide) p.docs
    have hbefore := untouched_before (n := "modules.v1_draft.md") (by decide) (by decide)
      (by decide) (by decide) hroutines hrecords
    obtain ⟨symbols, hvisible, hfound⟩ :=
      loaded_of_documentModules (hbefore.lacks hends hfresh.drafts) hmodules
    obtain ⟨routines, hall, rfl⟩ := map_ok_iff.mp hvisible
    refine ⟨routines, hall, fun r hr hshown => ?_⟩
    obtain ⟨d, hd⟩ := hfound r.symbol
      (mem_map.mpr ⟨r, mem_filter.mpr ⟨hr, hshown⟩, rfl⟩)
    exact ⟨d, Project.loadRoutine?_kept (untouched_after hmodules hrepository) hd⟩
  case modules =>
    rintro ⟨d, hd⟩
    rcases modules_of_documentRepository hrepository with rfl | ⟨m, ms, hms⟩
    · -- nothing was written since modules were sought, so there is no document
      have hends : Ends p.repositoryFile "repo.md" := ends_join (by decide) (by decide) p.docs
      have hbefore := untouched_before (n := "repo.md") (by decide) (by decide) (by decide)
        (by decide) hroutines hrecords
      have hmiddle := untouched_of_run (untouched_documentModules (n := "repo.md") (by decide) p
        (by decide) (by decide)) hmodules
      have hlacks := hmiddle.lacks hends (hbefore.lacks hends hfresh.repository)
      obtain ⟨ds, hload⟩ := Project.loadRepository?_ok_iff.mp hd
      obtain ⟨c, t, hhas, -⟩ := has_of_loadAll hload
      exact absurd hhas hlacks.not_has
    · have hend := untouched_of_run (untouched_documentRepository (n := "modules.md") (by decide) p
        (by decide) (by decide)) hrepository
      exact ⟨m, ms, hend.loadAll (ends_join (by decide) (by decide) p.docs) hms⟩

end Work

/-! ## Reports that arrive at once -/

lemma eq_singleton_of_arrived {sent : List Post} (hne : sent ≠ [])
    (harrived : ∀ q ∈ sent, q.failed = false) (hstops : ∀ q ∈ sent.dropLast, q.failed = true) :
    ∃ q, sent = [q] := by
  obtain ⟨q, rest, rfl⟩ := exists_cons_of_ne_nil hne
  cases rest with
  | nil => exact ⟨q, rfl⟩
  | cons q' rest =>
    have hq := hstops q (by simp)
    rw [harrived q mem_cons_self] at hq
    cases hq

lemma Delivery.taken {url : String} {result : Except Fault String} {failure : String → String}
    {outcomes : List (Option String)} {good bad : List Post} {final : Except Fault Unit}
    (h : Delivery url result failure outcomes good bad final) (hall : ∀ o ∈ outcomes, o = none) :
    (∀ body, result = .ok body → good ++ bad = [⟨url, body, false⟩]) ∧
      ∀ fault, result = .error fault → isReportable fault = true →
        good ++ bad = [⟨url, failure fault.message, false⟩] := by
  have harrived : ∀ q ∈ good ++ bad, q.failed = false := by
    intro q hq
    obtain ⟨i, hi⟩ := mem_iff_getElem?.mp hq
    rw [h.follows i q hi]
    cases ho : outcomes[i]? with
    | none => rfl
    | some o =>
      rw [hall o (mem_of_getElem? ho)]
      rfl
  constructor
  · rintro body rfl
    have hgood : good ≠ [] := by
      rintro rfl
      cases h.good_persists ⟨body, rfl⟩ (by simp)
    obtain ⟨q, hq⟩ := eq_singleton_of_arrived (append_ne_nil_of_left_ne_nil hgood bad)
      harrived h.stops
    obtain ⟨rfl, rfl⟩ : good = [q] ∧ bad = [] :=
      (append_eq_singleton_iff.mp hq).resolve_left fun hnil => hgood hnil.1
    obtain ⟨hurl, hbody⟩ := h.success q mem_cons_self
    have hfailed := harrived q (by simp)
    rw [hq, Except.ok.inj hbody, ← hurl, ← hfailed]
  · rintro fault rfl hreportable
    have hgood : good = [] := by
      refine eq_nil_iff_forall_not_mem.mpr fun g hg => ?_
      cases (h.success g hg).2
    subst hgood
    have hbad : bad ≠ [] := by
      rintro rfl
      cases h.bad_persists (Or.inl ⟨fault, rfl, hreportable⟩) (by simp)
    obtain ⟨q, rfl⟩ := eq_singleton_of_arrived hbad harrived h.stops
    have hfailed := harrived q mem_cons_self
    obtain ⟨hurl, fault', hbody, hfault | ⟨hfive, -⟩⟩ := h.failed q mem_cons_self
    · obtain ⟨url', body, failed⟩ := q
      dsimp only at hurl hbody hfailed
      rw [hurl, hbody, hfailed, Except.error.inj hfault]
      rfl
    · cases hfive

def projectOf (place : String) (language : Language) : Project where
  docs := Path.join "docs" place
  sources := sourcesAt place
  output := Path.join "output" place
  language := some language

section Task

variable {parse : Pipeline.Parser} {place : String} {task : Task} {language : Language}
  {p : Project} {w w' : World}

lemma analyse_run (hlanguage : Language.ofRender task.language = .ok language)
    (hdone : (Pipeline.document parse (some language) (projectOf place language)).run.run w
      = (.ok p, w')) :
    (analyse parse place task).run.run w = (collect p).run.run w' := by
  rw [projectOf] at hdone
  rw [analyse, run_bind, Run.run_ofExcept, hlanguage]
  simp only [run_bind, hdone]

/-- Of work that goes well on a task that was not worked on before exactly one report arrives. It is
one of success, with one document for each visible routine and record, exactly if the work left a
document on the repository with all its lists and one on each visible record. -/
theorem success_reported_iff (hlanguage : Language.ofRender task.language = .ok language)
    (hfresh : Fresh (Path.join "docs" place)
      ((Pipeline.survey parse (some language) (projectOf place language)).run.run w).2.folder)
    (hdone : (Pipeline.document parse (some language) (projectOf place language)).run.run w
      = (.ok p, w'))
    (hall : ∀ o ∈ w.outcomes, o = none) :
    ∃ post, ((work parse place task).run.run w).2.posts = w.posts ++ [post] ∧
      ((∃ report, post = ⟨task.callback, successBody task report, false⟩ ∧ Lists p report) ↔
        Reportable p w'.folder) ∧
      (Reportable p w'.folder → ∃ m ms, (p.loadModules.run.run w'.folder).1 = .ok (m :: ms)) ∧
      (¬ Reportable p w'.folder →
        ∃ message, post = ⟨task.callback, failureBody task message, false⟩) := by
  have hleft : Left p w'.folder := left_of_document hfresh hdone
  have hposts :=
    (Pipeline.unreported_document parse (some language) (projectOf place language) w).posts
  rw [hdone] at hposts
  have htame := tames_collect p w'
  obtain ⟨r, hr⟩ := reads_collect p w'
  rw [hr] at htame
  have hrun := (analyse_run hlanguage hdone).trans hr
  obtain ⟨good, bad, final, hdelivery, hwork⟩ := reports_work parse place task w
  rw [hrun] at hdelivery hwork
  obtain ⟨hsuccess, hfailure⟩ := hdelivery.taken hall
  rw [hwork, afterSending]
  dsimp only at hposts ⊢
  rw [hposts]
  cases r with
  | ok report =>
    have hcollected := collect_ok_iff.mp hr
    have hreportable := (exists_collected_iff hleft).mp ⟨report, hcollected⟩
    obtain ⟨d, hd, -⟩ := hreportable.repository
    refine ⟨_, by rw [hsuccess _ rfl], ⟨fun _ => hreportable, fun _ => ?_⟩,
      fun _ => hleft.modules ⟨d, hd⟩, fun h => absurd hreportable h⟩
    exact ⟨report, rfl, hcollected.lists⟩
  | error fault =>
    have hnot : ¬ Reportable p w'.folder := by
      intro h
      obtain ⟨report, hcollected⟩ := (exists_collected_iff hleft).mpr h
      have hok := hr.symm.trans (collect_ok_iff.mpr hcollected)
      cases (Prod.mk.inj hok).1
    refine ⟨_, by rw [hfailure fault rfl (htame fault rfl)], ⟨?_, fun h => absurd h hnot⟩,
      fun h => absurd h hnot, fun _ => ⟨_, rfl⟩⟩
    rintro ⟨report, hpost, -⟩
    exact absurd (Post.mk.inj hpost).2.1.symm (compact_status_ne _ _ _ _)

end Task

/-! ## Two tasks -/

def noParser : Pipeline.Parser := fun _ => none

def errand : Task where
  id := "t"
  callback := "u"
  language := "Rust"

/-- A repository with nothing in it, of which all but its document has been written. -/
def nearlyDone : World where
  folder := .folder "docs" (.folder "r"
      (.file "modules.md" (.text "### A\n#### Description\n#### Functions\n")
        (.file "repo-a.md" (.text "s") (.file "repo-draft.md"
          (.text "### R\n#### Description\n#### Features\n#### Standards\n")
          (.file "repo-q.md" (.text "q") .empty)))) .empty)
    (.folder "resource" (.folder "r" .empty .empty) .empty)
  replies :=
    [.text "### R\n#### Description\n\n#### Features\n\n#### Standards\n\n#### Scenarios\nc"]

def lastSteps : Except Fault Project × World :=
  (Pipeline.document noParser (some .python) (projectOf "r" .python)).run.run nearlyDone

lemma fresh_nearlyDone : Fresh (Path.join "docs" "r") ((Pipeline.survey noParser (some .python)
    (projectOf "r" .python)).run.run nearlyDone).2.folder where
  drafts := lacks_of_isNone (by decide +kernel)
  repository := lacks_of_isNone (by decide +kernel)

lemma lastSteps_values : lastSteps.1.isOk = true ∧
    ((((Store.loadAll RepositoryDoc "docs/r/repo.md").run.run lastSteps.2.folder).1.toOption.bind
      List.head?).bind (·.scenarios)).isSome = true := by
  decide +kernel

theorem success_reported_nearlyDone : ∃ p w', lastSteps = (.ok p, w') ∧
    Reportable p w'.folder ∧ ∃ report, Lists p report ∧
      ((work noParser "r" errand).run.run nearlyDone).2.posts
        = [⟨"u", successBody errand report, false⟩] := by
  obtain ⟨hok, hscenarios⟩ := lastSteps_values
  rcases hsteps : lastSteps with ⟨r, w'⟩
  rw [hsteps] at hok hscenarios
  rw [lastSteps] at hsteps
  cases r with
  | error e => cases hok
  | ok p =>
    obtain ⟨w₁, w₂, w₃, w₄, hsurvey, -⟩ := document_ok hsteps
    have hfile : p.repositoryFile = "docs/r/repo.md" := by
      rw [Project.repositoryFile, docs_of_survey hsurvey]
      decide
    rw [← hfile] at hscenarios
    have hrecords : p.records.all = .ok [] := by
      rw [records_of_survey hsurvey]
      rfl
    have hreportable : Reportable p w'.folder :=
      ⟨exists_scenarios hscenarios, [], hrecords, by simp⟩
    have hlanguage : Language.ofRender errand.language = .ok .python := by decide
    obtain ⟨post, hposts, hiff, -⟩ :=
      success_reported_iff hlanguage fresh_nearlyDone hsteps (by simp [nearlyDone])
    obtain ⟨report, rfl, hlists⟩ := hiff.mpr hreportable
    exact ⟨p, w', rfl, hreportable, report, hlists, hposts⟩

def vacant : World where
  folder := .folder "resource" (.folder "r" .empty .empty) .empty

/-- Without routines the work goes well and every report arrives, but what arrives is a report of
failure. -/
theorem vacant_reported_failed : Language.ofRender errand.language = .ok .python ∧
    ((Pipeline.document noParser (some .python) (projectOf "r" .python)).run.run vacant).1.isOk
        = true ∧
      ((work noParser "r" errand).run.run vacant).2.posts
        = [⟨"u", failureBody errand Fault.nothingToReport.message, false⟩] := by
  decide +kernel

end Service

end Docsmith

