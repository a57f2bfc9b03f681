import Docsmith.Proofs.PlainFiles

/-! # Documenting modules a second time

A second run on modules reads what the first has written, so it has nothing to do exactly if there
were modules at all and each document that was written can be read again (`modules_idle_iff`). -/

namespace Docsmith

open List

/-! ## Characters of chapters -/

lemma Chars.subset_of_mem_splitOn {pat : List Char} (hne : pat ≠ []) {x u : List Char}
    (hu : u ∈ splitOn pat x) : u ⊆ x := by
  -- on the length: the text after a mark is shorter
  induction hn : x.length using Nat.strong_induction_on generalizing x with
  | _ n ih =>
    rw [splitOn_eq hne] at hu
    cases hcut : breakOn pat x with
    | none =>
      rw [hcut] at hu
      rw [mem_singleton.mp hu]
      exact List.Subset.refl x
    | some r =>
      rw [hcut] at hu
      have hx := eq_append_of_breakOn hcut
      rcases mem_cons.mp hu with rfl | hrest
      · intro c hc
        rw [hx]
        simp [hc]
      · have hshort : r.2.length < n := by
          rw [← hn, hx, length_append, length_append]
          have := length_pos_iff.mpr hne
          omega
        intro c hc
        rw [hx]
        exact mem_append_right _ (ih _ hshort hrest rfl hc)

lemma Chapter.return_mem_of_split {text chapter : String} (h : chapter ∈ split text)
    (hreturn : '\r' ∈ chapter.toList) : '\r' ∈ text.toList := by
  have hmark : "###".toList = ['#', '#', '#'] := by simp
  have hnext : "\n### ".toList ≠ [] := by simp
  rw [split, Text.breakOn, hmark] at h
  cases hcut : Chars.breakOn ['#', '#', '#'] text.toList with
  | none =>
    rw [hcut] at h
    cases h
  | some r =>
    obtain ⟨b, a⟩ := r
    have hpieces : ∀ u ∈ Chars.splitOn "\n### ".toList a, '\r' ∈ u → '\r' ∈ text.toList := by
      intro u hu hr
      rw [Chars.eq_append_of_breakOn hcut]
      exact mem_append_right _ (Chars.subset_of_mem_splitOn hnext hu hr)
    rw [hcut] at h
    simp only [Option.map_some, Text.splitOn, String.toList_ofList] at h
    generalize Chars.splitOn "\n### ".toList a = pieces at h hpieces
    cases pieces with
    | nil => cases h
    | cons q qs =>
      rw [map_cons] at h
      rcases mem_cons.mp h with rfl | hother
      · exact hpieces q mem_cons_self (by simpa using hreturn)
      · simp only [map_map, mem_map] at hother
        obtain ⟨u, hu, rfl⟩ := hother
        exact hpieces u (mem_cons_of_mem q hu) (by simpa using hreturn)

lemma Document.exists_chapter_of_mem {δ : Type} [Document δ] {text : String} {ds : List δ}
    (h : ofText text = .ok ds) {d : δ} (hd : d ∈ ds) :
    ∃ chapter ∈ Chapter.split text, ofChapter chapter = .ok d := by
  rw [ofText, mapM_ok_iff] at h
  generalize Chapter.split text = chapters at h
  induction h with
  | nil => cases hd
  | @cons chapter e chapters ds hread _ ih =>
    rcases mem_cons.mp hd with rfl | hrest
    · exact ⟨chapter, mem_cons_self, hread⟩
    · obtain ⟨c, hc, hcread⟩ := ih hrest
      exact ⟨c, mem_cons_of_mem chapter hc, hcread⟩

/-! ## Counting conversations -/

def Talked (w w' : World) : Prop :=
  w.prompts.length ≤ w'.prompts.length

instance : IsPreorder World Talked where
  refl _ := Nat.le_refl _
  trans _ _ _ := Nat.le_trans

namespace Generate

open Project Store

section Talked

lemma askUser_sends (prompt : String) (w : World) :
    w.prompts.length < ((askUser prompt id).run.run w).2.prompts.length :=
  Talk.askFrom_sends id w.replies { history := [.said .user (some prompt)], world := w }

lemma talked_askUser (prompt : String) : Leads Talked (askUser prompt id) :=
  fun w => Nat.le_of_lt (askUser_sends prompt w)

lemma talked_inFolder {α : Type} (step : Files α) : Leads Talked (inFolder step) :=
  fun w => Nat.le_refl w.prompts.length

lemma talked_enhanceModules (p : Project) (drafts : List ModuleDoc) :
    Leads Talked (enhanceModules p drafts) := by
  have htask : ∀ m, Leads Talked (enhanceModule p m) := by
    intro m
    rw [enhanceModule_eq]
    exact ((leads_of_reads (reads_modulePrompt p m)).bind fun prompt =>
      (talked_askUser prompt).bind fun _ => leads_ofExcept _).bind fun _ => talked_inFolder _
  refine (talked_inFolder _).bind fun found => ?_
  split
  · exact (leads_collect htask drafts).bind fun _ => leads_pure ()
  · exact leads_pure ()

end Talked

/-! ## Drafts -/

def ReadFrom (replies : List Reply) (d : ModuleDoc) : Prop :=
  ∃ reply ∈ replies, ∃ text ∈ Talk.answer? reply, ∃ chapter : String,
    ('\r' ∈ chapter.toList → '\r' ∈ text.toList) ∧ Document.ofChapter chapter = .ok d

lemma ReadFrom.mono {replies replies' : List Reply} {d : ModuleDoc} (h : ReadFrom replies d)
    (hsub : replies <:+ replies') : ReadFrom replies' d := by
  obtain ⟨reply, hmem, hread⟩ := h
  exact ⟨reply, hsub.subset hmem, hread⟩

def proposed (p : Project) : Run (List ModuleDoc) := do
  let symbols ← Run.ofExcept (visible p)
  let reply ← askUser (Prompt.modules (← listing p symbols)) id
  return worthwhile (← Run.ofExcept (Document.ofText reply))

lemma draftModules_eq (p : Project) :
    draftModules p = loadOr (modulesDraftFile p) (proposed p) := rfl

lemma reads_listing (p : Project) (symbols : List String) : Reads (listing p symbols) :=
  (reads_mapM (fun s => (reads_routineDoc p s).bind fun _ => reads_pure _) symbols).bind
    fun _ => reads_pure _

lemma proposed_run (p : Project) (w : World) :
    ∃ r w', (proposed p).run.run w = (r, w') ∧ Talk.Noted w.folder w'.folder ∧
      w'.replies <:+ w.replies ∧ ∀ ds, r = .ok ds →
        w.prompts.length < w'.prompts.length ∧ ∀ d ∈ ds, ReadFrom w.replies d := by
  rw [proposed, run_bind, Run.run_ofExcept]
  cases visible p with
  | error e => exact ⟨_, w, rfl, Or.inl rfl, suffix_rfl, by simp⟩
  | ok symbols =>
    obtain ⟨text, htext⟩ := reads_listing p symbols w
    simp only [run_bind, htext]
    cases text with
    | error e => exact ⟨_, w, rfl, Or.inl rfl, suffix_rfl, by simp⟩
    | ok text =>
      obtain ⟨answer, w', used, hask, hasked, hused, hanswer, -⟩ :=
        askUser_run (Prompt.modules text) w
      have hsends := askUser_sends (Prompt.modules text) w
      have hsuffix : w'.replies <:+ w.replies := ⟨used, hused.symm⟩
      rw [hask] at hsends
      simp only [hask]
      cases answer with
      | error e => exact ⟨_, w', rfl, hasked.noted, hsuffix, by simp⟩
      | ok answer =>
        simp only [Run.run_ofExcept]
        cases hdocs : (Document.ofText answer : Except Fault (List ModuleDoc)) with
        | error e => exact ⟨_, w', rfl, hasked.noted, hsuffix, by simp⟩
        | ok docs =>
          refine ⟨_, w', rfl, hasked.noted, hsuffix, fun ds hds => ⟨hsends, fun d hd => ?_⟩⟩
          obtain rfl := Except.ok.inj hds
          obtain ⟨reply, hmem, hreply⟩ := hanswer answer rfl
          -- modules that are dropped do not matter
          have hin : d ∈ docs := (mem_filter.mp hd).1
          obtain ⟨chapter, hchapter, hread⟩ := Document.exists_chapter_of_mem hdocs hin
          refine ⟨reply, by rw [hused]; exact mem_append_left _ hmem, answer, hreply,
            chapter, Chapter.return_mem_of_split hchapter, hread⟩

lemma loadOr_ok {file : String} {make : Run (List ModuleDoc)} {ds : List ModuleDoc}
    {w w' : World} (h : (loadOr file make).run.run w = (.ok ds, w')) :
    (ds ≠ [] ∧ ((loadAll ModuleDoc file).run.run w.folder).1 = .ok ds ∧ w' = w) ∨
      (((loadAll ModuleDoc file).run.run w.folder).1 = .ok [] ∧
        ∃ w₁, make.run.run w = (.ok ds, w₁) ∧
          (ds.forM (Store.save file)).run.run w₁.folder = (.ok (), w'.folder) ∧
          w' = { w₁ with folder := w'.folder }) := by
  obtain ⟨found, hload⟩ := loadAll_folder ModuleDoc file w.folder
  rw [loadOr, run_bind, run_inFolder, hload] at h
  rw [hload]
  cases found with
  | error e => cases h
  | ok found =>
    cases found with
    | cons d found =>
      obtain ⟨hds, hw⟩ := Prod.mk.inj h
      obtain rfl := Except.ok.inj hds
      exact Or.inl ⟨cons_ne_nil d found, rfl, hw.symm⟩
    | nil =>
      right
      refine ⟨rfl, ?_⟩
      simp only [run_bind] at h
      rcases hmake : make.run.run w with ⟨made, w₁⟩
      simp only [hmake] at h
      cases made with
      | error e => cases h
      | ok docs =>
        simp only [run_inFolder] at h
        rcases hsave : (docs.forM (Store.save file)).run.run w₁.folder with ⟨saved, f⟩
        simp only [hsave] at h
        cases saved with
        | error e => cases h
        | ok u =>
          obtain ⟨hds, rfl⟩ := Prod.mk.inj h
          obtain rfl := Except.ok.inj hds
          exact ⟨w₁, rfl, hsave, rfl⟩

/-! ## The two files -/

lemma isPlain_drafts : IsPlain draftsName :=
  ⟨isFile_draftsName, by decide⟩

lemma isPlain_modules : IsPlain Slot.modules.name :=
  ⟨Slot.isFile trivial, by decide⟩

structure Stands (p : Project) (s t : Option String) (f : Folder) : Prop where
  drafts : Lies p.docs draftsName s f
  modules : Lies p.docs Slot.modules.name t f

section Stands

variable {p : Project} {s t : Option String} {f f' : Folder} {w w' : World}

lemma Stands.of_noted (h : Stands p s t f) (hnoted : Talk.Noted f f') : Stands p s t f' :=
  ⟨h.drafts.of_noted isPlain_drafts.file hnoted, h.modules.of_noted isPlain_modules.file hnoted⟩

lemma Stands.saveDrafts (h : Stands p s t f) {ds : List ModuleDoc}
    (hrun : (ds.forM (Store.save (modulesDraftFile p))).run.run f = (.ok (), f')) :
    Stands p (extended s ds) t f' ∧ (ds ≠ [] → Reaches p.docs draftsName f') := by
  obtain ⟨hlies, hreaches, hchanged⟩ := h.drafts.saveAll isPlain_drafts hrun
  refine ⟨⟨hlies, h.modules.of_changed hchanged ?_ ?_⟩, hreaches⟩
  · exact not_prefix_placeOf isPlain_modules.file isPlain_drafts.file (by decide) p.docs
  · exact not_prefix_placeOf isPlain_drafts.file isPlain_modules.file (by decide) p.docs

lemma Stands.saveModule (h : Stands p s t f) {d : ModuleDoc}
    (hrun : (p.saveModule d).run.run f = (.ok (), f')) :
    Stands p s (extended t [d]) f' ∧ Reaches p.docs Slot.modules.name f' := by
  obtain ⟨hlies, hreaches, hchanged⟩ := h.modules.save isPlain_modules hrun
  refine ⟨⟨h.drafts.of_changed hchanged ?_ ?_, hlies⟩, hreaches⟩
  · exact not_prefix_placeOf isPlain_drafts.file isPlain_modules.file (by decide) p.docs
  · exact not_prefix_placeOf isPlain_modules.file isPlain_drafts.file (by decide) p.docs

lemma Stands.enhance (h : Stands p s t w.folder) {m : ModuleDoc}
    (hrun : (enhanceModule p m).run.run w = (.ok (), w')) :
    ∃ d, Given p (m, w) d ∧ ReadFrom w.replies d ∧ w'.replies <:+ w.replies ∧
      Stands p s (extended t [d]) w'.folder ∧ Reaches p.docs Slot.modules.name w'.folder := by
  obtain ⟨answer, w₁, himproved, hnoted, hsuffix, hread⟩ := improved_run p m w
  rw [enhanceModule_eq, run_bind, himproved] at hrun
  cases answer with
  | error e => cases hrun
  | ok d =>
    obtain ⟨reply, hmem, text, hanswer, hd⟩ := hread d rfl
    simp only [run_inFolder] at hrun
    rcases hsave : (p.saveModule d).run.run w₁.folder with ⟨saved, f⟩
    rw [hsave] at hrun
    obtain ⟨rfl, rfl⟩ := Prod.mk.inj hrun
    exact ⟨d, congrArg Prod.fst himproved, ⟨reply, hmem, text, hanswer, text, id, hd⟩, hsuffix,
      (h.of_noted hnoted).saveModule hsave⟩

lemma Stands.collect {order : List ModuleDoc} {us : List Unit} (h : Stands p s t w.folder)
    (hrun : (collect (enhanceModule p) order).run.run w = (.ok us, w')) :
    ∃ given, List.Forall₂ (Given p) (starts p order w) given ∧
      (∀ d ∈ given, ReadFrom w.replies d) ∧ Stands p s (extended t given) w'.folder ∧
      (given ≠ [] → Reaches p.docs Slot.modules.name w'.folder) := by
  -- the text of the file grows with each task, so it is not fixed
  induction order generalizing t w us with
  | nil =>
    obtain ⟨-, rfl⟩ := Prod.mk.inj hrun
    exact ⟨[], .nil, by simp, h, by simp⟩
  | cons m order ih =>
    rw [collect_cons] at hrun
    rcases hfirst : (enhanceModule p m).run.run w with ⟨r₁, w₁⟩
    rcases hrest : (Generate.collect (enhanceModule p) order).run.run w₁ with ⟨r₂, w₂⟩
    simp only [hfirst, hrest] at hrun
    obtain ⟨hok, rfl⟩ := Prod.mk.inj hrun
    cases r₁ with
    | error e => cases hok
    | ok u =>
      cases r₂ with
      | error e => cases hok
      | ok us₂ =>
        obtain ⟨d, hd, hread, hsuffix, hstands, hreaches⟩ := h.enhance hfirst
        obtain ⟨given, hgiven, hreads, hstands', -⟩ := ih hstands hrest
        refine ⟨d :: given, ?_, ?_, hstands', fun _ => ?_⟩
        · rw [starts, hfirst]
          exact .cons hd hgiven
        · rw [forall_mem_cons]
          exact ⟨hread, fun e he => (hreads e he).mono hsuffix⟩
        · exact hstands'.modules.opened.reaches isPlain_modules hreaches

end Stands

/-! ## A second run -/

/-- A run goes well, sends no conversation and changes no file. -/
def Idle (p : Project) (w : World) : Prop :=
  ((documentModules p).run.run w).1 = .ok () ∧
    ((documentModules p).run.run w).2.prompts = w.prompts ∧
    ((documentModules p).run.run w).2.folder = w.folder

/-- The drafts that a run made unless it found some, and the documents on them unless it found some
of these; `s` and `t` are the texts that the files had before. -/
structure Wrote (p : Project) (s t : Option String) (w w' : World)
    (drafts made given : List ModuleDoc) : Prop where
  drafting : ((draftModules p).run.run w).1 = .ok drafts
  making : (((loadAll ModuleDoc (modulesDraftFile p)).run.run w.folder).1 = .ok drafts ∧
      drafts ≠ [] ∧ made = []) ∨
    (((loadAll ModuleDoc (modulesDraftFile p)).run.run w.folder).1 = .ok [] ∧ made = drafts)
  giving : (∃ d ds, (p.loadModules.run.run w.folder).1 = .ok (d :: ds) ∧ given = []) ∨
    ((p.loadModules.run.run w.folder).1 = .ok [] ∧
      List.Forall₂ (Given p) (starts p drafts ((draftModules p).run.run w).2) given)
  files : Stands p (extended s made) (extended t given) w'.folder
  reading : ∀ d ∈ made ++ given, ReadFrom w.replies d

section Runs

variable {p : Project} {s t : Option String} {symbol : String} {symbols : List String}
  {w w' : World}

lemma documentModules_eq (hvisible : visible p = .ok (symbol :: symbols)) (w : World) :
    (documentModules p).run.run w
      = (draftModules p >>= enhanceModules p).run.run w := by
  rw [documentModules, run_bind, hvisible]
  rfl

lemma not_idle_of_nil (hvisible : visible p = .ok (symbol :: symbols))
    (hload : ((loadAll ModuleDoc (modulesDraftFile p)).run.run w.folder).1 = .ok []) :
    ¬ Idle p w := by
  rintro ⟨hok, hprompts, -⟩
  rw [documentModules_eq hvisible, run_bind] at hok hprompts
  rcases hdrafts : (draftModules p).run.run w with ⟨r, w₁⟩
  rw [hdrafts] at hok hprompts
  cases r with
  | error e => cases hok
  | ok drafts =>
    rw [draftModules_eq] at hdrafts
    rcases loadOr_ok hdrafts with ⟨hne, hfound, -⟩ | ⟨-, w₀, hmade, -, hsaved⟩
    · rw [hload] at hfound
      exact hne (Except.ok.inj hfound).symm
    · obtain ⟨r, w₀', hproposed, -, -, hall⟩ := proposed_run p w
      rw [hmade] at hproposed
      obtain ⟨rfl, rfl⟩ := Prod.mk.inj hproposed
      -- drafts were asked for, and nothing after that takes a conversation back
      have hmore := (hall drafts rfl).1
      have hstill := talked_enhanceModules p drafts w₁
      have hsame : w₁.prompts = w₀.prompts := by rw [hsaved]
      rw [Talked, hsame] at hstill
      have hlength := congrArg List.length hprompts
      simp only at hlength
      omega

lemma idle_iff_found (hvisible : visible p = .ok (symbol :: symbols))
    (hmodules : Found p.docs draftsName w.folder → (p.loadModules.run.run w.folder).1 ≠ .ok []) :
    Idle p w ↔ Found p.docs draftsName w.folder ∧ Found p.docs Slot.modules.name w.folder := by
  obtain ⟨r, hdrafts⟩ := loadAll_folder ModuleDoc (modulesDraftFile p) w.folder
  obtain ⟨q, hload⟩ := loadAll_folder ModuleDoc p.modulesFile w.folder
  have hfound : ∀ d ds, r = .ok (d :: ds) →
      (documentModules p).run.run w = (enhanceModules p (d :: ds)).run.run w := by
    rintro d ds rfl
    rw [documentModules_eq hvisible, run_bind, draftModules_eq, loadOr, run_bind, run_inFolder,
      hdrafts]
    rfl
  constructor
  · intro hidle
    cases r with
    | error e =>
      have hok := hidle.1
      rw [documentModules_eq hvisible, run_bind, draftModules_eq, loadOr, run_bind, run_inFolder,
        hdrafts] at hok
      cases hok
    | ok drafts =>
      cases drafts with
      | nil => exact absurd hidle (not_idle_of_nil hvisible (congrArg Prod.fst hdrafts))
      | cons d ds =>
        have hthere : Found p.docs draftsName w.folder := ⟨d, ds, congrArg Prod.fst hdrafts⟩
        have hsome := hmodules hthere
        have hok := hidle.1
        rw [hfound d ds rfl, enhanceModules, run_bind, run_inFolder, loadModules, hload] at hok
        rw [loadModules, hload] at hsome
        cases q with
        | error e => cases hok
        | ok found =>
          cases found with
          | nil => exact absurd rfl hsome
          | cons e es => exact ⟨hthere, e, es, congrArg Prod.fst hload⟩
  · rintro ⟨⟨d, ds, hd⟩, e, es, he⟩
    have hr : r = .ok (d :: ds) := (congrArg Prod.fst hdrafts).symm.trans hd
    have hq : q = .ok (e :: es) := (congrArg Prod.fst hload).symm.trans he
    have hrun : (documentModules p).run.run w = (.ok (), w) := by
      rw [hfound d ds hr, enhanceModules, run_bind, run_inFolder, loadModules, hload, hq]
      rfl
    rw [Idle, hrun]
    exact ⟨rfl, rfl, rfl⟩

lemma Stands.draft (h : Stands p s t w.folder) {drafts : List ModuleDoc}
    (hrun : (draftModules p).run.run w = (.ok drafts, w')) :
    ∃ made, ((((loadAll ModuleDoc (modulesDraftFile p)).run.run w.folder).1 = .ok drafts ∧
          drafts ≠ [] ∧ made = []) ∨
        (((loadAll ModuleDoc (modulesDraftFile p)).run.run w.folder).1 = .ok [] ∧
          made = drafts)) ∧
      Stands p (extended s made) t w'.folder ∧
      (made ≠ [] → Reaches p.docs draftsName w'.folder) ∧ w'.replies <:+ w.replies ∧
      ∀ d ∈ made, ReadFrom w.replies d := by
  rw [draftModules_eq] at hrun
  rcases loadOr_ok hrun with ⟨hne, hfound, rfl⟩ | ⟨hnone, w₁, hmake, hsave, hw'⟩
  · exact ⟨[], Or.inl ⟨hfound, hne, rfl⟩, h, by simp, suffix_rfl, by simp⟩
  · obtain ⟨r, w₂, hproposed, hnoted, hsuffix, hall⟩ := proposed_run p w
    rw [hmake] at hproposed
    obtain ⟨rfl, rfl⟩ := Prod.mk.inj hproposed
    obtain ⟨hstands, hreaches⟩ := (h.of_noted hnoted).saveDrafts hsave
    have hreplies : w'.replies = w₁.replies := by rw [hw']
    refine ⟨drafts, Or.inr ⟨hnone, rfl⟩, hstands, hreaches, ?_, (hall drafts rfl).2⟩
    rw [hreplies]
    exact hsuffix

lemma Stands.enhanceAll (h : Stands p s t w.folder) {drafts : List ModuleDoc}
    (hrun : (enhanceModules p drafts).run.run w = (.ok (), w')) :
    ∃ given, ((∃ d ds, (p.loadModules.run.run w.folder).1 = .ok (d :: ds) ∧ given = []) ∨
        ((p.loadModules.run.run w.folder).1 = .ok [] ∧
          List.Forall₂ (Given p) (starts p drafts w) given)) ∧
      Stands p s (extended t given) w'.folder ∧
      (given ≠ [] → Reaches p.docs Slot.modules.name w'.folder) ∧
      ∀ d ∈ given, ReadFrom w.replies d := by
  obtain ⟨q, hload⟩ := loadAll_folder ModuleDoc p.modulesFile w.folder
  rw [enhanceModules, run_bind, run_inFolder, loadModules, hload] at hrun
  cases q with
  | error e => cases hrun
  | ok found =>
    cases found with
    | cons d ds =>
      obtain ⟨-, rfl⟩ := Prod.mk.inj hrun
      exact ⟨[], Or.inl ⟨d, ds, congrArg Prod.fst hload, rfl⟩, h, by simp, by simp⟩
    | nil =>
      simp only [isEmpty_nil, if_true, run_bind] at hrun
      rcases hcollect : (Generate.collect (enhanceModule p) drafts).run.run w with ⟨us, w₁⟩
      simp only [hcollect] at hrun
      cases us with
      | error e => cases hrun
      | ok us =>
        obtain ⟨-, rfl⟩ := Prod.mk.inj hrun
        obtain ⟨given, hgiven, hread, hstands, hreaches⟩ := h.collect hcollect
        exact ⟨given, Or.inr ⟨congrArg Prod.fst hload, hgiven⟩, hstands, hreaches, hread⟩

lemma exists_wrote (hvisible : visible p = .ok (symbol :: symbols))
    (h : Stands p s t w.folder) (hrun : (documentModules p).run.run w = (.ok (), w')) :
    ∃ drafts made given, Wrote p s t w w' drafts made given ∧
      (made ≠ [] → Reaches p.docs draftsName w'.folder) ∧
      (given ≠ [] → Reaches p.docs Slot.modules.name w'.folder) := by
  rw [documentModules_eq hvisible, run_bind] at hrun
  rcases hdrafts : (draftModules p).run.run w with ⟨r, w₁⟩
  rw [hdrafts] at hrun
  cases r with
  | error e => cases hrun
  | ok drafts =>
    obtain ⟨made, hmaking, hstands, hreaches, hsuffix, hread⟩ := h.draft hdrafts
    obtain ⟨given, hgiving, hstands', hreaches', hread'⟩ := hstands.enhanceAll hrun
    refine ⟨drafts, made, given, ⟨?_, hmaking, ?_, hstands', ?_⟩, fun hmade => ?_, hreaches'⟩
    · rw [hdrafts]
    · -- modules are looked for later, but drafts are not written among them
      have hsame := h.modules.load_eq hstands.modules isPlain_modules ModuleDoc
      rw [hdrafts]
      rcases hgiving with ⟨d, ds, hfound, hnone⟩ | ⟨hnone, hgiven⟩
      · exact Or.inl ⟨d, ds, hsame.symm.trans hfound, hnone⟩
      · exact Or.inr ⟨hsame.symm.trans hnone, hgiven⟩
    · rw [forall_mem_append]
      exact ⟨hread, fun d hd => (hread' d hd).mono hsuffix⟩
    · exact hstands'.drafts.opened.reaches isPlain_drafts (hreaches hmade)

lemma Wrote.exists_drafts {drafts made given : List ModuleDoc}
    (h : Wrote p s t w w' drafts made given) :
    ∃ old, ((loadAll ModuleDoc (modulesDraftFile p)).run.run w.folder).1 = .ok old ∧
      (old ≠ [] → made = []) ∧ (old ≠ [] ∨ made ≠ [] ↔ drafts ≠ []) := by
  rcases h.making with ⟨hload, -, rfl⟩ | ⟨hload, rfl⟩
  · exact ⟨drafts, hload, fun _ => rfl, by simp⟩
  · exact ⟨[], hload, by simp, by simp⟩

lemma Wrote.exists_modules {drafts made given : List ModuleDoc}
    (h : Wrote p s t w w' drafts made given) :
    ∃ old, (p.loadModules.run.run w.folder).1 = .ok old ∧ (old ≠ [] → given = []) ∧
      (drafts ≠ [] → old ≠ [] ∨ given ≠ []) := by
  rcases h.giving with ⟨d, ds, hload, rfl⟩ | ⟨hload, hgiven⟩
  · exact ⟨d :: ds, hload, fun _ => rfl, fun _ => Or.inl (cons_ne_nil d ds)⟩
  · refine ⟨[], hload, by simp, fun hdrafts => Or.inr ?_⟩
    -- each draft has its document
    rintro rfl
    have hlength := hgiven.length_eq
    rw [length_starts] at hlength
    exact hdrafts (length_eq_zero_iff.mp hlength)

/-- **A second run has nothing to do exactly if there are drafts and all that was written can be
read again.** If no reply has a carriage return, a document can be read again just when it names a
function and no line of its texts is like a title. -/
theorem modules_idle_iff (hvisible : visible p = .ok (symbol :: symbols))
    (h : Stands p s t w.folder) (hrun : (documentModules p).run.run w = (.ok (), w')) :
    ∃ drafts made given, Wrote p s t w w' drafts made given ∧
      (∀ again : World, again.folder = w'.folder →
        (Idle p again ↔ drafts ≠ [] ∧ ∀ d ∈ made ++ given, Document.Reopens d)) ∧
      ((∀ reply ∈ w.replies, ∀ text ∈ Talk.answer? reply, '\r' ∉ text.toList) →
        ∀ d ∈ made ++ given, (Document.Reopens d ↔ d.functions ≠ some [] ∧
          Chapter.Inner d.description.toList ∧ ∀ u ∈ d.usage, Chapter.Inner u.toList)) := by
  obtain ⟨drafts, made, given, hwrote, hreaches, hreaches'⟩ := exists_wrote hvisible h hrun
  refine ⟨drafts, made, given, hwrote, fun again hagain => ?_, fun hreturn d hd => ?_⟩
  · obtain ⟨old, hload, hnew, hdrafts⟩ := hwrote.exists_drafts
    obtain ⟨old', hload', hnew', hmodules⟩ := hwrote.exists_modules
    have hfiles := hwrote.files
    rw [← hagain] at hfiles hreaches hreaches'
    obtain ⟨hfound, -⟩ := h.drafts.reload isPlain_drafts hfiles.drafts hreaches hload hnew
    obtain ⟨hfound', hsome⟩ :=
      h.modules.reload isPlain_modules hfiles.modules hreaches' hload' hnew'
    rw [hdrafts] at hfound
    rw [idle_iff_found hvisible fun hthere => hsome (hmodules (hfound.mp hthere).1), hfound,
      hfound', List.forall_mem_append]
    constructor
    · rintro ⟨⟨hne, hmade⟩, -, hgiven⟩
      exact ⟨hne, hmade, hgiven⟩
    · rintro ⟨hne, hmade, hgiven⟩
      exact ⟨⟨hne, hmade⟩, hmodules hne, hgiven⟩
  · obtain ⟨reply, hreply, text, htext, chapter, hchars, hread⟩ := hwrote.reading d hd
    exact Document.reopens_iff (fun hin => hreturn reply hreply text htext (hchars hin)) hread

end Runs

/-! ## A gallery that is documented twice -/

def moduleA : ModuleDoc := { draftOf "A" with description := "y" }

def fineWorld : World := { folder := described, replies := [replyOn "A", replyOn "A"] }

lemma stands_described : Stands gallery none none described := by
  obtain ⟨start, hkeeps, hdrafts, hmodules⟩ := exists_keeps_described
  have hkept := hkeeps.kept draftsName isFile_draftsName
  have hkept' := hkeeps.kept Slot.modules.name isPlain_modules.file
  rw [hdrafts] at hkept
  rw [hmodules] at hkept'
  exact ⟨⟨hkeeps.reached, hkept⟩, hkeeps.reached, hkept'⟩

lemma fineWorld_values : ((documentModules gallery).run.run fineWorld).1 = .ok () ∧
    ((draftModules gallery).run.run fineWorld).1 = .ok [moduleA] ∧
    ((loadAll ModuleDoc (modulesDraftFile gallery)).run.run fineWorld.folder).1 = .ok [] ∧
    (gallery.loadModules.run.run fineWorld.folder).1 = .ok [] ∧
    ((improved gallery moduleA).run.run ((draftModules gallery).run.run fineWorld).2).1
      = .ok moduleA := by
  decide +kernel

theorem modules_idle_gallery : visible gallery = .ok ["f"] ∧
    ((documentModules gallery).run.run fineWorld).1 = .ok () ∧
    ∀ again : World, again.folder = ((documentModules gallery).run.run fineWorld).2.folder →
      Idle gallery again := by
  have hvisible : visible gallery = .ok ["f"] := by decide
  obtain ⟨hok, hdrafts, hnone, hnone', himproved⟩ := fineWorld_values
  have hstands : Stands gallery none none fineWorld.folder := by
    rw [fineWorld]
    exact stands_described
  obtain ⟨drafts, made, given, hwrote, hidle, hreopens⟩ :=
    modules_idle_iff hvisible hstands (run_eq_pair hok)
  obtain rfl : [moduleA] = drafts := Except.ok.inj (hdrafts.symm.trans hwrote.drafting)
  obtain rfl : made = [moduleA] := by
    rcases hwrote.making with ⟨hload, -⟩ | ⟨-, hmade⟩
    · rw [hnone] at hload
      cases hload
    · exact hmade
  obtain rfl : given = [moduleA] := by
    rcases hwrote.giving with ⟨d, ds, hload, -⟩ | ⟨-, hgiven⟩
    · rw [hnone'] at hload
      cases hload
    · rw [starts, starts] at hgiven
      cases hgiven with
      | cons hd hrest =>
        cases hrest
        dsimp only [Given] at hd
        rw [himproved] at hd
        rw [Except.ok.inj hd]
  refine ⟨hvisible, hok, fun again hagain => (hidle again hagain).mpr ⟨by simp, fun d hd => ?_⟩⟩
  have hreturn : ∀ reply ∈ fineWorld.replies, ∀ text ∈ Talk.answer? reply,
      '\r' ∉ text.toList := by
    decide +kernel
  rw [hreopens hreturn d hd]
  obtain rfl : d = moduleA := by simpa using hd
  exact ⟨by simp [moduleA, draftOf], by decide, by simp [moduleA, draftOf]⟩

def bareWorld : World where
  folder := described
  replies := [replyOn "A", .text "### A\n#### Description\ny\n#### Functions\n"]

/-- The document is written without its list, and a second run cannot read it. -/
theorem gallery_second_run_fails : visible gallery = .ok ["f"] ∧
    ((routineDoc gallery "f").run.run bareWorld).1 = .ok { name := "f", description := "x" } ∧
    ((documentModules gallery).run.run bareWorld).1 = .ok () ∧
    ((documentModules gallery).run.run
      { folder := ((documentModules gallery).run.run bareWorld).2.folder }).1
        = .error (.noSection "Functions") := by
  decide +kernel

end Generate

end Docsmith

