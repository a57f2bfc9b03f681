import Docsmith.Generate.Modules
import Docsmith.Proofs.Asking
import Docsmith.Proofs.Storage

/-! # Improving modules again and again

Every module that was drafted is improved by a task of its own. A run that finds documents does
nothing, so after any number of runs there is a document for each draft just when none of them broke
off half way (`modules_complete_iff`). -/

namespace Docsmith.Generate

open Project Store List

/-! ## Steps that only read -/

def Reads {α : Type} (x : Run α) : Prop :=
  ∀ w, ∃ r, x.run.run w = (r, w)

section Reads

variable {α β : Type}

lemma reads_pure (a : α) : Reads (pure a) :=
  fun _ => ⟨.ok a, rfl⟩

lemma reads_ofExcept (x : Except Fault α) : Reads (Run.ofExcept x) :=
  fun w => ⟨x, Run.run_ofExcept x w⟩

lemma Reads.bind {x : Run α} {k : α → Run β} (hx : Reads x) (hk : ∀ a, Reads (k a)) :
    Reads (x >>= k) := by
  intro w
  obtain ⟨r, hr⟩ := hx w
  rw [run_bind, hr]
  cases r with
  | error e => exact ⟨.error e, rfl⟩
  | ok a => exact hk a w

lemma reads_filterMapM {f : α → Run (Option β)} (hf : ∀ a, Reads (f a)) (xs : List α) :
    Reads (xs.filterMapM f) := by
  induction xs with
  | nil => exact reads_pure []
  | cons a xs ih =>
    rw [filterMapM_cons]
    refine (hf a).bind fun o => ?_
    cases o with
    | none => exact ih
    | some b => exact ih.bind fun bs => reads_pure (b :: bs)

lemma reads_mapM {work : α → Run β} (hwork : ∀ a, Reads (work a)) (xs : List α) :
    Reads (xs.mapM work) := by
  induction xs with
  | nil => exact reads_pure []
  | cons a xs ih =>
    rw [mapM_cons]
    exact (hwork a).bind fun b => ih.bind fun bs => reads_pure (b :: bs)

end Reads

lemma reads_routineDoc (p : Project) (s : String) : Reads (routineDoc p s) := by
  have hload : Reads (inFolder (p.loadRoutine? s)) := by
    intro w
    rw [run_inFolder, loadRoutine?, run_bind, Files.run_ask]
    cases p.routineFile s with
    | error e => exact ⟨.error e, rfl⟩
    | ok file =>
      obtain ⟨o, ho⟩ := load?_folder RoutineDoc s file w.folder
      simp only [ho]
      exact ⟨o, rfl⟩
  refine hload.bind fun o => ?_
  cases o with
  | none => exact fun _ => ⟨_, rfl⟩
  | some d => exact reads_pure d

lemma reads_moduleRoutines (p : Project) (m : ModuleDoc) : Reads (moduleRoutines p m) := by
  refine reads_filterMapM (fun s => ?_) _
  cases p.routines.get s with
  | error e => exact reads_pure none
  | ok r => exact (reads_routineDoc p s).bind fun d => reads_pure (some d.markdown)

/-! ## One module -/

def modulePrompt (p : Project) (m : ModuleDoc) : Run String := do
  let routines ← Run.ofExcept <|
    Prompt.quote Prompt.mark (Text.join Prompt.rule (← moduleRoutines p m))
  let own ← Run.ofExcept do Prompt.quote Prompt.mark (← Document.markdown m)
  let fence ← Run.ofExcept p.fence
  return Prompt.enhanceModule fence own routines

def improved (p : Project) (m : ModuleDoc) : Run ModuleDoc := do
  let reply ← askUser (← modulePrompt p m) id
  Run.ofExcept (Document.ofChapter reply)

lemma enhanceModule_eq (p : Project) (m : ModuleDoc) : enhanceModule p m = (do
    let doc ← improved p m
    inFolder (p.saveModule doc)) := by
  simp only [enhanceModule, improved, modulePrompt, bind_assoc, pure_bind]

lemma reads_modulePrompt (p : Project) (m : ModuleDoc) : Reads (modulePrompt p m) :=
  (reads_moduleRoutines p m).bind fun _ => (reads_ofExcept _).bind fun _ =>
    (reads_ofExcept _).bind fun _ => (reads_ofExcept _).bind fun _ => reads_pure _

lemma improved_run (p : Project) (m : ModuleDoc) (w : World) :
    ∃ r w', (improved p m).run.run w = (r, w') ∧ Talk.Noted w.folder w'.folder ∧
      w'.replies <:+ w.replies ∧ ∀ d, r = .ok d →
        ∃ reply ∈ w.replies, ∃ text, Talk.answer? reply = some text ∧
          Document.ofChapter text = .ok d := by
  obtain ⟨prompt, hprompt⟩ := reads_modulePrompt p m w
  rw [improved, run_bind, hprompt]
  cases prompt with
  | error e => exact ⟨_, w, rfl, Or.inl rfl, suffix_rfl, by simp⟩
  | ok prompt =>
    obtain ⟨answer, w', used, hask, hasked, hused, hanswer, -⟩ := askUser_run prompt w
    have hsuffix : w'.replies <:+ w.replies := ⟨used, hused.symm⟩
    simp only [run_bind, hask, Run.run_ofExcept]
    cases answer with
    | error e => exact ⟨_, w', rfl, hasked.noted, hsuffix, by simp⟩
    | ok text =>
      refine ⟨_, w', rfl, hasked.noted, hsuffix, fun d hd => ?_⟩
      obtain ⟨reply, hmem, hreply⟩ := hanswer text rfl
      rw [hused]
      exact ⟨reply, mem_append_left _ hmem, text, hreply, hd⟩

/-! ## The file for modules -/

def draftsName : String := "modules.v1_draft.md"

lemma isFile_draftsName : IsFile draftsName :=
  isFile_of_name (by decide) (by decide) (by decide) (by decide)

/-- The file for modules holds documents, and all other files are as they were at the start. -/
def Holding (p : Project) (start : String → Option String) (f : Folder) (ds : List ModuleDoc) :
    Prop :=
  ∃ t, Keeps p.docs f (Function.update start Slot.modules.name t) ∧
    Document.Holds (t.getD "") ds

section Holding

variable {p : Project} {start : String → Option String} {f : Folder} {w : World}
  {ds : List ModuleDoc}

lemma holding_nil (hkeeps : Keeps p.docs f start) (hnew : start Slot.modules.name = none) :
    Holding p start f [] := by
  refine ⟨none, ?_, Document.holds_nil⟩
  rwa [← hnew, Function.update_eq_self]

lemma Holding.of_noted (h : Holding p start f ds) {f' : Folder} (hnoted : Talk.Noted f f') :
    Holding p start f' ds := by
  obtain ⟨t, hkeeps, hholds⟩ := h
  exact ⟨t, hnoted.keeps hkeeps, hholds⟩

lemma Holding.load (h : Holding p start f ds) : p.loadModules.run.run f = (.ok ds, f) := by
  obtain ⟨t, hkeeps, hholds⟩ := h
  refine loadAll_run hkeeps (Slot.isFile (σ := .modules) trivial) ?_
  rw [Function.update_self]
  exact hholds

lemma Holding.drafts (h : Holding p start f ds) :
    (loadAll ModuleDoc (modulesDraftFile p)).run.run f
      = (docsIn ModuleDoc (start draftsName), f) := by
  obtain ⟨t, hkeeps, -⟩ := h
  have hother : draftsName ≠ Slot.modules.name := by decide
  have hload := loadAll_eq (δ := ModuleDoc) hkeeps isFile_draftsName
  rw [Function.update_of_ne hother] at hload
  exact hload

lemma Holding.save (h : Holding p start f ds) {d : ModuleDoc} (hd : d.Clean) :
    ∃ r f', (p.saveModule d).run.run f = (r, f') ∧
      ((r = .ok () ∧ Holding p start f' (ds ++ [d])) ∨ (r ≠ .ok () ∧ Holding p start f' ds)) := by
  obtain ⟨t, hkeeps, hholds⟩ := h
  obtain ⟨u, hu⟩ := hd.legible
  obtain ⟨r, f', t', hrun, hkeeps', hadded, hsame, -⟩ :=
    save_run hkeeps (Slot.isFile (σ := .modules) trivial) hu.written
  rw [Function.update_idem] at hkeeps'
  rw [Function.update_self] at hadded hsame
  refine ⟨r, f', hrun, ?_⟩
  by_cases hr : r = .ok ()
  · refine Or.inl ⟨hr, t', hkeeps', ?_⟩
    rw [hadded hr]
    exact hholds.append (Document.holds_single hu)
  · refine Or.inr ⟨hr, t', hkeeps', ?_⟩
    rw [hsame hr]
    exact hholds

end Holding

/-! ## All modules -/

abbrev Note := ModuleDoc × World

def starts (p : Project) : List ModuleDoc → World → List Note
  | [], _ => []
  | m :: ms, w => (m, w) :: starts p ms ((enhanceModule p m).run.run w).2

def Given (p : Project) (note : Note) (d : ModuleDoc) : Prop :=
  ((improved p note.1).run.run note.2).1 = .ok d

/-- Whatever document is read from a reply can be read again. -/
def Tidy (replies : List Reply) : Prop :=
  ∀ reply ∈ replies, ∀ text ∈ Talk.answer? reply, ∀ d : ModuleDoc,
    Document.ofChapter text = .ok d → d.Clean

lemma map_fst_starts (p : Project) (order : List ModuleDoc) (w : World) :
    (starts p order w).map Prod.fst = order := by
  induction order generalizing w with
  | nil => rfl
  | cons m order ih => rw [starts, map_cons, ih]

lemma length_starts (p : Project) (order : List ModuleDoc) (w : World) :
    (starts p order w).length = order.length := by
  rw [← length_map, map_fst_starts]

section Tasks

variable {p : Project} {start : String → Option String} {w : World} {ds : List ModuleDoc}

lemma Holding.enhance (h : Holding p start w.folder ds) (htidy : Tidy w.replies) (m : ModuleDoc) :
    ∃ r w', (enhanceModule p m).run.run w = (r, w') ∧ w'.replies <:+ w.replies ∧
      ((r = .ok () ∧ ∃ d, Given p (m, w) d ∧ Holding p start w'.folder (ds ++ [d])) ∨
        (r ≠ .ok () ∧ Holding p start w'.folder ds)) := by
  obtain ⟨answer, w', himproved, hnoted, hsuffix, hread⟩ := improved_run p m w
  have hkept := h.of_noted hnoted
  rw [enhanceModule_eq, run_bind, himproved]
  cases answer with
  | error e => exact ⟨_, w', rfl, hsuffix, Or.inr ⟨by simp, hkept⟩⟩
  | ok d =>
    obtain ⟨reply, hmem, text, hanswer, hd⟩ := hread d rfl
    obtain ⟨r, f', hsave, hresult⟩ := hkept.save (htidy reply hmem text hanswer d hd)
    simp only [run_inFolder, hsave]
    refine ⟨r, _, rfl, hsuffix, ?_⟩
    rcases hresult with ⟨hr, hmore⟩ | ⟨hr, hsame⟩
    · exact Or.inl ⟨hr, d, congrArg Prod.fst himproved, hmore⟩
    · exact Or.inr ⟨hr, hsame⟩

lemma collect_cons {α β : Type} (work : α → Run β) (a : α) (rest : List α) (w : World) :
    (collect work (a :: rest)).run.run w
      = (do
          let b ← ((work a).run.run w).1
          let bs ← ((collect work rest).run.run ((work a).run.run w).2).1
          return b :: bs,
        ((collect work rest).run.run ((work a).run.run w).2).2) := rfl

lemma Holding.collect (order : List ModuleDoc) (h : Holding p start w.folder ds)
    (htidy : Tidy w.replies) :
    ∃ r w' done new, (collect (enhanceModule p) order).run.run w = (r, w') ∧
      done.Sublist (starts p order w) ∧ List.Forall₂ (Given p) done new ∧
      Holding p start w'.folder (ds ++ new) ∧
      ((∃ us, r = .ok us) ↔ done = starts p order w) := by
  -- along the list, with what the tasks in front have added counted among `ds`
  induction order generalizing w ds with
  | nil =>
    refine ⟨.ok [], w, [], [], rfl, List.Sublist.slnil, .nil, ?_, ?_⟩
    · rwa [append_nil]
    · exact iff_of_true ⟨[], rfl⟩ rfl
  | cons m order ih =>
    obtain ⟨r₁, w₁, hfirst, hsuffix, hresult⟩ := h.enhance htidy m
    have htidy₁ : Tidy w₁.replies := fun reply hreply => htidy reply (hsuffix.subset hreply)
    have hnotes : starts p (m :: order) w = (m, w) :: starts p order w₁ := by
      rw [starts, hfirst]
    rw [collect_cons, hfirst, hnotes]
    rcases hresult with ⟨rfl, d, hd, hmore⟩ | ⟨hfailed, hsame⟩
    · obtain ⟨r₂, w₂, done, new, hrest, hsub, hgiven, hholding, hall⟩ := ih hmore htidy₁
      refine ⟨_, w₂, (m, w) :: done, d :: new, by rw [hrest], hsub.cons_cons _, .cons hd hgiven, ?_, ?_⟩
      · rwa [append_assoc] at hholding
      · rw [List.cons.injEq, ← hall]
        cases r₂ with
        | error e => exact iff_of_false (by rintro ⟨us, ⟨⟩⟩) (by rintro ⟨-, us, ⟨⟩⟩)
        | ok us => exact iff_of_true ⟨_, rfl⟩ ⟨rfl, us, rfl⟩
    · obtain ⟨r₂, w₂, done, new, hrest, hsub, hgiven, hholding, -⟩ := ih hsame htidy₁
      -- the others still run, but they cannot make up for the one that failed
      refine ⟨_, w₂, done, new, by rw [hrest], hsub.cons _, hgiven, hholding, ?_⟩
      refine iff_of_false ?_ fun hdone => ?_
      · cases r₁ with
        | error e => rintro ⟨us, ⟨⟩⟩
        | ok u => exact absurd rfl hfailed
      · have := hsub.length_le
        rw [hdone, length_cons] at this
        omega

end Tasks

/-! ## One run -/

/-- Improves modules in some order if the code base has visible routines. -/
def documentInOrder (p : Project) (order : List ModuleDoc) : Run Unit := do
  if (← Run.ofExcept (visible p)).isEmpty then return
  enhanceModules p order

/-- A run: the order in which the modules come and the world it starts in. -/
structure Sitting where
  order : List ModuleDoc
  world : World

def Sitting.out (p : Project) (a : Sitting) : Except Fault Unit × World :=
  (documentInOrder p a.order).run.run a.world

def Sitting.notes (p : Project) (a : Sitting) : List Note :=
  starts p a.order a.world

variable {symbols : List String} {s : String}

section Runs

variable {p : Project} {start : String → Option String} {f : Folder} {ds drafts : List ModuleDoc}

lemma documentModules_run {w : World} (h : Holding p start w.folder ds)
    (hdrafts : docsIn ModuleDoc (start draftsName) = .ok drafts) (hne : drafts ≠ []) :
    (documentModules p).run.run w = (documentInOrder p drafts).run.run w := by
  have hload : (draftModules p).run.run w = (.ok drafts, w) := by
    rw [draftModules, loadOr, run_bind, run_inFolder, h.drafts, hdrafts]
    cases drafts with
    | nil => exact absurd rfl hne
    | cons d drafts => rfl
  simp only [documentModules, documentInOrder, run_bind, Run.run_ofExcept]
  cases visible p with
  | error e => rfl
  | ok symbols =>
    cases symbols with
    | nil => simp only [isEmpty_nil, if_true]
    | cons s symbols =>
      simp only [isEmpty_cons, Bool.false_eq_true, if_false, run_bind, hload]

variable {a : Sitting}

lemma Sitting.out_of_visible (hvisible : visible p = .ok (s :: symbols)) :
    a.out p = (enhanceModules p a.order).run.run a.world := by
  rw [out, documentInOrder, run_bind, hvisible]
  rfl

lemma Sitting.out_of_ne_nil (hvisible : visible p = .ok (s :: symbols))
    (h : Holding p start a.world.folder ds) (hds : ds ≠ []) : a.out p = (.ok (), a.world) := by
  rw [out_of_visible hvisible, enhanceModules, run_bind, run_inFolder, h.load]
  cases ds with
  | nil => exact absurd rfl hds
  | cons d ds => rfl

lemma Sitting.out_of_nil (hvisible : visible p = .ok (s :: symbols))
    (h : Holding p start a.world.folder []) (htidy : Tidy a.world.replies) :
    ∃ done new, done.Sublist (a.notes p) ∧ List.Forall₂ (Given p) done new ∧
      Holding p start (a.out p).2.folder new ∧ ((a.out p).1 = .ok () ↔ done = a.notes p) := by
  obtain ⟨r, w', done, new, hrun, hsub, hgiven, hholding, hall⟩ := h.collect a.order htidy
  have hout : a.out p = (r.map fun _ => (), w') := by
    rw [out_of_visible hvisible, enhanceModules, run_bind, run_inFolder, h.load]
    simp only [isEmpty_nil, if_true, run_bind, hrun]
    cases r with
    | error e | ok us => rfl
  rw [hout]
  refine ⟨done, new, hsub, hgiven, hholding, ?_⟩
  rw [notes, ← hall]
  cases r with
  | error e => exact iff_of_false (by rintro ⟨⟩) (by rintro ⟨us, ⟨⟩⟩)
  | ok us => exact iff_of_true rfl ⟨us, rfl⟩

end Runs

/-! ## Run after run -/

/-- Runs one after the other over the same drafts, each in any order and in any world with the
folder left before. -/
inductive Sittings (p : Project) (drafts : List ModuleDoc) (first : Folder) :
    List Sitting → Folder → Prop where
  | nothing : Sittings p drafts first [] first
  | more {past : List Sitting} {a : Sitting} : Sittings p drafts first past a.world.folder →
      a.order.Perm drafts → Tidy a.world.replies →
      Sittings p drafts first (past ++ [a]) (a.out p).2.folder

def BrokeOff (p : Project) (a : Sitting) : Prop :=
  (a.out p).1 ≠ .ok () ∧ (p.loadModules.run.run (a.out p).2.folder).1 ≠ .ok []

/-- The documents on modules are those that one run was given, one for each draft. -/
def Complete (p : Project) (drafts : List ModuleDoc) (past : List Sitting) (f : Folder) : Prop :=
  ∃ a ∈ past, a.order.Perm drafts ∧ ∃ ds, List.Forall₂ (Given p) (a.notes p) ds ∧
    p.loadModules.run.run f = (.ok ds, f)

section Sittings

variable {p : Project} {start : String → Option String} {first f : Folder}
  {drafts : List ModuleDoc} {past : List Sitting}

/-- None has added a document and all have failed, or the documents are from one run, and from all
its tasks just when no run broke off. -/
def Reached (p : Project) (drafts : List ModuleDoc) (past : List Sitting) (ds : List ModuleDoc) :
    Prop :=
  (ds = [] ∧ ∀ a ∈ past, (a.out p).1 ≠ .ok () ∧ ¬ BrokeOff p a) ∨
    (ds ≠ [] ∧ ∃ a ∈ past, a.order.Perm drafts ∧ ∃ done, done.Sublist (a.notes p) ∧
      List.Forall₂ (Given p) done ds ∧ (done = a.notes p ↔ ∀ b ∈ past, ¬ BrokeOff p b))

lemma brokeOff_iff {a : Sitting} {ds : List ModuleDoc} (h : Holding p start (a.out p).2.folder ds) :
    BrokeOff p a ↔ (a.out p).1 ≠ .ok () ∧ ds ≠ [] := by
  rw [BrokeOff, h.load, ne_eq (Except.ok ds), Except.ok.injEq]

lemma length_notes {a : Sitting} (horder : a.order.Perm drafts) :
    (a.notes p).length = drafts.length := by
  rw [Sitting.notes, length_starts, horder.length_eq]

lemma Reached.step (hvisible : visible p = .ok (s :: symbols)) (hne : drafts ≠ []) {a : Sitting}
    {ds : List ModuleDoc} (hholding : Holding p start a.world.folder ds)
    (hreached : Reached p drafts past ds) (horder : a.order.Perm drafts)
    (htidy : Tidy a.world.replies) :
    ∃ ds', Holding p start (a.out p).2.folder ds' ∧ Reached p drafts (past ++ [a]) ds' := by
  rcases hreached with ⟨rfl, hpast⟩ | ⟨hds, b, hb, hborder, done, hsub, hgiven, hall⟩
  · obtain ⟨done, new, hsub, hgiven, hmore, hall⟩ := Sitting.out_of_nil hvisible hholding htidy
    refine ⟨new, hmore, ?_⟩
    by_cases hnew : new = []
    · -- nothing was added although there are drafts, so all tasks have failed
      have hfailed : (a.out p).1 ≠ .ok () := by
        rw [ne_eq, hall]
        rintro rfl
        have hlength := hgiven.length_eq
        rw [length_notes horder, hnew] at hlength
        exact hne (length_eq_zero_iff.mp hlength)
      refine Or.inl ⟨hnew, ?_⟩
      rw [forall_mem_append]
      refine ⟨hpast, forall_mem_singleton.mpr ⟨hfailed, ?_⟩⟩
      rw [brokeOff_iff hmore]
      exact fun h => h.2 hnew
    · refine Or.inr ⟨hnew, a, by simp, horder, done, hsub, hgiven, ?_⟩
      rw [forall_mem_append, and_iff_right fun b hb => (hpast b hb).2,
        forall_mem_singleton, brokeOff_iff hmore, ← hall]
      simp [hnew]
  · -- with a document there nothing more is done, whether the documents are complete or not
    have hout := Sitting.out_of_ne_nil hvisible hholding hds
    have hfine : ¬ BrokeOff p a := fun h => h.1 (congrArg Prod.fst hout)
    refine ⟨ds, by rwa [hout], Or.inr ⟨hds, b, mem_append_left _ hb, hborder, done, hsub,
      hgiven, ?_⟩⟩
    rw [hall, forall_mem_append, forall_mem_singleton, and_iff_left hfine]

lemma Sittings.reached (hvisible : visible p = .ok (s :: symbols)) (hne : drafts ≠ [])
    (hfirst : Holding p start first []) (h : Sittings p drafts first past f) :
    ∃ ds, Holding p start f ds ∧ Reached p drafts past ds := by
  induction h with
  | nothing => exact ⟨[], hfirst, Or.inl ⟨rfl, by simp⟩⟩
  | more _ horder htidy ih =>
    obtain ⟨ds, hholding, hreached⟩ := ih
    exact hreached.step hvisible hne hholding horder htidy

lemma complete_iff_all {a : Sitting} (ha : a ∈ past) (horder : a.order.Perm drafts)
    {done : List Note} (hsub : done.Sublist (a.notes p)) {ds : List ModuleDoc}
    (hgiven : List.Forall₂ (Given p) done ds) (hholding : Holding p start f ds) :
    Complete p drafts past f ↔ done = a.notes p := by
  constructor
  · -- another run may have given the same documents, but it had as many tasks
    rintro ⟨b, -, hborder, ds', hgiven', hload⟩
    obtain rfl : ds = ds' := by
      rw [hholding.load] at hload
      exact Except.ok.inj (Prod.mk.inj hload).1
    refine hsub.eq_of_length ?_
    rw [hgiven.length_eq, ← hgiven'.length_eq, length_notes hborder, length_notes horder]
  · rintro rfl
    exact ⟨a, ha, horder, ds, hgiven, hholding.load⟩

lemma Sitting.out_of_hidden (hhidden : ∀ s symbols, visible p ≠ .ok (s :: symbols))
    (a : Sitting) : a.out p = ((visible p).map fun _ => (), a.world) := by
  rw [out, documentInOrder]
  cases hvisible : visible p with
  | error e => rfl
  | ok symbols =>
    cases symbols with
    | nil => rfl
    | cons s symbols => exact absurd hvisible (hhidden s symbols)

lemma Sittings.hidden (hhidden : ∀ s symbols, visible p ≠ .ok (s :: symbols))
    (h : Sittings p drafts first past f) : f = first := by
  induction h with
  | nothing => rfl
  | more _ _ _ ih => rwa [Sitting.out_of_hidden hhidden]

lemma not_complete_of_nil (hne : drafts ≠ []) (h : Holding p start f []) :
    ¬ Complete p drafts past f := by
  rintro ⟨a, -, horder, ds, hgiven, hload⟩
  obtain rfl : [] = ds := by
    rw [h.load] at hload
    exact Except.ok.inj (Prod.mk.inj hload).1
  have hlength := hgiven.length_eq
  rw [length_notes horder] at hlength
  exact hne (length_eq_zero_iff.mp hlength)

/-- **Modules are lost by a run that breaks off.** After any runs from a folder with drafts and
without documents on modules, the last of which succeeds, each draft has a document just when there
are visible routines and no run failed after it had saved a document. -/
theorem modules_complete_iff (hkeeps : Keeps p.docs first start)
    (hnew : start Slot.modules.name = none)
    (hdrafts : ((loadAll ModuleDoc (modulesDraftFile p)).run.run first).1 = .ok drafts)
    (hne : drafts ≠ []) (h : Sittings p drafts first past f) :
    (∀ w, w.folder = f →
      (documentModules p).run.run w = (documentInOrder p drafts).run.run w) ∧
    ∀ a ∈ past.getLast?, (a.out p).1 = .ok () →
      (Complete p drafts past f ↔ visible p ≠ .ok [] ∧ ∀ b ∈ past, ¬ BrokeOff p b) := by
  have hfirst := holding_nil hkeeps hnew
  rw [hfirst.drafts] at hdrafts
  by_cases hvisible : ∃ s symbols, visible p = .ok (s :: symbols)
  · obtain ⟨s, symbols, hvisible⟩ := hvisible
    obtain ⟨ds, hholding, hreached⟩ := h.reached hvisible hne hfirst
    refine ⟨?_, fun a ha hok => ?_⟩
    · rintro w rfl
      exact documentModules_run hholding hdrafts hne
    · have hsome : visible p ≠ .ok [] := by simp [hvisible]
      rcases hreached with ⟨-, hfailed⟩ | ⟨-, b, hb, horder, done, hsub, hgiven, hall⟩
      · exact absurd hok (hfailed a (List.mem_of_mem_getLast? ha)).1
      · rw [complete_iff_all hb horder hsub hgiven hholding, hall, and_iff_right hsome]
  · have hhidden : ∀ s symbols, visible p ≠ .ok (s :: symbols) :=
      fun s symbols hcons => hvisible ⟨s, symbols, hcons⟩
    obtain rfl := h.hidden hhidden
    refine ⟨?_, fun a _ hok => ?_⟩
    · rintro w rfl
      exact documentModules_run hfirst hdrafts hne
    · have hnone : visible p = .ok [] := by
        rw [Sitting.out_of_hidden hhidden] at hok
        cases hsymbols : visible p with
        | error e =>
          rw [hsymbols] at hok
          cases hok
        | ok symbols =>
          cases symbols with
          | nil => rfl
          | cons s symbols => exact absurd hsymbols (hhidden s symbols)
      exact iff_of_false (not_complete_of_nil hne hfirst) fun hall => hall.1 hnone

end Sittings

/-! ## Two modules -/

def gallery : Project where
  docs := "docs"
  sources := "src"
  output := "out"
  language := some .cpp
  routines :=
    { graph := ⟨["f"], []⟩
      known := [("f", { symbol := "f", file := "a.c" })] }

def draftOf (name : String) : ModuleDoc where
  name := name
  description := "x"
  functions := some ["f"]

def pair : List ModuleDoc := [draftOf "A", draftOf "B"]

def described : Folder :=
  ((Store.save (Path.join gallery.docs (Slot.routines "a.c").name)
    ({ name := "f", description := "x" } : RoutineDoc)).run.run (.folder "docs" .empty .empty)).2

def stocked : Folder :=
  ((Store.save (Path.join gallery.docs draftsName) (draftOf "B")).run.run
    ((Store.save (Path.join gallery.docs draftsName) (draftOf "A")).run.run described).2).2

lemma exists_keeps_described : ∃ start, Keeps gallery.docs described start ∧
    start draftsName = none ∧ start Slot.modules.name = none := by
  have hsource : IsSource "a.c" := by decide
  have hempty : (Folder.folder "docs" .empty .empty).lookup? gallery.docs
      = some (.folder .empty) := rfl
  obtain ⟨t, hdescribed⟩ := (keeps_empty hempty).save (Slot.isFile (σ := .routines "a.c") hsource)
    (RoutineDoc.markdown_eq { name := "f", description := "x" })
  rw [← described] at hdescribed
  exact ⟨_, hdescribed, Function.update_of_ne (by decide) .., Function.update_of_ne (by decide) ..⟩

lemma exists_keeps_stocked :
    ∃ start, Keeps gallery.docs stocked start ∧ start Slot.modules.name = none := by
  obtain ⟨start, hdescribed, -, hnone⟩ := exists_keeps_described
  obtain ⟨t, hdraft⟩ := hdescribed.save (d := draftOf "A") isFile_draftsName rfl
  obtain ⟨t', hstocked⟩ := hdraft.save (d := draftOf "B") isFile_draftsName rfl
  rw [← stocked] at hstocked
  refine ⟨_, hstocked, ?_⟩
  rw [Function.update_of_ne (by decide), Function.update_of_ne (by decide), hnone]

lemma drafts_stocked :
    ((loadAll ModuleDoc (modulesDraftFile gallery)).run.run stocked).1 = .ok pair := by
  decide +kernel

def replyOn (name : String) : Reply :=
  .text ("### " ++ name ++ "\n#### Description\ny\n#### Functions\n- f")

lemma tidy_replies {replies : List Reply}
    (h : ∀ reply ∈ replies, reply = .timeout ∨ (∃ reason, reply = .failure reason) ∨
      reply = replyOn "A" ∨ reply = replyOn "B") : Tidy replies := by
  have hread : ∀ name ∈ ["A", "B"], ∀ text ∈ Talk.answer? (replyOn name),
      Document.ofChapter text = .ok { draftOf name with description := "y" } ∧
        { draftOf name with description := "y" }.Clean := by
    decide +kernel
  intro reply hreply text htext d hd
  have hclean : ∀ name ∈ ["A", "B"], reply = replyOn name → d.Clean := by
    rintro name hname rfl
    obtain ⟨hchapter, hclean⟩ := hread name hname text htext
    rw [hchapter] at hd
    exact Except.ok.inj hd ▸ hclean
  rcases h reply hreply with rfl | ⟨reason, rfl⟩ | hA | hB
  · cases htext
  · cases htext
  · exact hclean "A" (by simp) hA
  · exact hclean "B" (by simp) hB

def sittingIn (f : Folder) (order : List ModuleDoc) (replies : List Reply) : Sitting where
  order := order
  world := { folder := f, replies := replies }

lemma folder_sittingIn (f : Folder) (order : List ModuleDoc) (replies : List Reply) :
    (sittingIn f order replies).world.folder = f := rfl

def busySitting : Sitting := sittingIn stocked pair [.failure "busy"]

def lateSitting : Sitting :=
  sittingIn (busySitting.out gallery).2.folder [draftOf "B", draftOf "A"]
    [.timeout, replyOn "B", replyOn "A"]

lemma sittings_gallery : Sittings gallery pair stocked [busySitting, lateSitting]
    (lateSitting.out gallery).2.folder := by
  have hbusy : Tidy busySitting.world.replies := tidy_replies (by simp [busySitting, sittingIn])
  have hlate : Tidy lateSitting.world.replies := tidy_replies (by simp [lateSitting, sittingIn])
  -- folders are replaced by equations here: comparing them by unfolding would run everything
  have hbare : Sittings gallery pair stocked [] busySitting.world.folder := by
    rw [busySitting, folder_sittingIn]
    exact .nothing
  have hfirst : Sittings gallery pair stocked [busySitting] lateSitting.world.folder := by
    rw [lateSitting, folder_sittingIn]
    exact .more hbare (.refl _) hbusy
  exact .more hfirst (.swap _ _ _) hlate

theorem modules_complete_iff_gallery : Sittings gallery pair stocked [busySitting, lateSitting]
      (lateSitting.out gallery).2.folder ∧
    (busySitting.out gallery).1 ≠ .ok () ∧ (lateSitting.out gallery).1 = .ok () ∧
    Complete gallery pair [busySitting, lateSitting] (lateSitting.out gallery).2.folder := by
  have hvalues : (busySitting.out gallery).1 ≠ .ok () ∧
      (gallery.loadModules.run.run (busySitting.out gallery).2.folder).1 = .ok [] ∧
      (lateSitting.out gallery).1 = .ok () := by
    decide +kernel
  obtain ⟨hfailed, hnothing, hok⟩ := hvalues
  obtain ⟨start, hkeeps, hnew⟩ := exists_keeps_stocked
  obtain ⟨-, hall⟩ := modules_complete_iff hkeeps hnew drafts_stocked (by simp [pair])
    sittings_gallery
  refine ⟨sittings_gallery, hfailed, hok, (hall lateSitting rfl hok).mpr ⟨by decide, ?_⟩⟩
  rw [List.forall_mem_cons, List.forall_mem_singleton]
  exact ⟨fun h => h.2 hnothing, fun h => h.1 hok⟩

def brokenSitting : Sitting := sittingIn stocked pair [replyOn "A", .failure "busy"]

def retrySitting : Sitting :=
  sittingIn (brokenSitting.out gallery).2.folder pair [replyOn "B"]

lemma brokenSitting_values : (brokenSitting.out gallery).1 ≠ .ok () ∧
    (gallery.loadModules.run.run (brokenSitting.out gallery).2.folder).1
      = .ok [{ draftOf "A" with description := "y" }] := by
  decide +kernel

/-- The next run succeeds without asking, and one of the two modules has no document. -/
theorem gallery_module_lost :
    (documentModules gallery).run.run brokenSitting.world = brokenSitting.out gallery ∧
    (brokenSitting.out gallery).1 ≠ .ok () ∧
    (documentModules gallery).run.run retrySitting.world = (.ok (), retrySitting.world) ∧
    (gallery.loadModules.run.run retrySitting.world.folder).1
      = .ok [{ draftOf "A" with description := "y" }] := by
  have hvisible : visible gallery = .ok ["f"] := by decide
  have hpair : pair ≠ [] := by simp [pair]
  obtain ⟨start, hkeeps, hnew⟩ := exists_keeps_stocked
  have hdrafts := drafts_stocked
  rw [(holding_nil hkeeps hnew).drafts] at hdrafts
  have hstocked : Holding gallery start brokenSitting.world.folder [] := by
    rw [brokenSitting, folder_sittingIn]
    exact holding_nil hkeeps hnew
  have htidy : Tidy brokenSitting.world.replies :=
    tidy_replies (by simp [brokenSitting, sittingIn])
  obtain ⟨-, new, -, -, hholding, -⟩ := Sitting.out_of_nil hvisible hstocked htidy
  obtain ⟨hfailed, hload⟩ := brokenSitting_values
  rw [← folder_sittingIn (brokenSitting.out gallery).2.folder pair [replyOn "B"], ← retrySitting]
    at hholding hload
  -- the run broke off, so the next one finds a document
  have hne : new ≠ [] := by
    rintro rfl
    rw [hholding.load] at hload
    cases hload
  have hfirst : (documentModules gallery).run.run brokenSitting.world = brokenSitting.out gallery :=
    documentModules_run hstocked hdrafts hpair
  have hretry : (documentModules gallery).run.run retrySitting.world = retrySitting.out gallery :=
    documentModules_run hholding hdrafts hpair
  rw [Sitting.out_of_ne_nil hvisible hholding hne] at hretry
  exact ⟨hfirst, hfailed, hretry, hload⟩

end Docsmith.Generate

