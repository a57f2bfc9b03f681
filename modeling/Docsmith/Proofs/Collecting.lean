import Docsmith.Proofs.Delivery
import Docsmith.Proofs.Filenames

/-! # What a report is made of

`collect_ok_iff` says when a report can be made: every document that has to be in it is found, and
the lists in the documents are set. It has one document for each visible routine and record, in
their order (`Collected.lists`). If it cannot be made, that is a failure to be reported and no end
of the program (`tames_collect`). -/

namespace Docsmith

open Generate List

/-! ## Runs that go well -/

section Runs

variable {α β : Type} {w : World}

lemma Generate.Reads.bind_ok_iff {x : Run α} {k : α → Run β} {b : β} (hx : Reads x) :
    (x >>= k).run.run w = (.ok b, w) ↔
      ∃ a, x.run.run w = (.ok a, w) ∧ (k a).run.run w = (.ok b, w) := by
  rw [run_bind_ok]
  constructor
  · rintro ⟨a, w₁, hfirst, hrest⟩
    obtain ⟨r, hr⟩ := hx w
    obtain ⟨-, rfl⟩ := Prod.mk.inj (hr.symm.trans hfirst)
    exact ⟨a, hfirst, hrest⟩
  · rintro ⟨a, hfirst, hrest⟩
    exact ⟨a, w, hfirst, hrest⟩

lemma Generate.mapM_reads_iff {work : α → Run β} (hwork : ∀ a, Reads (work a)) {as : List α}
    {bs : List β} : (as.mapM work).run.run w = (.ok bs, w) ↔
      List.Forall₂ (fun a b => (work a).run.run w = (.ok b, w)) as bs := by
  induction as generalizing bs with
  | nil =>
    rw [mapM_nil, forall₂_nil_left_iff]
    constructor
    · exact fun h => (Except.ok.inj (Prod.mk.inj h).1).symm
    · rintro rfl
      rfl
  | cons a as ih =>
    rw [mapM_cons, (hwork a).bind_ok_iff]
    simp only [(reads_mapM hwork as).bind_ok_iff, ih]
    constructor
    · rintro ⟨b, hb, bs', hbs, hlist⟩
      obtain rfl := Except.ok.inj (Prod.mk.inj hlist).1
      exact .cons hb hbs
    · intro h
      cases h with
      | cons hb hbs => exact ⟨_, hb, _, hbs, rfl⟩

lemma run_ofExcept_iff {x : Except Fault α} {a : α} :
    (Run.ofExcept x).run.run w = (.ok a, w) ↔ x = .ok a := by
  rw [Run.run_ofExcept, Prod.mk.injEq, and_iff_left rfl]

lemma reads_inFolder {step : Files α} (h : ∀ f, (step.run.run f).2 = f) :
    Reads (inFolder step) := by
  intro w
  rw [run_inFolder, h]
  exact ⟨_, rfl⟩

lemma run_inFolder_iff {step : Files α} (h : ∀ f, (step.run.run f).2 = f) {a : α} :
    (inFolder step).run.run w = (.ok a, w) ↔ (step.run.run w.folder).1 = .ok a := by
  rw [run_inFolder, h, Prod.mk.injEq, and_iff_left rfl]

end Runs

/-! ## Documents to report -/

variable {file : Except Fault String}

namespace Project

variable {p : Project} {f : Folder}

lemma loadRoutine?_folder (p : Project) (s : String) (f : Folder) :
    ((p.loadRoutine? s).run.run f).2 = f :=
  (leads_loadRoutine? (S := Eq) s f).symm

lemma loadRecord?_folder (p : Project) (s : String) (f : Folder) :
    ((p.loadRecord? s).run.run f).2 = f :=
  (leads_loadRecord? (S := Eq) s f).symm

lemma load?_ask_iff {δ : Type} [Document δ] {s : String} {d : δ} :
    ((do Store.load? δ s (← Files.ask fun _ => file) : Files (Option δ)).run.run f).1
        = .ok (some d) ↔
      ∃ path, file = .ok path ∧ ((Store.load? δ s path).run.run f).1 = .ok (some d) := by
  rw [run_bind, Files.run_ask]
  cases file with
  | error e =>
    constructor
    · intro h
      cases h
    · rintro ⟨path, hpath, -⟩
      cases hpath
  | ok path => simp only [Except.ok.injEq, exists_eq_left']

lemma name_of_load? {δ : Type} [Document δ] {s : String} {d : δ}
    (h : ((do Store.load? δ s (← Files.ask fun _ => file) : Files (Option δ)).run.run f).1
      = .ok (some d)) : Document.name d = s := by
  obtain ⟨path, -, hload⟩ := load?_ask_iff.mp h
  obtain ⟨ds, -, hfind⟩ := Folder.load?_ok_iff.mp hload
  have hname := List.find?_some hfind
  exact beq_iff_eq.mp hname

lemma loadModules_folder (p : Project) (f : Folder) : (p.loadModules.run.run f).2 = f := by
  obtain ⟨o, ho⟩ := Store.loadAll_folder ModuleDoc p.modulesFile f
  rw [loadModules, ho]

lemma loadRepository?_run (p : Project) (f : Folder) : p.loadRepository?.run.run f
    = (((Store.loadAll RepositoryDoc p.repositoryFile).run.run f).1.map List.head?, f) := by
  obtain ⟨o, ho⟩ := Store.loadAll_folder RepositoryDoc p.repositoryFile f
  rw [loadRepository?, run_map, ho]

lemma loadRepository?_folder (p : Project) (f : Folder) :
    (p.loadRepository?.run.run f).2 = f := by
  rw [loadRepository?_run]

lemma loadRepository?_ok_iff {d : RepositoryDoc} :
    (p.loadRepository?.run.run f).1 = .ok (some d) ↔
      ∃ ds, ((Store.loadAll RepositoryDoc p.repositoryFile).run.run f).1 = .ok (d :: ds) := by
  rw [loadRepository?_run, map_ok_iff]
  constructor
  · rintro ⟨ds, hds, hhead⟩
    obtain ⟨rest, rfl⟩ := head?_eq_some_iff.mp hhead
    exact ⟨rest, hds⟩
  · rintro ⟨ds, hds⟩
    exact ⟨d :: ds, hds, rfl⟩

end Project

namespace Service

open Report Project

def presented {δ : Type} (write : δ → Json) (load : Files (Option δ)) : Run Json := do
  return write (← present (← inFolder load))

section Presented

variable {δ : Type} {write : δ → Json} {load : Files (Option δ)}

lemma reads_present (d : Option δ) : Reads (present d) := by
  cases d with
  | none => exact fun w => ⟨_, rfl⟩
  | some d => exact reads_pure d

lemma present_iff {d : Option δ} {w : World} {a : δ} :
    (present d).run.run w = (.ok a, w) ↔ d = some a := by
  cases d with
  | none =>
    constructor
    · intro h
      cases h
    · intro h
      cases h
  | some d =>
    constructor
    · exact fun h => congrArg some (Except.ok.inj (Prod.mk.inj h).1)
    · rintro ⟨⟩
      rfl

lemma reads_presented (hload : ∀ f, (load.run.run f).2 = f) : Reads (presented write load) :=
  (reads_inFolder hload).bind fun d => (reads_present d).bind fun _ => reads_pure _

lemma presented_iff (hload : ∀ f, (load.run.run f).2 = f) {w : World} {v : Json} :
    (presented write load).run.run w = (.ok v, w) ↔
      ∃ d, (load.run.run w.folder).1 = .ok (some d) ∧ v = write d := by
  rw [presented, (reads_inFolder hload).bind_ok_iff]
  simp only [run_inFolder_iff hload, (reads_present _).bind_ok_iff, present_iff]
  constructor
  · rintro ⟨o, ho, d, rfl, hv⟩
    exact ⟨d, ho, (Except.ok.inj (Prod.mk.inj hv).1).symm⟩
  · rintro ⟨d, hd, rfl⟩
    exact ⟨some d, hd, d, rfl, rfl⟩

end Presented

/-! ## Reports -/

def Presents {α δ : Type} (write : δ → Json) (load : α → Files (Option δ)) (f : Folder) (a : α)
    (v : Json) : Prop :=
  ∃ d, ((load a).run.run f).1 = .ok (some d) ∧ v = write d

lemma exists_presents_iff {α δ : Type} {write : δ → Json} {load : α → Files (Option δ)}
    {f : Folder} {shown : α → Bool} {as : List α} :
    (∃ vs, List.Forall₂ (Presents write load f) (as.filter shown) vs) ↔
      ∀ a ∈ as, shown a = true → ∃ d, ((load a).run.run f).1 = .ok (some d) := by
  rw [exists_forall₂_iff]
  constructor
  · intro h a ha hshown
    obtain ⟨v, d, hd, -⟩ := h a (mem_filter.mpr ⟨ha, hshown⟩)
    exact ⟨d, hd⟩
  · intro h a ha
    obtain ⟨hmem, hshown⟩ := mem_filter.mp ha
    obtain ⟨d, hd⟩ := h a hmem hshown
    exact ⟨write d, d, hd, rfl⟩

structure Collected (p : Project) (f : Folder) (report : Report) : Prop where
  functions : ∃ routines, p.routines.all = .ok routines ∧
    List.Forall₂ (Presents ofRoutine (fun r => p.loadRoutine? r.symbol) f)
      (routines.filter (·.visible)) report.functions
  classes : ∃ records, p.records.all = .ok records ∧
    List.Forall₂ (Presents ofRecord (fun r => p.loadRecord? r.symbol) f)
      (records.filter (·.visible)) report.classes
  modules : ∃ ms, (p.loadModules.run.run f).1 = .ok ms ∧ ms.mapM ofModule = .ok report.modules
  repo : ∃ d v, (p.loadRepository?.run.run f).1 = .ok (some d) ∧ ofRepository d = .ok v ∧
    report.repo = [v]

variable (p : Project)

lemma collect_eq : collect p = (do
    let functions ← ((← Run.ofExcept p.routines.all).filter (·.visible)).mapM fun r =>
      presented ofRoutine (p.loadRoutine? r.symbol)
    let classes ← ((← Run.ofExcept p.records.all).filter (·.visible)).mapM fun r =>
      presented ofRecord (p.loadRecord? r.symbol)
    let modules ← Run.ofExcept ((← inFolder p.loadModules).mapM ofModule)
    let repo ← Run.ofExcept (ofRepository (← present (← inFolder p.loadRepository?)))
    return { functions, classes, modules, repo := [repo] }) := rfl

lemma reads_routine (r : Routine) : Reads (presented ofRoutine (p.loadRoutine? r.symbol)) :=
  reads_presented (loadRoutine?_folder p r.symbol)

lemma reads_record (r : Record) : Reads (presented ofRecord (p.loadRecord? r.symbol)) :=
  reads_presented (loadRecord?_folder p r.symbol)

lemma collect_ok_iff {p : Project} {w : World} {report : Report} :
    (collect p).run.run w = (.ok report, w) ↔ Collected p w.folder report := by
  have hmodules := loadModules_folder p
  have hrepo := loadRepository?_folder p
  simp only [collect_eq, (reads_ofExcept _).bind_ok_iff, run_ofExcept_iff,
    (reads_mapM (reads_routine p) _).bind_ok_iff, (reads_mapM (reads_record p) _).bind_ok_iff,
    (reads_inFolder hmodules).bind_ok_iff, (reads_inFolder hrepo).bind_ok_iff,
    (reads_present _).bind_ok_iff, mapM_reads_iff (reads_routine p),
    mapM_reads_iff (reads_record p),
    presented_iff (loadRoutine?_folder p _), presented_iff (loadRecord?_folder p _),
    run_inFolder_iff hmodules, run_inFolder_iff hrepo, present_iff]
  constructor
  · rintro ⟨routines, hall, functions, hfunctions, records, hall', classes, hclasses, ms, hms,
      modules, hmade, o, ho, d, rfl, v, hv, hreport⟩
    obtain rfl := Except.ok.inj (Prod.mk.inj hreport).1
    exact ⟨⟨routines, hall, hfunctions⟩, ⟨records, hall', hclasses⟩, ⟨ms, hms, hmade⟩,
      ⟨d, v, ho, hv, rfl⟩⟩
  · rintro ⟨⟨routines, hall, hfunctions⟩, ⟨records, hall', hclasses⟩, ⟨ms, hms, hmade⟩,
      ⟨d, v, ho, hv, hrepo⟩⟩
    have heq : (⟨report.functions, report.classes, report.modules, [v]⟩ : Report) = report := by
      rw [← hrepo]
    exact ⟨routines, hall, _, hfunctions, records, hall', _, hclasses, ms, hms, _, hmade, _, ho,
      d, rfl, v, hv, congrArg (fun r => (Except.ok r, w)) heq⟩

lemma reads_collect : Reads (collect p) := by
  rw [collect_eq]
  refine (reads_ofExcept _).bind fun routines => (reads_mapM (reads_routine p) _).bind
    fun functions => (reads_ofExcept _).bind fun records => (reads_mapM (reads_record p) _).bind
      fun classes => (reads_inFolder (loadModules_folder p)).bind fun ms => ?_
  exact (reads_ofExcept _).bind fun modules => (reads_inFolder (loadRepository?_folder p)).bind
    fun o => (reads_present o).bind fun d => (reads_ofExcept _).bind fun v => reads_pure _

/-- A report lists one document for each visible routine and record, under its name. -/
structure Lists (p : Project) (report : Report) : Prop where
  functions : ∃ routines, p.routines.all = .ok routines ∧
    report.functions.map (·.field? "name")
      = (routines.filter (·.visible)).map fun r => some (.str r.symbol)
  classes : ∃ records, p.records.all = .ok records ∧
    report.classes.map (·.field? "name")
      = (records.filter (·.visible)).map fun r => some (.str r.symbol)

lemma map_name_eq {α : Type} {symbol : α → String} {R : α → Json → Prop}
    (hR : ∀ a v, R a v → v.field? "name" = some (.str (symbol a))) {as : List α} {vs : List Json}
    (h : List.Forall₂ R as vs) :
    vs.map (·.field? "name") = as.map fun a => some (.str (symbol a)) := by
  induction h with
  | nil => rfl
  | cons hfirst _ ih => rw [map_cons, map_cons, hR _ _ hfirst, ih]

lemma Collected.lists {p : Project} {f : Folder} {report : Report} (h : Collected p f report) :
    Lists p report := by
  obtain ⟨routines, hroutines, hfunctions⟩ := h.functions
  obtain ⟨records, hrecords, hclasses⟩ := h.classes
  refine ⟨⟨routines, hroutines, map_name_eq ?_ hfunctions⟩, ⟨records, hrecords,
    map_name_eq ?_ hclasses⟩⟩
  · rintro r v ⟨d, hload, rfl⟩
    have hname : d.name = r.symbol := name_of_load? hload
    rw [← hname]
    rfl
  · rintro r v ⟨d, hload, rfl⟩
    have hname : d.name = r.symbol := name_of_load? hload
    rw [← hname]
    rfl

/-! ## Failures that can be reported -/

/-- A result after which the program goes on: if it is a failure, that can be reported. -/
def Tame {α : Type} (x : Except Fault α) : Prop :=
  ∀ e, x = .error e → isReportable e = true

def Tames {σ α : Type} (x : ExceptT Fault (StateM σ) α) : Prop :=
  ∀ s, Tame (x.run.run s).1

section Tame

variable {σ α β : Type}

lemma tame_ok (a : α) : Tame (.ok a) := by
  intro e h
  cases h

lemma tame_error {e : Fault} (h : isReportable e = true) : Tame (.error e : Except Fault α) := by
  intro e' he
  obtain rfl := Except.error.inj he
  exact h

lemma Tame.bind {x : Except Fault α} {k : α → Except Fault β} (hx : Tame x)
    (hk : ∀ a, Tame (k a)) : Tame (x >>= k) := by
  cases x with
  | error e => exact tame_error (hx e rfl)
  | ok a => exact hk a

lemma tame_mapM {work : α → Except Fault β} (hwork : ∀ a, Tame (work a)) (as : List α) :
    Tame (as.mapM work) := by
  induction as with
  | nil => exact tame_ok []
  | cons a as ih =>
    rw [mapM_cons]
    exact (hwork a).bind fun b => ih.bind fun bs => tame_ok (b :: bs)

lemma tames_pure (a : α) : Tames (pure a : ExceptT Fault (StateM σ) α) :=
  fun _ => tame_ok a

lemma Tames.bind {x : ExceptT Fault (StateM σ) α} {k : α → ExceptT Fault (StateM σ) β}
    (hx : Tames x) (hk : ∀ a, Tames (k a)) : Tames (x >>= k) := by
  intro s
  have hfirst := hx s
  rw [run_bind]
  rcases hrun : x.run.run s with ⟨r, s'⟩
  rw [hrun] at hfirst
  cases r with
  | error e => exact tame_error (hfirst e rfl)
  | ok a => exact hk a s'

lemma tames_mapM {work : α → ExceptT Fault (StateM σ) β} (hwork : ∀ a, Tames (work a))
    (as : List α) : Tames (as.mapM work) := by
  induction as with
  | nil => exact tames_pure []
  | cons a as ih =>
    rw [mapM_cons]
    exact (hwork a).bind fun b => ih.bind fun bs => tames_pure (b :: bs)

lemma tames_ofExcept {x : Except Fault α} (hx : Tame x) : Tames (Run.ofExcept x) := by
  intro w
  rw [Run.run_ofExcept]
  exact hx

lemma tames_inFolder {step : Files α} (hstep : Tames step) : Tames (inFolder step) :=
  fun w => hstep w.folder

lemma tames_ask {look : Folder → Except Fault α} (hlook : ∀ f, Tame (look f)) :
    Tames (Files.ask look) := by
  intro f
  rw [Files.run_ask]
  exact hlook f

end Tame

lemma tame_resolve (f : Folder) (path : String) : Tame (f.resolve path) := by
  have hspelling : Tame (Folder.checkSpelling path) := by
    refine Tame.bind ?_ fun _ => ?_
    · rw [Folder.checkHalves]
      split
      · exact tame_ok ()
      · exact tame_error rfl
    · split
      · exact tame_error rfl
      · exact tame_ok ()
  refine Tame.bind (hspelling.bind fun _ => ?_) fun _ => ?_
  · split
    · exact tame_error rfl
    · split
      · exact tame_error rfl
      · exact tame_ok ()
  · fun_induction Folder.follow f path (Folder.startOf path) (Path.parts path) with
    | case1 => exact tame_ok _
    | case2 | case3 => assumption
    | case4 => exact tame_error rfl
    | case5 => exact tame_ok _
    | case6 => assumption
    | case7 | case8 => exact tame_error rfl

lemma tame_readText (f : Folder) (path : String) : Tame (f.readText path) := by
  refine Tame.bind ((tame_resolve f path).bind fun place => ?_) fun c => ?_
  · split
    · split
      · exact tame_error rfl
      · exact tame_ok _
    · exact tame_error rfl
    · exact tame_error rfl
  · split
    · exact tame_ok _
    · split
      · exact tame_error rfl
      · exact tame_ok _

lemma tame_itemsOf (header block : String) : Tame (Chapter.itemsOf header block) := by
  rw [Chapter.itemsOf]
  split
  · exact tame_ok _
  · exact tame_error rfl

/-- A kind of documents whose chapters can be read or reported as faulty. -/
def TameKind (δ : Type) [Document δ] : Prop :=
  ∀ name description block, Tame (Document.ofBlock name description block : Except Fault δ)

lemma tameKind_module : TameKind ModuleDoc :=
  fun _ _ block => (tame_itemsOf "Functions" block).bind fun _ => tame_ok _

lemma tameKind_repository : TameKind RepositoryDoc :=
  fun _ _ block => (tame_itemsOf "Features" block).bind fun _ =>
    (tame_itemsOf "Standards" block).bind fun _ => tame_ok _

section Loading

variable {δ : Type} [Document δ] (hkind : TameKind δ)

include hkind

lemma tames_loadAll (path : String) : Tames (Store.loadAll δ path) := by
  have hchapter : ∀ text : String, Tame (Document.ofChapter text : Except Fault δ) := by
    intro text
    rw [Document.ofChapter]
    split
    · exact tame_error rfl
    · split
      · exact tame_error rfl
      · exact hkind _ _ _
  intro f
  rw [Store.run_loadAll]
  split
  · exact (tame_readText f path).bind fun text => tame_mapM hchapter (Chapter.split text)
  · exact tame_ok []

lemma tames_load? (hfile : Tame file) (s : String) :
    Tames (do Store.load? δ s (← Files.ask fun _ => file)) :=
  (tames_ask fun _ => hfile).bind fun path =>
    (tames_loadAll hkind path).bind fun _ => tames_pure _

end Loading

lemma tame_get {δ : Type} (c : Catalog δ) (symbol : String) : Tame (c.get symbol) := by
  rw [Catalog.get]
  split
  · exact tame_ok _
  · exact tame_error rfl

lemma tame_list (items : Option (List String)) : Tame (Report.list items) := by
  cases items with
  | none => exact tame_error rfl
  | some items => exact tame_ok _

lemma tames_present {δ : Type} (d : Option δ) : Tames (present d) := by
  cases d with
  | none => exact fun _ => tame_error rfl
  | some d => exact tames_pure d

lemma tames_collect : Tames (collect p) := by
  have hroutine : ∀ r : Routine, Tames (presented ofRoutine (p.loadRoutine? r.symbol)) := by
    intro r
    refine (tames_inFolder (tames_load? (fun _ _ _ => tame_ok _) ?_ r.symbol)).bind fun d =>
      (tames_present d).bind fun _ => tames_pure _
    exact (tame_get p.routines r.symbol).bind fun _ => tame_ok _
  have hrecord : ∀ r : Record, Tames (presented ofRecord (p.loadRecord? r.symbol)) := by
    intro r
    refine (tames_inFolder (tames_load? (fun _ _ _ => tame_ok _) ?_ r.symbol)).bind fun d =>
      (tames_present d).bind fun _ => tames_pure _
    exact (tame_get p.records r.symbol).bind fun _ => tame_ok _
  have hmodule : ∀ m, Tame (ofModule m) := fun m => (tame_list m.functions).bind fun _ => tame_ok _
  have hrepo : ∀ d, Tame (ofRepository d) := fun d => (tame_list d.features).bind fun _ =>
    (tame_list d.standards).bind fun _ => (tame_list d.scenarios).bind fun _ => tame_ok _
  rw [collect_eq]
  refine (tames_ofExcept (tame_mapM (tame_get p.routines) _)).bind fun routines =>
    (tames_mapM hroutine _).bind fun functions =>
      (tames_ofExcept (tame_mapM (tame_get p.records) _)).bind fun records =>
        (tames_mapM hrecord _).bind fun classes =>
          (tames_inFolder (tames_loadAll tameKind_module _)).bind fun ms => ?_
  exact (tames_ofExcept (tame_mapM hmodule ms)).bind fun modules =>
    (tames_inFolder ((tames_loadAll tameKind_repository _).bind fun _ => tames_pure _)).bind
      fun o => (tames_present o).bind fun d => (tames_ofExcept (hrepo d)).bind fun v =>
        tames_pure _

end Service

end Docsmith
