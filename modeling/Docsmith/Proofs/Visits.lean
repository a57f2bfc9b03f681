import Docsmith.Proofs.Origins

/-! # What visits document

A visit of an expression defines nothing, whatever it contains and whether it fails or not
(`leads_visit`). A visit of a program that does not fail documents exactly its definitions, in order
(`visit_adds`), and so do visits of files (`visitFile_adds`). -/

namespace Docsmith.Calls

open List

/-! ## Expressions -/

/-- What is documented stays documented, and the visit goes on where it was. -/
structure Quiet (s s' : State) : Prop where
  documented : ∀ ds, Documented ds s → Documented ds s'
  path : s'.path = s.path
  site : s'.site = s.site

instance : IsPreorder State Quiet where
  refl _ := ⟨fun _ h => h, rfl, rfl⟩
  trans _ _ _ h h' := ⟨fun ds hs => h'.documented ds (h.documented ds hs), h'.path.trans h.path,
    h'.site.trans h.site⟩

lemma Quiet.file {s s' : State} (h : Quiet s s') : s'.file = s.file :=
  congrArg Prod.fst h.site

lemma Unmoved.quiet {s s' : State} (h : Unmoved s s') : Quiet s s' :=
  ⟨fun _ hs => hs.unmoved h, h.path, h.site⟩

instance : Tolerates Quiet where
  raise _ id flavor _ := (unmoved_raise id flavor).quiet
  push _ _ hx _ hnew := (unmoved_push hx hnew).quiet
  note _ _ _ _ := unmoved_of_eq.quiet

instance (name : String) : Binds Quiet name :=
  ⟨fun space value s => (leads_setName space name value s).quiet⟩

lemma besides_congr {s s' : State} (hsymbols : s'.symbols = s.symbols)
    (htable : s'.table = s.table) : Besides none s s' := by
  have hsymbol : ∀ i, s'.symbol i = s.symbol i := by
    intro i
    rw [State.symbol, State.symbol, hsymbols]
  have hnamed : ∀ name, s'.named name = s.named name := by
    intro name
    rw [State.named, State.named, htable]
  have hfind : ∀ space name, s'.find? space name = s.find? space name := by
    intro space name
    rw [State.find?, State.find?, hnamed]
    exact find?_congr fun i _ => by rw [hsymbol]
  refine ⟨(congrArg Array.size hsymbols).ge, fun i _ => ?_, fun i _ _ => ?_, fun i hi _ => ?_, ?_⟩
  · rw [hsymbol]
    exact ⟨rfl, rfl, Nat.le_refl _, fun h => h⟩
  · rw [hsymbol]
    exact ⟨rfl, rfl⟩
  · rw [hsymbol]
    exact Unmoved.isRoutine_of_size_le hi
  · intro p hp
    refine ⟨fun {name i} hi => ?_, fun i hi hspace => ?_⟩
    · rw [hnamed] at hi
      rw [hsymbols, hsymbol]
      exact hp.named hi
    · rw [hsymbols] at hi
      rw [hsymbol] at hspace ⊢
      rw [hfind]
      exact hp.found i hi hspace

lemma Documented.congr {ds : List Made} {s s' : State} (h : Documented ds s)
    (hsymbols : s'.symbols = s.symbols) (htable : s'.table = s.table)
    (hdefines : s'.defines = s.defines) : Documented ds s' :=
  h.besides (besides_congr hsymbols htable) ((besides_congr hsymbols htable).seen hdefines h.seen)

lemma quiet_of_eq {s s' : State} (hsymbols : s'.symbols = s.symbols) (htable : s'.table = s.table)
    (hdefines : s'.defines = s.defines) (hpath : s'.path = s.path) (hsite : s'.site = s.site) :
    Quiet s s' :=
  ⟨fun _ hs => hs.congr hsymbols htable hdefines, hpath, hsite⟩

lemma run_always {α : Type} (body : Visit α) (after : Visit Unit) (s : State) :
    ((always body after).run.run s).2 = (after.run.run (body.run.run s).2).2 := by
  have hstep : ∀ k : Except Fault α → StateM State (Except Fault α),
      (ExceptT.mk (body.run >>= k)).run.run s = (k (body.run.run s).1).run (body.run.run s).2 :=
    fun _ => rfl
  rcases hafter : after.run.run (body.run.run s).2 with ⟨r, s'⟩
  rw [always, hstep, StateT.run_bind, hafter]
  cases r with
  | ok u | error e => rfl

lemma leads_defineBlock (outer : Id) (space label : String) :
    Leads Quiet (do
      let block ← symbolFor (some space) label none .nameSpace
      addDefines outer (some block)
      setLast (some block)) := by
  intro s
  rcases hrun : (symbolFor (some space) label none .nameSpace).run.run s with ⟨r, s₁⟩
  have hunmoved : Unmoved _ _ := Leads.of_run (leads_symbolFor _ label rfl .nameSpace) hrun
  cases r with
  | error e =>
    rw [run_bind, hrun]
    exact hunmoved.quiet
  | ok block =>
    rw [run_bind_of_ok hrun, run_bind_of_ok (addDefines_run outer (some block) s₁)]
    have hlast : Unmoved _ _ := leads_setLast (some block) (s₁.definedBy outer (some block))
    obtain ⟨hpath, hsite⟩ := definedBy_place outer (some block)
    refine ⟨fun ds hs => ?_, hlast.path.trans (hpath.trans hunmoved.path),
      hlast.site.trans (hsite.trans hunmoved.site)⟩
    have hlt := (hs.indexed.symbolFor_ok hrun).1
    have hs₁ := (hs.unmoved hunmoved).definedBy outer fun t ht => Option.some.inj ht ▸ hlt
    exact hs₁.unmoved hlast

/-- A relation that leads along an anonymous block if it leads along its body. -/
class Encloses (R : State → State → Prop) : Prop where
  leave : ∀ {s s₁ s₂ : State} {label inner : String}, R { s with path := label :: s.path } s₁ →
    R { s₁ with within := inner :: s₁.within, inClass := false :: s₁.inClass } s₂ →
    R s { s₂ with path := s₂.path.tail, within := s₂.within.tail, inClass := s₂.inClass.tail }
  abandon : ∀ {s s₁ : State} {label : String}, R { s with path := label :: s.path } s₁ →
    R s { s₁ with path := s₁.path.tail }
  define : ∀ outer space label, Leads R (do
    let block ← symbolFor (some space) label none .nameSpace
    addDefines outer (some block)
    setLast (some block))

instance : Encloses Quiet where
  leave h h' := by
    refine ⟨fun ds hs => ?_, congrArg List.tail (h'.path.trans h.path), h'.site.trans h.site⟩
    have hinside := h.documented ds (hs.congr rfl rfl rfl)
    exact (h'.documented ds (hinside.congr rfl rfl rfl)).congr rfl rfl rfl
  abandon h := by
    refine ⟨fun ds hs => ?_, congrArg List.tail h.path, h.site⟩
    exact (h.documented ds (hs.congr rfl rfl rfl)).congr rfl rfl rfl
  define := leads_defineBlock

lemma leads_inBlock {R : State → State → Prop} [Tolerates R] [Encloses R] (label : String)
    {body : String → Visit Unit} (hbody : ∀ inner, Leads R (body inner)) :
    Leads R (inBlock label body) := by
  intro s
  rw [inBlock, run_modify_bind]
  obtain ⟨inner, s₁, hname⟩ := exists_currentName (s := { s with path := label :: s.path }) rfl
  have hs₁ : R _ _ := Leads.of_run leads_currentName hname
  rw [run_bind_of_ok hname, run_get_bind]
  split
  · exact Encloses.abandon hs₁
  · -- the body starts in the block and ends there, whether it fails or not
    rw [run_modify_bind, run_always]
    have hs₂ := Encloses.leave hs₁
      (hbody inner { s₁ with within := inner :: s₁.within, inClass := false :: s₁.inClass })
    have hafter : Leads R (do
        let outer ← current
        let block ← symbolFor (some (← symbolOf outer).fullName) label none .nameSpace
        addDefines outer (some block)
        setLast (some block)) :=
      leads_current.bind fun outer =>
        (leads_symbolOf outer).bind fun _ => Encloses.define outer _ label
    exact trans_of R hs₂ (hafter _)

section Lists

variable {R : State → State → Prop} [Tolerates R] {ts : List Tree}

lemma leads_visitAll (h : ∀ t ∈ ts, Leads R (visit t)) : Leads R (visitAll ts) := by
  induction ts with
  | nil =>
    rw [visitAll]
    exact leads_pure ()
  | cons t ts ih =>
    rw [visitAll]
    exact (h t mem_cons_self).bind fun _ => ih fun u hu => h u (mem_cons_of_mem _ hu)

lemma leads_captureAll (h : ∀ t ∈ ts, Leads R (visit t)) : Leads R (captureAll ts) := by
  induction ts with
  | nil =>
    rw [captureAll]
    exact leads_pure []
  | cons t ts ih =>
    rw [captureAll]
    exact (h t mem_cons_self).bind fun _ => leads_get.bind fun _ =>
      (leads_setLast none).bind fun _ =>
        (ih fun u hu => h u (mem_cons_of_mem _ hu)).bind fun _ => leads_pure _

lemma leads_assignAll (h : ∀ t ∈ ts, Leads R (visit t)) (values : List (Option Id)) :
    Leads R (assignAll ts values) := by
  induction ts generalizing values with
  | nil =>
    rw [assignAll]
    · exact leads_pure ()
    · rintro _ _ _ _ ⟨⟩
  | cons t ts ih =>
    cases values with
    | nil =>
      rw [assignAll]
      · exact leads_pure ()
      · rintro _ _ _ _ _ ⟨⟩
    | cons v values =>
      rw [assignAll]
      exact (leads_setLast v).bind fun _ => (h t mem_cons_self).bind fun _ =>
        ih (fun u hu => h u (mem_cons_of_mem _ hu)) values

lemma leads_decoratorNames (h : ∀ t ∈ ts, Leads R (visit t)) :
    Leads R (decoratorNames ts) := by
  induction ts with
  | nil =>
    rw [decoratorNames]
    exact leads_pure []
  | cons t ts ih =>
    rw [decoratorNames]
    refine (h t mem_cons_self).bind fun _ => leads_get.bind fun s => ?_
    refine (leads_setLast none).bind fun _ =>
      (ih fun u hu => h u (mem_cons_of_mem _ hu)).bind fun rest => ?_
    split
    · exact (leads_symbolOf _).bind fun _ => leads_pure _
    · exact leads_pure _

end Lists

section Forms

variable {R : State → State → Prop} [Tolerates R]

lemma leads_call {func : Tree} {args keywords : List Tree} (hfunc : Leads R (visit func))
    (hargs : ∀ t ∈ args, Leads R (visit t)) (hkeywords : ∀ t ∈ keywords, Leads R (visit t)) :
    Leads R (visit (.call func args keywords)) := by
  rw [visit]
  refine (leads_visitAll hargs).bind fun _ => (leads_visitAll hkeywords).bind fun _ => ?_
  refine (leads_orUnresolved (leads_objectOf _) none).bind fun result => ?_
  split
  · exact (leads_setLast _).bind fun _ => leads_current.bind fun user => leads_addUses user _
  · refine hfunc.bind fun _ => leads_get.bind fun s => ?_
    split
    · refine leads_get.bind fun s' => ?_
      split
      · exact leads_useMethod _ _
      · exact leads_pure _
    · exact leads_pure _

lemma leads_binding {targets values : List Tree} (htargets : ∀ t ∈ targets, Leads R (visit t))
    (hvalues : ∀ t ∈ values, Leads R (visit t)) : Leads R (visit (.bind targets values)) := by
  have hlast : Leads R (setLast none) := leads_setLast none
  rw [visit]
  refine hlast.bind fun _ => ?_
  split
  · exact (leads_captureAll hvalues).bind fun found =>
      (leads_assignAll htargets found).bind fun _ => hlast
  · exact (leads_visitAll hvalues).bind fun _ => (leads_visitAll htargets).bind fun _ => hlast

lemma leads_enter {context : List Tree} (h : ∀ t ∈ context, Leads R (visit t)) :
    Leads R (visit (.enter context)) := by
  have hlast : Leads R (setLast none) := leads_setLast none
  rw [visit]
  refine hlast.bind fun _ => (leads_visitAll h).bind fun _ => leads_get.bind fun s => ?_
  split
  · exact (leads_forM (leads_useMethod _) _).bind fun _ => hlast
  · exact hlast

lemma leads_member {value : Tree} {attr : String} {mode : Mode}
    (hbinds : mode = .store → Binds R attr) (hvalue : Leads R (visit value)) :
    Leads R (visit (.attribute value attr mode)) := by
  rw [visit]
  refine (leads_visitAttribute value attr hbinds).bind fun more => ?_
  split
  · exact hvalue
  · exact leads_pure ()

lemma leads_imports {aliases : List Alias} (hbinds : ∀ a ∈ aliases, Binds R a.given) :
    Leads R (visit (.importModules aliases)) ∧
      ∀ module level, Leads R (visit (.importFrom module level aliases)) := by
  refine ⟨?_, fun module level => ?_⟩
  · rw [visit]
    refine leads_forM_of_mem fun a ha => ?_
    have := hbinds a ha
    exact leads_importModule a
  · rw [visit]
    refine leads_current.bind fun user => leads_get.bind fun s => leads_forM_of_mem fun a ha => ?_
    have := hbinds a ha
    exact leads_importName user _ a

end Forms

lemma leads_each {R : State → State → Prop} {ts : List Tree}
    (h : ∀ t ∈ ts, t.isPlain = true → (∀ name ∈ t.bound, Binds R name) → Leads R (visit t))
    (hplain : Tree.allPlain ts = true) (hbinds : ∀ name ∈ Tree.allBound ts, Binds R name) :
    ∀ t ∈ ts, Leads R (visit t) := fun t ht =>
  h t ht (Tree.allPlain_iff.mp hplain t ht) fun name hname =>
    hbinds name (Tree.mem_allBound.mpr ⟨t, ht, hname⟩)

lemma leads_plain {R : State → State → Prop} [Tolerates R] [Encloses R] {t : Tree}
    (h : t.isPlain = true) (hbinds : ∀ name ∈ t.bound, Binds R name) : Leads R (visit t) := by
  induction t using Tree.induct with
  | group ts ih =>
    rw [visit]
    exact leads_visitAll (leads_each ih h hbinds)
  | name id mode =>
    rw [visit]
    exact leads_visitName id fun hmode => hbinds id (by simp [Tree.bound, hmode])
  | member value attr mode ih =>
    rw [Tree.bound, forall_mem_append] at hbinds
    exact leads_member (fun hmode => hbinds.1 attr (by simp [hmode])) (ih h hbinds.2)
  | constant type => exact leads_constant type
  | call func args keywords ihfunc ihargs ihkeywords =>
    simp only [Tree.isPlain, Bool.and_eq_true] at h
    simp only [Tree.bound, forall_mem_append] at hbinds
    exact leads_call (ihfunc h.1.1 hbinds.1.1) (leads_each ihargs h.1.2 hbinds.1.2)
      (leads_each ihkeywords h.2 hbinds.2)
  | bind targets values ihtargets ihvalues =>
    simp only [Tree.isPlain, Bool.and_eq_true] at h
    simp only [Tree.bound, forall_mem_append] at hbinds
    exact leads_binding (leads_each ihtargets h.1 hbinds.1) (leads_each ihvalues h.2 hbinds.2)
  | declare target ih =>
    rw [visit]
    exact (leads_setLast none).bind fun _ => ih h hbinds
  | enter ts ih => exact leads_enter (leads_each ih h hbinds)
  | function head decorators defaults body => cases h
  | lambda params defaults body ihdefaults ihbody =>
    simp only [Tree.isPlain, Bool.and_eq_true] at h
    simp only [Tree.bound, forall_mem_append] at hbinds
    rw [visit]
    exact leads_inBlock "lambda" fun inner => (leads_markParams inner hbinds.1.1).bind fun _ =>
      (leads_visitAll (leads_each ihdefaults h.1 hbinds.1.2)).bind fun _ => ihbody h.2 hbinds.2
  | generator iters targets conditions further element ihiters ihtargets ihconditions ihfurther
      ihelement =>
    simp only [Tree.isPlain, Bool.and_eq_true] at h
    simp only [Tree.bound, forall_mem_append] at hbinds
    obtain ⟨⟨⟨⟨hiters, htargets⟩, hconditions⟩, hfurther⟩, helement⟩ := h
    obtain ⟨⟨⟨⟨hiters', htargets'⟩, hconditions'⟩, hfurther'⟩, helement'⟩ := hbinds
    rw [visit]
    refine (leads_visitAll (leads_each ihiters hiters hiters')).bind fun _ => ?_
    refine leads_inBlock "genexpr" fun inner => ?_
    refine (leads_visitAll (leads_each ihtargets htargets htargets')).bind fun _ => ?_
    refine (leads_setLast none).bind fun _ => ?_
    refine (leads_visitAll (leads_each ihconditions hconditions hconditions')).bind fun _ => ?_
    refine (leads_visitAll (leads_each ihfurther hfurther hfurther')).bind fun _ => ?_
    exact ihelement helement helement'
  | classDef name bases body => cases h
  | importModules aliases => exact (leads_imports (forall_mem_map.mp hbinds)).1
  | importFrom module level aliases =>
    exact (leads_imports (forall_mem_map.mp hbinds)).2 module level

lemma leads_visit {t : Tree} (h : t.isPlain = true) : Leads Quiet (visit t) :=
  leads_plain h fun _ _ => inferInstance

/-! ## Programs -/

section Adding

variable {s s' s'' : State} {file : String}

lemma Quiet.adds (h : Quiet s s') : Adds [] s s' :=
  ⟨fun ds hs => (append_nil ds).symm ▸ h.documented ds hs, h.path, h.site⟩

lemma Adds.trans {ds ds' : List Made} (h : Adds ds s s') (h' : Adds ds' s' s'') :
    Adds (ds ++ ds') s s'' := by
  refine ⟨fun es hs => ?_, h'.path.trans h.path, h'.site.trans h.site⟩
  rw [← append_assoc]
  exact h'.documented _ (h.documented es hs)

lemma Adds.quiet {ds : List Made} (h : Adds ds s s') (h' : Quiet s' s'') : Adds ds s s'' :=
  ⟨fun es hs => h'.documented _ (h.documented es hs), h'.path.trans h.path, h'.site.trans h.site⟩

def Tree.VisitAdds (file : String) (t : Tree) : Prop :=
  ∀ s s', s.file = some file → (visit t).run.run s = (.ok (), s') → Adds (t.made file s.path) s s'

lemma visitAll_adds {ts : List Tree} (h : ∀ t ∈ ts, t.VisitAdds file) (hfile : s.file = some file)
    (hrun : (visitAll ts).run.run s = (.ok (), s')) :
    Adds (Tree.allMade file s.path ts) s s' := by
  induction ts generalizing s with
  | nil =>
    rw [visitAll] at hrun
    obtain ⟨-, rfl⟩ := Prod.mk.inj hrun
    exact Quiet.adds (refl_of Quiet s)
  | cons t ts ih =>
    rw [visitAll] at hrun
    obtain ⟨⟨⟩, s₁, hfirst, hrest⟩ := run_bind_ok.mp hrun
    have hadds := h t mem_cons_self s s₁ hfile hfirst
    have hothers := ih (fun u hu => h u (mem_cons_of_mem _ hu)) (hadds.file.trans hfile) hrest
    rw [hadds.path] at hothers
    exact hadds.trans hothers

lemma enterBlock_ok {name inner : String} {isClass : Bool}
    (hrun : (enterBlock name isClass).run.run s = (.ok inner, s')) :
    (∀ ds, Documented ds s → Documented ds s') ∧ s'.path = name :: s.path ∧ s'.site = s.site := by
  rw [enterBlock] at hrun
  rw [run_modify_bind] at hrun
  obtain ⟨inner', s₁, hname, hrun⟩ := run_bind_ok.mp hrun
  have hunmoved : Unmoved _ _ := Leads.of_run leads_currentName hname
  obtain ⟨scope, s₂, hscope, hrun⟩ := run_bind_ok.mp hrun
  have hunmoved := hunmoved.trans (Leads.of_run (leads_scopeOf inner') hscope)
  obtain ⟨⟨⟩, s₃, hwithin, hrun⟩ := run_bind_ok.mp hrun
  obtain ⟨-, rfl⟩ := Prod.mk.inj hwithin
  obtain ⟨-, rfl⟩ := Prod.mk.inj hrun
  refine ⟨fun ds hs => ?_, hunmoved.path, hunmoved.site⟩
  have hinside : Documented ds { s with path := name :: s.path } := hs.congr rfl rfl rfl
  exact (hinside.unmoved hunmoved).congr rfl rfl rfl

lemma block_adds {name : String} {ds : List Made} {s₁ s₂ : State}
    (henter : (∀ ds, Documented ds s → Documented ds s₁) ∧ s₁.path = name :: s.path ∧
      s₁.site = s.site) (hbody : Adds ds s₁ s₂)
    (hrun : leaveBlock.run.run s₂ = (.ok (), s')) : Adds ds s s' := by
  obtain ⟨hdocumented, hpath, hsite⟩ := henter
  obtain ⟨-, rfl⟩ := Prod.mk.inj hrun
  refine ⟨fun es hs => ?_, ?_, hbody.site.trans hsite⟩
  · exact (hbody.documented es (hdocumented es hs)).congr rfl rfl rfl
  · exact congrArg List.tail (hbody.path.trans hpath)

lemma adds_of_plain {t : Tree} (h : t.isPlain = true) (hmade : ∀ path, t.made file path = []) :
    t.VisitAdds file := by
  intro s s' _ hrun
  rw [hmade]
  exact (Leads.of_run (leads_visit h) hrun).adds

lemma specificity_functionFlavor (inClass : Bool) (decorators : List String) :
    (functionFlavor inClass decorators).specificity = 3 := by
  rw [functionFlavor]
  repeat' split
  all_goals rfl

lemma function_adds {head : Head} {decorators defaults body : List Tree}
    (hdecorators : Tree.allPlain decorators = true) (hdefaults : Tree.allPlain defaults = true)
    (hbody : ∀ t ∈ body, t.VisitAdds file) :
    (Tree.function head decorators defaults body).VisitAdds file := by
  rw [Tree.allPlain_iff] at hdecorators hdefaults
  intro s s' hfile hrun
  rw [visit] at hrun
  obtain ⟨⟨⟩, s₁, hlast, hrun⟩ := run_bind_ok.mp hrun
  obtain ⟨names, s₂, hnames, hrun⟩ := run_bind_ok.mp hrun
  have hquiet := trans_of Quiet (Leads.of_run (leads_setLast none) hlast)
    (Leads.of_run (leads_decoratorNames fun t ht => leads_visit (hdecorators t ht)) hnames)
  rw [run_get_bind] at hrun
  obtain ⟨id, s₃, hdefine, hrun⟩ := run_bind_ok.mp hrun
  have hdefined := define_adds (hquiet.file.trans hfile) (specificity_functionFlavor _ _).ge hdefine
  rw [hquiet.path] at hdefined
  obtain ⟨inner, s₄, henter, hrun⟩ := run_bind_ok.mp hrun
  obtain ⟨-, hpath₄, hsite₄⟩ := enterBlock_ok henter
  have hfile₄ := congrArg Prod.fst hsite₄
  obtain ⟨⟨⟩, s₅, hmark, hrun⟩ := run_bind_ok.mp hrun
  rw [run_get_bind] at hrun
  -- the object of a method is bound or not
  obtain ⟨s₆, hself, hrun⟩ : ∃ s₆, Unmoved s₅ s₆ ∧ (do
      visitAll defaults
      visitAll body
      leaveBlock).run.run s₆ = (.ok (), s') := by
    split at hrun
    · obtain ⟨⟨⟩, s₆, hset, hrun⟩ := run_bind_ok.mp hrun
      exact ⟨s₆, Leads.of_run (leads_setName _ _ _) hset, hrun⟩
    · exact ⟨s₅, Unmoved.refl s₅, hrun⟩
  obtain ⟨⟨⟩, s₇, hvisit, hrun⟩ := run_bind_ok.mp hrun
  obtain ⟨⟨⟩, s₈, hvisitBody, hleave⟩ := run_bind_ok.mp hrun
  have hmarked : Unmoved _ _ :=
    Leads.of_run (leads_markParams inner fun _ _ => inferInstance) hmark
  have hinside := trans_of Quiet (hmarked.trans hself).quiet
    (Leads.of_run (leads_visitAll fun t ht => leads_visit (hdefaults t ht)) hvisit)
  have hfile₇ := hinside.file.trans (hfile₄.trans (hdefined.file.trans (hquiet.file.trans hfile)))
  have hadds := visitAll_adds hbody hfile₇ hvisitBody
  rw [hinside.path, hpath₄, hdefined.path, hquiet.path] at hadds
  exact hquiet.adds.trans (hdefined.trans (block_adds (enterBlock_ok henter) (hinside.adds.trans hadds)
    hleave))

lemma classDef_adds {name : String} {bases body : List Tree}
    (hbases : Tree.allPlain bases = true) (hbody : ∀ t ∈ body, t.VisitAdds file) :
    (Tree.classDef name bases body).VisitAdds file := by
  rw [Tree.allPlain_iff] at hbases
  intro s s' hfile hrun
  rw [visit] at hrun
  obtain ⟨id, s₁, hdefine, hrun⟩ := run_bind_ok.mp hrun
  have hflavor : 3 ≤ Flavor.classObject.specificity := Nat.le_refl 3
  have hdefined := define_adds hfile hflavor hdefine
  rw [run_modify_bind] at hrun
  obtain ⟨inner, s₂, henter, hrun⟩ := run_bind_ok.mp hrun
  obtain ⟨-, hpath₂, hsite₂⟩ := enterBlock_ok henter
  have hfile₂ := congrArg Prod.fst hsite₂
  have hpath₂ := hpath₂.trans (congrArg _ hdefined.path)
  rw [run_modify_bind] at hrun
  obtain ⟨⟨⟩, s₃, hvisit, hrun⟩ := run_bind_ok.mp hrun
  obtain ⟨⟨⟩, s₄, hvisitBody, hrun⟩ := run_bind_ok.mp hrun
  obtain ⟨⟨⟩, s₅, hleave, hrun⟩ := run_bind_ok.mp hrun
  obtain ⟨-, rfl⟩ := Prod.mk.inj hrun
  have hnote : Quiet s₂ { s₂ with bases := Assoc.set id bases s₂.bases } :=
    quiet_of_eq rfl rfl rfl rfl rfl
  have hinside := trans_of Quiet hnote
    (Leads.of_run (leads_visitAll fun t ht => leads_visit (hbases t ht)) hvisit)
  have hadds := visitAll_adds hbody
    (hinside.file.trans (hfile₂.trans (hdefined.file.trans hfile))) hvisitBody
  rw [hinside.path, hpath₂] at hadds
  have hblock := block_adds (enterBlock_ok henter) (hinside.adds.trans hadds) hleave
  have hopen : Quiet s₁ { s₁ with classes := id :: s₁.classes } := quiet_of_eq rfl rfl rfl rfl rfl
  exact hdefined.trans ((hopen.adds.trans hblock).quiet (quiet_of_eq rfl rfl rfl rfl rfl))

lemma visit_adds {t : Tree} (h : t.isProper = true) : t.VisitAdds file := by
  induction t using Tree.induct with
  | group ts ih =>
    rw [Tree.isProper, Tree.allProper_iff] at h
    intro s s' hfile hrun
    rw [visit] at hrun
    exact visitAll_adds (fun t ht => ih t ht (h t ht)) hfile hrun
  | function head decorators defaults body ihdecorators ihdefaults ihbody =>
    simp only [Tree.isProper, Bool.and_eq_true] at h
    obtain ⟨⟨⟨-, hdecorators⟩, hdefaults⟩, hbody⟩ := h
    rw [Tree.allProper_iff] at hbody
    exact function_adds hdecorators hdefaults fun t ht => ihbody t ht (hbody t ht)
  | classDef name bases body ihbases ihbody =>
    simp only [Tree.isProper, Bool.and_eq_true] at h
    obtain ⟨⟨-, hbases⟩, hbody⟩ := h
    rw [Tree.allProper_iff] at hbody
    exact classDef_adds hbases fun t ht => ihbody t ht (hbody t ht)
  | _ => exact adds_of_plain h fun _ => rfl

/-! ## Files -/

lemma visitModule_adds {body : List Tree} (hbody : Tree.allProper body = true)
    (hfile : s.file = some file) (hpath : s.path = [])
    (hrun : (visitModule body).run.run s = (.ok (), s')) :
    Adds (⟨"", s.module, { kind := "Module" }, file⟩ :: Tree.allMade file [s.module] body) s s' := by
  rw [Tree.allProper_iff] at hbody
  rw [visitModule, run_get_bind] at hrun
  obtain ⟨id, s₁, hfor, hrun⟩ := run_bind_ok.mp hrun
  obtain ⟨hbesides, hdefines, hpath₁, hsite₁⟩ := besides_symbolFor hfor
  have hfile₁ := (congrArg Prod.fst hsite₁).trans hfile
  rw [run_bind_of_ok (associate_run hfile₁ id { kind := "Module" })] at hrun
  have htied : Adds [⟨"", s.module, { kind := "Module" }, file⟩] s
      (s₁.alter id (·.tied { kind := "Module" } file)) := by
    refine ⟨fun ds hs => ?_, hpath₁, hsite₁⟩
    obtain ⟨-, hfind, -, -, hle⟩ := hs.indexed.symbolFor_ok hfor
    exact hs.tie hbesides (hbesides.seen hdefines hs.seen) hfind hle _ file nofun
  generalize s₁.alter id (·.tied { kind := "Module" } file) = s₂ at htied hrun
  -- from here on the module is the block that is visited
  rw [run_modify_bind] at hrun
  obtain ⟨scope, s₃, hscope, hrun⟩ := run_bind_ok.mp hrun
  have hunmoved : Unmoved _ _ := Leads.of_run (leads_scopeOf s.module) hscope
  obtain ⟨⟨⟩, s₄, hwithin, hrun⟩ := run_bind_ok.mp hrun
  have henter : (∀ ds, Documented ds s₂ → Documented ds s₄) ∧ s₄.path = s.module :: s₂.path ∧
      s₄.site = s₂.site := by
    obtain ⟨-, rfl⟩ := Prod.mk.inj hwithin
    refine ⟨fun ds hs => ?_, hunmoved.path, hunmoved.site⟩
    have hinside : Documented ds { s₂ with path := s.module :: s₂.path } := hs.congr rfl rfl rfl
    exact (hinside.unmoved hunmoved).congr rfl rfl rfl
  obtain ⟨⟨⟩, s₅, hvisit, hrun⟩ := run_bind_ok.mp hrun
  have hfile₄ := (congrArg Prod.fst henter.2.2).trans (htied.file.trans hfile)
  have hadds := visitAll_adds (fun t ht => visit_adds (hbody t ht)) hfile₄ hvisit
  rw [henter.2.1, htied.path, hpath] at hadds
  obtain ⟨⟨⟩, s₆, hleave, hrun⟩ := run_bind_ok.mp hrun
  obtain ⟨⟨⟩, s₇, hlast, hrun⟩ := run_bind_ok.mp hrun
  rw [addDefines_run] at hrun
  obtain ⟨-, rfl⟩ := Prod.mk.inj hrun
  have hblock := htied.trans (block_adds henter hadds hleave)
  have hdefined : Quiet s₇ (s₇.definedBy id none) :=
    ⟨fun ds hs => hs.definedBy id nofun, rfl, rfl⟩
  exact (hblock.quiet (Leads.of_run (leads_setLast none) hlast)).quiet hdefined

end Adding

lemma lift_run {α : Type} (result : Except Fault α) (s : State) :
    (lift result).run.run s = (result, s) := by
  cases result with
  | ok a | error e => rfl

def State.scopesWith (s : State) (block : Block) : List (String × Scope) :=
  (blockScopes s.module [] block).foldl (fun scopes (space, scope) =>
    match Assoc.get? space scopes with
    | some old => Assoc.set space (Scope.extend old scope) scopes
    | none => scopes ++ [(space, scope)]) s.scopes

def State.opened (s : State) (file module : String) (block : Block) : State :=
  { s with
    file := some file, module, scopes := State.scopesWith { s with module } block }

def State.closed (s : State) : State :=
  { s with module := "", file := none }

def Program.made (p : Program) (file : String) : List Made :=
  ((do
    let text ← p.folder.readText file
    let name ← moduleName p.folder file
    return ((p.parse text).map (·.made file name)).getD []) :
      Except Fault (List Made)).toOption.getD []

lemma visitFile_ok_iff {p : Program} {file : String} {s s' : State} :
    (visitFile p file).run.run s = (.ok (), s') ↔ file ∈ s.files ∧ ∃ text name source s₁,
      p.folder.readText file = .ok text ∧ p.nameOf s.root file = .ok name ∧
      p.parse text = some source ∧
      (visitModule source.body).run.run (s.opened file name source.block) = (.ok (), s₁) ∧
      s' = s₁.closed := by
  have hscopes : ∀ name block, (addScopes block).run.run { s with file := some file, module := name }
      = (.ok (), s.opened file name block) := fun _ _ => rfl
  rw [visitFile, run_get_bind]
  by_cases hin : file ∈ s.files
  · rw [if_neg (by simp [hin])]
    constructor
    · intro hrun
      obtain ⟨text, s₁, htext, hrun⟩ := run_bind_ok.mp hrun
      rw [lift_run] at htext
      obtain ⟨hread, rfl⟩ := Prod.mk.inj htext
      rw [run_modify_bind] at hrun
      obtain ⟨name, s₁, hname, hrun⟩ := run_bind_ok.mp hrun
      rw [lift_run] at hname
      obtain ⟨hmod, rfl⟩ := Prod.mk.inj hname
      rw [run_modify_bind] at hrun
      cases hparse : p.parse text with
      | none =>
        simp only [hparse] at hrun
        rw [run_bind] at hrun
        cases hrun
      | some source =>
        simp only [hparse] at hrun
        rw [run_bind_of_ok (hscopes name source.block)] at hrun
        obtain ⟨⟨⟩, s₁, hvisit, hrun⟩ := run_bind_ok.mp hrun
        obtain ⟨-, rfl⟩ := Prod.mk.inj hrun
        exact ⟨hin, text, name, source, s₁, hread, hmod, hparse, hvisit, rfl⟩
    · rintro ⟨-, text, name, source, s₁, htext, hname, hparse, hvisit, rfl⟩
      have hlift : ∀ {α : Type} {result : Except Fault α} {a : α} (s : State), result = .ok a →
          (lift result).run.run s = (.ok a, s) := by
        intro α result a s h
        rw [lift_run, h]
      rw [run_bind_of_ok (hlift s htext), run_modify_bind, run_bind_of_ok (hlift _ hname),
        run_modify_bind, hparse, run_bind_of_ok (hscopes name source.block),
        run_bind_of_ok hvisit]
      rfl
  · rw [if_pos (by simp [hin])]
    constructor
    · intro hrun
      rw [run_bind] at hrun
      cases hrun
    · exact fun h => absurd h.1 hin

lemma visitFile_adds {p : Program} {file : String} {s s' : State}
    (hproper : ∀ text source, p.parse text = some source → Tree.allProper source.body = true)
    (hpath : s.path = []) (hroot : s.root = none)
    (hrun : (visitFile p file).run.run s = (.ok (), s')) :
    (∀ ds, Documented ds s → Documented (ds ++ p.made file) s') ∧ s'.path = [] ∧
      s'.root = none := by
  obtain ⟨-, text, name, source, s₁, htext, hname, hparse, hvisit, rfl⟩ := visitFile_ok_iff.mp hrun
  rw [hroot] at hname
  have hopen : (s.opened file name source.block).path = [] := hpath
  have hadds := visitModule_adds (hproper text source hparse) rfl hopen hvisit
  have hmade : p.made file = source.made file name := by
    have hmodule : moduleName p.folder file = .ok name := hname
    rw [Program.made, htext]
    simp only [bind, Except.bind, hmodule, hparse]
    rfl
  rw [hmade]
  refine ⟨fun ds hs => ?_, hadds.path.trans hpath, (congrArg Prod.snd hadds.site).trans hroot⟩
  have hs₁ := hadds.documented ds (hs.congr rfl rfl rfl)
  exact hs₁.congr rfl rfl rfl

lemma visitFiles_adds {p : Program} {files : List String} {s s' : State}
    (hproper : ∀ text source, p.parse text = some source → Tree.allProper source.body = true)
    (hpath : s.path = []) (hroot : s.root = none)
    (hrun : (files.forM (visitFile p)).run.run s = (.ok (), s')) :
    (∀ ds, Documented ds s → Documented (ds ++ files.flatMap p.made) s') ∧ s'.path = [] ∧
      s'.root = none := by
  induction files generalizing s with
  | nil =>
    obtain ⟨-, rfl⟩ := Prod.mk.inj hrun
    exact ⟨fun ds hs => (append_nil ds).symm ▸ hs, hpath, hroot⟩
  | cons file files ih =>
    obtain ⟨⟨⟩, s₁, hfirst, hrest⟩ := run_bind_ok.mp hrun
    obtain ⟨hadds, hpath, hroot⟩ := visitFile_adds hproper hpath hroot hfirst
    obtain ⟨hadds', hplace⟩ := ih hpath hroot hrest
    refine ⟨fun ds hs => ?_, hplace⟩
    rw [flatMap_cons, ← append_assoc]
    exact hadds' _ (hadds ds hs)

/-! ## Lines of classes -/

lemma leads_inScope {α : Type} (space : String) {step : Visit α} (hstep : Leads Quiet step) :
    Leads Quiet (inScope space step) := by
  refine (leads_scopeOf space).bind fun _ => ?_
  refine Leads.bind (fun _ => quiet_of_eq rfl rfl rfl rfl rfl) fun _ => hstep.bind fun result => ?_
  exact Leads.bind (fun _ => quiet_of_eq rfl rfl rfl rfl rfl) fun _ => leads_pure result

lemma leads_baseClass (space : String) (base : Tree) : Leads Quiet (baseClass space base) := by
  refine (leads_inScope space ?_).bind fun found => ?_
  · split
    · exact leads_valueOf _
    · exact (leads_readAttribute _ _ _).bind fun _ => leads_pure _
    · exact leads_pure _
  · split
    · exact (leads_symbolOf _).bind fun _ => leads_pure _
    · exact leads_pure _

lemma leads_findLines : Leads Quiet findLines := by
  refine leads_get.bind fun s => ?_
  refine (leads_mapM (fun e => ?_) s.bases).bind fun parents _ =>
    quiet_of_eq rfl rfl rfl rfl rfl
  exact (leads_symbolOf _).bind fun x =>
    (leads_filterMapM (fun t => leads_baseClass _ t) _).bind fun _ => leads_pure _

/-! ## Both rounds -/

lemma start_ok_iff {p : Program} {files : List String} {s : State} :
    start p files none = .ok s ↔ ∃ modules,
      (files.mapM fun f => do return (← moduleName p.folder f, f)) = .ok modules ∧
      { modules := Assoc.ofList modules, files, root := none } = s := by
  rw [start]
  cases files.mapM fun f => do return (← moduleName p.folder f, f) with
  | error e => simp [bind, Except.bind]
  | ok modules => simp [bind, Except.bind, pure, Except.pure]

def Program.Visited (p : Program) (files : List String) (s : State) : Prop :=
  ∃ s₀ s₁ s₂, start p files none = .ok s₀ ∧
    (files.forM (visitFile p)).run.run s₀ = (.ok (), s₁) ∧
    findLines.run.run s₁ = (.ok (), s₂) ∧
    (files.forM (visitFile p)).run.run s₂ = (.ok (), s)

end Docsmith.Calls

