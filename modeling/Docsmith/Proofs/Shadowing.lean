import Docsmith.Proofs.Uses

/-! # Parameters and outer names of the same spelling

What a name stands for is asked in the scopes around a read, from the innermost to the outermost. A
visit leaves a name that it binds nowhere alone (`visit_spares`), so wherever the visit of a body
comes to (`Meets`) the name stands for what it did when the body was begun (`Meets.deepens`). The
scope of a function knows ordinary parameters and those given by name only; a read of another
parameter is taken for a use of the outer name (`param_read_iff`). -/

namespace Docsmith.Calls

open List

variable {p inner : String} {s s' s₁ s₂ : State}

/-! ## What visits leave of a name -/

/-- What a name stands for stays in every scope, and the visit goes on in the scopes where it
was. -/
structure Spares (p : String) (s s' : State) : Prop where
  member : ∀ space, s'.member? space p = s.member? space p
  within : s'.within = s.within

instance : IsPreorder State (Spares p) where
  refl _ := ⟨fun _ => rfl, rfl⟩
  trans _ _ _ h h' :=
    ⟨fun space => (h'.member space).trans (h.member space), h'.within.trans h.within⟩

lemma spares_of_eq (hscopes : s'.scopes = s.scopes) (hwithin : s'.within = s.within) :
    Spares p s s' := by
  refine ⟨fun space => ?_, hwithin⟩
  rw [State.member?, State.member?, State.scope?, State.scope?, hscopes]

lemma spares_raise (id : Id) (flavor : Flavor) : Spares p s (s.raise id flavor) := by
  rcases s.raise_cases id flavor with heq | ⟨-, heq⟩
  · rw [heq]
    exact spares_of_eq rfl rfl
  · rw [heq]
    exact spares_of_eq rfl rfl

instance : Tolerates (Spares p) where
  raise _ id flavor _ := spares_raise id flavor
  push _ _ _ _ _ := spares_of_eq rfl rfl
  note _ _ _ _ := spares_of_eq rfl rfl

lemma leads_addDefines (source : Id) (target : Option Id) :
    Leads (Spares p) (addDefines source target) := by
  intro s
  rw [addDefines_run]
  cases target with
  | none => exact spares_of_eq rfl rfl
  | some t =>
    rw [State.definedBy]
    split
    · exact spares_of_eq rfl rfl
    · exact spares_of_eq rfl rfl

instance : Encloses (Spares p) where
  leave h h' := ⟨fun space => (h'.member space).trans (h.member space),
    (congrArg List.tail h'.within).trans h.within⟩
  abandon h := ⟨h.member, h.within⟩
  define outer _ label := (leads_symbolFor _ label rfl .nameSpace).bind fun block =>
    (leads_addDefines outer (some block)).bind fun _ => leads_setLast _

lemma binds_spares {name : String} (h : name ≠ p) : Binds (Spares p) name := by
  refine ⟨fun space value s => ?_⟩
  rcases setName_run space name value s with ⟨-, hrun⟩ | ⟨scope, hscope, hrun⟩
  · rw [hrun]
    exact refl_of (Spares p) s
  · rw [hrun]
    refine ⟨fun other => ?_, rfl⟩
    rw [member?_set hscope, if_neg fun heq => h heq.2.symm]

lemma binds_of_notMem {names : List String} (h : p ∉ names) :
    ∀ name ∈ names, Binds (Spares p) name :=
  fun _ hname => binds_spares fun heq => h (heq ▸ hname)

lemma leads_define {name : String} (h : name ≠ p) (origin : Origin) (flavor : Flavor) :
    Leads (Spares p) (define name origin flavor) := by
  have hbinds := binds_spares h
  refine leads_current.bind fun outer => (leads_symbolOf outer).bind fun _ => ?_
  refine Leads.bind ?_ fun id => (leads_addDefines _ _).bind fun _ => ?_
  · exact leads_symbolFor_of (by rintro ⟨⟩) fun _ _ => spares_of_eq rfl rfl
  · exact Leads.bind (fun _ => spares_of_eq rfl rfl) fun _ =>
      (leads_bindName name _).bind fun _ => leads_pure _

structure Nests (p inner : String) (s s' : State) : Prop where
  member : ∀ space, s'.member? space p = s.member? space p
  within : s'.within = inner :: s.within

lemma Nests.spares (h : Nests p inner s s₁) (h' : Spares p s₁ s₂) : Nests p inner s s₂ :=
  ⟨fun space => (h'.member space).trans (h.member space), h'.within.trans h.within⟩

lemma nests_enterBlock {name : String} {isClass : Bool}
    (hrun : (enterBlock name isClass).run.run s = (.ok inner, s')) : Nests p inner s s' := by
  rw [enterBlock, run_modify_bind] at hrun
  obtain ⟨inner', s₁, hname, hrun⟩ := run_bind_ok.mp hrun
  have hspares : Spares p _ _ := Leads.of_run leads_currentName hname
  obtain ⟨scope, s₂, hscope, hrun⟩ := run_bind_ok.mp hrun
  have hspares' : Spares p _ _ := trans_of (Spares p) hspares (Leads.of_run (leads_scopeOf inner') hscope)
  rw [run_modify_bind] at hrun
  obtain ⟨hinner, rfl⟩ := Prod.mk.inj hrun
  obtain rfl := Except.ok.inj hinner
  exact ⟨hspares'.member, congrArg (inner' :: ·) hspares'.within⟩

/-- The parameter that stands for the object or class of a method is bound to the class. -/
def bindSelf (inner : String) (self : Option String) : Visit Unit := do
  match self, (← get).classes.head? with
  | some self, some c => setName inner self c
  | _, _ => pure ()

/-- The visit of a function up to its defaults: its block is entered and its parameters are
marked. -/
def openFunction (head : Head) (decorators : List Tree) : Visit String := do
  setLast none
  let names ← decoratorNames decorators
  let flavor := functionFlavor ((← get).inClass.headD false) names
  let _ ← define head.name (.ofHead head) flavor
  let inner ← enterBlock head.name false
  markParams inner head.params
  bindSelf inner (selfName? flavor head.params)
  return inner

lemma visit_function (head : Head) (decorators defaults body : List Tree) :
    visit (.function head decorators defaults body) = (do
      let _ ← openFunction head decorators
      visitAll defaults
      visitAll body
      leaveBlock) := by
  rw [openFunction]
  simp only [bind_assoc, bindSelf]
  refine bind_congr fun _ => bind_congr fun names => bind_congr fun s => bind_congr fun _ => ?_
  refine bind_congr fun inner => bind_congr fun _ => bind_congr fun s' => ?_
  generalize selfName? _ head.params = self
  generalize s'.classes.head? = c
  cases self with
  | none => rfl
  | some self =>
    cases c with
    | none | some c => rfl

def Enters (label inner : String) (s s' : State) : Prop :=
  ∃ s₁, currentName.run.run { s with path := label :: s.path } = (.ok inner, s₁) ∧
    (s₁.scope? inner).isSome = true ∧
    s' = { s₁ with within := inner :: s₁.within, inClass := false :: s₁.inClass }

lemma Enters.nests {label : String} (h : Enters label inner s s') : Nests p inner s s' := by
  obtain ⟨s₁, hname, -, rfl⟩ := h
  have hspares : Spares p _ _ := Leads.of_run leads_currentName hname
  exact ⟨hspares.member, congrArg (inner :: ·) hspares.within⟩

lemma leads_bindSelf {self : Option String} (h : ∀ name ∈ self, name ≠ p) :
    Leads (Spares p) (bindSelf inner self) := by
  refine leads_get.bind fun s => ?_
  split
  · rename_i self c _
    exact (binds_spares (h self rfl)).set inner c
  · exact leads_pure ()

lemma selfName?_mem {flavor : Flavor} {params : Params} {name : String}
    (h : name ∈ selfName? flavor params) : name ∈ params.ordinary := by
  unfold selfName? at h
  split at h
  · exact mem_of_mem_head? h
  · exact mem_of_mem_head? h
  · cases h

lemma plain_spares {t : Tree} (hrun : (visit t).run.run s = (.ok (), s')) (h : t.isPlain = true)
    (hp : p ∉ t.bound) : Spares p s s' :=
  Leads.of_run (leads_plain h (binds_of_notMem hp)) hrun

lemma leads_allPlain {ts : List Tree} (h : Tree.allPlain ts = true) (hp : p ∉ Tree.allBound ts) :
    ∀ t ∈ ts, Leads (Spares p) (visit t) :=
  leads_each (fun _ _ => leads_plain) h (binds_of_notMem hp)

lemma nests_openFunction {head : Head} {decorators : List Tree}
    (hplain : Tree.allPlain decorators = true) (hname : p ≠ head.name) (hparams : p ∉ head.params.marked)
    (hdecorators : p ∉ Tree.allBound decorators)
    (hrun : (openFunction head decorators).run.run s = (.ok inner, s')) : Nests p inner s s' := by
  rw [openFunction] at hrun
  obtain ⟨⟨⟩, s₁, hlast, hrun⟩ := run_bind_ok.mp hrun
  obtain ⟨names, s₂, hnames, hrun⟩ := run_bind_ok.mp hrun
  rw [run_get_bind] at hrun
  obtain ⟨id, s₃, hdefine, hrun⟩ := run_bind_ok.mp hrun
  obtain ⟨inner', s₄, henter, hrun⟩ := run_bind_ok.mp hrun
  obtain ⟨⟨⟩, s₅, hmark, hrun⟩ := run_bind_ok.mp hrun
  obtain ⟨⟨⟩, s₆, hself, hrun⟩ := run_bind_ok.mp hrun
  obtain ⟨hinner, rfl⟩ := Prod.mk.inj hrun
  obtain rfl := Except.ok.inj hinner
  have hbefore : Spares p s s₃ := trans_of (Spares p) (trans_of (Spares p)
    (Leads.of_run (leads_setLast none) hlast)
    (Leads.of_run (leads_decoratorNames (leads_allPlain hplain hdecorators)) hnames))
    (Leads.of_run (leads_define (Ne.symm hname) _ _) hdefine)
  have hafter : Spares p s₄ s₆ := trans_of (Spares p)
    (Leads.of_run (leads_markParams inner' (binds_of_notMem hparams)) hmark)
    (Leads.of_run (leads_bindSelf fun name hmem heq => hparams (heq ▸
      mem_append_left _ (selfName?_mem hmem))) hself)
  have hnests := (nests_enterBlock henter).spares hafter
  exact ⟨fun space => (hnests.member space).trans (hbefore.member space),
    hnests.within.trans (congrArg (inner' :: ·) hbefore.within)⟩

lemma visitAll_spares {ts : List Tree}
    (h : ∀ t ∈ ts, ∀ s s', (visit t).run.run s = (.ok (), s') → Spares p s s')
    (hrun : (visitAll ts).run.run s = (.ok (), s')) : Spares p s s' := by
  induction ts generalizing s with
  | nil =>
    rw [visitAll] at hrun
    obtain ⟨-, rfl⟩ := Prod.mk.inj hrun
    exact refl_of (Spares p) s
  | cons t ts ih =>
    rw [visitAll] at hrun
    obtain ⟨⟨⟩, s₁, hfirst, hrest⟩ := run_bind_ok.mp hrun
    exact trans_of (Spares p) (h t mem_cons_self s s₁ hfirst)
      (ih (fun u hu => h u (mem_cons_of_mem _ hu)) hrest)

lemma Nests.leave (h : Nests p inner s s₁) (hrun : leaveBlock.run.run s₁ = (.ok (), s')) :
    Spares p s s' := by
  obtain ⟨-, rfl⟩ := Prod.mk.inj hrun
  exact ⟨h.member, congrArg List.tail h.within⟩

def openClass (name : String) (bases : List Tree) : Visit Unit := do
  let id ← define name { kind := "ClassDef" } .classObject
  modify fun s => { s with classes := id :: s.classes }
  let _ ← enterBlock name true
  modify fun s => { s with bases := Assoc.set id bases s.bases }

lemma visit_classDef (name : String) (bases body : List Tree) :
    visit (.classDef name bases body) = (do
      openClass name bases
      visitAll bases
      visitAll body
      leaveBlock
      modify fun s => { s with classes := s.classes.tail }) := by
  rw [visit, openClass]
  simp only [bind_assoc]

lemma nests_openClass {name : String} {bases : List Tree} (hp : name ≠ p)
    (hrun : (openClass name bases).run.run s = (.ok (), s')) : ∃ inner, Nests p inner s s' := by
  rw [openClass] at hrun
  obtain ⟨id, s₁, hdefine, hrun⟩ := run_bind_ok.mp hrun
  rw [run_modify_bind] at hrun
  obtain ⟨inner, s₂, henter, hrun⟩ := run_bind_ok.mp hrun
  obtain ⟨-, rfl⟩ := Prod.mk.inj hrun
  have hspares := Leads.of_run (leads_define hp _ _) hdefine
  have hnests : Nests p inner _ s₂ := nests_enterBlock henter
  exact ⟨inner, fun space => (hnests.member space).trans (hspares.member space),
    hnests.within.trans (congrArg (inner :: ·) hspares.within)⟩

lemma visit_spares {t : Tree} (ht : t.isProper = true) (hp : p ∉ t.bound)
    (hrun : (visit t).run.run s = (.ok (), s')) : Spares p s s' := by
  induction t using Tree.induct generalizing s s' with
  | group ts ih =>
    rw [Tree.isProper, Tree.allProper_iff] at ht
    rw [Tree.bound, Tree.mem_allBound] at hp
    rw [visit] at hrun
    exact visitAll_spares (fun t hmem s s' => ih t hmem (ht t hmem) fun h => hp ⟨t, hmem, h⟩) hrun
  | function head decorators defaults body ihdecorators ihdefaults ihbody =>
    simp only [Tree.isProper, Bool.and_eq_true, Tree.allProper_iff] at ht
    simp only [Tree.bound, cons_append, mem_cons, mem_append, not_or] at hp
    obtain ⟨⟨⟨-, hdecorators⟩, hdefaults⟩, hbody⟩ := ht
    obtain ⟨hname, ⟨⟨hparams, hpdecorators⟩, hpdefaults⟩, hpbody⟩ := hp
    rw [Tree.mem_allBound] at hpbody
    rw [visit_function] at hrun
    obtain ⟨inner, s₁, hopen, hrun⟩ := run_bind_ok.mp hrun
    obtain ⟨⟨⟩, s₂, hvisit, hrun⟩ := run_bind_ok.mp hrun
    obtain ⟨⟨⟩, s₃, hvisitBody, hleave⟩ := run_bind_ok.mp hrun
    have hinside : Spares p s₁ s₃ := trans_of (Spares p)
      (Leads.of_run (leads_visitAll (leads_allPlain hdefaults hpdefaults)) hvisit)
      (visitAll_spares (fun t ht s s' => ihbody t ht (hbody t ht) fun h => hpbody ⟨t, ht, h⟩) hvisitBody)
    have hnests := nests_openFunction hdecorators hname hparams hpdecorators hopen
    exact (hnests.spares hinside).leave hleave
  | classDef name bases body ihbases ihbody =>
    simp only [Tree.isProper, Bool.and_eq_true, Tree.allProper_iff] at ht
    simp only [Tree.bound, cons_append, mem_cons, mem_append, not_or] at hp
    obtain ⟨hname, hpbases, hpbody⟩ := hp
    rw [Tree.mem_allBound] at hpbody
    rw [visit_classDef] at hrun
    obtain ⟨⟨⟩, s₁, hopen, hrun⟩ := run_bind_ok.mp hrun
    obtain ⟨⟨⟩, s₂, hvisit, hrun⟩ := run_bind_ok.mp hrun
    obtain ⟨⟨⟩, s₃, hvisitBody, hrun⟩ := run_bind_ok.mp hrun
    obtain ⟨⟨⟩, s₄, hleave, hrun⟩ := run_bind_ok.mp hrun
    obtain ⟨-, rfl⟩ := Prod.mk.inj hrun
    have hinside : Spares p s₁ s₃ := trans_of (Spares p)
      (Leads.of_run (leads_visitAll (leads_allPlain ht.1.2 hpbases)) hvisit)
      (visitAll_spares (fun t hmem s s' => ihbody t hmem (ht.2 t hmem) fun h => hpbody ⟨t, hmem, h⟩)
        hvisitBody)
    obtain ⟨inner, hnests⟩ := nests_openClass (Ne.symm hname) hopen
    have hleft := (hnests.spares hinside).leave hleave
    exact ⟨hleft.member, hleft.within⟩
  | _ => exact plain_spares hrun ht hp

/-! ## The places that a visit comes to -/

/-- Trees that are visited in a row on a visit of a tree, and the state from which they are. -/
inductive Opens : State → Tree → State → List Tree → Prop
  | group {s ts} : Opens s (.group ts) s ts
  | object {s s' value attr mode} : (visitAttribute value attr mode).run.run s = (.ok true, s') →
    Opens s (.attribute value attr mode) s' [value]
  | args {s func args keywords} : Opens s (.call func args keywords) s args
  | keywords {s s' func args keywords} : (visitAll args).run.run s = (.ok (), s') →
    Opens s (.call func args keywords) s' keywords
  | func {s s₁ s₂ s' func args keywords} : (visitAll args).run.run s = (.ok (), s₁) →
    (visitAll keywords).run.run s₁ = (.ok (), s₂) →
    (orUnresolved (objectOf (.call func args keywords)) none).run.run s₂ = (.ok none, s') →
    Opens s (.call func args keywords) s' [func]
  | values {s targets values} : Opens s (.bind targets values) s values
  | captured {s s' found targets values} : (captureAll values).run.run s = (.ok found, s') →
    Opens s (.bind targets values) s' targets
  | targets {s s' targets values} : (visitAll values).run.run s = (.ok (), s') →
    Opens s (.bind targets values) s' targets
  | declare {s target} : Opens s (.declare target) s [target]
  | enter {s context} : Opens s (.enter context) s context
  | decorators {s head decorators defaults body} :
    Opens s (.function head decorators defaults body) s decorators
  | function {s s' inner head decorators defaults body} :
    (openFunction head decorators).run.run s = (.ok inner, s') →
    Opens s (.function head decorators defaults body) s' (defaults ++ body)
  | lambda {s s₁ s' inner params defaults body} : Enters "lambda" inner s s₁ →
    (markParams inner params).run.run s₁ = (.ok (), s') →
    Opens s (.lambda params defaults body) s' (defaults ++ [body])
  | iters {s iters targets conditions further element} :
    Opens s (.generator iters targets conditions further element) s iters
  | generator {s s₁ s' inner iters targets conditions further element} :
    (visitAll iters).run.run s = (.ok (), s₁) → Enters "genexpr" inner s₁ s' →
    Opens s (.generator iters targets conditions further element) s'
      (targets ++ conditions ++ further ++ [element])
  | classDef {s s' name bases body} : (openClass name bases).run.run s = (.ok (), s') →
    Opens s (.classDef name bases body) s' (bases ++ body)

/-- A visit of trees in a row comes to a tree in a state. -/
inductive Meets : State → List Tree → State → Tree → Prop
  | here {s t ts} (last : Option Id) : Meets s (t :: ts) { s with last } t
  | later {s s₁ s' t u ts} (last : Option Id) : (visit t).run.run { s with last } = (.ok (), s₁) →
    Meets s₁ ts s' u → Meets s (t :: ts) s' u
  | inside {s s₁ s' t u ts us} (last : Option Id) : Opens { s with last } t s₁ us →
    Meets s₁ us s' u → Meets s (t :: ts) s' u

/-- The name stands for what it did, in the scopes where the visit was and maybe some within. -/
structure Deepens (p : String) (s s' : State) : Prop where
  member : ∀ space, s'.member? space p = s.member? space p
  within : ∃ deeper, s'.within = deeper ++ s.within

lemma Deepens.trans (h : Deepens p s s₁) (h' : Deepens p s₁ s₂) : Deepens p s s₂ := by
  obtain ⟨deeper, hwithin⟩ := h.within
  obtain ⟨deeper', hwithin'⟩ := h'.within
  refine ⟨fun space => (h'.member space).trans (h.member space), deeper' ++ deeper, ?_⟩
  rw [hwithin', hwithin, append_assoc]

lemma Spares.deepens (h : Spares p s s') : Deepens p s s' :=
  ⟨h.member, [], h.within⟩

lemma Nests.deepens (h : Nests p inner s s') : Deepens p s s' :=
  ⟨h.member, [inner], h.within⟩

lemma Tree.isProper_of_isPlain {t : Tree} (h : t.isPlain = true) : t.isProper = true := by
  induction t using Tree.induct with
  | group ts ih =>
    rw [Tree.isPlain, Tree.allPlain_iff] at h
    rw [Tree.isProper, Tree.allProper_iff]
    exact fun t ht => ih t ht (h t ht)
  | function | classDef => cases h
  | _ => exact h

def Spared (p : String) (ts : List Tree) : Prop :=
  Tree.allProper ts = true ∧ p ∉ Tree.allBound ts

lemma Spared.append {ts us : List Tree} (h : Spared p ts) (h' : Spared p us) :
    Spared p (ts ++ us) := by
  simp only [Spared, Tree.allProper_iff, Tree.mem_allBound] at h h' ⊢
  grind

lemma spared_singleton {t : Tree} (h : t.isProper = true) (hp : p ∉ t.bound) : Spared p [t] := by
  simp [Spared, Tree.allProper, Tree.allBound, h, hp]

lemma spared_of_plain {ts : List Tree} (h : Tree.allPlain ts = true) (hp : p ∉ Tree.allBound ts) :
    Spared p ts := by
  rw [Tree.allPlain_iff] at h
  exact ⟨Tree.allProper_iff.mpr fun t ht => Tree.isProper_of_isPlain (h t ht), hp⟩

lemma Opens.spared {t : Tree} {us : List Tree} (h : Opens s t s' us) (ht : t.isProper = true)
    (hp : p ∉ t.bound) : Spared p us ∧ Deepens p s s' := by
  have hsame : Deepens p s s := (refl_of (Spares p) s).deepens
  have hrow : ∀ {us : List Tree}, Tree.allPlain us = true → p ∉ Tree.allBound us → ∀ {s s'},
      (visitAll us).run.run s = (.ok (), s') → Deepens p s s' := fun hus hpus _ _ hrun =>
    (Leads.of_run (leads_visitAll (leads_allPlain hus hpus)) hrun).deepens
  have hone : ∀ {u : Tree}, u.isPlain = true → p ∉ u.bound → Spared p [u] := fun hu hpu =>
    spared_singleton (Tree.isProper_of_isPlain hu) hpu
  cases h
  case group => exact ⟨⟨ht, hp⟩, hsame⟩
  all_goals
    simp only [Tree.isProper, Bool.and_eq_true] at ht
    simp only [Tree.bound, cons_append, mem_cons, mem_append, not_or] at hp
  case object hrun =>
    refine ⟨hone ht hp.2, Spares.deepens ?_⟩
    refine Leads.of_run (leads_visitAttribute _ _ fun hmode => binds_spares ?_) hrun
    exact fun heq => hp.1 (by simp [hmode, heq])
  case args => exact ⟨spared_of_plain ht.1.2 hp.1.2, hsame⟩
  case keywords hrun => exact ⟨spared_of_plain ht.2 hp.2, hrow ht.1.2 hp.1.2 hrun⟩
  case func hargs hkeywords hrun =>
    have hobject : Spares p _ _ := Leads.of_run (leads_orUnresolved (leads_objectOf _) none) hrun
    exact ⟨hone ht.1.1 hp.1.1,
      (hrow ht.1.2 hp.1.2 hargs).trans ((hrow ht.2 hp.2 hkeywords).trans hobject.deepens)⟩
  case values => exact ⟨spared_of_plain ht.2 hp.2, hsame⟩
  case captured hrun =>
    refine ⟨spared_of_plain ht.1 hp.1, Spares.deepens ?_⟩
    exact Leads.of_run (leads_captureAll (leads_allPlain ht.2 hp.2)) hrun
  case targets hrun => exact ⟨spared_of_plain ht.1 hp.1, hrow ht.2 hp.2 hrun⟩
  case declare => exact ⟨hone ht hp, hsame⟩
  case enter => exact ⟨spared_of_plain ht hp, hsame⟩
  case decorators => exact ⟨spared_of_plain ht.1.1.2 hp.2.1.1.2, hsame⟩
  case function hrun =>
    obtain ⟨hname, ⟨⟨hparams, hdecorators⟩, hdefaults⟩, hbody⟩ := hp
    exact ⟨(spared_of_plain ht.1.2 hdefaults).append ⟨ht.2, hbody⟩,
      (nests_openFunction ht.1.1.2 hname hparams hdecorators hrun).deepens⟩
  case lambda henter hrun =>
    have hmark := Leads.of_run (leads_markParams _ (binds_of_notMem hp.1.1)) hrun
    exact ⟨(spared_of_plain ht.1 hp.1.2).append (hone ht.2 hp.2), (henter.nests.spares hmark).deepens⟩
  case iters => exact ⟨spared_of_plain ht.1.1.1.1 hp.1.1.1.1, hsame⟩
  case generator hrun henter =>
    obtain ⟨⟨⟨⟨hiters, htargets⟩, hconditions⟩, hfurther⟩, helement⟩ := ht
    obtain ⟨⟨⟨⟨hpiters, hptargets⟩, hpconditions⟩, hpfurther⟩, hpelement⟩ := hp
    have hloop := (spared_of_plain htargets hptargets).append (spared_of_plain hconditions hpconditions)
    exact ⟨(hloop.append (spared_of_plain hfurther hpfurther)).append (hone helement hpelement),
      (hrow hiters hpiters hrun).trans henter.nests.deepens⟩
  case classDef hrun =>
    obtain ⟨inner, hnests⟩ := nests_openClass (Ne.symm hp.1) hrun
    exact ⟨(spared_of_plain ht.1.2 hp.2.1).append ⟨ht.2, hp.2.2⟩, hnests.deepens⟩

lemma Meets.deepens {ts : List Tree} {u : Tree} (h : Meets s ts s' u) (hts : Spared p ts) :
    Deepens p s s' := by
  have hcons : ∀ {t : Tree} {ts : List Tree}, Spared p (t :: ts) →
      (t.isProper = true ∧ p ∉ t.bound) ∧ Spared p ts := by
    intro t ts h
    simp only [Spared, Tree.allProper, Tree.allBound, Bool.and_eq_true, mem_append, not_or] at h
    exact ⟨⟨h.1.1, h.2.1⟩, h.1.2, h.2.2⟩
  induction h with
  | here last => exact ⟨fun _ => rfl, [], rfl⟩
  | later last hrun _ ih =>
    obtain ⟨⟨ht, hp⟩, hrest⟩ := hcons hts
    have hspares := visit_spares ht hp hrun
    exact Deepens.trans ⟨hspares.member, [], hspares.within⟩ (ih hrest)
  | inside last hopens _ ih =>
    obtain ⟨⟨ht, hp⟩, -⟩ := hcons hts
    obtain ⟨hus, hdeepens⟩ := hopens.spared ht hp
    exact Deepens.trans ⟨hdeepens.member, hdeepens.within⟩ (ih hus)

/-! ## Parameters -/

lemma member?_setName {q name : String} {v : Id} (hscope : (s.scope? inner).isSome = true)
    (hrun : (setName inner q v).run.run s = (.ok (), s')) :
    s'.member? inner name = if name = q then some v else s.member? inner name := by
  rcases setName_run inner q v s with ⟨hnone, -⟩ | ⟨scope, hsome, hset⟩
  · rw [hnone] at hscope
    cases hscope
  · obtain ⟨-, rfl⟩ := Prod.mk.inj (hrun.symm.trans hset)
    rw [member?_set hsome]
    simp only [true_and]

lemma member?_marks {ps : List String} {mark : Id} (hscope : (s.scope? inner).isSome = true)
    (hp : p ∈ ps) (hrun : (ps.forM fun q => setName inner q mark).run.run s = (.ok (), s')) :
    s'.member? inner p = some mark := by
  induction ps generalizing s with
  | nil => cases hp
  | cons q ps ih =>
    obtain ⟨⟨⟩, s₁, hset, hrest⟩ := run_bind_ok.mp hrun
    have hunmoved := Leads.of_run (leads_setName inner q mark) hset
    by_cases hlater : p ∈ ps
    · exact ih ((hunmoved.scopes inner).trans hscope) hlater hrest
    · obtain rfl := (mem_cons.mp hp).resolve_right hlater
      have hspares := Leads.of_run
        (leads_forM_of_mem fun q hq => (binds_of_notMem hlater q hq).set inner mark) hrest
      rw [hspares.member, member?_setName hscope hset, if_pos rfl]

lemma mem_named_symbolFor {space : Option String} {name : String} {flavor : Flavor} {id : Id}
    (hrun : (symbolFor space name none flavor).run.run s = (.ok id, s')) : id ∈ s'.named name := by
  rcases symbolFor_run space name none flavor s with ⟨i, hfind, hfor⟩ | ⟨-, hfor⟩
  · obtain ⟨hid, rfl⟩ := Prod.mk.inj (hrun.symm.trans hfor)
    obtain rfl := Except.ok.inj hid
    exact (unmoved_raise id flavor).named name id (State.find?_some hfind).1
  · obtain ⟨hid, rfl⟩ := Prod.mk.inj (hrun.symm.trans hfor)
    obtain rfl := Except.ok.inj hid
    rw [State.named_push]
    simp [State.fresh]

lemma markParams_ok {params : Params} (hp : p ∈ params.marked)
    (hrun : (markParams inner params).run.run s = (.ok (), s')) :
    ∃ mark, s'.member? inner p = some mark ∧ mark ∈ s'.named argumentName := by
  rw [markParams] at hrun
  obtain ⟨scope, s₁, hscope, hrun⟩ := run_bind_ok.mp hrun
  have hknown : (s.scope? inner).isSome = true := by
    rw [scopeOf, run_get_bind] at hscope
    split at hscope
    · rename_i hsome
      rw [hsome]
      rfl
    · cases hscope
  have hunmoved : Unmoved _ _ := Leads.of_run (leads_scopeOf inner) hscope
  obtain ⟨mark, s₂, hmark, hrun⟩ := run_bind_ok.mp hrun
  have hunmoved' : Unmoved _ _ := Leads.of_run (leads_symbolFor _ _ rfl _) hmark
  have hmarks : Unmoved _ _ :=
    Leads.of_run (leads_forM (fun q => leads_setName inner q mark) _) hrun
  refine ⟨mark, member?_marks ?_ hp hrun, hmarks.named _ _ (mem_named_symbolFor hmark)⟩
  rw [hunmoved'.scopes, hunmoved.scopes, hknown]

/-- The visit of a function or lambda has marked its parameters and comes to its body. -/
inductive Begins (s : State) : Tree → Params → String → List Tree → State → State → List Tree → Prop
  | function {s₁ s₂ inner head decorators defaults body} :
    (openFunction head decorators).run.run s = (.ok inner, s₁) →
    (visitAll defaults).run.run s₁ = (.ok (), s₂) →
    Begins s (.function head decorators defaults body) head.params inner defaults s₁ s₂ body
  | lambda {s₀ s₁ s₂ inner params defaults body} : Enters "lambda" inner s s₀ →
    (markParams inner params).run.run s₀ = (.ok (), s₁) →
    (visitAll defaults).run.run s₁ = (.ok (), s₂) →
    Begins s (.lambda params defaults body) params inner defaults s₁ s₂ [body]

lemma Begins.marked {t : Tree} {params : Params} {defaults body : List Tree}
    (h : Begins s t params inner defaults s₁ s₂ body) (hp : p ∈ params.marked) :
    ∃ v, s₁.member? inner p = some v ∧ (v ∈ s₁.named argumentName ∨ v ∈ s₁.classes) := by
  cases h with
  | lambda _ hmark _ =>
    obtain ⟨mark, hmember, hnamed⟩ := markParams_ok hp hmark
    exact ⟨mark, hmember, Or.inl hnamed⟩
  | function hopen _ =>
    rw [openFunction] at hopen
    obtain ⟨⟨⟩, t₁, -, hopen⟩ := run_bind_ok.mp hopen
    obtain ⟨names, t₂, -, hopen⟩ := run_bind_ok.mp hopen
    rw [run_get_bind] at hopen
    obtain ⟨id, t₃, -, hopen⟩ := run_bind_ok.mp hopen
    obtain ⟨inner', t₄, -, hopen⟩ := run_bind_ok.mp hopen
    obtain ⟨⟨⟩, t₅, hmark, hopen⟩ := run_bind_ok.mp hopen
    obtain ⟨⟨⟩, t₆, hself, hopen⟩ := run_bind_ok.mp hopen
    obtain ⟨hinner, rfl⟩ := Prod.mk.inj hopen
    obtain rfl := Except.ok.inj hinner
    obtain ⟨mark, hmember, hnamed⟩ := markParams_ok hp hmark
    rw [bindSelf, run_get_bind] at hself
    split at hself
    · rename_i self c _ hclass
      rcases setName_run inner' self c t₅ with ⟨-, hset⟩ | ⟨scope, hscope, hset⟩
      · obtain ⟨-, rfl⟩ := Prod.mk.inj (hself.symm.trans hset)
        exact ⟨mark, hmember, Or.inl hnamed⟩
      · obtain ⟨-, rfl⟩ := Prod.mk.inj (hself.symm.trans hset)
        by_cases heq : p = self
        · refine ⟨c, ?_, Or.inr (mem_of_mem_head? hclass)⟩
          rw [member?_set hscope, if_pos ⟨rfl, heq⟩]
        · refine ⟨mark, ?_, Or.inl hnamed⟩
          rw [member?_set hscope, if_neg fun h => heq h.2, hmember]
    · obtain ⟨-, rfl⟩ := Prod.mk.inj hself
      exact ⟨mark, hmember, Or.inl hnamed⟩

/-! ## Reads -/

/-- A symbol is a function of the given name, and no class that is visited. -/
structure State.Offers (s : State) (p : String) (g : Id) : Prop where
  name : (s.symbol g).name = p
  known : (s.symbol g).isWild = false
  noClass : g ∉ s.classes

lemma uses_current {id : Id} (h : current.run.run s = (.ok id, s')) : s'.uses = s.uses := by
  rw [current, run_get_bind] at h
  split at h
  · cases h
  · rename_i name outer _
    rcases symbolFor_run (some (Text.join "." outer.reverse)) name none .nameSpace s with
      ⟨i, -, hrun⟩ | ⟨-, hrun⟩
    · obtain ⟨-, rfl⟩ := Prod.mk.inj (h.symm.trans hrun)
      rcases s.raise_cases i .nameSpace with heq | ⟨-, heq⟩
      · rw [heq]
      · rw [heq]
        rfl
    · obtain ⟨-, rfl⟩ := Prod.mk.inj (h.symm.trans hrun)
      rfl

lemma read_ok {g v : Id} (hg : s.Offers p g) (hv : s.lookup p = some v)
    (hrun : (visit (.name p .load)).run.run s = (.ok (), s')) (x : Id) :
    g ∈ s'.uses.targets x ↔
      g ∈ s.uses.targets x ∨ (v = g ∧ ∃ s₁, current.run.run s = (.ok x, s₁)) := by
  have hvalue : (valueOf p).run.run s = (.ok (some v), s) := by
    rw [valueOf, run_get_bind, hv]
    rfl
  rw [visit, visitName, run_bind_of_ok hvalue, run_get_bind] at hrun
  dsimp only at hrun
  split at hrun
  · rename_i hclass
    obtain ⟨-, rfl⟩ := Prod.mk.inj hrun
    rw [Bool.and_eq_true, beq_iff_eq] at hclass
    refine (or_iff_left fun h => hg.noClass ?_).symm
    exact mem_of_mem_head? (h.1 ▸ hclass.2.symm)
  · rw [pure_bind] at hrun
    obtain ⟨user, s₁, hcurrent, hrun⟩ := run_bind_ok.mp hrun
    obtain ⟨⟨⟩, s₂, huses, hrun⟩ := run_bind_ok.mp hrun
    obtain ⟨-, rfl⟩ := Prod.mk.inj hrun
    have hjoins := addUses_ok huses
    have hknown : (s₁.symbol g).isWild = false := by
      have hunmoved : Unmoved _ _ := Leads.of_run leads_current hcurrent
      have hlt : g < s.symbols.size :=
        State.lt_of_symbol (P := (·.isWild = false)) hg.known (by decide)
      obtain ⟨flavor, heq, -⟩ := hunmoved.symbol g hlt
      rw [heq]
      exact hg.known
    rw [← uses_current hcurrent]
    constructor
    · intro hmem
      refine (hjoins.of_mem hmem).imp_right ?_
      rintro ⟨rfl, rfl⟩
      exact ⟨rfl, s₁, hcurrent⟩
    · rintro (hmem | ⟨rfl, s₃, hcurrent'⟩)
      · exact hjoins.mem hknown (Or.inl hmem)
      · have hx := Except.ok.inj (Prod.mk.inj (hcurrent.symm.trans hcurrent')).1
        exact hjoins.mem hknown (Or.inr ⟨hx.symm, rfl⟩)

lemma lookup_of_silent {deeper rest : List String} (hwithin : s.within = deeper ++ rest)
    (h : ∀ space ∈ deeper, s.member? space p = none) :
    s.lookup p = rest.findSome? fun space => s.member? space p := by
  have hnone : deeper.findSome? (fun space => s.member? space p) = none :=
    findSome?_eq_none_iff.mpr h
  show s.within.findSome? (fun space => s.member? space p) = _
  rw [hwithin, findSome?_append, hnone, Option.none_or]

/-- Around a function `p` stands for the function `g`, and the body binds its parameter `p` nowhere.
Then a read of `p` in the body is a use of `g` just if `p` is not among the parameters that are
marked and has no default: positions only, further positions and further names are not marked. -/
theorem param_read_iff {t : Tree} {params : Params} {defaults body : List Tree} {outer : List String}
    {g : Id} (hbegins : Begins s t params inner defaults s₁ s₂ body)
    (hdefaults : Tree.allPlain defaults = true) (hbody : Spared p body) (hs : s₁.Titled)
    (hp : p ≠ argumentName) (hg : s₁.Offers p g)
    (hfresh : p ∈ params.marked ∨ s₁.member? inner p = none) (hwithin : s₂.within = inner :: outer)
    (houter : outer.findSome? (fun space => s₂.member? space p) = some g)
    (hdefault : p ∈ Tree.allBound defaults → ∃ v ≠ g, s₂.member? inner p = some v)
    (hmeets : Meets s₂ body s' (.name p .load)) (hg' : s'.Offers p g) :
    ∃ deeper, s'.within = deeper ++ s₂.within ∧
      ((∀ space ∈ deeper, s'.member? space p = none) →
        ∀ s'', (visit (.name p .load)).run.run s' = (.ok (), s'') → ∀ x,
          g ∈ s''.uses.targets x ↔ g ∈ s'.uses.targets x ∨
            ((p ∉ params.marked ∧ p ∉ Tree.allBound defaults) ∧
              ∃ t, current.run.run s' = (.ok x, t))) := by
  have hdeepens := hmeets.deepens hbody
  obtain ⟨deeper, hdeeper⟩ := hdeepens.within
  refine ⟨deeper, hdeeper, fun hsilent s'' hrun x => ?_⟩
  -- the block of the function is asked first, and then the blocks around it
  have hlookup : s'.lookup p = (s₂.member? inner p).or (some g) := by
    rw [lookup_of_silent hdeeper hsilent, hwithin]
    simp only [hdeepens.member, List.findSome?_cons, houter]
    cases s₂.member? inner p with
    | none => rfl
    | some v => rfl
  have hv : ∃ v, s'.lookup p = some v ∧ (v = g ↔ p ∉ params.marked ∧ p ∉ Tree.allBound defaults) := by
    by_cases hbound : p ∈ Tree.allBound defaults
    · obtain ⟨v, hne, hv⟩ := hdefault hbound
      exact ⟨v, by rw [hlookup, hv, Option.some_or], by simp [hne, hbound]⟩
    · have hspares : Spares p s₁ s₂ := by
        cases hbegins with
        | function _ hrun => exact Leads.of_run (leads_visitAll (leads_allPlain hdefaults hbound)) hrun
        | lambda _ _ hrun => exact Leads.of_run (leads_visitAll (leads_allPlain hdefaults hbound)) hrun
      by_cases hmarked : p ∈ params.marked
      · obtain ⟨v, hv, hkind⟩ := hbegins.marked hmarked
        refine ⟨v, by rw [hlookup, hspares.member, hv, Option.some_or], iff_of_false ?_ (by simp [hmarked])⟩
        rintro rfl
        rcases hkind with hnamed | hclass
        · exact hp (hg.name.symm.trans (hs argumentName (by decide) v hnamed))
        · exact hg.noClass hclass
      · refine ⟨g, ?_, iff_of_true rfl ⟨hmarked, hbound⟩⟩
        rw [hlookup, hspares.member, hfresh.resolve_left hmarked, Option.none_or]
  obtain ⟨v, hv, hiff⟩ := hv
  rw [read_ok hg' hv hrun, hiff]

def aboutP : State where
  file := some "m.py"
  module := "m"
  symbols := #[⟨some "m", "p", none, some "m.py", .function, true⟩,
    ⟨some "", "m", none, some "m.py", .module, true⟩]
  table := [("p", [0]), ("m", [1])]
  scopes := [("m", [("p", some 0), ("f", none)]), ("m.f", [("p", none)])]
  path := ["m"]
  within := ["m"]
  inClass := [false]

def takesFurther : Head :=
  { name := "f", params := { others := some "p" }, span := ⟨3, 0, 4, 12⟩ }

def furtherOpen : State := ((openFunction takesFurther []).run.run aboutP).2

def furtherRead : State := { furtherOpen with last := none }

theorem param_read_iff_further : "p" ∉ takesFurther.params.marked ∧
    ∃ s'', (visit (.name "p" .load)).run.run furtherRead = (.ok (), s'') ∧
      0 ∈ s''.uses.targets 2 := by
  have hopen : (openFunction takesFurther []).run.run aboutP = (.ok "m.f", furtherOpen) :=
    run_eq_pair (by decide +kernel)
  have hdefaults : (visitAll []).run.run furtherOpen = (.ok (), furtherOpen) := by
    rw [visitAll]
    rfl
  have hbegins : Begins aboutP (.function takesFurther [] [] [.name "p" .load]) takesFurther.params "m.f"
    [] furtherOpen furtherOpen [.name "p" .load] := .function hopen hdefaults
  have hs : furtherOpen.Titled := by
    intro name _ id hid
    rw [State.named] at hid
    cases hget : Assoc.get? name furtherOpen.table with
    | none =>
      rw [hget] at hid
      cases hid
    | some ids =>
      rw [hget] at hid
      have hall : ∀ e ∈ furtherOpen.table, ∀ id ∈ e.2, (furtherOpen.symbol id).name = e.1 := by
        decide +kernel
      exact hall _ (Assoc.mem_of_get? hget) id hid
  obtain ⟨deeper, hdeeper, huses⟩ := param_read_iff hbegins rfl ⟨rfl, by decide⟩ hs (by decide)
    (g := 0) ⟨by decide +kernel, by decide +kernel, by decide +kernel⟩ (.inr (by decide +kernel))
    (show furtherOpen.within = "m.f" :: ["m"] by decide +kernel) (by decide +kernel) (fun h => absurd h (by decide))
    (Meets.here none) ⟨by decide +kernel, by decide +kernel, by decide +kernel⟩
  obtain rfl : deeper = [] := List.self_eq_append_left.mp hdeeper
  have hrun : (visit (.name "p" .load)).run.run furtherRead = (.ok (), _) := run_eq_pair (by decide +kernel)
  have hcurrent : current.run.run furtherRead = (.ok 2, _) := run_eq_pair (by decide +kernel)
  refine ⟨by decide, _, hrun, (huses (fun _ h => absurd h List.not_mem_nil) _ hrun 2).mpr (Or.inr ?_)⟩
  exact ⟨⟨by decide, by decide⟩, _, hcurrent⟩

/-- A file that defines `p`, and a function `f` with the parameter `*p` that it returns. -/
def starred : Program where
  folder := .folder "res" (.file "m.py"
    (.text "def p():\n    pass\ndef f(*p):\n    return p\n") .empty) .empty
  parse := fun _ => some {
    block := .mk "top" ["p", "f"] [.mk "p" [] [], .mk "f" ["p"] []]
    body := [.function { name := "p", span := ⟨1, 0, 2, 8⟩ } [] [] [.group []],
      .function { takesFurther with span := ⟨3, 0, 4, 12⟩ } [] [] [.group [.name "p" .load]]] }

def State.namedUses (s : State) : List (String × String) :=
  s.uses.flatMap fun u => u.2.map fun t => ((s.symbol u.1).fullName, (s.symbol t).fullName)

/-- The function is taken to use the function that its parameter hides. -/
theorem starred_exposed :
    (analyse starred ["res/m.py"] none).toOption.map State.namedUses = some [("m.f", "m.p")] := by
  decide +kernel

end Docsmith.Calls

