import Docsmith.Proofs.Chains

/-! # Rounds over a chain of modules

A visit of a file of a chain adds the uses of the module and of its function (`Told`) and nothing
that the chain does not have, so two rounds over all files leave all uses of the chain and no others
(`Chained.rounds`). -/

namespace Docsmith.Calls

open List

section Visits

variable {c : Chain} {s s' : State} {id : Id} {name : String}

/-! ## Blocks -/

lemma Chained.moved (hs : Chained c s) (path within : List String) {inClass : List Bool}
    (hclass : ∀ b ∈ inClass, b = false) (module : String) (file : Option String) :
    Chained c { s with path, within, inClass, module, file } :=
  ⟨⟨hs.indexed.named, hs.indexed.found⟩, hs.role, hs.keyed, hs.uses, hs.bound, hs.unbound, hs.bases,
    hs.classes, hclass, hs.modules⟩

lemma Gains.moved (s : State) (path within : List String) (inClass : List Bool) (module : String)
    (file : Option String) : Gains s { s with path, within, inClass, module, file } :=
  ⟨fun h => h, fun h => h, fun h => h, fun h => h⟩

lemma Follows.leave {t u : State} {inner : String} (h : Follows c s t)
    (hinside : Follows c { t with
      path := name :: t.path, within := inner :: t.within, inClass := false :: t.inClass } u) :
    Follows c s { u with path := u.path.tail, within := u.within.tail, inClass := u.inClass.tail } := by
  have hgains : Gains t u := (Gains.moved t _ _ _ _ _).trans hinside.toGains
  refine ⟨h.toGains.trans (hgains.trans (Gains.moved u _ _ _ _ _)), ?_, ?_⟩
  · exact hinside.chained.moved _ _ (fun b hb => hinside.chained.inClass b (mem_of_mem_tail hb))
      _ _
  · have hrest := congrArg (fun v : State => { v with
      path := v.path.tail, within := v.within.tail, inClass := v.inClass.tail, symbols := s.symbols,
      table := s.table, uses := s.uses, defines := s.defines, scopes := s.scopes, last := s.last })
      hinside.rest
    exact hrest.trans h.rest

/-! ## Functions -/

lemma Chained.fullName (hs : Chained c s) {space : String} (h : s.find? (some space) name = some id) :
    (s.symbol id).fullName = qualified space name := by
  obtain ⟨-, hspace, hname⟩ := hs.indexed.lt_of_find? h
  rw [Symbol.fullName_of_space hspace, hname]

variable {m : String}

lemma Chained.define (hs : Chained c s) {i : Id} {origin : Origin} (hpath : s.path = [m])
    (hwithin : s.within = [m]) (hi : s.find? (some "") m = some i)
    (hnew : ∀ defined, c.Role m name .function defined)
    (hg : name = "g" → m ≠ c.first ++ "." ++ "f" ∧ m ≠ c.first)
    (hrun : (define name origin .function).run.run s = (.ok id, s')) :
    Follows c s s' ∧ s'.find? (some m) name = some id := by
  have hname : (s.symbol i).fullName = m := (hs.fullName hi).trans (if_pos rfl)
  rw [Calls.define, run_bind_of_ok (hs.module_run hpath hi), run_bind_of_ok (symbolOf_run i s),
    hname] at hrun
  obtain ⟨a, s₁, hask, hrun⟩ := run_bind_ok.mp hrun
  obtain ⟨⟨⟩, s₂, hnote, hrun⟩ := run_bind_ok.mp hrun
  obtain ⟨⟨⟩, s₃, htie, hrun⟩ := run_bind_ok.mp hrun
  obtain ⟨⟨⟩, s₄, hbind, hrun⟩ := run_bind_ok.mp hrun
  obtain ⟨ha, rfl⟩ := Prod.mk.inj hrun
  obtain rfl := Except.ok.inj ha
  obtain ⟨h₁, hfind, hspecific⟩ := hs.ask (hnew false) (fun _ defined _ _ => hnew defined) hask
  have hmodule : 3 ≤ (s₁.symbol i).flavor.specificity := by
    rw [(h₁.chained.role_of_find? (h₁.found hi)).flavor_module]
    decide
  have h₂ := h₁.chained.note hmodule (fun t ht => Option.some.inj ht ▸ hspecific) hnote
  have h₃ := h₂.chained.tie htie
  have h₁₃ := h₁.trans (h₂.trans h₃)
  obtain ⟨h₄, -⟩ := h₃.chained.bind (h₁₃.within.trans hwithin)
    (fun h => ⟨(hg h).1, fun hm => absurd hm (hg h).2⟩) hbind
  exact ⟨h₁₃.trans h₄, (h₂.trans (h₃.trans h₄)).found hfind⟩

lemma scopeOf_ok {space : String} {scope : Scope}
    (hrun : (scopeOf space).run.run s = (.ok scope, s')) : s' = s := by
  rw [scopeOf, run_get_bind] at hrun
  split at hrun
  · exact (Prod.mk.inj hrun).2.symm
  · cases hrun

lemma Chained.enterBlock_ok (hs : Chained c s) {m inner : String} (hm : m ≠ "")
    (hpath : s.path = [m]) (hfind : s.find? (some m) name = some id)
    (hflavor : 1 ≤ (s.symbol id).flavor.specificity)
    (hrun : (enterBlock name false).run.run s = (.ok inner, s')) :
    inner = m ++ "." ++ name ∧ s' = { s with
      path := name :: s.path, within := inner :: s.within, inClass := false :: s.inClass } := by
  have hinside : current.run.run { s with path := name :: s.path }
      = (.ok id, { s with path := name :: s.path }) := by
    refine current_run rfl ?_ hflavor
    rw [hpath]
    exact hfind
  have hname : (s.symbol id).fullName = m ++ "." ++ name := (hs.fullName hfind).trans (if_neg hm)
  have hcurrent : currentName.run.run { s with path := name :: s.path }
      = (.ok (m ++ "." ++ name), { s with path := name :: s.path }) := by
    rw [currentName, run_bind_of_ok hinside, ← hname]
    rfl
  rw [enterBlock, run_modify_bind, run_bind_of_ok hcurrent] at hrun
  obtain ⟨scope, s₁, hscope, hrun⟩ := run_bind_ok.mp hrun
  obtain rfl := scopeOf_ok hscope
  obtain ⟨hinner, rfl⟩ := Prod.mk.inj hrun
  obtain rfl := Except.ok.inj hinner
  exact ⟨rfl, rfl⟩

lemma Chained.markParams (hs : Chained c s) {inner : String} (hinner : inner ≠ "")
    (hrun : (markParams inner {}).run.run s = (.ok (), s')) : Follows c s s' := by
  rw [Calls.markParams] at hrun
  obtain ⟨scope, s₁, hscope, hrun⟩ := run_bind_ok.mp hrun
  obtain ⟨mark, s₂, hask, hrun⟩ := run_bind_ok.mp hrun
  obtain ⟨-, rfl⟩ := Prod.mk.inj hrun
  obtain rfl := scopeOf_ok hscope
  exact (hs.ask (.argument hinner) (fun _ _ _ hlt => absurd hlt (Nat.not_lt_zero _)) hask).1

lemma Chained.visit_function (hs : Chained c s) {span : Span} {body : List Tree} {i : Id}
    (hm : m ≠ "") (hname : name ≠ argumentName) (hpath : s.path = [m]) (hwithin : s.within = [m])
    (hi : s.find? (some "") m = some i) (hnew : ∀ defined, c.Role m name .function defined)
    (hg : name = "g" → m ≠ c.first ++ "." ++ "f" ∧ m ≠ c.first)
    (hrun : (visit (.function { name, span } [] [] body)).run.run s = (.ok (), s')) :
    ∃ a s₁ s₂, Chained c s₁ ∧ Gains s s₁ ∧ s₁.path = [name, m] ∧
      s₁.within = [m ++ "." ++ name, m] ∧ s₁.find? (some m) name = some a ∧
      (visitAll body).run.run s₁ = (.ok (), s₂) ∧
      (Follows c s₁ s₂ → Follows c s s' ∧ Gains s₂ s') := by
  rw [visit] at hrun
  obtain ⟨⟨⟩, t₁, hlast, hrun⟩ := run_bind_ok.mp hrun
  have h₁ := hs.last hlast
  have hnames : (decoratorNames []).run.run t₁ = (.ok [], t₁) := by
    rw [decoratorNames]
    rfl
  have houtside : t₁.inClass.headD false = false := by
    cases hclass : t₁.inClass with
    | nil => rfl
    | cons b bs => exact h₁.chained.inClass b (hclass ▸ mem_cons_self)
  rw [run_bind_of_ok hnames, run_get_bind, houtside] at hrun
  obtain ⟨a, t₂, hdefine, hrun⟩ := run_bind_ok.mp hrun
  obtain ⟨h₂, ha⟩ := h₁.chained.define (h₁.path.trans hpath) (h₁.within.trans hwithin) (h₁.found hi)
    hnew hg hdefine
  have h₁₂ := h₁.trans h₂
  have hflavor : 1 ≤ (t₂.symbol a).flavor.specificity := by
    exact (h₂.chained.role_of_find? ha).specific hname
  obtain ⟨inner, t₃, henter, hrun⟩ := run_bind_ok.mp hrun
  obtain ⟨rfl, rfl⟩ := h₂.chained.enterBlock_ok hm (h₁₂.path.trans hpath) ha hflavor henter
  obtain ⟨⟨⟩, t₄, hmark, hrun⟩ := run_bind_ok.mp hrun
  have hinside := h₂.chained.moved (name :: t₂.path) ((m ++ "." ++ name) :: t₂.within)
    (forall_mem_cons.mpr ⟨rfl, h₂.chained.inClass⟩) t₂.module t₂.file
  have h₄ := hinside.markParams (dotted_ne_empty m name) hmark
  rw [run_get_bind] at hrun
  -- a function has no object of its own
  have hrest : (visitAll [] >>= fun _ => visitAll body >>= fun _ => leaveBlock).run.run t₄
      = (.ok (), s') := hrun
  have hnone : (visitAll []).run.run t₄ = (.ok (), t₄) := by
    rw [visitAll]
    rfl
  rw [run_bind_of_ok hnone] at hrest
  obtain ⟨⟨⟩, t₅, hbody, hleave⟩ := run_bind_ok.mp hrest
  obtain ⟨-, rfl⟩ := Prod.mk.inj hleave
  refine ⟨a, t₄, t₅, h₄.chained, ?_, ?_, ?_, ?_, hbody, fun h₅ => ⟨?_, ?_⟩⟩
  · exact h₁₂.toGains.trans ((Gains.moved t₂ _ _ _ _ _).trans h₄.toGains)
  · rw [h₄.path, ← hpath, ← h₁₂.path]
  · rw [h₄.within, ← hwithin, ← h₁₂.within]
  · exact h₄.found ha
  · exact h₁₂.leave (h₄.trans h₅)
  · exact Gains.moved t₅ _ _ _ _ _

/-! ## Calls -/

lemma visitAll_singleton {t : Tree} (hrun : (visitAll [t]).run.run s = (.ok (), s')) :
    (visit t).run.run s = (.ok (), s') := by
  rw [visitAll] at hrun
  obtain ⟨⟨⟩, s₁, hfirst, hrest⟩ := run_bind_ok.mp hrun
  rw [visitAll] at hrest
  obtain ⟨-, rfl⟩ := Prod.mk.inj hrest
  exact hfirst

lemma Chained.visit_call (hs : Chained c s) {a : Id} (hpath : s.path = ["f", c.first])
    (hwithin : s.within = [c.first ++ "." ++ "f", c.first])
    (ha : s.find? (some c.first) "f" = some a) (hbound : (s.member? c.first "g").isSome = true)
    (hrun : (visit (.call (.name "g" .load) [] [])).run.run s = (.ok (), s')) :
    Follows c s s' ∧ ∃ next b, (c.first, next) ∈ c.links ∧ s'.find? (some next) "g" = some b ∧
      b ∈ s'.uses.targets a := by
  obtain ⟨b, hb⟩ := Option.isSome_iff_exists.mp hbound
  obtain ⟨next, hlink, hnext⟩ := hs.bound b hb
  have hlookup : s.lookup "g" = some b := by
    have hnone : ((s.scope? (c.first ++ "." ++ "f")).bind fun scope => (Assoc.get? "g" scope).join)
        = none := hs.unbound
    have hfound : ((s.scope? c.first).bind fun scope => (Assoc.get? "g" scope).join) = some b := hb
    simp only [State.lookup, hwithin, findSome?_cons, hnone, hfound]
  have hvalue : (valueOf "g").run.run s = (.ok (some b), s) := by
    rw [valueOf, run_get_bind, hlookup]
    rfl
  have hcurrent : current.run.run s = (.ok a, s) := by
    refine current_run hpath ha ?_
    rw [(hs.role_of_find? ha).flavor_f (c.named c.first mem_cons_self).1]
    decide
  have hnone : (visitAll []).run.run s = (.ok (), s) := by
    rw [visitAll]
    rfl
  have hobject : (orUnresolved (objectOf (.call (.name "g" .load) [] [])) none).run.run s
      = (.ok none, s) := rfl
  rw [visit, run_bind_of_ok hnone, run_bind_of_ok hnone, run_bind_of_ok hobject] at hrun
  obtain ⟨⟨⟩, s₁, hname, hrun⟩ := run_bind_ok.mp hrun
  rw [visit, visitName, run_bind_of_ok hvalue, run_get_bind, hs.classes] at hname
  have hname : (current >>= fun user => addUses user b >>= fun _ => setLast (some b)).run.run s
      = (.ok (), s₁) := hname
  rw [run_bind_of_ok hcurrent] at hname
  obtain ⟨⟨⟩, s₂, huse, hlast⟩ := run_bind_ok.mp hname
  obtain ⟨hused, hmem⟩ := hs.use ⟨c.first, next, hlink, hnext, Or.inr ⟨rfl, ha⟩⟩ huse
  have hlast := hused.chained.last hlast
  -- there are no classes, so this makes no object
  have hsame : s' = s₁ := by
    rw [run_get_bind] at hrun
    split at hrun
    · rw [run_get_bind, hlast.chained.bases] at hrun
      exact (Prod.mk.inj hrun).2.symm
    · exact (Prod.mk.inj hrun).2.symm
  subst hsame
  exact ⟨hused.trans hlast, next, b, hlink, (hused.trans hlast).found hnext, hlast.uses hmem⟩

/-! ## Modules -/

lemma Chained.visitModule (hs : Chained c s) {body : List Tree} (hm : m ∈ c.modules)
    (hmodule : s.module = m) (hpath : s.path = []) (hwithin : s.within = [])
    (hrun : (visitModule body).run.run s = (.ok (), s')) :
    ∃ i s₁ s₂, Chained c s₁ ∧ Gains s s₁ ∧ s₁.path = [m] ∧ s₁.within = [m] ∧
      s₁.find? (some "") m = some i ∧ (visitAll body).run.run s₁ = (.ok (), s₂) ∧
      (Follows c s₁ s₂ → Follows c s s' ∧ Gains s₂ s') := by
  rw [Calls.visitModule, run_get_bind, hmodule] at hrun
  obtain ⟨i, t₁, hask, hrun⟩ := run_bind_ok.mp hrun
  obtain ⟨⟨⟩, t₂, htie, hrun⟩ := run_bind_ok.mp hrun
  obtain ⟨h₁, hi, -⟩ := hs.ask (.module hm) (fun _ _ _ _ => .module hm) hask
  have h₂ := h₁.trans (h₁.chained.tie htie)
  obtain ⟨⟨⟩, t₃, hmove, hrun⟩ := run_bind_ok.mp hrun
  obtain ⟨-, rfl⟩ := Prod.mk.inj hmove
  obtain ⟨scope, t₄, hscope, hrun⟩ := run_bind_ok.mp hrun
  obtain rfl := scopeOf_ok hscope
  obtain ⟨⟨⟩, t₅, hmove, hrun⟩ := run_bind_ok.mp hrun
  obtain ⟨-, rfl⟩ := Prod.mk.inj hmove
  obtain ⟨⟨⟩, t₆, hbody, hrun⟩ := run_bind_ok.mp hrun
  obtain ⟨⟨⟩, t₇, hleave, hrun⟩ := run_bind_ok.mp hrun
  obtain ⟨-, rfl⟩ := Prod.mk.inj hleave
  obtain ⟨⟨⟩, t₈, hlast, hnote⟩ := run_bind_ok.mp hrun
  have hinside := h₂.chained.moved (m :: t₂.path) (m :: t₂.within)
    (forall_mem_cons.mpr ⟨rfl, h₂.chained.inClass⟩) t₂.module t₂.file
  have hknown : t₂.find? (some "") m = some i := (h₁.chained.tie htie).found hi
  refine ⟨i, _, t₆, hinside, ?_, ?_, ?_, hknown, hbody, fun h₆ => ?_⟩
  · exact h₂.toGains.trans (Gains.moved t₂ _ _ _ _ _)
  · exact congrArg (m :: ·) (h₂.path.trans hpath)
  · exact congrArg (m :: ·) (h₂.within.trans hwithin)
  · have h₇ := h₂.leave h₆
    have h₈ := h₇.trans (h₇.chained.last hlast)
    have hthere : t₈.find? (some "") m = some i :=
      (h₇.chained.last hlast).found (h₆.found hknown)
    have hnoted := h₈.chained.note (by
      rw [(h₈.chained.role_of_find? hthere).flavor_module]
      decide) (fun _ h => by cases h) hnote
    exact ⟨h₈.trans hnoted, (Gains.moved t₆ _ _ _ _ _).trans
      ((h₇.chained.last hlast).toGains.trans hnoted.toGains)⟩

/-- What the visit of a module finds out: the module uses `g` of the next one, and so does `f`. -/
def Chain.Told (c : Chain) (s : State) (m : String) : Prop :=
  ∀ next, (m, next) ∈ c.links → ∃ i b, s.find? (some "") m = some i ∧
    s.find? (some next) "g" = some b ∧ b ∈ s.uses.targets i ∧
    (m = c.first → ∃ a, s.find? (some c.first) "f" = some a ∧ b ∈ s.uses.targets a)

lemma Gains.told (h : Gains s s') (hm : c.Told s m) : c.Told s' m := by
  intro next hlink
  obtain ⟨i, b, hi, hb, huse, hf⟩ := hm next hlink
  refine ⟨i, b, h.found hi, h.found hb, h.uses huse, fun hfirst => ?_⟩
  obtain ⟨a, ha, hab⟩ := hf hfirst
  exact ⟨a, h.found ha, h.uses hab⟩

lemma Chained.visit_caller (hs : Chained c s) {next : String} {span : Span} {i : Id}
    (hlink : (c.first, next) ∈ c.links) (hpath : s.path = [c.first]) (hwithin : s.within = [c.first])
    (hi : s.find? (some "") c.first = some i) (hname : s.hasName c.first "g" = true)
    (hrun : (visitAll (callerOf next span).body).run.run s = (.ok (), s')) :
    Follows c s s' ∧ ∃ b a, s'.find? (some next) "g" = some b ∧ b ∈ s'.uses.targets i ∧
      s'.find? (some c.first) "f" = some a ∧ b ∈ s'.uses.targets a := by
  have hfirst : c.first ≠ "" := (c.named c.first mem_cons_self).1
  rw [callerOf, visitAll] at hrun
  obtain ⟨⟨⟩, s₁, hfetch, hfunction⟩ := run_bind_ok.mp hrun
  obtain ⟨h₁, ⟨b, hb, huse⟩, hbound⟩ := hs.visit_fetch hlink hpath hwithin hi hfetch
  obtain ⟨a, s₂, s₃, hs₂, hgains₂, hpath₂, hwithin₂, ha, hbody, hleave⟩ :=
    h₁.chained.visit_function hfirst (by decide) (h₁.path.trans hpath) (h₁.within.trans hwithin)
      (h₁.found hi) (fun _ => .caller) (fun hg => absurd hg (by decide)) (visitAll_singleton hfunction)
  have hgroup := visitAll_singleton hbody
  rw [visit] at hgroup
  obtain ⟨h₃, next', b', hlink', hb', hab⟩ := hs₂.visit_call hpath₂ hwithin₂ ha
    (hgains₂.bound (hbound hname)) (visitAll_singleton hgroup)
  obtain ⟨h₄, hgains₄⟩ := hleave h₃
  -- both are the symbol of `g` in the next module
  obtain rfl := Chain.link_unique hlink hlink'
  obtain rfl := Option.some.inj ((h₄.found hb).symm.trans (hgains₄.found hb'))
  exact ⟨h₁.trans h₄, b, a, h₄.found hb, h₄.uses huse, (h₃.toGains.trans hgains₄).found ha,
    hgains₄.uses hab⟩

lemma Chain.Has.visitModule {source : Source} (h : c.Has m source) (hs : Chained c s)
    (hmodule : s.module = m) (hpath : s.path = []) (hwithin : s.within = [])
    (hnames : m = c.first → s.hasName c.first "g" = true)
    (hrun : (visitModule source.body).run.run s = (.ok (), s')) : Follows c s s' ∧ c.Told s' m := by
  obtain ⟨i, s₁, s₂, hs₁, hgains, hpath₁, hwithin₁, hi, hbody, hleave⟩ :=
    hs.visitModule h.mem hmodule hpath hwithin hrun
  have hm : m ≠ "" := (c.named m h.mem).1
  cases h with
  | caller span hlink =>
    obtain ⟨h₃, b, a, hb, huse, ha, hab⟩ :=
      hs₁.visit_caller hlink hpath₁ hwithin₁ hi (hgains.names (hnames rfl)) hbody
    obtain ⟨hfollows, hgains₇⟩ := hleave h₃
    refine ⟨hfollows, fun next'' hlink'' => ?_⟩
    obtain rfl := Chain.link_unique hlink hlink''
    exact ⟨i, b, (h₃.toGains.trans hgains₇).found hi, hgains₇.found hb, hgains₇.uses huse,
      fun _ => ⟨a, hgains₇.found ha, hgains₇.uses hab⟩⟩
  | passer hmem hlink =>
    obtain ⟨h₃, ⟨b, hb, huse⟩, -⟩ :=
      hs₁.visit_fetch hlink hpath₁ hwithin₁ hi (visitAll_singleton hbody)
    obtain ⟨hfollows, hgains₇⟩ := hleave h₃
    refine ⟨hfollows, fun next'' hlink'' => ?_⟩
    obtain rfl := Chain.link_unique hlink hlink''
    refine ⟨i, b, (h₃.toGains.trans hgains₇).found hi, hgains₇.found hb, hgains₇.uses huse, ?_⟩
    rintro rfl
    exact absurd (mem_append_left _ hmem) Chain.first_not_source
  | definer span =>
    have hinner : c.last ≠ c.first ++ "." ++ "f" := by
      intro hlast
      exact (c.apart c.first mem_cons_self).1 (hlast ▸ Chain.mem_modules_of_source Chain.last_mem)
    obtain ⟨a, s₄, s₅, hs₄, -, -, -, -, hcall, hback⟩ :=
      hs₁.visit_function hm (by decide) hpath₁ hwithin₁ hi (fun _ => .definer)
        (fun _ => ⟨hinner, Chain.first_ne_last.symm⟩) (visitAll_singleton hbody)
    rw [visitAll] at hcall
    obtain ⟨-, rfl⟩ := Prod.mk.inj hcall
    obtain ⟨h₆, -⟩ := hback (Follows.refl hs₄)
    obtain ⟨hfollows, -⟩ := hleave h₆
    exact ⟨hfollows, fun next hlink => absurd hlink Chain.last_not_linked⟩

end Visits

/-! ## Scopes of a file -/

lemma Scope.get?_extend (name : String) (old new : Scope) :
    Assoc.get? name (Scope.extend old new) = (Assoc.get? name old).or (Assoc.get? name new) := by
  rw [Scope.extend]
  induction new generalizing old with
  | nil => rw [foldl_nil, Assoc.get?_nil, Option.or_none]
  | cons e new ih =>
    rw [foldl_cons, ih, Assoc.get?]
    dsimp only
    split
    · rename_i hhas
      split
      · rename_i hn
        obtain ⟨w, hw⟩ := Option.isSome_iff_exists.mp hhas
        rw [← hn, hw, Option.some_or, Option.some_or]
      · rfl
    · rw [Assoc.get?_append, Option.or_assoc, Assoc.get?, Assoc.get?_nil]
      split
      · rfl
      · rfl

def said (scopes : List (String × Scope)) (space name : String) : Option (Option Id) :=
  (Assoc.get? space scopes).bind (Assoc.get? name)

lemma State.member?_eq (s : State) (space name : String) :
    s.member? space name = (said s.scopes space name).join := by
  rw [State.member?, said, State.scope?]
  cases Assoc.get? space s.scopes with
  | none | some scope => rfl

lemma State.hasName_eq (s : State) (space name : String) :
    s.hasName space name = (said s.scopes space name).isSome := by
  rw [State.hasName, said, State.scope?]
  cases Assoc.get? space s.scopes with
  | none | some scope => rfl

section Scopes

variable {scopes new : List (String × Scope)} {e : String × Scope}

lemma said_joinScope (space name : String) : said (joinScope scopes e) space name
    = (said scopes space name).or (if space = e.1 then Assoc.get? name e.2 else none) := by
  rw [said, said, joinScope]
  cases hold : Assoc.get? e.1 scopes with
  | some old =>
    rw [Assoc.get?_set]
    split
    · rename_i hspace
      rw [hspace, hold]
      exact Scope.get?_extend name old e.2
    · rw [Option.or_none]
  | none =>
    obtain ⟨k, scope⟩ := e
    rw [Assoc.get?_append, Assoc.get?, Assoc.get?_nil]
    by_cases hspace : space = k
    · subst hspace
      rw [hold, if_pos rfl, if_pos rfl]
      rfl
    · rw [if_neg hspace, if_neg (Ne.symm hspace), Option.or_none, Option.or_none]

lemma join_said_joinScopes (hblank : Blank new) (space name : String) :
    (said (new.foldl joinScope scopes) space name).join = (said scopes space name).join := by
  induction new generalizing scopes with
  | nil => rfl
  | cons e new ih =>
    obtain ⟨he, hnew⟩ := forall_mem_cons.mp hblank
    rw [foldl_cons, ih hnew, said_joinScope]
    cases said scopes space name with
    | some v => rfl
    | none =>
      rw [Option.none_or]
      split
      · cases hget : Assoc.get? name e.2 with
        | none => rfl
        | some v => exact he _ (Assoc.mem_of_get? hget)
      · rfl

lemma isSome_said_joinScopes {space name : String} (h : (said scopes space name).isSome = true ∨
      ∃ scope, (space, scope) ∈ new ∧ Assoc.has name scope = true) :
    (said (new.foldl joinScope scopes) space name).isSome = true := by
  induction new generalizing scopes with
  | nil =>
    rcases h with h | ⟨scope, hscope, -⟩
    · exact h
    · cases hscope
  | cons e new ih =>
    refine ih ?_
    rw [said_joinScope, Option.isSome_or, Bool.or_eq_true]
    rcases h with h | ⟨scope, hscope, hname⟩
    · exact Or.inl (Or.inl h)
    · rcases mem_cons.mp hscope with rfl | hscope
      · exact Or.inl (Or.inr ((if_pos rfl).symm ▸ hname))
      · exact Or.inr ⟨scope, hscope, hname⟩

end Scopes

/-! ## Files -/

section Files

variable {c : Chain} {s s' : State} {m : String} {source : Source}

lemma Gains.opened (s : State) (file module : String) (block : Block) :
    Gains s (s.opened file module block) := by
  have hblank : Blank (blockScopes module [] block) :=
    blank_blockScopes block fun e he => absurd he not_mem_nil
  refine ⟨fun h => h, fun h => h, fun {space name} h => ?_, fun {space name} h => ?_⟩
  · rw [State.hasName_eq] at h ⊢
    exact isSome_said_joinScopes (Or.inl h)
  · rw [State.member?_eq] at h ⊢
    have hsame : (said (s.opened file module block).scopes space name).join
        = (said s.scopes space name).join := join_said_joinScopes hblank space name
    exact (congrArg Option.isSome hsame).trans h

lemma Chained.opened (hs : Chained c s) (file module : String) (block : Block) :
    Chained c (s.opened file module block) := by
  have hblank : Blank (blockScopes module [] block) :=
    blank_blockScopes block fun e he => absurd he not_mem_nil
  have hmember : ∀ space name, (s.opened file module block).member? space name
      = s.member? space name := by
    intro space name
    rw [State.member?_eq, State.member?_eq]
    exact join_said_joinScopes hblank space name
  refine ⟨⟨hs.indexed.named, hs.indexed.found⟩, hs.role, hs.keyed, hs.uses, fun i hi => ?_, ?_,
    hs.bases, hs.classes, hs.inClass, hs.modules⟩
  · rw [hmember] at hi
    exact hs.bound i hi
  · rw [hmember]
    exact hs.unbound

lemma Chain.Has.hasName (h : c.Has m source) (hm : m = c.first) (file : String) (s : State) :
    (s.opened file m source.block).hasName c.first "g" = true := by
  subst hm
  rw [State.hasName_eq]
  refine isSome_said_joinScopes (Or.inr ?_)
  generalize hfirst : c.first = m at h
  cases h with
  | caller span hlink =>
    refine ⟨Assoc.ofList [("g", none), ("f", none)], ?_, by decide⟩
    simp [callerOf, blockScopes, blocksScopes, Assoc.set, (ne_dotted c.first "f").symm]
  | passer hmem hlink =>
    rw [← hfirst] at hmem
    exact absurd (mem_append_left _ hmem) Chain.first_not_source
  | definer span => exact absurd hfirst Chain.first_ne_last

variable {p : Program} {files : List String} {file : String}

lemma Chained.visitFile (hs : Chained c s) (hrest : s.Resting files) (hreads : p.Reads file m source)
    (h : c.Has m source) (hrun : (visitFile p file).run.run s = (.ok (), s')) :
    Chained c s' ∧ s'.Resting files ∧ Gains s s' ∧ c.Told s' m := by
  obtain ⟨-, text, name, source', s₁, htext, hname, hparse, hvisit, rfl⟩ := visitFile_ok_iff.mp hrun
  rw [hrest.root] at hname
  obtain rfl := Except.ok.inj (hreads.named.symm.trans hname)
  obtain ⟨text', htext', hparse'⟩ := hreads.parsed
  obtain rfl := Except.ok.inj (htext.symm.trans htext')
  obtain rfl := Option.some.inj (hparse.symm.trans hparse')
  obtain ⟨hfollows, htold⟩ := h.visitModule (hs.opened file m source'.block) rfl hrest.path hrest.within
    (fun hm => h.hasName hm file s) hvisit
  have hclosed : Gains s₁ s₁.closed := Gains.moved s₁ _ _ _ _ _
  refine ⟨hfollows.chained.moved _ _ hfollows.chained.inClass _ _, ⟨?_, ?_, ?_, ?_⟩, ?_,
    hclosed.told htold⟩
  · exact hfollows.path.trans hrest.path
  · exact hfollows.within.trans hrest.within
  · exact hfollows.files.trans hrest.files
  · exact hfollows.root.trans hrest.root
  · exact (Gains.opened s file m source'.block).trans (hfollows.toGains.trans hclosed)

/-! ## Rounds -/

lemma Chained.visitFiles (hs : Chained c s) (hrest : s.Resting files) {todo : List String}
    (h : ∀ file ∈ todo, ∃ m source, p.Reads file m source ∧ c.Has m source)
    (hrun : (todo.forM (Calls.visitFile p)).run.run s = (.ok (), s')) :
    Chained c s' ∧ s'.Resting files ∧ Gains s s' ∧
      ∀ file ∈ todo, ∀ m, moduleName p.folder file = .ok m → c.Told s' m := by
  induction todo generalizing s with
  | nil =>
    obtain ⟨-, rfl⟩ := Prod.mk.inj hrun
    exact ⟨hs, hrest, Gains.refl s, fun _ hfile => absurd hfile not_mem_nil⟩
  | cons file todo ih =>
    obtain ⟨hfile, htodo⟩ := forall_mem_cons.mp h
    obtain ⟨m, source, hreads, hhas⟩ := hfile
    obtain ⟨⟨⟩, s₁, hfirst, hothers⟩ := run_bind_ok.mp hrun
    obtain ⟨hs₁, hrest₁, hgains₁, htold⟩ := hs.visitFile hrest hreads hhas hfirst
    obtain ⟨hs', hrest', hgains, hall⟩ := ih hs₁ hrest₁ htodo hothers
    refine ⟨hs', hrest', hgains₁.trans hgains, forall_mem_cons.mpr ⟨fun m' hm' => ?_, hall⟩⟩
    obtain rfl := Except.ok.inj (hreads.named.symm.trans hm')
    exact hgains.told htold

lemma Chained.findLines (hs : Chained c s) (hrest : s.Resting files)
    (hrun : findLines.run.run s = (.ok (), s')) :
    Chained c s' ∧ s'.Resting files ∧ Gains s s' := by
  rw [Calls.findLines, run_get_bind, hs.bases] at hrun
  obtain ⟨-, rfl⟩ := Prod.mk.inj hrun
  exact ⟨⟨⟨hs.indexed.named, hs.indexed.found⟩, hs.role, hs.keyed, hs.uses, hs.bound, hs.unbound,
    hs.bases, hs.classes, hs.inClass, hs.modules⟩, ⟨hrest.path, hrest.within, hrest.files, hrest.root⟩,
    ⟨fun h => h, fun h => h, fun h => h, fun h => h⟩⟩

lemma chained_start (h : ∀ file ∈ files, ∃ m source, p.Reads file m source ∧ c.Has m source)
    (hstart : start p files none = .ok s) : Chained c s ∧ s.Resting files := by
  obtain ⟨modules, hmodules, rfl⟩ := start_ok_iff.mp hstart
  refine ⟨⟨⟨?_, ?_⟩, ?_, nodup_nil, ?_, ?_, rfl, rfl, rfl, ?_, fun m hm => ?_⟩, rfl, rfl, rfl, rfl⟩
  · exact fun hid => absurd hid not_mem_nil
  · exact fun id hid => absurd hid (Nat.not_lt_zero id)
  · exact fun id hid => absurd hid (Nat.not_lt_zero id)
  · exact fun _ _ hb => absurd hb not_mem_nil
  · intro i hi
    cases hi
  · exact fun _ hb => absurd hb not_mem_nil
  · refine Bool.eq_false_iff.mpr fun hhas => ?_
    obtain ⟨f, hget⟩ := Option.isSome_iff_exists.mp hhas
    obtain ⟨file, hfile, hname⟩ := exists_left_of_forall₂ (mapM_ok_iff.mp hmodules)
      (Assoc.mem_of_mem_ofList (Assoc.mem_of_get? hget))
    obtain ⟨m', source, hreads, hhas⟩ := h file hfile
    rw [hreads.named] at hname
    obtain ⟨rfl, -⟩ := Prod.mk.inj (Except.ok.inj hname)
    exact absurd hhas.mem (Chain.dotted_not_mem hm).2

lemma chained_visited (h : ∀ file ∈ files, ∃ m source, p.Reads file m source ∧ c.Has m source)
    (hvisited : p.Visited files s) :
    Chained c s ∧ ∀ file ∈ files, ∀ m, moduleName p.folder file = .ok m → c.Told s m := by
  obtain ⟨s₀, s₁, s₂, hstart, hfirst, hlines, hsecond⟩ := hvisited
  obtain ⟨hs₀, hrest₀⟩ := chained_start h hstart
  obtain ⟨hs₁, hrest₁, -⟩ := hs₀.visitFiles hrest₀ h hfirst
  obtain ⟨hs₂, hrest₂, -⟩ := hs₁.findLines hrest₁ hlines
  obtain ⟨hs₃, -, -, htold⟩ := hs₂.visitFiles hrest₂ h hsecond
  exact ⟨hs₃, htold⟩

end Files

end Docsmith.Calls

