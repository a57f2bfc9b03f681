import Docsmith.Proofs.Uses

/-! # Visits of a chain of modules

A chain of modules hands a function `g` on: each module imports it from the next one and the last
defines it; the first module also has a function `f` that calls `g`. What visits find out does not
hang on the order of the files (`Chained`): every module but the last uses the symbol of `g` in the
next one, and `f` uses that of the second. Each step of a visit keeps that (`Follows`). -/

namespace Docsmith.Calls

open List

/-! ## Chains -/

/-- Modules of which each imports `g` from the next. No two have one name, and no name is that of a
function of another module. -/
structure Chain where
  first : String
  between : List String
  last : String
  nodup : (first :: (between ++ [last])).Nodup
  named : ∀ m ∈ first :: (between ++ [last]), m ≠ "" ∧ m ∉ blockLabels
  apart : ∀ m ∈ first :: (between ++ [last]), m ++ "." ++ "f" ∉ first :: (between ++ [last]) ∧
    m ++ "." ++ "g" ∉ first :: (between ++ [last])

namespace Chain

variable (c : Chain)

def modules : List String :=
  c.first :: (c.between ++ [c.last])

def sources : List String :=
  c.between ++ [c.last]

def links : List (String × String) :=
  c.modules.zip c.sources

variable {c} {m next next' : String}

lemma mem_of_link (h : (m, next) ∈ c.links) : m ∈ c.modules ∧ next ∈ c.sources :=
  ⟨(of_mem_zip h).1, (of_mem_zip h).2⟩

lemma mem_modules_of_source (h : m ∈ c.sources) : m ∈ c.modules :=
  mem_cons_of_mem _ h

lemma last_mem : c.last ∈ c.sources :=
  mem_append_right _ mem_cons_self

lemma link_unique (h : (m, next) ∈ c.links) (h' : (m, next') ∈ c.links) : next = next' := by
  have hzip : ∀ (ms ns : List String), ms.Nodup → (m, next) ∈ ms.zip ns → (m, next') ∈ ms.zip ns →
      next = next' := by
    intro ms
    induction ms with
    | nil => exact fun ns _ h => absurd h not_mem_nil
    | cons x ms ih =>
      intro ns hnodup h h'
      cases ns with
      | nil => cases h
      | cons n ns =>
        obtain ⟨hx, hnodup⟩ := nodup_cons.mp hnodup
        rw [zip_cons_cons, mem_cons] at h h'
        rcases h with h | h
        · rcases h' with h' | h'
          · exact (Prod.mk.inj h).2.trans (Prod.mk.inj h').2.symm
          · rw [(Prod.mk.inj h).1] at h'
            exact absurd (of_mem_zip h').1 hx
        · rcases h' with h' | h'
          · rw [(Prod.mk.inj h').1] at h
            exact absurd (of_mem_zip h).1 hx
          · exact ih ns hnodup h h'
  exact hzip _ _ c.nodup h h'

lemma first_not_source : c.first ∉ c.sources :=
  (nodup_cons.mp c.nodup).1

lemma last_not_between : c.last ∉ c.between := by
  intro h
  have hnodup := (nodup_cons.mp c.nodup).2
  rw [nodup_append] at hnodup
  exact hnodup.2.2 c.last h c.last mem_cons_self rfl

lemma first_ne_last : c.first ≠ c.last := by
  intro h
  exact first_not_source (h ▸ last_mem)

lemma links_eq : c.links = (c.first :: c.between).zip c.sources := by
  have hlength : (c.first :: c.between).length = c.sources.length := by
    simp [sources]
  have happend : ((c.first :: c.between) ++ [c.last]).zip (c.sources ++ [])
      = (c.first :: c.between).zip c.sources ++ [c.last].zip [] := zip_append hlength
  rw [append_nil, zip_nil_right, append_nil] at happend
  exact happend

lemma exists_link (hm : m ∈ c.first :: c.between) : ∃ next, (m, next) ∈ c.links := by
  have hlength : (c.first :: c.between).length ≤ c.sources.length := by
    simp [sources]
  have hfst := map_fst_zip hlength
  rw [← links_eq] at hfst
  rw [← hfst] at hm
  obtain ⟨e, he, rfl⟩ := mem_map.mp hm
  exact ⟨e.2, he⟩

lemma last_not_linked : (c.last, next) ∉ c.links := by
  intro h
  rw [links_eq] at h
  rcases mem_cons.mp (of_mem_zip h).1 with h | h
  · exact first_ne_last h.symm
  · exact last_not_between h

lemma dotted_not_mem (h : m ∈ c.modules) :
    m ++ "." ++ "f" ∉ c.modules ∧ m ++ "." ++ "g" ∉ c.modules :=
  c.apart m h

end Chain

/-! ## Programs of a chain -/

def fetch (module : String) : Tree :=
  .importFrom (some module) 0 [{ name := "g" }]

def callerOf (next : String) (span : Span) : Source where
  block := .mk "top" ["g", "f"] [.mk "f" ["g"] []]
  body := [fetch next,
    .function { name := "f", span } [] [] [.group [.call (.name "g" .load) [] []]]]

def passerOf (next : String) : Source where
  block := .mk "top" ["g"] []
  body := [fetch next]

def definerOf (span : Span) : Source where
  block := .mk "top" ["g"] [.mk "g" [] []]
  body := [.function { name := "g", span } [] [] []]

inductive Chain.Has (c : Chain) : String → Source → Prop where
  | caller {next : String} (span : Span) (h : (c.first, next) ∈ c.links) :
      Chain.Has c c.first (callerOf next span)
  | passer {m next : String} (hm : m ∈ c.between) (h : (m, next) ∈ c.links) :
      Chain.Has c m (passerOf next)
  | definer (span : Span) : Chain.Has c c.last (definerOf span)

lemma Chain.Has.mem {c : Chain} {m : String} {source : Source} (h : c.Has m source) :
    m ∈ c.modules := by
  cases h with
  | caller => exact mem_cons_self
  | passer hm => exact mem_cons_of_mem _ (mem_append_left _ hm)
  | definer => exact mem_cons_of_mem _ Chain.last_mem

lemma ne_dotted (m name : String) : m ++ "." ++ name ≠ m := by
  intro h
  have hlength := congrArg String.length h
  simp only [String.length_append] at hlength
  have hdot : ".".length = 1 := by decide
  omega

lemma dotted_ne_empty (m name : String) : m ++ "." ++ name ≠ "" := by
  intro h
  have hlength := congrArg String.length h
  simp only [String.length_append] at hlength
  have hdot : ".".length = 1 := by decide
  have hempty : "".length = 0 := by decide
  omega

lemma Chain.Has.safe {c : Chain} {m : String} {source : Source} (h : c.Has m source) :
    source.Safe m := by
  have hname := (c.named m h.mem).1
  have hspaces : ∀ (names : List String) (f : String) (inner : List String), f ≠ "" → f ≠ "top" →
      (blockScopes m [] (.mk "top" names [.mk f inner []])).map Prod.fst = [m, m ++ "." ++ f] := by
    intro names f inner hne htop
    have hinner : (f.isEmpty || f == "top") = false := by simp [hne, htop]
    simp [blockScopes, blocksScopes, hinner, Assoc.set, (ne_dotted m f).symm]
  have hblock : ∀ f, blockName [f, m] = m ++ "." ++ f := by
    intro f
    rw [blockName, qualified]
    exact if_neg hname
  cases h with
  | @caller next span hlink =>
    have hin : (callerOf next span).spaces c.first = [c.first, c.first ++ "." ++ "f"] :=
      hspaces _ _ _ (by decide) (by decide)
    refine ⟨hname, ?_, ?_, ?_⟩
    · rw [hin]
      exact mem_cons_self
    · rfl
    · rw [hin]
      simp [callerOf, fetch, Tree.allCovered, Tree.isCovered, hblock]
  | passer hm hlink =>
    refine ⟨hname, ?_, rfl, rfl⟩
    simp [Source.spaces, passerOf, blockScopes, blocksScopes, Assoc.set]
  | definer span =>
    have hin : (definerOf span).spaces c.last = [c.last, c.last ++ "." ++ "g"] :=
      hspaces _ _ _ (by decide) (by decide)
    refine ⟨hname, ?_, rfl, ?_⟩
    · rw [hin]
      exact mem_cons_self
    · rw [hin]
      simp [definerOf, Tree.allCovered, Tree.isCovered, hblock]

/-! ## What is known of a chain -/

/-- What a symbol in a chain can be: its space, its name, its flavor and whether it is defined. -/
inductive Chain.Role (c : Chain) : String → String → Flavor → Bool → Prop where
  | module {m : String} {defined : Bool} (hm : m ∈ c.modules) : Chain.Role c "" m .module defined
  | caller {defined : Bool} : Chain.Role c c.first "f" .function defined
  | imported {m : String} (hm : m ∈ c.sources) : Chain.Role c m "g" .imported false
  | definer {defined : Bool} : Chain.Role c c.last "g" .function defined
  | argument {space : String} {defined : Bool} (hspace : space ≠ "") :
      Chain.Role c space argumentName .unspecified defined

namespace Chain.Role

variable {c : Chain} {space name : String} {flavor : Flavor} {defined : Bool}

lemma flavor_module (h : c.Role "" name flavor defined) : flavor = .module := by
  have hnamed : ∀ m ∈ c.modules, m ≠ "" := fun m hm => (c.named m hm).1
  generalize hspace : "" = space at h
  cases h with
  | module => rfl
  | caller => exact absurd hspace.symm (hnamed _ mem_cons_self)
  | imported hm => exact absurd hspace.symm (hnamed _ (mem_modules_of_source hm))
  | definer => exact absurd hspace.symm (hnamed _ (mem_modules_of_source last_mem))
  | argument hne => exact absurd hspace.symm hne

lemma flavor_f (h : c.Role space "f" flavor defined) (hspace : space ≠ "") : flavor = .function := by
  generalize hname : "f" = name at h
  cases h with
  | module => exact absurd rfl hspace
  | caller => rfl
  | imported | definer | argument => exact absurd hname (by decide)

lemma flavor_g (h : c.Role space "g" flavor defined) (hspace : space ≠ "") :
    (space ∈ c.sources ∧ flavor = .imported ∧ defined = false) ∨
      (space = c.last ∧ flavor = .function) := by
  generalize hname : "g" = name at h
  cases h with
  | module => exact absurd rfl hspace
  | caller => exact absurd hname (by decide)
  | imported hm => exact Or.inl ⟨hm, rfl, rfl⟩
  | definer => exact Or.inr ⟨rfl, rfl⟩
  | argument => exact absurd hname (by decide)

lemma specific (h : c.Role space name flavor defined) (hname : name ≠ argumentName) :
    1 ≤ flavor.specificity := by
  cases h with
  | argument => exact absurd rfl hname
  | _ => decide

lemma not_attribute (h : c.Role space name flavor defined) : flavor ≠ .attribute := by
  cases h with
  | _ => decide

lemma not_label (h : c.Role space name flavor defined) : name ∉ blockLabels := by
  cases h with
  | module hm => exact (c.named name hm).2
  | _ => decide

end Chain.Role

/-- A use in a chain: a module uses the symbol that it imports, and `f` the one that its module
imports. -/
def Chain.Uses (c : Chain) (s : State) (a b : Id) : Prop :=
  ∃ m next, (m, next) ∈ c.links ∧ s.find? (some next) "g" = some b ∧
    (s.find? (some "") m = some a ∨ (m = c.first ∧ s.find? (some c.first) "f" = some a))

structure Chained (c : Chain) (s : State) : Prop where
  indexed : s.Indexed fun _ => True
  role : ∀ i < s.symbols.size, ∃ space, (s.symbol i).space = some space ∧
    c.Role space (s.symbol i).name (s.symbol i).flavor (s.symbol i).defined
  keyed : s.uses.Keyed
  uses : ∀ a, ∀ b ∈ s.uses.targets a, c.Uses s a b
  bound : ∀ i, s.member? c.first "g" = some i →
    ∃ next, (c.first, next) ∈ c.links ∧ s.find? (some next) "g" = some i
  unbound : s.member? (c.first ++ "." ++ "f") "g" = none
  bases : s.bases = []
  classes : s.classes = []
  inClass : ∀ b ∈ s.inClass, b = false
  modules : ∀ m ∈ c.modules, Assoc.has (m ++ "." ++ "g") s.modules = false

def State.hasName (s : State) (space name : String) : Bool :=
  ((s.scope? space).map (Assoc.has name)).getD false

/-- What is found and used stays, and so do the names of scopes and that they have a meaning. -/
structure Gains (s s' : State) : Prop where
  found : ∀ {space name i}, s.find? space name = some i → s'.find? space name = some i
  uses : ∀ {a b}, b ∈ s.uses.targets a → b ∈ s'.uses.targets a
  names : ∀ {space name}, s.hasName space name = true → s'.hasName space name = true
  bound : ∀ {space name}, (s.member? space name).isSome = true →
    (s'.member? space name).isSome = true

lemma Gains.refl (s : State) : Gains s s :=
  ⟨fun h => h, fun h => h, fun h => h, fun h => h⟩

lemma Gains.trans {s s' s'' : State} (h : Gains s s') (h' : Gains s' s'') : Gains s s'' :=
  ⟨fun hi => h'.found (h.found hi), fun hb => h'.uses (h.uses hb), fun hn => h'.names (h.names hn),
    fun hb => h'.bound (h.bound hb)⟩

lemma Gains.chainUses {c : Chain} {s s' : State} (h : Gains s s') {a b : Id} (hab : c.Uses s a b) :
    c.Uses s' a b := by
  obtain ⟨m, next, hlink, hb, ha⟩ := hab
  exact ⟨m, next, hlink, h.found hb, ha.imp h.found fun ha => ⟨ha.1, h.found ha.2⟩⟩

structure Follows (c : Chain) (s s' : State) : Prop extends Gains s s' where
  chained : Chained c s'
  rest : { s' with
    symbols := s.symbols, table := s.table, uses := s.uses, defines := s.defines,
    scopes := s.scopes, last := s.last } = s

namespace Follows

variable {c : Chain} {s s' s'' : State}

lemma refl (h : Chained c s) : Follows c s s :=
  ⟨Gains.refl s, h, rfl⟩

lemma trans (h : Follows c s s') (h' : Follows c s' s'') : Follows c s s'' :=
  ⟨h.toGains.trans h'.toGains, h'.chained, by rw [← h.rest, ← h'.rest]⟩

lemma path (h : Follows c s s') : s'.path = s.path := by
  have hrest := congrArg State.path h.rest
  exact hrest

lemma within (h : Follows c s s') : s'.within = s.within := by
  have hrest := congrArg State.within h.rest
  exact hrest

lemma files (h : Follows c s s') : s'.files = s.files := by
  have hrest := congrArg State.files h.rest
  exact hrest

lemma root (h : Follows c s s') : s'.root = s.root := by
  have hrest := congrArg State.root h.rest
  exact hrest

end Follows

section Steps

variable {c : Chain} {s s' : State} {a b id : Id} {space name : String}

/-! ## Symbols -/

lemma Chained.grown (hs : Chained c s) (hindexed : s'.Indexed fun _ => True)
    (hrole : ∀ i < s'.symbols.size, ∃ space, (s'.symbol i).space = some space ∧
      c.Role space (s'.symbol i).name (s'.symbol i).flavor (s'.symbol i).defined)
    (hfound : ∀ {space name i}, s.find? space name = some i → s'.find? space name = some i)
    (hrest : { s' with symbols := s.symbols, table := s.table, defines := s.defines } = s) :
    Follows c s s' := by
  have huses := congrArg State.uses hrest
  have hscopes := congrArg State.scopes hrest
  have hclass := congrArg State.inClass hrest
  have hmodules := congrArg State.modules hrest
  have hscope : ∀ space, s'.scope? space = s.scope? space := by
    intro space
    rw [State.scope?, State.scope?, hscopes]
  have hmember : ∀ space name, s'.member? space name = s.member? space name := by
    intro space name
    rw [State.member?, State.member?, hscope]
  have hgains : Gains s s' := by
    refine ⟨hfound, fun h => ?_, fun h => ?_, fun h => ?_⟩
    · rwa [huses]
    · rwa [State.hasName, hscope]
    · rwa [hmember]
  refine ⟨hgains, ⟨hindexed, hrole, ?_, fun a b hb => ?_, fun i hi => ?_, ?_, ?_, ?_, ?_, ?_⟩, ?_⟩
  · rw [huses]
    exact hs.keyed
  · rw [huses] at hb
    exact hgains.chainUses (hs.uses a b hb)
  · rw [hmember] at hi
    obtain ⟨next, hlink, hnext⟩ := hs.bound i hi
    exact ⟨next, hlink, hfound hnext⟩
  · rw [hmember]
    exact hs.unbound
  · exact (congrArg State.bases hrest).trans hs.bases
  · exact (congrArg State.classes hrest).trans hs.classes
  · rw [hclass]
    exact hs.inClass
  · rw [hmodules]
    exact hs.modules
  · rw [← hrest]

lemma Chained.role_of_space (hs : Chained c s) (h : (s.symbol id).space = some space) :
    c.Role space (s.symbol id).name (s.symbol id).flavor (s.symbol id).defined := by
  have hlt : id < s.symbols.size := State.lt_of_symbol (P := (·.space = some space)) h nofun
  obtain ⟨space', hspace', hrole⟩ := hs.role id hlt
  rw [h] at hspace'
  rw [Option.some.inj hspace']
  exact hrole

lemma Chained.role_of_find? (hs : Chained c s) (h : s.find? (some space) name = some id) :
    c.Role space name (s.symbol id).flavor (s.symbol id).defined := by
  obtain ⟨-, hspace, hname⟩ := hs.indexed.lt_of_find? h
  rw [← hname]
  exact hs.role_of_space hspace

lemma Chained.not_isWild (hs : Chained c s) (hid : id < s.symbols.size) :
    (s.symbol id).isWild = false := by
  obtain ⟨space, hspace, -⟩ := hs.role id hid
  rw [Symbol.isWild, hspace]
  rfl

lemma Chained.alter (hs : Chained c s) {f : Symbol → Symbol} (hspace : ∀ x, (f x).space = x.space)
    (hname : ∀ x, (f x).name = x.name)
    (hrole : ∀ space, (s.symbol id).space = some space →
      c.Role space (s.symbol id).name (f (s.symbol id)).flavor (f (s.symbol id)).defined) :
    Follows c s (s.alter id f) := by
  refine hs.grown (hs.indexed.alter hspace hname) (fun i hi => ?_) (fun h => ?_) rfl
  · rw [State.size_alter] at hi
    obtain ⟨space, hi', hold⟩ := hs.role i hi
    refine ⟨space, ?_, ?_⟩
    · rw [State.symbol_alter_congr s Symbol.space id f hspace]
      exact hi'
    · rw [State.symbol_alter_congr s Symbol.name id f hname, State.symbol_alter]
      split
      · rename_i heq
        rw [heq.1] at hi' ⊢
        exact hrole space hi'
      · exact hold
  · rw [State.find?_alter hspace]
    exact h

lemma Chained.ask {origin : Option Origin} {flavor : Flavor} (hs : Chained c s)
    (hnew : c.Role space name flavor false)
    (hraise : ∀ old defined, c.Role space name old defined → old.specificity < flavor.specificity →
      c.Role space name flavor defined)
    (hrun : (symbolFor (some space) name origin flavor).run.run s = (.ok id, s')) :
    Follows c s s' ∧ s'.find? (some space) name = some id ∧
      flavor.specificity ≤ (s'.symbol id).flavor.specificity := by
  obtain ⟨-, hfind, -, -, hle⟩ := hs.indexed.symbolFor_ok hrun
  refine ⟨?_, hfind, hle⟩
  rcases symbolFor_run (some space) name origin flavor s with ⟨i, hi, hrun'⟩ | ⟨hnone, hrun'⟩
  · obtain ⟨-, rfl⟩ := Prod.mk.inj (hrun.symm.trans hrun')
    rcases s.raise_cases i flavor with heq | ⟨hlt, heq⟩
    · rw [heq]
      exact Follows.refl hs
    · rw [heq]
      obtain ⟨-, hspace, hname⟩ := hs.indexed.lt_of_find? hi
      refine hs.alter (fun _ => rfl) (fun _ => rfl) fun space' hspace' => ?_
      rw [hspace] at hspace'
      rw [← Option.some.inj hspace', hname]
      exact hraise _ _ (hs.role_of_find? hi) hlt
  · obtain ⟨-, rfl⟩ := Prod.mk.inj (hrun.symm.trans hrun')
    refine hs.grown (hs.indexed.push fun _ => hnone) (fun i hi => ?_) (fun h => ?_) rfl
    · rw [State.symbol_push]
      split
      · exact ⟨space, rfl, hnew⟩
      · rename_i hne
        rw [State.size_push] at hi
        exact hs.role i (Nat.lt_of_le_of_ne (Nat.le_of_lt_succ hi) hne)
    · rw [hs.indexed.find?_push, h, Option.some_or]

lemma current_run {outer : List String} {i : Id} (hpath : s.path = name :: outer)
    (hfind : s.find? (some (Text.join "." outer.reverse)) name = some i)
    (hflavor : 1 ≤ (s.symbol i).flavor.specificity) : current.run.run s = (.ok i, s) := by
  rw [current_cons hpath]
  rcases symbolFor_run (some (Text.join "." outer.reverse)) name none .nameSpace s with
    ⟨j, hj, hrun⟩ | ⟨hnone, -⟩
  · obtain rfl := Option.some.inj (hfind.symm.trans hj)
    have hraise : s.raise i .nameSpace = s := if_neg (Nat.not_lt_of_le hflavor)
    rw [hrun, hraise]
  · rw [hfind] at hnone
    cases hnone

lemma Chained.module_run (hs : Chained c s) {m : String} {i : Id} (hpath : s.path = [m])
    (hi : s.find? (some "") m = some i) : current.run.run s = (.ok i, s) := by
  refine current_run hpath hi ?_
  rw [(hs.role_of_find? hi).flavor_module]
  decide

/-! ## Uses and scopes -/

lemma Chained.use (hs : Chained c s) (hab : c.Uses s a b)
    (hrun : (addUses a b).run.run s = (.ok (), s')) :
    Follows c s s' ∧ b ∈ s'.uses.targets a := by
  have hjoins := addUses_ok hrun
  obtain ⟨uses, rfl⟩ := hjoins.rest
  have htarget : ∀ {a b}, c.Uses s a b → (s.symbol b).isWild = false := by
    rintro a b ⟨m, next, -, hb, -⟩
    exact hs.not_isWild (hs.indexed.lt_of_find? hb).1
  have hgains : Gains s { s with uses } := by
    refine ⟨fun h => h, fun {x y} hy => ?_, fun h => h, fun h => h⟩
    exact hjoins.mem (htarget (hs.uses x y hy)) (Or.inl hy)
  refine ⟨⟨hgains, ⟨⟨hs.indexed.named, hs.indexed.found⟩, hs.role, hjoins.keyed hs.keyed, ?_, hs.bound,
    hs.unbound, hs.bases, hs.classes, hs.inClass, hs.modules⟩, rfl⟩, ?_⟩
  · intro x y hy
    rcases hjoins.of_mem hy with hy | ⟨rfl, rfl⟩
    · exact hs.uses x y hy
    · exact hab
  · exact hjoins.mem (htarget hab) (Or.inr ⟨rfl, rfl⟩)

lemma hasName_set {scope : Scope} (hscope : s.scope? space = some scope) {value : Option Id}
    {space' name' : String} (h : s.hasName space' name' = true) : State.hasName { s with
      scopes := Assoc.set space (Assoc.set name value scope) s.scopes } space' name' = true := by
  rw [State.hasName, scope?_set]
  split
  · rename_i hspace
    rw [State.hasName, hspace, hscope] at h
    have hhas : Assoc.has name' scope = true := h
    show Assoc.has name' (Assoc.set name value scope) = true
    rw [Assoc.has, Assoc.get?_set]
    split
    · rfl
    · exact hhas
  · exact h

lemma Chained.bind (hs : Chained c s) {m : String} (hwithin : s.within = [m])
    (hg : name = "g" → m ≠ c.first ++ "." ++ "f" ∧ (m = c.first →
      ∃ next, (c.first, next) ∈ c.links ∧ s.find? (some next) "g" = some id))
    (hrun : (bindName name (some id)).run.run s = (.ok (), s')) :
    Follows c s s' ∧ (s.hasName m name = true → s'.member? m name = some id) := by
  rw [bindName, run_get_bind, hwithin] at hrun
  cases hhas : s.hasName m name with
  | false =>
    rw [find?_cons_of_neg (by rw [← State.hasName, hhas]; exact Bool.false_ne_true)] at hrun
    obtain ⟨-, rfl⟩ := Prod.mk.inj hrun
    exact ⟨Follows.refl hs, nofun⟩
  | true =>
    have hfind : ([m].find? fun space => ((s.scope? space).map (Assoc.has name)).getD false)
        = some m := find?_cons_of_pos hhas
    rw [hfind] at hrun
    rcases setName_run m name id s with ⟨hnone, -⟩ | ⟨scope, hscope, hrun'⟩
    · rw [State.hasName, hnone] at hhas
      cases hhas
    · obtain ⟨-, rfl⟩ := Prod.mk.inj (hrun.symm.trans hrun')
      have hmember : ∀ space' name', State.member? { s with
          scopes := Assoc.set m (Assoc.set name (some id) scope) s.scopes } space' name'
          = if space' = m ∧ name' = name then some id else s.member? space' name' :=
        member?_set hscope id
      have hgains : Gains s { s with
          scopes := Assoc.set m (Assoc.set name (some id) scope) s.scopes } := by
        refine ⟨fun h => h, fun h => h, fun h => hasName_set hscope h, fun {space' name'} h => ?_⟩
        rw [hmember]
        split
        · rfl
        · exact h
      refine ⟨⟨hgains, ⟨⟨hs.indexed.named, hs.indexed.found⟩, hs.role, hs.keyed, hs.uses,
        fun i hi => ?_, ?_, hs.bases, hs.classes, hs.inClass, hs.modules⟩, rfl⟩, fun _ => ?_⟩
      · rw [hmember] at hi
        split at hi
        · rename_i heq
          rw [← Option.some.inj hi]
          exact (hg heq.2.symm).2 heq.1.symm
        · exact hs.bound i hi
      · rw [hmember, if_neg fun heq => (hg heq.2.symm).1 heq.1.symm]
        exact hs.unbound
      · rw [hmember, if_pos ⟨rfl, rfl⟩]

lemma Chained.last (hs : Chained c s) {value : Option Id}
    (hrun : (setLast value).run.run s = (.ok (), s')) : Follows c s s' := by
  obtain ⟨-, rfl⟩ := Prod.mk.inj hrun
  exact ⟨⟨fun h => h, fun h => h, fun h => h, fun h => h⟩, ⟨⟨hs.indexed.named, hs.indexed.found⟩,
    hs.role, hs.keyed, hs.uses, hs.bound, hs.unbound, hs.bases, hs.classes, hs.inClass, hs.modules⟩, rfl⟩

lemma Chained.tie (hs : Chained c s) {origin : Origin}
    (hrun : (associate id origin).run.run s = (.ok (), s')) : Follows c s s' := by
  rw [associate, run_get_bind, modifySymbol_run] at hrun
  obtain ⟨-, rfl⟩ := Prod.mk.inj hrun
  exact hs.alter (fun _ => rfl) (fun _ => rfl) fun space hspace => hs.role_of_space hspace

lemma Chained.note (hs : Chained c s) {source : Id} {target : Option Id}
    (hsource : 3 ≤ (s.symbol source).flavor.specificity)
    (htarget : ∀ t, target = some t → 3 ≤ (s.symbol t).flavor.specificity)
    (hrun : (addDefines source target).run.run s = (.ok (), s')) : Follows c s s' := by
  -- what says as much as a definition may be defined
  have hdefined : ∀ {s : State} {id : Id}, Chained c s → 3 ≤ (s.symbol id).flavor.specificity →
      Follows c s (s.alter id ({ · with defined := true })) := by
    intro s id hs hid
    refine hs.alter (fun _ => rfl) (fun _ => rfl) fun space hspace => ?_
    have hrole := hs.role_of_space hspace
    generalize (s.symbol id).flavor = flavor at hid hrole ⊢
    generalize (s.symbol id).name = name at hrole
    generalize (s.symbol id).defined = defined at hrole
    cases hrole with
    | module hm => exact .module hm
    | caller => exact .caller
    | imported => exact absurd hid (by decide)
    | definer => exact .definer
    | argument => exact absurd hid (by decide)
  have hdefines : ∀ {s : State} (defines : Edges), Chained c s → Follows c s { s with defines } :=
    fun defines hs => hs.grown ⟨hs.indexed.named, hs.indexed.found⟩ hs.role (fun h => h) rfl
  rw [addDefines_run] at hrun
  obtain ⟨-, rfl⟩ := Prod.mk.inj hrun
  have htouch := hdefines (s.defines.touch source) hs
  have hnoted : Follows c s (s.definedBy source none) := htouch.trans (hdefined htouch.chained hsource)
  cases target with
  | none => exact hnoted
  | some t =>
    rw [State.definedBy]
    split
    · exact hnoted
    · have hadd := hdefines ((s.definedBy source none).defines.add source t) hnoted.chained
      refine hnoted.trans (hadd.trans (hdefined hadd.chained ?_))
      have hsame := State.symbol_alter_congr { s with defines := s.defines.touch source }
        Symbol.flavor source ({ · with defined := true }) (fun _ => rfl) t
      have hflavor : ((s.definedBy source none).symbol t).flavor = (s.symbol t).flavor := hsame
      show 3 ≤ ((s.definedBy source none).symbol t).flavor.specificity
      rw [hflavor]
      exact htarget t rfl

/-! ## Imports -/

lemma Chained.visit_fetch (hs : Chained c s) {m next : String} {i : Id} (hlink : (m, next) ∈ c.links)
    (hpath : s.path = [m]) (hwithin : s.within = [m]) (hi : s.find? (some "") m = some i)
    (hrun : (visit (fetch next)).run.run s = (.ok (), s')) :
    Follows c s s' ∧ (∃ b, s'.find? (some next) "g" = some b ∧ b ∈ s'.uses.targets i) ∧
      (s.hasName m "g" = true → (s'.member? m "g").isSome = true) := by
  obtain ⟨hm, hnext⟩ := Chain.mem_of_link hlink
  have hno : ¬ Assoc.has (next ++ "." ++ "g") s.modules = true := by
    rw [hs.modules next (Chain.mem_modules_of_source hnext)]
    exact Bool.false_ne_true
  rw [fetch, visit, run_bind_of_ok (hs.module_run hpath hi), run_get_bind] at hrun
  obtain ⟨⟨⟩, s₁, himport, hrun⟩ := run_bind_ok.mp hrun
  obtain ⟨-, rfl⟩ := Prod.mk.inj hrun
  have himport : (importName i next { name := "g" }).run.run s = (.ok (), s₁) := himport
  rw [importName, run_get_bind] at himport
  rw [if_neg hno] at himport
  obtain ⟨b, s₂, hask, himport⟩ := run_bind_ok.mp himport
  obtain ⟨⟨⟩, s₃, hbind, huse⟩ := run_bind_ok.mp himport
  have hne : next ≠ "" := (c.named next (Chain.mem_modules_of_source hnext)).1
  obtain ⟨hasked, hb, -⟩ := hs.ask (.imported hnext) (fun old defined hrole hlt => by
    rcases hrole.flavor_g hne with ⟨-, rfl, -⟩ | ⟨-, rfl⟩
    · exact absurd hlt (by decide)
    · exact absurd hlt (by decide)) hask
  have hinner : m ≠ c.first ++ "." ++ "f" := by
    rintro rfl
    exact (Chain.dotted_not_mem (c := c) mem_cons_self).1 hm
  have hfirst : m = c.first → ∃ next, (c.first, next) ∈ c.links ∧ s₂.find? (some next) "g" = some b := by
    rintro rfl
    exact ⟨next, hlink, hb⟩
  obtain ⟨hbound, hmember⟩ :=
    hasked.chained.bind (hasked.within.trans hwithin) (fun _ => ⟨hinner, hfirst⟩) hbind
  have hfollows := hasked.trans hbound
  obtain ⟨hused, hmem⟩ := hbound.chained.use
    ⟨m, next, hlink, hbound.found hb, Or.inl (hfollows.found hi)⟩ huse
  refine ⟨hfollows.trans hused, ⟨b, (hbound.trans hused).found hb, hmem⟩, fun hhas => ?_⟩
  refine hused.bound ?_
  have hvalue : s₃.member? m "g" = some b := hmember (hasked.names hhas)
  rw [hvalue]
  rfl

end Steps

end Docsmith.Calls

