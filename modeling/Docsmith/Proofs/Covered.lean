import Docsmith.Proofs.Sound
import Docsmith.Proofs.Visits

/-! # Visits that go well

A program is `Tree.isCovered` if the table of blocks has one for each function, class, lambda and
generator that is entered, under the name that the visit gives it. Then a visit of a clear program
does not fail (`does_visit`). -/

namespace Docsmith.Calls

open Rules List

/-! ## Blocks -/

mutual

/-- Whether each block that a visit of a program enters is among the given scopes. -/
def Tree.isCovered (scopes path : List String) : Tree → Bool
  | .group children => Tree.allCovered scopes path children
  | .attribute value _ _ => value.isCovered scopes path
  | .call func args keywords =>
    func.isCovered scopes path && Tree.allCovered scopes path args
      && Tree.allCovered scopes path keywords
  | .bind targets values => Tree.allCovered scopes path targets && Tree.allCovered scopes path values
  | .declare target => target.isCovered scopes path
  | .enter context => Tree.allCovered scopes path context
  | .function head decorators defaults body =>
    let inner := head.name :: path
    Tree.allCovered scopes path decorators && scopes.contains (blockName inner)
      && Tree.allCovered scopes inner defaults && Tree.allCovered scopes inner body
  | .lambda _ defaults body =>
    let inner := "lambda" :: path
    scopes.contains (blockName inner) && Tree.allCovered scopes inner defaults
      && body.isCovered scopes inner
  | .generator iters targets conditions further element =>
    let inner := "genexpr" :: path
    Tree.allCovered scopes path iters && scopes.contains (blockName inner)
      && Tree.allCovered scopes inner targets && Tree.allCovered scopes inner conditions
      && Tree.allCovered scopes inner further && element.isCovered scopes inner
  | .classDef title bases body =>
    let inner := title :: path
    scopes.contains (blockName inner) && Tree.allCovered scopes inner bases
      && Tree.allCovered scopes inner body
  | .name _ _ | .constant _ | .importModules _ | .importFrom _ _ _ => true

def Tree.allCovered (scopes path : List String) : List Tree → Bool
  | [] => true
  | t :: ts => t.isCovered scopes path && Tree.allCovered scopes path ts

end

lemma Tree.allCovered_iff {scopes path : List String} {ts : List Tree} :
    Tree.allCovered scopes path ts = true ↔ ∀ t ∈ ts, t.isCovered scopes path = true := by
  induction ts with
  | nil => simp [Tree.allCovered]
  | cons t ts ih => simp [Tree.allCovered, ih]

def Rooted (path : List String) : Prop :=
  ∃ m, path.getLast? = some m ∧ m ≠ ""

lemma Rooted.cons {path : List String} (h : Rooted path) (name : String) : Rooted (name :: path) := by
  obtain ⟨m, hm, hne⟩ := h
  refine ⟨m, ?_, hne⟩
  rw [getLast?_cons, hm]
  rfl

lemma join_concat (sep x : String) {xs : List String} (h : xs ≠ []) :
    Text.join sep (xs ++ [x]) = Text.join sep xs ++ sep ++ x := by
  cases xs with
  | nil => exact absurd rfl h
  | cons y ys =>
    rw [cons_append, Text.join, Text.join, foldl_append]
    rfl

lemma Rooted.join_ne {path : List String} (h : Rooted path) :
    Text.join "." path.reverse ≠ "" := by
  obtain ⟨m, hm, hne⟩ := h
  obtain ⟨rest, hrest⟩ := getLast?_eq_some_iff.mp hm
  rw [hrest, reverse_append]
  show Text.join "." (m :: rest.reverse) ≠ ""
  cases rest.reverse with
  | nil => exact hne
  | cons y ys =>
    rw [Text.join_cons_cons]
    intro hempty
    have hlist := congrArg String.toList hempty
    simp at hlist

lemma Rooted.blockName_eq {path : List String} (h : Rooted path) :
    blockName path = Text.join "." path.reverse := by
  cases path with
  | nil => rfl
  | cons name outer =>
    cases outer with
    | nil => rfl
    | cons next rest =>
      have houter : Rooted (next :: rest) := by
        obtain ⟨m, hm, hne⟩ := h
        exact ⟨m, hm, hne⟩
      rw [blockName, qualified, if_neg houter.join_ne, ← join_concat "." name (by simp),
        ← reverse_cons]

def State.Opens (s : State) : List String → Prop
  | [] => True
  | name :: outer =>
    (∃ i, s.find? (some (Text.join "." outer.reverse)) name = some i ∧ s.Solid i) ∧ s.Opens outer

lemma Grows.opens {s s' : State} (h : Grows s s') {path : List String} (hs : s.Opens path) :
    s'.Opens path := by
  induction path with
  | nil => trivial
  | cons name outer ih =>
    obtain ⟨⟨i, hfind, hsolid⟩, houter⟩ := hs
    exact ⟨⟨i, h.found hfind, h.solid hsolid⟩, ih houter⟩

/-- A visit is in nested blocks whose scopes are known, like all scopes that are given. -/
structure State.At (scopes path : List String) (s : State) : Prop where
  place : s.path = path
  within : s.within ≠ []
  opens : s.Opens path
  rooted : Rooted path
  here : blockName path ∈ scopes
  known : ∀ space ∈ scopes, (s.scope? space).isSome = true

def safely : Rules State :=
  visiting fun _ => False

variable {scopes path : List String}

lemma stable_at : safely.Stable (State.At scopes path) := by
  intro s s' h hs
  have hkeeps : Keeps s s' := h
  have hwithin : s'.within ≠ [] := by
    rw [hkeeps.within]
    exact hs.within
  exact ⟨hkeeps.path.trans hs.place, hwithin, hkeeps.toGrows.opens hs.opens, hs.rooted, hs.here,
    fun space hspace => hkeeps.scopes space (hs.known space hspace)⟩

/-! ## The block that is visited -/

lemma fair_of_flavor (space name : String) {flavor : Flavor} (himported : flavor ≠ .imported)
    (hattribute : flavor ≠ .attribute) : Fair (some space) name flavor :=
  ⟨nofun, fun h => (h.elim himported hattribute).elim⟩

lemma does_current : safely.Does (State.At scopes path) current fun id s =>
    s.Solid id ∧ (s.symbol id).fullName = blockName path ∧ s.At scopes path := by
  cases hpath : path with
  | nil =>
    intro s _ hs
    obtain ⟨m, hm, -⟩ := hs.rooted
    cases hm
  | cons name outer =>
    have hfair : Fair (some (Text.join "." outer.reverse)) name .nameSpace :=
      fair_of_flavor _ _ (by decide) (by decide)
    have hstable : safely.Stable (State.At scopes (name :: outer)) := stable_at
    intro s hs hat
    rw [current_cons hat.place]
    refine ((does_symbolFor hfair none).frame hstable).imp (fun _ _ h => ⟨trivial, h⟩)
      (fun id s' hs' h => ?_) s hs hat
    obtain ⟨⟨hfind, -⟩, hat'⟩ := h
    obtain ⟨⟨i, hi, hsolid⟩, -⟩ := hat'.opens
    obtain rfl := Option.some.inj (hi.symm.trans hfind)
    obtain ⟨-, hspace, hname⟩ := (Sound.tidy hs').indexed.lt_of_find? hfind
    refine ⟨hsolid, ?_, hat'⟩
    rw [Symbol.fullName_of_space hspace, hname]
    rfl

lemma does_currentName : safely.Does (State.At scopes path) currentName
    fun r s => r = blockName path ∧ s.At scopes path := by
  refine does_current.bind fun id => (does_symbolOf id).bind fun x => ?_
  refine does_pure ?_
  rintro s - ⟨rfl, -, hname, hat⟩
  exact ⟨hname, hat⟩

lemma does_use (target : Id) : safely.Does (fun s => s.At scopes path ∧ s.Known target)
    (do addUses (← current) target) fun _ _ => True := by
  refine does_current.carry (stable_known target) (fun _ _ h => h) fun user => ?_
  exact (does_addUses user target).given fun _ _ h => ⟨h.1.1, h.2⟩

/-! ## Names, attributes and imports -/

lemma does_visitName {id : String} (hid : id ∉ blockLabels) (mode : Mode) :
    safely.Does (State.At scopes path) (visitName id mode) fun _ _ => True := by
  cases mode with
  | delete => exact does_done
  | store =>
    refine does_get.bind fun s => (does_bindName id s.last).given ?_
    rintro s' hs ⟨rfl, -⟩
    exact (Sound.stored hs).last
  | load =>
    have hrest : ∀ target, safely.Does (fun s => s.Known target ∧ s.At scopes path) (do
        addUses (← current) target
        setLast (some target)) fun _ _ => True := by
      intro target
      refine does_current.carry (stable_known target) (fun _ _ h => h.symm) fun user => ?_
      refine (does_addUses user target).carry (stable_known target)
        (fun _ _ h => ⟨⟨h.1.1, h.2⟩, h.2⟩) fun _ => ?_
      exact (does_setLast (some target)).given fun _ _ h => h.2.knownIf
    refine Does.seq ((does_valueOf id).given fun _ _ h => h.within) stable_at
      fun value => ?_
    refine does_get.bind fun s => ?_
    dsimp only
    split
    · exact (does_setLast value).given fun _ _ h => h.2.1
    · cases value with
      | some v => exact (hrest v).given fun _ _ h => ⟨h.2.1 v rfl, h.2.2⟩
      | none =>
        have hfair : Fair none id .unknown := ⟨fun _ => ⟨hid, rfl⟩, fun _ => hid⟩
        refine Does.bind ?_ hrest
        exact ((does_symbolFor_known hfair hid _).frame stable_at).imp
          (fun _ _ h => ⟨trivial, h.2.2⟩) fun _ _ _ h => h

lemma does_useMethod (object : Id) {method : String} (hmethod : method ∉ blockLabels) :
    safely.Does (State.At scopes path) (useMethod object method) fun _ _ => True := by
  refine does_current.bind fun user => (does_symbolOf object).bind fun x => ?_
  refine (does_symbolFor_known (fair_of_not_mem hmethod _) hmethod none).carry (stable_solid user)
    (fun _ _ h => ⟨trivial, h.2.1⟩) fun target => ?_
  exact (does_addUses user target).given fun _ _ h => h.symm

lemma does_visitAttribute {value : Tree} {attr : String} (hclear : value.isClear = true)
    (hattr : attr ∉ blockLabels) (mode : Mode) :
    safely.Does (State.At scopes path) (visitAttribute value attr mode) fun _ _ => True := by
  cases mode with
  | delete => exact does_done
  | store =>
    refine does_get.bind fun s => ?_
    have hwrite : safely.Does (fun s' => s'.within ≠ [] ∧ s'.KnownIf s.last)
        (orUnresolved (writeAttribute value attr .store s.last) false) fun _ _ => True :=
      does_orUnresolved (does_writeAttribute hclear attr s.last fun m => ⟨m, rfl⟩) false
        fun _ => trivial
    refine (hwrite.given ?_).bind fun _ => does_done
    rintro s' hs ⟨rfl, hat⟩
    exact ⟨hat.within, (Sound.stored hs).last⟩
  | load =>
    -- what is found may be held, and so may the symbol of an attribute that is not
    have hread : safely.Does (fun s => s.within ≠ [])
        (orUnresolved (some <$> readAttribute value attr .load) none)
        fun r s => ∀ found, r = some found → s.KnownIf found.1 ∧ s.KnownIf found.2 := by
      refine does_orUnresolved ?_ none fun _ => nofun
      refine Does.bind (does_readAttribute hclear hattr fun _ m => ⟨m, rfl⟩) fun r => does_pure ?_
      rintro s - hr found hfound
      exact Option.some.inj hfound ▸ hr
    refine Does.seq (hread.given fun _ _ h => h.within) stable_at fun r => ?_
    split
    · exact does_done
    · rename_i object member
      have hmember : safely.Stable fun s => s.Known member := stable_known member
      refine does_current.carry hmember (fun _ _ h => ⟨h.2, (h.1 _ rfl).2 member rfl⟩) fun user => ?_
      refine (does_addUses user member).carry hmember (fun _ _ h => ⟨⟨h.1.1, h.2⟩, h.2⟩) fun _ => ?_
      refine Does.bind (does_symbolOf member) fun x => ?_
      have hlast : safely.Does (fun s => s.Known member) (do
          setLast (some member)
          return false) fun _ _ => True :=
        ((does_setLast _).given fun _ _ h => h.knownIf).bind fun _ =>
          does_done
      split
      · refine (does_removeWild user member attr).carry hmember (fun _ _ h => ⟨trivial, h.2.2⟩) fun _ => ?_
        exact hlast.given fun _ _ h => h.2
      · exact hlast.given fun _ _ h => h.2.2
    · rename_i object
      refine (does_symbolOf object).bind fun x => ?_
      split
      · exact does_done
      · refine (does_current.given fun _ _ h => h.2.2).bind fun user => ?_
        refine (does_symbolFor_known (fair_of_not_mem hattr _) hattr _).carry (stable_solid user)
          (fun _ _ h => ⟨trivial, h.1⟩) fun target => ?_
        have htarget : safely.Stable fun s => s.Known target := stable_known target
        refine (does_addUses user target).carry htarget (fun _ _ h => ⟨h.symm, h.1⟩) fun _ => ?_
        refine (does_removeWild user object attr).carry htarget (fun _ _ h => ⟨trivial, h.2⟩) fun _ => ?_
        refine ((does_setLast _).given fun _ _ h => h.2.knownIf).bind fun _ => ?_
        exact does_done
    · exact does_done

lemma does_importModule {a : Alias} (ha : a.name ∉ blockLabels) :
    safely.Does (State.At scopes path) (importModule a) fun _ _ => True := by
  refine does_current.bind fun user => ?_
  refine (does_symbolFor_known (fair_of_not_mem ha _) ha _).carry (stable_solid user)
    (fun _ _ h => ⟨trivial, h.1⟩) fun module => ?_
  refine (does_addUses user module).carry (stable_known module) (fun _ _ h => ⟨h.symm, h.1⟩) fun _ => ?_
  exact (does_bindName _ _).given fun _ _ h => h.2.knownIf

lemma dotted_not_label (space name : String) : space ++ "." ++ name ∉ blockLabels := by
  intro hmem
  have hdot : ∀ label ∈ blockLabels, '.' ∉ label.toList := by decide
  exact hdot _ hmem (by simp)

lemma does_importName (user : Id) (source : String) {a : Alias} (ha : a.name ∉ blockLabels) :
    safely.Does (fun s => s.Solid user) (importName user source a) fun _ _ => True := by
  have hrest : ∀ id, safely.Does (fun s => s.Known id ∧ s.Solid user) (do
      bindName (a.asName.getD a.name) (some id)
      addUses user id) fun _ _ => True := by
    intro id
    have hstable : safely.Stable _ := (stable_known id).and (stable_solid user)
    refine (does_bindName _ (some id)).carry hstable (fun _ _ h => ⟨h.1.knownIf, h⟩) fun _ => ?_
    exact (does_addUses user id).given fun _ _ h => h.2.symm
  refine does_get.bind fun s => ?_
  split
  · have hname := dotted_not_label source a.name
    exact (does_symbolFor_known (fair_of_not_mem hname _) hname _).carry (stable_solid user)
      (fun _ _ h => ⟨trivial, h.2⟩) hrest
  · exact (does_symbolFor_known (fair_of_not_mem ha _) ha _).carry (stable_solid user)
      (fun _ _ h => ⟨trivial, h.2⟩) hrest

lemma does_markParams (inner : String) (params : Params) :
    safely.Does (fun s => (s.scope? inner).isSome = true) (markParams inner params)
      fun _ _ => True := by
  have hname : argumentName ∉ blockLabels := by decide
  refine (does_scopeOf inner).bind fun _ => ?_
  refine (does_symbolFor_known (fair_of_not_mem hname _) hname none).any.bind fun mark => ?_
  exact does_forM_of_stable (stable_known mark) fun p _ => does_setName inner p mark

/-! ## Definitions -/

lemma Sound.alter {s : State} (hs : Sound s) (id : Id) {f : Symbol → Symbol}
    (hspace : ∀ x, (f x).space = x.space) (hname : ∀ x, (f x).name = x.name)
    (hflavor : ∀ x, (f x).flavor = x.flavor)
    (hdefined : ∀ x, x.defined = true → (f x).defined = true) :
    Sound (s.alter id f) ∧ Keeps s (s.alter id f) := by
  have hbesides : Besides (some id) s (s.alter id f) :=
    besides_alter hspace hname hflavor hdefined fun h => absurd rfl h
  have hgrows := hbesides.grows hs.tidy fun _ h => h
  refine ⟨hgrows.sound ⟨hs.tidy.indexed.alter hspace hname, fun i => ?_⟩ (hs.stored.congr rfl), hgrows,
    rfl⟩
  rw [s.symbol_alter_congr Symbol.space id f hspace, s.symbol_alter_congr Symbol.name id f hname,
    s.symbol_alter_congr Symbol.flavor id f hflavor]
  exact hs.tidy.fair i

lemma Sound.defines {s : State} (hs : Sound s) {defines : Edges}
    (h : ∀ e ∈ defines, ∀ t ∈ e.2, s.Known t) :
    Sound { s with defines } ∧ Keeps s { s with defines } := by
  obtain ⟨h1, -, h3, h4, h5, h6, h7⟩ := hs.stored
  exact hs.holding ⟨h1, h, h3, h4, h5, h6, h7⟩

lemma does_associate (id : Id) (origin : Origin) :
    safely.Does (fun _ => True) (associate id origin) fun _ _ => True := by
  refine does_get.bind fun s₀ => does_modify fun s hs _ => ?_
  refine and_assoc.mp ⟨?_, trivial⟩
  exact hs.alter id (fun _ => rfl) (fun _ => rfl) (fun _ => rfl) fun _ h => h

lemma Sound.noted {s : State} (hs : Sound s) {id : Id} (hid : id < s.symbols.size) :
    Sound (s.alter id ({ · with defined := true })) ∧
      Keeps s (s.alter id ({ · with defined := true })) ∧
      (s.alter id ({ · with defined := true })).Known id := by
  obtain ⟨hsound, hkeeps⟩ := hs.alter id (f := ({ · with defined := true })) (fun _ => rfl)
    (fun _ => rfl) (fun _ => rfl) fun _ _ => rfl
  refine ⟨hsound, hkeeps, hid.trans_le hkeeps.size, fun _ => ?_⟩
  rw [State.symbol_alter, if_pos ⟨rfl, hid⟩]

lemma Stored.defined {known solid placed : Id → Prop} {s : State}
    (h : Stored known solid placed s) {source t : Id} (ht : t ∈ s.defines.targets source) : known t := by
  rw [Edges.targets] at ht
  cases hget : Assoc.get? source s.defines with
  | none =>
    rw [hget] at ht
    cases ht
  | some targets =>
    rw [hget] at ht
    exact h.defines _ (Assoc.mem_of_get? hget) t ht

lemma Sound.definedBy_none {s : State} (hs : Sound s) {source : Id}
    (hsource : source < s.symbols.size) :
    Sound (s.definedBy source none) ∧ Keeps s (s.definedBy source none) := by
  have htouch : ∀ e ∈ s.defines.touch source, ∀ t ∈ e.2, s.Known t := by
    intro e he t ht
    rcases Assoc.mem_of_mem_set he with rfl | he
    · exact hs.stored.defined ht
    · exact hs.stored.defines e he t ht
  obtain ⟨hs₁, hkeeps₁⟩ := hs.defines htouch
  obtain ⟨hs₂, hkeeps₂, -⟩ := hs₁.noted hsource
  exact ⟨hs₂, hkeeps₁.trans hkeeps₂⟩

lemma does_addDefines {source target : Id} :
    safely.Does (fun s => source < s.symbols.size ∧ target < s.symbols.size)
      (addDefines source (some target)) fun _ s => s.Known target := by
  refine does_of_run fun s hs hlt => ?_
  rw [addDefines_run]
  obtain ⟨hs₂, hkeeps⟩ := hs.definedBy_none hlt.1
  refine ⟨(), _, rfl, ?_⟩
  rw [State.definedBy]
  split
  · rename_i hmem
    exact ⟨hs₂, hkeeps, hs₂.stored.defined hmem⟩
  · obtain ⟨hs₃, hkeeps₃, hknown⟩ := hs₂.noted (hlt.2.trans_le hkeeps.size)
    have hadd : ∀ e ∈ (s.defines.touch source).add source target, ∀ t ∈ e.2,
        (State.alter (State.alter { s with defines := s.defines.touch source } source
          ({ · with defined := true })) target ({ · with defined := true })).Known t := by
      intro e he t ht
      rcases Assoc.mem_of_mem_set he with rfl | he
      · have hold : t ∈ (s.defines.touch source).targets source → State.Known _ t :=
          fun h => hs₃.stored.defined h
        split at ht
        · exact hold ht
        · rcases mem_append.mp ht with ht | ht
          · exact hold ht
          · exact mem_singleton.mp ht ▸ hknown
      · exact hs₃.stored.defines e he t ht
    obtain ⟨hs₄, hkeeps₄⟩ := hs₃.defines hadd
    exact ⟨hs₄, hkeeps.trans (hkeeps₃.trans hkeeps₄), hkeeps₄.toGrows.known hknown⟩

structure State.DefinedAs (s : State) (space name : String) (id : Id) : Prop where
  found : s.find? (some space) name = some id
  lt : id < s.symbols.size
  specific : 3 ≤ (s.symbol id).flavor.specificity

lemma stable_definedAs (space name : String) (id : Id) :
    safely.Stable fun s => s.DefinedAs space name id := by
  intro s s' h hs
  have hkeeps : Keeps s s' := h
  exact ⟨hkeeps.found hs.found, hs.lt.trans_le hkeeps.size,
    hs.specific.trans (hkeeps.symbol id hs.lt).2.2.1⟩

lemma does_define (name : String) (origin : Origin) {flavor : Flavor}
    (hflavor : 3 ≤ flavor.specificity) :
    safely.Does (State.At scopes path) (define name origin flavor) fun id s =>
      s.Known id ∧ s.DefinedAs (blockName path) name id := by
  have hfair : Fair (some (blockName path)) name flavor := by
    refine fair_of_flavor _ _ ?_ ?_
    · rintro rfl
      exact absurd hflavor (by decide)
    · rintro rfl
      exact absurd hflavor (by decide)
  refine does_current.bind fun outer => ?_
  have hname : safely.Does (fun s => s.Solid outer ∧ (s.symbol outer).fullName = blockName path ∧
      s.At scopes path) (symbolOf outer) fun x s => x.fullName = blockName path ∧ s.Solid outer :=
    (does_symbolOf outer).gives fun x s _ h => ⟨h.1 ▸ h.2.2.1, h.2.1⟩
  refine hname.bind_of fun x hx => ?_
  rw [hx]
  have hfor : safely.Does (fun _ => True) (symbolFor (some (blockName path)) name (some origin) flavor)
      fun id s => s.DefinedAs (blockName path) name id := by
    refine (does_symbolFor hfair (some origin)).gives fun id s hs h => ?_
    exact ⟨h.1, ((Sound.tidy hs).indexed.lt_of_find? h.1).1, hflavor.trans h.2⟩
  refine hfor.carry (stable_solid outer) (fun _ _ h => ⟨trivial, h⟩) fun id => ?_
  have hdefined := stable_definedAs (blockName path) name id
  refine does_addDefines.carry hdefined (fun _ _ h => ⟨⟨h.2.lt, h.1.lt⟩, h.1⟩) fun _ => ?_
  have hboth : safely.Stable _ := (stable_known id).and hdefined
  refine (does_associate id origin).carry hboth (fun _ _ h => ⟨trivial, h⟩) fun _ => ?_
  refine (does_bindName name (some id)).carry hboth (fun _ _ h => ⟨h.2.1.knownIf, h.2⟩) fun _ => ?_
  exact does_pure fun _ _ h => h.2

/-! ## Entering and leaving blocks -/

section Blocks

variable {s s₁ s₂ : State} {name : String}

lemma Sound.moved (hs : Sound s) (path within : List String) (inClass : List Bool) :
    Sound { s with path, within, inClass } ∧ Grows s { s with path, within, inClass } :=
  hs.same (hs.stored.congr rfl) (fun _ h => h) rfl rfl

structure Entered (s s₁ : State) : Prop extends Grows s s₁ where
  path : s₁.path.tail = s.path
  within : s₁.within.tail = s.within
  inClass : s₁.inClass.tail = s.inClass
  rest : { s₁ with
    path := s.path, within := s.within, inClass := s.inClass,
    symbols := s.symbols, table := s.table, uses := s.uses, defines := s.defines,
    scopes := s.scopes, bases := s.bases, last := s.last } = s

lemma Entered.leave (h : Entered s s₁) (hkeeps : Keeps s₁ s₂) (hs₂ : Sound s₂) :
    ∃ s₃, leaveBlock.run.run s₂ = (.ok (), s₃) ∧ Sound s₃ ∧ Keeps s s₃ := by
  obtain ⟨hs₃, hgrows⟩ := hs₂.moved s₂.path.tail s₂.within.tail s₂.inClass.tail
  refine ⟨_, rfl, hs₃, h.toGrows.trans (hkeeps.toGrows.trans hgrows), ?_⟩
  have hpath : s₂.path.tail = s.path := (congrArg List.tail hkeeps.path).trans h.path
  have hwithin : s₂.within.tail = s.within := (congrArg List.tail hkeeps.within).trans h.within
  have hclass : s₂.inClass.tail = s.inClass := (congrArg List.tail hkeeps.inClass).trans h.inClass
  dsimp only
  rw [hpath, hwithin, hclass, ← h.rest, ← hkeeps.rest]

lemma exists_opened (hs : Sound s) (hat : s.At scopes path)
    (hname : (∃ id, s.DefinedAs (blockName path) name id) ∨ name ∈ blockLabels) :
    ∃ s₁, currentName.run.run { s with path := name :: s.path }
        = (.ok (blockName (name :: path)), s₁) ∧
      Sound s₁ ∧ Keeps { s with path := name :: s.path } s₁ ∧ s₁.Opens (name :: path) := by
  have hfair : Fair (some (Text.join "." path.reverse)) name .nameSpace :=
    fair_of_flavor _ _ (by decide) (by decide)
  obtain ⟨hs', hgrows'⟩ := hs.moved (name :: s.path) s.within s.inClass
  have hfor : safely.Does _ _ _ := does_symbolFor hfair none
  obtain ⟨id, s₁, hrun, hs₁, hkeeps, hfind, -⟩ := hfor.run (fun _ h => h) hs' trivial
  have hgrows := hgrows'.trans hkeeps.toGrows
  obtain ⟨-, hspace, hid⟩ := hs₁.tidy.indexed.lt_of_find? hfind
  have hsolid : s₁.Solid id := by
    rcases hname with ⟨i, hdefined⟩ | hlabel
    · have hfound := hgrows.found hdefined.found
      rw [hat.rooted.blockName_eq, hfind] at hfound
      rw [Option.some.inj hfound]
      exact hgrows.solid (Or.inl hdefined.specific)
    · exact Or.inr (hid.symm ▸ hlabel)
  have hcurrent : current.run.run { s with path := name :: s.path } = (.ok id, s₁) := by
    rw [current_cons rfl]
    rw [← hat.place] at hrun
    exact hrun
  refine ⟨s₁, ?_, hs₁, hkeeps, ⟨id, hfind, hsolid⟩, hgrows.opens hat.opens⟩
  rw [currentName, run_bind_of_ok hcurrent, run_bind_of_ok (symbolOf_run id s₁),
    Symbol.fullName_of_space hspace, hid]
  rfl

lemma exists_entered (hs : Sound s) (hat : s.At scopes path)
    (hname : (∃ id, s.DefinedAs (blockName path) name id) ∨ name ∈ blockLabels)
    (hinner : blockName (name :: path) ∈ scopes) (isClass : Bool) :
    ∃ s₁, (currentName.run.run { s with path := name :: s.path }
        = (.ok (blockName (name :: path)), s₁)) ∧
      (s₁.scope? (blockName (name :: path))).isSome = true ∧
      let s₂ := { s₁ with
        within := blockName (name :: path) :: s₁.within, inClass := isClass :: s₁.inClass }
      Sound s₂ ∧ s₂.At scopes (name :: path) ∧ Entered s s₂ := by
  obtain ⟨s₁, hrun, hs₁, hkeeps, hopens⟩ := exists_opened hs hat hname
  have hgrows : Grows s s₁ :=
    (hs.moved (name :: s.path) s.within s.inClass).2.trans hkeeps.toGrows
  have hknown : ∀ space ∈ scopes, (s₁.scope? space).isSome = true :=
    fun space hspace => hgrows.scopes space (hat.known space hspace)
  obtain ⟨hs₂, hgrows'⟩ := hs₁.moved s₁.path (blockName (name :: path) :: s₁.within)
    (isClass :: s₁.inClass)
  refine ⟨s₁, hrun, hknown _ hinner, hs₂, ?_, hgrows.trans hgrows', ?_, ?_, ?_, ?_⟩
  · refine ⟨hkeeps.path.trans (congrArg _ hat.place), cons_ne_nil _ _, hgrows'.opens hopens,
      hat.rooted.cons name, hinner, hknown⟩
  · exact congrArg List.tail hkeeps.path
  · exact hkeeps.within
  · exact hkeeps.inClass
  · exact congrArg (fun t : State =>
      { t with path := s.path, within := s.within, inClass := s.inClass }) hkeeps.rest

end Blocks

/-- A step goes well up to the point where only another one is left to do. -/
def Comes (pre : State → Prop) (x done : Visit Unit) : Prop :=
  ∀ s, Sound s → pre s → ∃ s', Sound s' ∧ Keeps s s' ∧ x.run.run s = done.run.run s'

lemma comes_refl (pre : State → Prop) (done : Visit Unit) : Comes pre done done :=
  fun s hs _ => ⟨s, hs, Keeps.refl s, rfl⟩

variable {done : Visit Unit}

lemma Comes.bind {α : Type} {pre mid : State → Prop} {x : Visit α} {k : α → Visit Unit}
    (hx : safely.Does pre x fun _ => mid) (hk : ∀ a, Comes mid (k a) done) :
    Comes pre (x >>= k) done := by
  intro s hs hs₀
  obtain ⟨a, s₁, hrun, hs₁, hkeeps, hmid⟩ := hx.run (fun _ h => h) hs hs₀
  obtain ⟨s₂, hs₂, hkeeps', hrun'⟩ := hk a s₁ hs₁ hmid
  refine ⟨s₂, hs₂, Keeps.trans hkeeps hkeeps', ?_⟩
  rw [run_bind_of_ok hrun, hrun']

lemma Comes.after {α : Type} {pre : State → Prop} {x : Visit α} {k : α → Visit Unit}
    (hpre : safely.Stable pre) (hx : safely.Does pre x fun _ _ => True)
    (hk : ∀ a, Comes pre (k a) done) : Comes pre (x >>= k) done :=
  Comes.bind ((hx.frame hpre).imp (fun _ _ h => ⟨h, h⟩) fun _ _ _ h => h.2) hk

lemma comes_get {pre : State → Prop} {k : State → Visit Unit}
    (h : ∀ s, Sound s → pre s → Comes (· = s) (k s) done) : Comes pre (get >>= k) done :=
  fun s hs hpre => h s hs hpre s hs rfl

lemma comes_enterBlock {name : String} (hinner : blockName (name :: path) ∈ scopes)
    (isClass : Bool) {fact : State → Prop} (hfact : ∀ s s', Grows s s' → fact s → fact s')
    {k : String → Visit Unit} (hk : ∀ inner, inner = blockName (name :: path) →
      Comes (fun s => s.At scopes (name :: path) ∧ fact s) (k inner) (leaveBlock >>= fun _ => done)) :
    Comes (fun s => s.At scopes path ∧ (∃ id, s.DefinedAs (blockName path) name id) ∧ fact s)
      (enterBlock name isClass >>= k) done := by
  rintro s hs ⟨hat, hdefined, hs₀⟩
  obtain ⟨s₁, hname, hscope, hs₂, hat₂, hentered⟩ :=
    exists_entered hs hat (Or.inl hdefined) hinner isClass
  obtain ⟨s₃, hs₃, hkeeps, hrun⟩ := hk _ rfl _ hs₂ ⟨hat₂, hfact _ _ hentered.toGrows hs₀⟩
  obtain ⟨s₄, hleave, hs₄, hkeeps'⟩ := hentered.leave hkeeps hs₃
  refine ⟨s₄, hs₄, hkeeps', ?_⟩
  obtain ⟨scope, hscope⟩ := Option.isSome_iff_exists.mp hscope
  have hfound : (scopeOf (blockName (name :: path))).run.run s₁ = (.ok scope, s₁) := by
    rw [scopeOf, run_get_bind, hscope]
    rfl
  have henter : (enterBlock name isClass).run.run s = (.ok (blockName (name :: path)), { s₁ with
      within := blockName (name :: path) :: s₁.within, inClass := isClass :: s₁.inClass }) := by
    rw [enterBlock, run_modify_bind, run_bind_of_ok hname, run_bind_of_ok hfound]
    rfl
  rw [run_bind_of_ok henter, hrun, run_bind_of_ok hleave]

lemma run_always_ok {α : Type} {body : Visit α} {after : Visit Unit} {a : α} {s s₁ s₂ : State}
    (hbody : body.run.run s = (.ok a, s₁)) (hafter : after.run.run s₁ = (.ok (), s₂)) :
    (always body after).run.run s = (.ok a, s₂) := by
  have hstep : ∀ k : Except Fault α → StateM State (Except Fault α),
      (ExceptT.mk (body.run >>= k)).run.run s = (k (body.run.run s).1).run (body.run.run s).2 :=
    fun _ => rfl
  rw [always, hstep, hbody, StateT.run_bind, hafter]
  rfl

lemma does_defineBlock (label : String) : safely.Does (State.At scopes path) (do
    let outer ← current
    let block ← symbolFor (some (← symbolOf outer).fullName) label none .nameSpace
    addDefines outer (some block)
    setLast (some block)) fun _ _ => True := by
  refine does_current.bind fun outer => (does_symbolOf outer).bind fun x => ?_
  have hfair : Fair (some x.fullName) label .nameSpace :=
    fair_of_flavor _ _ (by decide) (by decide)
  have hfor : safely.Does (fun _ => True) (symbolFor (some x.fullName) label none .nameSpace)
      fun id s => id < s.symbols.size :=
    (does_symbolFor hfair none).gives fun id s hs h =>
      ((Sound.tidy hs).indexed.lt_of_find? h.1).1
  refine hfor.carry (stable_solid outer) (fun _ _ h => ⟨trivial, h.2.1⟩) fun block => ?_
  refine (does_addDefines.given fun _ _ h => ⟨h.2.lt, h.1⟩).bind fun _ => ?_
  exact (does_setLast _).given fun _ _ h => h.knownIf

lemma does_inBlock {label : String} (hlabel : label ∈ blockLabels)
    (hinner : blockName (label :: path) ∈ scopes) {body : String → Visit Unit}
    (hbody : safely.Does (State.At scopes (label :: path)) (body (blockName (label :: path)))
      fun _ _ => True) :
    safely.Does (State.At scopes path) (inBlock label body) fun _ _ => True := by
  refine does_of_run fun s hs hat => ?_
  obtain ⟨s₁, hname, hscope, hs₂, hat₂, hentered⟩ :=
    exists_entered hs hat (Or.inr hlabel) hinner false
  obtain ⟨⟨⟩, s₃, hrun, hs₃, hkeeps, -⟩ := hbody.run (fun _ h => h) hs₂ hat₂
  obtain ⟨s₄, hleave, hs₄, hkeeps'⟩ := hentered.leave hkeeps hs₃
  obtain ⟨⟨⟩, s₅, hdefine, hs₅, hkeeps'', -⟩ :=
    (does_defineBlock label).run (fun _ h => h) hs₄ (stable_at s s₄ hkeeps' hat)
  refine ⟨(), s₅, ?_, hs₅, Keeps.trans hkeeps' hkeeps'', trivial⟩
  have hpresent : (s₁.scope? (blockName (label :: path))).isNone = false := by
    rw [← Option.not_isSome, hscope]
    rfl
  rw [inBlock, run_modify_bind, run_bind_of_ok hname, run_get_bind, hpresent]
  rw [if_neg Bool.false_ne_true, run_modify_bind]
  refine run_always_ok hrun ?_
  rw [run_bind_of_ok hleave]
  exact hdefine

lemma comes_run (done : Visit Unit) {pre post : State → Prop} {x : Visit Unit}
    (h : Comes pre x done) {s : State} (hs : Sound s) (hpre : pre s) (hdone : ∀ s', Sound s' → Keeps s s' →
      ∃ a s'', done.run.run s' = (.ok a, s'') ∧ post s'') :
    ∃ a s'', x.run.run s = (.ok a, s'') ∧ post s'' := by
  obtain ⟨s', hs', hkeeps, hrun⟩ := h s hs hpre
  rw [hrun]
  exact hdone s' hs' hkeeps

lemma Comes.does {pre : State → Prop} {x : Visit Unit} (h : Comes pre x (pure ())) :
    safely.Does pre x fun _ _ => True := by
  refine does_of_run fun s hs hpre => ?_
  obtain ⟨s', hs', hkeeps, hrun⟩ := h s hs hpre
  exact ⟨(), s', hrun, hs', hkeeps, trivial⟩

/-! ## Programs -/

def Tree.Goes (scopes path : List String) (t : Tree) : Prop :=
  safely.Does (State.At scopes path) (visit t) fun _ _ => True

section Lists

variable {ts : List Tree}

lemma does_visitAll (h : ∀ t ∈ ts, t.Goes scopes path) :
    safely.Does (State.At scopes path) (visitAll ts) fun _ _ => True := by
  induction ts with
  | nil =>
    rw [visitAll]
    exact does_done
  | cons t ts ih =>
    rw [visitAll]
    exact Does.after stable_at (h t mem_cons_self) fun _ =>
      ih fun u hu => h u (mem_cons_of_mem _ hu)

lemma does_forget : safely.Does (State.At scopes path) (setLast none) fun _ s => s.At scopes path :=
  ((does_setLast none).frame stable_at).imp (fun s _ h => ⟨s.knownIf_none, h⟩) fun _ _ _ h => h.2

lemma does_drop (s : State) : safely.Does (fun s' => s = s' ∧ s'.At scopes path) (setLast none)
    fun _ s' => s'.At scopes path ∧ s'.KnownIf s.last := by
  have hvalue : safely.Stable fun s' => s'.KnownIf s.last := stable_knownIf _
  refine (does_forget.frame hvalue).given ?_
  rintro s' hs ⟨rfl, hat⟩
  exact ⟨hat, (Sound.stored hs).last⟩

lemma stable_all (values : List (Option Id)) :
    safely.Stable fun s => ∀ v ∈ values, s.KnownIf v :=
  fun s s' h hs v hv => stable_knownIf v s s' h (hs v hv)

lemma does_captureAll (h : ∀ t ∈ ts, t.Goes scopes path) :
    safely.Does (State.At scopes path) (captureAll ts) fun values s =>
      (∀ v ∈ values, s.KnownIf v) ∧ s.At scopes path := by
  induction ts with
  | nil =>
    rw [captureAll]
    exact does_pure fun _ _ h => ⟨fun v hv => absurd hv not_mem_nil, h⟩
  | cons t ts ih =>
    rw [captureAll]
    refine Does.after stable_at (h t mem_cons_self) fun _ => ?_
    refine does_get.bind fun s => (does_drop s).bind fun _ => ?_
    have hvalue : safely.Stable fun s' => s'.KnownIf s.last := stable_knownIf _
    refine (ih fun u hu => h u (mem_cons_of_mem _ hu)).carry hvalue (fun _ _ h => h)
      fun values => ?_
    refine does_pure fun s _ hs => ⟨fun v hv => ?_, hs.1.2⟩
    rcases mem_cons.mp hv with rfl | hv
    · exact hs.2
    · exact hs.1.1 v hv

lemma does_assignAll (h : ∀ t ∈ ts, t.Goes scopes path) (values : List (Option Id)) :
    safely.Does (fun s => (∀ v ∈ values, s.KnownIf v) ∧ s.At scopes path) (assignAll ts values)
      fun _ _ => True := by
  induction ts generalizing values with
  | nil =>
    rw [assignAll]
    · exact does_done
    · rintro _ _ _ _ ⟨⟩
  | cons t ts ih =>
    cases values with
    | nil =>
      rw [assignAll]
      · exact does_done
      · rintro _ _ _ _ _ ⟨⟩
    | cons v values =>
      rw [assignAll]
      have hstable : safely.Stable fun s => _ ∧ s.At scopes path := (stable_all values).and stable_at
      refine (does_setLast v).carry hstable (fun _ _ h => ⟨h.1 v mem_cons_self,
        fun w hw => h.1 w (mem_cons_of_mem _ hw), h.2⟩) fun _ => ?_
      refine (h t mem_cons_self).carry hstable (fun _ _ h => ⟨h.2.2, h.2⟩) fun _ => ?_
      exact (ih (fun u hu => h u (mem_cons_of_mem _ hu)) values).given fun _ _ h => h.2

lemma does_decoratorNames (h : ∀ t ∈ ts, t.Goes scopes path) :
    safely.Does (State.At scopes path) (decoratorNames ts) fun _ s => s.At scopes path := by
  induction ts with
  | nil =>
    rw [decoratorNames]
    exact does_pure fun _ _ h => h
  | cons t ts ih =>
    rw [decoratorNames]
    refine Does.after stable_at (h t mem_cons_self) fun _ => ?_
    refine does_get.bind fun s => (does_drop s).bind fun _ => ?_
    refine ((ih fun u hu => h u (mem_cons_of_mem _ hu)).given fun _ _ h => h.1).bind fun rest => ?_
    split
    · exact (does_symbolOf _).bind fun x => does_pure fun _ _ h => h.2
    · exact does_pure fun _ _ h => h

end Lists

section Forms

lemma goes_call {func : Tree} {args keywords : List Tree}
    (hclear : (Tree.call func args keywords).isClear = true) (hfunc : func.Goes scopes path)
    (hargs : ∀ t ∈ args, t.Goes scopes path) (hkeywords : ∀ t ∈ keywords, t.Goes scopes path) :
    (Tree.call func args keywords).Goes scopes path := by
  have hinit : "__init__" ∉ blockLabels := by decide
  rw [Tree.Goes, visit]
  refine Does.after stable_at (does_visitAll hargs) fun _ => ?_
  refine Does.after stable_at (does_visitAll hkeywords) fun _ => ?_
  have hobject : safely.Does (State.At scopes path)
      (orUnresolved (objectOf (.call func args keywords)) none) fun r s => s.KnownIf r :=
    (does_orUnresolved (does_objectOf hclear fun _ m => ⟨m, rfl⟩) none State.knownIf_none).imp
      (fun _ _ h => h.within) fun _ _ _ h => h
  refine hobject.seq stable_at fun r => ?_
  cases r with
  | some result =>
    have hresult : safely.Stable fun s => s.At scopes path ∧ s.Known result :=
      stable_at.and (stable_known result)
    refine (does_setLast (some result)).carry hresult (fun _ _ h => ⟨h.1, h.2, h.1 result rfl⟩)
      fun _ => ?_
    exact (does_use result).given fun _ _ h => h.2
  | none =>
    refine Does.carry hfunc stable_at (fun _ _ h => ⟨h.2, h.2⟩) fun _ => ?_
    refine does_get.bind fun s => ?_
    split
    · refine does_get.bind fun s' => ?_
      split
      · exact (does_useMethod _ hinit).given fun _ _ h => h.2.2.2
      · exact does_done
    · exact does_done

lemma goes_bind {targets values : List Tree} (htargets : ∀ t ∈ targets, t.Goes scopes path)
    (hvalues : ∀ t ∈ values, t.Goes scopes path) :
    (Tree.bind targets values).Goes scopes path := by
  rw [Tree.Goes, visit]
  have hlast : safely.Does (fun _ => True) (setLast none) fun _ _ => True :=
    (does_setLast none).given fun s _ _ => s.knownIf_none
  refine does_forget.bind fun _ => ?_
  split
  · refine (does_captureAll hvalues).bind fun captured => ?_
    exact (does_assignAll htargets captured).bind fun _ => hlast
  · refine Does.after stable_at (does_visitAll hvalues) fun _ => ?_
    exact (does_visitAll htargets).bind fun _ => hlast

lemma goes_enter {context : List Tree} (hcontext : ∀ t ∈ context, t.Goes scopes path) :
    (Tree.enter context).Goes scopes path := by
  rw [Tree.Goes, visit]
  have hlast : safely.Does (fun _ => True) (setLast none) fun _ _ => True :=
    (does_setLast none).given fun s _ _ => s.knownIf_none
  refine does_forget.bind fun _ => Does.after stable_at (does_visitAll hcontext) fun _ => ?_
  refine does_get.bind fun s => ?_
  split
  · have hmethods : ∀ m ∈ contextMethods, m ∉ blockLabels := by decide
    refine Does.bind ?_ fun _ => hlast
    exact (does_forM_of_stable stable_at fun m hm => does_useMethod _ (hmethods m hm)).imp
      (fun _ _ h => h.2) fun _ _ _ h => h
  · exact hlast.any

lemma goes_function {head : Head} {decorators defaults body : List Tree}
    (hinner : blockName (head.name :: path) ∈ scopes)
    (hdecorators : ∀ t ∈ decorators, t.Goes scopes path)
    (hdefaults : ∀ t ∈ defaults, t.Goes scopes (head.name :: path))
    (hbody : ∀ t ∈ body, t.Goes scopes (head.name :: path)) :
    (Tree.function head decorators defaults body).Goes scopes path := by
  rw [Tree.Goes, visit]
  refine does_forget.bind fun _ => (does_decoratorNames hdecorators).bind fun names => ?_
  refine does_get.bind fun s => ?_
  have hflavor := (specificity_functionFlavor (s.inClass.headD false) names).ge
  refine (does_define head.name (.ofHead head) hflavor).carry stable_at (fun _ _ h => ⟨h.2, h.2⟩)
    fun id => ?_
  refine (Comes.does (comes_enterBlock hinner false (fun _ _ _ h => h) ?_)).imp
    (fun _ _ h => ⟨h.2, ⟨id, h.1.2⟩, trivial⟩) fun _ _ _ h => h
  rintro inner rfl
  have hinside : ∀ {x done : Visit Unit}, Comes (State.At scopes (head.name :: path)) x done →
      Comes (fun s => s.At scopes (head.name :: path) ∧ True) x done :=
    fun h s hs hs₀ => h s hs hs₀.1
  refine hinside ?_
  -- inside: parameters, the object of a method, defaults and the body
  have hrest : Comes (State.At scopes (head.name :: path)) (do
      visitAll defaults
      visitAll body
      leaveBlock) (leaveBlock >>= fun _ => pure ()) :=
    Comes.after stable_at (does_visitAll hdefaults) fun _ =>
      Comes.after stable_at (does_visitAll hbody) fun _ => comes_refl _ _
  have hmark : safely.Does (State.At scopes (head.name :: path))
      (markParams (blockName (head.name :: path)) head.params) fun _ _ => True :=
    (does_markParams _ _).given fun _ _ h => h.known _ h.here
  refine Comes.after stable_at hmark fun _ => comes_get fun s₁ hs₁ hat => ?_
  split
  · rename_i self c hself hclass
    refine Comes.bind (((does_setName _ self c).frame stable_at).imp ?_ fun _ _ _ h => h.2) fun _ => hrest
    rintro s' - rfl
    exact ⟨hs₁.stored.classes c (mem_of_head? hclass), hat⟩
  · rintro s' hs' rfl
    exact hrest s' hs' hat

lemma does_note {id : Id} {bases : List Tree}
    (h : ∀ t ∈ bases, t.isClear = true ∧ t.isBase = true) :
    safely.Does (fun s => s.At scopes path ∧ s.Placed id)
      (modify fun s => { s with bases := Assoc.set id bases s.bases } : Visit PUnit)
      fun _ s => s.At scopes path := by
  refine does_modify ?_
  rintro s hs ⟨hat, hplaced⟩
  obtain ⟨h1, h2, h3, h4, h5, h6, h7⟩ := Sound.stored hs
  obtain ⟨hs', hkeeps⟩ := Sound.holding hs (b := Assoc.set id bases s.bases) ⟨h1, h2, h3, h4, h5, h6, fun e he => by
    rcases Assoc.mem_of_mem_set he with rfl | he
    · exact ⟨hplaced, h⟩
    · exact h7 e he⟩
  exact ⟨hs', hkeeps, stable_at _ _ hkeeps hat⟩

lemma Sound.within_classes {s : State} (hs : Sound s) {c : List Id} (h : ∀ i ∈ c, s.Known i) :
    Sound { s with classes := c } ∧ Grows s { s with classes := c } := by
  obtain ⟨h1, h2, h3, h4, -, h6, h7⟩ := hs.stored
  exact hs.same ⟨h1, h2, h3, h4, h, h6, h7⟩ (fun _ h => h) rfl rfl

lemma goes_classDef {title : String} {bases body : List Tree}
    (hinner : blockName (title :: path) ∈ scopes)
    (hclear : ∀ t ∈ bases, t.isClear = true ∧ t.isBase = true)
    (hbases : ∀ t ∈ bases, t.Goes scopes (title :: path))
    (hbody : ∀ t ∈ body, t.Goes scopes (title :: path)) :
    (Tree.classDef title bases body).Goes scopes path := by
  rw [Tree.Goes, visit]
  have hflavor : 3 ≤ Flavor.classObject.specificity := Nat.le_refl 3
  refine (does_define title { kind := "ClassDef" } hflavor).carry stable_at (fun _ _ h => ⟨h, h⟩)
    fun id => ?_
  refine does_of_run ?_
  rintro s hs ⟨⟨hknown, hdefined⟩, hat⟩
  -- the class is the innermost one while its body is visited
  obtain ⟨hs₁, hgrows⟩ := hs.within_classes (forall_mem_cons.mpr ⟨hknown, hs.stored.classes⟩)
  have hplaced : s.Placed id := by
    refine ⟨hknown, ?_⟩
    rw [(hs.tidy.indexed.lt_of_find? hdefined.found).2.1]
    exact hat.known _ hat.here
  rw [run_modify_bind]
  refine comes_run (modify fun s => { s with classes := s.classes.tail })
    (comes_enterBlock hinner true (fun _ _ h => h.placed) fun inner _ => ?_) hs₁ ⟨?_, ⟨id, hdefined.found, hdefined.lt, hdefined.specific⟩, hgrows.placed hplaced⟩ ?_
  · refine Comes.bind (does_note hclear) fun _ => ?_
    exact Comes.after stable_at (does_visitAll hbases) fun _ =>
      Comes.after stable_at (does_visitAll hbody) fun _ => comes_refl _ _
  · exact ⟨hat.place, hat.within, hgrows.opens hat.opens, hat.rooted, hat.here, hat.known⟩
  · intro s₂ hs₂ hkeeps
    have hclasses : s₂.classes = id :: s.classes := by
      have hrest := congrArg State.classes hkeeps.rest
      exact hrest
    obtain ⟨hs₃, hgrows₂⟩ := hs₂.within_classes
      fun i hi => hs₂.stored.classes i (mem_of_mem_tail hi)
    refine ⟨(), _, rfl, hs₃, ⟨hgrows.trans (hkeeps.toGrows.trans hgrows₂), ?_⟩, trivial⟩
    dsimp only
    rw [hclasses, tail_cons]
    exact congrArg (fun t : State => { t with classes := s.classes }) hkeeps.rest

lemma goes_lambda {params : Params} {defaults : List Tree} {body : Tree}
    (hinner : blockName ("lambda" :: path) ∈ scopes)
    (hdefaults : ∀ t ∈ defaults, t.Goes scopes ("lambda" :: path))
    (hbody : body.Goes scopes ("lambda" :: path)) :
    (Tree.lambda params defaults body).Goes scopes path := by
  rw [Tree.Goes, visit]
  refine does_inBlock (by decide) hinner ?_
  have hmark : safely.Does (State.At scopes ("lambda" :: path))
      (markParams (blockName ("lambda" :: path)) params) fun _ _ => True :=
    (does_markParams _ _).given fun _ _ h => h.known _ h.here
  exact Does.after stable_at hmark fun _ =>
    Does.after stable_at (does_visitAll hdefaults) fun _ => hbody

lemma goes_generator {iters targets conditions further : List Tree} {element : Tree}
    (hinner : blockName ("genexpr" :: path) ∈ scopes) (hiters : ∀ t ∈ iters, t.Goes scopes path)
    (htargets : ∀ t ∈ targets, t.Goes scopes ("genexpr" :: path))
    (hconditions : ∀ t ∈ conditions, t.Goes scopes ("genexpr" :: path))
    (hfurther : ∀ t ∈ further, t.Goes scopes ("genexpr" :: path))
    (helement : element.Goes scopes ("genexpr" :: path)) :
    (Tree.generator iters targets conditions further element).Goes scopes path := by
  rw [Tree.Goes, visit]
  refine Does.after stable_at (does_visitAll hiters) fun _ => does_inBlock (by decide) hinner ?_
  refine Does.after stable_at (does_visitAll htargets) fun _ => does_forget.bind fun _ => ?_
  refine Does.after stable_at (does_visitAll hconditions) fun _ => ?_
  exact Does.after stable_at (does_visitAll hfurther) fun _ => helement

end Forms

/-- **Visits go well.** A visit of a clear program in a place where its blocks are covered does not
fail and leaves a sound state. -/
lemma does_visit {t : Tree} (hclear : t.isClear = true) (hcovered : t.isCovered scopes path = true) :
    t.Goes scopes path := by
  induction t using Tree.induct generalizing path with
  | group ts ih =>
    rw [Tree.isClear, Tree.allClear_iff] at hclear
    rw [Tree.isCovered, Tree.allCovered_iff] at hcovered
    rw [Tree.Goes, visit]
    exact does_visitAll fun t ht => ih t ht (hclear t ht) (hcovered t ht)
  | name id mode =>
    rw [Tree.isClear] at hclear
    rw [Tree.Goes, visit]
    exact does_visitName (by simpa using hclear) mode
  | member value attr mode ih =>
    simp only [Tree.isClear, Bool.and_eq_true] at hclear
    rw [Tree.isCovered] at hcovered
    rw [Tree.Goes, visit]
    have hattr : attr ∉ blockLabels := by simpa using hclear.2
    refine Does.after stable_at (does_visitAttribute hclear.1 hattr mode) fun left => ?_
    split
    · exact ih hclear.1 hcovered
    · exact does_done
  | constant type =>
    rw [Tree.isClear] at hclear
    have htype : type ∉ blockLabels := by simpa using hclear
    rw [Tree.Goes, visit]
    refine does_currentName.bind fun space => ?_
    refine (does_symbolFor_known (fair_of_not_mem htype _) htype _).any.bind fun id => ?_
    exact (does_setLast _).given fun _ _ h => h.knownIf
  | call func args keywords ihfunc ihargs ihkeywords =>
    have hparts := hclear
    simp only [Tree.isClear, Bool.and_eq_true, Tree.allClear_iff] at hparts
    simp only [Tree.isCovered, Bool.and_eq_true, Tree.allCovered_iff] at hcovered
    obtain ⟨⟨⟨hfunc, hargs⟩, hkeywords⟩, -⟩ := hparts
    obtain ⟨⟨hfunc', hargs'⟩, hkeywords'⟩ := hcovered
    exact goes_call hclear (ihfunc hfunc hfunc') (fun t ht => ihargs t ht (hargs t ht) (hargs' t ht))
      fun t ht => ihkeywords t ht (hkeywords t ht) (hkeywords' t ht)
  | bind targets values ihtargets ihvalues =>
    simp only [Tree.isClear, Bool.and_eq_true, Tree.allClear_iff] at hclear
    simp only [Tree.isCovered, Bool.and_eq_true, Tree.allCovered_iff] at hcovered
    exact goes_bind (fun t ht => ihtargets t ht (hclear.1 t ht) (hcovered.1 t ht))
      fun t ht => ihvalues t ht (hclear.2 t ht) (hcovered.2 t ht)
  | declare target ih =>
    rw [Tree.isClear] at hclear
    rw [Tree.isCovered] at hcovered
    rw [Tree.Goes, visit]
    exact does_forget.bind fun _ => ih hclear hcovered
  | enter ts ih =>
    rw [Tree.isClear, Tree.allClear_iff] at hclear
    rw [Tree.isCovered, Tree.allCovered_iff] at hcovered
    exact goes_enter fun t ht => ih t ht (hclear t ht) (hcovered t ht)
  | function head decorators defaults body ihdecorators ihdefaults ihbody =>
    simp only [Tree.isClear, Bool.and_eq_true, Tree.allClear_iff] at hclear
    simp only [Tree.isCovered, Bool.and_eq_true, Tree.allCovered_iff, contains_iff_mem]
      at hcovered
    obtain ⟨⟨hdecorators, hdefaults⟩, hbody⟩ := hclear
    obtain ⟨⟨⟨hdecorators', hinner⟩, hdefaults'⟩, hbody'⟩ := hcovered
    exact goes_function hinner
      (fun t ht => ihdecorators t ht (hdecorators t ht) (hdecorators' t ht))
      (fun t ht => ihdefaults t ht (hdefaults t ht) (hdefaults' t ht))
      fun t ht => ihbody t ht (hbody t ht) (hbody' t ht)
  | lambda params defaults body ihdefaults ihbody =>
    simp only [Tree.isClear, Bool.and_eq_true, Tree.allClear_iff] at hclear
    simp only [Tree.isCovered, Bool.and_eq_true, Tree.allCovered_iff, contains_iff_mem]
      at hcovered
    exact goes_lambda hcovered.1.1
      (fun t ht => ihdefaults t ht (hclear.1 t ht) (hcovered.1.2 t ht))
      (ihbody hclear.2 hcovered.2)
  | generator iters targets conditions further element ih₁ ih₂ ih₃ ih₄ ih₅ =>
    simp only [Tree.isClear, Bool.and_eq_true, Tree.allClear_iff] at hclear
    simp only [Tree.isCovered, Bool.and_eq_true, Tree.allCovered_iff, contains_iff_mem]
      at hcovered
    obtain ⟨⟨⟨⟨h₁, h₂⟩, h₃⟩, h₄⟩, h₅⟩ := hclear
    obtain ⟨⟨⟨⟨⟨h₁', hinner⟩, h₂'⟩, h₃'⟩, h₄'⟩, h₅'⟩ := hcovered
    exact goes_generator hinner (fun t ht => ih₁ t ht (h₁ t ht) (h₁' t ht))
      (fun t ht => ih₂ t ht (h₂ t ht) (h₂' t ht)) (fun t ht => ih₃ t ht (h₃ t ht) (h₃' t ht))
      (fun t ht => ih₄ t ht (h₄ t ht) (h₄' t ht)) (ih₅ h₅ h₅')
  | classDef title bases body ihbases ihbody =>
    simp only [Tree.isClear, Bool.and_eq_true, Tree.allClear_iff, all_eq_true] at hclear
    simp only [Tree.isCovered, Bool.and_eq_true, Tree.allCovered_iff, contains_iff_mem]
      at hcovered
    obtain ⟨⟨hbases, hbody⟩, hbase⟩ := hclear
    exact goes_classDef hcovered.1.1 (fun t ht => ⟨hbases t ht, hbase t ht⟩)
      (fun t ht => ihbases t ht (hbases t ht) (hcovered.1.2 t ht))
      fun t ht => ihbody t ht (hbody t ht) (hcovered.2 t ht)
  | importModules aliases =>
    rw [Tree.isClear, all_eq_true] at hclear
    rw [Tree.Goes, visit]
    exact does_forM_of_stable stable_at fun a ha => does_importModule (by simpa using hclear a ha)
  | importFrom module level aliases =>
    rw [Tree.isClear, all_eq_true] at hclear
    rw [Tree.Goes, visit]
    refine does_current.bind fun user => does_get.bind fun s => ?_
    refine (does_forM_of_stable (stable_solid user) fun a ha => ?_).given fun _ _ h => h.2.1
    exact does_importName user _ (by simpa using hclear a ha)

end Docsmith.Calls

