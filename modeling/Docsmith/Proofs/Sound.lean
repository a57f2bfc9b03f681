import Docsmith.Proofs.Origins

/-! # States in which no step gets stuck

The steps of an analysis fail where something is missing: the scope of a block, the space of a wild
name, a second wild name where there may be one. A `Sound` state has what they need: all numbers
that it holds are those of symbols that may be used, and only definitions and blocks use something.

At the end the symbols of anonymous blocks are collapsed, which fails for wild ones, and a symbol
becomes wild if it is used and not defined. So a symbol that is held anywhere is defined if it is
named like a block (`State.Known`). A sound state stays as good as it is along a visit (`Keeps`),
and each small step keeps it sound and fails at most because of `super` (`visiting`). -/

namespace Docsmith.Calls

open Rules List

/-! ## Programs that are clear -/

/-- Whether the meaning of an expression hangs on the next class in line. -/
def Tree.asksSuper : Tree → Bool
  | .attribute value _ _ => value.asksSuper
  | .call (.name "super" _) _ _ => true
  | .call (.name f _) [arg] _ => (f == "str" || f == "repr") && arg.asksSuper
  | _ => false

def Tree.isRead (t : Tree) : Bool :=
  t.mode? = none || t.mode? = some .load

/-- Whether an expression can stand for a base class wherever it is looked up. -/
def Tree.isBase (t : Tree) : Bool :=
  t.isRead && !t.asksSuper

mutual

/-- Whether a program refers to no anonymous block by name, and its base classes do not hang on the
class itself. -/
def Tree.isClear : Tree → Bool
  | .group children => Tree.allClear children
  | .name id _ => !blockLabels.contains id
  | .attribute value attr _ => value.isClear && !blockLabels.contains attr
  | .constant type => !blockLabels.contains type
  | .call func args keywords =>
    func.isClear && Tree.allClear args && Tree.allClear keywords && args.all (·.isRead)
  | .bind targets values => Tree.allClear targets && Tree.allClear values
  | .declare target => target.isClear
  | .enter context => Tree.allClear context
  | .function _ decorators defaults body =>
    Tree.allClear decorators && Tree.allClear defaults && Tree.allClear body
  | .lambda _ defaults body => Tree.allClear defaults && body.isClear
  | .generator iters targets conditions further element =>
    Tree.allClear iters && Tree.allClear targets && Tree.allClear conditions
      && Tree.allClear further && element.isClear
  | .classDef _ bases body => Tree.allClear bases && Tree.allClear body && bases.all (·.isBase)
  | .importModules aliases | .importFrom _ _ aliases =>
    aliases.all fun a => !blockLabels.contains a.name

def Tree.allClear : List Tree → Bool
  | [] => true
  | t :: ts => t.isClear && Tree.allClear ts

end

lemma Tree.allClear_iff {ts : List Tree} :
    Tree.allClear ts = true ↔ ∀ t ∈ ts, t.isClear = true := by
  induction ts with
  | nil => simp [Tree.allClear]
  | cons t ts ih => simp [Tree.allClear, ih]

/-! ## Symbols that may be held -/

/-- Of a wild name nothing is known, and it is no name of a block, as little as that of an import or
an attribute. -/
structure Fair (space : Option String) (name : String) (flavor : Flavor) : Prop where
  wild : space = none → name ∉ blockLabels ∧ flavor.specificity = 0
  coined : flavor = .imported ∨ flavor = .attribute → name ∉ blockLabels

lemma fair_of_not_mem {space name : String} (h : name ∉ blockLabels) (flavor : Flavor) :
    Fair (some space) name flavor :=
  ⟨nofun, fun _ => h⟩

namespace State

/-- A symbol that may be held: it is defined if it is named like a block. -/
structure Known (s : State) (id : Id) : Prop where
  lt : id < s.symbols.size
  defined : (s.symbol id).name ∈ blockLabels → (s.symbol id).defined = true

/-- A symbol that may use something: a definition or a block. -/
def Solid (s : State) (id : Id) : Prop :=
  3 ≤ (s.symbol id).flavor.specificity ∨ (s.symbol id).name ∈ blockLabels

lemma Solid.lt {s : State} {id : Id} (h : s.Solid id) : id < s.symbols.size := by
  rcases h with hle | hlabel
  · exact lt_of_symbol (P := (3 ≤ ·.flavor.specificity)) hle (by decide)
  · refine State.lt_of_name fun hempty => ?_
    rw [hempty] at hlabel
    exact absurd hlabel (by decide)

structure Placed (s : State) (id : Id) : Prop extends s.Known id where
  scope : (s.scope? ((s.symbol id).space.getD "")).isSome = true

structure Tidy (s : State) : Prop where
  indexed : s.Indexed fun _ => True
  fair : ∀ id, Fair (s.symbol id).space (s.symbol id).name (s.symbol id).flavor

end State

structure Stored (known solid placed : Id → Prop) (s : State) : Prop where
  uses : s.uses.Among solid known
  defines : ∀ e ∈ s.defines, ∀ t ∈ e.2, known t
  last : ∀ i, s.last = some i → known i
  scopes : ∀ e ∈ s.scopes, ∀ v ∈ e.2, ∀ i, v.2 = some i → known i
  classes : ∀ i ∈ s.classes, known i
  lineage : ∀ e ∈ s.lineage, ∀ i ∈ e.2, known i
  bases : ∀ e ∈ s.bases, placed e.1 ∧ ∀ t ∈ e.2, t.isClear = true ∧ t.isBase = true

lemma Stored.mono {known known' solid solid' placed placed' : Id → Prop} {s : State}
    (h : Stored known solid placed s) (hknown : ∀ i, known i → known' i)
    (hsolid : ∀ i, solid i → solid' i) (hplaced : ∀ i, placed i → placed' i) :
    Stored known' solid' placed' s where
  uses := by
    intro e he
    obtain ⟨hsource, hnodup, htargets⟩ := h.uses e he
    exact ⟨hsolid _ hsource, hnodup, fun t ht => hknown t (htargets t ht)⟩
  defines := fun e he t ht => hknown t (h.defines e he t ht)
  last := fun i hi => hknown i (h.last i hi)
  scopes := fun e he v hv i hi => hknown i (h.scopes e he v hv i hi)
  classes := fun i hi => hknown i (h.classes i hi)
  lineage := fun e he i hi => hknown i (h.lineage e he i hi)
  bases := fun e he => ⟨hplaced _ (h.bases e he).1, (h.bases e he).2⟩

def State.held (s : State) : Edges × Edges × Option Id × List (String × Scope) × List Id × Edges
    × List (Id × List Tree) :=
  (s.uses, s.defines, s.last, s.scopes, s.classes, s.lineage, s.bases)

lemma Stored.congr {known solid placed : Id → Prop} {s s' : State}
    (h : Stored known solid placed s) (hheld : s'.held = s.held) : Stored known solid placed s' := by
  simp only [State.held, Prod.mk.injEq] at hheld
  obtain ⟨huses, hdefines, hlast, hscopes, hclasses, hlineage, hbases⟩ := hheld
  refine ⟨?_, ?_, ?_, ?_, ?_, ?_, ?_⟩
  · exact huses ▸ h.uses
  · exact hdefines ▸ h.defines
  · exact hlast ▸ h.last
  · exact hscopes ▸ h.scopes
  · exact hclasses ▸ h.classes
  · exact hlineage ▸ h.lineage
  · exact hbases ▸ h.bases

structure Sound (s : State) : Prop where
  tidy : s.Tidy
  stored : Stored s.Known s.Solid s.Placed s

/-! ## Growing -/

structure Grows (s s' : State) : Prop where
  size : s.symbols.size ≤ s'.symbols.size
  symbol : ∀ i < s.symbols.size, (s'.symbol i).space = (s.symbol i).space ∧
    (s'.symbol i).name = (s.symbol i).name ∧
    (s.symbol i).flavor.specificity ≤ (s'.symbol i).flavor.specificity ∧
    ((s.symbol i).defined = true → (s'.symbol i).defined = true)
  found : ∀ {space name i}, s.find? space name = some i → s'.find? space name = some i
  scopes : ∀ space, (s.scope? space).isSome = true → (s'.scope? space).isSome = true

namespace Grows

variable {s s' s'' : State} {id : Id}

lemma refl (s : State) : Grows s s :=
  ⟨Nat.le_refl _, fun _ _ => ⟨rfl, rfl, Nat.le_refl _, fun h => h⟩, fun h => h, fun _ h => h⟩

lemma trans (h : Grows s s') (h' : Grows s' s'') : Grows s s'' where
  size := h.size.trans h'.size
  symbol := by
    intro i hi
    obtain ⟨hspace, hname, hle, hdefined⟩ := h.symbol i hi
    obtain ⟨hspace', hname', hle', hdefined'⟩ := h'.symbol i (hi.trans_le h.size)
    exact ⟨hspace'.trans hspace, hname'.trans hname, hle.trans hle', fun hd => hdefined' (hdefined hd)⟩
  found := fun hi => h'.found (h.found hi)
  scopes := fun space hspace => h'.scopes space (h.scopes space hspace)

lemma known (h : Grows s s') (hid : s.Known id) : s'.Known id := by
  obtain ⟨-, hname, -, hdefined⟩ := h.symbol id hid.lt
  refine ⟨hid.lt.trans_le h.size, fun hlabel => hdefined (hid.defined ?_)⟩
  rwa [hname] at hlabel

lemma solid (h : Grows s s') (hid : s.Solid id) : s'.Solid id := by
  obtain ⟨-, hname, hle, -⟩ := h.symbol id hid.lt
  rcases hid with hid | hid
  · exact Or.inl (hid.trans hle)
  · exact Or.inr (hname.symm ▸ hid)

lemma placed (h : Grows s s') (hid : s.Placed id) : s'.Placed id := by
  refine ⟨h.known hid.toKnown, ?_⟩
  rw [(h.symbol id hid.lt).1]
  exact h.scopes _ hid.scope

lemma sound (h : Grows s s') (htidy : s'.Tidy) (hstored : Stored s.Known s.Solid s.Placed s') :
    Sound s' :=
  ⟨htidy, hstored.mono (fun _ => h.known) (fun _ => h.solid) fun _ => h.placed⟩

end Grows

structure Keeps (s s' : State) : Prop extends Grows s s' where
  rest : { s' with
    symbols := s.symbols, table := s.table, uses := s.uses, defines := s.defines,
    scopes := s.scopes, bases := s.bases, last := s.last } = s

lemma Keeps.refl (s : State) : Keeps s s :=
  ⟨Grows.refl s, rfl⟩

lemma Keeps.trans {s s' s'' : State} (h : Keeps s s') (h' : Keeps s' s'') : Keeps s s'' :=
  ⟨h.toGrows.trans h'.toGrows, by rw [← h.rest, ← h'.rest]⟩

def visiting (fails : Fault → Prop) : Rules State where
  fit := Sound
  leads := Keeps
  fails := fails
  refl := Keeps.refl
  trans := Keeps.trans

variable {fails : Fault → Prop}

/-! ## What is kept -/

section Kept

variable {s s' : State}

lemma Keeps.within (h : Keeps s s') : s'.within = s.within := by
  have hrest := congrArg State.within h.rest
  exact hrest

lemma Keeps.path (h : Keeps s s') : s'.path = s.path := by
  have hrest := congrArg State.path h.rest
  exact hrest

lemma Keeps.inClass (h : Keeps s s') : s'.inClass = s.inClass := by
  have hrest := congrArg State.inClass h.rest
  exact hrest

lemma stable_known (id : Id) : (visiting fails).Stable fun s => s.Known id :=
  fun _ _ h hid => h.toGrows.known hid

lemma stable_solid (id : Id) : (visiting fails).Stable fun s => s.Solid id :=
  fun _ _ h hid => h.toGrows.solid hid

lemma Besides.grows {changed : Option Id} (h : Besides changed s s') (hs : s.Tidy)
    (hscopes : ∀ space, (s.scope? space).isSome = true → (s'.scope? space).isSome = true) :
    Grows s s' :=
  ⟨h.size, h.symbol, fun hi => h.find? hs.indexed hi, hscopes⟩

lemma Unmoved.keeps (h : Unmoved s s') (hs : s.Tidy) : Keeps s s' := by
  refine ⟨(h.besides none).grows hs fun space hspace => (h.scopes space).trans hspace, ?_⟩
  rw [← h.rest]

lemma Sound.same (hs : Sound s) (hstored : Stored s.Known s.Solid s.Placed s')
    (hscopes : ∀ space, (s.scope? space).isSome = true → (s'.scope? space).isSome = true)
    (hsymbols : s'.symbols = s.symbols) (htable : s'.table = s.table) : Sound s' ∧ Grows s s' := by
  have hgrows : Grows s s' := by
    cases s
    cases s'
    cases hsymbols
    cases htable
    exact ⟨Nat.le_refl _, fun _ _ => ⟨rfl, rfl, Nat.le_refl _, fun h => h⟩, fun h => h, hscopes⟩
  refine ⟨hgrows.sound ?_ hstored, hgrows⟩
  have htidy := hs.tidy
  cases s
  cases s'
  cases hsymbols
  cases htable
  exact ⟨⟨htidy.indexed.named, htidy.indexed.found⟩, htidy.fair⟩

lemma Sound.holding (hs : Sound s) {u d : Edges} {b : List (Id × List Tree)} {l : Option Id}
    (hstored : Stored s.Known s.Solid s.Placed { s with uses := u, defines := d, bases := b, last := l }) :
    Sound { s with uses := u, defines := d, bases := b, last := l } ∧
      Keeps s { s with uses := u, defines := d, bases := b, last := l } := by
  obtain ⟨hsound, hgrows⟩ := hs.same hstored (fun _ h => h) rfl rfl
  exact ⟨hsound, hgrows, rfl⟩

lemma Sound.known_of_find? (hs : Sound s) {space : Option String} {name : String} {id : Id}
    (hfind : s.find? space name = some id) (hname : name ∉ blockLabels) : s.Known id := by
  obtain ⟨hlt, -, heq⟩ := hs.tidy.indexed.lt_of_find? hfind
  exact ⟨hlt, fun hlabel => absurd (heq ▸ hlabel) hname⟩

end Kept

/-! ## Asking for symbols -/

section Symbols

variable {s : State} {space : Option String} {name : String} {flavor : Flavor}

lemma State.Tidy.raise (hs : s.Tidy) {id : Id} (hfind : s.find? space name = some id)
    (h : Fair space name flavor) : (s.raise id flavor).Tidy := by
  obtain ⟨-, hspace, hname⟩ := hs.indexed.lt_of_find? hfind
  refine ⟨hs.indexed.raise id flavor, fun i => ?_⟩
  rcases s.raise_cases id flavor with heq | ⟨-, heq⟩
  · rw [heq]
    exact hs.fair i
  · rw [heq, State.symbol_alter]
    split
    · rename_i hi
      rw [hi.1]
      rw [hspace, hname]
      exact h
    · exact hs.fair i

lemma State.Tidy.push (hs : s.Tidy) {x : Symbol} (hnew : s.find? x.space x.name = none)
    (h : Fair x.space x.name x.flavor) : (s.push x).Tidy := by
  refine ⟨hs.indexed.push fun _ => hnew, fun i => ?_⟩
  rw [State.symbol_push]
  split
  · exact h
  · exact hs.fair i

lemma does_symbolFor (h : Fair space name flavor) (origin : Option Origin) :
    (visiting fails).Does (fun _ => True) (symbolFor space name origin flavor) fun id s =>
      s.find? space name = some id ∧ flavor.specificity ≤ (s.symbol id).flavor.specificity := by
  refine does_of_run fun s hs _ => ?_
  have hpost : ∀ {id s'}, (symbolFor space name origin flavor).run.run s = (.ok id, s') →
      s'.find? space name = some id ∧
        flavor.specificity ≤ (s'.symbol id).flavor.specificity := by
    intro id s' hrun
    obtain ⟨-, hfind, -, -, hle⟩ := hs.tidy.indexed.symbolFor_ok hrun
    exact ⟨hfind, hle⟩
  rcases symbolFor_run space name origin flavor s with ⟨id, hfind, hrun⟩ | ⟨hnew, hrun⟩
  · have hkeeps := (unmoved_raise id flavor).keeps hs.tidy
    have hheld : (s.raise id flavor).held = s.held := by
      rcases s.raise_cases id flavor with heq | ⟨-, heq⟩
      · rw [heq]
      · rw [heq]
        rfl
    exact ⟨id, _, hrun, hkeeps.toGrows.sound (hs.tidy.raise hfind h) (hs.stored.congr hheld), hkeeps,
      hpost hrun⟩
  · have hgrows := (besides_push (x := s.fresh space name origin flavor) hnew).grows hs.tidy
      fun _ hspace => hspace
    exact ⟨_, _, hrun, hgrows.sound (hs.tidy.push hnew h) (hs.stored.congr rfl), ⟨hgrows, rfl⟩,
      hpost hrun⟩

lemma does_symbolFor_known (h : Fair space name flavor) (hname : name ∉ blockLabels)
    (origin : Option Origin) :
    (visiting fails).Does (fun _ => True) (symbolFor space name origin flavor)
      fun id s => s.Known id :=
  (does_symbolFor h origin).gives fun _ _ hs hid => Sound.known_of_find? hs hid.1 hname

end Symbols

/-! ## Uses -/

section Uses

variable {known solid : Id → Prop} {s : State} {source target : Id}

def State.Distinguishes (s : State) (known : Id → Prop) : Prop :=
  ∀ i j, known i → known j → (s.symbol i).isWild = true → (s.symbol j).isWild = true →
    (s.symbol i).name = (s.symbol j).name → i = j

lemma State.Indexed.distinguishes {p : Option String → Prop} (hs : s.Indexed p) (hp : p none) :
    s.Distinguishes (· < s.symbols.size) := by
  intro i j hi hj hwild hwild' hname
  have hnone := Option.isNone_iff_eq_none.mp hwild
  refine hs.eq_of_find? hi (hnone ▸ hp) ?_
  rw [hnone, ← Option.isNone_iff_eq_none.mp hwild', hname]
  exact hs.found j hj (Option.isNone_iff_eq_none.mp hwild' ▸ hp)

lemma filter_cases {α : Type} {p : α → Bool} {xs : List α} (hnodup : xs.Nodup)
    (h : ∀ a ∈ xs, ∀ b ∈ xs, p a = true → p b = true → a = b) :
    xs.filter p = [] ∨ ∃ a ∈ xs, xs.filter p = [a] := by
  have hfilter := hnodup.filter p
  cases hxs : xs.filter p with
  | nil => exact Or.inl rfl
  | cons a rest =>
    have hmem : ∀ b ∈ a :: rest, b ∈ xs ∧ p b = true :=
      fun b hb => mem_filter.mp (hxs.symm ▸ hb)
    have ha := hmem a mem_cons_self
    cases rest with
    | nil => exact Or.inr ⟨a, ha.1, rfl⟩
    | cons b rest =>
      have hb := hmem b (mem_cons_of_mem _ mem_cons_self)
      rw [hxs, h a ha.1 b hb.1 ha.2 hb.2] at hfilter
      exact absurd mem_cons_self (nodup_cons.mp hfilter).1

lemma removeWild_run {name : String} (h : s.uses.Among solid known)
    (hs : s.Distinguishes fun i => known i ∧ (s.symbol i).name = name) (source target : Id) :
    ∃ uses, (removeWild source target name).run.run s = (.ok (), { s with uses }) ∧
      uses.Among solid known := by
  have hsame : ∃ uses, (pure () : Visit Unit).run.run s = (.ok (), { s with uses }) ∧
      uses.Among solid known := ⟨s.uses, rfl, h⟩
  rw [removeWild, run_get_bind]
  cases huses : Assoc.get? source s.uses with
  | none => exact hsame
  | some targets =>
    dsimp only
    split
    · exact hsame
    · obtain ⟨-, hnodup, hknown⟩ := h _ (Assoc.mem_of_get? huses)
      have hunique := filter_cases
        (p := fun t => (s.symbol t).isWild && (s.symbol t).name == name) hnodup (by
          intro a ha b hb hwild hwild'
          rw [Bool.and_eq_true, beq_iff_eq] at hwild hwild'
          exact hs a b ⟨hknown a ha, hwild.2⟩ ⟨hknown b hb, hwild'.2⟩ hwild.1 hwild'.1
            (hwild.2.trans hwild'.2.symm))
      rcases hunique with hnil | ⟨wild, -, hone⟩
      · rw [hnil]
        exact hsame
      · rw [hone]
        exact ⟨s.uses.remove source wild, rfl, h.remove source wild⟩

lemma addUses_run (h : s.uses.Among solid known) (hs : s.Distinguishes known)
    (hsource : solid source) (htarget : known target) :
    ∃ uses, (addUses source target).run.run s = (.ok (), { s with uses }) ∧
      uses.Among solid known := by
  have hset : ∀ s s' : State, (set s' : Visit PUnit).run.run s = (.ok (), s') := fun _ _ => rfl
  have hknown := h.touch hsource
  rw [addUses, run_modify_bind, run_get_bind]
  split
  · exact ⟨_, rfl, hknown⟩
  · rw [run_bind_of_ok (hset _ _)]
    dsimp only
    split
    · exact removeWild_run (s := { s with uses := (s.uses.touch source).add source target })
        (hknown.add hsource htarget) (fun i j hi hj => hs i j hi.1 hj.1) source target
    · exact ⟨_, rfl, hknown.add hsource htarget⟩

lemma Sound.uses (hs : Sound s) {uses : Edges} (h : uses.Among s.Solid s.Known) :
    Sound { s with uses } ∧ Keeps s { s with uses } := by
  obtain ⟨-, h2, h3, h4, h5, h6, h7⟩ := hs.stored
  exact hs.holding ⟨h, h2, h3, h4, h5, h6, h7⟩

lemma Sound.distinguishes (hs : Sound s) : s.Distinguishes s.Known :=
  fun i j hi hj => hs.tidy.indexed.distinguishes trivial i j hi.lt hj.lt

lemma does_removeWild (source target : Id) (name : String) :
    (visiting fails).Does (fun _ => True) (removeWild source target name) fun _ _ => True := by
  refine does_of_run fun s hs _ => ?_
  obtain ⟨uses, hrun, huses⟩ := removeWild_run hs.stored.uses
    (fun i j hi hj => hs.distinguishes i j hi.1 hj.1) source target
  obtain ⟨hsound, hkeeps⟩ := hs.uses huses
  exact ⟨(), _, hrun, hsound, hkeeps, trivial⟩

lemma does_addUses (source target : Id) :
    (visiting fails).Does (fun s => s.Solid source ∧ s.Known target) (addUses source target)
      fun _ _ => True := by
  refine does_of_run fun s hs hpre => ?_
  obtain ⟨uses, hrun, huses⟩ := addUses_run hs.stored.uses hs.distinguishes hpre.1 hpre.2
  obtain ⟨hsound, hkeeps⟩ := hs.uses huses
  exact ⟨(), _, hrun, hsound, hkeeps, trivial⟩

end Uses

/-! ## Names in scopes -/

section Scopes

variable {s : State}

def State.KnownIf (s : State) (value : Option Id) : Prop :=
  ∀ i, value = some i → s.Known i

lemma State.knownIf_none (s : State) : s.KnownIf none :=
  nofun

lemma State.Known.knownIf {id : Id} (h : s.Known id) : s.KnownIf (some id) :=
  fun _ hi => Option.some.inj hi ▸ h

lemma stable_knownIf (value : Option Id) : (visiting fails).Stable fun s => s.KnownIf value :=
  fun _ _ h hs i hi => h.toGrows.known (hs i hi)

lemma does_setLast (value : Option Id) :
    (visiting fails).Does (fun s => s.KnownIf value) (setLast value) fun _ _ => True := by
  refine does_modify fun s hs hvalue => ?_
  obtain ⟨h1, h2, -, h4, h5, h6, h7⟩ := hs.stored
  obtain ⟨hsound, hkeeps⟩ := Sound.holding hs (l := value) ⟨h1, h2, hvalue, h4, h5, h6, h7⟩
  exact ⟨hsound, hkeeps, trivial⟩

lemma Sound.member (hs : Sound s) {space name : String} {scope : Scope} {i : Id}
    (hscope : s.scope? space = some scope) (hi : (Assoc.get? name scope).join = some i) : s.Known i := by
  obtain ⟨value, hvalue, rfl⟩ : ∃ value, Assoc.get? name scope = some value ∧ value = some i := by
    cases hget : Assoc.get? name scope with
    | none =>
      rw [hget] at hi
      cases hi
    | some value =>
      rw [hget] at hi
      exact ⟨value, rfl, hi⟩
  exact hs.stored.scopes _ (Assoc.mem_of_get? hscope) _ (Assoc.mem_of_get? hvalue) i rfl

lemma Sound.member? (hs : Sound s) {space name : String} {i : Id}
    (hi : s.member? space name = some i) : s.Known i := by
  obtain ⟨scope, hscope, hi⟩ := Option.bind_eq_some_iff.mp hi
  exact hs.member hscope hi

lemma Sound.lookup (hs : Sound s) {name : String} {i : Id} (hi : s.lookup name = some i) :
    s.Known i := by
  obtain ⟨space, -, hi⟩ := exists_of_findSome?_eq_some hi
  exact hs.member? hi

lemma does_setName (space name : String) (value : Id) :
    (visiting fails).Does (fun s => s.Known value) (setName space name value) fun _ _ => True := by
  refine does_of_run fun s hs hvalue => ?_
  rcases setName_run space name value s with ⟨-, hrun⟩ | ⟨scope, hscope, hrun⟩
  · exact ⟨(), s, hrun, hs, Keeps.refl s, trivial⟩
  · have hkeeps := (Leads.of_run (leads_setName space name value) hrun).keeps hs.tidy
    obtain ⟨h1, h2, h3, -, h5, h6, h7⟩ := hs.stored
    refine ⟨(), _, hrun, (hs.same ?_ hkeeps.scopes rfl rfl).1, hkeeps, trivial⟩
    refine ⟨h1, h2, h3, ?_, h5, h6, h7⟩
    intro e he v hv i hi
    rcases Assoc.mem_of_mem_set he with rfl | he
    · rcases Assoc.mem_of_mem_set hv with rfl | hv
      · exact Option.some.inj hi ▸ hvalue
      · exact hs.stored.scopes _ (Assoc.mem_of_get? hscope) v hv i hi
    · exact hs.stored.scopes e he v hv i hi

lemma does_scopeOf (space : String) :
    (visiting fails).Does (fun s => (s.scope? space).isSome = true) (scopeOf space)
      fun _ _ => True := by
  refine does_of_run fun s hs hspace => ?_
  obtain ⟨scope, hscope⟩ := Option.isSome_iff_exists.mp hspace
  rw [scopeOf, run_get_bind, hscope]
  exact ⟨scope, s, rfl, hs, Keeps.refl s, trivial⟩

lemma does_valueOf (name : String) :
    (visiting fails).Does (fun s => s.within ≠ []) (valueOf name) fun r s => s.KnownIf r := by
  refine does_of_run fun s hs hwithin => ?_
  rw [valueOf, run_get_bind]
  cases hlookup : s.lookup name with
  | some i => exact ⟨some i, s, rfl, hs, Keeps.refl s, (hs.lookup hlookup).knownIf⟩
  | none =>
    rw [if_neg (by simpa using hwithin)]
    exact ⟨none, s, rfl, hs, Keeps.refl s, s.knownIf_none⟩

lemma does_bindName (name : String) (value : Option Id) :
    (visiting fails).Does (fun s => s.KnownIf value) (bindName name value) fun _ _ => True := by
  refine does_get.bind fun s => ?_
  split
  · rename_i space id _
    refine (does_setName space name id).given ?_
    exact fun s' _ h => h.2 id rfl
  · exact does_done

end Scopes

/-! ## Attributes -/

section Attributes

lemma does_superClass (hsuper : ∀ m, fails (.unresolvedSuper m)) :
    (visiting fails).Does (fun _ => True) superClass fun id s => s.Known id := by
  refine does_get.bind fun s => ?_
  dsimp only
  split
  · rename_i next rest hline
    refine does_pure ?_
    rintro s' hs ⟨rfl, -⟩
    obtain ⟨c, -, hget⟩ := Option.bind_eq_some_iff.mp hline
    exact Sound.stored hs |>.lineage _ (Assoc.mem_of_get? hget) next (by simp)
  · exact does_throw (hsuper _)
  · exact does_throw (hsuper _)

lemma Sound.inherited? {s : State} (hs : Sound s) {line : List Id} {name : String} {r : Id × Id}
    (hline : ∀ i ∈ line, s.Known i) (h : s.inherited? line name = some r) :
    s.Known r.1 ∧ s.Known r.2 := by
  obtain ⟨base, hbase, hr⟩ := exists_of_findSome?_eq_some h
  obtain ⟨v, hv, rfl⟩ := Option.map_eq_some_iff.mp hr
  exact ⟨hline base (mem_of_mem_tail hbase), hs.member? hv⟩

lemma does_memberOf (object : Option Id) {attr : String} (hattr : attr ∉ blockLabels) :
    (visiting fails).Does (fun s => s.KnownIf object) (memberOf object attr)
      fun r s => s.KnownIf r.1 ∧ s.KnownIf r.2 := by
  refine does_get.bind fun s => ?_
  cases object with
  | none => exact does_pure fun s' _ _ => ⟨s'.knownIf_none, s'.knownIf_none⟩
  | some o =>
    dsimp only
    split
    · exact does_pure fun s' _ h => ⟨h.2, s'.knownIf_none⟩
    · split
      · have hobject : (visiting fails).Stable fun s => s.KnownIf (some o) := stable_knownIf _
        refine ((does_symbolFor_known (fair_of_not_mem hattr _) hattr none).frame hobject).imp
          (fun _ _ h => ⟨trivial, h.2⟩) (fun _ _ _ h => h) |>.bind fun v => ?_
        exact does_pure fun s' _ h => ⟨h.2, h.1.knownIf⟩
      · split
        · rename_i v hv
          refine does_pure ?_
          rintro s' hs ⟨rfl, hobject⟩
          exact ⟨hobject, (Sound.member? hs hv).knownIf⟩
        · split
          · exact does_pure fun s' _ h => ⟨h.2, s'.knownIf_none⟩
          · rename_i line hline
            split
            · rename_i base v hv
              refine does_pure ?_
              rintro s' hs ⟨rfl, -⟩
              have hknown := Sound.inherited? hs
                (fun i hi => Sound.stored hs |>.lineage _ (Assoc.mem_of_get? hline) i hi) hv
              exact ⟨hknown.1.knownIf, hknown.2.knownIf⟩
            · exact does_pure fun s' _ _ => ⟨s'.knownIf_none, s'.knownIf_none⟩

lemma does_noName :
    (visiting fails).Does (fun s => s.within ≠ []) objectOf.noName fun r s => s.KnownIf r := by
  refine does_of_run fun s hs hwithin => ?_
  rw [objectOf.noName, run_get_bind, if_neg (by simpa using hwithin)]
  exact ⟨none, s, rfl, hs, Keeps.refl s, s.knownIf_none⟩

lemma does_objectOf {t : Tree} (hclear : t.isClear = true)
    (hsuper : t.asksSuper = true → ∀ m, fails (.unresolvedSuper m)) :
    (visiting fails).Does (fun s => s.within ≠ []) (objectOf t) fun r s => s.KnownIf r := by
  fun_induction objectOf t with
  | case1 value attr mode ih =>
    simp only [Tree.isClear, Bool.and_eq_true] at hclear
    refine (ih hclear.1 hsuper).bind fun o => ?_
    cases o with
    | none => exact does_pure fun s _ _ => s.knownIf_none
    | some o =>
      refine does_get.bind fun s => ?_
      split
      · exact does_pure fun s' _ _ => s'.knownIf_none
      · refine does_pure ?_
        rintro s' hs ⟨rfl, -⟩ i hi
        exact Sound.member? hs hi
  | case2 =>
    have hname : "Constant" ∉ blockLabels := by decide
    refine (does_symbolFor_known (fair_of_not_mem hname _) hname none).any.bind fun id => ?_
    exact does_pure fun s _ h => h.knownIf
  | case3 => exact does_noName
  | case4 =>
    refine (does_superClass (hsuper rfl)).any.bind fun id => ?_
    exact does_pure fun s _ h => h.knownIf
  | case5 => exact does_pure fun s _ _ => s.knownIf_none
  | case6 f mode arg keywords hname hf hmode ih =>
    simp only [Tree.isClear, Tree.allClear, Bool.and_eq_true] at hclear
    have hattr : "__" ++ f ++ "__" ∉ blockLabels := by
      rcases Bool.or_eq_true_iff.mp hf with hf | hf
      · rw [beq_iff_eq.mp hf]
        decide
      · rw [beq_iff_eq.mp hf]
        decide
    have hasks : arg.asksSuper = true → ((Tree.name f mode).call [arg] keywords).asksSuper = true := by
      intro h
      rw [Tree.asksSuper, hf, h]
      · rfl
      · exact hname
    refine (ih hclear.1.1.2.1 fun h => hsuper (hasks h)).bind fun o => ?_
    exact (does_memberOf o hattr).bind fun r => does_pure fun s _ h => h.2
  | case7 f mode arg keywords hname hf other hmode hother =>
    simp only [Tree.isClear, Bool.and_eq_true] at hclear
    have hread := hclear.2
    simp only [all_cons, Tree.isRead, hother, Bool.and_eq_true, Bool.or_eq_true,
      decide_eq_true_eq, reduceCtorEq, Option.some.injEq, false_or] at hread
    exact absurd hread.1 hmode
  | case8 | case9 => exact does_pure fun s _ _ => s.knownIf_none
  | case10 id mode => exact does_valueOf id
  | case11 => exact does_noName

lemma does_readAttribute {value : Tree} {attr : String} (hclear : value.isClear = true)
    (hattr : attr ∉ blockLabels)
    (hsuper : value.asksSuper = true → ∀ m, fails (.unresolvedSuper m)) :
    (visiting fails).Does (fun s => s.within ≠ []) (readAttribute value attr .load)
      fun r s => s.KnownIf r.1 ∧ s.KnownIf r.2 :=
  (does_objectOf hclear hsuper).bind fun o => does_memberOf o hattr

lemma does_writeAttribute {value : Tree} (hclear : value.isClear = true) (attr : String)
    (new : Option Id) (hsuper : ∀ m, fails (.unresolvedSuper m)) :
    (visiting fails).Does (fun s => s.within ≠ [] ∧ s.KnownIf new)
      (writeAttribute value attr .store new) fun _ _ => True := by
  cases new with
  | none => exact does_done
  | some new =>
    have hnew : (visiting fails).Stable fun s => s.KnownIf (some new) := stable_knownIf _
    refine ((does_objectOf hclear fun _ => hsuper).frame hnew).bind fun o => ?_
    cases o with
    | none => exact does_done
    | some o =>
      refine does_get.bind fun s => ?_
      dsimp only
      split
      · exact does_done
      · refine ((does_setName _ attr new).given ?_).bind fun _ => ?_
        · exact fun s' _ h => h.2.2 new rfl
        · exact does_done

lemma does_orUnresolved {α : Type} {pre : State → Prop} {x : Visit α} {post : α → State → Prop}
    (hx : (visiting fun e => ∃ m, e = .unresolvedSuper m).Does pre x post) (fallback : α)
    (hfallback : ∀ s, post fallback s) :
    (visiting fails).Does pre (orUnresolved x fallback) post := by
  intro s hs hpre
  obtain ⟨r, s', hrun, hsound, hkeeps, hok, herror⟩ := hx s hs hpre
  rw [orUnresolved]
  cases r with
  | ok a =>
    refine ⟨.ok a, s', run_tryCatch_ok _ hrun, hsound, hkeeps, hok, ?_⟩
    rintro e ⟨⟩
  | error e =>
    obtain ⟨m, rfl⟩ := herror e rfl
    refine ⟨.ok fallback, s', run_tryCatch_error _ hrun, hsound, hkeeps, ?_, ?_⟩
    · rintro a ⟨⟩
      exact hfallback s'
    · rintro e ⟨⟩

end Attributes

end Docsmith.Calls

