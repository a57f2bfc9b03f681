import Docsmith.Calls.Visit
import Docsmith.Proofs.Symbols

/-! # Steps that define nothing

Most steps of an analysis look names up, note uses and bind names. They make symbols for what they
hear of, but no routine; of the symbols that there are they change at most the flavor; and they
leave the analysis where it stands (`Unmoved`). Each leads along every relation that has the changes
it is made of (`Tolerates`, `Binds`), whether it fails or not. -/

namespace Docsmith.Calls

/-! ## What such steps keep -/

/-- Whether the syntax that a symbol comes from is a function definition. -/
def Symbol.isRoutine (x : Symbol) : Bool :=
  (x.origin.map (·.isFunction)).getD false

/-- The file that is visited, and the folder that module names start from. -/
def State.site (s : State) : Option String × Option String :=
  (s.file, s.root)

structure Unmoved (s s' : State) : Prop where
  size : s.symbols.size ≤ s'.symbols.size
  symbol : ∀ id < s.symbols.size, ∃ flavor, s'.symbol id = { s.symbol id with flavor } ∧
    (s.symbol id).flavor.specificity ≤ flavor.specificity
  fresh : ∀ id, s.symbols.size ≤ id → (s'.symbol id).isRoutine = false
  indexed : ∀ p, s.Indexed p → s'.Indexed p
  titled : s.Titled → s'.Titled
  named : ∀ name, ∀ id ∈ s.named name, id ∈ s'.named name
  scopes : ∀ space, (s'.scope? space).isSome = (s.scope? space).isSome
  rest : { s' with
    symbols := s.symbols, table := s.table, uses := s.uses, scopes := s.scopes, last := s.last } = s

namespace Unmoved

variable {s s' s'' : State}

lemma isRoutine_of_size_le {s : State} {id : Id} (h : s.symbols.size ≤ id) :
    (s.symbol id).isRoutine = false := by
  rw [State.symbol_of_size_le h]
  rfl

lemma refl (s : State) : Unmoved s s where
  size := Nat.le_refl _
  symbol := fun _ _ => ⟨_, rfl, Nat.le_refl _⟩
  fresh := fun _ => isRoutine_of_size_le
  indexed := fun _ h => h
  titled := fun h => h
  named := fun _ _ h => h
  scopes := fun _ => rfl
  rest := rfl

lemma trans (h : Unmoved s s') (h' : Unmoved s' s'') : Unmoved s s'' where
  size := h.size.trans h'.size
  symbol := by
    intro id hid
    obtain ⟨flavor, heq, hle⟩ := h.symbol id hid
    obtain ⟨flavor', heq', hle'⟩ := h'.symbol id (hid.trans_le h.size)
    rw [heq] at heq' hle'
    exact ⟨flavor', heq', hle.trans hle'⟩
  fresh := by
    intro id hid
    rcases Nat.lt_or_ge id s'.symbols.size with hlt | hge
    · obtain ⟨flavor, heq, -⟩ := h'.symbol id hlt
      rw [heq]
      exact h.fresh id hid
    · exact h'.fresh id hge
  indexed := fun p hp => h'.indexed p (h.indexed p hp)
  titled := fun ht => h'.titled (h.titled ht)
  named := fun name id hid => h'.named name id (h.named name id hid)
  scopes := fun space => (h'.scopes space).trans (h.scopes space)
  rest := by
    rw [← h.rest, ← h'.rest]

instance : IsPreorder State Unmoved where
  refl := refl
  trans _ _ _ := trans

lemma path (h : Unmoved s s') : s'.path = s.path := by
  have hrest := congrArg State.path h.rest
  exact hrest

lemma site (h : Unmoved s s') : s'.site = s.site := by
  have hrest := congrArg State.site h.rest
  exact hrest

end Unmoved

/-! ## Symbols -/

section Symbols

variable {s : State}

lemma unmoved_raise (id : Id) (flavor : Flavor) : Unmoved s (s.raise id flavor) := by
  rcases s.raise_cases id flavor with heq | ⟨hlt, heq⟩
  · rw [heq]
    exact Unmoved.refl s
  · rw [heq]
    exact {
      size := (s.size_alter ..).ge
      symbol := by
        intro i _
        rw [State.symbol_alter]
        split
        · rename_i hi
          rw [hi.1]
          exact ⟨flavor, rfl, hlt.le⟩
        · exact ⟨_, rfl, Nat.le_refl _⟩
      fresh := by
        intro i hi
        have hsame := s.symbol_alter_congr Symbol.isRoutine id ({ · with flavor }) (fun _ => rfl) i
        rw [hsame]
        exact Unmoved.isRoutine_of_size_le hi
      indexed := fun p hp => hp.alter (fun _ => rfl) fun _ => rfl
      titled := fun ht => ht.alter fun _ => rfl
      named := fun _ _ h => h
      scopes := fun _ => rfl
      rest := rfl }

lemma unmoved_push {x : Symbol} (hx : x.isRoutine = false)
    (hnew : s.find? x.space x.name = none) : Unmoved s (s.push x) where
  size := by
    rw [State.size_push]
    exact Nat.le_succ _
  symbol := by
    intro id hid
    rw [s.symbol_push_of_lt x hid]
    exact ⟨_, rfl, Nat.le_refl _⟩
  fresh := by
    intro id hid
    rw [State.symbol_push]
    split
    · exact hx
    · exact Unmoved.isRoutine_of_size_le hid
  indexed := fun p hp => hp.push fun _ => hnew
  titled := fun ht => ht.push x
  named := by
    intro name id hid
    rw [State.named_push]
    split
    · exact List.mem_append_left _ hid
    · exact hid
  scopes := fun _ => rfl
  rest := rfl

lemma unmoved_of_eq {uses : Edges} {last : Option Id} : Unmoved s { s with uses, last } where
  size := Nat.le_refl _
  symbol := fun _ _ => ⟨_, rfl, Nat.le_refl _⟩
  fresh := fun _ => Unmoved.isRoutine_of_size_le
  indexed := fun _ h => ⟨h.named, h.found⟩
  titled := fun h => h
  named := fun _ _ h => h
  scopes := fun _ => rfl
  rest := rfl

end Symbols

/-! ## Changes -/

/-- Edges lead to no symbol twice. -/
abbrev Edges.Simple (edges : Edges) : Prop :=
  edges.Among (fun _ => True) fun _ => True

/-- A relation that has the changes by which symbols are made and uses are noted. -/
class Tolerates (R : State → State → Prop) : Prop extends IsPreorder State R where
  raise : ∀ s id flavor, (s.symbol id).isWild = false → R s (State.raise s id flavor)
  push : ∀ s x, x.isRoutine = false → (x.space = none → x.flavor.specificity = 0) →
    s.find? x.space x.name = none → R s (s.push x)
  note : ∀ (s : State) uses last, (s.uses.Simple → uses.Simple) → R s { s with uses, last }

/-- A relation that has the changes by which a name is bound. -/
class Binds (R : State → State → Prop) (name : String) : Prop where
  set : ∀ space value, Leads R (setName space name value)

instance : Tolerates Unmoved where
  raise _ id flavor _ := unmoved_raise id flavor
  push _ _ hx _ := unmoved_push hx
  note _ _ _ _ := unmoved_of_eq

variable {R : State → State → Prop} [Tolerates R]

lemma leads_symbolFor_of {space : Option String} {name : String} {origin : Option Origin}
    {flavor : Flavor} (hwild : space = none → flavor.specificity = 0)
    (hpush : ∀ s, s.find? space name = none → R s (s.push (s.fresh space name origin flavor))) :
    Leads R (symbolFor space name origin flavor) := by
  intro s
  rcases symbolFor_run space name origin flavor s with ⟨id, hfind, hrun⟩ | ⟨hnew, hrun⟩
  · rw [hrun]
    cases space with
    | none =>
      -- nothing is known of wild names, so there is nothing to take over
      rw [State.raise, hwild rfl, if_neg (Nat.not_lt_zero _)]
      exact refl_of R s
    | some space =>
      refine Tolerates.raise s id flavor ?_
      rw [Symbol.isWild, (State.find?_some hfind).2]
      rfl
  · rw [hrun]
    exact hpush s hnew

lemma leads_symbolFor (space name : String) {origin : Option Origin}
    (horigin : (origin.map (·.isFunction)).getD false = false) (flavor : Flavor) :
    Leads R (symbolFor (some space) name origin flavor) := by
  have hwild : some space = none → flavor.specificity = 0 := by rintro ⟨⟩
  exact leads_symbolFor_of hwild fun s hnew => Tolerates.push s _ horigin hwild hnew

lemma leads_symbolOf (id : Id) : Leads R (symbolOf id) :=
  leads_of_eq fun _ => rfl

lemma leads_setLast (value : Option Id) : Leads R (setLast value) :=
  fun s => Tolerates.note s _ _ fun h => h

lemma leads_get : Leads R (get : Visit State) :=
  leads_of_eq fun _ => rfl

lemma leads_current : Leads R current := by
  refine leads_get.bind fun s => ?_
  split
  · exact leads_throw _
  · exact leads_symbolFor _ _ rfl _

lemma leads_currentName : Leads R currentName :=
  leads_current.bind fun id => (leads_symbolOf id).bind fun _ => leads_pure _

lemma leads_parentOf (id : Id) : Leads R (parentOf id) := by
  refine (leads_symbolOf id).bind fun x => ?_
  split
  · exact leads_throw _
  · exact leads_symbolFor _ _ rfl _

/-! ## Uses -/

lemma leads_removeWild (source target : Id) (name : String) :
    Leads R (removeWild source target name) := by
  refine leads_get_bind fun s => ?_
  split
  · exact refl_of R s
  · split
    · exact refl_of R s
    · split
      · exact refl_of R s
      · exact Tolerates.note s _ _ fun h => h.remove _ _
      · exact refl_of R s

lemma leads_addUses (source target : Id) : Leads R (addUses source target) := by
  refine Leads.bind (fun s => Tolerates.note s _ _ fun h => h.touch trivial) fun _ => ?_
  refine leads_get_bind fun s => ?_
  split
  · exact refl_of R s
  · have hrest : Leads R (if !(s.symbol target).isWild then
        removeWild source target (s.symbol target).name else pure ()) := by
      split
      · exact leads_removeWild _ _ _
      · exact leads_pure ()
    exact trans_of R (Tolerates.note s _ _ fun h => h.add trivial trivial) (hrest _)

/-! ## Names in scopes -/

lemma scope?_set (s : State) (space other : String) (scope : Scope) :
    State.scope? { s with scopes := Assoc.set space scope s.scopes } other
      = if other = space then some scope else s.scope? other :=
  Assoc.get?_set space other scope s.scopes

lemma member?_set {s : State} {space name : String} {scope : Scope}
    (hscope : s.scope? space = some scope) (value : Id) (space' name' : String) :
    State.member? { s with
        scopes := Assoc.set space (Assoc.set name (some value) scope) s.scopes } space' name'
      = if space' = space ∧ name' = name then some value else s.member? space' name' := by
  rw [State.member?, scope?_set]
  by_cases hspace : space' = space
  · subst hspace
    rw [if_pos rfl, Option.bind_some, Assoc.get?_set, State.member?, hscope]
    by_cases hname : name' = name
    · simp [hname]
    · simp [hname]
  · rw [if_neg hspace, if_neg fun h => hspace h.1]
    rfl

lemma setName_run (space name : String) (value : Id) (s : State) :
    (s.scope? space = none ∧ (setName space name value).run.run s = (.ok (), s)) ∨
    ∃ scope, s.scope? space = some scope ∧ (setName space name value).run.run s = (.ok (),
      { s with scopes := Assoc.set space (Assoc.set name (some value) scope) s.scopes }) := by
  have hrun : (setName space name value).run.run s = (.ok (), _) := rfl
  dsimp only at hrun
  cases hscope : s.scope? space with
  | none =>
    refine Or.inl ⟨rfl, ?_⟩
    rw [hrun, hscope]
  | some scope =>
    refine Or.inr ⟨scope, rfl, ?_⟩
    rw [hrun, hscope]

lemma leads_setName (space name : String) (value : Id) :
    Leads Unmoved (setName space name value) := by
  intro s
  rcases setName_run space name value s with ⟨-, hrun⟩ | ⟨scope, hscope, hrun⟩
  · rw [hrun]
    exact Unmoved.refl s
  · rw [hrun]
    exact {
      size := Nat.le_refl _
      symbol := fun _ _ => ⟨_, rfl, Nat.le_refl _⟩
      fresh := fun _ => Unmoved.isRoutine_of_size_le
      indexed := fun _ h => ⟨h.named, h.found⟩
      titled := fun h => h
      named := fun _ _ h => h
      scopes := by
        intro other
        rw [scope?_set]
        split
        · rename_i heq
          rw [heq, hscope]
          rfl
        · rfl
      rest := rfl }

instance (name : String) : Binds Unmoved name :=
  ⟨fun space => leads_setName space name⟩

lemma leads_scopeOf (space : String) : Leads R (scopeOf space) := by
  refine leads_get.bind fun s => ?_
  split
  · exact leads_pure _
  · exact leads_throw _

lemma leads_valueOf (name : String) : Leads R (valueOf name) := by
  refine leads_get.bind fun s => ?_
  split
  · exact leads_pure _
  · split
    · exact leads_throw _
    · exact leads_pure _

lemma leads_bindName (name : String) [Binds R name] (value : Option Id) :
    Leads R (bindName name value) := by
  refine leads_get.bind fun s => ?_
  split
  · exact Binds.set _ _
  · exact leads_pure ()

/-! ## Attributes -/

lemma leads_superClass : Leads R superClass := by
  refine leads_get.bind fun s => ?_
  dsimp only
  split
  · exact leads_pure _
  · exact leads_throw _
  · exact leads_throw _

lemma leads_memberOf (object : Option Id) (attr : String) :
    Leads R (memberOf object attr) := by
  refine leads_get.bind fun s => ?_
  cases object with
  | none => exact leads_pure _
  | some o =>
    dsimp only
    split
    · exact leads_pure _
    · split
      · exact (leads_symbolFor _ _ rfl _).bind fun _ => leads_pure _
      · split
        · exact leads_pure _
        · split
          · exact leads_pure _
          · split
            · exact leads_pure _
            · exact leads_pure _

lemma leads_noName : Leads R objectOf.noName := by
  refine leads_get.bind fun s => ?_
  split
  · exact leads_throw _
  · exact leads_pure _

lemma leads_objectOf (t : Tree) : Leads R (objectOf t) := by
  fun_induction objectOf t with
  | case1 value attr mode ih =>
    refine ih.bind fun o => ?_
    cases o with
    | none => exact leads_pure _
    | some o =>
      refine leads_get.bind fun s => ?_
      split
      · exact leads_pure _
      · exact leads_pure _
  | case2 => exact (leads_symbolFor _ _ rfl _).bind fun _ => leads_pure _
  | case3 => exact leads_noName
  | case4 => exact leads_superClass.bind fun _ => leads_pure _
  | case5 => exact leads_pure _
  | case6 f mode arg keywords hsuper hf hmode ih =>
    exact ih.bind fun o => (leads_memberOf o _).bind fun _ => leads_pure _
  | case7 => exact leads_throw _
  | case8 | case9 => exact leads_pure _
  | case10 id mode => exact leads_valueOf id
  | case11 => exact leads_noName

lemma leads_readAttribute (value : Tree) (attr : String) (mode : Mode) :
    Leads R (readAttribute value attr mode) := by
  cases mode with
  | load => exact (leads_objectOf value).bind fun o => leads_memberOf o attr
  | store | delete => exact leads_throw _

lemma leads_writeAttribute (value : Tree) (attr : String) [Binds R attr] (mode : Mode)
    (new : Option Id) : Leads R (writeAttribute value attr mode new) := by
  cases mode with
  | load | delete => exact leads_throw _
  | store =>
    cases new with
    | none => exact leads_pure _
    | some new =>
      refine (leads_objectOf value).bind fun o => ?_
      cases o with
      | none => exact leads_pure _
      | some o =>
        refine leads_get.bind fun s => ?_
        dsimp only
        split
        · exact leads_pure _
        · exact (Binds.set _ _).bind fun _ => leads_pure _

lemma leads_orUnresolved {R : State → State → Prop} [IsPreorder State R] {α : Type}
    {x : Visit α} (hx : Leads R x) (fallback : α) : Leads R (orUnresolved x fallback) := by
  intro s
  have hstep := hx s
  rcases hrun : x.run.run s with ⟨r, s'⟩
  rw [hrun] at hstep
  rw [Calls.orUnresolved]
  cases r with
  | ok a =>
    rw [run_tryCatch_ok _ hrun]
    exact hstep
  | error e =>
    rw [run_tryCatch_error _ hrun]
    split
    · exact hstep
    · exact hstep

/-! ## What programs say -/

def Params.marked (params : Params) : List String :=
  params.ordinary ++ params.named

lemma leads_markParams (inner : String) {params : Params}
    (h : ∀ p ∈ params.marked, Binds R p) : Leads R (markParams inner params) :=
  (leads_scopeOf inner).bind fun _ => (leads_symbolFor _ _ rfl _).bind fun mark =>
    leads_forM_of_mem fun p hp => (h p hp).set inner mark

def Alias.given (a : Alias) : String :=
  a.asName.getD a.name

lemma leads_importModule (a : Alias) [Binds R a.given] : Leads R (importModule a) :=
  leads_current.bind fun user => (leads_symbolFor _ _ rfl _).bind fun module =>
    (leads_addUses user module).bind fun _ => leads_bindName a.given _

lemma leads_importName (user : Id) (source : String) (a : Alias) [Binds R a.given] :
    Leads R (importName user source a) := by
  have hrest : ∀ id, Leads R (do
      bindName (a.asName.getD a.name) (some id)
      addUses user id) :=
    fun id => (leads_bindName a.given _).bind fun _ => leads_addUses user id
  refine leads_get.bind fun s => ?_
  dsimp only
  split
  · exact (leads_symbolFor _ _ rfl _).bind hrest
  · exact (leads_symbolFor _ _ rfl _).bind hrest

lemma leads_visitName (id : String) {mode : Mode} (hbinds : mode = .store → Binds R id) :
    Leads R (visitName id mode) := by
  cases mode with
  | delete => exact leads_pure ()
  | store =>
    have := hbinds rfl
    exact leads_get.bind fun s => leads_bindName id s.last
  | load =>
    have hrest : ∀ target, Leads R (do
        addUses (← current) target
        setLast (some target)) :=
      fun target => leads_current.bind fun user =>
        (leads_addUses user target).bind fun _ => leads_setLast _
    refine (leads_valueOf id).bind fun value => leads_get.bind fun s => ?_
    dsimp only
    split
    · exact leads_setLast _
    · cases value with
      | none =>
        have hfor : Leads R (symbolFor none id (some { kind := "Name" }) .unknown) :=
          leads_symbolFor_of (fun _ => rfl) fun s hnew => Tolerates.push s _ rfl (fun _ => rfl) hnew
        exact hfor.bind hrest
      | some v => exact hrest v

lemma leads_useMethod (object : Id) (method : String) : Leads R (useMethod object method) :=
  leads_current.bind fun user => (leads_symbolOf object).bind fun _ =>
    (leads_symbolFor _ _ rfl _).bind fun target => leads_addUses user target

lemma leads_visitAttribute (value : Tree) (attr : String) {mode : Mode}
    (hbinds : mode = .store → Binds R attr) : Leads R (visitAttribute value attr mode) := by
  cases mode with
  | delete => exact leads_pure _
  | store =>
    have := hbinds rfl
    refine leads_get.bind fun s => ?_
    exact (leads_orUnresolved (leads_writeAttribute value attr .store s.last) false).bind
      fun _ => leads_pure _
  | load =>
    have hread : Leads R (some <$> readAttribute value attr .load) :=
      (leads_readAttribute value attr .load).bind fun _ => leads_pure _
    refine (leads_orUnresolved hread none).bind fun r => ?_
    split
    · exact leads_pure _
    · refine leads_current.bind fun user => (leads_addUses _ _).bind fun _ => ?_
      refine (leads_symbolOf _).bind fun x => ?_
      split
      · exact (leads_removeWild _ _ _).bind fun _ => (leads_setLast _).bind fun _ => leads_pure _
      · exact (leads_setLast _).bind fun _ => leads_pure _
    · refine (leads_symbolOf _).bind fun x => ?_
      split
      · exact leads_pure _
      · exact leads_current.bind fun user => (leads_symbolFor _ _ rfl _).bind fun target =>
          (leads_addUses _ _).bind fun _ => (leads_removeWild _ _ _).bind fun _ =>
            (leads_setLast _).bind fun _ => leads_pure _
    · exact leads_pure _

lemma leads_constant (type : String) : Leads R (visit (.constant type)) := by
  rw [visit]
  exact leads_currentName.bind fun _ => (leads_symbolFor _ _ rfl _).bind fun _ => leads_setLast _

end Docsmith.Calls
