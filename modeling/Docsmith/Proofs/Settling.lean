import Docsmith.Calls.Settle
import Docsmith.Proofs.Unmoved

/-! # What settling leaves alone

Settling changes uses and the table of names, and takes back that wild names and anonymous blocks
are defined (`Settles`). So a routine vanishes only if it is named like an anonymous block, and then
it does (`does_collapseBlocks`). -/

namespace Docsmith.Calls

open Rules List

/-! ## The relation -/

/-- Routines vanish only if they are named like blocks, and symbols that say what they are stay in
the table. -/
structure Settles (s s' : State) : Prop where
  size : s.symbols.size ≤ s'.symbols.size
  symbol : ∀ i < s.symbols.size, (s'.symbol i).space = (s.symbol i).space ∧
    (s'.symbol i).name = (s.symbol i).name ∧ (s'.symbol i).origin = (s.symbol i).origin ∧
    (s'.symbol i).file = (s.symbol i).file ∧
    (s.symbol i).flavor.specificity ≤ (s'.symbol i).flavor.specificity
  gone : ∀ i, (s'.symbol i).isFunction = true → (s.symbol i).isFunction = true
  kept : ∀ i, (s.symbol i).isFunction = true → (s.symbol i).isWild = false →
    (s.symbol i).name ∉ blockLabels → (s'.symbol i).isFunction = true
  named : ∀ name, ∀ i ∈ s.named name, 3 ≤ (s.symbol i).flavor.specificity → i ∈ s'.named name

lemma Symbol.isFunction_eq (x : Symbol) : x.isFunction = (x.defined && x.isRoutine) := rfl

lemma State.lt_of_isFunction {s : State} {i : Id} (h : (s.symbol i).isFunction = true) :
    i < s.symbols.size :=
  lt_of_symbol (P := (·.isFunction = true)) h nofun

lemma State.lt_of_specific {s : State} {i : Id} (h : 3 ≤ (s.symbol i).flavor.specificity) :
    i < s.symbols.size :=
  lt_of_symbol (P := (3 ≤ ·.flavor.specificity)) h (by decide)

namespace Settles

variable {s s' s'' : State}

lemma refl (s : State) : Settles s s where
  size := Nat.le_refl _
  symbol := fun _ _ => ⟨rfl, rfl, rfl, rfl, Nat.le_refl _⟩
  gone := fun _ h => h
  kept := fun _ h _ _ => h
  named := fun _ _ h _ => h

lemma trans (h : Settles s s') (h' : Settles s' s'') : Settles s s'' where
  size := h.size.trans h'.size
  symbol := by
    intro i hi
    obtain ⟨hspace, hname, horigin, hfile, hle⟩ := h.symbol i hi
    obtain ⟨hspace', hname', horigin', hfile', hle'⟩ := h'.symbol i (hi.trans_le h.size)
    exact ⟨hspace'.trans hspace, hname'.trans hname, horigin'.trans horigin, hfile'.trans hfile,
      hle.trans hle'⟩
  gone := fun i hi => h.gone i (h'.gone i hi)
  kept := by
    intro i hi hwild hname
    have hsame := h.symbol i (State.lt_of_isFunction hi)
    refine h'.kept i (h.kept i hi hwild hname) ?_ ?_
    · rw [Symbol.isWild, hsame.1]
      exact hwild
    · rw [hsame.2.1]
      exact hname
  named := by
    intro name i hi hle
    have hle' := hle.trans (h.symbol i (State.lt_of_specific hle)).2.2.2.2
    exact h'.named name i (h.named name i hi hle) hle'

lemma name (h : Settles s s') {i : Id} {n : String} (hn : n ≠ "") (hi : (s.symbol i).name = n) :
    (s'.symbol i).name = n :=
  (h.symbol i (State.lt_of_name (hi ▸ hn))).2.1.trans hi

end Settles

lemma Unmoved.settles {s s' : State} (h : Unmoved s s') : Settles s s' where
  size := h.size
  symbol := by
    intro i hi
    obtain ⟨flavor, heq, hle⟩ := h.symbol i hi
    rw [heq]
    exact ⟨rfl, rfl, rfl, rfl, hle⟩
  gone := by
    intro i hi
    rcases Nat.lt_or_ge i s.symbols.size with hlt | hge
    · obtain ⟨flavor, heq, -⟩ := h.symbol i hlt
      rwa [heq] at hi
    · rw [Symbol.isFunction_eq, h.fresh i hge, Bool.and_false] at hi
      cases hi
  kept := by
    intro i hi _ _
    obtain ⟨flavor, heq, -⟩ := h.symbol i (State.lt_of_isFunction hi)
    rw [heq]
    exact hi
  named := fun name i hi _ => h.named name i hi

def settling : Rules State where
  fit := State.Titled
  leads := Settles
  fails := fun _ => True
  refl := Settles.refl
  trans := Settles.trans

lemma does_of_leads {α : Type} {x : Visit α} (h : Leads Unmoved x) {pre : State → Prop} :
    settling.Does pre x fun _ _ => True := by
  intro s hs _
  rcases hrun : x.run.run s with ⟨r, s'⟩
  have hunmoved := h s
  rw [hrun] at hunmoved
  exact ⟨r, s', rfl, hunmoved.titled hs, hunmoved.settles, fun _ _ => trivial, fun _ _ => trivial⟩

/-! ## Wild names -/

section Uses

variable {R : State → State → Prop} [Tolerates R]

lemma leads_addAllUses (pairs : List (Id × Id)) : Leads R (addAllUses pairs) := by
  refine leads_forM (fun x => ?_) pairs
  exact leads_addUses x.1 x.2

lemma leads_removeAllUses (pairs : List (Id × Id)) : Leads R (removeAllUses pairs) := by
  refine leads_forM (fun x => ?_) pairs
  exact fun s => Tolerates.note s _ _ fun h => h.remove _ _

end Uses

lemma settles_undefine {s s' : State} (hsize : s'.symbols.size = s.symbols.size)
    (hnamed : ∀ name, s'.named name = s.named name)
    (h : ∀ i, s'.symbol i = s.symbol i ∨ (s'.symbol i = { s.symbol i with defined := false } ∧
      ((s.symbol i).isWild = true ∨ (s.symbol i).name ∈ blockLabels))) :
    Settles s s' ∧ (s.Titled → s'.Titled) := by
  refine ⟨⟨hsize.ge, fun i _ => ?_, fun i hi => ?_, fun i hi hwild hname => ?_, ?_⟩, ?_⟩
  · rcases h i with heq | ⟨heq, -⟩
    · rw [heq]
      exact ⟨rfl, rfl, rfl, rfl, Nat.le_refl _⟩
    · rw [heq]
      exact ⟨rfl, rfl, rfl, rfl, Nat.le_refl _⟩
  · rcases h i with heq | ⟨heq, -⟩
    · rwa [heq] at hi
    · rw [heq] at hi
      cases hi
  · rcases h i with heq | ⟨-, hw | hl⟩
    · rwa [heq]
    · exact absurd hw (Bool.eq_false_iff.mp hwild)
    · exact absurd hl hname
  · intro name i hi _
    rwa [hnamed]
  · intro ht name hne i hi
    rw [hnamed] at hi
    have hname := ht name hne i hi
    rcases h i with heq | ⟨heq, -⟩
    · rwa [heq]
    · rw [heq]
      exact hname

def State.unexpanded (s : State) : State :=
  { s with symbols := s.symbols.map fun x => if x.isWild then { x with defined := false } else x }

lemma State.symbol_unexpanded (s : State) (i : Id) : s.unexpanded.symbol i
    = if (s.symbol i).isWild then { s.symbol i with defined := false } else s.symbol i := by
  rw [State.unexpanded, State.symbol, State.symbol, Array.getD_eq_getD_getElem?,
    Array.getD_eq_getD_getElem?, Array.getElem?_map]
  cases s.symbols[i]? with
  | none | some x => rfl

lemma does_expandWild : settling.Does (fun _ => True) expandWild fun _ _ => True := by
  refine does_get.bind fun s => (does_of_leads (leads_addAllUses _)).bind fun _ => ?_
  refine does_modify fun s hs _ => ?_
  have hsettles : Settles s s.unexpanded ∧ (s.Titled → s.unexpanded.Titled) := by
    refine settles_undefine Array.size_map (fun _ => rfl) fun i => ?_
    rw [State.symbol_unexpanded]
    split
    · rename_i hwild
      exact Or.inr ⟨rfl, Or.inl hwild⟩
    · exact Or.inl rfl
  exact ⟨hsettles.2 hs, hsettles.1, trivial⟩

/-! ## Imports -/

lemma does_importTarget (id : Id) (n : String) :
    settling.Does (fun s => (s.symbol id).name = n) (importTarget id)
      fun r s => ∀ c, r = some c → (s.symbol c).name = n := by
  have hfind : ∀ module, settling.Does (fun _ => True) (do
      let s ← get
      return (s.uses.targets module).find? fun c => (s.symbol c).name == n)
      fun r s => ∀ c, r = some c → (s.symbol c).name = n := by
    intro module
    refine does_get.bind fun s => does_pure ?_
    rintro s' - ⟨rfl, -⟩ c hc
    have hname := List.find?_some hc
    exact beq_iff_eq.mp hname
  have htail : ∀ target, settling.Does (fun s => (s.symbol id).name = n) (do
      let t ← symbolOf target
      let name := (← symbolOf id).name
      let module ← if t.space == some "" then pure target
        else if name == t.name then symbolFor (some "") (t.space.getD "") none .unspecified
        else throw .brokenInvariant
      let s ← get
      return (s.uses.targets module).find? fun c => (s.symbol c).name == name)
      fun r s => ∀ c, r = some c → (s.symbol c).name = n := by
    intro target
    have hname : settling.Does (fun s => (s.symbol id).name = n) (symbolOf id)
        fun x _ => x.name = n ∧ True :=
      (does_symbolOf id).gives fun x s _ h => ⟨h.1 ▸ h.2, trivial⟩
    refine (does_symbolOf target).bind fun t => ?_
    refine Does.bind_of (hname.given fun _ _ h => h.2) fun x hx => ?_
    subst hx
    dsimp only
    split
    · exact (does_of_leads (leads_pure target)).bind hfind
    · split
      · exact (does_of_leads (leads_symbolFor _ _ rfl _)).bind hfind
      · exact (does_of_leads (leads_throw _)).bind hfind
  refine does_get.bind fun s => ?_
  split
  · exact (htail id).given fun _ _ h => h.2
  · refine Does.bind ?_ fun _ => htail _
    refine does_of_run ?_
    rintro s' hs ⟨rfl, hname⟩
    exact ⟨(), _, rfl, hs, unmoved_of_eq.settles, hname⟩
  · exact Does.bind (does_throw trivial) htail

lemma does_importTargets (s₀ : State) :
    settling.Does (fun s => s = s₀) importTargets fun targets s => ∀ e ∈ targets,
      (s₀.symbol e.1).flavor = .imported ∧
      ((s₀.symbol e.1).name ≠ "" → (s.symbol e.2).name = (s₀.symbol e.1).name) := by
  have hreached : settling.Stable fun s => Settles s₀ s := fun _ _ h hs => hs.trans h
  have hstable : ∀ (id : Id) (r : Id × Option Id), settling.Stable fun s => r.1 = id ∧
      ((s₀.symbol id).name ≠ "" → ∀ c, r.2 = some c → (s.symbol c).name = (s₀.symbol id).name) :=
    fun id r _ _ h hr => ⟨hr.1, fun hn c hc => h.name hn (hr.2 hn c hc)⟩
  have hwork : ∀ id, settling.Does (fun s => Settles s₀ s) (do return (id, ← importTarget id))
      fun r s => r.1 = id ∧
        ((s₀.symbol id).name ≠ "" → ∀ c, r.2 = some c → (s.symbol c).name = (s₀.symbol id).name) := by
    intro id
    have htarget : settling.Does (fun s => Settles s₀ s) (importTarget id) fun r s =>
        (s₀.symbol id).name ≠ "" → ∀ c, r = some c → (s.symbol c).name = (s₀.symbol id).name := by
      intro s hs hreach
      refine ((does_importTarget id (s.symbol id).name).gives ?_) s hs rfl
      intro r s' _ hr hn c hc
      rw [hr c hc]
      exact hreach.name hn rfl
    exact htarget.bind fun r => does_pure fun s _ hr => ⟨rfl, hr⟩
  refine Does.bind_of (does_get.gives fun s s' _ h => ⟨h.1.trans h.2, h.1⟩)
    fun s hs₀ => ?_
  subst hs₀
  refine ((does_mapM hreached hstable fun id _ => hwork id).given ?_).bind
    fun found => does_pure ?_
  · rintro s' - rfl
    exact Settles.refl s
  · intro s' _ hfound e he
    obtain ⟨r, hr, he⟩ := mem_filterMap.mp he
    obtain ⟨c, hc, rfl⟩ := Option.map_eq_some_iff.mp he
    obtain ⟨id, hid, rfl, hname⟩ := exists_left_of_forall₂ hfound hr
    have himported := (mem_filter.mp hid).2
    exact ⟨beq_iff_eq.mp himported, fun hn => hname hn c hc⟩

def State.renamed (s : State) (f : Id → Id) : State :=
  { s with
    table := s.table.map fun (n, ids) => (n, ids.map f),
    uses := s.uses.rename f,
    defines := s.defines.rename f }

lemma State.named_renamed (s : State) (f : Id → Id) (name : String) :
    (s.renamed f).named name = (s.named name).map f := by
  have hget : ∀ table : List (String × List Id),
      Assoc.get? name (table.map fun e => (e.1, e.2.map f)) = (Assoc.get? name table).map (·.map f) := by
    intro table
    induction table with
    | nil => rfl
    | cons e table ih =>
      rw [map_cons, Assoc.get?, Assoc.get?]
      split
      · rfl
      · exact ih
  have hnamed : (s.renamed f).named name
      = (Assoc.get? name (s.table.map fun e => (e.1, e.2.map f))).getD [] := rfl
  rw [hnamed, hget, State.named]
  cases Assoc.get? name s.table with
  | none | some ids => rfl

lemma of_mem_attributeTargets {s : State} {targets : List (Id × Id)} {e : Id × Id}
    (he : e ∈ s.attributeTargets targets) :
    (s.symbol e.1).flavor = .attribute ∧ (s.symbol e.2).name = (s.symbol e.1).name := by
  obtain ⟨id, hid, he⟩ := mem_filterMap.mp he
  obtain ⟨c, hc, rfl⟩ := Option.map_eq_some_iff.mp he
  have hflavor := (Bool.and_eq_true_iff.mp (mem_filter.mp hid).2).2
  refine ⟨beq_iff_eq.mp hflavor, ?_⟩
  have hlast := mem_of_getLast? hc
  obtain ⟨x, -, hx⟩ := mem_filterMap.mp hlast
  have hname := List.find?_some hx
  exact beq_iff_eq.mp hname

lemma State.Titled.renamed {s : State} (hs : s.Titled) {f : Id → Id}
    (hf : ∀ i, (s.symbol i).name ≠ "" → (s.symbol (f i)).name = (s.symbol i).name) :
    (s.renamed f).Titled := by
  intro name hne i hi
  rw [State.named_renamed] at hi
  obtain ⟨j, hj, rfl⟩ := mem_map.mp hi
  have hname := hs name hne j hj
  exact (hf j (hname ▸ hne)).trans hname

/-- Only imported names and attributes are replaced, and by symbols of the same name. -/
lemma target_cases {s₀ s : State} (h : Settles s₀ s) {targets : List (Id × Id)}
    (htargets : ∀ e ∈ targets, (s₀.symbol e.1).flavor = .imported ∧
      ((s₀.symbol e.1).name ≠ "" → (s.symbol e.2).name = (s₀.symbol e.1).name)) (i : Id) :
    let j := (Assoc.get? i (targets ++ s.attributeTargets targets)).getD i
    ((s.symbol i).name ≠ "" → (s.symbol j).name = (s.symbol i).name) ∧
      (j ≠ i → 0 < (s.symbol i).flavor.specificity ∧ (s₀.symbol i).flavor.specificity < 3) := by
  cases hget : Assoc.get? i (targets ++ s.attributeTargets targets) with
  | none => exact ⟨fun _ => rfl, fun h => absurd rfl h⟩
  | some c =>
    rcases mem_append.mp (Assoc.mem_of_get? hget) with he | he
    · obtain ⟨hflavor, hc⟩ := htargets _ he
      have hlt := State.lt_of_symbol (P := (·.flavor = .imported)) hflavor nofun
      obtain ⟨-, hname, -, -, hle⟩ := h.symbol i hlt
      rw [hname]
      rw [hflavor] at hle ⊢
      exact ⟨hc, fun _ => ⟨Nat.lt_of_lt_of_le Nat.two_pos hle, Nat.lt_succ_self 2⟩⟩
    · obtain ⟨hflavor, hname⟩ := of_mem_attributeTargets he
      refine ⟨fun _ => hname, fun _ => ⟨?_, Nat.not_le.mp fun hle => ?_⟩⟩
      · rw [hflavor]
        exact Nat.one_pos
      · have hle' := hle.trans (h.symbol i (State.lt_of_specific hle)).2.2.2.2
        rw [hflavor] at hle'
        exact absurd hle' (by decide)

lemma settles_renamed {s₀ s : State} (h : Settles s₀ s) (hs : s.Titled) {targets : List (Id × Id)}
    (htargets : ∀ e ∈ targets, (s₀.symbol e.1).flavor = .imported ∧
      ((s₀.symbol e.1).name ≠ "" → (s.symbol e.2).name = (s₀.symbol e.1).name)) :
    let renamed := s.renamed fun id =>
      (Assoc.get? id (targets ++ s.attributeTargets targets)).getD id
    renamed.Titled ∧ Settles s₀ renamed := by
  have hcases := target_cases h htargets
  refine ⟨hs.renamed fun i => (hcases i).1, h.size, h.symbol, h.gone, h.kept, ?_⟩
  intro name i hi hle
  rw [State.named_renamed]
  refine mem_map.mpr ⟨i, h.named name i hi hle, ?_⟩
  by_contra hmoved
  exact Nat.not_le.mpr ((hcases i).2 hmoved).2 hle

lemma does_resolveImports : settling.Does (fun _ => True) resolveImports fun _ _ => True := by
  intro s₀ hs₀ _
  obtain ⟨r, s, hrun, hs, hleads, hok, -⟩ := does_importTargets s₀ s₀ hs₀ rfl
  cases r with
  | error e =>
    refine ⟨.error e, s, ?_, hs, hleads, fun _ _ => trivial, fun _ _ => trivial⟩
    rw [resolveImports, run_bind, hrun]
  | ok targets =>
    obtain ⟨htitled, hsettles⟩ := settles_renamed hleads hs (hok targets rfl)
    refine ⟨.ok (), _, ?_, htitled, hsettles, fun _ _ => trivial, fun _ _ => trivial⟩
    rw [resolveImports, run_bind_of_ok hrun]
    rfl

/-! ## What does not exist -/

def Symbol.undefined (x : Symbol) : Symbol :=
  { x with defined := false }

lemma settles_alter {s : State} {i : Id}
    (h : (s.symbol i).isWild = true ∨ (s.symbol i).name ∈ blockLabels) :
    Settles s (s.alter i Symbol.undefined) ∧ (s.Titled → (s.alter i Symbol.undefined).Titled) := by
  refine settles_undefine (State.size_alter ..) (fun _ => rfl) fun j => ?_
  rw [State.symbol_alter]
  split
  · rename_i hj
    rw [hj.1]
    exact Or.inr ⟨rfl, h⟩
  · exact Or.inl rfl

lemma settles_push {s : State} {x : Symbol} (hx : x.isFunction = false) : Settles s (s.push x) where
  size := by
    rw [State.size_push]
    exact Nat.le_succ _
  symbol := by
    intro i hi
    rw [s.symbol_push_of_lt x hi]
    exact ⟨rfl, rfl, rfl, rfl, Nat.le_refl _⟩
  gone := by
    intro i hi
    rw [State.symbol_push] at hi
    split at hi
    · rw [hx] at hi
      cases hi
    · exact hi
  kept := by
    intro i hi _ _
    rw [s.symbol_push_of_lt x (State.lt_of_isFunction hi)]
    exact hi
  named := by
    intro name i hi _
    rw [State.named_push]
    split
    · exact mem_append_left _ hi
    · exact hi

lemma does_wildFor (a : Id) (name : String) (origin : Option Origin) :
    settling.Does (fun _ => True) (do
      let wild ← symbolFor none name origin .unspecified
      modifySymbol wild Symbol.undefined
      return (a, wild)) fun _ _ => True := by
  refine does_of_run fun s hs _ => ?_
  rcases symbolFor_run none name origin .unspecified s with ⟨i, hfind, hrun⟩ | ⟨-, hrun⟩
  · have hraise := unmoved_raise (s := s) i .unspecified
    have hwild : ((s.raise i .unspecified).symbol i).isWild = true := by
      rw [Symbol.isWild, (State.find?_some ((State.find?_raise ..).trans hfind)).2]
      rfl
    obtain ⟨hsettles, htitled⟩ := settles_alter (Or.inl hwild)
    rw [run_bind_of_ok hrun, run_bind_of_ok (modifySymbol_run _ _ _)]
    exact ⟨_, _, rfl, htitled (hraise.titled hs), hraise.settles.trans hsettles, trivial⟩
  · rw [run_bind_of_ok hrun, run_bind_of_ok (modifySymbol_run _ _ _), State.alter_push _ rfl]
    exact ⟨_, _, rfl, State.Titled.push hs _, settles_push rfl, trivial⟩

lemma does_contractMissing : settling.Does (fun _ => True) contractMissing fun _ _ => True := by
  refine does_get.bind fun s => Does.any ?_
  have hwork : ∀ e : Id × Id, settling.Does (fun _ => True) (do
      let x ← symbolOf e.2
      let wild ← symbolFor none x.name x.origin .unspecified
      modifySymbol wild ({ · with defined := false })
      return (e.1, wild)) fun _ _ => True :=
    fun e => (does_symbolOf e.2).bind fun x => (does_wildFor e.1 x.name x.origin).any
  refine Does.bind (does_mapM (fun _ _ _ _ => trivial) (fun _ _ _ _ _ _ => trivial) fun e _ => hwork e)
    fun new => ?_
  exact (does_of_leads (leads_addAllUses new)).bind fun _ => does_of_leads (leads_removeAllUses _)

/-! ## Inherited uses -/

section Inherited

variable {R : State → State → Prop} [Tolerates R]

lemma leads_isImplied (b : Id) (all : List Id) : Leads R (isImplied b all) := by
  refine (leads_mapM (fun c => ?_) all).bind fun _ => leads_pure _
  refine (leads_symbolOf b).bind fun x => (leads_symbolOf c).bind fun y => ?_
  split
  · exact (leads_parentOf b).bind fun above => (leads_parentOf c).bind fun other =>
      leads_get.bind fun _ => leads_pure _
  · exact leads_pure _

lemma leads_cullInherited : Leads R cullInherited := by
  refine leads_get.bind fun s => ?_
  refine (leads_flatMapM (fun e => ?_) _).bind fun gone => leads_removeAllUses gone
  refine leads_filterMapM (fun b => ?_) _
  exact (leads_isImplied b e.2).bind fun _ => leads_pure _

end Inherited

/-! ## Anonymous blocks -/

lemma ne_empty_of_mem_blockLabels {label : String} (h : label ∈ blockLabels) : label ≠ "" := by
  rintro rfl
  exact absurd h (by decide)

lemma State.Titled.labels {s : State} (hs : s.Titled) {label : String} (hlabel : label ∈ blockLabels)
    (done : Nat) : ∀ i ∈ (s.named label).drop done, (s.symbol i).name ∈ blockLabels := by
  intro i hi
  rw [hs label (ne_empty_of_mem_blockLabels hlabel) i (mem_of_mem_drop hi)]
  exact hlabel

section Collapsing

-- whatever else a state is known to satisfy, collapsing reaches symbols with labels only
variable {T : Rules State} (hleads : ∀ s s', T.leads s s' → Settles s s')

include hleads

lemma stable_label (id : Id) : T.Stable fun s => (s.symbol id).name ∈ blockLabels := by
  intro s s' h hlabel
  rw [(hleads s s' h).name (ne_empty_of_mem_blockLabels hlabel) rfl]
  exact hlabel

lemma stable_labels (todo : List Id) :
    T.Stable fun s => ∀ i ∈ todo, (s.symbol i).name ∈ blockLabels :=
  fun s s' h hs i hi => stable_label hleads i s s' h (hs i hi)

variable (hfit : ∀ s, T.fit s → s.Titled) (hcollapse : ∀ id,
  T.Does (fun s => (s.symbol id).name ∈ blockLabels) (collapse id) fun _ _ => True)

include hfit hcollapse

lemma does_collapseFrom {label : String} (hlabel : label ∈ blockLabels) (rounds done : Nat) :
    T.Does (fun _ => True) (collapseFrom label rounds done) fun _ _ => True := by
  induction rounds generalizing done with
  | zero => exact does_done
  | succ rounds ih =>
    rw [collapseFrom]
    refine does_get.bind fun s => ?_
    split
    · exact does_done
    · have hall := does_forM_of_stable (stable_labels hleads ((s.named label).drop done))
        fun i hi => (hcollapse i).given fun _ _ h => h i hi
      refine (hall.given ?_).bind fun _ => (ih _).any
      rintro s' hs ⟨rfl, -⟩
      exact (hfit s hs).labels hlabel done

lemma does_collapseBlocks : T.Does (fun _ => True) collapseBlocks fun _ _ => True := by
  refine does_get.bind fun s => Does.any ?_
  refine does_forM_of_stable (fun _ _ _ _ => trivial) fun label hlabel => ?_
  have hlabel := contains_iff_mem.mp (mem_filter.mp hlabel).2
  exact does_get.bind fun s' => (does_collapseFrom hleads hfit hcollapse hlabel _ 0).any

end Collapsing

lemma does_collapse (id : Id) :
    settling.Does (fun s => (s.symbol id).name ∈ blockLabels) (collapse id)
      fun _ s => (s.symbol id).isFunction = false := by
  have hstable : settling.Stable _ := stable_label (fun _ _ h => h) id
  refine Does.after hstable (does_of_leads (leads_parentOf id)) fun outer => ?_
  refine Does.after hstable (does_of_leads leads_get) fun s => ?_
  refine Does.after hstable (does_of_leads (leads_forM (leads_addUses outer) _)) fun _ => ?_
  refine does_modify (f := fun s : State => s.alter id Symbol.undefined) fun s hs hlabel => ?_
  obtain ⟨hsettles, htitled⟩ := settles_alter (Or.inr hlabel)
  refine ⟨htitled hs, hsettles, ?_⟩
  rw [State.symbol_alter, if_pos ⟨rfl, State.lt_of_name (ne_empty_of_mem_blockLabels hlabel)⟩]
  rfl

lemma collapse_settles (id : Id) : settling.Does (fun s => (s.symbol id).name ∈ blockLabels)
    (collapse id) fun _ _ => True :=
  (does_collapse id).gives fun _ _ _ _ => trivial

lemma collapseFrom_settles {label : String} (hlabel : label ∈ blockLabels) (rounds done : Nat) :
    settling.Does (fun _ => True) (collapseFrom label rounds done) fun _ _ => True :=
  does_collapseFrom (fun _ _ h => h) (fun _ h => h) collapse_settles hlabel rounds done

lemma stable_not_isFunction (id : Id) :
    settling.Stable fun s => (s.symbol id).isFunction = false :=
  fun _ _ h hid => Bool.eq_false_iff.mpr fun hf => Bool.eq_false_iff.mp hid (h.gone id hf)

lemma stable_listed (name : String) (id : Id) :
    settling.Stable fun s => id ∈ s.named name ∧ 3 ≤ (s.symbol id).flavor.specificity :=
  fun _ _ h hs => ⟨h.named name id hs.1 hs.2,
    hs.2.trans (h.symbol id (State.lt_of_specific hs.2)).2.2.2.2⟩

lemma does_collapseFrom_of_mem {label : String} (hlabel : label ∈ blockLabels) (rounds : Nat)
    (id : Id) : settling.Does (fun s => id ∈ s.named label) (collapseFrom label (rounds + 1) 0)
      fun _ s => (s.symbol id).isFunction = false := by
  rw [collapseFrom]
  refine Does.bind_of (does_get.gives fun s s' _ h => ⟨h.1 ▸ h.2, h.1⟩)
    fun s hid => ?_
  split
  · rename_i hnil
    rw [drop_zero] at hnil
    rw [hnil] at hid
    cases hid
  · have hall := does_forM_of_mem (stable_labels (fun _ _ h => h)
      ((s.named label).drop 0)) (stable_not_isFunction id)
      (fun i hi => (collapse_settles i).given fun _ _ h => h i hi) hid
      ((does_collapse id).given fun _ _ h => h id hid)
    refine (hall.given ?_).bind fun _ => ?_
    · rintro s' hs rfl
      exact hs.labels hlabel 0
    · refine ((collapseFrom_settles hlabel rounds _).frame (stable_not_isFunction id)).imp ?_ ?_
      · exact fun _ _ h => ⟨trivial, h⟩
      · exact fun _ _ _ h => h.2

lemma does_collapseBlocks_of_mem {label : String} (hlabel : label ∈ blockLabels) (id : Id) :
    settling.Does (fun s => id ∈ s.named label ∧ 3 ≤ (s.symbol id).flavor.specificity)
      collapseBlocks fun _ s => (s.symbol id).isFunction = false := by
  have hpre := stable_listed label id
  refine Does.bind_of (does_get.gives fun s s' _ h => ⟨h.1 ▸ h.2.1, h.2⟩)
    fun s hid => ?_
  refine does_forM_of_mem hpre (stable_not_isFunction id) (a := label) ?_ ?_ ?_
  · intro other hother
    have hother := contains_iff_mem.mp (mem_filter.mp hother).2
    exact does_get.bind fun s' => (collapseFrom_settles hother _ 0).any
  · refine mem_filter.mpr ⟨?_, contains_iff_mem.mpr hlabel⟩
    rw [State.named] at hid
    cases hget : Assoc.get? label s.table with
    | none =>
      rw [hget] at hid
      cases hid
    | some ids => exact mem_map_of_mem (Assoc.mem_of_get? hget)
  · exact does_get.bind fun s' => (does_collapseFrom_of_mem hlabel _ id).imp
      (fun _ _ h => h.2.1) fun _ _ _ h => h

/-! ## Everything -/

lemma does_settle : settling.Does (fun _ => True) settle fun _ _ => True :=
  does_expandWild.bind fun _ => does_resolveImports.bind fun _ => does_contractMissing.bind fun _ =>
    (does_of_leads leads_cullInherited).bind fun _ =>
      does_collapseBlocks (fun _ _ h => h) (fun _ h => h) collapse_settles

lemma does_settle_of_mem {label : String} (hlabel : label ∈ blockLabels) (id : Id) :
    settling.Does (fun s => id ∈ s.named label ∧ 3 ≤ (s.symbol id).flavor.specificity)
      settle fun _ s => (s.symbol id).isFunction = false := by
  have hpre := stable_listed label id
  refine Does.after hpre does_expandWild.any fun _ => ?_
  refine Does.after hpre does_resolveImports.any fun _ => ?_
  refine Does.after hpre does_contractMissing.any fun _ => ?_
  refine Does.after hpre (does_of_leads leads_cullInherited) fun _ => ?_
  exact does_collapseBlocks_of_mem hlabel id

end Docsmith.Calls

