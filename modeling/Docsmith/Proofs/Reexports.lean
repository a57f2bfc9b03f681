import Docsmith.Proofs.Analysable
import Docsmith.Proofs.ChainVisits

/-! # Calls of functions that modules hand on

When a chain of modules is settled, every import of `g` gives way to the symbol that its module
imports, which is one step of the chain (`Whole.settled`). So the call in the first module reaches
the function if at most one module stands between, and is lost in a longer chain
(`callGraph_chain`). -/

namespace Docsmith.Calls

open Rules List

/-! ## A chain that was visited -/

structure Whole (c : Chain) (s : State) : Prop extends Chained c s where
  told : ∀ m ∈ c.modules, c.Told s m
  definer : ∃ d, s.find? (some c.last) "g" = some d ∧ (s.symbol d).flavor = .function ∧
    (s.symbol d).defined = true

section Whole

variable {c : Chain} {s : State} {a b b' i : Id} {m next : String}

lemma Chained.find_inj (hs : Chained c s) {space space' name name' : String}
    (h : s.find? (some space) name = some i) (h' : s.find? (some space') name' = some i) :
    space = space' ∧ name = name' := by
  obtain ⟨-, hspace, hname⟩ := hs.indexed.lt_of_find? h
  obtain ⟨-, hspace', hname'⟩ := hs.indexed.lt_of_find? h'
  exact ⟨Option.some.inj (hspace.symm.trans hspace'), hname.symm.trans hname'⟩

lemma Chained.use_of_module (hs : Chained c s) (hi : s.find? (some "") m = some i)
    (hb : b ∈ s.uses.targets i) : ∃ next, (m, next) ∈ c.links ∧ s.find? (some next) "g" = some b := by
  obtain ⟨m', next, hlink, hnext, hi' | ⟨-, hi'⟩⟩ := hs.uses i b hb
  · rw [(hs.find_inj hi hi').2]
    exact ⟨next, hlink, hnext⟩
  · exact absurd (hs.find_inj hi hi').1.symm (c.named c.first mem_cons_self).1

lemma Chained.use_of_caller (hs : Chained c s) (ha : s.find? (some c.first) "f" = some a)
    (hb : b ∈ s.uses.targets a) :
    ∃ next, (c.first, next) ∈ c.links ∧ s.find? (some next) "g" = some b := by
  obtain ⟨m, next, hlink, hnext, ha' | ⟨rfl, -⟩⟩ := hs.uses a b hb
  · exact absurd (hs.find_inj ha ha').1 (c.named c.first mem_cons_self).1
  · exact ⟨next, hlink, hnext⟩

lemma Chained.use_unique (hs : Chained c s) (hb : b ∈ s.uses.targets a)
    (hb' : b' ∈ s.uses.targets a) : b = b' := by
  have hsame : ∀ {m next next'}, (m, next) ∈ c.links → (m, next') ∈ c.links →
      s.find? (some next) "g" = some b → s.find? (some next') "g" = some b' → b = b' := by
    intro m next next' hlink hlink' hnext hnext'
    obtain rfl := Chain.link_unique hlink hlink'
    exact Option.some.inj (hnext.symm.trans hnext')
  obtain ⟨m, next, hlink, hnext, ha | ⟨rfl, ha⟩⟩ := hs.uses a b hb
  · obtain ⟨next', hlink', hnext'⟩ := hs.use_of_module ha hb'
    exact hsame hlink hlink' hnext hnext'
  · obtain ⟨next', hlink', hnext'⟩ := hs.use_of_caller ha hb'
    exact hsame hlink hlink' hnext hnext'

lemma Chained.targets_g (hs : Chained c s) (hm : m ≠ "") (hb : s.find? (some m) "g" = some b) :
    s.uses.targets b = [] := by
  refine eq_nil_iff_forall_not_mem.mpr fun t ht => ?_
  obtain ⟨m', next, -, -, hb' | ⟨-, hb'⟩⟩ := hs.uses b t ht
  · exact hm (hs.find_inj hb hb').1
  · exact absurd (hs.find_inj hb hb').2 (by decide)

lemma Whole.of_imported (hs : Whole c s) (hi : i < s.symbols.size)
    (hflavor : (s.symbol i).flavor = .imported) :
    ∃ m ∈ c.between, (s.symbol i).space = some m ∧ (s.symbol i).name = "g" := by
  obtain ⟨d, hd, hfunction, -⟩ := hs.definer
  obtain ⟨space, hspace, hrole⟩ := hs.role i hi
  have hfound := hs.indexed.found i hi trivial
  rw [hspace] at hfound
  rw [hflavor] at hrole
  generalize hname : (s.symbol i).name = name at hrole hfound ⊢
  generalize (s.symbol i).defined = defined at hrole
  cases hrole with
  | imported hm =>
    rcases mem_append.mp hm with hm | hm
    · exact ⟨space, hm, hspace, rfl⟩
    · rw [mem_singleton.mp hm, hd] at hfound
      rw [Option.some.inj hfound, hflavor] at hfunction
      cases hfunction

lemma Chained.imported_of_between (hs : Chained c s) (hm : m ∈ c.between)
    (hb : s.find? (some m) "g" = some b) : (s.symbol b).flavor = .imported := by
  have hne : m ≠ "" := (c.named m (mem_cons_of_mem _ (mem_append_left _ hm))).1
  rcases (hs.role_of_find? hb).flavor_g hne with ⟨-, hflavor, -⟩ | ⟨hlast, -⟩
  · exact hflavor
  · exact absurd (hlast ▸ hm) Chain.last_not_between

lemma Chained.not_attribute (hs : Chained c s) (i : Id) : (s.symbol i).flavor ≠ .attribute := by
  rcases Nat.lt_or_ge i s.symbols.size with hi | hi
  · obtain ⟨space, -, hrole⟩ := hs.role i hi
    exact hrole.not_attribute
  · rw [State.symbol_of_size_le hi]
    decide

lemma Chained.name_not_label (hs : Chained c s) (i : Id) : (s.symbol i).name ∉ blockLabels := by
  rcases Nat.lt_or_ge i s.symbols.size with hi | hi
  · obtain ⟨space, -, hrole⟩ := hs.role i hi
    exact hrole.not_label
  · rw [State.symbol_of_size_le hi]
    decide

/-! ## Settling -/

def State.importOf? (s : State) (id : Id) : Option Id :=
  ((s.symbol id).space.bind fun m => s.find? (some "") m).bind fun module =>
    (s.uses.targets module).find? fun c => (s.symbol c).name == (s.symbol id).name

lemma Whole.importOf?_eq (hs : Whole c s) (hm : m ∈ c.between) (hlink : (m, next) ∈ c.links)
    (hb : s.find? (some m) "g" = some b) (hb' : s.find? (some next) "g" = some b') :
    s.importOf? b = some b' := by
  obtain ⟨i, t, hi, ht, huse, -⟩ :=
    hs.told m (mem_cons_of_mem _ (mem_append_left _ hm)) next hlink
  obtain rfl := Option.some.inj (ht.symm.trans hb')
  obtain ⟨-, hspace, hname⟩ := hs.indexed.lt_of_find? hb
  obtain ⟨-, -, hname'⟩ := hs.indexed.lt_of_find? ht
  rw [State.importOf?, hspace, Option.bind_some, hi, Option.bind_some, hname]
  cases hfind : (s.uses.targets i).find? fun c => (s.symbol c).name == "g" with
  | none =>
    rw [find?_eq_none] at hfind
    exact absurd (beq_iff_eq.mpr hname') (hfind t huse)
  | some x => exact congrArg some (hs.use_unique (mem_of_find?_eq_some hfind) huse)

/-- The next step of a chain: an import stands for that of the next module, and the function for
itself. -/
structure Chain.Steps (c : Chain) (s : State) (f : Id → Id) : Prop where
  passed : ∀ {m next b b'}, m ∈ c.between → (m, next) ∈ c.links → s.find? (some m) "g" = some b →
    s.find? (some next) "g" = some b' → f b = b'
  kept : ∀ {b}, s.find? (some c.last) "g" = some b → f b = b

lemma State.of_mem_imports {id : Id} (hid : id ∈ s.imports) :
    id < s.symbols.size ∧ (s.symbol id).flavor = .imported := by
  have hflavor : (s.symbol id).flavor = .imported := beq_iff_eq.mp (mem_filter.mp hid).2
  exact ⟨State.lt_of_symbol (P := (·.flavor = .imported)) hflavor nofun, hflavor⟩

lemma Whole.importTarget_ok (hs : Whole c s) {id : Id} (hid : id ∈ s.imports) {r : Option Id}
    {s' : State} (hrun : (importTarget id).run.run s = (.ok r, s')) :
    r = s.importOf? id ∧ s' = s ∧ Assoc.get? id s.uses = none := by
  obtain ⟨hlt, hflavor⟩ := State.of_mem_imports hid
  obtain ⟨m, hm, hspace, hname⟩ := hs.of_imported hlt hflavor
  have hmodule := mem_cons_of_mem c.first (mem_append_left [c.last] hm)
  have hne : m ≠ "" := (c.named m hmodule).1
  have hfound := hs.indexed.found id hlt trivial
  rw [hspace, hname] at hfound
  obtain ⟨next, hlink⟩ := Chain.exists_link (mem_cons_of_mem _ hm)
  obtain ⟨i, -, hi, -⟩ := hs.told m hmodule next hlink
  obtain ⟨hr, hsame, hnone⟩ := Calls.importTarget_ok (hs.targets_g hne hfound) hspace hne hi hrun
  refine ⟨?_, hsame, hnone⟩
  rw [hr, State.importOf?, hspace, Option.bind_some, hi, Option.bind_some]

lemma Whole.resolveImports {s₁ : State} (hs : Whole c s)
    (hrun : resolveImports.run.run s = (.ok (), s₁)) :
    ∃ f, s₁ = s.renamed f ∧ c.Steps s f ∧
      ∀ a t, t ∈ s₁.uses.targets a ↔ ∃ b ∈ s.uses.targets a, f b = t := by
  obtain ⟨hfree, f, rfl, hf⟩ := resolveImports_ok (fun _ hid _ _ htarget => hs.importTarget_ok hid htarget)
    (fun id _ => hs.not_attribute id) hrun
  refine ⟨f, rfl, ⟨fun {m next b b'} hm hlink hb hb' => ?_, fun {b} hb => ?_⟩, ?_⟩
  · have hmem : b ∈ s.imports := by
      refine mem_filter.mpr ⟨?_, beq_iff_eq.mpr (hs.imported_of_between hm hb)⟩
      exact mem_eraseDups.mpr (State.mem_table_of_named (State.find?_some hb).1)
    rw [hf, if_pos hmem, hs.importOf?_eq hm hlink hb hb']
    rfl
  · obtain ⟨d, hd, hflavor, -⟩ := hs.definer
    obtain rfl := Option.some.inj (hd.symm.trans hb)
    refine (hf d).trans (if_neg fun hmem => ?_)
    rw [(State.of_mem_imports hmem).2] at hflavor
    cases hflavor
  · refine Edges.mem_targets_rename hs.keyed fun e he => ?_
    refine (hf e.1).trans (if_neg fun hmem => ?_)
    have hnone := hfree e.1 hmem
    rw [Assoc.get?_of_mem hs.keyed he] at hnone
    cases hnone

/-- Every use has made one step of the chain, and those of what is no definition are dropped. -/
structure Passes (c : Chain) (s s' : State) (f : Id → Id) : Prop extends c.Steps s f where
  symbol : ∀ i < s.symbols.size, s'.symbol i = s.symbol i
  keyed : s'.uses.Keyed
  of_use : ∀ {a t}, t < s.symbols.size → t ∈ s'.uses.targets a → ∃ b ∈ s.uses.targets a, f b = t
  use : ∀ {a b}, b ∈ s.uses.targets a → (s.symbol (f b)).defined = true → f b ∈ s'.uses.targets a

lemma Chained.cullInherited_run (hs : Chained c s) {s' : State} {f : Id → Id} (hkeyed : s'.uses.Keyed)
    (hfrom : ∀ a t, (s'.symbol t).isWild = false → t ∈ s'.uses.targets a →
      ∃ b ∈ s.uses.targets a, f b = t) : cullInherited.run.run s' = (.ok (), s') := by
  refine Calls.cullInherited_run fun e he b hb t ht => Bool.eq_false_iff.mpr fun hrivals => ?_
  simp only [rivals, Bool.and_eq_true, Bool.not_eq_true', bne_iff_ne] at hrivals
  obtain ⟨⟨⟨-, hb'⟩, ht'⟩, hspace⟩ := hrivals
  rw [← hkeyed.targets_of_mem he] at hb ht
  obtain ⟨b₀, hb₀, rfl⟩ := hfrom e.1 b hb' hb
  obtain ⟨t₀, ht₀, rfl⟩ := hfrom e.1 t ht' ht
  rw [hs.use_unique hb₀ ht₀] at hspace
  exact hspace rfl

lemma Whole.settle (hs : Whole c s) (hsound : Sound s) :
    ∃ s' f, settle.run.run s = (.ok (), s') ∧ Calm s' ∧ Passes c s s' f := by
  have hbeyond : ∀ {i}, s.symbols.size ≤ i → (s.symbol i).defined = false := by
    intro i hi
    rw [State.symbol_of_size_le hi]
  have hwild : ∀ i, (s.symbol i).isWild = true → (s.symbol i).defined = false := by
    intro i hi
    rcases Nat.lt_or_ge i s.symbols.size with hlt | hge
    · rw [hs.not_isWild hlt] at hi
      cases hi
    · exact hbeyond hge
  have hexpand : expandWild.run.run s = (.ok (), s) :=
    expandWild_run (fun i hi => hs.not_isWild hi) fun e he t ht =>
      ((hsound.stored.uses e he).2.2 t ht).lt
  obtain ⟨s₁, hresolve, hcalm₁, hknown⟩ := resolveImports_goes hsound hwild
  obtain ⟨f, rfl, hsteps, htargets⟩ := hs.resolveImports hresolve
  obtain ⟨⟨⟩, s₂, hcontract, hcalm₂, -⟩ := contractMissing_calms.run (fun _ h => h) hcalm₁ hknown
  have hcontracts := contractMissing_ok hcontract
  have hkeyed : s₂.uses.Keyed := hcontracts.keyed (Edges.Keyed.rename f)
  have hcull : cullInherited.run.run s₂ = (.ok (), s₂) :=
    hs.cullInherited_run hkeyed fun a t ht hmem =>
      (htargets a t).mp (hcontracts.fewer a t ((hcontracts.wild t).symm.trans ht) hmem)
  have hcollapse : collapseBlocks.run.run s₂ = (.ok (), s₂) := by
    refine collapseBlocks_run fun label hlabel => eq_nil_iff_forall_not_mem.mpr fun i hi => ?_
    have hname := (hcalm₂.indexed.named hi).2
    exact hcontracts.name (fun j => hs.name_not_label j) i (hname ▸ hlabel)
  refine ⟨s₂, f, ?_, hcalm₂, hsteps, fun i hi => ?_, hkeyed, fun {a t} ht hmem => ?_,
    fun {a b} hb hdefined => ?_⟩
  · rw [Calls.settle, run_bind_of_ok hexpand, run_bind_of_ok hresolve, run_bind_of_ok hcontract,
      run_bind_of_ok hcull]
    exact hcollapse
  · exact hcontracts.kept i (hs.not_isWild hi)
  · exact (htargets a t).mp (hcontracts.fewer a t (hs.not_isWild ht) hmem)
  · have hlt : f b < s.symbols.size := by
      rcases Nat.lt_or_ge (f b) s.symbols.size with hlt | hge
      · exact hlt
      · rw [hbeyond hge] at hdefined
        cases hdefined
    exact hcontracts.uses a (f b) (hs.not_isWild hlt) hdefined ((htargets a _).mpr ⟨b, hb, rfl⟩)

/-! ## The call -/

lemma Chain.Steps.reaches_iff {f : Id → Id} {d : Id} (hf : c.Steps s f) (hs : Whole c s)
    (hd : s.find? (some c.last) "g" = some d) (hlink : (c.first, next) ∈ c.links)
    (hb : s.find? (some next) "g" = some b) : f b = d ↔ c.between.length ≤ 1 := by
  have hlinks : c.links = (c.first :: c.between).zip (c.between ++ [c.last]) := Chain.links_eq
  cases hbetween : c.between with
  | nil =>
    -- the module itself imports the function
    have hlast : (c.first, c.last) ∈ c.links := by
      rw [hlinks, hbetween]
      exact mem_cons_self
    obtain rfl := Chain.link_unique hlink hlast
    obtain rfl := Option.some.inj (hb.symm.trans hd)
    exact ⟨fun _ => Nat.zero_le 1, fun _ => hf.kept hd⟩
  | cons m ms =>
    have hfirst : (c.first, m) ∈ c.links := by
      rw [hlinks, hbetween]
      exact mem_cons_self
    obtain rfl := Chain.link_unique hlink hfirst
    have hm : next ∈ c.between := hbetween ▸ mem_cons_self
    cases ms with
    | nil =>
      -- one step leads from the import to the function
      have hlast : (next, c.last) ∈ c.links := by
        rw [hlinks, hbetween]
        exact mem_cons_of_mem _ mem_cons_self
      exact ⟨fun _ => Nat.le_refl 1, fun _ => hf.passed hm hlast hb hd⟩
    | cons m' ms =>
      -- one step leads to another import
      have hsecond : (next, m') ∈ c.links := by
        rw [hlinks, hbetween]
        exact mem_cons_of_mem _ mem_cons_self
      obtain ⟨-, b', -, hb', -⟩ :=
        hs.told next (mem_cons_of_mem _ (mem_append_left _ hm)) m' hsecond
      refine ⟨fun hreaches => ?_, fun hle => absurd hle (by simp)⟩
      rw [hf.passed hm hsecond hb hb'] at hreaches
      have hlast : m' = c.last := (hs.find_inj hb' (hreaches ▸ hd)).1
      have hm' : m' ∈ c.between := hbetween ▸ mem_cons_of_mem _ mem_cons_self
      exact absurd (hlast ▸ hm') Chain.last_not_between

end Whole

/-! ## Definitions of a chain -/

def Chain.IsFunction (c : Chain) (space name : String) : Prop :=
  (space = c.first ∧ name = "f") ∨ (space = c.last ∧ name = "g")

section Definitions

variable {c : Chain} {m space name : String} {source : Source} {d : Made}

lemma blockName_singleton (m : String) : blockName [m] = m := by
  rw [blockName, qualified]
  exact if_pos rfl

lemma made_callerOf (next : String) (span : Span) (file m : String) :
    (callerOf next span).made file m = [⟨"", m, { kind := "Module" }, file⟩,
      ⟨m, "f", .ofHead { name := "f", span }, file⟩] := by
  simp [Source.made, callerOf, fetch, Tree.allMade, Tree.made, blockName_singleton]

lemma made_passerOf (next file m : String) :
    (passerOf next).made file m = [⟨"", m, { kind := "Module" }, file⟩] := by
  simp [Source.made, passerOf, fetch, Tree.allMade, Tree.made]

lemma made_definerOf (span : Span) (file m : String) :
    (definerOf span).made file m = [⟨"", m, { kind := "Module" }, file⟩,
      ⟨m, "g", .ofHead { name := "g", span }, file⟩] := by
  simp [Source.made, definerOf, Tree.allMade, Tree.made, blockName_singleton]

lemma Chain.Has.of_mem_made (h : c.Has m source) {file : String} (hd : d ∈ source.made file m) :
    (d.space = "" ∧ d.origin.isFunction = false) ∨
      (d.origin.isFunction = true ∧ c.IsFunction d.space d.name) := by
  cases h with
  | caller span hlink =>
    rw [made_callerOf, mem_cons, mem_singleton] at hd
    rcases hd with rfl | rfl
    · exact Or.inl ⟨rfl, rfl⟩
    · exact Or.inr ⟨rfl, Or.inl ⟨rfl, rfl⟩⟩
  | passer hm hlink =>
    rw [made_passerOf, mem_singleton] at hd
    subst hd
    exact Or.inl ⟨rfl, rfl⟩
  | definer span =>
    rw [made_definerOf, mem_cons, mem_singleton] at hd
    rcases hd with rfl | rfl
    · exact Or.inl ⟨rfl, rfl⟩
    · exact Or.inr ⟨rfl, Or.inr ⟨rfl, rfl⟩⟩

lemma Chain.Has.exists_made (h : c.Has m source) (hname : c.IsFunction m name) (file : String) :
    ∃ d ∈ source.made file m, d.space = m ∧ d.name = name := by
  cases h with
  | caller span hlink =>
    rcases hname with ⟨-, rfl⟩ | ⟨hlast, -⟩
    · rw [made_callerOf]
      exact ⟨_, mem_cons_of_mem _ mem_cons_self, rfl, rfl⟩
    · exact absurd hlast Chain.first_ne_last
  | passer hm hlink =>
    rcases hname with ⟨rfl, -⟩ | ⟨rfl, -⟩
    · exact absurd (mem_append_left _ hm) Chain.first_not_source
    · exact absurd hm Chain.last_not_between
  | definer span =>
    rcases hname with ⟨hfirst, -⟩ | ⟨-, rfl⟩
    · exact absurd hfirst.symm Chain.first_ne_last
    · rw [made_definerOf]
      exact ⟨_, mem_cons_of_mem _ mem_cons_self, rfl, rfl⟩

lemma exists_latest {ds : List Made} (hd : d ∈ ds) : ∃ d', latest ds d.space d.name = some d' := by
  have hmem : d ∈ ds.filter fun e => e.space = d.space ∧ e.name = d.name :=
    mem_filter.mpr ⟨hd, decide_eq_true ⟨rfl, rfl⟩⟩
  exact ⟨_, getLast?_eq_some_getLast (ne_nil_of_mem hmem)⟩

variable {p : Program} {files : List String}

lemma Program.Reads.made_eq {file : String} (h : p.Reads file m source) :
    p.made file = source.made file m := by
  obtain ⟨hmodule, text, htext, hparse⟩ := h
  rw [Program.made, htext]
  simp only [bind, Except.bind, hmodule, hparse]
  rfl

section Files

variable (hread : ∀ file ∈ files, ∃ m source, p.Reads file m source ∧ c.Has m source)

include hread

lemma Chain.of_mem_files (hd : d ∈ files.flatMap p.made) :
    (d.space = "" ∧ d.origin.isFunction = false) ∨
      (d.origin.isFunction = true ∧ c.IsFunction d.space d.name) := by
  obtain ⟨file, hfile, hd⟩ := mem_flatMap.mp hd
  obtain ⟨m, source, hreads, hhas⟩ := hread file hfile
  rw [hreads.made_eq] at hd
  exact hhas.of_mem_made hd

lemma Chain.exists_stands (hall : ∀ m ∈ c.modules, ∃ file ∈ files, moduleName p.folder file = .ok m)
    (h : c.IsFunction space name) :
    ∃ d : Made, d.Stands (files.flatMap p.made) ∧ d.space = space ∧ d.name = name := by
  have hspace : space ∈ c.modules := by
    rcases h with ⟨rfl, -⟩ | ⟨rfl, -⟩
    · exact mem_cons_self
    · exact Chain.mem_modules_of_source Chain.last_mem
  obtain ⟨file, hfile, hmodule⟩ := hall space hspace
  obtain ⟨m, source, hreads, hhas⟩ := hread file hfile
  obtain rfl := Except.ok.inj (hreads.named.symm.trans hmodule)
  obtain ⟨d, hd, rfl, rfl⟩ := hhas.exists_made h file
  rw [← hreads.made_eq] at hd
  obtain ⟨d', hd'⟩ := exists_latest (mem_flatMap.mpr ⟨file, hfile, hd⟩)
  obtain ⟨hmem, hspace', hname'⟩ := of_latest hd'
  refine ⟨d', ⟨by rw [hspace', hname']; exact hd', ?_, ?_⟩, hspace', hname'⟩
  · rcases Chain.of_mem_files hread hmem with ⟨hempty, -⟩ | ⟨hfunction, -⟩
    · exact absurd (hspace'.symm.trans hempty) (c.named _ hspace).1
    · exact hfunction
  · rw [hname']
    rcases h with ⟨-, hname⟩ | ⟨-, hname⟩
    · rw [hname]
      decide
    · rw [hname]
      decide

lemma Chain.isFunction_settled {s s' : State}
    (hall : ∀ m ∈ c.modules, ∃ file ∈ files, moduleName p.folder file = .ok m)
    (hs : Documented (files.flatMap p.made) s) (hrun : settle.run.run s = (.ok (), s')) (id : Id) :
    (s'.symbol id).isFunction = true ↔
      ∃ space name, c.IsFunction space name ∧ s.find? (some space) name = some id := by
  refine (Calls.isFunction_settled hs hrun).trans ⟨?_, ?_⟩
  · rintro ⟨d, hstands, hheld⟩
    rcases Chain.of_mem_files hread (of_latest hstands.latest).1 with ⟨-, hno⟩ | ⟨-, hfunction⟩
    · rw [hstands.isFunction] at hno
      cases hno
    · exact ⟨d.space, d.name, hfunction, hheld.found⟩
  · rintro ⟨space, name, hfunction, hfind⟩
    obtain ⟨d, hstands, rfl, rfl⟩ := Chain.exists_stands hread hall hfunction
    obtain ⟨id', hheld⟩ := hs.held hstands.latest
    obtain rfl := Option.some.inj (hheld.found.symm.trans hfind)
    exact ⟨d, hstands, hheld⟩

end Files

end Definitions

/-! ## The call graph -/

section Graph

variable {c : Chain} {s s' : State} {f : Id → Id}

lemma Chain.names_ne (c : Chain) : c.first ++ "." ++ "f" ≠ c.last ++ "." ++ "g" := by
  intro h
  have hqualified : ∀ {m}, m ∈ c.modules → ∀ name, qualified m name = m ++ "." ++ name :=
    fun hm name => if_neg (c.named _ hm).1
  rw [← hqualified mem_cons_self, ← hqualified (Chain.mem_modules_of_source Chain.last_mem)] at h
  exact absurd (qualified_inj (by decide) (by decide) h).2 (by decide)

lemma Passes.invokes_iff (h : Passes c s s' f) (hs : Whole c s)
    (hfunction : ∀ id, (s'.symbol id).isFunction = true ↔
      ∃ space name, c.IsFunction space name ∧ s.find? (some space) name = some id)
    (e : String × String) : (∃ u ∈ s'.uses, ∃ t ∈ u.2, s'.Invokes u.1 t e) ↔
      e = (c.first ++ "." ++ "f", c.last ++ "." ++ "g") ∧ c.between.length ≤ 1 := by
  have hlast : c.last ∈ c.modules := Chain.mem_modules_of_source Chain.last_mem
  have hname : ∀ {m name id}, m ∈ c.modules → s.find? (some m) name = some id →
      (s'.symbol id).fullName = m ++ "." ++ name := by
    intro m name id hm hfind
    rw [h.symbol id (hs.indexed.lt_of_find? hfind).1]
    exact (hs.fullName hfind).trans (if_neg (c.named m hm).1)
  constructor
  · rintro ⟨u, hu, t, ht, hsource, htarget, hne, rfl⟩
    rw [← h.keyed.targets_of_mem hu] at ht
    obtain ⟨space, name, hcaller, hfind⟩ := (hfunction u.1).mp hsource
    obtain ⟨space', name', hcalled, hfind'⟩ := (hfunction t).mp htarget
    obtain ⟨b, hb, hstep⟩ := h.of_use (hs.indexed.lt_of_find? hfind').1 ht
    rcases hcaller with ⟨rfl, rfl⟩ | ⟨rfl, rfl⟩
    · rcases hcalled with ⟨rfl, rfl⟩ | ⟨rfl, rfl⟩
      · exact absurd ((hname mem_cons_self hfind').trans (hname mem_cons_self hfind).symm) hne
      · obtain ⟨next, hlink, hnext⟩ := hs.use_of_caller hfind hb
        refine ⟨?_, (h.reaches_iff hs hfind' hlink hnext).mp hstep⟩
        rw [hname mem_cons_self hfind, hname hlast hfind']
    · rw [hs.targets_g (c.named c.last hlast).1 hfind] at hb
      cases hb
  · rintro ⟨rfl, hle⟩
    obtain ⟨d, hd, -, hdefined⟩ := hs.definer
    obtain ⟨next, hlink⟩ := Chain.exists_link mem_cons_self
    obtain ⟨-, b, -, hnext, -, hcaller⟩ := hs.told c.first mem_cons_self next hlink
    obtain ⟨a, ha, hab⟩ := hcaller rfl
    have hstep : f b = d := (h.reaches_iff hs hd hlink hnext).mpr hle
    have huse := h.use hab (hstep ▸ hdefined)
    rw [hstep] at huse
    obtain ⟨u, hu, rfl, hmem⟩ := Edges.exists_of_mem_targets huse
    refine ⟨u, hu, d, hmem, (hfunction _).mpr ⟨_, _, Or.inl ⟨rfl, rfl⟩, ha⟩,
      (hfunction d).mpr ⟨_, _, Or.inr ⟨rfl, rfl⟩, hd⟩, ?_, ?_⟩
    · rw [hname mem_cons_self ha, hname hlast hd]
      exact c.names_ne.symm
    · rw [hname mem_cons_self ha, hname hlast hd]

end Graph

lemma whole_of_visited {c : Chain} {p : Program} {files : List String} {s : State}
    (hproper : ∀ text source, p.parse text = some source → Tree.allProper source.body = true)
    (hread : ∀ file ∈ files, ∃ m source, p.Reads file m source ∧ c.Has m source)
    (hall : ∀ m ∈ c.modules, ∃ file ∈ files, moduleName p.folder file = .ok m)
    (h : p.Visited files s) : Whole c s := by
  obtain ⟨hs, htold⟩ := chained_visited hread h
  have hdocumented := documented_of_visited hproper h
  refine ⟨hs, fun m hm => ?_, ?_⟩
  · obtain ⟨file, hfile, hmodule⟩ := hall m hm
    exact htold file hfile m hmodule
  · obtain ⟨d, hstands, hspace, hname⟩ := Chain.exists_stands hread hall (Or.inr ⟨rfl, rfl⟩)
    obtain ⟨id, hheld⟩ := hdocumented.held hstands.latest
    have hfind := hheld.found
    rw [hspace, hname] at hfind
    refine ⟨id, hfind, ?_, hheld.defined hstands.isFunction⟩
    have hlast := (c.named c.last (Chain.mem_modules_of_source Chain.last_mem)).1
    rcases (hs.role_of_find? hfind).flavor_g hlast with ⟨-, hflavor, -⟩ | ⟨-, hflavor⟩
    · have hspecific := hheld.specific
      rw [hflavor] at hspecific
      exact absurd hspecific (by decide)
    · exact hflavor

/-- **Calls of a function that modules hand on.** In a program whose files are the modules of a
chain there is a call from `f` in the first module to `g` in the last one exactly if at most one
module stands between the two, and there is no other call. -/
theorem callGraph_chain {p : Program} {top : String} {files : List String} (c : Chain)
    (hproper : ∀ text source, p.parse text = some source → Tree.allProper source.body = true)
    (hfiles : programs p.folder top = .ok files)
    (hread : ∀ file ∈ files, ∃ m source, p.Reads file m source ∧ c.Has m source)
    (hall : ∀ m ∈ c.modules, ∃ file ∈ files, moduleName p.folder file = .ok m) :
    ∃ g, callGraph p top = .ok g ∧ ∀ e, e ∈ g.graph.edges ↔
      e = (c.first ++ "." ++ "f", c.last ++ "." ++ "g") ∧ c.between.length ≤ 1 := by
  have hsafe : ∀ file ∈ files, ∃ m source, p.Reads file m source ∧ source.Safe m := by
    intro file hfile
    obtain ⟨m, source, hreads, hhas⟩ := hread file hfile
    exact ⟨m, source, hreads, hhas.safe⟩
  obtain ⟨s, hvisited, hsound⟩ := exists_visited hsafe
  have hdocumented := documented_of_visited hproper hvisited
  have hwhole : Whole c s := whole_of_visited hproper hread hall hvisited
  obtain ⟨s', f, hsettle, hcalm, hpasses⟩ := hwhole.settle hsound
  have hanalyse : analyse p files none = .ok s' := analyse_ok_iff.mpr ⟨s, hvisited, hsettle⟩
  obtain ⟨g, hg⟩ := catalog_of_analysed hproper hanalyse hcalm top
  have hcatalogs := catalogs_of_run hg
  have hedges : ∀ e, e ∈ g.graph.edges ↔
      e = (c.first ++ "." ++ "f", c.last ++ "." ++ "g") ∧ c.between.length ≤ 1 := fun e =>
    (hcatalogs.edges e).trans (hpasses.invokes_iff hwhole
      (Chain.isFunction_settled hread hall hdocumented hsettle) e)
  refine ⟨_, callGraph_ok_iff.mpr ⟨files, s', g, hfiles, hanalyse, hg, rfl⟩, fun e => ?_⟩
  have hfreed := Digraph.freed_acyclic hcatalogs.lists.closed
  refine ⟨fun he => (hedges e).mp (hfreed.edges e.1 e.2 he), fun he => ?_⟩
  refine hfreed.kept e.1 e.2 ((hedges e).mpr he) ?_
  -- the call is on no cycle, because nothing is called by `g`
  rintro ⟨-, hback⟩
  obtain ⟨rfl, -⟩ := he
  rcases Relation.ReflTransGen.cases_head hback with heq | ⟨x, hedge, -⟩
  · exact c.names_ne heq.symm
  · exact c.names_ne (congrArg Prod.fst ((hedges _).mp hedge).1).symm

/-! ## A short and a long chain -/

def parseRelay (text : String) : Option Source :=
  Assoc.get? text [("from m1 import g\ndef f():\n    g()\n", callerOf "m1" ⟨2, 0, 3, 7⟩),
    ("from m2 import g\n", passerOf "m2"), ("from m3 import g\n", passerOf "m3"),
    ("def g():\n    pass\n", definerOf ⟨1, 0, 2, 8⟩)]

def relay : Program where
  folder := .folder "res" (.file "m0.py" (.text "from m1 import g\ndef f():\n    g()\n")
    (.file "m1.py" (.text "from m2 import g\n")
      (.file "m2.py" (.text "def g():\n    pass\n") .empty))) .empty
  parse := parseRelay

lemma programs_relay :
    programs relay.folder "res" = .ok ["res/m0.py", "res/m1.py", "res/m2.py"] :=
  programs_of_found (by rfl) (by decide)

def relayChain : Chain where
  first := "m0"
  between := ["m1"]
  last := "m2"
  nodup := by decide
  named := by decide
  apart := by decide

theorem callGraph_chain_relay :
    ∃ g, callGraph relay "res" = .ok g ∧ ∀ e, e ∈ g.graph.edges ↔ e = ("m0.f", "m2.g") := by
  have hproper : ∀ text source, relay.parse text = some source →
      Tree.allProper source.body = true := by
    intro text source h
    have hmem := Assoc.mem_of_get? h
    simp only [List.mem_cons, Prod.mk.injEq, List.not_mem_nil, or_false] at hmem
    rcases hmem with ⟨-, rfl⟩ | ⟨-, rfl⟩ | ⟨-, rfl⟩ | ⟨-, rfl⟩ <;> decide
  have hcaller : relay.Reads "res/m0.py" "m0" (callerOf "m1" ⟨2, 0, 3, 7⟩) :=
    ⟨by decide +kernel, _, rfl, rfl⟩
  have hpasser : relay.Reads "res/m1.py" "m1" (passerOf "m2") := ⟨by decide +kernel, _, rfl, rfl⟩
  have hdefiner : relay.Reads "res/m2.py" "m2" (definerOf ⟨1, 0, 2, 8⟩) :=
    ⟨by decide +kernel, _, rfl, rfl⟩
  have hread : ∀ file ∈ ["res/m0.py", "res/m1.py", "res/m2.py"], ∃ m source,
      relay.Reads file m source ∧ relayChain.Has m source := by
    intro file hfile
    simp only [List.mem_cons, List.not_mem_nil, or_false] at hfile
    rcases hfile with rfl | rfl | rfl
    · exact ⟨_, _, hcaller, .caller _ (by decide)⟩
    · exact ⟨_, _, hpasser, .passer (by decide) (by decide)⟩
    · exact ⟨_, _, hdefiner, .definer _⟩
  have hall : ∀ m ∈ relayChain.modules, ∃ file ∈ ["res/m0.py", "res/m1.py", "res/m2.py"],
      moduleName relay.folder file = .ok m := by
    intro m hm
    have hm : m ∈ ["m0", "m1", "m2"] := hm
    simp only [List.mem_cons, List.not_mem_nil, or_false] at hm
    rcases hm with rfl | rfl | rfl
    · exact ⟨_, by simp, hcaller.named⟩
    · exact ⟨_, by simp, hpasser.named⟩
    · exact ⟨_, by simp, hdefiner.named⟩
  obtain ⟨g, hg, hedges⟩ := callGraph_chain relayChain hproper programs_relay hread hall
  exact ⟨g, hg, fun e => (hedges e).trans (and_iff_left (by decide))⟩

def longRelay : Program where
  folder := .folder "res" (.file "m0.py" (.text "from m1 import g\ndef f():\n    g()\n")
    (.file "m1.py" (.text "from m2 import g\n")
      (.file "m2.py" (.text "from m3 import g\n")
        (.file "m3.py" (.text "def g():\n    pass\n") .empty)))) .empty
  parse := parseRelay

lemma programs_longRelay :
    programs longRelay.folder "res" = .ok ["res/m0.py", "res/m1.py", "res/m2.py", "res/m3.py"] :=
  programs_of_found (by rfl) (by decide)

lemma callGraph_longRelay : callGraph longRelay "res" = .ok {
    graph := Digraph.acyclic { nodes := ["m3.g", "m0.f"] }
    known := [("m3.g", { symbol := "m3.g", file := "m3.py", code := "def g():\n    pass" }),
      ("m0.f", { symbol := "m0.f", file := "m0.py", code := "def f():\n    g()" })] } :=
  callGraph_of_catalog programs_longRelay (by decide +kernel)

/-- A call of a function that two modules hand on is lost. -/
theorem longRelay_lost : ∃ g, callGraph longRelay "res" = .ok g ∧
    "m0.f" ∈ g.graph.nodes ∧ "m3.g" ∈ g.graph.nodes ∧ ("m0.f", "m3.g") ∉ g.graph.edges := by
  have hfreed := Digraph.freed_acyclic (g := { nodes := ["m3.g", "m0.f"] }) nofun
  refine ⟨_, callGraph_longRelay, ?_, ?_, fun hedge => ?_⟩
  · rw [hfreed.nodes]
    exact List.mem_cons_of_mem _ List.mem_cons_self
  · rw [hfreed.nodes]
    exact List.mem_cons_self
  · exact absurd (hfreed.edges _ _ hedge) List.not_mem_nil

end Docsmith.Calls

