import Docsmith.Proofs.Inventory
import Docsmith.Proofs.Uses

/-! # Uses of anonymous blocks

What anonymous blocks use is handed to what is around them, by their labels and then by their age.
So what a nested block uses is handed outwards as long as the blocks around it come later
(`Handing.mem`), and no further (`Handing.of_mem`): from a block in another one of the same kind it
gets to the other block and not to the function around both. -/

namespace Docsmith.Calls

open List

/-! ## What is around a block -/

namespace State

def around (s : State) (id : Id) : Option (String × String) :=
  (s.symbol id).space.map fun space =>
    let parts := Text.splitOn "." space
    (Text.join "." parts.dropLast, parts.getLast?.getD "")

def StandsIn (s : State) (id outer : Id) : Prop :=
  ∃ e, s.around id = some e ∧ outer ∈ s.named e.2 ∧ (s.symbol outer).space = some e.1

def FoundAround (s : State) (id outer : Id) : Prop :=
  ∃ e, s.around id = some e ∧ e.2 ≠ "" ∧ s.find? (some e.1) e.2 = some outer

def blocks (s : State) : List Id :=
  ((s.table.map Prod.fst).filter blockLabels.contains).flatMap s.named

end State

/-- Leads from a symbol over those around it to another one. -/
inductive Outwards (r : Id → Id → Prop) : Id → List Id → Id → Prop
  | here (a : Id) : Outwards r a [] a
  | out {b c a : Id} {bs : List Id} (h : r b c) (hrest : Outwards r c bs a) : Outwards r b (b :: bs) a

section Outwards

variable {r r' : Id → Id → Prop} {a b c : Id} {bs bs' : List Id}

lemma Outwards.mono (hr : ∀ b c, r b c → r' b c) (h : Outwards r c bs a) : Outwards r' c bs a := by
  induction h with
  | here a => exact .here a
  | out h _ ih => exact .out (hr _ _ h) ih

lemma Outwards.append (h : Outwards r c bs b) (h' : Outwards r b bs' a) :
    Outwards r c (bs ++ bs') a := by
  induction h with
  | here a => exact h'
  | out h _ ih => exact .out h (ih h')

lemma Outwards.split (h : Outwards r c (bs ++ bs') a) :
    ∃ b, Outwards r c bs b ∧ Outwards r b bs' a := by
  induction bs generalizing c with
  | nil => exact ⟨c, .here c, h⟩
  | cons b bs ih =>
    cases h with
    | out h hrest =>
      obtain ⟨b', hfirst, hlast⟩ := ih hrest
      exact ⟨b', .out h hfirst, hlast⟩

end Outwards

/-! ## Growing tables -/

structure Enlarges (s s' : State) : Prop where
  before : s.Titled
  after : s'.Titled
  size : s.symbols.size ≤ s'.symbols.size
  space : ∀ i < s.symbols.size, (s'.symbol i).space = (s.symbol i).space
  named : ∀ name, ∃ new, s'.named name = s.named name ++ new ∧ ∀ i ∈ new, s.symbols.size ≤ i

namespace Enlarges

variable {s s' s'' : State} {i outer t : Id}

lemma refl (hs : s.Titled) : Enlarges s s :=
  ⟨hs, hs, Nat.le_refl _, fun _ _ => rfl, fun _ => ⟨[], by simp⟩⟩

lemma trans (h : Enlarges s s') (h' : Enlarges s' s'') : Enlarges s s'' where
  before := h.before
  after := h'.after
  size := h.size.trans h'.size
  space := fun i hi => (h'.space i (hi.trans_le h.size)).trans (h.space i hi)
  named := by
    intro name
    obtain ⟨new, hnew, hle⟩ := h.named name
    obtain ⟨newer, hnewer, hle'⟩ := h'.named name
    refine ⟨new ++ newer, by rw [hnewer, hnew, append_assoc], fun i hi => ?_⟩
    exact (mem_append.mp hi).elim (hle i) fun hi => h.size.trans (hle' i hi)

lemma push (hs : s.Titled) (x : Symbol) : Enlarges s (s.push x) where
  before := hs
  after := hs.push x
  size := by simp
  space := fun i hi => by rw [s.symbol_push_of_lt x hi]
  named := by
    intro name
    rw [State.named_push]
    split
    · exact ⟨[s.symbols.size], rfl, by simp⟩
    · exact ⟨[], by simp⟩

lemma undefine (hs : s.Titled) (uses : Edges) (id : Id) :
    Enlarges s (State.alter { s with uses } id Symbol.undefined) where
  before := hs
  after := State.Titled.alter hs fun _ => rfl
  size := by simp
  space := fun i _ =>
    State.symbol_alter_congr { s with uses } Symbol.space id Symbol.undefined (fun _ => rfl) i
  named := fun name => ⟨[], (append_nil (s.named name)).symm, by simp⟩

lemma lt_of_space {space : String} (h : (s.symbol i).space = some space) : i < s.symbols.size :=
  State.lt_of_symbol (P := (·.space = some space)) h nofun

lemma not_isWild (h : Enlarges s s') (ht : (s.symbol t).isWild = false) :
    (s'.symbol t).isWild = false := by
  obtain ⟨space, hspace⟩ := Option.isSome_iff_exists.mp (Option.isNone_eq_false_iff.mp ht)
  rw [Symbol.isWild, h.space t (lt_of_space hspace)]
  exact ht

lemma around (h : Enlarges s s') {e : String × String} (he : s.around i = some e) :
    s'.around i = some e := by
  obtain ⟨space, hspace, -⟩ := Option.map_eq_some_iff.mp he
  rw [State.around, h.space i (lt_of_space hspace)]
  exact he

lemma standsIn (h : Enlarges s s') (hi : s.StandsIn i outer) : s'.StandsIn i outer := by
  obtain ⟨e, he, hmem, hspace⟩ := hi
  obtain ⟨new, hnew, -⟩ := h.named e.2
  refine ⟨e, h.around he, hnew ▸ mem_append_left new hmem, ?_⟩
  rw [h.space outer (lt_of_space hspace)]
  exact hspace

lemma foundAround (h : Enlarges s s') (hi : s.FoundAround i outer) : s'.FoundAround i outer := by
  obtain ⟨e, he, hne, hfind⟩ := hi
  obtain ⟨new, hnew, -⟩ := h.named e.2
  refine ⟨e, h.around he, hne, ?_⟩
  have hold : (s.named e.2).find? (fun id => (s'.symbol id).space == some e.1)
      = s.find? (some e.1) e.2 := by
    refine find?_congr fun id hid => ?_
    have hlt : id < s.symbols.size := State.lt_of_name (h.before e.2 hne id hid ▸ hne)
    rw [h.space id hlt]
  rw [State.find?, hnew, find?_append, hold, hfind, Option.some_or]

end Enlarges

/-! ## Handing on -/

structure Handing (s s' : State) (ps : List Id) : Prop extends Enlarges s s' where
  mem : ∀ {c bs a t}, (s.symbol t).isWild = false → t ∈ s.uses.targets c →
    Outwards s.FoundAround c bs a → bs.Sublist ps → t ∈ s'.uses.targets a
  of_mem : ∀ {a t}, t ∈ s'.uses.targets a →
    ∃ c bs, t ∈ s.uses.targets c ∧ Outwards s'.StandsIn c bs a ∧ bs.Sublist ps

namespace Handing

variable {s s' s'' : State} {ps qs : List Id}

lemma refl (hs : s.Titled) : Handing s s [] where
  toEnlarges := .refl hs
  mem := by
    intro c bs a t _ ht hout hbs
    obtain rfl := sublist_nil.mp hbs
    cases hout with
    | here => exact ht
  of_mem := fun {a _} ht => ⟨a, [], ht, .here a, nil_sublist _⟩

lemma trans (h : Handing s s' ps) (h' : Handing s' s'' qs) : Handing s s'' (ps ++ qs) where
  toEnlarges := h.toEnlarges.trans h'.toEnlarges
  mem := by
    intro c bs a t hwild ht hout hbs
    obtain ⟨bs₁, bs₂, rfl, hbs₁, hbs₂⟩ := sublist_append_iff.mp hbs
    obtain ⟨b, hfirst, hlast⟩ := hout.split
    have hmid := h.mem hwild ht hfirst hbs₁
    exact h'.mem (h.not_isWild hwild) hmid (hlast.mono fun _ _ => h.foundAround) hbs₂
  of_mem := by
    intro a t ht
    obtain ⟨b, bs₂, ht, hlast, hbs₂⟩ := h'.of_mem ht
    obtain ⟨c, bs₁, ht, hfirst, hbs₁⟩ := h.of_mem ht
    exact ⟨c, bs₁ ++ bs₂, ht, (hfirst.mono fun _ _ => h'.standsIn).append hlast,
      hbs₁.append hbs₂⟩

end Handing

section Collapse

variable {s s' : State}

lemma parentOf_run (id : Id) (s : State) : (parentOf id).run.run s = match s.around id with
    | none => (.error .noSpace, s)
    | some e => (symbolFor (some e.1) e.2 none .unspecified).run.run s := by
  rw [parentOf, run_bind_of_ok (symbolOf_run id s), State.around]
  cases (s.symbol id).space with
  | none | some space => rfl

lemma parentOf_ok {id outer : Id} (hs : s.Titled)
    (hrun : (parentOf id).run.run s = (.ok outer, s')) :
    Enlarges s s' ∧ s'.uses = s.uses ∧ s'.StandsIn id outer ∧ ∀ c, s.FoundAround id c → outer = c := by
  rw [parentOf_run] at hrun
  cases he : s.around id with
  | none =>
    rw [he] at hrun
    cases hrun
  | some e =>
    rw [he] at hrun
    dsimp only at hrun
    rcases symbolFor_run (some e.1) e.2 none .unspecified s with ⟨i, hfind, hold⟩ | ⟨hfind, hnew⟩
    · have hraise : s.raise i .unspecified = s := if_neg (Nat.not_lt_zero _)
      rw [hold] at hrun
      obtain ⟨hi, rfl⟩ := Prod.mk.inj hrun
      obtain rfl := Except.ok.inj hi
      refine ⟨.refl hs, rfl, ⟨e, he, State.find?_some hfind⟩, ?_⟩
      rintro c ⟨e', he', -, hc⟩
      obtain rfl := Option.some.inj (he.symm.trans he')
      exact Option.some.inj (hfind.symm.trans hc)
    · rw [hnew] at hrun
      obtain ⟨hi, rfl⟩ := Prod.mk.inj hrun
      obtain rfl := Except.ok.inj hi
      have hpush := Enlarges.push hs (s.fresh (some e.1) e.2 none .unspecified)
      refine ⟨hpush, rfl, ⟨e, hpush.around he, ?_, ?_⟩, ?_⟩
      · rw [State.named_push, State.fresh, if_pos rfl]
        exact mem_append_right _ (mem_singleton_self _)
      · rw [State.symbol_push_size]
        rfl
      · rintro c ⟨e', he', -, hc⟩
        obtain rfl := Option.some.inj (he.symm.trans he')
        cases hfind.symm.trans hc

lemma collapse_ok {id : Id} (hs : s.Titled) (hrun : (collapse id).run.run s = (.ok (), s')) :
    Handing s s' [id] := by
  obtain ⟨outer, s₁, hparent, hrun⟩ := run_bind_ok.mp hrun
  obtain ⟨hlarger, huses, hin, hfound⟩ := parentOf_ok hs hparent
  rw [run_get_bind] at hrun
  obtain ⟨⟨⟩, s₂, hadd, halter⟩ := run_bind_ok.mp hrun
  have hpairs : addAllUses ((s₁.uses.targets id).map (outer, ·))
      = (s₁.uses.targets id).forM (addUses outer) := forM_map
  rw [← hpairs] at hadd
  have hjoins := addAllUses_ok hadd
  have hnew : ∀ c t, (c, t) ∈ (s₁.uses.targets id).map (outer, ·) ↔
      c = outer ∧ t ∈ s.uses.targets id := by
    intro c t
    rw [huses]
    simp [eq_comm, and_comm]
  obtain ⟨uses, rfl⟩ := hjoins.rest
  obtain ⟨-, rfl⟩ := Prod.mk.inj halter
  have hlast : Enlarges s₁ (State.alter { s₁ with uses } id Symbol.undefined) :=
    .undefine hlarger.after uses id
  refine ⟨hlarger.trans hlast, fun {c bs a t} ht hmem hout hbs => ?_, fun {a t} ht => ?_⟩
  · refine hjoins.mem (hlarger.not_isWild ht) ?_
    rw [hnew, huses]
    cases hout with
    | here => exact Or.inl hmem
    | out h hrest =>
      rcases sublist_singleton.mp hbs with hnil | hsingle
      · cases hnil
      · obtain ⟨rfl, rfl⟩ := cons_eq_cons.mp hsingle
        cases hrest with
        | here => exact Or.inr ⟨(hfound _ h).symm, hmem⟩
  · rcases hjoins.of_mem ht with ht | ht
    · exact ⟨a, [], huses ▸ ht, .here a, nil_sublist _⟩
    · obtain ⟨rfl, hmem⟩ := (hnew a t).mp ht
      exact ⟨id, [id], hmem, .out (hlast.standsIn hin) (.here a), List.Sublist.refl _⟩

lemma collapseAll_ok {todo : List Id} (hs : s.Titled)
    (hrun : (todo.forM collapse).run.run s = (.ok (), s')) : Handing s s' todo := by
  induction todo generalizing s with
  | nil =>
    obtain ⟨-, rfl⟩ := Prod.mk.inj hrun
    exact .refl hs
  | cons id todo ih =>
    obtain ⟨⟨⟩, s₁, hfirst, hrest⟩ := run_bind_ok.mp hrun
    have hone := collapse_ok hs hfirst
    exact hone.trans (ih hone.after hrest)

lemma collapseFrom_succ_ok {label : String} {rounds done : Nat} (hs : s.Titled)
    (hrun : (collapseFrom label (rounds + 1) done).run.run s = (.ok (), s')) :
    ∃ s₁ done', Handing s s₁ ((s.named label).drop done) ∧ (s' = s₁ ∨
      (∀ i ∈ (s₁.named label).drop done', s.symbols.size ≤ i) ∧
        (collapseFrom label rounds done').run.run s₁ = (.ok (), s')) := by
  rw [collapseFrom, run_get_bind] at hrun
  cases htodo : (s.named label).drop done with
  | nil =>
    rw [htodo] at hrun
    obtain ⟨-, rfl⟩ := Prod.mk.inj hrun
    exact ⟨s, done, .refl hs, Or.inl rfl⟩
  | cons id todo =>
    rw [htodo] at hrun
    obtain ⟨⟨⟩, s₁, hall, hrest⟩ := run_bind_ok.mp hrun
    have hhanding := collapseAll_ok hs hall
    obtain ⟨new, hnew, hle⟩ := hhanding.named label
    have hlength := congrArg List.length htodo
    rw [length_drop, length_cons] at hlength
    have hend : done + (id :: todo).length = (s.named label).length := by
      rw [length_cons]
      omega
    refine ⟨s₁, _, hhanding, Or.inr ⟨?_, hrest⟩⟩
    rw [hend, hnew, drop_left]
    exact hle

lemma collapseFrom_ok {label : String} {rounds done n : Nat} (hs : s.Titled)
    (hsize : n ≤ s.symbols.size) (hnew : ∀ i ∈ (s.named label).drop done, n ≤ i)
    (hrun : (collapseFrom label rounds done).run.run s = (.ok (), s')) :
    ∃ ps, Handing s s' ps ∧ ∀ i ∈ ps, n ≤ i := by
  induction rounds generalizing s done with
  | zero =>
    obtain ⟨-, rfl⟩ := Prod.mk.inj hrun
    exact ⟨[], .refl hs, by simp⟩
  | succ rounds ih =>
    obtain ⟨s₁, done', hone, rfl | ⟨hleft, hrest⟩⟩ := collapseFrom_succ_ok hs hrun
    · exact ⟨_, hone, hnew⟩
    · obtain ⟨ps, hmore, hps⟩ :=
        ih hone.after (hsize.trans hone.size) (fun i hi => hsize.trans (hleft i hi)) hrest
      exact ⟨_, hone.trans hmore, fun i hi => (mem_append.mp hi).elim (hnew i) (hps i)⟩

lemma collapseLabel_ok {label : String} {rounds : Nat} (hs : s.Titled)
    (hrun : (collapseFrom label (rounds + 1) 0).run.run s = (.ok (), s')) :
    ∃ new, Handing s s' (s.named label ++ new) ∧ ∀ i ∈ new, s.symbols.size ≤ i := by
  obtain ⟨s₁, done', hone, rfl | ⟨hleft, hrest⟩⟩ := collapseFrom_succ_ok hs hrun
  · exact ⟨[], by simpa using hone, by simp⟩
  · obtain ⟨new, hmore, hnew⟩ := collapseFrom_ok hone.after hone.size hleft hrest
    exact ⟨new, hone.trans hmore, hnew⟩

lemma filter_append_new {old new : List Id} {n : Nat} (hold : ∀ i ∈ old, i < n)
    (hnew : ∀ i ∈ new, n ≤ i) : (old ++ new).filter (· < n) = old := by
  have hnone : new.filter (· < n) = [] := by simpa using hnew
  rw [filter_append, hnone, append_nil, List.filter_eq_self]
  exact fun i hi => decide_eq_true (hold i hi)

lemma collapseLabels_ok {labels : List String} {s₁ : State} {ps : List Id}
    (hlabels : ∀ label ∈ labels, label ≠ "") (h : Handing s s₁ ps)
    (hrun : (labels.forM fun name => do
      collapseFrom name ((← get).nesting name + 2) 0 : Visit PUnit).run.run s₁ = (.ok (), s')) :
    ∃ qs, Handing s s' (ps ++ qs) ∧
      qs.filter (· < s.symbols.size) = labels.flatMap s.named := by
  induction labels generalizing s₁ ps with
  | nil =>
    obtain ⟨-, rfl⟩ := Prod.mk.inj hrun
    exact ⟨[], by simpa using h, rfl⟩
  | cons label labels ih =>
    obtain ⟨hlabel, hlabels⟩ := forall_mem_cons.mp hlabels
    obtain ⟨⟨⟩, s₂, hone, hrest⟩ := run_bind_ok.mp hrun
    obtain ⟨new, hnew, hle⟩ := h.named label
    obtain ⟨newer, hmore, hle'⟩ := collapseLabel_ok h.after hone
    obtain ⟨qs, hall, hqs⟩ := ih hlabels (h.trans hmore) hrest
    refine ⟨s₁.named label ++ newer ++ qs, by simpa using hall, ?_⟩
    have hold : ∀ i ∈ s.named label, i < s.symbols.size :=
      fun i hi => State.lt_of_name (h.before label hlabel i hi ▸ hlabel)
    have hlabel : ∀ i ∈ new ++ newer, s.symbols.size ≤ i :=
      fun i hi => (mem_append.mp hi).elim (hle i) fun hi => h.size.trans (hle' i hi)
    rw [filter_append, hqs, hnew, append_assoc, filter_append_new hold hlabel,
      flatMap_cons]

lemma collapseBlocks_ok (hs : s.Titled) (hrun : collapseBlocks.run.run s = (.ok (), s')) :
    ∃ ps, Handing s s' ps ∧ ps.filter (· < s.symbols.size) = s.blocks := by
  rw [collapseBlocks] at hrun
  refine collapseLabels_ok (fun label hlabel => ?_) (.refl hs) hrun
  have hmem := contains_iff_mem.mp (mem_filter.mp hlabel).2
  rintro rfl
  exact absurd hmem (by decide)

end Collapse

/-! ## Analyses -/

/-- An analysis up to the point at which anonymous blocks are collapsed. -/
def Program.gather (p : Program) (files : List String) : Visit Unit := do
  files.forM (visitFile p)
  findLines
  files.forM (visitFile p)
  expandWild
  resolveImports
  contractMissing
  cullInherited

lemma gather_of_analyse {p : Program} {files : List String} {s : State}
    (hproper : ∀ text source, p.parse text = some source → Tree.allProper source.body = true)
    (h : analyse p files none = .ok s) :
    ∃ s₀ s₁, start p files none = .ok s₀ ∧ (p.gather files).run.run s₀ = (.ok (), s₁) ∧
      s₁.Titled ∧ collapseBlocks.run.run s₁ = (.ok (), s) := by
  obtain ⟨s₃, hvisited, hsettle⟩ := analyse_ok_iff.mp h
  have hdocumented := documented_of_visited hproper hvisited
  obtain ⟨s₀, s₁, s₂, hstart, hfirst, hlines, hsecond⟩ := hvisited
  obtain ⟨⟨⟩, s₄, hexpand, hsettle⟩ := run_bind_ok.mp hsettle
  obtain ⟨⟨⟩, s₅, hresolve, hsettle⟩ := run_bind_ok.mp hsettle
  obtain ⟨⟨⟩, s₆, hcontract, hsettle⟩ := run_bind_ok.mp hsettle
  obtain ⟨⟨⟩, s₇, hcull, hcollapse⟩ := run_bind_ok.mp hsettle
  have hgather : (do expandWild; resolveImports; contractMissing; cullInherited : Visit Unit).run.run s₃
      = (.ok (), s₇) := by
    rw [run_bind_of_ok hexpand, run_bind_of_ok hresolve, run_bind_of_ok hcontract]
    exact hcull
  have hdoes : settling.Does (fun _ => True)
      (do expandWild; resolveImports; contractMissing; cullInherited : Visit Unit) fun _ _ => True :=
    does_expandWild.bind fun _ => does_resolveImports.bind fun _ => does_contractMissing.bind fun _ =>
      does_of_leads leads_cullInherited
  obtain ⟨r, s', hrun, htitled, -⟩ := hdoes s₃ hdocumented.indexed.titled trivial
  obtain ⟨-, rfl⟩ := Prod.mk.inj (hgather.symm.trans hrun)
  refine ⟨s₀, s₇, hstart, ?_, htitled, hcollapse⟩
  rw [Program.gather, run_bind_of_ok hfirst, run_bind_of_ok hlines, run_bind_of_ok hsecond]
  exact hgather

/-- What an anonymous block uses is in the end used by everything to which the order of the blocks
hands it, and by nothing else. -/
theorem analyse_handing {p : Program} {files : List String} {s : State}
    (hproper : ∀ text source, p.parse text = some source → Tree.allProper source.body = true)
    (h : analyse p files none = .ok s) :
    ∃ s₀ s₁, start p files none = .ok s₀ ∧ (p.gather files).run.run s₀ = (.ok (), s₁) ∧
      (∀ c bs a t, (s₁.symbol t).isWild = false → t ∈ s₁.uses.targets c →
        Outwards s₁.FoundAround c bs a → bs.Sublist s₁.blocks → t ∈ s.uses.targets a) ∧
      ∀ a t, t ∈ s.uses.targets a → ∃ c bs, t ∈ s₁.uses.targets c ∧ Outwards s.StandsIn c bs a ∧
        (bs.filter (· < s₁.symbols.size)).Sublist s₁.blocks := by
  obtain ⟨s₀, s₁, hstart, hgather, htitled, hcollapse⟩ := gather_of_analyse hproper h
  obtain ⟨ps, hhanding, hps⟩ := collapseBlocks_ok htitled hcollapse
  refine ⟨s₀, s₁, hstart, hgather, fun c bs a t hwild ht hout hbs => ?_, fun a t ht => ?_⟩
  · rw [← hps] at hbs
    exact hhanding.mem hwild ht hout (hbs.trans List.filter_sublist)
  · obtain ⟨c, bs, ht, hout, hbs⟩ := hhanding.of_mem ht
    exact ⟨c, bs, ht, hout, hps ▸ hbs.filter _⟩

/-- A module with functions `h` and `f`, of which the latter returns a value. -/
def returning (text : String) (blocks : List Block) (value : Tree) : Program where
  folder := .folder "res" (.file "m.py" (.text text) .empty) .empty
  parse := fun _ => some {
    block := .mk "top" ["h", "f"] [.mk "h" [] [], .mk "f" [] blocks]
    body := [.function { name := "h", span := ⟨1, 0, 2, 8⟩ } [] [] [],
      .function { name := "f", span := ⟨3, 0, 4, 30⟩ } [] [] [.group [value]]] }

def single : Program :=
  returning "def h():\n    pass\ndef f():\n    return lambda: h()\n" [.mk "lambda" ["h"] []]
    (.lambda {} [] (.call (.name "h" .load) [] []))

theorem analyse_handing_single : ∃ s f h, analyse single ["res/m.py"] none = .ok s ∧
    s.find? (some "m") "f" = some f ∧ s.find? (some "m") "h" = some h ∧ h ∈ s.uses.targets f := by
  have hproper : ∀ text source, single.parse text = some source →
      Tree.allProper source.body = true := by
    rintro text source h
    obtain rfl := Option.some.inj h
    decide
  have hview : (analyse single ["res/m.py"] none).toOption.map (fun s =>
      (s.find? (some "m") "f", s.find? (some "m") "h")) = some (some 3, some 1) := by decide +kernel
  have hgathered : (start single ["res/m.py"] none).toOption.any (fun s₀ =>
      let s₁ := ((single.gather ["res/m.py"]).run.run s₀).2
      !(s₁.symbol 1).isWild && s₁.uses.targets 5 == [1] && s₁.around 5 == some ("m", "f")
        && s₁.find? (some "m") "f" == some 3 && s₁.blocks == [5]) = true := by
    decide +kernel
  cases hs : analyse single ["res/m.py"] none with
  | error e =>
    rw [hs] at hview
    cases hview
  | ok s =>
    obtain ⟨s₀, s₁, hstart, hgather, hmem, -⟩ := analyse_handing hproper hs
    rw [hs] at hview
    rw [hstart] at hgathered
    simp only [Except.toOption, Option.map_some, Option.some.injEq, Prod.mk.injEq] at hview
    simp only [Except.toOption, Option.any_some, hgather, Bool.and_eq_true, Bool.not_eq_true',
      beq_iff_eq] at hgathered
    obtain ⟨⟨⟨⟨hwild, huses⟩, haround⟩, hfind⟩, hblocks⟩ := hgathered
    have hout : Outwards s₁.FoundAround 5 [5] 3 := .out ⟨_, haround, by decide, hfind⟩ (.here 3)
    exact ⟨s, 3, 1, rfl, hview.1, hview.2,
      hmem 5 [5] 3 1 hwild (by simp [huses]) hout (by simp [hblocks])⟩

def double : Program :=
  returning "def h():\n    pass\ndef f():\n    return lambda: lambda: h()\n"
    [.mk "lambda" [] [.mk "lambda" ["h"] []]]
    (.lambda {} [] (.lambda {} [] (.call (.name "h" .load) [] [])))

/-- What a block in a block of the same kind uses is not used by the function around both. -/
theorem double_not_handed : ∃ s f h, analyse double ["res/m.py"] none = .ok s ∧
    s.find? (some "m") "f" = some f ∧ s.find? (some "m") "h" = some h ∧ h ∉ s.uses.targets f := by
  have hview : (analyse double ["res/m.py"] none).toOption.map (fun s =>
      (s.find? (some "m") "f", s.find? (some "m") "h", s.uses.targets 3))
      = some (some 3, some 1, []) := by decide +kernel
  cases hs : analyse double ["res/m.py"] none with
  | error e =>
    rw [hs] at hview
    cases hview
  | ok s =>
    rw [hs] at hview
    simp only [Except.toOption, Option.map_some, Option.some.injEq, Prod.mk.injEq] at hview
    exact ⟨s, 3, 1, rfl, hview.1, hview.2.1, by simp [hview.2.2]⟩

end Docsmith.Calls

