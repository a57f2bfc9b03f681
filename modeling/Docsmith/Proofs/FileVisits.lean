import Docsmith.Proofs.Covered

/-! # Rounds that go well

A round visits file after file, and between two files no block is open (`Resting`). If every file is
covered by its own scopes, a round does not fail and leaves a sound state (`does_round`), from which
the lines of the classes can be found (`does_findLines`). -/

namespace Docsmith.Calls

open Rules List

/-! ## The scopes of a file -/

lemma Block.induct {P : Block → Prop}
    (mk : ∀ name names children, (∀ b ∈ children, P b) → P (.mk name names children))
    (b : Block) : P b := by
  refine @Block.rec P (fun bs => ∀ b ∈ bs, P b) mk ?_ ?_ b
  · exact fun b hb => absurd hb not_mem_nil
  · intro head tail hhead htail b hb
    rcases mem_cons.mp hb with rfl | hb
    · exact hhead
    · exact htail b hb

def Blank (scopes : List (String × Scope)) : Prop :=
  ∀ e ∈ scopes, ∀ v ∈ e.2, v.2 = none

lemma blank_blockScopes (b : Block) {outer : String} {scopes : List (String × Scope)}
    (h : Blank scopes) : Blank (blockScopes outer scopes b) := by
  induction b using Block.induct generalizing outer scopes with
  | mk name names children ih =>
    have hall : ∀ bs : List Block, (∀ b ∈ bs, b ∈ children) → ∀ {outer scopes}, Blank scopes →
        Blank (blocksScopes outer scopes bs) := by
      intro bs
      induction bs with
      | nil => exact fun _ _ _ h => h
      | cons b bs ihbs =>
        intro hmem outer scopes h
        rw [blocksScopes]
        exact ihbs (fun c hc => hmem c (mem_cons_of_mem _ hc)) (ih b (hmem b mem_cons_self) h)
    rw [blockScopes]
    refine hall children (fun _ hb => hb) fun e he v hv => ?_
    rcases Assoc.mem_of_mem_set he with rfl | he
    · obtain ⟨n, -, rfl⟩ := mem_map.mp (Assoc.mem_of_mem_ofList hv)
      rfl
    · exact h e he v hv

def joinScope (scopes : List (String × Scope)) (e : String × Scope) : List (String × Scope) :=
  match Assoc.get? e.1 scopes with
  | some old => Assoc.set e.1 (Scope.extend old e.2) scopes
  | none => scopes ++ [e]

variable {v : String × Option Id}

lemma Scope.of_mem_extend {old new : Scope} (h : v ∈ Scope.extend old new) :
    v ∈ old ∨ v ∈ new := by
  rw [Scope.extend] at h
  induction new generalizing old with
  | nil => exact Or.inl h
  | cons w new ih =>
    rw [foldl_cons] at h
    rcases ih h with h | h
    · dsimp only at h
      split at h
      · exact Or.inl h
      · rcases mem_append.mp h with h | h
        · exact Or.inl h
        · exact Or.inr (mem_singleton.mp h ▸ mem_cons_self)
    · exact Or.inr (mem_cons_of_mem _ h)

section Scopes

variable {scopes new : List (String × Scope)} {e : String × Scope}

lemma of_mem_joinScope (hblank : ∀ v ∈ e.2, v.2 = none) {d : String × Scope}
    (hd : d ∈ joinScope scopes e) (hv : v ∈ d.2) {i : Id} (hi : v.2 = some i) :
    ∃ d ∈ scopes, v ∈ d.2 := by
  rw [joinScope] at hd
  have hnew : v ∉ e.2 := fun hmem => by simp [hblank v hmem] at hi
  split at hd
  · rename_i old hold
    rcases Assoc.mem_of_mem_set hd with rfl | hd
    · exact ⟨_, Assoc.mem_of_get? hold, (Scope.of_mem_extend hv).resolve_right hnew⟩
    · exact ⟨d, hd, hv⟩
  · rcases mem_append.mp hd with hd | hd
    · exact ⟨d, hd, hv⟩
    · exact absurd (mem_singleton.mp hd ▸ hv) hnew

lemma isSome_joinScope (space : String) : (Assoc.get? space (joinScope scopes e)).isSome = true ↔
    space = e.1 ∨ (Assoc.get? space scopes).isSome = true := by
  rw [joinScope]
  split
  · rename_i old hold
    rw [Assoc.get?_set]
    split
    · rename_i hspace
      simp [hspace]
    · rename_i hspace
      simp [hspace]
  · rw [Assoc.get?_isSome_iff, Assoc.get?_isSome_iff]
    simp only [mem_append, mem_singleton, exists_or]
    rw [or_comm]
    refine or_congr ⟨?_, ?_⟩ Iff.rfl
    · rintro ⟨v, rfl⟩
      rfl
    · rintro rfl
      exact ⟨e.2, rfl⟩

lemma of_mem_joinScopes (hblank : Blank new) {d : String × Scope}
    (hd : d ∈ new.foldl joinScope scopes) (hv : v ∈ d.2) {i : Id} (hi : v.2 = some i) :
    ∃ d ∈ scopes, v ∈ d.2 := by
  induction new generalizing scopes with
  | nil => exact ⟨d, hd, hv⟩
  | cons e new ih =>
    obtain ⟨he, hnew⟩ := forall_mem_cons.mp hblank
    obtain ⟨d', hd', hv'⟩ := ih hnew hd
    exact of_mem_joinScope he hd' hv' hi

lemma isSome_joinScopes (space : String) :
    (Assoc.get? space (new.foldl joinScope scopes)).isSome = true ↔
      space ∈ new.map Prod.fst ∨ (Assoc.get? space scopes).isSome = true := by
  induction new generalizing scopes with
  | nil => simp
  | cons e new ih =>
    rw [foldl_cons, ih, isSome_joinScope, map_cons, mem_cons, ← or_assoc,
      or_comm (a := space ∈ new.map Prod.fst)]

end Scopes

def Source.spaces (source : Source) (module : String) : List String :=
  (blockScopes module [] source.block).map Prod.fst

section Opening

variable {s : State}

lemma Sound.opened (hs : Sound s) (file module : String) (source : Source) :
    Sound (s.opened file module source.block) ∧ Grows s (s.opened file module source.block) ∧
      ∀ space ∈ source.spaces module,
        ((s.opened file module source.block).scope? space).isSome = true := by
  have hblank : Blank (blockScopes module [] source.block) :=
    blank_blockScopes source.block fun e he => absurd he not_mem_nil
  have hscope : ∀ space, ((s.opened file module source.block).scope? space).isSome = true ↔
      space ∈ source.spaces module ∨ (s.scope? space).isSome = true :=
    isSome_joinScopes
  obtain ⟨h1, h2, h3, h4, h5, h6, h7⟩ := hs.stored
  refine and_assoc.mp ⟨hs.same ⟨h1, h2, h3, fun e he v hv i hi => ?_, h5, h6, h7⟩
    (fun space h => (hscope space).mpr (Or.inr h)) rfl rfl, fun space h => (hscope space).mpr (Or.inl h)⟩
  obtain ⟨d, hd, hv⟩ := of_mem_joinScopes hblank he hv hi
  exact h4 d hd v hv i hi

end Opening

/-! ## Modules -/

structure State.Resting (files : List String) (s : State) : Prop where
  path : s.path = []
  within : s.within = []
  files : s.files = files
  root : s.root = none

def rounds (files : List String) : Rules State where
  fit := fun s => Sound s ∧ s.Resting files
  leads := Grows
  fails := fun _ => False
  refl := Grows.refl
  trans := Grows.trans

lemma Keeps.files {s s' : State} (h : Keeps s s') : s'.files = s.files := by
  have hrest := congrArg State.files h.rest
  exact hrest

lemma Keeps.root {s s' : State} (h : Keeps s s') : s'.root = s.root := by
  have hrest := congrArg State.root h.rest
  exact hrest

lemma scopeOf_run {s : State} {space : String} {scope : Scope} (h : s.scope? space = some scope) :
    (scopeOf space).run.run s = (.ok scope, s) := by
  rw [scopeOf, run_get_bind, h]
  rfl

lemma visitModule_goes {s : State} {files spaces : List String} {body : List Tree} (hs : Sound s)
    (hrest : s.Resting files) (hname : s.module ≠ "") (hhere : s.module ∈ spaces)
    (hknown : ∀ space ∈ spaces, (s.scope? space).isSome = true)
    (hbody : ∀ t ∈ body, t.Goes spaces [s.module]) :
    ∃ s', (visitModule body).run.run s = (.ok (), s') ∧ Sound s' ∧ Grows s s' ∧ s'.Resting files := by
  have hfair : Fair (some "") s.module .module := fair_of_flavor _ _ (by decide) (by decide)
  have hfor : safely.Does _ _ _ := does_symbolFor hfair (some { kind := "Module" })
  obtain ⟨id, s₁, hrun₁, hs₁, hkeeps₁, hfind, hspecific⟩ := hfor.run (fun _ h => h) hs trivial
  obtain ⟨⟨⟩, s₂, hrun₂, hs₂, hkeeps₂, -⟩ :=
    (does_associate id { kind := "Module" }).run (fun _ h => h) hs₁ trivial
  have hkeeps : Keeps s s₂ := Keeps.trans hkeeps₁ hkeeps₂
  have hspaces : ∀ space ∈ spaces, (s₂.scope? space).isSome = true :=
    fun space hspace => hkeeps.scopes space (hknown space hspace)
  -- the module is opened
  obtain ⟨hs₃, hgrows₃⟩ := hs₂.moved [s.module] [s.module] (false :: s₂.inClass)
  have hat : State.At spaces [s.module]
      { s₂ with path := [s.module], within := [s.module], inClass := false :: s₂.inClass } := by
    refine ⟨rfl, cons_ne_nil _ _, ⟨⟨id, hkeeps₂.found hfind, ?_⟩, trivial⟩,
      ⟨s.module, rfl, hname⟩, hhere, hspaces⟩
    exact hkeeps₂.toGrows.solid (Or.inl hspecific)
  -- its programs are visited, and it is left
  obtain ⟨⟨⟩, s₄, hrun₄, hs₄, hkeeps₄, -⟩ := (does_visitAll hbody).run (fun _ h => h) hs₃ hat
  obtain ⟨hs₅, hgrows₅⟩ := hs₄.moved s₄.path.tail s₄.within.tail s₄.inClass.tail
  obtain ⟨⟨⟩, s₆, hrun₆, hs₆, hkeeps₆, -⟩ :=
    Does.run (does_setLast none) (fun _ h => h) hs₅ (State.knownIf_none _)
  have hs₆ : Sound s₆ := hs₆
  have hkeeps₆ : Keeps _ s₆ := hkeeps₆
  have hgrows : Grows s₁ s₆ := hkeeps₂.toGrows.trans
    (hgrows₃.trans (hkeeps₄.toGrows.trans (hgrows₅.trans hkeeps₆.toGrows)))
  have hid : id < s₆.symbols.size :=
    ((Sound.tidy hs₁).indexed.lt_of_find? hfind).1.trans_le hgrows.size
  obtain ⟨hs₇, hkeeps₇⟩ := hs₆.definedBy_none hid
  refine ⟨s₆.definedBy id none, ?_, hs₇, ?_, ?_⟩
  · obtain ⟨scope, hscope⟩ := Option.isSome_iff_exists.mp (hspaces _ hhere)
    have hpath : (modify fun t : State => { t with path := s.module :: t.path } : Visit PUnit).run.run s₂
        = (.ok (), { s₂ with path := [s.module] }) := by
      rw [← hrest.path, ← hkeeps.path]
      rfl
    have hfound : (scopeOf s.module).run.run { s₂ with path := [s.module] }
        = (.ok scope, { s₂ with path := [s.module] }) := scopeOf_run hscope
    have hwithin : (modify fun t : State => { t with
        within := s.module :: t.within, inClass := false :: t.inClass } : Visit PUnit).run.run
          { s₂ with path := [s.module] } = (.ok (), { s₂ with
            path := [s.module], within := [s.module], inClass := false :: s₂.inClass }) := by
      rw [← hrest.within, ← hkeeps.within]
      rfl
    have hleave : leaveBlock.run.run s₄ = (.ok (), { s₄ with
        path := s₄.path.tail, within := s₄.within.tail, inClass := s₄.inClass.tail }) := rfl
    rw [visitModule, run_get_bind, run_bind_of_ok hrun₁, run_bind_of_ok hrun₂,
      run_bind_of_ok hpath, run_bind_of_ok hfound, run_bind_of_ok hwithin, run_bind_of_ok hrun₄,
      run_bind_of_ok hleave, run_bind_of_ok hrun₆, addDefines_run]
  · exact Grows.trans (Keeps.toGrows hkeeps₁) (hgrows.trans hkeeps₇.toGrows)
  · refine ⟨?_, ?_, ?_, ?_⟩
    · rw [hkeeps₇.path, hkeeps₆.path]
      exact congrArg List.tail hkeeps₄.path
    · rw [hkeeps₇.within, hkeeps₆.within]
      exact congrArg List.tail hkeeps₄.within
    · rw [hkeeps₇.files, hkeeps₆.files]
      exact hkeeps₄.files.trans (hkeeps.files.trans hrest.files)
    · rw [hkeeps₇.root, hkeeps₆.root]
      exact hkeeps₄.root.trans (hkeeps.root.trans hrest.root)

/-! ## Files -/

structure Program.Reads (p : Program) (file module : String) (source : Source) : Prop where
  named : moduleName p.folder file = .ok module
  parsed : ∃ text, p.folder.readText file = .ok text ∧ p.parse text = some source

/-- A program is clear, and its own scopes cover its blocks. -/
structure Source.Safe (source : Source) (module : String) : Prop where
  named : module ≠ ""
  here : module ∈ source.spaces module
  clear : Tree.allClear source.body = true
  covered : Tree.allCovered (source.spaces module) [module] source.body = true

variable {p : Program} {files : List String}

lemma does_visitFile {file : String} (hfile : file ∈ files)
    (h : ∃ module source, p.Reads file module source ∧ source.Safe module) :
    (rounds files).Does (fun _ => True) (visitFile p file) fun _ _ => True := by
  obtain ⟨name, source, ⟨hmodule, text, htext, hparsed⟩, h⟩ := h
  refine does_of_run ?_
  rintro s ⟨hs, hrest⟩ -
  obtain ⟨hs₁, hgrows₁, hspaces⟩ := hs.opened file name source
  have hrest₁ : State.Resting files (s.opened file name source.block) :=
    ⟨hrest.path, hrest.within, hrest.files, hrest.root⟩
  have hclear := Tree.allClear_iff.mp h.clear
  have hcovered := Tree.allCovered_iff.mp h.covered
  obtain ⟨s₂, hrun, hs₂, hgrows₂, hrest₂⟩ := visitModule_goes hs₁ hrest₁ h.named h.here hspaces
    fun t ht => does_visit (hclear t ht) (hcovered t ht)
  have hname : p.nameOf s.root file = .ok name := by
    rw [hrest.root]
    exact hmodule
  obtain ⟨hs₃, hgrows₃⟩ : Sound s₂.closed ∧ Grows s₂ s₂.closed :=
    hs₂.same (hs₂.stored.congr rfl) (fun _ h => h) rfl rfl
  exact ⟨(), s₂.closed, visitFile_ok_iff.mpr ⟨hrest.files ▸ hfile, text, name, source, s₂, htext,
    hname, hparsed, hrun, rfl⟩, ⟨hs₃, hrest₂.path, hrest₂.within, hrest₂.files, hrest₂.root⟩,
    hgrows₁.trans (hgrows₂.trans hgrows₃), trivial⟩

lemma does_round (h : ∀ file ∈ files, ∃ module source, p.Reads file module source ∧ source.Safe module) :
    (rounds files).Does (fun _ => True) (files.forM (visitFile p)) fun _ _ => True :=
  does_forM_of_stable (fun _ _ _ _ => trivial) fun file hfile => does_visitFile hfile (h file hfile)

end Docsmith.Calls

/-! ## Lines of classes -/

namespace Docsmith.Calls.Lineage

open List

variable {α : Type} {P : α → Prop}

def Search.Of (P : α → Prop) (s : Search α) : Prop :=
  ∀ e ∈ s.known, ∀ a ∈ e.2, P a

variable {s : Search α}

lemma Search.Of.add (h : s.Of P) {a : α} {line : List α} (hline : ∀ b ∈ line, P b) :
    Search.Of P { s with known := (a, line) :: s.known } := by
  intro e he
  rcases mem_cons.mp he with rfl | he
  · exact hline
  · exact h e he

variable [DecidableEq α]

lemma mem_of_lookup {β : Type} {m : List (α × β)} {a : α} {v : β} (h : m.lookup a = some v) :
    (a, v) ∈ m := by
  obtain ⟨front, rest, rfl, -⟩ := lookup_eq_some_iff.mp h
  simp

lemma of_mem_merge? {lists : List (List α)} {line : List α} (h : merge? lists = some line) {a : α}
    (ha : a ∈ line) : ∃ l ∈ lists, a ∈ l := by
  fun_induction merge? lists generalizing line with
  | case1 lists b hb ih =>
    obtain ⟨rest, hrest, rfl⟩ := Option.map_eq_some_iff.mp h
    rcases mem_cons.mp ha with rfl | ha
    · exact mem_of_goodHead? hb
    · obtain ⟨l, hl, hal⟩ := ih hrest ha
      obtain ⟨l', hl', rfl⟩ := mem_map.mp hl
      exact ⟨l', hl', (mem_filter.mp hal).1⟩
  | case2 =>
    obtain rfl := Option.some.inj h
    cases ha
  | case3 => cases h

section Lines

variable {bases : List (α × List α)} (hbases : ∀ e ∈ bases, P e.1 ∧ ∀ b ∈ e.2, P b)

include hbases

lemma of_mem_parents {a b : α} (h : b ∈ (bases.lookup a).getD []) : P b := by
  cases hget : bases.lookup a with
  | none =>
    rw [hget] at h
    cases h
  | some parents =>
    rw [hget] at h
    exact (hbases _ (mem_of_lookup hget)).2 b h

omit hbases in
lemma mergedAll_of {depth : Nat}
    (hmerged : ∀ {a s r}, P a → s.Of P → merged bases depth a s = some r →
      (∀ i ∈ r.1, P i) ∧ r.2.Of P) {as : List α} (has : ∀ a ∈ as, P a) (hs : s.Of P)
    {r : List (List α) × Search α} (h : mergedAll bases depth as s = some r) :
    (∀ l ∈ r.1, ∀ i ∈ l, P i) ∧ r.2.Of P := by
  induction as generalizing s r with
  | nil =>
    rw [mergedAll] at h
    obtain rfl := Option.some.inj h
    exact ⟨fun l hl => absurd hl not_mem_nil, hs⟩
  | cons a as ih =>
    obtain ⟨ha, has⟩ := forall_mem_cons.mp has
    rw [mergedAll] at h
    split at h
    · exact ih has hs h
    · split at h
      · cases h
      · rename_i line s₁ hline
        obtain ⟨hfirst, hs₁⟩ := hmerged ha hs hline
        split at h
        · cases h
        · rename_i lines s₂ hlines
          obtain ⟨hrest, hs₂⟩ := ih has hs₁ hlines
          obtain rfl := Option.some.inj h
          exact ⟨forall_mem_cons.mpr ⟨hfirst, hrest⟩, hs₂⟩

lemma merged_of (depth : Nat) {a : α} (ha : P a) (hs : s.Of P) {r : List α × Search α}
    (h : merged bases depth a s = some r) : (∀ i ∈ r.1, P i) ∧ r.2.Of P := by
  induction depth generalizing a s r with
  | zero =>
    rw [merged] at h
    cases h
  | succ depth ih =>
    rw [merged] at h
    split at h
    · rename_i line hline
      obtain rfl := Option.some.inj h
      exact ⟨hs _ (mem_of_lookup hline), hs⟩
    · split at h
      · obtain rfl := Option.some.inj h
        have hself : ∀ i ∈ [a], P i := forall_mem_singleton.mpr ha
        exact ⟨hself, hs.add hself⟩
      · split at h
        · cases h
        · rename_i lists s₁ hlists
          obtain ⟨hin, hs₁⟩ := mergedAll_of (s := { s with seen := a :: s.seen })
            (fun ha hs h => ih ha hs h)
            (fun b hb => of_mem_parents hbases hb) hs hlists
          split at h
          · cases h
          · rename_i rest hrest
            obtain rfl := Option.some.inj h
            have hline : ∀ i ∈ a :: rest, P i := by
              refine forall_mem_cons.mpr ⟨ha, fun i hi => ?_⟩
              obtain ⟨l, hl, hil⟩ := of_mem_merge? hrest hi
              rcases mem_append.mp hl with hl | hl
              · exact hin l hl i hil
              · exact of_mem_parents hbases (mem_singleton.mp hl ▸ hil)
            exact ⟨hline, hs₁.add hline⟩

omit hbases in
lemma plainAll_of {depth : Nat} (hplain : ∀ {a s}, P a → s.Of P →
      (∀ i ∈ (plain bases depth a s).1, P i) ∧ (plain bases depth a s).2.Of P) {as : List α}
    (has : ∀ a ∈ as, P a) (hs : s.Of P) :
    (∀ i ∈ (plainAll bases depth as s).1, P i) ∧ (plainAll bases depth as s).2.Of P := by
  induction as generalizing s with
  | nil =>
    rw [plainAll]
    exact ⟨fun i hi => absurd hi not_mem_nil, hs⟩
  | cons a as ih =>
    obtain ⟨ha, has⟩ := forall_mem_cons.mp has
    rw [plainAll]
    split
    · exact ih has hs
    · obtain ⟨hfirst, hs₁⟩ := hplain ha hs
      obtain ⟨hrest, hs₂⟩ := ih has hs₁
      refine ⟨forall_mem_append.mpr ⟨forall_mem_cons.mpr ⟨ha, hfirst⟩, hrest⟩, hs₂⟩

lemma plain_of (depth : Nat) {a : α} (ha : P a) (hs : s.Of P) :
    (∀ i ∈ (plain bases depth a s).1, P i) ∧ (plain bases depth a s).2.Of P := by
  induction depth generalizing a s with
  | zero =>
    rw [plain]
    exact ⟨forall_mem_singleton.mpr ha, hs⟩
  | succ depth ih =>
    rw [plain]
    split
    · rename_i line hline
      exact ⟨hs _ (mem_of_lookup hline), hs⟩
    · obtain ⟨hrest, hs₁⟩ := plainAll_of (s := { s with seen := a :: s.seen })
        (ih) (fun b hb => of_mem_parents hbases hb) hs
      have hline := forall_mem_cons.mpr ⟨ha, hrest⟩
      exact ⟨hline, hs₁.add hline⟩

lemma mergedLines_of {classes : List α} (hclasses : ∀ a ∈ classes, P a)
    {known found : List (α × List α)} (hknown : ∀ e ∈ known, ∀ i ∈ e.2, P i)
    (h : mergedLines bases known classes = some found) : ∀ e ∈ found, ∀ i ∈ e.2, P i := by
  induction classes generalizing known found with
  | nil =>
    obtain rfl := Option.some.inj h
    exact fun e he => absurd he not_mem_nil
  | cons a classes ih =>
    obtain ⟨ha, hclasses⟩ := forall_mem_cons.mp hclasses
    rw [mergedLines] at h
    split at h
    · cases h
    · rename_i line s hline
      obtain ⟨hfirst, hs⟩ := merged_of hbases _ ha (s := { known := known }) hknown hline
      obtain ⟨rest, hrest, rfl⟩ := Option.map_eq_some_iff.mp h
      exact forall_mem_cons.mpr ⟨hfirst, ih hclasses hs hrest⟩

lemma plainLines_of {classes : List α} (hclasses : ∀ a ∈ classes, P a)
    {known : List (α × List α)} (hknown : ∀ e ∈ known, ∀ i ∈ e.2, P i) :
    ∀ e ∈ plainLines bases known classes, ∀ i ∈ e.2, P i := by
  induction classes generalizing known with
  | nil => exact fun e he => absurd he not_mem_nil
  | cons a classes ih =>
    obtain ⟨ha, hclasses⟩ := forall_mem_cons.mp hclasses
    obtain ⟨hfirst, hs⟩ := plain_of hbases (depth bases) ha (s := { known := known }) hknown
    exact forall_mem_cons.mpr ⟨hfirst, ih hclasses hs⟩

lemma lines_of : ∀ e ∈ lines bases, ∀ i ∈ e.2, P i := by
  have hclasses : ∀ a ∈ bases.map Prod.fst, P a := by
    intro a ha
    obtain ⟨e, he, rfl⟩ := mem_map.mp ha
    exact (hbases e he).1
  have hnone : ∀ e ∈ ([] : List (α × List α)), ∀ i ∈ e.2, P i :=
    fun e he => absurd he not_mem_nil
  rw [lines]
  cases hmerged : mergedLines bases [] (bases.map Prod.fst) with
  | none => exact plainLines_of hbases hclasses hnone
  | some found => exact mergedLines_of hbases hclasses hnone hmerged

end Lines
end Docsmith.Calls.Lineage

namespace Docsmith.Calls

open Rules

section FindLines

lemma does_inScope {space : String} {step : Visit (Option Id)}
    (hstep : safely.Does (fun s => s.within ≠ []) step fun r s => s.KnownIf r) :
    safely.Does (fun s => (s.scope? space).isSome = true) (inScope space step)
      fun r s => s.KnownIf r := by
  refine does_of_run fun s hs hspace => ?_
  obtain ⟨scope, hscope⟩ := Option.isSome_iff_exists.mp hspace
  obtain ⟨hs₁, hgrows₁⟩ := hs.moved s.path (space :: s.within) s.inClass
  obtain ⟨r, s₂, hrun, hs₂, hkeeps, hr⟩ := hstep.run (fun _ h => h) hs₁ (List.cons_ne_nil _ _)
  obtain ⟨hs₃, hgrows₃⟩ := hs₂.moved s₂.path s₂.within.tail s₂.inClass
  refine ⟨r, { s₂ with within := s₂.within.tail }, ?_, hs₃, ⟨?_, ?_⟩, fun i hi => hgrows₃.known (hr i hi)⟩
  · rw [inScope, run_bind_of_ok (scopeOf_run hscope), run_modify_bind, run_bind_of_ok hrun]
    rfl
  · exact hgrows₁.trans (hkeeps.toGrows.trans hgrows₃)
  · have hwithin : s₂.within.tail = s.within := congrArg List.tail hkeeps.within
    rw [hwithin]
    exact congrArg (fun t : State => { t with within := s.within }) hkeeps.rest

lemma does_baseClass {space : String} {base : Tree} (hclear : base.isClear = true)
    (hbase : base.isBase = true) :
    safely.Does (fun s => (s.scope? space).isSome = true) (baseClass space base)
      fun r s => s.KnownIf r := by
  rw [Tree.isBase, Bool.and_eq_true, Bool.not_eq_true'] at hbase
  refine (does_inScope ?_).bind fun found => ?_
  · split
    · exact does_valueOf _
    · rename_i value attr mode
      simp only [Tree.isClear, Bool.and_eq_true] at hclear
      have hmode : mode = .load := by
        simpa [Tree.isRead, Tree.mode?] using hbase.1
      have hattr : attr ∉ blockLabels := by simpa using hclear.2
      have hsuper : value.asksSuper = false := by
        rw [Tree.asksSuper] at hbase
        exact hbase.2
      rw [hmode]
      refine (does_readAttribute hclear.1 hattr fun h => ?_).bind fun r => does_pure fun _ _ h => h.2
      rw [hsuper] at h
      cases h
    · exact does_pure fun s _ _ => s.knownIf_none
  split
  · rename_i id
    refine (does_symbolOf id).bind fun x => does_pure ?_
    rintro s - ⟨-, hknown⟩
    split
    · exact s.knownIf_none
    · exact hknown
  · exact does_pure fun s _ _ => s.knownIf_none

lemma does_parents {id : Id} {trees : List Tree}
    (htrees : ∀ t ∈ trees, t.isClear = true ∧ t.isBase = true) :
    safely.Does (fun s => s.Placed id) (do
      let space := (← symbolOf id).space.getD ""
      return (id, ← trees.filterMapM (baseClass space)))
      fun r s => s.Known r.1 ∧ ∀ i ∈ r.2, s.Known i := by
  refine does_of_run fun s hs hplaced => ?_
  have hstable : safely.Stable fun s' => (s'.scope? ((s.symbol id).space.getD "")).isSome = true ∧
      s'.Known id := fun s₁ s₂ h hs₁ => ⟨Keeps.toGrows h |>.scopes _ hs₁.1, stable_known id s₁ s₂ h hs₁.2⟩
  have hbases : safely.Does (fun s' => (s'.scope? ((s.symbol id).space.getD "")).isSome = true ∧
      s'.Known id) (trees.filterMapM (baseClass ((s.symbol id).space.getD "")))
      fun bases s => ∀ b ∈ bases, s.Known b := by
    refine does_filterMapM hstable stable_known fun t ht => ?_
    obtain ⟨hclear, hbase⟩ := htrees t ht
    exact (does_baseClass hclear hbase).given fun _ _ h => h.1
  obtain ⟨bases, s', hrun, hs', hkeeps, hknown⟩ :=
    hbases.run (fun _ h => h) hs ⟨hplaced.scope, hplaced.toKnown⟩
  refine ⟨(id, bases), s', ?_, hs', hkeeps, stable_known id s s' hkeeps hplaced.toKnown, hknown⟩
  rw [run_bind_of_ok (symbolOf_run id s), run_bind_of_ok hrun]
  rfl

lemma does_findLines (files : List String) :
    (rounds files).Does (fun _ => True) findLines fun _ _ => True := by
  refine does_of_run ?_
  rintro s ⟨hs, hrest⟩ -
  have hplaced : safely.Stable fun s' => ∀ e ∈ s.bases, s'.Placed e.1 :=
    fun s₁ s₂ h hs₁ e he => Keeps.toGrows h |>.placed (hs₁ e he)
  have hpost : ∀ (a : Id × List Tree) (b : Id × List Id), safely.Stable fun s' =>
      s'.Known b.1 ∧ ∀ i ∈ b.2, s'.Known i :=
    fun a b s₁ s₂ h hs₁ => ⟨stable_known _ s₁ s₂ h hs₁.1, fun i hi => stable_known i s₁ s₂ h (hs₁.2 i hi)⟩
  have hall := does_mapM hplaced hpost fun e he =>
    (does_parents (hs.stored.bases e he).2).given fun _ _ h => h e he
  obtain ⟨parents, s₁, hrun, hs₁, hkeeps, hparents⟩ := hall.run (fun _ h => h) hs
    fun e he => (hs.stored.bases e he).1
  obtain ⟨h1, h2, h3, h4, h5, -, h7⟩ := hs₁.stored
  have hlines : ∀ e ∈ Lineage.lines parents, ∀ i ∈ e.2, s₁.Known i := by
    refine Lineage.lines_of fun e he => ?_
    obtain ⟨-, -, hknown⟩ := exists_left_of_forall₂ hparents he
    exact hknown
  have hstored : Stored _ _ _ { s₁ with parents, lineage := Lineage.lines parents } :=
    ⟨h1, h2, h3, h4, h5, hlines, h7⟩
  obtain ⟨hs₂, hgrows⟩ := hs₁.same hstored (fun _ h => h) rfl rfl
  refine ⟨(), _, ?_, ⟨hs₂, hkeeps.path.trans hrest.path, hkeeps.within.trans hrest.within,
    hkeeps.files.trans hrest.files, hkeeps.root.trans hrest.root⟩, hkeeps.toGrows.trans hgrows, trivial⟩
  rw [findLines, run_get_bind, run_bind_of_ok hrun]
  rfl

end FindLines

/-! ## Both rounds -/

section Rounds

variable {p : Program} {files : List String}

lemma exists_start (h : ∀ file ∈ files, ∃ module, moduleName p.folder file = .ok module) :
    ∃ s, start p files none = .ok s ∧ Sound s ∧ s.Resting files := by
  obtain ⟨modules, hmodules⟩ : ∃ modules,
      (files.mapM fun f => do return (← moduleName p.folder f, f)) = .ok modules := by
    refine exists_mapM_ok_iff.mpr fun file hfile => ?_
    obtain ⟨module, hmodule⟩ := h file hfile
    exact ⟨(module, file), by rw [hmodule]; rfl⟩
  refine ⟨_, start_ok_iff.mpr ⟨modules, hmodules, rfl⟩, ⟨⟨⟨?_, ?_⟩, ?_⟩, ?_⟩, ⟨rfl, rfl, rfl, rfl⟩⟩
  · exact fun hid => absurd hid List.not_mem_nil
  · exact fun id hid => absurd hid (Nat.not_lt_zero id)
  · have hlabel : "" ∉ blockLabels := by decide
    exact fun id => ⟨fun _ => ⟨hlabel, rfl⟩, fun _ => hlabel⟩
  · refine ⟨?_, ?_, nofun, ?_, ?_, ?_, ?_⟩ <;> exact fun _ h => absurd h List.not_mem_nil

lemma exists_visited (h : ∀ file ∈ files, ∃ module source, p.Reads file module source ∧
      source.Safe module) :
    ∃ s, p.Visited files s ∧ Sound s := by
  have hnames : ∀ file ∈ files, ∃ module, moduleName p.folder file = .ok module := by
    intro file hfile
    obtain ⟨module, source, hreads, -⟩ := h file hfile
    exact ⟨module, hreads.named⟩
  obtain ⟨s₀, hstart, hs₀⟩ := exists_start hnames
  obtain ⟨⟨⟩, s₁, h₁, hs₁, -⟩ := (does_round h).run (fun _ h => h) hs₀ trivial
  obtain ⟨⟨⟩, s₂, h₂, hs₂, -⟩ := (does_findLines files).run (fun _ h => h) hs₁ trivial
  obtain ⟨⟨⟩, s₃, h₃, hs₃, -⟩ := (does_round h).run (fun _ h => h) hs₂ trivial
  exact ⟨s₃, ⟨s₀, s₁, s₂, hstart, h₁, h₂, h₃⟩, hs₃.1⟩

end Rounds

end Docsmith.Calls

