import Docsmith.Proofs.FileVisits
import Docsmith.Proofs.Settling

/-! # Settling goes well

In a sound state every import can be resolved. After that the table lists what imports stand for in
their place, so not every symbol is found any more; what is left (`Calm`) is enough for the
remaining steps, which keep it and do not fail (`settle_goes`). -/

namespace Docsmith.Calls

open Rules List

variable {s : State}

/-! ## Wild names -/

variable (pairs : List (Id × Id))

lemma does_addAllUses {fails : Fault → Prop} :
    (visiting fails).Does (fun s => ∀ e ∈ pairs, s.Solid e.1 ∧ s.Known e.2) (addAllUses pairs)
      fun _ _ => True := by
  have hstable : (visiting fails).Stable fun s => ∀ e ∈ pairs, s.Solid e.1 ∧ s.Known e.2 :=
    fun s s' h hs e he => ⟨stable_solid _ s s' h (hs e he).1, stable_known _ s s' h (hs e he).2⟩
  refine does_forM_of_stable hstable fun e he => ?_
  exact (does_addUses e.1 e.2).given fun _ _ h => h e he

lemma State.find?_unexpanded (s : State) (space : Option String) (name : String) :
    s.unexpanded.find? space name = s.find? space name := by
  refine find?_congr fun i _ => ?_
  rw [State.symbol_unexpanded]
  split <;> rfl

lemma Sound.unexpanded (hs : Sound s) : Sound s.unexpanded := by
  have hsize : s.unexpanded.symbols.size = s.symbols.size := Array.size_map
  have hsame : ∀ i, (s.unexpanded.symbol i).space = (s.symbol i).space ∧
      (s.unexpanded.symbol i).name = (s.symbol i).name ∧
      (s.unexpanded.symbol i).flavor = (s.symbol i).flavor := by
    intro i
    rw [State.symbol_unexpanded]
    split <;> exact ⟨rfl, rfl, rfl⟩
  have hknown : ∀ i, s.Known i → s.unexpanded.Known i := by
    intro i hi
    refine ⟨hsize ▸ hi.lt, fun hlabel => ?_⟩
    rw [(hsame i).2.1] at hlabel
    rw [State.symbol_unexpanded]
    split
    · rename_i hwild
      exact absurd hlabel ((hs.tidy.fair i).wild (Option.isNone_iff_eq_none.mp hwild)).1
    · exact hi.defined hlabel
  refine ⟨⟨⟨fun {name i} hi => ?_, fun i hi _ => ?_⟩, fun i => ?_⟩, ?_⟩
  · rw [hsize, (hsame i).2.1]
    exact hs.tidy.indexed.named hi
  · rw [(hsame i).1, (hsame i).2.1, State.find?_unexpanded]
    exact hs.tidy.indexed.found i (hsize ▸ hi) trivial
  · obtain ⟨hspace, hname, hflavor⟩ := hsame i
    rw [hspace, hname, hflavor]
    exact hs.tidy.fair i
  · have hstored : Stored s.Known s.Solid s.Placed s.unexpanded := hs.stored.congr rfl
    refine hstored.mono hknown (fun i hi => ?_) fun i hi => ⟨hknown i hi.toKnown, ?_⟩
    · rw [State.Solid, (hsame i).2.1, (hsame i).2.2]
      exact hi
    · rw [(hsame i).1]
      exact hi.scope

lemma Edges.of_mem_pairs {edges : Edges} {x : Id × Id} (h : x ∈ edges.pairs) :
    ∃ e ∈ edges, x.1 = e.1 ∧ x.2 ∈ e.2 := by
  obtain ⟨e, he, hx⟩ := mem_flatMap.mp h
  obtain ⟨b, hb, rfl⟩ := mem_map.mp hx
  exact ⟨e, he, rfl, hb⟩

lemma expandWild_goes (hs : Sound s) : ∃ s', expandWild.run.run s = (.ok (), s') ∧ Sound s' ∧
    ∀ i, (s'.symbol i).isWild = true → (s'.symbol i).defined = false := by
  have hnew : ∀ x ∈ s.uses.pairs.flatMap fun e =>
      if (s.symbol e.2).isWild then
        ((s.named (s.symbol e.2).name).filter fun c => !(s.symbol c).isWild).map (e.1, ·)
      else [], s.Solid x.1 ∧ s.Known x.2 := by
    intro x hx
    obtain ⟨y, hy, hx⟩ := mem_flatMap.mp hx
    obtain ⟨e, he, ha, -⟩ := Edges.of_mem_pairs hy
    split at hx
    · rename_i hwild
      obtain ⟨c, hc, rfl⟩ := mem_map.mp hx
      obtain ⟨hlt, hname⟩ := hs.tidy.indexed.named (mem_filter.mp hc).1
      have hlabel := ((hs.tidy.fair y.2).wild (Option.isNone_iff_eq_none.mp hwild)).1
      exact ⟨ha ▸ (hs.stored.uses e he).1, hlt, fun h => absurd (hname ▸ h) hlabel⟩
    · cases hx
  obtain ⟨⟨⟩, s₁, hrun, hs₁, -⟩ :=
    Does.run (does_addAllUses _) (fun _ h => h) hs hnew
  refine ⟨s₁.unexpanded, ?_, Sound.unexpanded hs₁, fun i hi => ?_⟩
  · rw [expandWild, run_get_bind]
    exact (run_bind_of_ok hrun _).trans rfl
  · rw [State.symbol_unexpanded] at hi ⊢
    split
    · rfl
    · rename_i hwild
      rw [if_neg hwild] at hi
      exact absurd hi hwild

/-! ## Imports -/

/-- What stands for an import or an attribute may be held and has its name. -/
structure State.StandsFor (s : State) (e : Id × Id) : Prop where
  flavor : (s.symbol e.1).flavor = .imported ∨ (s.symbol e.1).flavor = .attribute
  known : s.Known e.2
  name : (s.symbol e.2).name = (s.symbol e.1).name

structure Resolving (s₀ s : State) : Prop where
  sound : Sound s
  size : s₀.symbols.size ≤ s.symbols.size
  symbol : ∀ i < s₀.symbols.size, s.symbol i = s₀.symbol i
  uses : s.uses = s₀.uses
  defines : s.defines = s₀.defines
  wild : ∀ i, (s.symbol i).isWild = true → s.symbol i = s₀.symbol i

lemma Resolving.refl (hs : Sound s) : Resolving s s :=
  ⟨hs, Nat.le_refl _, fun _ _ => rfl, rfl, rfl, fun _ _ => rfl⟩

def resolving (s₀ : State) : Rules State where
  fit := Resolving s₀
  leads := fun _ _ => True
  fails := fun _ => False
  refl := fun _ => trivial
  trans := fun _ _ => trivial

lemma does_moduleFor (s₀ : State) (name : String) :
    (resolving s₀).Does (fun _ => True) (symbolFor (some "") name none .unspecified)
      fun _ _ => True := by
  refine does_of_run fun s hs _ => ?_
  have hfair : Fair (some "") name .unspecified := fair_of_flavor _ _ (by decide) (by decide)
  have hfor : safely.Does _ _ _ := does_symbolFor hfair none
  obtain ⟨id, s₁, hrun, hs₁, -⟩ := hfor.run (fun _ h => h) (Resolving.sound hs) trivial
  have hresolving : Resolving s₀ s₁ := by
    rcases symbolFor_run (some "") name none .unspecified s with ⟨i, -, heq⟩ | ⟨-, heq⟩
    · have hraise : s.raise i .unspecified = s := if_neg (Nat.not_lt_zero _)
      rw [hraise, hrun] at heq
      rw [(Prod.mk.inj heq).2]
      exact hs
    · rw [hrun] at heq
      obtain rfl := (Prod.mk.inj heq).2
      refine ⟨hs₁, ?_, fun i hi => ?_, hs.uses, hs.defines, fun i hi => ?_⟩
      · rw [State.size_push]
        exact hs.size.trans (Nat.le_succ _)
      · rw [State.symbol_push_of_lt _ _ (hi.trans_le hs.size), hs.symbol i hi]
      · rw [State.symbol_push] at hi ⊢
        split
        · rename_i hnew
          rw [if_pos hnew] at hi
          cases hi
        · rename_i hold
          rw [if_neg hold] at hi
          exact hs.wild i hi
  exact ⟨id, s₁, hrun, hresolving, trivial, trivial⟩

lemma Sound.get?_imported (hs : Sound s) {id : Id} (h : (s.symbol id).flavor = .imported) :
    Assoc.get? id s.uses = none := by
  cases hget : Assoc.get? id s.uses with
  | none => rfl
  | some targets =>
    have hsolid : s.Solid id := (hs.stored.uses _ (Assoc.mem_of_get? hget)).1
    rcases hsolid with hle | hlabel
    · rw [h] at hle
      exact absurd hle (by decide)
    · exact absurd hlabel ((hs.tidy.fair id).coined (Or.inl h))

lemma does_importTargetOf {s₀ : State} (hs₀ : Sound s₀) {id : Id}
    (h : (s₀.symbol id).flavor = .imported) :
    (resolving s₀).Does (fun _ => True) (importTarget id)
      fun r _ => ∀ c, r = some c → s₀.StandsFor (id, c) := by
  have hid : id < s₀.symbols.size := State.lt_of_symbol (P := (·.flavor = .imported)) h nofun
  have hsymbol : (resolving s₀).Does (fun _ => True) (symbolOf id) fun x _ => x = s₀.symbol id :=
    (does_symbolOf id).gives fun x s hs hx => hx.1.trans (Resolving.symbol hs id hid)
  -- the target is used by the module, so it may be held
  have hfind : ∀ module, (resolving s₀).Does (fun _ => True) (do
      let s ← get
      return (s.uses.targets module).find? fun c => (s.symbol c).name == (s₀.symbol id).name)
      fun r _ => ∀ c, r = some c → s₀.StandsFor (id, c) := by
    intro module
    refine does_get.bind fun s => does_pure ?_
    rintro s' hs ⟨rfl, -⟩ c hc
    have hname := List.find?_some hc
    have hmem := mem_of_find?_eq_some hc
    rw [hs.uses] at hmem
    have hknown := (hs₀.stored.uses.targets module).2 c hmem
    rw [hs.symbol c hknown.lt] at hname
    exact ⟨Or.inl h, hknown, beq_iff_eq.mp hname⟩
  refine does_get.bind fun s => ?_
  intro s' hs hget
  obtain rfl : s = s' := hget.1
  have huses : Assoc.get? id s.uses = none := by
    rw [Resolving.uses hs]
    exact hs₀.get?_imported h
  simp only [huses, pure_bind]
  refine Does.bind_fact hsymbol (fun t ht => ?_) s hs trivial
  refine Does.bind_fact hsymbol fun x hx => ?_
  subst ht hx
  split
  · exact hfind id
  · rw [if_pos (beq_self_eq_true _)]
    exact (does_moduleFor s₀ _).bind hfind

lemma importTargets_goes {s₀ : State} (hs₀ : Sound s₀) :
    ∃ targets s, importTargets.run.run s₀ = (.ok targets, s) ∧ Resolving s₀ s ∧
      ∀ e ∈ targets, s₀.StandsFor e := by
  have hwork : ∀ id ∈ s₀.listed.filter fun id => (s₀.symbol id).flavor == .imported,
      (resolving s₀).Does (fun _ => True) (do return (id, ← importTarget id))
        fun r _ => r.1 = id ∧ ∀ c, r.2 = some c → s₀.StandsFor (id, c) := by
    intro id hid
    have himported := (mem_filter.mp hid).2
    refine (does_importTargetOf hs₀ (beq_iff_eq.mp himported)).bind fun r => ?_
    exact does_pure fun _ _ hr => ⟨rfl, hr⟩
  obtain ⟨found, s, hrun, hs, -, hfound⟩ := (does_mapM (fun _ _ _ _ => trivial)
    (fun _ _ _ _ _ h => h) hwork).run (fun _ h => h) (Resolving.refl hs₀) trivial
  refine ⟨found.filterMap fun r => r.2.map (r.1, ·), s, ?_, hs, fun e he => ?_⟩
  · rw [importTargets, run_get_bind, run_bind_of_ok hrun]
    rfl
  · obtain ⟨r, hr, he⟩ := mem_filterMap.mp he
    obtain ⟨c, hc, rfl⟩ := Option.map_eq_some_iff.mp he
    obtain ⟨id, -, rfl, hstands⟩ := exists_left_of_forall₂ hfound hr
    exact hstands c hc

lemma Sound.attributeTargets (hs : Sound s) {targets : List (Id × Id)} {e : Id × Id}
    (he : e ∈ s.attributeTargets targets) : s.StandsFor e := by
  obtain ⟨hflavor, hname⟩ := of_mem_attributeTargets he
  refine ⟨Or.inr hflavor, ?_, hname⟩
  obtain ⟨id, -, he⟩ := mem_filterMap.mp he
  obtain ⟨c, hc, rfl⟩ := Option.map_eq_some_iff.mp he
  obtain ⟨x, -, hx⟩ := mem_filterMap.mp (mem_of_getLast? hc)
  have hmem := mem_of_find?_eq_some hx
  rw [Edges.targets] at hmem
  cases hget : Assoc.get? x.2 s.defines with
  | none =>
    rw [hget] at hmem
    cases hmem
  | some bs =>
    rw [hget] at hmem
    exact hs.stored.defines _ (Assoc.mem_of_get? hget) c hmem

lemma Edges.Among.rename {known : Id → Prop} {edges : Edges} {f : Id → Id}
    (h : edges.Among (fun _ => True) known) (hf : ∀ i, known i → known (f i)) :
    (edges.rename f).Among (fun _ => True) known := by
  have hfold : ∀ (todo done : Edges), todo.Among (fun _ => True) known →
      done.Among (fun _ => True) known →
      Edges.Among (fun _ => True) known
        (todo.foldl (fun m e => Assoc.set (f e.1) (e.2.map f).eraseDups m) done) := by
    intro todo
    induction todo with
    | nil => exact fun done _ hdone => hdone
    | cons e todo ih =>
      intro done htodo hdone
      refine ih _ (fun x hx => htodo x (mem_cons_of_mem _ hx)) fun x hx => ?_
      rcases Assoc.mem_of_mem_set hx with rfl | hx
      · refine ⟨trivial, nodup_eraseDups _, fun t ht => ?_⟩
        obtain ⟨b, hb, rfl⟩ := mem_map.mp (mem_eraseDups.mp ht)
        exact hf b ((htodo e mem_cons_self).2.2 b hb)
      · exact hdone x hx
  refine hfold _ [] (fun e he => h e (mem_filter.mp he).1) ?_
  exact fun e he => absurd he not_mem_nil

/-! ## Calm states -/

structure Calm (s : State) : Prop where
  indexed : s.Indexed (· = none)
  wild : ∀ i, (s.symbol i).isWild = true → (s.symbol i).defined = false ∧
    (s.symbol i).name ∉ blockLabels
  uses : s.uses.Among (fun _ => True) (· < s.symbols.size)

def State.UsesKnown (s : State) : Prop :=
  ∀ e ∈ s.uses, ∀ t ∈ e.2, s.Known t

lemma Sound.renamed (hs : Sound s)
    (hwild : ∀ i, (s.symbol i).isWild = true → (s.symbol i).defined = false)
    {all : List (Id × Id)} (hall : ∀ e ∈ all, s.StandsFor e) :
    let renamed := s.renamed fun id => (Assoc.get? id all).getD id
    Calm renamed ∧ renamed.UsesKnown := by
  intro renamed
  have hcases : ∀ i, (Assoc.get? i all).getD i = i ∨ s.StandsFor (i, (Assoc.get? i all).getD i) := by
    intro i
    cases hget : Assoc.get? i all with
    | none => exact Or.inl rfl
    | some c => exact Or.inr (hall _ (Assoc.mem_of_get? hget))
  have hknown : ∀ i, s.Known i → s.Known ((Assoc.get? i all).getD i) := by
    intro i hi
    rcases hcases i with heq | hstands
    · rwa [heq]
    · exact hstands.known
  have huses : renamed.uses.Among (fun _ => True) s.Known :=
    Edges.Among.rename (fun e he => ⟨trivial, (hs.stored.uses e he).2⟩) hknown
  have hnamed : ∀ {name i}, i ∈ renamed.named name →
      i < s.symbols.size ∧ (s.symbol i).name = name := by
    intro name i hi
    rw [State.named_renamed] at hi
    obtain ⟨j, hj, rfl⟩ := mem_map.mp hi
    obtain ⟨hlt, hname⟩ := hs.tidy.indexed.named hj
    rcases hcases j with heq | hstands
    · rw [heq]
      exact ⟨hlt, hname⟩
    · exact ⟨hstands.known.lt, hstands.name.trans hname⟩
  refine ⟨⟨⟨hnamed, fun id hid hnone => ?_⟩, fun i hi => ⟨hwild i hi, ?_⟩, ?_⟩, ?_⟩
  · -- a wild name stands for itself, and no other symbol of its name is wild
    have hnone : (s.symbol id).space = none := hnone
    have hfound : s.find? (s.symbol id).space (s.symbol id).name = some id :=
      hs.tidy.indexed.found id hid trivial
    have hself : (Assoc.get? id all).getD id = id := by
      refine (hcases id).resolve_right fun hstands => ?_
      have hzero := ((hs.tidy.fair id).wild hnone).2
      rcases hstands.flavor with hflavor | hflavor
      · rw [hflavor] at hzero
        cases hzero
      · rw [hflavor] at hzero
        cases hzero
    have hmem : id ∈ renamed.named (s.symbol id).name := by
      rw [State.named_renamed]
      exact mem_map.mpr ⟨id, (State.find?_some hfound).1, hself⟩
    show renamed.find? (s.symbol id).space (s.symbol id).name = some id
    cases hfind : renamed.find? (s.symbol id).space (s.symbol id).name with
    | none =>
      rw [State.find?, find?_eq_none] at hfind
      exact absurd (beq_self_eq_true _) (hfind id hmem)
    | some j =>
      obtain ⟨hj, hspace⟩ := State.find?_some hfind
      obtain ⟨hlt, hname⟩ := hnamed hj
      have hwild' : (s.symbol j).isWild = true := by
        have hspace : (s.symbol j).space = (s.symbol id).space := hspace
        rw [Symbol.isWild, hspace, hnone]
        rfl
      refine congrArg some (hs.tidy.indexed.distinguishes trivial j id hlt hid hwild' ?_ hname)
      rw [Symbol.isWild, hnone]
      rfl
  · exact ((hs.tidy.fair i).wild (Option.isNone_iff_eq_none.mp hi)).1
  · exact fun e he => ⟨trivial, (huses e he).2.1, fun t ht => ((huses e he).2.2 t ht).lt⟩
  · exact fun e he t ht => ⟨((huses e he).2.2 t ht).lt, ((huses e he).2.2 t ht).defined⟩

lemma resolveImports_goes (hs : Sound s)
    (hwild : ∀ i, (s.symbol i).isWild = true → (s.symbol i).defined = false) :
    ∃ s', resolveImports.run.run s = (.ok (), s') ∧ Calm s' ∧ s'.UsesKnown := by
  obtain ⟨targets, s₁, hrun, hs₁, htargets⟩ := importTargets_goes hs
  have hstands : ∀ e, s.StandsFor e → s₁.StandsFor e := by
    intro e he
    have hlt : e.1 < s.symbols.size := he.flavor.elim
      (State.lt_of_symbol (P := (·.flavor = .imported)) · nofun)
      (State.lt_of_symbol (P := (·.flavor = .attribute)) · nofun)
    have hknown := he.known
    refine ⟨?_, ⟨he.known.lt.trans_le hs₁.size, ?_⟩, ?_⟩
    · rw [hs₁.symbol _ hlt]
      exact he.flavor
    · rw [hs₁.symbol _ hknown.lt]
      exact hknown.defined
    · rw [hs₁.symbol _ hlt, hs₁.symbol _ hknown.lt]
      exact he.name
  have hall : ∀ e ∈ targets ++ s₁.attributeTargets targets, s₁.StandsFor e := by
    intro e he
    rcases mem_append.mp he with he | he
    · exact hstands e (htargets e he)
    · exact hs₁.sound.attributeTargets he
  have hwild₁ : ∀ i, (s₁.symbol i).isWild = true → (s₁.symbol i).defined = false := by
    intro i hi
    have hsame := hs₁.wild i hi
    rw [hsame] at hi ⊢
    exact hwild i hi
  refine ⟨_, ?_, hs₁.sound.renamed hwild₁ hall⟩
  rw [resolveImports, run_bind_of_ok hrun]
  rfl

/-! ## Steps between calm states -/

def calming : Rules State where
  fit := Calm
  leads := Settles
  fails := fun _ => False
  refl := Settles.refl
  trans := Settles.trans

namespace Calm

lemma push (hs : Calm s) {x : Symbol} (hnew : x.isWild = true → s.find? x.space x.name = none)
    (hx : x.isWild = true → x.defined = false ∧ x.name ∉ blockLabels) : Calm (s.push x) where
  indexed := hs.indexed.push fun hnone => hnew (Option.isNone_iff_eq_none.mpr hnone)
  wild := by
    intro i hi
    rw [State.symbol_push] at hi ⊢
    split
    · rename_i hnew
      rw [if_pos hnew] at hi
      exact hx hi
    · rename_i hold
      rw [if_neg hold] at hi
      exact hs.wild i hi
  uses := by
    intro e he
    refine ⟨trivial, (hs.uses e he).2.1, fun t ht => ?_⟩
    rw [State.size_push]
    exact ((hs.uses e he).2.2 t ht).trans (Nat.lt_succ_self _)

lemma alter (hs : Calm s) (id : Id) {f : Symbol → Symbol} (hspace : ∀ x, (f x).space = x.space)
    (hname : ∀ x, (f x).name = x.name) (hdefined : ∀ x, x.defined = false → (f x).defined = false) :
    Calm (s.alter id f) where
  indexed := hs.indexed.alter hspace hname
  wild := by
    intro i hi
    rw [Symbol.isWild, State.symbol_alter_congr s Symbol.space id f hspace] at hi
    obtain ⟨hundefined, hlabel⟩ := hs.wild i hi
    refine ⟨?_, ?_⟩
    · rw [State.symbol_alter]
      split
      · exact hdefined _ hundefined
      · exact hundefined
    · rwa [State.symbol_alter_congr s Symbol.name id f hname]
  uses := by
    rw [State.size_alter]
    exact hs.uses

lemma raise (hs : Calm s) (id : Id) (flavor : Flavor) : Calm (s.raise id flavor) := by
  rcases s.raise_cases id flavor with heq | ⟨-, heq⟩
  · rwa [heq]
  · rw [heq]
    exact hs.alter id (fun _ => rfl) (fun _ => rfl) fun _ h => h

lemma not_isWild (hs : Calm s) {i : Id} (h : (s.symbol i).name ∈ blockLabels) :
    (s.symbol i).isWild = false :=
  Bool.eq_false_iff.mpr fun hwild => (hs.wild i hwild).2 h

end Calm

lemma stable_lt (i : Id) : calming.Stable fun s => i < s.symbols.size :=
  fun _ _ h hi => hi.trans_le (Settles.size h)

lemma stable_not_isWild (i : Id) : calming.Stable fun s => (s.symbol i).isWild = false := by
  intro s s' h hi
  have hlt : i < s.symbols.size := State.lt_of_symbol (P := (·.isWild = false)) hi nofun
  show (s'.symbol i).space.isNone = false
  rw [(Settles.symbol h i hlt).1]
  exact hi

lemma does_placeFor (space name : String) (origin : Option Origin) (flavor : Flavor) :
    calming.Does (fun _ => True) (symbolFor (some space) name origin flavor)
      fun id s => id < s.symbols.size := by
  refine does_of_run fun s hs _ => ?_
  rcases symbolFor_run (some space) name origin flavor s with ⟨id, -, hrun⟩ | ⟨-, hrun⟩
  · refine ⟨id, _, hrun, hs.raise id flavor, (unmoved_raise id flavor).settles, ?_⟩
    exact (hs.indexed.symbolFor_ok hrun).1
  · refine ⟨_, _, hrun, hs.push ?_ ?_, settles_push rfl, ?_⟩
    · rintro ⟨⟩
    · rintro ⟨⟩
    · exact (hs.indexed.symbolFor_ok hrun).1

lemma does_parentOf (id : Id) :
    calming.Does (fun s => (s.symbol id).isWild = false) (parentOf id)
      fun outer s => outer < s.symbols.size := by
  have hsymbol : calming.Does (fun s => (s.symbol id).isWild = false) (symbolOf id)
      fun x _ => x.isWild = false :=
    (does_symbolOf id).gives fun x s _ hx => hx.1 ▸ hx.2
  refine hsymbol.bind_fact fun x hx => ?_
  cases hspace : x.space with
  | none =>
    rw [Symbol.isWild, hspace] at hx
    cases hx
  | some space => exact does_placeFor _ _ _ _

lemma does_missing (a : Id) {name : String} (hname : name ∉ blockLabels) (origin : Option Origin) :
    calming.Does (fun _ => True) (do
      let wild ← symbolFor none name origin .unspecified
      modifySymbol wild Symbol.undefined
      return (a, wild)) fun e s => e.2 < s.symbols.size := by
  refine does_of_run fun s hs _ => ?_
  rcases symbolFor_run none name origin .unspecified s with ⟨i, hfind, hrun⟩ | ⟨hnew, hrun⟩
  · have hraised := hs.raise i .unspecified
    have hfind' := (State.find?_raise i .unspecified none name).trans hfind
    have hwild : ((s.raise i .unspecified).symbol i).isWild = true := by
      rw [Symbol.isWild, (State.find?_some hfind').2]
      rfl
    rw [run_bind_of_ok hrun, run_bind_of_ok (modifySymbol_run _ _ _)]
    refine ⟨_, _, rfl, hraised.alter i (fun _ => rfl) (fun _ => rfl) fun _ _ => rfl,
      (unmoved_raise i .unspecified).settles.trans (settles_alter (Or.inl hwild)).1, ?_⟩
    rw [State.size_alter]
    exact (hraised.indexed.lt_of_find? hfind').1
  · rw [run_bind_of_ok hrun, run_bind_of_ok (modifySymbol_run _ _ _), State.alter_push _ rfl]
    refine ⟨_, _, rfl, hs.push (fun _ => hnew) fun _ => ⟨rfl, hname⟩, settles_push rfl, ?_⟩
    rw [State.size_push]
    exact Nat.lt_succ_self _

lemma Calm.setUses (hs : Calm s) {uses : Edges}
    (h : uses.Among (fun _ => True) (· < s.symbols.size)) : Calm { s with uses } :=
  ⟨⟨hs.indexed.named, hs.indexed.found⟩, hs.wild, h⟩

lemma does_addUse (source target : Id) :
    calming.Does (fun s => target < s.symbols.size) (addUses source target) fun _ _ => True := by
  refine does_of_run fun s hs htarget => ?_
  obtain ⟨uses, hrun, huses⟩ : ∃ uses, (addUses source target).run.run s = (.ok (), { s with uses }) ∧
      uses.Among (fun _ => True) (· < s.symbols.size) :=
    addUses_run hs.uses (hs.indexed.distinguishes rfl) trivial htarget
  exact ⟨(), _, hrun, hs.setUses huses, unmoved_of_eq.settles, trivial⟩

lemma does_addUseOfAll :
    calming.Does (fun s => ∀ e ∈ pairs, e.2 < s.symbols.size) (addAllUses pairs)
      fun _ _ => True := by
  refine does_forM_of_stable (fun s s' h hs e he => stable_lt e.2 s s' h (hs e he)) fun e he => ?_
  exact (does_addUse e.1 e.2).given fun _ _ h => h e he

lemma does_removeAllUses :
    calming.Does (fun _ => True) (removeAllUses pairs) fun _ _ => True := by
  refine does_forM_of_stable (fun _ _ _ h => h) fun e _ => does_modify fun s hs _ => ?_
  exact ⟨Calm.setUses hs ((Calm.uses hs).remove e.1 e.2), unmoved_of_eq.settles, trivial⟩

/-! ## What remains -/

lemma contractMissing_calms :
    calming.Does State.UsesKnown contractMissing fun _ _ => True := by
  refine does_get.bind fun s => ?_
  intro s' hs hget
  obtain ⟨rfl, hknown⟩ := hget
  have hwork : ∀ e ∈ s.uses.pairs.filter fun e =>
      !(s.symbol e.2).isWild && !(s.symbol e.2).defined,
      calming.Does (fun s' => Settles s s') (do
        let x ← symbolOf e.2
        let wild ← symbolFor none x.name x.origin .unspecified
        modifySymbol wild ({ · with defined := false })
        return (e.1, wild)) fun r s => r.2 < s.symbols.size := by
    intro e he
    obtain ⟨hpair, hmissing⟩ := mem_filter.mp he
    obtain ⟨u, hu, -, htarget⟩ := Edges.of_mem_pairs hpair
    have hknown := hknown u hu e.2 htarget
    have hlabel : (s.symbol e.2).name ∉ blockLabels := by
      intro hlabel
      have hdefined := hknown.defined hlabel
      simp [hdefined] at hmissing
    have hname : calming.Does (fun s' => Settles s s') (symbolOf e.2)
        fun x _ => x.name ∉ blockLabels := by
      refine (does_symbolOf e.2).gives fun x s' _ hx => ?_
      rw [hx.1, (hx.2.symbol e.2 hknown.lt).2.1]
      exact hlabel
    exact hname.bind_fact fun x hx => does_missing e.1 hx x.origin
  have hnew := does_mapM (fun _ _ h hs => Settles.trans hs h)
    (fun _ e => stable_lt (Prod.snd e)) hwork
  have hadd : ∀ new, calming.Does (fun s' => ∀ e ∈ new, e.2 < s'.symbols.size) (do
      addAllUses new
      removeAllUses (s.uses.pairs.filter fun e => !(s.symbol e.2).isWild && !(s.symbol e.2).defined))
      fun _ _ => True :=
    fun new => (does_addUseOfAll new).bind fun _ => (does_removeAllUses _).any
  refine Does.bind (hnew.gives fun new s' _ h => ?_) hadd s hs (Settles.refl s)
  intro e he
  obtain ⟨_, _, hlt⟩ := exists_left_of_forall₂ h he
  exact hlt

lemma does_isImplied (b : Id) (all : List Id) :
    calming.Does (fun _ => True) (isImplied b all) fun _ _ => True := by
  have hwork : ∀ c, calming.Does (fun _ => True) (do
      if rivals (← symbolOf b) (← symbolOf c) then
        let above ← parentOf b
        let other ← parentOf c
        return ((← get).uses.targets above).contains other
      else return false) fun _ _ => True := by
    intro c
    refine (does_symbolOf b).bind fun x => (does_symbolOf c).bind fun y => ?_
    by_cases hrivals : rivals x y = true
    · rw [if_pos hrivals]
      simp only [rivals, Bool.and_eq_true, Bool.not_eq_true'] at hrivals
      refine (does_parentOf b).carry (stable_not_isWild c) ?_ fun above => ?_
      · rintro s - ⟨rfl, rfl, -⟩
        exact ⟨hrivals.1.1.2, hrivals.1.2⟩
      · refine ((does_parentOf c).given fun _ _ h => h.2).bind fun other => ?_
        exact does_get.bind fun _ => does_done
    · rw [if_neg hrivals]
      exact does_done
  refine Does.bind (does_mapM (fun _ _ _ h => h) (fun _ _ _ _ _ h => h) fun c _ => hwork c) ?_
  exact fun _ => does_done

lemma does_cullInherited : calming.Does (fun _ => True) cullInherited fun _ _ => True := by
  refine does_get.bind fun s => Does.any ?_
  refine (does_flatMapM (fun e => ?_) _).bind fun gone => does_removeAllUses gone
  have hfilter : ∀ b ∈ e.2, calming.Does (fun _ => True)
      (do return if ← isImplied b e.2 then some (e.1, b) else none)
      fun r _ => ∀ d, r = some d → True :=
    fun b _ => (does_isImplied b e.2).bind fun _ => does_pure fun _ _ _ _ _ => trivial
  exact (does_filterMapM (fun _ _ _ h => h) (fun _ _ _ _ h => h) hfilter).gives
    fun _ _ _ _ => trivial

lemma collapse_calms (id : Id) :
    calming.Does (fun s => (s.symbol id).name ∈ blockLabels) (collapse id) fun _ _ => True := by
  have hstable : calming.Stable _ := stable_label (fun _ _ h => h) id
  have hparent : calming.Does (fun s => (s.symbol id).name ∈ blockLabels) (parentOf id)
      fun _ _ => True :=
    (does_parentOf id).imp (fun _ hs h => Calm.not_isWild hs h) fun _ _ _ _ => trivial
  refine Does.after hstable hparent fun outer => ?_
  refine does_get.bind fun s => ?_
  have huses : calming.Does (fun s' => s = s' ∧ (s'.symbol id).name ∈ blockLabels)
      ((s.uses.targets id).forM (addUses outer)) fun _ s => (s.symbol id).name ∈ blockLabels := by
    have hlt : calming.Stable fun s' => ∀ t ∈ s.uses.targets id, t < s'.symbols.size :=
      fun s' s'' h hs t ht => stable_lt t s' s'' h (hs t ht)
    have hall := does_forM_of_stable hlt fun t ht =>
      (does_addUse outer t).given fun _ _ h => h t ht
    refine (hall.frame hstable).imp ?_ fun _ _ _ h => h.2
    rintro s' hs ⟨rfl, hlabel⟩
    exact ⟨((Calm.uses hs).targets id).2, hlabel⟩
  refine huses.bind fun _ => ?_
  refine does_modify fun s hs hlabel => ?_
  exact ⟨Calm.alter hs id (fun _ => rfl) (fun _ => rfl) fun _ _ => rfl,
    (settles_alter (Or.inr hlabel)).1, trivial⟩

lemma collapseBlocks_calms : calming.Does (fun _ => True) collapseBlocks fun _ _ => True :=
  does_collapseBlocks (fun _ _ h => h) (fun _ hs => (Calm.indexed hs).titled) collapse_calms

lemma settle_goes (hs : Sound s) : ∃ s', settle.run.run s = (.ok (), s') ∧ Calm s' := by
  obtain ⟨s₁, hexpand, hs₁, hwild⟩ := expandWild_goes hs
  obtain ⟨s₂, hresolve, hs₂, hknown⟩ := resolveImports_goes hs₁ hwild
  have hrest : calming.Does State.UsesKnown (do
      contractMissing
      cullInherited
      collapseBlocks) fun _ _ => True :=
    contractMissing_calms.bind fun _ => does_cullInherited.bind fun _ => collapseBlocks_calms
  obtain ⟨⟨⟩, s₃, hrun, hs₃, -⟩ := hrest.run (fun _ h => h) hs₂ hknown
  refine ⟨s₃, ?_, hs₃⟩
  rw [settle, run_bind_of_ok hexpand, run_bind_of_ok hresolve]
  exact hrun

end Docsmith.Calls

