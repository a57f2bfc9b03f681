import Docsmith.Calls.State
import Docsmith.Proofs.Runs
import Docsmith.Proofs.Tables

/-! # The index of symbols

Asking for the symbol of a space and a name never fails: it is found, and may then say more about
its kind, or a new one is pushed (`symbolFor_run`). In an `Indexed` state every symbol is listed
once under its name, so a space and a name belong to one symbol at most. -/

namespace Docsmith.Calls

open List

/-! ## Symbols that change -/

variable {id : Id} {space : Option String}

namespace State

def alter (s : State) (id : Id) (f : Symbol → Symbol) : State :=
  { s with symbols := s.symbols.modify id f }

def find? (s : State) (space : Option String) (name : String) : Option Id :=
  (s.named name).find? fun id => (s.symbol id).space == space

def fileFor (s : State) (space : Option String) : Option String :=
  (space.bind (Assoc.get? · s.modules)).or s.file

def fresh (s : State) (space : Option String) (name : String) (origin : Option Origin)
    (flavor : Flavor) : Symbol :=
  { space, name, origin, file := s.fileFor space, flavor, defined := space.isNone }

def push (s : State) (x : Symbol) : State :=
  { s with
    symbols := s.symbols.push x,
    table := Assoc.set x.name (s.named x.name ++ [s.symbols.size]) s.table }

/-- The state in which a symbol has a flavor that says at least as much as the given one. -/
def raise (s : State) (id : Id) (flavor : Flavor) : State :=
  if flavor.specificity > (s.symbol id).flavor.specificity then s.alter id ({ · with flavor })
  else s

variable (s : State)

lemma symbol_alter (id : Id) (f : Symbol → Symbol) (i : Id) : (s.alter id f).symbol i
    = if i = id ∧ id < s.symbols.size then f (s.symbol i) else s.symbol i := by
  simp only [alter, symbol, Array.getD_eq_getD_getElem?, Array.getElem?_modify]
  by_cases hi : id = i
  · subst hi
    by_cases hlt : id < s.symbols.size
    · simp [hlt]
    · simp [hlt]
  · simp [hi, Ne.symm hi]

@[simp] lemma size_alter (id : Id) (f : Symbol → Symbol) :
    (s.alter id f).symbols.size = s.symbols.size :=
  Array.size_modify

@[simp] lemma named_alter (id : Id) (f : Symbol → Symbol) (name : String) :
    (s.alter id f).named name = s.named name := rfl

lemma symbol_alter_congr {β : Type} (view : Symbol → β) (id : Id) (f : Symbol → Symbol)
    (hf : ∀ x, view (f x) = view x) (i : Id) :
    view ((s.alter id f).symbol i) = view (s.symbol i) := by
  rw [symbol_alter]
  split
  · exact hf _
  · rfl

variable (x : Symbol)

lemma symbol_push (i : Id) :
    (s.push x).symbol i = if i = s.symbols.size then x else s.symbol i := by
  simp only [push, symbol, Array.getD_eq_getD_getElem?, Array.getElem?_push]
  split <;> rfl

lemma symbol_push_of_lt {i : Id} (hi : i < s.symbols.size) :
    (s.push x).symbol i = s.symbol i := by
  rw [symbol_push, if_neg (Nat.ne_of_lt hi)]

@[simp] lemma symbol_push_size : (s.push x).symbol s.symbols.size = x := by
  rw [symbol_push, if_pos rfl]

@[simp] lemma size_push : (s.push x).symbols.size = s.symbols.size + 1 :=
  Array.size_push x

lemma named_push (name : String) : (s.push x).named name
    = if name = x.name then s.named name ++ [s.symbols.size] else s.named name := by
  rw [named, push, Assoc.get?_set]
  split
  · rename_i h
    rw [h]
    rfl
  · rfl

variable {f : Symbol → Symbol}

lemma alter_push {x : Symbol} (hname : (f x).name = x.name) :
    (s.push x).alter s.symbols.size f = s.push (f x) := by
  have hmodify : (s.symbols.push x).modify s.symbols.size f = s.symbols.push (f x) := by
    refine Array.ext (by simp) fun i h₁ h₂ => ?_
    rw [Array.getElem_modify, Array.getElem_push, Array.getElem_push]
    by_cases hi : i < s.symbols.size
    · simp [hi, Nat.ne_of_gt hi]
    · simp only [Array.size_push] at h₂
      have heq : s.symbols.size = i := by omega
      simp [heq]
  rw [alter, push, push, hname]
  simp only [hmodify]

lemma raise_cases (id : Id) (flavor : Flavor) : s.raise id flavor = s ∨
    (flavor.specificity > (s.symbol id).flavor.specificity ∧
      s.raise id flavor = s.alter id ({ · with flavor })) := by
  rw [raise]
  split
  · rename_i h
    exact Or.inr ⟨h, rfl⟩
  · exact Or.inl rfl

variable {s}

lemma find?_some {name : String} (h : s.find? space name = some id) :
    id ∈ s.named name ∧ (s.symbol id).space = space := by
  rw [find?] at h
  have hspace := List.find?_some h
  exact ⟨mem_of_find?_eq_some h, beq_iff_eq.mp hspace⟩

/-! ## The index -/

/-- The table lists symbols under their names, and those of some spaces are found by it. -/
structure Indexed (p : Option String → Prop) (s : State) : Prop where
  named : ∀ {name id}, id ∈ s.named name → id < s.symbols.size ∧ (s.symbol id).name = name
  found : ∀ id < s.symbols.size, p (s.symbol id).space →
    s.find? (s.symbol id).space (s.symbol id).name = some id

variable {p : Option String → Prop}

lemma Indexed.lt_of_find? (h : s.Indexed p) {name : String} (hfind : s.find? space name = some id) :
    id < s.symbols.size ∧ (s.symbol id).space = space ∧ (s.symbol id).name = name := by
  obtain ⟨hmem, hspace⟩ := find?_some hfind
  obtain ⟨hlt, hname⟩ := h.named hmem
  exact ⟨hlt, hspace, hname⟩

lemma Indexed.eq_of_find? (h : s.Indexed p) {i j : Id} (hi : i < s.symbols.size)
    (hspace : p (s.symbol i).space)
    (hj : s.find? (s.symbol i).space (s.symbol i).name = some j) : i = j :=
  Option.some.inj ((h.found i hi hspace).symm.trans hj)

lemma find?_alter (hf : ∀ x, (f x).space = x.space) (space : Option String) (name : String) :
    (s.alter id f).find? space name = s.find? space name := by
  rw [find?, find?, named_alter]
  exact find?_congr fun i _ => by rw [symbol_alter_congr s Symbol.space id f hf]

lemma Indexed.alter (h : s.Indexed p) (hspace : ∀ x, (f x).space = x.space)
    (hname : ∀ x, (f x).name = x.name) : (s.alter id f).Indexed p := by
  refine ⟨fun {name i} hi => ?_, fun i hi hp => ?_⟩
  · rw [size_alter, symbol_alter_congr s Symbol.name id f hname]
    exact h.named hi
  · rw [symbol_alter_congr s Symbol.space id f hspace] at hp ⊢
    rw [symbol_alter_congr s Symbol.name id f hname, find?_alter hspace]
    exact h.found i (size_alter s id f ▸ hi) hp

lemma Indexed.raise (h : s.Indexed p) (id : Id) (flavor : Flavor) :
    (s.raise id flavor).Indexed p := by
  rcases raise_cases s id flavor with heq | ⟨-, heq⟩
  · rw [heq]
    exact h
  · rw [heq]
    exact h.alter (fun _ => rfl) fun _ => rfl

lemma find?_raise (id : Id) (flavor : Flavor) (space : Option String) (name : String) :
    (s.raise id flavor).find? space name = s.find? space name := by
  rcases raise_cases s id flavor with heq | ⟨-, heq⟩
  · rw [heq]
  · rw [heq]
    refine find?_alter ?_ space name
    exact fun _ => rfl

lemma specificity_raise (hid : id < s.symbols.size) (flavor : Flavor) :
    flavor.specificity ≤ ((s.raise id flavor).symbol id).flavor.specificity := by
  rw [State.raise]
  split
  · rw [symbol_alter, if_pos ⟨rfl, hid⟩]
  · rename_i h
    exact Nat.le_of_not_lt h

lemma Indexed.find?_push (h : s.Indexed p) (x : Symbol) (space : Option String) (name : String) :
    (s.push x).find? space name = (s.find? space name).or
      (if name = x.name ∧ x.space = space then some s.symbols.size else none) := by
  have hold : (s.named name).find? (fun id => ((s.push x).symbol id).space == space)
      = s.find? space name :=
    find?_congr fun i hi => by rw [symbol_push_of_lt s x (h.named hi).1]
  rw [find?, named_push]
  by_cases hname : name = x.name
  · rw [if_pos hname, find?_append, hold]
    by_cases hspace : x.space = space
    · simp [hname, hspace]
    · simp [hspace]
  · rw [if_neg hname, hold]
    simp [hname]

lemma Indexed.push (h : s.Indexed p) {x : Symbol}
    (hnew : p x.space → s.find? x.space x.name = none) : (s.push x).Indexed p := by
  have hold : ∀ {name i}, i ∈ s.named name →
      i < (s.push x).symbols.size ∧ ((s.push x).symbol i).name = name := by
    intro name i hi
    obtain ⟨hlt, hname⟩ := h.named hi
    rw [size_push, symbol_push_of_lt s x hlt]
    exact ⟨Nat.lt_succ_of_lt hlt, hname⟩
  refine ⟨fun {name i} hi => ?_, fun i hi hp => ?_⟩
  · rw [named_push] at hi
    split at hi
    · rename_i hname
      rcases mem_append.mp hi with hi | hi
      · exact hold hi
      · obtain rfl := mem_singleton.mp hi
        rw [size_push, symbol_push_size]
        exact ⟨Nat.lt_succ_self _, hname.symm⟩
    · exact hold hi
  · rw [size_push, Nat.lt_succ_iff_lt_or_eq] at hi
    rcases hi with hi | rfl
    · rw [symbol_push_of_lt s x hi] at hp ⊢
      rw [h.find?_push, h.found i hi hp, Option.some_or]
    · rw [symbol_push_size] at hp ⊢
      rw [h.find?_push, hnew hp]
      simp

/-! ## Titles -/

def Titled (s : State) : Prop :=
  ∀ name, name ≠ "" → ∀ id ∈ s.named name, (s.symbol id).name = name

lemma Indexed.titled (h : s.Indexed p) : s.Titled :=
  fun _ _ _ hi => (h.named hi).2

lemma symbol_of_size_le (h : s.symbols.size ≤ id) : s.symbol id =
    { space := none, name := "", origin := none, file := none, flavor := .unspecified,
      defined := false } := by
  rw [symbol, Array.getD_eq_getD_getElem?, Array.getElem?_eq_none h]
  rfl

lemma lt_of_symbol {P : Symbol → Prop} (h : P (s.symbol id))
    (hno : ¬ P { space := none, name := "", origin := none, file := none, flavor := .unspecified,
                 defined := false }) :
    id < s.symbols.size := by
  by_contra hge
  rw [symbol_of_size_le (Nat.not_lt.mp hge)] at h
  exact hno h

lemma lt_of_name (h : (s.symbol id).name ≠ "") : id < s.symbols.size :=
  lt_of_symbol (P := (·.name ≠ "")) h fun h => h rfl

lemma Titled.alter (h : s.Titled) (hname : ∀ x, (f x).name = x.name) : (s.alter id f).Titled := by
  intro name hne i hi
  rw [symbol_alter_congr s Symbol.name id f hname]
  exact h name hne i hi

lemma Titled.push (h : s.Titled) (x : Symbol) : (s.push x).Titled := by
  intro name hne i hi
  rw [named_push] at hi
  have hold : ∀ i ∈ s.named name, ((s.push x).symbol i).name = name := by
    intro i hi
    have hname := h name hne i hi
    rw [s.symbol_push_of_lt x (lt_of_name (hname ▸ hne))]
    exact hname
  split at hi
  · rename_i hx
    rcases mem_append.mp hi with hi | hi
    · exact hold i hi
    · rw [mem_singleton.mp hi, symbol_push_size, hx]
  · exact hold i hi

end State

/-! ## Edges -/

lemma Edges.targets_touch (edges : Edges) (a c : Id) : (edges.touch a).targets c = edges.targets c := by
  rw [Edges.targets, Edges.touch, Assoc.get?_set]
  split
  · rename_i h
    rw [h]
    rfl
  · rfl

lemma Edges.targets_add (edges : Edges) (a b c : Id) : (edges.add a b).targets c
    = if c = a ∧ b ∉ edges.targets a then edges.targets c ++ [b] else edges.targets c := by
  have hget : (edges.add a b).targets c = if c = a
      then if b ∈ edges.targets a then edges.targets a else edges.targets a ++ [b]
      else edges.targets c := by
    rw [Edges.targets, Edges.add, Assoc.get?_set]
    split
    · rfl
    · rfl
  rw [hget]
  by_cases hc : c = a
  · subst hc
    by_cases hb : b ∈ edges.targets c
    · simp [hb]
    · simp [hb]
  · simp [hc]

/-- Edges lead from symbols of one kind to symbols of another, to none of them twice. -/
def Edges.Among (solid known : Id → Prop) (edges : Edges) : Prop :=
  ∀ e ∈ edges, solid e.1 ∧ e.2.Nodup ∧ ∀ t ∈ e.2, known t

namespace Edges.Among

variable {known solid : Id → Prop} {edges : Edges} {source target : Id}

lemma targets (h : edges.Among solid known) (source : Id) :
    (edges.targets source).Nodup ∧ ∀ t ∈ edges.targets source, known t := by
  rw [Edges.targets]
  cases hget : Assoc.get? source edges with
  | none => exact ⟨nodup_nil, fun t ht => absurd ht not_mem_nil⟩
  | some targets => exact (h _ (Assoc.mem_of_get? hget)).2

lemma touch (h : edges.Among solid known) (hsource : solid source) :
    (edges.touch source).Among solid known := by
  intro e he
  rcases Assoc.mem_of_mem_set he with rfl | he
  · exact ⟨hsource, h.targets source⟩
  · exact h e he

lemma add (h : edges.Among solid known) (hsource : solid source) (htarget : known target) :
    (edges.add source target).Among solid known := by
  intro e he
  obtain ⟨hnodup, hknown⟩ := h.targets source
  rcases Assoc.mem_of_mem_set he with rfl | he
  · refine ⟨hsource, ?_⟩
    split
    · exact ⟨hnodup, hknown⟩
    · rename_i hnew
      refine ⟨nodup_append.mpr ⟨hnodup, nodup_singleton _, ?_⟩, fun t ht => ?_⟩
      · intro a ha b hb hab
        rw [mem_singleton.mp hb] at hab
        exact hnew (hab ▸ ha)
      · rcases mem_append.mp ht with ht | ht
        · exact hknown t ht
        · exact mem_singleton.mp ht ▸ htarget
  · exact h e he

lemma remove (h : edges.Among solid known) (source target : Id) :
    (edges.remove source target).Among solid known := by
  intro e he
  rw [Edges.remove] at he
  cases hget : Assoc.get? source edges with
  | none =>
    rw [hget] at he
    exact h e he
  | some targets =>
    rw [hget] at he
    rcases Assoc.mem_of_mem_set he with rfl | he
    · obtain ⟨hsource, hnodup, hknown⟩ := h _ (Assoc.mem_of_get? hget)
      exact ⟨hsource, hnodup.erase _, fun t ht => hknown t (mem_of_mem_erase ht)⟩
    · exact h e he

end Edges.Among

/-! ## Asking for a symbol -/

lemma modifySymbol_run (id : Id) (f : Symbol → Symbol) (s : State) :
    (modifySymbol id f).run.run s = (.ok (), s.alter id f) := rfl

lemma symbolOf_run (id : Id) (s : State) : (symbolOf id).run.run s = (.ok (s.symbol id), s) := rfl

lemma does_symbolOf {T : Rules State} {pre : State → Prop} (id : Id) :
    T.Does pre (symbolOf id) fun x s => x = s.symbol id ∧ pre s :=
  Rules.does_of_run fun s hs hpre => ⟨_, s, rfl, hs, T.refl s, rfl, hpre⟩

lemma symbolFor_run (space : Option String) (name : String) (origin : Option Origin)
    (flavor : Flavor) (s : State) :
    (∃ id, s.find? space name = some id ∧
      (symbolFor space name origin flavor).run.run s = (.ok id, s.raise id flavor)) ∨
    (s.find? space name = none ∧ (symbolFor space name origin flavor).run.run s
      = (.ok s.symbols.size, s.push (s.fresh space name origin flavor))) := by
  rw [symbolFor, run_get_bind]
  rw [show (s.named name).find? (fun id => (s.symbol id).space == space) = s.find? space name from
    rfl]
  cases hfind : s.find? space name with
  | some id =>
    refine Or.inl ⟨id, rfl, ?_⟩
    dsimp only
    rw [State.raise]
    split <;> rfl
  | none =>
    refine Or.inr ⟨rfl, ?_⟩
    rw [State.fresh, State.fileFor]
    cases space.bind (Assoc.get? · s.modules) <;> rfl

lemma State.Indexed.symbolFor_ok {p : Option String → Prop} {s s' : State} {name : String}
    {origin : Option Origin} {flavor : Flavor} (h : s.Indexed p)
    (hrun : (symbolFor space name origin flavor).run.run s = (.ok id, s')) :
    id < s'.symbols.size ∧ s'.find? space name = some id ∧ (s'.symbol id).space = space ∧
      (s'.symbol id).name = name ∧ flavor.specificity ≤ (s'.symbol id).flavor.specificity := by
  rcases symbolFor_run space name origin flavor s with ⟨i, hfind, hi⟩ | ⟨hnew, hi⟩
  · obtain ⟨hid, rfl⟩ := Prod.mk.inj (hi.symm.trans hrun)
    obtain rfl := Except.ok.inj hid
    have hraised := h.raise i flavor
    have hfind' := (State.find?_raise i flavor space name).trans hfind
    obtain ⟨hlt, hspace, hname⟩ := hraised.lt_of_find? hfind'
    exact ⟨hlt, hfind', hspace, hname, State.specificity_raise (h.lt_of_find? hfind).1 flavor⟩
  · obtain ⟨hid, rfl⟩ := Prod.mk.inj (hi.symm.trans hrun)
    obtain rfl := Except.ok.inj hid
    rw [State.size_push, State.symbol_push_size, h.find?_push, hnew]
    exact ⟨Nat.lt_succ_self _, if_pos ⟨rfl, rfl⟩, rfl, rfl, Nat.le_refl _⟩

end Docsmith.Calls
