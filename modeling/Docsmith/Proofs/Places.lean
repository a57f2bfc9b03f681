import Docsmith.Proofs.Paths

/-! # Places in a folder

An entry that is set at a place shows there and below it (`get?_set_append`), makes folders of the
places above (`get?_set_of_prefix`), and leaves all others alone (`get?_set_of_apart`). Where a path
leads does not depend on the folder: `walk` takes the parts of the path one by one, and `stops`
lists the places whose names it takes. `follow` only checks that those are folders, and `makeAlong`
adds those that are missing. -/

namespace Docsmith

open List

def Entry.below (e : Entry) (path : List String) : Option Entry :=
  match e with
  | .folder f => f.get? path
  | .file c => if path.isEmpty then some (.file c) else none

namespace Folder

/-! ## Entries that are set -/

variable (f : Folder)

lemma get?_append (x r : List String) : f.get? (x ++ r) = (f.get? x).bind (·.below r) := by
  induction x generalizing f with
  | nil => rfl
  | cons n x ih =>
    rw [cons_append, get?, get?]
    cases f.find? n with
    | none => rfl
    | some e =>
      cases e with
      | folder inner => exact ih inner
      | file c =>
        cases x with
        | nil | cons m x => rfl

lemma get?_empty {x : List String} (hx : x ≠ []) : Folder.empty.get? x = none := by
  cases x with
  | nil => exact absurd rfl hx
  | cons n x => rfl

lemma get?_put_self (n : String) (e : Entry) (x : List String) :
    (f.put n e).get? (n :: x) = e.below x := by
  rw [get?, find?_put_self]
  cases e with
  | folder inner | file c => rfl

lemma get?_put_of_ne {n m : String} (e : Entry) (x : List String) (h : m ≠ n) :
    (f.put n e).get? (m :: x) = f.get? (m :: x) := by
  rw [get?, get?, find?_put_of_ne f e h]

lemma set_cons_cons (e : Entry) (n m : String) (y : List String) :
    f.set e (n :: m :: y) = f.put n (.folder ((f.sub n).set e (m :: y))) := rfl

variable {y : List String}

lemma get?_set_append (e : Entry) (hy : y ≠ []) (r : List String) :
    (f.set e y).get? (y ++ r) = e.below r := by
  induction y generalizing f with
  | nil => exact absurd rfl hy
  | cons n y ih =>
    cases y with
    | nil => exact get?_put_self f n e r
    | cons m y =>
      rw [set_cons_cons, cons_append, get?_put_self]
      exact ih (f.sub n) (by simp)

lemma get?_set_self (c : Content) (hy : y ≠ []) :
    (f.set (.file c) y).get? y = some (.file c) := by
  have h := get?_set_append f (.file c) hy []
  rwa [append_nil] at h

lemma get?_set_of_prefix (e : Entry) (x : List String) {r : List String} (hr : r ≠ []) :
    ∃ g, (f.set e (x ++ r)).get? x = some (.folder g) := by
  induction x generalizing f with
  | nil => exact ⟨_, rfl⟩
  | cons n x ih =>
    obtain ⟨m, y, hmy⟩ := exists_cons_of_ne_nil (l := x ++ r) (by simp [hr])
    obtain ⟨g, hg⟩ := ih (f.sub n)
    refine ⟨g, ?_⟩
    rw [hmy] at hg
    rw [cons_append, hmy, set_cons_cons, get?_put_self]
    exact hg

lemma get?_set_of_apart (e : Entry) {x y : List String} (hxy : ¬ x <+: y) (hyx : ¬ y <+: x) :
    (f.set e y).get? x = f.get? x := by
  induction y generalizing f x with
  | nil => exact absurd nil_prefix hyx
  | cons n y ih =>
    cases x with
    | nil => exact absurd nil_prefix hxy
    | cons m x =>
      rw [cons_prefix_cons] at hxy hyx
      cases y with
      | nil =>
        have hne : m ≠ n := fun h => hyx ⟨h.symm, nil_prefix⟩
        exact get?_put_of_ne f e x hne
      | cons k y =>
        rw [set_cons_cons]
        by_cases hmn : m = n
        · subst hmn
          have hx : ¬ x <+: k :: y := fun h => hxy ⟨rfl, h⟩
          have hy : ¬ k :: y <+: x := fun h => hyx ⟨rfl, h⟩
          have hne : x ≠ [] := fun h => hx (h ▸ nil_prefix)
          rw [get?_put_self]
          refine (ih (f.sub m) hx hy).trans ?_
          rw [get?, sub]
          cases f.find? m with
          | none => exact get?_empty hne
          | some a =>
            cases a with
            | folder inner => rfl
            | file c => simp [get?_empty hne, hne]
        · exact get?_put_of_ne f _ x hmn

/-! ## What a change keeps -/

def Grows (f f' : Folder) : Prop :=
  ∀ x g, f.get? x = some (.folder g) → ∃ g', f'.get? x = some (.folder g')

lemma Grows.refl : Grows f f := fun _ g hx => ⟨g, hx⟩

lemma Grows.trans {f g h : Folder} (hfg : Grows f g) (hgh : Grows g h) : Grows f h := by
  intro x a hx
  obtain ⟨b, hb⟩ := hfg x a hx
  exact hgh x b hb

def NoFolder (f : Folder) (x : List String) : Prop :=
  ∀ g, f.get? x ≠ some (.folder g)

lemma get?_below_of_noFolder {f : Folder} (hy : f.NoFolder y) {r : List String} (hr : r ≠ []) :
    f.get? (y ++ r) = none := by
  rw [get?_append]
  cases hget : f.get? y with
  | none => rfl
  | some e =>
    cases e with
    | folder g => exact absurd hget (hy g)
    | file c => simp [Entry.below, hr]

lemma grows_set {f : Folder} (hy : f.NoFolder y) (e : Entry) : Grows f (f.set e y) := by
  intro x g hx
  by_cases hyx : y <+: x
  · obtain ⟨r, rfl⟩ := hyx
    cases r with
    | nil =>
      rw [append_nil] at hx
      exact absurd hx (hy g)
    | cons n r =>
      rw [get?_below_of_noFolder hy (by simp)] at hx
      exact nomatch hx
  · by_cases hxy : x <+: y
    · obtain ⟨r, rfl⟩ := hxy
      exact get?_set_of_prefix f e x fun hr => hyx (by simp [hr])
    · exact ⟨g, by rw [get?_set_of_apart f e hxy hyx, hx]⟩

lemma get?_of_set_file {f : Folder} {e : Entry} {x y : List String} {c : Content}
    (h : (f.set e y).get? x = some (.file c)) (hy : y ≠ []) :
    f.get? x = some (.file c) ∨ ∃ r, x = y ++ r ∧ e.below r = some (.file c) := by
  by_cases hyx : y <+: x
  · obtain ⟨r, rfl⟩ := hyx
    rw [get?_set_append f e hy] at h
    exact Or.inr ⟨r, rfl, h⟩
  · by_cases hxy : x <+: y
    · obtain ⟨r, rfl⟩ := hxy
      obtain ⟨g, hg⟩ := get?_set_of_prefix f e x fun hr : r = [] => hyx (by simp [hr])
      rw [hg] at h
      exact nomatch h
    · rw [get?_set_of_apart f e hxy hyx] at h
      exact Or.inl h

/-- Making folders leaves files as they are, and so what is not above such a place. -/
structure Made (places : List (List String)) (f f' : Folder) : Prop where
  grows : Grows f f'
  files : ∀ x c, f'.get? x = some (.file c) → f.get? x = some (.file c)
  apart : ∀ x, f.NoFolder x → (∀ y ∈ places, ¬ x <+: y) → f'.get? x = f.get? x

lemma Made.refl (places : List (List String)) (f : Folder) : Made places f f where
  grows := Grows.refl f
  files _ _ h := h
  apart _ _ _ := rfl

lemma Made.trans {places : List (List String)} {f g h : Folder} (hfg : Made places f g)
    (hgh : Made places g h) : Made places f h where
  grows := hfg.grows.trans hgh.grows
  files x c hx := hfg.files x c (hgh.files x c hx)
  apart x hx hapart := by
    have hsame := hfg.apart x hx hapart
    rw [← hsame]
    refine hgh.apart x (fun a ha => hx a ?_) hapart
    rw [← hsame, ha]

lemma Made.mono {places places' : List (List String)} {f g : Folder}
    (hsub : ∀ x ∈ places, x ∈ places') (h : Made places f g) : Made places' f g where
  grows := h.grows
  files := h.files
  apart x hx hapart := h.apart x hx fun y hy => hapart y (hsub y hy)

lemma made_set {f : Folder} (hy : y ≠ []) (hnone : f.get? y = none) :
    Made [y] f (f.set (.folder .empty) y) where
  grows := grows_set (fun g hg => by rw [hnone] at hg; exact nomatch hg) _
  files x c hx := by
    rcases get?_of_set_file hx hy with hold | ⟨r, -, hr⟩
    · exact hold
    · cases r with
      | nil | cons n r => exact nomatch hr
  apart x hx hapart := by
    have hxy : ¬ x <+: y := hapart y mem_cons_self
    by_cases hyx : y <+: x
    · -- nothing was below the place, and nothing is below the new folder
      obtain ⟨r, rfl⟩ := hyx
      have hr : r ≠ [] := fun h => hxy (by simp [h])
      rw [get?_set_append f _ hy, get?_append, hnone]
      exact get?_empty hr
    · exact get?_set_of_apart f _ hxy hyx

/-! ## Where a path leads -/

def walk : List String → List String → List String
  | here, [] => here
  | here, p :: ps =>
    if p.isEmpty || p == "." then walk here ps
    else if p == ".." then walk (up here) ps
    else walk (here ++ [p]) ps

def stops : List String → List String → List (List String)
  | _, [] => []
  | here, p :: ps =>
    if p.isEmpty || p == "." then stops here ps
    else if p == ".." then stops (up here) ps
    else (here ++ [p]) :: stops (here ++ [p]) ps

def IsStay (p : String) : Prop := p = "" ∨ p = "."

def IsName (p : String) : Prop :=
  p ≠ "" ∧ p ≠ "." ∧ p ≠ ".."

instance : DecidablePred IsName := fun p =>
  inferInstanceAs (Decidable (p ≠ "" ∧ p ≠ "." ∧ p ≠ ".."))

lemma part_cases (p : String) : IsStay p ∨ p = ".." ∨ IsName p := by
  by_cases hempty : p = ""
  · exact Or.inl (Or.inl hempty)
  · by_cases hdot : p = "."
    · exact Or.inl (Or.inr hdot)
    · by_cases hup : p = ".."
      · exact Or.inr (Or.inl hup)
      · exact Or.inr (Or.inr ⟨hempty, hdot, hup⟩)

section Steps

variable {p : String} (here ps : List String)

lemma IsStay.test (hp : IsStay p) : (p.isEmpty || p == ".") = true := by
  rcases hp with rfl | rfl
  · rfl
  · rfl

lemma IsName.tests (hp : IsName p) :
    (p.isEmpty || p == ".") = false ∧ (p == "..") = false := by
  obtain ⟨hempty, hstay, hup⟩ := hp
  simp [hempty, hstay, hup]

lemma walk_stay (hp : IsStay p) : walk here (p :: ps) = walk here ps := by
  rw [walk, hp.test, if_pos rfl]

lemma walk_up : walk here (".." :: ps) = walk (up here) ps := rfl

lemma walk_name (hp : IsName p) : walk here (p :: ps) = walk (here ++ [p]) ps := by
  rw [walk, hp.tests.1, hp.tests.2, if_neg (by simp), if_neg (by simp)]

lemma stops_stay (hp : IsStay p) : stops here (p :: ps) = stops here ps := by
  rw [stops, hp.test, if_pos rfl]

lemma stops_up : stops here (".." :: ps) = stops (up here) ps := rfl

lemma stops_name (hp : IsName p) :
    stops here (p :: ps) = (here ++ [p]) :: stops (here ++ [p]) ps := by
  rw [stops, hp.tests.1, hp.tests.2, if_neg (by simp), if_neg (by simp)]

lemma solid_cons_of_ne (hp : p ≠ "") : Path.solid (p :: ps) = p :: Path.solid ps := by
  rw [Path.solid, filter_cons_of_pos (by simpa using hp)]
  rfl

end Steps

lemma walk_append (here ps qs : List String) :
    walk here (ps ++ qs) = walk (walk here ps) qs := by
  induction ps generalizing here with
  | nil => rfl
  | cons p ps ih =>
    rw [cons_append]
    rcases part_cases p with hp | rfl | hp
    · rw [walk_stay _ _ hp, walk_stay _ _ hp, ih]
    · rw [walk_up, walk_up, ih]
    · rw [walk_name _ _ hp, walk_name _ _ hp, ih]

lemma stops_append (here ps qs : List String) :
    stops here (ps ++ qs) = stops here ps ++ stops (walk here ps) qs := by
  induction ps generalizing here with
  | nil => rfl
  | cons p ps ih =>
    rw [cons_append]
    rcases part_cases p with hp | rfl | hp
    · rw [stops_stay _ _ hp, stops_stay _ _ hp, walk_stay _ _ hp, ih]
    · rw [stops_up, stops_up, walk_up, ih]
    · rw [stops_name _ _ hp, stops_name _ _ hp, walk_name _ _ hp, ih, cons_append]

lemma walk_solid (here ps : List String) :
    walk here (Path.solid ps) = walk here ps ∧ stops here (Path.solid ps) = stops here ps := by
  induction ps generalizing here with
  | nil => exact ⟨rfl, rfl⟩
  | cons p ps ih =>
    by_cases hempty : p = ""
    · subst hempty
      exact ih here
    · rw [solid_cons_of_ne _ hempty]
      rcases part_cases p with hp | rfl | hp
      · rw [walk_stay _ _ hp, walk_stay _ _ hp, stops_stay _ _ hp, stops_stay _ _ hp]
        exact ih here
      · exact ih (up here)
      · rw [walk_name _ _ hp, walk_name _ _ hp, stops_name _ _ hp, stops_name _ _ hp,
          (ih (here ++ [p])).2]
        exact ⟨(ih (here ++ [p])).1, rfl⟩

lemma walk_names {ns : List String} (hns : ∀ n ∈ ns, IsName n) (here : List String) :
    walk here ns = here ++ ns := by
  induction ns generalizing here with
  | nil => exact (append_nil here).symm
  | cons n ns ih =>
    obtain ⟨hn, hrest⟩ := forall_mem_cons.mp hns
    rw [walk_name _ _ hn, ih hrest]
    simp

lemma mem_stops_names {ns : List String} (hns : ∀ n ∈ ns, IsName n) {here x : List String}
    (hx : x ∈ stops here ns) : ∃ m, m <+: ns ∧ m ≠ [] ∧ x = here ++ m := by
  induction ns generalizing here with
  | nil => exact absurd hx not_mem_nil
  | cons n ns ih =>
    obtain ⟨hn, hrest⟩ := forall_mem_cons.mp hns
    rw [stops_name _ _ hn] at hx
    rcases mem_cons.mp hx with rfl | hx
    · exact ⟨[n], cons_prefix_cons.mpr ⟨rfl, nil_prefix⟩, by simp, rfl⟩
    · obtain ⟨m, hm, -, rfl⟩ := ih hrest hx
      exact ⟨n :: m, cons_prefix_cons.mpr ⟨rfl, hm⟩, by simp, by simp⟩

lemma up_eq_cons {n : String} (hn : IsName n) {here s : List String} (h : up here = n :: s) :
    ∃ s', here = n :: s' := by
  rw [up] at h
  split at h
  · exact ⟨s, h⟩
  · split at h
    · -- only steps up lead around
      rename_i haround
      have hmem : n ∈ here ++ [aroundName] := h ▸ mem_cons_self
      rw [isAround, all_eq_true] at haround
      rcases mem_append.mp hmem with hin | hin
      · exact absurd (beq_iff_eq.mp (haround n hin)) hn.2.2
      · exact absurd (mem_singleton.mp hin) hn.2.2
    · cases here with
      | nil => exact nomatch h
      | cons m here =>
        cases here with
        | nil => exact nomatch h
        | cons m' here =>
          rw [dropLast_cons_cons, List.cons.injEq] at h
          exact ⟨m' :: here, by rw [h.1]⟩

lemma mem_stops_of_walk {n : String} (hn : IsName n) {here ps r : List String}
    (h : walk here ps = n :: r) : (∃ s, here = n :: s) ∨ [n] ∈ stops here ps := by
  induction ps generalizing here with
  | nil => exact Or.inl ⟨r, h⟩
  | cons p ps ih =>
    rcases part_cases p with hp | rfl | hp
    · rw [walk_stay _ _ hp] at h
      rw [stops_stay _ _ hp]
      exact ih h
    · rcases ih h with ⟨s, hs⟩ | hmem
      · exact Or.inl (up_eq_cons hn hs)
      · exact Or.inr hmem
    · rw [walk_name _ _ hp] at h
      rw [stops_name _ _ hp]
      rcases ih h with ⟨s, hs⟩ | hmem
      · cases here with
        | nil =>
          rw [nil_append, List.cons.injEq] at hs
          exact Or.inr (by simp [hs.1])
        | cons m here =>
          rw [cons_append, List.cons.injEq] at hs
          exact Or.inl ⟨here, by rw [hs.1]⟩
      · exact Or.inr (mem_cons_of_mem _ hmem)

lemma mem_stops {here ps x : List String} (hx : x ∈ stops here ps) :
    ∃ y p, x = y ++ [p] ∧ p ∈ ps ∧ IsName p := by
  induction ps generalizing here with
  | nil => exact absurd hx not_mem_nil
  | cons p ps ih =>
    rcases part_cases p with hp | rfl | hp
    · rw [stops_stay _ _ hp] at hx
      obtain ⟨y, q, hy, hq, hname⟩ := ih hx
      exact ⟨y, q, hy, mem_cons_of_mem _ hq, hname⟩
    · obtain ⟨y, q, hy, hq, hname⟩ := ih hx
      exact ⟨y, q, hy, mem_cons_of_mem _ hq, hname⟩
    · rw [stops_name _ _ hp] at hx
      rcases mem_cons.mp hx with rfl | hx
      · exact ⟨here, p, rfl, mem_cons_self, hp⟩
      · obtain ⟨y, q, hy, hq, hname⟩ := ih hx
        exact ⟨y, q, hy, mem_cons_of_mem _ hq, hname⟩

lemma entry?_concat (y : List String) {p path : String} (hname : IsName p)
    (hp : p ∈ Path.parts path) : f.entry? (y ++ [p]) = f.get? (y ++ [p]) := by
  have hslash : '/' ∉ p.toList := by
    rw [Path.parts_eq] at hp
    obtain ⟨cs, hcs, rfl⟩ := mem_map.mp hp
    rw [String.toList_ofList]
    exact (Path.mem_pieces hcs).1
  have hroot : (y ++ [p] == [rootName]) = false := by
    rw [beq_eq_false_iff_ne]
    intro h
    have hn : p = rootName := (List.cons.inj (append_inj' (show y ++ [p] = [] ++ [rootName] from h) rfl).2).1
    exact hslash (by simp [hn, rootName])
  have haround : isAround (y ++ [p]) = false := by
    rw [isAround]
    simp [aroundName, hname.2.2]
  rw [ entry?, hroot, haround]
  cases f.get? (y ++ [p]) with
  | none | some e => rfl

/-! ## Following a path -/

section Follow

variable {root : Folder} {path p : String} {here ps place : List String}

lemma follow_stay (hp : IsStay p) :
    follow root path here (p :: ps) = follow root path here ps := by
  rw [follow, hp.test, if_pos rfl]

lemma follow_name_ok (hp : IsName p) : follow root path here (p :: ps) = .ok place ↔
    p.utf8ByteSize ≤ maxName ∧ if ps = [] then here ++ [p] = place else
      (∃ g, root.get? (here ++ [p]) = some (.folder g)) ∧
        follow root path (here ++ [p]) ps = .ok place := by
  rw [follow, hp.tests.1, hp.tests.2]
  by_cases hlong : p.utf8ByteSize > maxName
  · rw [if_pos hlong]
    simp [Nat.not_le.mpr hlong]
  · rw [if_neg hlong]
    cases ps with
    | nil => simp [Nat.not_lt.mp hlong]
    | cons q ps =>
      cases hget : root.get? (here ++ [p]) with
      | none => simp [hget]
      | some e =>
        cases e with
        | file c => simp [hget]
        | folder g => simp [hget, Nat.not_lt.mp hlong]

lemma follow_spec (h : follow root path here ps = .ok place) :
    place = walk here ps ∧
      (∀ x ∈ stops here ps, x = place ∨ ∃ g, root.get? x = some (.folder g)) ∧
      ∀ root', Grows root root' → follow root' path here ps = .ok place := by
  induction ps generalizing here with
  | nil =>
    refine ⟨(Except.ok.inj h).symm, ?_, fun _ _ => h⟩
    intro x hx
    exact absurd hx not_mem_nil
  | cons p ps ih =>
    rcases part_cases p with hp | rfl | hp
    · rw [follow_stay hp] at h
      obtain ⟨hwalk, hstops, hgrows⟩ := ih h
      rw [walk_stay _ _ hp, stops_stay _ _ hp]
      exact ⟨hwalk, hstops, fun root' hroot' => (follow_stay hp).trans (hgrows root' hroot')⟩
    · exact ih h
    · obtain ⟨hsize, hrest⟩ := (follow_name_ok hp).mp h
      rw [walk_name _ _ hp, stops_name _ _ hp]
      by_cases hps : ps = []
      · rw [if_pos hps] at hrest
        subst hps hrest
        refine ⟨rfl, ?_, fun root' _ => (follow_name_ok hp).mpr ⟨hsize, rfl⟩⟩
        intro x hx
        exact Or.inl (mem_singleton.mp hx)
      · rw [if_neg hps] at hrest
        obtain ⟨⟨g, hg⟩, hfollow⟩ := hrest
        obtain ⟨hwalk, hstops, hgrows⟩ := ih hfollow
        refine ⟨hwalk, forall_mem_cons.mpr ⟨Or.inr ⟨g, hg⟩, hstops⟩, fun root' hroot' => ?_⟩
        rw [follow_name_ok hp, if_neg hps]
        exact ⟨hsize, hroot' _ g hg, hgrows root' hroot'⟩

lemma follow_ok {n : String} (hn : IsName n) (hsize : ∀ p ∈ ps ++ [n], p.utf8ByteSize ≤ maxName)
    (hstops : ∀ x ∈ stops here ps, ∃ g, root.get? x = some (.folder g)) :
    follow root path here (ps ++ [n]) = .ok (walk here ps ++ [n]) := by
  induction ps generalizing here with
  | nil => exact (follow_name_ok hn).mpr ⟨hsize n (by simp), rfl⟩
  | cons p ps ih =>
    obtain ⟨hp, hrest⟩ := forall_mem_cons.mp hsize
    rw [cons_append]
    rcases part_cases p with hstay | rfl | hname
    · rw [stops_stay _ _ hstay] at hstops
      rw [follow_stay hstay, walk_stay _ _ hstay]
      exact ih hrest hstops
    · exact ih hrest hstops
    · rw [stops_name _ _ hname] at hstops
      obtain ⟨hhere, hbelow⟩ := forall_mem_cons.mp hstops
      rw [follow_name_ok hname, if_neg (by simp), walk_name _ _ hname]
      exact ⟨hp, hhere, ih hrest hbelow⟩

end Follow

/-! ## Making folders -/

section Make

variable {root : Folder} {path p : String} {used : Nat} {here ps : List String}

lemma makeAlong_stay (hp : IsStay p) : makeAlong root path used here (p :: ps)
    = makeAlong root path (used + p.utf8ByteSize + 1) here ps := by
  simp only [makeAlong, hp.test, if_true]

variable (root path used here ps) in
lemma makeAlong_name (hp : IsName p) :
    (∃ e, makeAlong root path used here (p :: ps) = (.error e, root)
      ∧ (checkSpelling p = .ok () → p.utf8ByteSize ≤ maxName →
        used + p.utf8ByteSize + 1 ≤ maxPath + 1 → ∃ c, root.get? (here ++ [p]) = some (.file c)))
    ∨ ∃ root', makeAlong root path used here (p :: ps)
        = makeAlong root' path (used + p.utf8ByteSize + 1) (here ++ [p]) ps
      ∧ Made [here ++ [p]] root root' ∧ ∃ g, root'.get? (here ++ [p]) = some (.folder g) := by
  simp only [makeAlong, hp.tests.1, hp.tests.2]
  cases hspell : checkSpelling p with
  | error e => exact Or.inl ⟨e, rfl, fun h => nomatch h⟩
  | ok u =>
    by_cases hlong : p.utf8ByteSize > maxName ∨ used + p.utf8ByteSize + 1 > maxPath + 1
    · simp only [decide_eq_true_eq, Bool.or_eq_true, hlong]
      refine Or.inl ⟨_, rfl, fun _ hname hpath => ?_⟩
      rcases hlong with h | h
      · exact absurd hname (Nat.not_le.mpr h)
      · exact absurd hpath (Nat.not_le.mpr h)
    · simp only [decide_eq_true_eq, Bool.or_eq_true, hlong]
      cases hget : root.get? (here ++ [p]) with
      | none =>
        refine Or.inr ⟨_, rfl, made_set (by simp) hget, .empty, ?_⟩
        have hself := get?_set_append root (.folder .empty) (y := here ++ [p]) (by simp) []
        rwa [append_nil] at hself
      | some e =>
        cases e with
        | folder g => exact Or.inr ⟨root, rfl, Made.refl _ root, g, hget⟩
        | file c =>
          refine Or.inl ?_
          cases ps.find? (!·.isEmpty) with
          | none => exact ⟨_, rfl, fun _ _ _ => ⟨c, rfl⟩⟩
          | some q =>
            have hfault : ∃ e, (checkSpelling q *> .error (.notAFolder path)
                : Except Fault Unit) = .error e := by
              cases checkSpelling q with
              | error e => exact ⟨e, rfl⟩
              | ok u => exact ⟨_, rfl⟩
            obtain ⟨e, he⟩ := hfault
            exact ⟨e, congrArg (·, root) he, fun _ _ _ => ⟨c, rfl⟩⟩

lemma made_makeAlong : Made (stops here ps) root (makeAlong root path used here ps).2 := by
  induction ps generalizing root used here with
  | nil => exact Made.refl _ root
  | cons p ps ih =>
    rcases part_cases p with hp | rfl | hp
    · rw [makeAlong_stay hp, stops_stay _ _ hp]
      exact ih
    · exact ih
    · rw [stops_name _ _ hp]
      rcases makeAlong_name root path used here ps hp with ⟨e, he, -⟩ | ⟨root', he, hmade, -⟩
      · rw [he]
        exact Made.refl _ root
      · rw [he]
        exact (hmade.mono (by simp)).trans (ih.mono fun x hx => mem_cons_of_mem _ hx)

lemma makeAlong_ok (hspell : ∀ p ∈ ps, checkSpelling p = .ok ())
    (hsize : ∀ p ∈ ps, p.utf8ByteSize ≤ maxName)
    (hpath : used + (ps.map fun p => p.utf8ByteSize + 1).sum ≤ maxPath + 1)
    (hfiles : ∀ x ∈ stops here ps, ∀ c, root.get? x ≠ some (.file c)) :
    (makeAlong root path used here ps).1 = .ok () ∧
      ∀ x ∈ stops here ps, ∃ g, (makeAlong root path used here ps).2.get? x = some (.folder g) := by
  induction ps generalizing root used here with
  | nil => exact ⟨rfl, fun x hx => absurd hx not_mem_nil⟩
  | cons p ps ih =>
    obtain ⟨hspell₁, hspell₂⟩ := forall_mem_cons.mp hspell
    obtain ⟨hsize₁, hsize₂⟩ := forall_mem_cons.mp hsize
    rw [map_cons, sum_cons, ← Nat.add_assoc] at hpath
    rcases part_cases p with hp | rfl | hp
    · rw [stops_stay _ _ hp] at hfiles ⊢
      rw [makeAlong_stay hp]
      exact ih hspell₂ hsize₂ hpath hfiles
    · exact ih hspell₂ hsize₂ hpath hfiles
    · rw [stops_name _ _ hp] at hfiles ⊢
      obtain ⟨hfile, hbelow⟩ := forall_mem_cons.mp hfiles
      rcases makeAlong_name root path used here ps hp with ⟨e, -, he⟩ | ⟨root', he, hmade, g, hg⟩
      · obtain ⟨c, hc⟩ := he hspell₁ hsize₁ (by omega)
        exact absurd hc (hfile c)
      · rw [he]
        have hrest := @ih root' _ _ hspell₂ hsize₂ hpath fun x hx c hc =>
          hbelow x hx c (hmade.files x c hc)
        exact ⟨hrest.1, forall_mem_cons.mpr ⟨made_makeAlong.grows _ g hg, hrest.2⟩⟩

/-! ### Missing folders -/

lemma missing_stay (hp : IsStay p) : missing root here (p :: ps) = missing root here ps := by
  rw [missing, hp.test, if_pos rfl]

lemma missing_name (hp : IsName p) : missing root here (p :: ps)
    = if (root.get? (here ++ [p])).isSome then missing root (here ++ [p]) ps
      else (Path.solid (p :: ps)).length := by
  rw [missing, hp.tests.1, hp.tests.2]
  cases root.get? (here ++ [p]) with
  | none | some e => rfl

lemma missing_solid : missing root here (Path.solid ps) = missing root here ps := by
  induction ps generalizing here with
  | nil => rfl
  | cons p ps ih =>
    by_cases hempty : p = ""
    · subst hempty
      exact ih
    · rw [solid_cons_of_ne _ hempty]
      rcases part_cases p with hp | rfl | hp
      · rw [missing_stay hp, missing_stay hp, ih]
      · exact ih
      · have hsolid : Path.solid (Path.solid ps) = Path.solid ps := by simp [Path.solid]
        rw [missing_name hp, missing_name hp, ih, solid_cons_of_ne _ hempty, hsolid,
          solid_cons_of_ne _ hempty]

lemma missing_le : missing root here ps ≤ ps.length := by
  induction ps generalizing here with
  | nil => exact Nat.le_refl 0
  | cons p ps ih =>
    rcases part_cases p with hp | rfl | hp
    · rw [missing_stay hp]
      exact ih.trans (Nat.le_succ _)
    · exact ih.trans (Nat.le_succ _)
    · rw [missing_name hp]
      split
      · exact ih.trans (Nat.le_succ _)
      · exact length_filter_le _ _

lemma missing_append_le {qs : List String}
    (hstops : ∀ x ∈ stops here ps, ∃ g, root.get? x = some (.folder g)) :
    missing root here (ps ++ qs) ≤ qs.length := by
  induction ps generalizing here with
  | nil => exact missing_le
  | cons p ps ih =>
    rw [cons_append]
    rcases part_cases p with hp | rfl | hp
    · rw [stops_stay _ _ hp] at hstops
      rw [missing_stay hp]
      exact ih hstops
    · exact ih hstops
    · rw [stops_name _ _ hp] at hstops
      obtain ⟨⟨g, hg⟩, hrest⟩ := forall_mem_cons.mp hstops
      rw [missing_name hp, hg]
      exact ih hrest

lemma makeFolders_eq (root : Folder) {path : String} (hpath : path ≠ "") :
    root.makeFolders path =
      if root.missing (startOf path) (Path.parts (trimmed path)) > maxLevels then
        (.error .tooManyLevels, root)
      else makeAlong root path 0 (startOf path) (Path.parts (trimmed path)) := by
  rw [makeFolders, if_neg (by simpa using hpath)]

end Make

end Folder

end Docsmith

