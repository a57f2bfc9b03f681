import Docsmith.Proofs.Rereading

/-! # Paving a way

The folders that a path leads through are made where they are missing, and nothing else changes
(`Paved`). Whatever is done on the way and however it ends, no file appears but at the end of the
path (`OnlyAt`). -/

namespace Docsmith

open List

lemma Path.parts_slash {d : String} (hd : '/' ∉ d.toList) (r : String) :
    parts (d ++ "/" ++ r) = d :: parts r := by
  have hslash : "/".toList = ['/'] := by simp
  rw [parts_eq, parts_eq, String.toList_append, String.toList_append, hslash, append_assoc,
    singleton_append, pieces_append, pieces_of_notMem hd, map_append, map_singleton,
    String.ofList_toList]
  rfl

namespace Folder

open Docsmith.Path

/-- The folders at some places are there, and apart from them nothing has changed. -/
structure Paved (ways : List (List String)) (f f' : Folder) : Prop where
  made : Made ways f f'
  there : ∀ x ∈ ways, ∃ g, f'.get? x = some (.folder g)
  /-- Only missing folders are made. -/
  apart : ∀ x, (∀ y ∈ ways, x <+: y → ∃ g, f.get? y = some (.folder g)) → f'.get? x = f.get? x

section Along

variable {root : Folder} {path p : String} {used : Nat} {here ps : List String}

variable (root path used here ps) in
lemma makeAlong_pass (hp : IsName p) :
    (makeAlong root path used here (p :: ps)).2 = root ∨
      ∃ root', makeAlong root path used here (p :: ps)
          = makeAlong root' path (used + p.utf8ByteSize + 1) (here ++ [p]) ps ∧
        ((∃ g, root.get? (here ++ [p]) = some (.folder g)) ∧ root' = root ∨
          root.get? (here ++ [p]) = none ∧ root' = root.set (.folder .empty) (here ++ [p])) := by
  simp only [makeAlong, hp.tests.1, hp.tests.2, Bool.false_eq_true, if_false]
  cases checkSpelling p with
  | error e => exact Or.inl rfl
  | ok u =>
    by_cases hlong : p.utf8ByteSize > maxName ∨ used + p.utf8ByteSize + 1 > maxPath + 1
    · refine Or.inl ?_
      simp only [decide_eq_true_eq, Bool.or_eq_true, hlong, if_true]
    · simp only [decide_eq_true_eq, Bool.or_eq_true, hlong, if_false]
      cases hget : root.get? (here ++ [p]) with
      | none => exact Or.inr ⟨_, rfl, Or.inr ⟨rfl, rfl⟩⟩
      | some e =>
        cases e with
        | folder g => exact Or.inr ⟨root, rfl, Or.inl ⟨⟨g, rfl⟩, rfl⟩⟩
        | file c =>
          refine Or.inl ?_
          cases ps.find? (!·.isEmpty) with
          | none | some q => rfl

lemma get?_set_empty {f : Folder} {x y : List String} (hnone : f.get? y = none)
    (hxy : ¬ x <+: y) : (f.set (.folder .empty) y).get? x = f.get? x := by
  by_cases hyx : y <+: x
  · obtain ⟨r, rfl⟩ := hyx
    have hr : r ≠ [] := fun h => hxy (by rw [h, append_nil])
    by_cases hy : y = []
    · rw [hy] at hnone
      cases hnone
    · rw [get?_set_append f _ hy r, get?_append f y r, hnone]
      exact get?_empty hr
  · exact get?_set_of_apart f _ hxy hyx

lemma makeAlong_apart {x : List String}
    (h : ∀ y ∈ stops here ps, x <+: y → ∃ g, root.get? y = some (.folder g)) :
    (makeAlong root path used here ps).2.get? x = root.get? x := by
  induction ps generalizing root used here with
  | nil => rfl
  | cons p ps ih =>
    rcases part_cases p with hp | rfl | hp
    · rw [stops_stay _ _ hp] at h
      rw [makeAlong_stay hp]
      exact ih h
    · exact ih h
    · rw [stops_name _ _ hp] at h
      obtain ⟨hfirst, hrest⟩ := forall_mem_cons.mp h
      rcases makeAlong_pass root path used here ps hp with
        hstop | ⟨root', hpass, ⟨-, rfl⟩ | ⟨hnone, rfl⟩⟩
      · rw [hstop]
      · rw [hpass]
        exact ih hrest
      · have hxy : ¬ x <+: here ++ [p] := by
          intro hpre
          obtain ⟨g, hg⟩ := hfirst hpre
          rw [hnone] at hg
          cases hg
        rw [hpass, ih, get?_set_empty hnone hxy]
        intro y hy hpre
        obtain ⟨g, hg⟩ := hrest y hy hpre
        exact (made_set (by simp) hnone).grows y g hg

lemma paved_makeAlong (hspell : ∀ p ∈ ps, checkSpelling p = .ok ())
    (hsize : ∀ p ∈ ps, p.utf8ByteSize ≤ maxName)
    (hpath : used + (ps.map fun p => p.utf8ByteSize + 1).sum ≤ maxPath + 1)
    (hfiles : ∀ x ∈ stops here ps, ∀ c, root.get? x ≠ some (.file c)) :
    (makeAlong root path used here ps).1 = .ok () ∧
      Paved (stops here ps) root (makeAlong root path used here ps).2 := by
  obtain ⟨hok, hthere⟩ := makeAlong_ok hspell hsize hpath hfiles
  exact ⟨hok, made_makeAlong, hthere, fun x => makeAlong_apart⟩

end Along

lemma mem_stops_of_prefix {ns m : List String} (hns : ∀ n ∈ ns, IsName n) (hm : m <+: ns)
    (hne : m ≠ []) (here : List String) : here ++ m ∈ stops here ns := by
  induction ns generalizing m here with
  | nil => exact absurd (prefix_nil.mp hm) hne
  | cons n ns ih =>
    obtain ⟨hn, hrest⟩ := forall_mem_cons.mp hns
    obtain ⟨k, m, rfl⟩ := exists_cons_of_ne_nil hne
    obtain ⟨rfl, hbelow⟩ := cons_prefix_cons.mp hm
    rw [stops_name _ _ hn]
    by_cases hnil : m = []
    · rw [hnil]
      exact mem_cons_self
    · refine mem_cons_of_mem _ ?_
      have hmem := ih hrest hbelow hnil (here ++ [k])
      rwa [append_assoc, singleton_append] at hmem

/-! ## Folders of a path -/

lemma trimmed_prefix (path : String) : (trimmed path).toList <+: path.toList := by
  rw [trimmed, String.toList_ofList, Chars.trimRight_eq]
  exact rdropWhile_prefix _ _

lemma short_of_solid {ps qs : List String} (hsolid : solid ps = solid qs)
    (h : ∀ q ∈ qs, q.utf8ByteSize ≤ maxName) : ∀ p ∈ ps, p.utf8ByteSize ≤ maxName := by
  intro p hp
  by_cases hempty : p = ""
  · subst hempty
    decide
  · have hmem : p ∈ solid qs := by
      rw [← hsolid]
      exact mem_filter.mpr ⟨hp, by simpa using hempty⟩
    exact h p (mem_filter.mp hmem).1

lemma makeFolders_run {f : Folder} {path : String} {ps : List String} (hne : path ≠ "")
    (hsolid : solid (parts (trimmed path)) = solid ps)
    (hspell : checkSpelling (trimmed path) = .ok ())
    (hlong : (trimmed path).utf8ByteSize ≤ maxPath)
    (hsize : ∀ q ∈ ps, q.utf8ByteSize ≤ maxName)
    (hlevels : f.missing (startOf path) ps ≤ maxLevels)
    (hfiles : ∀ x ∈ stops (startOf path) ps, ∀ c, f.get? x ≠ some (.file c)) :
    ∃ f', f.makeFolders path = (.ok (), f') ∧ Paved (stops (startOf path) ps) f f' := by
  have hstops : stops (startOf path) (parts (trimmed path)) = stops (startOf path) ps := by
    rw [← (walk_solid _ _).2, hsolid, (walk_solid _ _).2]
  have hmany : ¬ f.missing (startOf path) (parts (trimmed path)) > maxLevels := by
    rw [← missing_solid, hsolid, missing_solid]
    exact Nat.not_lt.mpr hlevels
  have hspells : ∀ p ∈ parts (trimmed path), checkSpelling p = .ok () := by
    intro p hp
    refine checkSpelling_of_subset hspell ?_
    rw [parts_eq] at hp
    obtain ⟨cs, hcs, rfl⟩ := mem_map.mp hp
    rw [String.toList_ofList]
    exact (mem_pieces hcs).2
  have hsizes := short_of_solid hsolid hsize
  have htotal : 0 + ((parts (trimmed path)).map fun p => p.utf8ByteSize + 1).sum ≤ maxPath + 1 := by
    rw [size_parts]
    omega
  rw [← hstops] at hfiles ⊢
  obtain ⟨hok, hpaved⟩ := paved_makeAlong hspells hsizes htotal hfiles
  exact ⟨_, by rw [makeFolders_eq f hne, if_neg hmany, ← hok], hpaved⟩

/-! ## A file at the end of a way -/

lemma endsWith_slash_iff {s : String} :
    Text.endsWith "/" s = true ↔ ∃ a, s.toList = a ++ ['/'] := by
  have hslash : "/".toList.reverse = ['/'] := by simp
  rw [Text.endsWith, hslash, isPrefixOf_iff_prefix]
  constructor
  · rintro ⟨r, hr⟩
    refine ⟨r.reverse, ?_⟩
    rw [← reverse_reverse s.toList, ← hr]
    simp
  · rintro ⟨a, ha⟩
    exact ⟨a.reverse, by rw [ha]; simp⟩

lemma endsWith_eq_false {path name : String} {front : List String}
    (hparts : parts path = front ++ [name]) (hname : name ≠ "") :
    Text.endsWith "/" path = false := by
  rw [Bool.eq_false_iff, ne_eq, endsWith_slash_iff]
  rintro ⟨a, ha⟩
  rw [parts_eq, ha, pieces_append, pieces_nil, map_append] at hparts
  exact hname (List.cons.inj (append_inj' hparts rfl).2).1.symm

/-- A path that can be that of a file: `front` leads to its folder, and the rest is its name. -/
structure Route (path : String) (front : List String) (name : String) : Prop where
  parts : parts path = front ++ [name]
  front_ne : front ≠ []
  isName : IsName name
  spelled : checkPath path = .ok ()
  short : ∀ q ∈ front ++ [name], q.utf8ByteSize ≤ maxName

namespace Route

variable {path name : String} {front : List String} {f : Folder}

lemma endsWith (h : Route path front name) : Text.endsWith "/" path = false :=
  endsWith_eq_false h.parts h.isName.1

lemma makeFolders (h : Route path front name) (hlevels : front.length ≤ maxLevels)
    (hfiles : ∀ x ∈ stops (startOf path) front, ∀ c, f.get? x ≠ some (.file c)) :
    ∃ f', f.makeFolders (dir path) = (.ok (), f') ∧ Paved (stops (startOf path) front) f f' := by
  obtain ⟨hdir, habs, hsolid, hpre⟩ := dir_spec h.front_ne h.parts
  obtain ⟨hspell, hlong, -⟩ := checkPath_ok_iff.mp h.spelled
  have hstart : startOf (dir path) = startOf path := by
    rw [startOf, habs, startOf]
  rw [← hstart] at hfiles ⊢
  have hle := size_le_of_prefix hpre
  exact makeFolders_run hdir hsolid (checkSpelling_of_subset hspell hpre.subset)
    (hle.trans hlong) (fun q hq => h.short q (mem_append_left _ hq))
    (missing_le.trans hlevels) hfiles

lemma paved (h : Route path front name) (hexists : f.pathExists (dir path) = true)
    (hfiles : ∀ x ∈ stops (startOf path) front, ∀ c, f.get? x ≠ some (.file c)) :
    Paved (stops (startOf path) front) f f := by
  refine ⟨Made.refl _ f, fun x hx => ?_, fun _ _ => rfl⟩
  obtain ⟨-, habs, hsolid, -⟩ := dir_spec h.front_ne h.parts
  rw [solid_parts_trimmed] at hsolid
  have hstart : startOf (dir path) = startOf path := by
    rw [startOf, habs, startOf]
  rw [pathExists, lookup?] at hexists
  cases hresolve : f.resolve (dir path) with
  | error e =>
    rw [hresolve] at hexists
    cases hexists
  | ok place =>
    rw [hresolve] at hexists
    obtain ⟨-, hstops, -⟩ := follow_spec (resolve_ok_iff.mp hresolve).2
    rw [hstart, ← (walk_solid _ _).2, hsolid, (walk_solid _ _).2] at hstops
    rcases hstops x hx with rfl | hthere
    · -- the last folder on the way
      obtain ⟨y, p, rfl, hp, hname⟩ := mem_stops hx
      have hmem : p ∈ Path.parts path := h.parts ▸ mem_append_left _ hp
      dsimp only at hexists
      rw [entry?_concat f y hname hmem, Option.isSome_iff_exists] at hexists
      obtain ⟨e, he⟩ := hexists
      cases e with
      | file c => exact absurd he (hfiles _ hx c)
      | folder g => exact ⟨g, he⟩
    · exact hthere

lemma writable (h : Route path front name)
    (hstops : ∀ x ∈ stops (startOf path) front, ∃ g, f.get? x = some (.folder g))
    (hno : f.NoFolder (walk (startOf path) front ++ [name])) :
    f.writable path = .ok (walk (startOf path) front ++ [name]) := by
  have hfollow : f.follow path (startOf path) (front ++ [name])
      = .ok (walk (startOf path) front ++ [name]) := follow_ok h.isName h.short hstops
  refine writable_ok_iff.mpr ⟨resolve_ok_iff.mpr ⟨h.spelled, by rw [h.parts, hfollow]⟩,
    h.endsWith, ?_⟩
  rw [entry?_concat f _ h.isName (h.parts ▸ mem_concat_self)]
  exact hno

end Route

/-! ## Files that appear -/

lemma get?_set_file {f : Folder} {x y : List String} (hno : f.NoFolder y) (hy : y ≠ [])
    (hxy : ¬ x <+: y) (c : Content) : (f.set (.file c) y).get? x = f.get? x := by
  by_cases hyx : y <+: x
  · obtain ⟨r, rfl⟩ := hyx
    have hr : r ≠ [] := fun h => hxy (by rw [h, append_nil])
    rw [get?_set_append f _ hy r, get?_below_of_noFolder hno hr, Entry.below,
      if_neg (by simpa using hr)]
  · exact get?_set_of_apart f _ hxy hyx

lemma putFile_eq {f : Folder} {path : String} {place : List String}
    (hw : f.writable path = .ok place) (c : Content) :
    f.putFile path c = .ok (f.set (.file c) place) := by
  rw [putFile, hw]
  rfl

def OnlyAt (place : List String) (f f' : Folder) : Prop :=
  ∀ x c, f'.get? x = some (.file c) → x = place ∨ f.get? x = some (.file c)

instance (place : List String) : IsPreorder Folder (OnlyAt place) where
  refl _ _ _ h := Or.inr h
  trans _ _ _ h h' x c hx := (h' x c hx).elim Or.inl (h x c)

variable {place : List String}

lemma leads_makeFolders (path : String) : Leads (OnlyAt place) (Files.makeFolders path) := by
  intro f x c hx
  rw [Files.run_makeFolders] at hx
  by_cases hpath : path = ""
  · rw [hpath] at hx
    exact Or.inr hx
  · rw [makeFolders_eq f hpath] at hx
    by_cases hmany : f.missing (startOf path) (parts (trimmed path)) > maxLevels
    · rw [if_pos hmany] at hx
      exact Or.inr hx
    · rw [if_neg hmany] at hx
      exact Or.inr (made_makeAlong.files x c hx)

lemma leads_putFile (path : String) (c : Content) :
    Leads (OnlyAt (walk (startOf path) (parts path))) (Files.update (·.putFile path c)) := by
  intro f x c' hx
  rw [Files.run_update, putFile] at hx
  cases hw : f.writable path with
  | error e =>
    rw [hw] at hx
    exact Or.inr hx
  | ok place =>
    rw [hw] at hx
    obtain ⟨hno, hne⟩ := noFolder_of_writable hw
    have hplace := (follow_spec (resolve_ok_iff.mp (writable_ok_iff.mp hw).1).2).1
    rw [← hplace]
    exact (changed_set hno hne [] c).files x c' hx

lemma leads_write (path text : String) :
    Leads (OnlyAt (walk (startOf path) (parts path))) (Files.write path text) :=
  (leads_putFile path _).bind fun _ =>
    (leads_of_eq fun f => by rw [Files.run_ask]).bind fun _ => leads_putFile path _

end Folder

end Docsmith
