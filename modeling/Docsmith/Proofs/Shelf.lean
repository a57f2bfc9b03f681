import Docsmith.Proofs.Appending
import Docsmith.Proofs.Documents
import Docsmith.Store

/-! # Files below the folder of documents

Names of documents end in `.md` and names of folders on the way do not, so no file is in the way of
another (`not_prefix_placeOf`). `Keeps` says which text each file has. Saving adds to one of them
and leaves the others alone, whether it succeeds or not (`save_run`), and loading reads one
(`loadAll_run`). -/

namespace Docsmith.Store

open Folder Docsmith.Path List

/-! ## Names and places -/

def home (docs : String) : List String :=
  walk (startOf docs) (parts docs)

def ways (docs : String) : List (List String) :=
  stops (startOf docs) (parts docs)

def notes : String := "prompt.md"

structure IsFile (x : String) : Prop where
  folders : ∀ q ∈ (parts x).dropLast, IsName q ∧ Text.endsWith ".md" q = false
  name : ∀ q ∈ (parts x).getLast?, IsName q ∧ Text.endsWith ".md" q = true
  other : x ≠ notes

def placeOf (docs x : String) : List String :=
  home docs ++ parts x

lemma parts_ne_nil (x : String) : parts x ≠ [] := by
  rw [parts_eq]
  simpa using pieces_ne_nil x.toList

lemma IsFile.exists_parts {x : String} (hx : IsFile x) :
    ∃ ds n, parts x = ds ++ [n] ∧ (parts x).dropLast = ds ∧ IsName n ∧
      Text.endsWith ".md" n = true ∧ ∀ d ∈ ds, IsName d ∧ Text.endsWith ".md" d = false := by
  have hne := parts_ne_nil x
  obtain ⟨hname, hend⟩ := hx.name _ (getLast_mem_getLast? hne)
  exact ⟨(parts x).dropLast, (parts x).getLast hne, (dropLast_append_getLast hne).symm, rfl,
    hname, hend, hx.folders⟩

lemma parts_injective {x y : String} (h : parts x = parts y) : x = y := by
  rw [parts_eq, parts_eq] at h
  have hpieces : pieces x.toList = pieces y.toList := by
    simpa using congrArg (List.map String.toList) h
  exact String.toList_inj.mp (pieces_injective hpieces)

lemma not_prefix_placeOf {x y : String} (hx : IsFile x) (hy : IsFile y) (hne : x ≠ y)
    (docs : String) : ¬ placeOf docs x <+: placeOf docs y := by
  obtain ⟨ds, n, hparts, -, -, hend, -⟩ := hx.exists_parts
  obtain ⟨es, m, hparts', -, -, -, hfolders⟩ := hy.exists_parts
  intro h
  rw [placeOf, placeOf, prefix_append_right_inj, hparts', prefix_concat_iff] at h
  rcases h with h | h
  · exact hne (parts_injective (h.trans hparts'.symm))
  · -- the name of the first would be that of a folder above the second
    have hmem : n ∈ es := h.subset (by simp [hparts])
    rw [(hfolders n hmem).2] at hend
    exact nomatch hend

lemma isAbsolute_eq_false {x : String} (h : "" ∉ parts x) : isAbsolute x = false := by
  by_contra habs
  rw [Bool.not_eq_false, isAbsolute_eq] at habs
  obtain ⟨cs, hcs⟩ : ∃ cs, x.toList = '/' :: cs := by
    cases hcs : x.toList with
    | nil => simp [hcs] at habs
    | cons c cs =>
      simp only [hcs, head?_cons, beq_iff_eq, Option.some.injEq] at habs
      exact ⟨cs, by rw [habs]⟩
  refine h ?_
  rw [parts_eq, hcs, pieces_slash]
  simp

lemma isName_of_mem_parts {x : String} (hx : IsFile x) : ∀ q ∈ parts x, IsName q := by
  obtain ⟨ds, n, hparts, -, hname, -, hfolders⟩ := hx.exists_parts
  intro q hq
  rw [hparts] at hq
  rcases mem_append.mp hq with h | h
  · exact (hfolders q h).1
  · rw [mem_singleton.mp h]
    exact hname

lemma isAbsolute_of_isFile {x : String} (hx : IsFile x) : isAbsolute x = false :=
  isAbsolute_eq_false fun h => (isName_of_mem_parts hx "" h).1 rfl

variable {docs x : String}

lemma exists_front_of_relative (hdocs : docs ≠ "") (hx : isAbsolute x = false) :
    startOf (join docs x) = startOf docs ∧
      ∃ front, front ≠ [] ∧ parts (join docs x) = front ++ parts x ∧
        walk (startOf docs) front = home docs ∧ stops (startOf docs) front = ways docs := by
  obtain ⟨habs, front, hne, hparts, hsolid⟩ := parts_join hdocs hx
  refine ⟨by rw [startOf, habs, startOf], front, hne, hparts, ?_, ?_⟩
  · rw [← (walk_solid _ front).1, hsolid, (walk_solid _ _).1, home]
  · rw [← (walk_solid _ front).2, hsolid, (walk_solid _ _).2, ways]

lemma exists_front (hdocs : docs ≠ "") (hx : IsFile x) :
    startOf (join docs x) = startOf docs ∧
      ∃ front, front ≠ [] ∧ parts (join docs x) = front ++ parts x ∧
        walk (startOf docs) front = home docs ∧ stops (startOf docs) front = ways docs :=
  exists_front_of_relative hdocs (isAbsolute_of_isFile hx)

lemma walk_join (hdocs : docs ≠ "") (hx : IsFile x) :
    walk (startOf (join docs x)) (parts (join docs x)) = placeOf docs x := by
  obtain ⟨hstart, front, -, hparts, hwalk, -⟩ := exists_front hdocs hx
  rw [hstart, hparts, walk_append, hwalk, walk_names (isName_of_mem_parts hx), placeOf]

lemma endsWith_join (hdocs : docs ≠ "") (hx : IsFile x) :
    Text.endsWith "/" (join docs x) = false := by
  obtain ⟨-, front, -, hparts, -⟩ := exists_front hdocs hx
  obtain ⟨ds, n, hx', -, hname, -⟩ := hx.exists_parts
  have hslash : "/".toList.reverse = ['/'] := by simp
  by_contra hend
  rw [Bool.not_eq_false, Text.endsWith, isPrefixOf_iff_prefix] at hend
  obtain ⟨r, hr⟩ := hend
  have hchars : (join docs x).toList = r.reverse ++ '/' :: [] := by
    rw [← reverse_reverse (join docs x).toList, ← hr]
    simp
  -- the last part would be empty
  rw [parts_eq, hchars, pieces_append, map_append, hx', ← append_assoc] at hparts
  have hlast := (append_inj' hparts rfl).2
  exact hname.1 (List.cons.inj hlast).1.symm

lemma entry?_placeOf (hx : IsFile x) (f : Folder) :
    f.entry? (placeOf docs x) = f.get? (placeOf docs x) := by
  obtain ⟨ds, n, hparts, -, hname, -⟩ := hx.exists_parts
  rw [placeOf, hparts, ← append_assoc]
  exact entry?_concat f _ hname (show n ∈ parts x by simp [hparts])

variable {f : Folder}

lemma eq_placeOf_of_resolve (hdocs : docs ≠ "") (hx : IsFile x) {place : List String}
    (h : f.resolve (join docs x) = .ok place) : place = placeOf docs x := by
  rw [← walk_join hdocs hx]
  exact (follow_spec (resolve_ok_iff.mp h).2).1

lemma writable_join (hdocs : docs ≠ "") (hx : IsFile x)
    (h : f.resolve (join docs x) = .ok (placeOf docs x)) (hno : f.NoFolder (placeOf docs x)) :
    f.writable (join docs x) = .ok (placeOf docs x) := by
  refine writable_ok_iff.mpr ⟨h, endsWith_join hdocs hx, ?_⟩
  rw [entry?_placeOf hx]
  exact hno

/-! ## The folder of a file -/

def waysTo (docs x : String) : List (List String) :=
  ways docs ++ stops (home docs) (parts x).dropLast

lemma dir_join (hdocs : docs ≠ "") (hx : IsFile x) :
    dir (join docs x) ≠ "" ∧ startOf (dir (join docs x)) = startOf docs ∧
      stops (startOf docs) (parts (trimmed (dir (join docs x)))) = waysTo docs x ∧
      (∃ front, solid (parts (trimmed (dir (join docs x)))) = solid (front ++ (parts x).dropLast) ∧
        parts (join docs x) = front ++ parts x ∧ stops (startOf docs) front = ways docs) ∧
      (trimmed (dir (join docs x))).toList <+: (join docs x).toList := by
  obtain ⟨hstart, front, hne, hparts, hwalk, hstops⟩ := exists_front hdocs hx
  obtain ⟨ds, n, hx', hds, -⟩ := hx.exists_parts
  have hfile : parts (join docs x) = (front ++ ds) ++ [n] := by
    rw [hparts, hx', append_assoc]
  obtain ⟨hdir, habs, hsolid, hpre⟩ := dir_spec (by simp [hne]) hfile
  refine ⟨hdir, ?_, ?_, ⟨front, by rw [hds, hsolid], hparts, hstops⟩, hpre⟩
  · rw [← hstart, startOf, habs, startOf]
  · rw [← (walk_solid _ _).2, hsolid, (walk_solid _ _).2, stops_append, hwalk, hstops, waysTo, hds]

/-! ## What is kept -/

/-- The folder of documents is there, and each file below it has the given text. -/
structure Keeps (docs : String) (f : Folder) (texts : String → Option String) : Prop where
  named : docs ≠ ""
  /-- The way to the folder does not lead through it. -/
  direct : ∀ y ∈ ways docs, home docs <+: y → y = home docs
  reached : ∀ y ∈ ways docs, ∃ g, f.get? y = some (.folder g)
  /-- No file stands where a folder has to be made. -/
  only : ∀ y c, f.get? (home docs ++ y) = some (.file c) → ∀ n ∈ y.getLast?,
    Text.endsWith ".md" n = true
  kept : ∀ x, IsFile x → f.get? (placeOf docs x) = textEntry (texts x)
  open_ : ∀ x, IsFile x → texts x ≠ none → f.writable (join docs x) = .ok (placeOf docs x)

lemma noFolder_of_textEntry {y : List String} {t : Option String} (h : f.get? y = textEntry t) :
    f.NoFolder y := by
  intro g hg
  rw [h] at hg
  cases t with
  | none | some s => exact nomatch hg

lemma keeps_empty (h : f.lookup? docs = some (.folder .empty)) : Keeps docs f fun _ => none := by
  have hresolve : f.resolve docs = .ok (home docs) ∧
      f.entry? (home docs) = some (.folder .empty) := by
    rw [lookup?] at h
    cases hr : f.resolve docs with
    | error e =>
      rw [hr] at h
      cases h
    | ok place =>
      rw [hr] at h
      have hplace := (follow_spec (resolve_ok_iff.mp hr).2).1
      exact ⟨congrArg Except.ok hplace, (congrArg f.entry? hplace.symm).trans h⟩
  obtain ⟨hresolve, hentry⟩ := hresolve
  have hbelow : ∀ r, r ≠ [] → f.get? (home docs ++ r) = none := by
    intro r hr
    rw [get?_append]
    cases hget : f.get? (home docs) with
    | none => rfl
    | some e =>
      rw [ entry?, hget, Option.some_or, Option.some.injEq] at hentry
      subst hentry
      exact get?_empty hr
  have hnamed : docs ≠ "" := by
    rintro rfl
    have hcheck := (resolve_ok_iff.mp hresolve).1
    cases hcheck
  have hreached : ∀ y ∈ ways docs, ∃ g, f.get? y = some (.folder g) := by
    intro y hy
    rcases (follow_spec (resolve_ok_iff.mp hresolve).2).2.1 y hy with hhome | hfolder
    · obtain ⟨z, p, hzp, hp, hname⟩ := mem_stops hy
      rw [← hhome, hzp, entry?_concat f z hname hp, ← hzp] at hentry
      exact ⟨.empty, hentry⟩
    · exact hfolder
  refine ⟨hnamed, ?_, hreached, ?_, ?_, fun x _ h => absurd rfl h⟩
  · rintro y hy ⟨r, rfl⟩
    by_contra hne
    obtain ⟨g, hg⟩ := hreached _ hy
    rw [hbelow r fun hr => hne (by simp [hr])] at hg
    cases hg
  · intro y c hget n hn
    rw [hbelow y fun hy => by simp [hy] at hn] at hget
    cases hget
  · intro x hx
    exact hbelow (parts x) (parts_ne_nil x)

variable {texts : String → Option String}

lemma Keeps.not_prefix_waysTo (h : Keeps docs f texts) (hx : IsFile x) {y : String}
    (hy : IsFile y) : ∀ z ∈ waysTo docs x, ¬ placeOf docs y <+: z := by
  obtain ⟨es, m, hparts, -, -, hend, -⟩ := hy.exists_parts
  intro z hz hpre
  rcases mem_append.mp hz with hway | hstop
  · have hhome := h.direct z hway ((prefix_append (home docs) (parts y)).trans hpre)
    rw [hhome] at hpre
    have hlen := hpre.length_le
    rw [placeOf, hparts, length_append, length_append, length_singleton] at hlen
    omega
  · obtain ⟨r, hr, -, rfl⟩ := mem_stops_names (fun q hq => (hx.folders q hq).1) hstop
    rw [placeOf, prefix_append_right_inj] at hpre
    have hmem : m ∈ (parts x).dropLast := (hpre.trans hr).subset (by simp [hparts])
    rw [(hx.folders m hmem).2] at hend
    exact nomatch hend

lemma Keeps.of_changed {f f' : Folder} (h : Keeps docs f texts) (hx : IsFile x)
    (hchanged : Changed (waysTo docs x) (placeOf docs x) f f') {t : Option String}
    (ht : f'.get? (placeOf docs x) = textEntry t)
    (hw : t ≠ none → f'.writable (join docs x) = .ok (placeOf docs x)) :
    Keeps docs f' (Function.update texts x t) := by
  have hother : ∀ y, IsFile y → y ≠ x →
      f'.get? (placeOf docs y) = textEntry (texts y) := by
    intro y hy hne
    rw [← h.kept y hy]
    exact hchanged.apart _ (noFolder_of_textEntry (h.kept y hy)) (h.not_prefix_waysTo hx hy)
      (not_prefix_placeOf hy hx hne docs) (not_prefix_placeOf hx hy hne.symm docs)
  refine ⟨h.named, h.direct, ?_, ?_, ?_, ?_⟩
  · intro y hy
    obtain ⟨g, hg⟩ := h.reached y hy
    exact hchanged.grows y g hg
  · intro y c hy n hn
    rcases hchanged.files _ c hy with heq | hold
    · rw [placeOf, append_cancel_left_eq] at heq
      exact (hx.name n (heq ▸ hn)).2
    · exact h.only y c hold n hn
  · intro y hy
    by_cases hne : y = x
    · subst hne
      rw [Function.update_self, ht]
    · rw [Function.update_of_ne hne]
      exact hother y hy hne
  · intro y hy hsome
    by_cases hne : y = x
    · subst hne
      rw [Function.update_self] at hsome
      exact hw hsome
    · rw [Function.update_of_ne hne] at hsome
      have hold := (writable_ok_iff.mp (h.open_ y hy hsome)).1
      exact writable_join h.named hy (resolve_of_grows hchanged.grows hold)
        (noFolder_of_textEntry (hother y hy hne))

def Opened (docs : String) (f : Folder) : Prop :=
  ∀ y ∈ ways docs, ∃ g, f.get? y = some (.folder g)

lemma Opened.not_prefix_notes (h : Opened docs f) (hno : f.NoFolder [notes]) :
    (∀ r, home docs ≠ notes :: r) ∧ ∀ y, IsFile y → ¬ [notes] <+: placeOf docs y := by
  have hhome : ∀ r, home docs ≠ notes :: r := by
    intro r hr
    rcases mem_stops_of_walk (by decide) hr with ⟨s, hs⟩ | hway
    · rw [startOf] at hs
      split at hs
      · exact absurd (List.cons.inj hs).1 (by decide)
      · exact nomatch hs
    · obtain ⟨g, hg⟩ := h _ hway
      exact hno g hg
  refine ⟨hhome, fun y hy hpre => ?_⟩
  obtain ⟨ds, n, hparts, -, -, -, hfolders⟩ := hy.exists_parts
  rw [placeOf] at hpre
  cases hdocs : home docs with
  | cons m r =>
    rw [hdocs, cons_append, cons_prefix_cons] at hpre
    exact hhome r (by rw [hdocs, hpre.1])
  | nil =>
    rw [hdocs, nil_append, hparts] at hpre
    cases ds with
    | nil =>
      rw [nil_append, cons_prefix_cons] at hpre
      rw [← hpre.1] at hparts
      exact hy.other (parts_injective hparts)
    | cons d ds =>
      rw [cons_append, cons_prefix_cons] at hpre
      have hend := (hfolders d mem_cons_self).2
      rw [← hpre.1] at hend
      exact absurd hend (by decide)

lemma Keeps.of_note (h : Keeps docs f texts) (text : String) :
    Keeps docs ((Files.append notes text).run.run f).2 texts := by
  rcases Files.append_changed f notes text with hsame | ⟨place, hw, hchanged⟩
  · rw [hsame]
    exact h
  · obtain rfl : place = [notes] := (follow_spec (resolve_ok_iff.mp (writable_ok_iff.mp hw).1).2).1
    obtain ⟨hhome, hpre⟩ := Opened.not_prefix_notes h.reached (noFolder_of_writable hw).1
    have hkept : ∀ y, IsFile y →
        ((Files.append notes text).run.run f).2.get? (placeOf docs y) = textEntry (texts y) := by
      intro y hy
      rw [← h.kept y hy]
      refine hchanged.apart _ (noFolder_of_textEntry (h.kept y hy)) (by simp) (fun hin => ?_)
        (hpre y hy)
      have hne : placeOf docs y ≠ [] := by simp [placeOf, parts_ne_nil]
      have heq := hin.eq_of_length (Nat.le_antisymm hin.length_le (length_pos_iff.mpr hne))
      exact hpre y hy (heq ▸ prefix_rfl)
    refine ⟨h.named, h.direct, ?_, ?_, hkept, ?_⟩
    · intro y hy
      obtain ⟨g, hg⟩ := h.reached y hy
      exact hchanged.grows y g hg
    · intro y c hy n hn
      rcases hchanged.files _ c hy with heq | hold
      · cases hdocs : home docs with
        | cons m r =>
          rw [hdocs, cons_append, List.cons.injEq] at heq
          exact absurd (by rw [hdocs, heq.1]) (hhome r)
        | nil =>
          rw [hdocs, nil_append] at heq
          rw [heq, getLast?_singleton, Option.mem_some_iff] at hn
          rw [← hn]
          decide
      · exact h.only y c hold n hn
    · intro y hy hsome
      have hold := (writable_ok_iff.mp (h.open_ y hy hsome)).1
      exact writable_join h.named hy (resolve_of_grows hchanged.grows hold)
        (noFolder_of_textEntry (hkept y hy))

/-! ## Saving -/

/-- What the path of a file for documents must be like for the file to be made. -/
structure Fits (docs x : String) : Prop where
  path : checkPath (join docs x) = .ok ()
  names : ∀ q ∈ parts (join docs x), q.utf8ByteSize ≤ maxName
  levels : (parts x).length ≤ maxLevels

lemma made_prepare (hdocs : docs ≠ "") (hx : IsFile x) :
    Made (waysTo docs x) f ((prepare (join docs x)).run.run f).2 := by
  obtain ⟨hdir, hstart, hstops, -, -⟩ := dir_join hdocs hx
  rw [prepare, if_neg (by simpa using hdir), Files.run_makeFolders, makeFolders_eq f hdir]
  by_cases hmany : f.missing (startOf (dir (join docs x)))
      (parts (trimmed (dir (join docs x)))) > maxLevels
  · rw [if_pos hmany]
    exact Made.refl _ f
  · rw [if_neg hmany, hstart, ← hstops]
    exact made_makeAlong

lemma prepare_ok (h : Keeps docs f texts) (hx : IsFile x) (hfits : Fits docs x) :
    ((prepare (join docs x)).run.run f).1 = .ok () ∧
      ∀ y ∈ waysTo docs x, ∃ g,
        ((prepare (join docs x)).run.run f).2.get? y = some (.folder g) := by
  obtain ⟨hdir, hstart, hstops, ⟨front, hsolid, hfile, hfront⟩, hpre⟩ := dir_join h.named hx
  obtain ⟨hspell, hlong, -⟩ := checkPath_ok_iff.mp hfits.path
  have hmany : ¬ f.missing (startOf (dir (join docs x)))
      (parts (trimmed (dir (join docs x)))) > maxLevels := by
    rw [hstart, ← missing_solid, hsolid, missing_solid, Nat.not_lt]
    refine (missing_append_le (by rw [hfront]; exact h.reached)).trans ?_
    rw [length_dropLast]
    exact (Nat.sub_le _ 1).trans hfits.levels
  rw [prepare, if_neg (by simpa using hdir), Files.run_makeFolders, makeFolders_eq f hdir,
    if_neg hmany, hstart, ← hstops]
  have hparts : ∀ p ∈ parts (trimmed (dir (join docs x))),
      checkSpelling p = .ok () ∧ p.utf8ByteSize ≤ maxName := by
    intro p hp
    constructor
    · refine checkSpelling_of_subset hspell (List.Subset.trans ?_ hpre.subset)
      rw [parts_eq] at hp
      obtain ⟨cs, hcs, rfl⟩ := mem_map.mp hp
      rw [String.toList_ofList]
      exact (mem_pieces hcs).2
    · by_cases hempty : p = ""
      · subst hempty
        decide
      · have hmem : p ∈ solid (front ++ (parts x).dropLast) := by
          rw [← hsolid]
          exact mem_filter.mpr ⟨hp, by simpa using hempty⟩
        refine hfits.names p ?_
        rw [hfile]
        rcases mem_append.mp (mem_filter.mp hmem).1 with hin | hin
        · exact mem_append_left _ hin
        · exact mem_append_right _ (dropLast_subset _ hin)
  have hfiles : ∀ y ∈ stops (startOf docs) (parts (trimmed (dir (join docs x)))), ∀ c,
      f.get? y ≠ some (.file c) := by
    intro y hy c hc
    rw [hstops] at hy
    rcases mem_append.mp hy with hway | hstop
    · obtain ⟨g, hg⟩ := h.reached y hway
      rw [hg] at hc
      exact nomatch hc
    · obtain ⟨r, hr, hne, rfl⟩ := mem_stops_names (fun q hq => (hx.folders q hq).1) hstop
      have hend := h.only r c hc (r.getLast hne) (getLast_mem_getLast? hne)
      rw [(hx.folders _ (hr.subset (getLast_mem hne))).2] at hend
      exact nomatch hend
  have hsize : 0 + ((parts (trimmed (dir (join docs x)))).map fun p => p.utf8ByteSize + 1).sum
      ≤ maxPath + 1 := by
    rw [size_parts]
    have hle := size_le_of_prefix hpre
    omega
  exact makeAlong_ok (fun p hp => (hparts p hp).1) (fun p hp => (hparts p hp).2) hsize hfiles

lemma writable_of_ways (hdocs : docs ≠ "") (hx : IsFile x) (hfits : Fits docs x)
    (hways : ∀ y ∈ waysTo docs x, ∃ g, f.get? y = some (.folder g))
    (hno : f.NoFolder (placeOf docs x)) : f.writable (join docs x) = .ok (placeOf docs x) := by
  obtain ⟨hstart, front, -, hparts, hwalk, hstops⟩ := exists_front hdocs hx
  obtain ⟨ds, n, hx', hds, hname, -, hfolders⟩ := hx.exists_parts
  have hsize := hfits.names
  rw [hparts, hx', ← append_assoc] at hsize
  refine writable_join hdocs hx (resolve_ok_iff.mpr ⟨hfits.path, ?_⟩) hno
  have hfollow : follow f (join docs x) (startOf docs) (_ ++ [n]) = _ := follow_ok hname hsize (by
    rw [stops_append, hwalk, hstops, ← hds]
    exact hways)
  rw [hstart, hparts, hx', ← append_assoc, hfollow, walk_append, hwalk,
    walk_names fun d hd => (hfolders d hd).1, placeOf, hx', append_assoc]

variable {δ : Type} [Document δ]

variable {text : String}

lemma save_run (h : Keeps docs f texts) (hx : IsFile x) {d : δ}
    (hd : Document.markdown d = .ok text) :
    ∃ r f' t, (save (join docs x) d).run.run f = (r, f') ∧
      Keeps docs f' (Function.update texts x t) ∧
      (r = .ok () → t.getD "" = (texts x).getD "" ++ (text ++ "\n")) ∧
      (r ≠ .ok () → t.getD "" = (texts x).getD "") ∧
      (Fits docs x → checkText (text ++ "\n") = .ok () → r = .ok ()) := by
  have hmade := made_prepare (f := f) h.named hx
  have hprepared := prepare_ok h hx
  rw [save, run_bind]
  generalize (prepare (join docs x)).run.run f = prepared at hmade hprepared ⊢
  obtain ⟨r₁, f₁⟩ := prepared
  have hno := noFolder_of_textEntry (h.kept x hx)
  have hkept : f₁.get? (placeOf docs x) = textEntry (texts x) := by
    rw [← h.kept x hx]
    exact hmade.apart _ hno (h.not_prefix_waysTo hx hx)
  -- whatever fails before the text is written leaves the file as it was
  have hstay : Keeps docs f₁ (Function.update texts x (texts x)) := by
    refine h.of_changed hx (hmade.changed _) hkept fun hsome => ?_
    have hold := (writable_ok_iff.mp (h.open_ x hx hsome)).1
    exact writable_join h.named hx (resolve_of_grows hmade.grows hold) (noFolder_of_textEntry hkept)
  cases r₁ with
  | error e =>
    refine ⟨_, f₁, _, rfl, hstay, (fun hr => nomatch hr), (fun _ => rfl), fun hfits _ => ?_⟩
    exact nomatch (hprepared hfits).1
  | ok u =>
    simp only [run_bind]
    cases hw : f₁.writable (join docs x) with
    | error e =>
      rw [Files.append_error hw]
      refine ⟨_, f₁, _, rfl, hstay, (fun hr => nomatch hr), (fun _ => rfl), fun hfits _ => ?_⟩
      rw [writable_of_ways h.named hx hfits (hprepared hfits).2 (noFolder_of_textEntry hkept)]
        at hw
      exact nomatch hw
    | ok place =>
      obtain rfl := eq_placeOf_of_resolve h.named hx (writable_ok_iff.mp hw).1
      obtain ⟨f₂, hrun₂, hchanged₂, hw₂, _, hkept₂, hadded₂, -⟩ := Files.append_run hw hkept ""
      rw [hadded₂ rfl, String.append_empty] at hkept₂
      obtain ⟨f₃, hrun₃, hchanged₃, hw₃, added, hkept₃, hok, herror⟩ :=
        Files.append_run hw₂ hkept₂ (text ++ "\n")
      have hchecked : checkText "" = .ok () := rfl
      rw [hrun₂, hchecked]
      simp only [Files.run_ask, hd, hrun₃]
      refine ⟨_, f₃, _, rfl, h.of_changed hx ?_ hkept₃ fun _ => hw₃, fun hr => ?_, fun hr => ?_,
        fun _ hcheck => hcheck⟩
      · exact ((hmade.changed _).trans (hchanged₂.mono _)).trans (hchanged₃.mono _)
      · rw [hok hr]
        rfl
      · rw [herror hr]
        exact String.append_empty

lemma Keeps.save (h : Keeps docs f texts) (hx : IsFile x) {d : δ}
    (hd : Document.markdown d = .ok text) :
    ∃ t, Keeps docs ((save (join docs x) d).run.run f).2 (Function.update texts x t) := by
  obtain ⟨r, f', t, hrun, hkeeps, -⟩ := save_run h hx hd
  rw [hrun]
  exact ⟨t, hkeeps⟩

/-! ## Loading -/

lemma contentAt_of_writable {path : String} {place : List String} {c : Content}
    (hw : f.writable path = .ok place) (hget : f.get? place = some (.file c)) :
    f.pathExists path = true ∧ f.contentAt path = .ok c := by
  obtain ⟨hresolve, hend, -⟩ := writable_ok_iff.mp hw
  have hentry : f.entry? place = some (.file c) := by
    rw [ entry?, hget]
    rfl
  constructor
  · rw [pathExists, lookup?, hresolve]
    simp only [hentry, Option.isSome_some]
  · simp only [contentAt, hresolve, bind, Except.bind, hentry, hend, Bool.false_eq_true, if_false]

lemma readText_eq {path : String} {place : List String} (hw : f.writable path = .ok place)
    (hget : f.get? place = textEntry (some text)) :
    f.pathExists path = true ∧ f.readText path = .ok (Text.unifyBreaks text) := by
  obtain ⟨hexists, hcontent⟩ := contentAt_of_writable hw hget
  refine ⟨hexists, ?_⟩
  rw [readText, hcontent]
  rfl

lemma unifyBreaks_eq_self (h : '\r' ∉ text.toList) : Text.unifyBreaks text = text := by
  rw [Text.unifyBreaks, Chars.unifyBreaks_eq_self h, String.ofList_toList]

lemma run_loadAll (δ : Type) [Document δ] (file : String) (f : Folder) :
    (loadAll δ file).run.run f = if f.pathExists file = true then
      ((f.readText file).bind Document.ofText, f) else (.ok [], f) := by
  rw [loadAll, run_bind, Files.run_pathExists]
  by_cases hexists : f.pathExists file = true
  · simp only [hexists, if_true, run_bind, Files.read, Files.run_ask]
    cases f.readText file with
    | error e | ok text => rfl
  · simp only [hexists]
    rfl

lemma loadAll_folder (δ : Type) [Document δ] (file : String) (f : Folder) :
    ∃ o, (loadAll δ file).run.run f = (o, f) := by
  rw [run_loadAll]
  by_cases hexists : f.pathExists file = true
  · exact ⟨_, if_pos hexists⟩
  · exact ⟨_, if_neg hexists⟩

lemma load?_folder (δ : Type) [Document δ] (s file : String) (f : Folder) :
    ∃ o, (load? δ s file).run.run f = (o, f) := by
  obtain ⟨o, hload⟩ := loadAll_folder δ file f
  rw [load?, run_bind, hload]
  cases o with
  | error e => exact ⟨.error e, rfl⟩
  | ok ds => exact ⟨.ok _, rfl⟩

def docsIn (δ : Type) [Document δ] (t : Option String) : Except Fault (List δ) :=
  match t with
  | some text => Document.ofText (Text.unifyBreaks text)
  | none => .ok []

lemma loadAll_eq (h : Keeps docs f texts) (hx : IsFile x) :
    (loadAll δ (join docs x)).run.run f = (docsIn δ (texts x), f) := by
  have hkept := h.kept x hx
  have hopen := h.open_ x hx
  rw [run_loadAll]
  cases htext : texts x with
  | none =>
    rw [htext] at hkept
    have hmissing : ¬ f.pathExists (join docs x) = true := by
      rw [pathExists, lookup?]
      cases hr : f.resolve (join docs x) with
      | error e => simp
      | ok place =>
        simp only [eq_placeOf_of_resolve h.named hx hr, entry?_placeOf hx, hkept]
        simp [textEntry]
    rw [if_neg hmissing]
    rfl
  | some text =>
    rw [htext] at hkept hopen
    obtain ⟨hexists, htext'⟩ := readText_eq (hopen (by simp)) hkept
    rw [if_pos hexists, htext']
    rfl

lemma docsIn_eq {t : Option String} {ds : List δ} (h : Document.Holds (t.getD "") ds) :
    docsIn δ t = .ok ds := by
  cases t with
  | none => exact h.read
  | some text =>
    rw [Option.getD_some] at h
    rw [docsIn, unifyBreaks_eq_self h.noReturn, h.read]

lemma loadAll_run (h : Keeps docs f texts) (hx : IsFile x) {ds : List δ}
    (hholds : Document.Holds ((texts x).getD "") ds) :
    (loadAll δ (join docs x)).run.run f = (.ok ds, f) := by
  rw [loadAll_eq h hx, docsIn_eq hholds]

end Docsmith.Store

