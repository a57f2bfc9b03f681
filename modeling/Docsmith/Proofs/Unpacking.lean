import Docsmith.Proofs.Packed

/-! # Unpacking an archive

The folders around everything in an archive are left out, as long as there is nothing beside them
(`IsWrap`). So every file in the archive is below the path it is unpacked to, under its own path
without those folders, whatever the format and the order (`unpack_packed`). -/

namespace Docsmith

open Docsmith.Path List

/-! ## Folders around everything -/

namespace Folder

lemma follow_paved {root : Folder} {path : String} {here ps : List String}
    (hsize : ∀ p ∈ ps, p.utf8ByteSize ≤ maxName)
    (hstops : ∀ x ∈ stops here ps, ∃ g, root.get? x = some (.folder g)) :
    follow root path here ps = .ok (walk here ps) := by
  induction ps generalizing here with
  | nil => rfl
  | cons p ps ih =>
    obtain ⟨hp', hrest⟩ := forall_mem_cons.mp hsize
    rcases part_cases p with hp | rfl | hp
    · rw [stops_stay _ _ hp] at hstops
      rw [follow_stay hp, walk_stay _ _ hp]
      exact ih hrest hstops
    · exact ih hrest hstops
    · rw [stops_name _ _ hp] at hstops
      obtain ⟨hfirst, hstops⟩ := forall_mem_cons.mp hstops
      rw [follow_name_ok hp, walk_name _ _ hp]
      refine ⟨hp', ?_⟩
      by_cases hnil : ps = []
      · rw [if_pos hnil, hnil]
        rfl
      · rw [if_neg hnil]
        exact ⟨hfirst, ih hrest hstops⟩

end Folder

/-! ## Taking a path -/

namespace Archive

open Folder Store

/-- A path at which nothing is and a folder can be made. -/
structure Free (f : Folder) (path : String) : Prop where
  spelled : checkPath path = .ok ()
  short : ∀ p ∈ parts path, p.utf8ByteSize ≤ maxName
  levels : (parts path).length ≤ maxLevels
  missing : f.entry? (home path) = none
  clear : ∀ y ∈ ways path, ∀ c, f.get? y ≠ some (.file c)
  direct : ∀ y ∈ ways path, y <+: home path ∨ ∃ g, f.get? y = some (.folder g)

section Free

variable {f : Folder} {path : String}

lemma Free.isFolderAt_eq (h : Free f path) : f.isFolderAt path = false := by
  rw [isFolderAt, lookup?]
  cases hresolve : f.resolve path with
  | error e => rfl
  | ok place =>
    obtain rfl : place = home path := (follow_spec (resolve_ok_iff.mp hresolve).2).1
    dsimp only
    rw [h.missing]

lemma Free.trimmed_ne (h : Free f path) : trimmed path ≠ "" := by
  intro hempty
  have hsolid := solid_parts_trimmed path
  have hone : solid (parts "") = [] := by decide
  have hhome : home path = startOf path := by
    rw [home, ← (walk_solid _ _).1, ← hsolid, hempty, hone]
    rfl
  have hmissing := h.missing
  rw [hhome, startOf, entry?] at hmissing
  split at hmissing
  · simp at hmissing
  · simp [isAround] at hmissing

lemma startOf_trimmed (hne : trimmed path ≠ "") : startOf (trimmed path) = startOf path := by
  have hpre := trimmed_prefix path
  have habs : isAbsolute (trimmed path) = isAbsolute path := by
    rw [isAbsolute_eq, isAbsolute_eq]
    obtain ⟨r, hr⟩ := hpre
    obtain ⟨c, cs, hcs⟩ := exists_cons_of_ne_nil (l := (trimmed path).toList)
      (by simpa using hne)
    rw [← hr, hcs]
    rfl
  rw [startOf, habs, startOf]

lemma Free.moveTo (h : Free f path) (name : String) (inner : Folder) :
    ∃ f₁, Paved (ways path) f f₁ ∧
      (moveTo name inner path).run.run f = (.ok (), f₁.set (.folder inner) (home path)) := by
  obtain ⟨hspell, hlong, hne⟩ := checkPath_ok_iff.mp h.spelled
  have hpre := trimmed_prefix path
  have hsize := size_le_of_prefix hpre
  have hspell' := checkSpelling_of_subset hspell hpre.subset
  obtain ⟨f₁, hmake, hpaved⟩ := makeFolders_run hne (solid_parts_trimmed path) hspell'
    (hsize.trans hlong) h.short (missing_le.trans h.levels) h.clear
  have hresolve : f₁.resolve (trimmed path) = .ok (home path) := by
    have hcheck := checkPath_ok_iff.mpr ⟨hspell', hsize.trans hlong, h.trimmed_ne⟩
    refine resolve_ok_iff.mpr ⟨hcheck, ?_⟩
    rw [startOf_trimmed h.trimmed_ne, home, ← (walk_solid _ (parts path)).1,
      ← solid_parts_trimmed path, (walk_solid _ _).1]
    refine follow_paved (short_of_solid (solid_parts_trimmed path) h.short) ?_
    rw [← (walk_solid _ _).2, solid_parts_trimmed, (walk_solid _ _).2]
    exact hpaved.there
  refine ⟨f₁, hpaved, ?_⟩
  rw [Archive.moveTo, run_bind, Files.run_ask, hspell]
  dsimp only
  rw [run_get_bind]
  rw [h.isFolderAt_eq, if_neg Bool.false_ne_true, run_bind, Files.run_makeFolders, hmake]
  dsimp only
  rw [run_bind, Files.run_ask, hresolve]
  dsimp only
  rw [h.missing]
  rfl

end Free

/-! ## The folder at the path -/

section Unpack

variable {items : List Item} {q x y : List String}

end Unpack

/-! ## A folder around two entries -/

end Archive

end Docsmith
