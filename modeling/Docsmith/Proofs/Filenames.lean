import Docsmith.Proofs.Paving

/-! # Files of one name

Writing a file leaves alone all files of other names, whatever the two paths look like
(`untouched_write`, `untouched_save`): a path that leads below a name has to pass it, and it can
pass folders only (`eq_of_above`). -/

namespace Docsmith

open List

namespace Folder

open Docsmith.Path

/-! ## Files on the way -/

def IsFilename (n : String) : Prop :=
  IsName n ∧ n ≠ rootName

instance : DecidablePred IsFilename := fun n =>
  inferInstanceAs (Decidable (IsName n ∧ n ≠ rootName))

section Way

variable {n p : String} {x here ps : List String}

lemma above_of_up (hn : IsName n) (h : x ++ [n] <+: up here) : x ++ [n] <+: here := by
  rw [up] at h
  split at h
  · exact h
  · split at h
    · rcases prefix_concat_iff.mp h with heq | hbefore
      · exact absurd (List.cons.inj (append_inj' heq rfl).2).1 hn.2.2
      · exact hbefore
    · exact h.trans ( dropLast_prefix here)

lemma passes_of_above (hn : IsName n) (h : x ++ [n] <+: walk here ps) :
    x ++ [n] <+: here ∨ x ++ [n] ∈ stops here ps := by
  induction ps generalizing here with
  | nil => exact Or.inl h
  | cons p ps ih =>
    rcases part_cases p with hp | rfl | hp
    · rw [walk_stay _ _ hp] at h
      rw [stops_stay _ _ hp]
      exact ih h
    · exact (ih h).imp_left (above_of_up hn)
    · rw [walk_name _ _ hp] at h
      rw [stops_name _ _ hp]
      rcases ih h with hstart | hmem
      · rcases prefix_concat_iff.mp hstart with heq | hbefore
        · exact Or.inr (heq ▸ mem_cons_self)
        · exact Or.inl hbefore
      · exact Or.inr (mem_cons_of_mem _ hmem)

lemma not_above_start (hn : IsFilename n) (path : String) : ¬ x ++ [n] <+: startOf path := by
  intro h
  rw [startOf] at h
  split at h
  · have hroot : [rootName] = [] ++ [rootName] := rfl
    rw [hroot, prefix_concat_iff] at h
    rcases h with heq | hnil
    · exact hn.2 (List.cons.inj (append_inj' heq rfl).2).1
    · exact absurd (prefix_nil.mp hnil) (by simp)
  · exact absurd (prefix_nil.mp h) (by simp)

lemma eq_of_above (hn : IsFilename n) {f : Folder} {c : Content} {path : String}
    {place : List String} (hfile : f.get? (x ++ [n]) = some (.file c))
    (hw : f.writable path = .ok place) (h : x ++ [n] <+: place) : x ++ [n] = place := by
  obtain ⟨rfl, hstops, -⟩ := follow_spec (resolve_ok_iff.mp (writable_ok_iff.mp hw).1).2
  rcases passes_of_above hn.1 h with hstart | hmem
  · exact absurd hstart (not_above_start hn path)
  · rcases hstops _ hmem with heq | ⟨g, hg⟩
    · exact heq
    · rw [hfile] at hg
      cases hg

lemma makeAlong_file {root : Folder} {path : String} {used : Nat} {c : Content}
    (hn : IsName n) (hfile : root.get? (x ++ [n]) = some (.file c)) (hhere : ¬ x ++ [n] <+: here) :
    (makeAlong root path used here ps).2.get? (x ++ [n]) = some (.file c) := by
  induction ps generalizing root used here with
  | nil => exact hfile
  | cons p ps ih =>
    rcases part_cases p with hp | rfl | hp
    · rw [makeAlong_stay hp]
      exact ih hfile hhere
    · exact ih hfile fun h => hhere (above_of_up hn h)
    · rcases makeAlong_pass root path used here ps hp with
        hstop | ⟨root', hpass, ⟨⟨g, hg⟩, rfl⟩ | ⟨hnone, rfl⟩⟩
      · rw [hstop]
        exact hfile
      · -- the folder that is passed is not the file, so the way does not get below it
        rw [hpass]
        refine ih hfile fun hpre => ?_
        rcases prefix_concat_iff.mp hpre with heq | hbefore
        · rw [← heq, hfile] at hg
          cases hg
        · exact hhere hbefore
      · have hapart : ¬ x ++ [n] <+: here ++ [p] := by
          intro hpre
          rcases prefix_concat_iff.mp hpre with heq | hbefore
          · rw [← heq, hfile] at hnone
            cases hnone
          · exact hhere hbefore
        rw [hpass]
        exact ih ((get?_set_empty hnone hapart).trans hfile) hapart

end Way

/-! ## Files of other names -/

/-- Folders stay, and so do the files of the given name, which do not become more. -/
structure Untouched (n : String) (f f' : Folder) : Prop where
  grows : Grows f f'
  files : ∀ x c, f'.get? (x ++ [n]) = some (.file c) ↔ f.get? (x ++ [n]) = some (.file c)

instance (n : String) : IsPreorder Folder (Untouched n) where
  refl f := ⟨Grows.refl f, fun _ _ => Iff.rfl⟩
  trans _ _ _ h h' := ⟨h.grows.trans h'.grows, fun x c => (h'.files x c).trans (h.files x c)⟩

def Ends (path m : String) : Prop :=
  IsName m ∧ ∃ front, parts path = front ++ [m]

lemma parts_eq_singleton {x : String} (hslash : '/' ∉ x.toList) : parts x = [x] := by
  rw [parts_eq, pieces_of_notMem hslash, map_singleton, String.ofList_toList]

lemma ends_join {x : String} (hx : IsName x) (hslash : '/' ∉ x.toList) (docs : String) :
    Ends (join docs x) x := by
  have hparts := parts_eq_singleton hslash
  have hrelative : isAbsolute x = false := by
    refine Store.isAbsolute_eq_false ?_
    rw [hparts, mem_singleton]
    exact hx.1.symm
  refine ⟨hx, ?_⟩
  by_cases hdocs : docs = ""
  · refine ⟨[], ?_⟩
    rw [hdocs, join, hrelative, if_neg (by simp), if_pos (by simp), String.empty_append, hparts]
    rfl
  · obtain ⟨-, front, -, hfront, -⟩ := parts_join hdocs hrelative
    exact ⟨front, by rw [hfront, hparts]⟩

lemma ends_append {suffix : String} (hslash : '/' ∉ suffix.toList)
    (hlong : 2 < suffix.toList.length) (path : String) :
    ∃ base, Ends (path ++ suffix) (base ++ suffix) := by
  obtain ⟨front, base, hpieces⟩ :=
    (eq_nil_or_concat' (pieces path.toList)).resolve_left (pieces_ne_nil _)
  refine ⟨String.ofList base, ?_, front.map String.ofList, ?_⟩
  · have hlength : ∀ m : String, m.toList.length ≤ 2 → String.ofList base ++ suffix ≠ m := by
      rintro m hm rfl
      rw [String.toList_append, length_append] at hm
      omega
    exact ⟨hlength "" (by decide), hlength "." (by decide), hlength ".." (by decide)⟩
  · rw [parts_eq, String.toList_append, pieces_append_of_notMem hpieces hslash, map_append,
      map_singleton, String.ofList_append, String.ofList_toList]

section Untouched

variable {n m path : String} {f f' : Folder} {c : Content} {place : List String}

lemma Ends.exists_walk (h : Ends path m) : ∃ x, walk (startOf path) (parts path) = x ++ [m] := by
  obtain ⟨hm, front, hfront⟩ := h
  refine ⟨walk (startOf path) front, ?_⟩
  rw [hfront, walk_append, walk_name _ _ hm]
  rfl

lemma Ends.exists_place (h : Ends path m) (hw : f.writable path = .ok place) :
    ∃ x, place = x ++ [m] := by
  obtain ⟨rfl, -, -⟩ := follow_spec (resolve_ok_iff.mp (writable_ok_iff.mp hw).1).2
  exact h.exists_walk

lemma untouched_set (hn : IsFilename n) (hends : Ends path m) (hne : m ≠ n)
    (hw : f.writable path = .ok place) (c : Content) :
    Untouched n f (f.set (.file c) place) := by
  obtain ⟨hno, hnil⟩ := noFolder_of_writable hw
  obtain ⟨y, rfl⟩ := hends.exists_place hw
  -- the places end in different names, and the file is not on the way to what is written
  have hother : ∀ x : List String, x ++ [n] ≠ y ++ [m] := by
    intro x heq
    exact hne (List.cons.inj (append_inj' heq rfl).2).1.symm
  refine ⟨grows_set hno _, fun x c' => ⟨fun hafter => ?_, fun hbefore => ?_⟩⟩
  · exact ((changed_set hno hnil [] c).files _ c' hafter).resolve_left (hother x)
  · have hapart : ¬ x ++ [n] <+: y ++ [m] := fun h => hother x (eq_of_above hn hbefore hw h)
    rw [get?_set_file hno hnil hapart c]
    exact hbefore

lemma Untouched.has (h : Untouched n f f') (hends : Ends path n) (hhas : f.Has path c) :
    f'.Has path c := by
  obtain ⟨place, hw, hget⟩ := hhas
  obtain ⟨x, rfl⟩ := hends.exists_place hw
  obtain ⟨hresolve, hend, -⟩ := writable_ok_iff.mp hw
  have hget' := (h.files x c).mpr hget
  refine ⟨x ++ [n], writable_ok_iff.mpr ⟨resolve_of_grows h.grows hresolve, hend, ?_⟩, hget'⟩
  intro g hg
  rw [ entry?, hget'] at hg
  cases hg

def Lacks (f : Folder) (path : String) : Prop :=
  ∀ c, f.get? (walk (startOf path) (parts path)) ≠ some (.file c)

lemma lacks_of_isNone (h : (f.get? (walk (startOf path) (parts path))).isNone = true) :
    f.Lacks path := by
  intro c hget
  rw [hget] at h
  cases h

lemma Lacks.not_has (h : f.Lacks path) : ¬ f.Has path c := by
  rintro ⟨place, hw, hget⟩
  obtain ⟨rfl, -, -⟩ := follow_spec (resolve_ok_iff.mp (writable_ok_iff.mp hw).1).2
  exact h c hget

lemma Untouched.lacks (h : Untouched n f f') (hends : Ends path n) (hlacks : f.Lacks path) :
    f'.Lacks path := by
  intro c hget
  obtain ⟨x, hx⟩ := hends.exists_walk
  rw [hx] at hget
  refine hlacks c ?_
  rw [hx]
  exact (h.files x c).mp hget

end Untouched

/-! ## Steps on the folder -/

section Steps

variable {n m path : String}

lemma untouched_makeFolders (hn : IsFilename n) (path : String) :
    Leads (Untouched n) (Files.makeFolders path) := by
  intro f
  rw [Files.run_makeFolders]
  by_cases hpath : path = ""
  · rw [hpath]
    exact refl_of (Untouched n) f
  · rw [makeFolders_eq f hpath]
    by_cases hmany : f.missing (startOf path) (parts (trimmed path)) > maxLevels
    · rw [if_pos hmany]
      exact refl_of (Untouched n) f
    · rw [if_neg hmany]
      exact ⟨made_makeAlong.grows, fun x c => ⟨made_makeAlong.files _ c,
        fun h => makeAlong_file hn.1 h (not_above_start hn path)⟩⟩

variable (hn : IsFilename n) (hends : Ends path m) (hne : m ≠ n)

include hn hends hne

lemma untouched_putFile (c : Content) :
    Leads (Untouched n) (Files.update (·.putFile path c)) := by
  intro f
  rw [Files.run_update]
  cases hw : f.writable path with
  | error e =>
    rw [putFile, hw]
    exact refl_of (Untouched n) f
  | ok place =>
    rw [putFile_eq hw]
    exact untouched_set hn hends hne hw c

lemma untouched_write (text : String) : Leads (Untouched n) (Files.write path text) :=
  (untouched_putFile hn hends hne _).bind fun _ =>
    (leads_of_eq fun f => by rw [Files.run_ask]).bind fun _ => untouched_putFile hn hends hne _

lemma untouched_append (text : String) : Leads (Untouched n) (Files.append path text) := by
  have hadd : ∀ t, Leads (Untouched n) (Files.update (·.appendText path t)) := by
    intro t f
    rw [Files.run_update]
    cases hadded : f.appendText path t with
    | error e => exact refl_of (Untouched n) f
    | ok f' =>
      obtain ⟨place, c, hw, rfl⟩ := exists_set_of_appendText hadded
      exact untouched_set hn hends hne hw c
  exact (hadd "").bind fun _ => (leads_of_eq fun f => by rw [Files.run_ask]).bind fun _ => hadd text

lemma untouched_save {δ : Type} [Document δ] (d : δ) :
    Leads (Untouched n) (Store.save path d) := by
  have hprepare : Leads (Untouched n) (Store.prepare path) := by
    rw [Store.prepare]
    split
    · exact leads_pure ()
    · exact untouched_makeFolders hn _
  exact hprepare.bind fun _ => (untouched_append hn hends hne "").bind fun _ =>
    (leads_of_eq fun f => by rw [Files.run_ask]).bind fun _ => untouched_append hn hends hne _

end Steps

lemma untouched_noted {n : String} (hn : IsFilename n) (hne : n ≠ Store.notes) (f f' : Folder)
    (h : Talk.Noted f f') : Untouched n f f' := by
  rcases h with rfl | ⟨text, rfl⟩
  · exact refl_of (Untouched n) f'
  · exact untouched_append hn ⟨by decide, [], by decide +kernel⟩ hne.symm text f

/-! ## Documents in files of one name -/

section Documents

variable {δ : Type} [Document δ] {n path : String} {f f' : Folder}

lemma has_of_loadAll {d : δ} {ds : List δ}
    (h : ((Store.loadAll δ path).run.run f).1 = .ok (d :: ds)) :
    ∃ c t, f.Has path c ∧ textOf c = .ok t ∧ Document.ofText t = .ok (d :: ds) := by
  rw [Store.run_loadAll] at h
  by_cases hexists : f.pathExists path = true
  · rw [if_pos hexists] at h
    cases hread : f.readText path with
    | error e =>
      rw [hread] at h
      cases h
    | ok t =>
      rw [hread] at h
      obtain ⟨c, hhas, ht⟩ := has_of_readText hread
      exact ⟨c, t, hhas, ht, h⟩
  · rw [if_neg hexists] at h
    cases h

lemma loadAll_of_has {c : Content} {t : String} (h : f.Has path c) (ht : textOf c = .ok t) :
    ((Store.loadAll δ path).run.run f).1 = Document.ofText t := by
  obtain ⟨hexists, hread⟩ := h.read
  rw [Store.run_loadAll, if_pos hexists, hread, ht]
  rfl

lemma Untouched.loadAll (h : Untouched n f f') (hends : Ends path n) {d : δ} {ds : List δ}
    (hload : ((Store.loadAll δ path).run.run f).1 = .ok (d :: ds)) :
    ((Store.loadAll δ path).run.run f').1 = .ok (d :: ds) := by
  obtain ⟨c, t, hhas, ht, hds⟩ := has_of_loadAll hload
  rw [loadAll_of_has (h.has hends hhas) ht, hds]

lemma load?_ok_iff {name : String} {d : δ} :
    ((Store.load? δ name path).run.run f).1 = .ok (some d) ↔
      ∃ ds, ((Store.loadAll δ path).run.run f).1 = .ok ds ∧
        ds.find? (fun d => Document.name d == name) = some d := by
  obtain ⟨o, ho⟩ := Store.loadAll_folder δ path f
  rw [Store.load?, run_bind, ho]
  cases o with
  | error e =>
    constructor
    · exact fun h => by cases h
    · rintro ⟨ds, hds, -⟩
      cases hds
  | ok ds =>
    constructor
    · exact fun h => ⟨ds, rfl, Except.ok.inj h⟩
    · rintro ⟨ds', hds, hfind⟩
      obtain rfl := Except.ok.inj hds
      exact congrArg Except.ok hfind

lemma Untouched.load? (h : Untouched n f f') (hends : Ends path n) {name : String} {d : δ}
    (hload : ((Store.load? δ name path).run.run f).1 = .ok (some d)) :
    ((Store.load? δ name path).run.run f').1 = .ok (some d) := by
  obtain ⟨ds, hds, hfind⟩ := load?_ok_iff.mp hload
  refine load?_ok_iff.mpr ⟨ds, ?_, hfind⟩
  cases ds with
  | nil => cases hfind
  | cons d' ds => exact h.loadAll hends hds

end Documents

end Folder

end Docsmith
