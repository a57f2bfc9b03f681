import Docsmith.Proofs.Reopening
import Docsmith.Proofs.Rereading

/-! # Files right in the folder of documents

Drafts and documents on modules go to two files right in the folder of documents. Such a file holds
what it held and what was saved since (`Lies.saveAll`), and what is found in it later depends on
that text alone (`Lies.reload`). -/

namespace Docsmith

open List

/-! ## Folders that are there -/

namespace Folder

variable {root root' : Folder} {path : String} {here ps place : List String}

lemma makeAlong_there {used : Nat}
    (hstops : ∀ x ∈ stops here ps, ∃ g, root.get? x = some (.folder g)) :
    (makeAlong root path used here ps).2 = root := by
  induction ps generalizing used here with
  | nil => rfl
  | cons p ps ih =>
    rcases part_cases p with hp | rfl | hp
    · rw [stops_stay _ _ hp] at hstops
      rw [makeAlong_stay hp]
      exact ih hstops
    · exact ih hstops
    · rw [stops_name _ _ hp] at hstops
      obtain ⟨⟨g, hg⟩, hrest⟩ := forall_mem_cons.mp hstops
      simp only [makeAlong, hp.tests.1, hp.tests.2, Bool.false_eq_true, if_false, hg]
      cases checkSpelling p with
      | error e => rfl
      | ok u =>
        simp only
        split
        · rfl
        · exact ih hrest

lemma follow_there {n : String} (hn : IsName n)
    (hstops : ∀ x ∈ stops here ps, ∃ g, root'.get? x = some (.folder g))
    (h : follow root path here (ps ++ [n]) = .ok place) :
    follow root' path here (ps ++ [n]) = .ok place := by
  induction ps generalizing here with
  | nil => exact (follow_name_ok hn).mpr ((follow_name_ok hn).mp h)
  | cons p ps ih =>
    rw [cons_append] at h ⊢
    rcases part_cases p with hp | rfl | hp
    · rw [stops_stay _ _ hp] at hstops
      rw [follow_stay hp] at h ⊢
      exact ih hstops h
    · exact ih hstops h
    · rw [stops_name _ _ hp] at hstops
      obtain ⟨hhere, hrest⟩ := forall_mem_cons.mp hstops
      rw [follow_name_ok hp, if_neg (by simp)] at h ⊢
      obtain ⟨hsize, -, hfollow⟩ := h
      exact ⟨hsize, hhere, ih hrest hfollow⟩

end Folder

/-! ## Files right in the folder of documents -/

namespace Store

open Folder Docsmith.Path

structure IsPlain (x : String) : Prop where
  file : IsFile x
  slash : '/' ∉ x.toList

section Plain

variable {docs x : String} {f f' : Folder}

lemma IsPlain.parts (hx : IsPlain x) : Path.parts x = [x] := by
  rw [parts_eq, pieces_of_notMem hx.slash]
  simp

lemma IsPlain.isName (hx : IsPlain x) : IsName x :=
  isName_of_mem_parts hx.file x (by simp [hx.parts])

lemma IsPlain.exists_parts (hx : IsPlain x) (docs : String) :
    ∃ front, startOf (join docs x) = startOf docs ∧ Path.parts (join docs x) = front ++ [x] ∧
      stops (startOf docs) front = ways docs := by
  by_cases hdocs : docs = ""
  · subst hdocs
    rw [join_empty hx.file]
    refine ⟨[], ?_, by rw [hx.parts]; rfl, rfl⟩
    rw [startOf, isAbsolute_of_isFile hx.file]
    rfl
  · obtain ⟨hstart, front, -, hparts, -, hstops⟩ := exists_front hdocs hx.file
    exact ⟨front, hstart, by rw [hparts, hx.parts], hstops⟩

lemma IsPlain.endsWith (hx : IsPlain x) (docs : String) :
    Text.endsWith "/" (join docs x) = false := by
  by_cases hdocs : docs = ""
  · subst hdocs
    have hslash : "/".toList.reverse = ['/'] := by simp
    rw [join_empty hx.file, Bool.eq_false_iff, ne_eq, Text.endsWith, hslash,
      isPrefixOf_iff_prefix]
    intro hpre
    exact hx.slash (mem_reverse.mp (hpre.subset mem_cons_self))
  · exact endsWith_join hdocs hx.file

def Reaches (docs x : String) (f : Folder) : Prop :=
  f.resolve (join docs x) = .ok (placeOf docs x)

lemma Opened.reaches (h : Opened docs f') (hx : IsPlain x) (hreaches : Reaches docs x f) :
    Reaches docs x f' := by
  obtain ⟨front, hstart, hparts, hstops⟩ := hx.exists_parts docs
  obtain ⟨hcheck, hfollow⟩ := resolve_ok_iff.mp hreaches
  rw [hstart, hparts] at hfollow
  refine resolve_ok_iff.mpr ⟨hcheck, ?_⟩
  rw [hstart, hparts]
  refine follow_there hx.isName ?_ hfollow
  rw [hstops]
  exact h

lemma Opened.prepare (h : Opened docs f) (hx : IsPlain x) :
    ((prepare (join docs x)).run.run f).2 = f := by
  by_cases hdocs : docs = ""
  · subst hdocs
    have hdir : dir x = "" := by
      have hdrop : x.toList.reverse.dropWhile (· ≠ '/') = [] := by
        rw [dropWhile_eq_nil_iff]
        intro c hc
        rw [mem_reverse] at hc
        have hne : c ≠ '/' := fun heq => hx.slash (heq ▸ hc)
        simpa using hne
      rw [dir]
      simp only [hdrop]
      rfl
    rw [join_empty hx.file, Store.prepare, hdir]
    rfl
  · obtain ⟨hdir, hstart, hstops, -, -⟩ := dir_join hdocs hx.file
    have hways : waysTo docs x = ways docs := by
      rw [waysTo, hx.parts]
      exact append_nil _
    rw [Store.prepare, if_neg (by simpa using hdir), Files.run_makeFolders, makeFolders_eq f hdir]
    split
    · rfl
    · refine makeAlong_there ?_
      rw [hstart, hstops, hways]
      exact h

end Plain

/-! ## What a file holds -/

/-- The folder of documents is there, and a file in it has the given text. -/
structure Lies (docs x : String) (t : Option String) (f : Folder) : Prop where
  opened : Opened docs f
  text : f.get? (placeOf docs x) = textEntry t

section Lies

variable {docs x : String} {t : Option String} {f f' : Folder}

lemma Lies.of_changed (h : Lies docs x t f) {file : List String}
    (hchanged : Changed [] file f f') (hbefore : ¬ placeOf docs x <+: file)
    (hafter : ¬ file <+: placeOf docs x) : Lies docs x t f' := by
  constructor
  · intro y hy
    obtain ⟨g, hg⟩ := h.opened y hy
    exact hchanged.grows y g hg
  · rw [← h.text]
    exact hchanged.apart _ (noFolder_of_textEntry h.text) (by simp) hbefore hafter

lemma Lies.of_noted (h : Lies docs x t f) (hx : IsFile x) (hnoted : Talk.Noted f f') :
    Lies docs x t f' := by
  rcases hnoted with rfl | ⟨text, rfl⟩
  · exact h
  · rcases Files.append_changed f notes text with hsame | ⟨place, hw, hchanged⟩
    · rw [hsame]
      exact h
    · obtain rfl : place = [notes] :=
        (follow_spec (resolve_ok_iff.mp (writable_ok_iff.mp hw).1).2).1
      obtain ⟨-, hapart⟩ := h.opened.not_prefix_notes (noFolder_of_writable hw).1
      exact h.of_changed hchanged (not_prefix_notes hx) (hapart x hx)

lemma Lies.load (h : Lies docs x t f) (hx : IsPlain x) (hreaches : Reaches docs x f)
    (δ : Type) [Document δ] : (loadAll δ (join docs x)).run.run f = (docsIn δ t, f) := by
  have htext := h.text
  rw [run_loadAll]
  cases t with
  | none =>
    have hmissing : ¬ f.pathExists (join docs x) = true := by
      rw [pathExists, lookup?, hreaches]
      simp only [entry?_placeOf hx.file, htext]
      simp [textEntry]
    rw [if_neg hmissing]
    rfl
  | some text =>
    have hw : f.writable (join docs x) = .ok (placeOf docs x) := by
      refine writable_ok_iff.mpr ⟨hreaches, hx.endsWith docs, ?_⟩
      rw [entry?_placeOf hx.file]
      exact noFolder_of_textEntry htext
    obtain ⟨hexists, hread⟩ := readText_eq hw htext
    rw [if_pos hexists, hread, Except.bind, docsIn]

lemma load_of_not_reaches (hx : IsFile x) (h : ¬ Reaches docs x f) (δ : Type) [Document δ] :
    (loadAll δ (join docs x)).run.run f = (.ok [], f) := by
  have hmissing : ¬ f.pathExists (join docs x) = true := by
    rw [pathExists, lookup?]
    cases hresolve : f.resolve (join docs x) with
    | error e => simp
    | ok place =>
      rw [eq_placeOf hx hresolve] at hresolve
      exact absurd hresolve h
  rw [run_loadAll, if_neg hmissing]

lemma Lies.load_eq (h : Lies docs x t f) (h' : Lies docs x t f') (hx : IsPlain x)
    (δ : Type) [Document δ] : ((loadAll δ (join docs x)).run.run f').1
      = ((loadAll δ (join docs x)).run.run f).1 := by
  by_cases hreaches : Reaches docs x f
  · rw [h.load hx hreaches, h'.load hx (h'.opened.reaches hx hreaches)]
  · have hreaches' : ¬ Reaches docs x f' := fun hr => hreaches (h.opened.reaches hx hr)
    rw [load_of_not_reaches hx.file hreaches, load_of_not_reaches hx.file hreaches']

lemma Lies.save (h : Lies docs x t f) (hx : IsPlain x) {d : ModuleDoc}
    (hrun : (save (join docs x) d).run.run f = (.ok (), f')) :
    Lies docs x (some (t.getD "" ++ Document.written d)) f' ∧ Reaches docs x f' ∧
      Changed [] (placeOf docs x) f f' := by
  obtain ⟨text, hmarkdown, hwritten, -⟩ := Document.markdown_written d
  have hprepare := h.opened.prepare hx
  rw [Store.save, run_bind] at hrun
  generalize (prepare (join docs x)).run.run f = prepared at hprepare hrun
  obtain ⟨r, f₁⟩ := prepared
  obtain rfl : f₁ = f := hprepare
  cases r with
  | error e => cases hrun
  | ok u =>
    simp only [run_bind] at hrun
    cases hw : f₁.writable (join docs x) with
    | error e =>
      rw [Files.append_error hw] at hrun
      cases hrun
    | ok place =>
      obtain rfl := eq_placeOf hx.file (writable_ok_iff.mp hw).1
      -- the file is opened with an empty text before the document is written
      obtain ⟨f₂, hrun₂, hchanged₂, hw₂, _, hget₂, hadded₂, -⟩ := Files.append_run hw h.text ""
      rw [hadded₂ rfl, String.append_empty] at hget₂
      obtain ⟨f₃, hrun₃, hchanged₃, hw₃, added, hget₃, hadded₃, -⟩ :=
        Files.append_run hw₂ hget₂ (text ++ "\n")
      have hchecked : checkText "" = .ok () := rfl
      rw [hrun₂, hchecked] at hrun
      simp only [Files.run_ask, hmarkdown, hrun₃] at hrun
      obtain ⟨hok, rfl⟩ := Prod.mk.inj hrun
      have hchanged := hchanged₂.trans hchanged₃
      rw [hadded₃ hok, ← hwritten] at hget₃
      refine ⟨⟨fun y hy => ?_, hget₃⟩, (writable_ok_iff.mp hw₃).1, hchanged⟩
      obtain ⟨g, hg⟩ := h.opened y hy
      exact hchanged.grows y g hg

def extended (t : Option String) (ds : List ModuleDoc) : Option String :=
  ds.foldl (fun t d => some (t.getD "" ++ Document.written d)) t

lemma extended_cons (t : Option String) (d : ModuleDoc) (ds : List ModuleDoc) :
    extended t (d :: ds) = some (Document.addAll (t.getD "") (d :: ds)) := by
  induction ds generalizing t d with
  | nil => rfl
  | cons e ds ih => exact ih (some (t.getD "" ++ Document.written d)) e

lemma Lies.saveAll {ds : List ModuleDoc} (h : Lies docs x t f) (hx : IsPlain x)
    (hrun : (ds.forM (Store.save (join docs x))).run.run f = (.ok (), f')) :
    Lies docs x (extended t ds) f' ∧ (ds ≠ [] → Reaches docs x f') ∧
      Changed [] (placeOf docs x) f f' := by
  induction ds generalizing t f with
  | nil =>
    obtain ⟨-, rfl⟩ := Prod.mk.inj hrun
    exact ⟨h, fun hne => absurd rfl hne, Changed.refl _ _ f⟩
  | cons d ds ih =>
    rw [List.forM, run_bind] at hrun
    rcases hfirst : (Store.save (join docs x) d).run.run f with ⟨r, f₁⟩
    simp only [hfirst] at hrun
    cases r with
    | error e => cases hrun
    | ok u =>
      obtain ⟨hlies, hreaches, hchanged⟩ := h.save hx hfirst
      obtain ⟨hlies', -, hchanged'⟩ := ih hlies hrun
      refine ⟨hlies', fun _ => ?_, hchanged.trans hchanged'⟩
      exact resolve_of_grows hchanged'.grows hreaches

def Found (docs x : String) (f : Folder) : Prop :=
  ∃ d ds, ((loadAll ModuleDoc (join docs x)).run.run f).1 = .ok (d :: ds)

lemma Lies.reload (h : Lies docs x t f) (hx : IsPlain x) {old new : List ModuleDoc}
    (h' : Lies docs x (extended t new) f') (hreaches : new ≠ [] → Reaches docs x f')
    (hload : ((loadAll ModuleDoc (join docs x)).run.run f).1 = .ok old)
    (hnew : old ≠ [] → new = []) :
    (Found docs x f' ↔ (old ≠ [] ∨ new ≠ []) ∧ ∀ d ∈ new, Document.Reopens d) ∧
      (old ≠ [] ∨ new ≠ [] → ((loadAll ModuleDoc (join docs x)).run.run f').1 ≠ .ok []) := by
  cases new with
  | nil =>
    -- nothing was added, so the same is found
    have hsame := h.load_eq h' hx ModuleDoc
    rw [Found, hsame, hload]
    cases old with
    | nil | cons d ds => simp
  | cons d ds =>
    obtain rfl : old = [] := by
      by_contra hold
      cases hnew hold
    have hreaches' := hreaches (cons_ne_nil d ds)
    have hempty : Document.ofText (Text.unifyBreaks (t.getD "")) = .ok ([] : List ModuleDoc) := by
      rw [h.load hx (h.opened.reaches hx hreaches')] at hload
      dsimp only at hload
      cases t with
      | none => rfl
      | some text => exact hload
    obtain ⟨hread, hsome⟩ := Document.readable_addAll_iff hempty (cons_ne_nil d ds)
    have hdocs : docsIn ModuleDoc (extended t (d :: ds))
        = Document.ofText (Text.unifyBreaks (Document.addAll (t.getD "") (d :: ds))) := by
      rw [extended_cons]
      rfl
    rw [Found, h'.load hx hreaches', hdocs]
    dsimp only
    refine ⟨?_, fun _ => hsome⟩
    rw [and_iff_right (Or.inr (cons_ne_nil d ds)), ← hread]
    constructor
    · rintro ⟨e, es, hes⟩
      exact ⟨e :: es, hes⟩
    · rintro ⟨es, hes⟩
      cases es with
      | nil => exact absurd hes hsome
      | cons e es => exact ⟨e, es, hes⟩

end Lies

end Store

end Docsmith
