import Docsmith.Files
import Docsmith.Proofs.Places
import Docsmith.Proofs.Runs

/-! # Adding to a file

`Changed` says what may differ after folders were made and a file was written: that file, and
folders that were missing. Adding a text to a file (`append_run`) leaves it at the end, or the file
as it was. -/

namespace Docsmith

open List

namespace Files

lemma run_ask {α : Type} (g : Folder → Except Fault α) (f : Folder) :
    (ask g).run.run f = (g f, f) := by
  rw [ask, run_get_bind]
  cases g f with
  | ok a | error e => rfl

lemma run_update (g : Folder → Except Fault Folder) (f : Folder) :
    (update g).run.run f = match g f with
      | .ok f' => (.ok (), f')
      | .error e => (.error e, f) := by
  rw [update, run_bind, run_ask]
  cases g f with
  | ok a | error e => rfl

lemma run_pathExists (path : String) (f : Folder) :
    (pathExists path).run.run f = (.ok (f.pathExists path), f) := rfl

lemma run_makeFolders (path : String) (f : Folder) :
    (makeFolders path).run.run f = f.makeFolders path := by
  rw [makeFolders, run_get_bind]
  rcases f.makeFolders path with ⟨r, f'⟩
  cases r with
  | ok a | error e => rfl

end Files

variable {path : String} {place : List String} {f : Folder}

namespace Folder

/-! ## Texts that can be written -/

lemma checkHalves_ok_iff {refused : Nat → Bool} {text : String} :
    checkHalves refused text = .ok () ↔ ∀ c ∈ text.toList, (Chars.half? c).any refused = false := by
  let fine : Char → Bool := fun c => !(Chars.half? c).any refused
  have hdrop : text.toList.drop (text.toList.takeWhile fine).length = text.toList.dropWhile fine := by
    conv_lhs => arg 2; rw [← takeWhile_append_dropWhile (p := fine) (l := text.toList)]
    exact drop_left
  have hcheck : checkHalves refused text = .ok () ↔ text.toList.dropWhile fine = [] := by
    simp only [checkHalves]
    rw [hdrop]
    cases hrest : text.toList.dropWhile fine with
    | nil => simp
    | cons c row =>
      -- the first character that is left is a half
      have hc : fine c = false := by
        have hne : text.toList.dropWhile fine ≠ [] := by simp [hrest]
        simpa [hrest] using head_dropWhile_not fine hne
      have hhalf : (Chars.half? c).isSome = true := by
        cases hhalf : Chars.half? c with
        | none => simp [fine, hhalf] at hc
        | some u => rfl
      simp [hhalf]
  rw [hcheck, dropWhile_eq_nil_iff]
  simp [fine]

lemma checkText_ok_iff {text : String} :
    checkText text = .ok () ↔ ∀ c ∈ text.toList, Chars.half? c = none := by
  rw [checkText, checkHalves_ok_iff]
  refine forall₂_congr fun c _ => ?_
  cases Chars.half? c with
  | none | some u => simp

lemma checkSpelling_ok_iff {s : String} : checkSpelling s = .ok () ↔
    (∀ c ∈ s.toList, (Chars.half? c).any (!isByteHalf ·) = false) ∧ Char.ofNat 0 ∉ s.toList := by
  rw [← checkHalves_ok_iff, checkSpelling]
  cases checkHalves (!isByteHalf ·) s with
  | error e => simp [bind, Except.bind]
  | ok u =>
    show (if hasZero s = true then Except.error Fault.zeroInPath else pure ()) = _ ↔ _
    by_cases hzero : hasZero s = true
    · rw [if_pos hzero]
      simpa [hasZero] using hzero
    · rw [if_neg hzero]
      simpa [hasZero, pure, Except.pure] using hzero

lemma checkSpelling_of_subset {p q : String} (hq : checkSpelling q = .ok ())
    (hpq : p.toList ⊆ q.toList) : checkSpelling p = .ok () := by
  rw [checkSpelling_ok_iff] at hq ⊢
  exact ⟨fun c hc => hq.1 c (hpq hc), fun h => hq.2 (hpq h)⟩

lemma checkPath_ok_iff : checkPath path = .ok () ↔
    checkSpelling path = .ok () ∧ path.utf8ByteSize ≤ maxPath ∧ path ≠ "" := by
  rw [checkPath]
  cases checkSpelling path with
  | error e => simp [bind, Except.bind]
  | ok u =>
    show (if path.utf8ByteSize > maxPath then Except.error (Fault.nameTooLong path)
      else if path.isEmpty = true then .error (.noSuchFile path) else pure ()) = _ ↔ _
    by_cases hlong : path.utf8ByteSize > maxPath
    · rw [if_pos hlong]
      simp [Nat.not_le.mpr hlong]
    · rw [if_neg hlong]
      by_cases hempty : path = ""
      · simp [hempty]
      · simp [hempty, Nat.not_lt.mp hlong, pure, Except.pure]

/-! ## Places that can be written -/

lemma resolve_ok_iff :
    f.resolve path = .ok place ↔
      checkPath path = .ok () ∧ f.follow path (startOf path) (Path.parts path) = .ok place := by
  rw [resolve]
  cases checkPath path with
  | error e | ok u => simp [bind, Except.bind]

lemma resolve_of_grows {f f' : Folder} (hgrows : Grows f f') (h : f.resolve path = .ok place) :
    f'.resolve path = .ok place := by
  rw [resolve_ok_iff] at h ⊢
  exact ⟨h.1, (follow_spec h.2).2.2 f' hgrows⟩

lemma trimmed_eq_self (h : Text.endsWith "/" path = false) : trimmed path = path := by
  have hslash : "/".toList.reverse = ['/'] := by simp
  rw [Text.endsWith, hslash] at h
  rw [trimmed, Chars.trimRight_eq, rdropWhile_eq_self_iff.mpr, String.ofList_toList]
  intro hne hlast
  obtain ⟨c, cs, hcs⟩ := exists_cons_of_ne_nil (l := path.toList.reverse) (by simpa using hne)
  rw [← head_reverse (by simpa using hne)] at hlast
  simp only [hcs, head_cons, beq_iff_eq] at hlast
  subst hlast
  simp [hcs] at h

lemma writable_ok_iff :
    f.writable path = .ok place ↔ f.resolve path = .ok place ∧
      Text.endsWith "/" path = false ∧ ∀ g, f.entry? place ≠ some (.folder g) := by
  rw [writable]
  cases hend : Text.endsWith "/" path with
  | true =>
    simp only [Bool.true_eq_false, false_and, and_false, iff_false]
    cases f.resolve (if (trimmed path).isEmpty then path else trimmed path) with
    | error e => exact fun h => nomatch h
    | ok x =>
      simp only [bind, Except.bind, if_true]
      split
      · exact fun h => nomatch h
      · exact fun h => nomatch h
  | false =>
    rw [trimmed_eq_self hend, ite_self]
    cases f.resolve path with
    | error e => simp [bind, Except.bind]
    | ok x =>
      simp only [bind, Except.bind, Bool.false_eq_true, if_false, true_and]
      split
      · rename_i g hg
        constructor
        · exact fun h => nomatch h
        · rintro ⟨h, hno⟩
          rw [Except.ok.inj h] at hg
          exact absurd hg (hno g)
      · rename_i hno
        constructor
        · intro h
          refine ⟨h, ?_⟩
          rw [← Except.ok.inj h]
          exact hno
        · exact fun h => h.1

lemma noFolder_of_writable (h : f.writable path = .ok place) : f.NoFolder place ∧ place ≠ [] := by
  obtain ⟨-, -, hentry⟩ := writable_ok_iff.mp h
  have hno : f.NoFolder place := fun g hg => hentry g (by rw [ entry?, hg]; rfl)
  refine ⟨hno, ?_⟩
  rintro rfl
  exact hno f rfl

/-! ## Writing -/

/-- At most a file and folders that were missing differ. -/
structure Changed (places : List (List String)) (file : List String) (f f' : Folder) : Prop where
  grows : Grows f f'
  files : ∀ x c, f'.get? x = some (.file c) → x = file ∨ f.get? x = some (.file c)
  apart : ∀ x, f.NoFolder x → (∀ y ∈ places, ¬ x <+: y) → ¬ x <+: file → ¬ file <+: x →
    f'.get? x = f.get? x

lemma Made.changed {places : List (List String)} {f f' : Folder} (h : Made places f f')
    (file : List String) : Changed places file f f' where
  grows := h.grows
  files x c hx := Or.inr (h.files x c hx)
  apart x hx hplaces _ _ := h.apart x hx hplaces

lemma Changed.refl (places : List (List String)) (file : List String) (f : Folder) :
    Changed places file f f :=
  (Made.refl places f).changed file

lemma Changed.trans {places : List (List String)} {file : List String} {f g h : Folder}
    (hfg : Changed places file f g) (hgh : Changed places file g h) :
    Changed places file f h where
  grows := hfg.grows.trans hgh.grows
  files x c hx := (hgh.files x c hx).elim Or.inl (hfg.files x c)
  apart x hx hplaces hxf hfx := by
    have hsame := hfg.apart x hx hplaces hxf hfx
    rw [← hsame]
    exact hgh.apart x (fun a ha => hx a (hsame ▸ ha)) hplaces hxf hfx

lemma Changed.mono {file : List String} {f g : Folder} (h : Changed [] file f g)
    (places : List (List String)) : Changed places file f g where
  grows := h.grows
  files := h.files
  apart x hx _ := h.apart x hx (by simp)

lemma changed_set {file : List String} (hno : f.NoFolder file) (hne : file ≠ [])
    (places : List (List String)) (c : Content) : Changed places file f (f.set (.file c) file) where
  grows := grows_set hno _
  files x c' hx := by
    rcases get?_of_set_file hx hne with hold | ⟨r, rfl, hr⟩
    · exact Or.inr hold
    · cases r with
      | nil => exact Or.inl (append_nil file)
      | cons n r => exact nomatch hr
  apart x _ _ hxf hfx := get?_set_of_apart f _ hxf hfx

lemma writable_set (h : f.writable path = .ok place) (c : Content) :
    (f.set (.file c) place).writable path = .ok place := by
  obtain ⟨hno, hne⟩ := noFolder_of_writable h
  obtain ⟨hresolve, hend, -⟩ := writable_ok_iff.mp h
  refine writable_ok_iff.mpr ⟨resolve_of_grows (grows_set hno _) hresolve, hend, fun g hg => ?_⟩
  rw [ entry?, get?_set_self f c hne] at hg
  cases hg

def textEntry (t : Option String) : Option Entry :=
  t.map fun s => .file (.text s)

lemma appendText_eq (h : f.writable path = .ok place) {t : Option String}
    (ht : f.get? place = textEntry t) (text : String) :
    f.appendText path text = .ok (f.set (.file (.text (t.getD "" ++ text))) place) := by
  rw [appendText, h]
  simp only [bind, Except.bind, ht]
  cases t with
  | none => exact congrArg Except.ok (by simp)
  | some s => rfl

lemma exists_set_of_appendText {f f' : Folder} {path text : String}
    (h : f.appendText path text = .ok f') :
    ∃ place c, f.writable path = .ok place ∧ f' = f.set (.file c) place := by
  rw [appendText] at h
  cases hw : f.writable path with
  | error e =>
    rw [hw] at h
    exact nomatch h
  | ok place =>
    rw [hw] at h
    simp only [bind, Except.bind, pure, Except.pure] at h
    split at h
    · exact ⟨place, _, rfl, (Except.ok.inj h).symm⟩
    · exact ⟨place, _, rfl, (Except.ok.inj h).symm⟩

end Folder

lemma Files.append_run (h : f.writable path = .ok place) {t : Option String}
    (ht : f.get? place = Folder.textEntry t) (text : String) :
    ∃ f', (Files.append path text).run.run f = (Folder.checkText text, f') ∧
      Folder.Changed [] place f f' ∧ f'.writable path = .ok place ∧
      ∃ added, f'.get? place = Folder.textEntry (some (t.getD "" ++ added)) ∧
        (Folder.checkText text = .ok () → added = text) ∧
        (Folder.checkText text ≠ .ok () → added = "") := by
  obtain ⟨hno, hne⟩ := Folder.noFolder_of_writable h
  have hfirst := Folder.appendText_eq h ht ""
  rw [String.append_empty] at hfirst
  have hw := Folder.writable_set h (.text (t.getD ""))
  have hself := Folder.get?_set_self f (.text (t.getD "")) hne
  have hchanged := Folder.changed_set hno hne [] (.text (t.getD ""))
  rw [Files.append, run_bind, Files.run_update, hfirst]
  cases hcheck : Folder.checkText text with
  | error e =>
    refine ⟨_, ?_, hchanged, hw, "", ?_, (fun h => nomatch h), fun _ => rfl⟩
    · simp only [run_bind, Files.run_ask]
    · rw [String.append_empty]
      exact hself
  | ok u =>
    have hsecond := Folder.appendText_eq hw (t := some (t.getD "")) hself text
    obtain ⟨hno', -⟩ := Folder.noFolder_of_writable hw
    refine ⟨_, ?_, hchanged.trans (Folder.changed_set hno' hne [] _), Folder.writable_set hw _,
      text, Folder.get?_set_self _ _ hne, fun _ => rfl, fun h => absurd rfl h⟩
    simp only [run_bind, Files.run_ask, Files.run_update, hsecond]
    rfl

lemma Files.append_changed (f : Folder) (path text : String) :
    ((Files.append path text).run.run f).2 = f ∨ ∃ place, f.writable path = .ok place ∧
      Folder.Changed [] place f ((Files.append path text).run.run f).2 := by
  rw [Files.append, run_bind, Files.run_update]
  cases hfirst : f.appendText path "" with
  | error e => exact Or.inl rfl
  | ok f₁ =>
    obtain ⟨place, c, hw, rfl⟩ := Folder.exists_set_of_appendText hfirst
    obtain ⟨hno, hne⟩ := Folder.noFolder_of_writable hw
    have hchanged := Folder.changed_set hno hne [] c
    refine Or.inr ⟨place, hw, ?_⟩
    simp only [run_bind, Files.run_ask, Files.run_update]
    cases Folder.checkText text with
    | error e => exact hchanged
    | ok u =>
      cases hsecond : (f.set (.file c) place).appendText path text with
      | error e =>
        simp only [hsecond]
        exact hchanged
      | ok f₂ =>
        obtain ⟨place', c', hw', rfl⟩ := Folder.exists_set_of_appendText hsecond
        obtain rfl := Except.ok.inj ((Folder.writable_set hw c).symm.trans hw')
        obtain ⟨hno', -⟩ := Folder.noFolder_of_writable hw'
        simp only [hsecond]
        exact hchanged.trans (Folder.changed_set hno' hne [] c')

lemma Files.append_error {e : Fault} (h : f.writable path = .error e) (text : String) :
    (Files.append path text).run.run f = (.error e, f) := by
  have hfirst : f.appendText path "" = .error e := by
    rw [Folder.appendText, h]
    rfl
  rw [Files.append, run_bind, Files.run_update, hfirst]

end Docsmith
