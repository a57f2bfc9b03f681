import Docsmith.Proofs.Enhancing

/-! # Files that are read again

A file for documents stays as it is while other files are written and conversations are kept
(`has_after_write`, `has_aside`), so a later run finds what the last step that wrote it has left. -/

namespace Docsmith

open List

/-! ## Files at a path -/

namespace Folder

variable {f f' : Folder} {path : String} {c : Content}

def Has (f : Folder) (path : String) (c : Content) : Prop :=
  ∃ place, f.writable path = .ok place ∧ f.get? place = some (.file c)

lemma Has.of_changed (h : f.Has path c) {file : List String} (hno : f.NoFolder file)
    (hchanged : Changed [] file f f')
    (hapart : ∀ place, f.resolve path = .ok place → ¬ place <+: file) : f'.Has path c := by
  obtain ⟨place, hw, hget⟩ := h
  obtain ⟨hresolve, hend, -⟩ := writable_ok_iff.mp hw
  have hbefore := hapart place hresolve
  have hafter : ¬ file <+: place := by
    rintro ⟨r, rfl⟩
    by_cases hr : r = []
    · exact hbefore (by rw [hr, append_nil])
    · rw [get?_below_of_noFolder hno hr] at hget
      cases hget
  have hsame : f'.get? place = some (.file c) := by
    rw [← hget]
    refine hchanged.apart place (fun g hg => ?_) (by simp) hbefore hafter
    rw [hget] at hg
    cases hg
  refine ⟨place, writable_ok_iff.mpr ⟨resolve_of_grows hchanged.grows hresolve, hend, ?_⟩, hsame⟩
  intro g hg
  rw [ entry?, hsame] at hg
  cases hg

def textOf (c : Content) : Except Fault String :=
  match c with
  | .text s => .ok (Text.unifyBreaks s)
  | .bytes bs =>
    match Utf8.flaw? bs with
    | some flaw => .error (.notText flaw)
    | none => .ok (Text.unifyBreaks ((String.fromUTF8? ⟨bs.toArray⟩).getD ""))

lemma textOf_ok {t : String} (h : textOf c = .ok t) : ∃ s, t = Text.unifyBreaks s := by
  cases c with
  | text s => exact ⟨s, (Except.ok.inj h).symm⟩
  | bytes bs =>
    rw [textOf] at h
    cases hflaw : Utf8.flaw? bs with
    | some flaw =>
      rw [hflaw] at h
      cases h
    | none =>
      rw [hflaw] at h
      exact ⟨_, (Except.ok.inj h).symm⟩

lemma Has.read (h : f.Has path c) : f.pathExists path = true ∧ f.readText path = textOf c := by
  obtain ⟨place, hw, hget⟩ := h
  obtain ⟨hexists, hcontent⟩ := Store.contentAt_of_writable hw hget
  refine ⟨hexists, ?_⟩
  rw [readText, hcontent]
  rfl

lemma has_of_readText {t : String} (h : f.readText path = .ok t) :
    ∃ c, f.Has path c ∧ textOf c = .ok t := by
  rw [readText, contentAt] at h
  cases hresolve : f.resolve path with
  | error e =>
    rw [hresolve] at h
    cases h
  | ok place =>
    rw [hresolve] at h
    simp only [bind, Except.bind] at h
    cases hentry : f.entry? place with
    | none =>
      rw [hentry] at h
      cases h
    | some e =>
      rw [hentry] at h
      cases e with
      | folder g => cases h
      | file c =>
        cases hend : Text.endsWith "/" path with
        | true =>
          rw [hend] at h
          cases h
        | false =>
          rw [hend] at h
          refine ⟨c, ⟨place, writable_ok_iff.mpr ⟨hresolve, hend, ?_⟩, ?_⟩, h⟩
          · intro g hg
            rw [hentry] at hg
            cases hg
          · -- only folders are taken to be there without being known
            rw [ entry?] at hentry
            cases hget : f.get? place with
            | some e =>
              rw [hget, Option.some_or] at hentry
              exact hentry
            | none =>
              rw [hget, Option.none_or] at hentry
              split at hentry
              · cases hentry
              · cases hentry

end Folder

/-! ## Writing -/

namespace Files

open Folder

variable {f : Folder} {path : String} {place : List String}

lemma write_run (hw : f.writable path = .ok place) (text : String) :
    ∃ f', (write path text).run.run f = (checkText text, f') ∧ Changed [] place f f' ∧
      (checkText text = .ok () → f'.Has path (.text text)) := by
  obtain ⟨hno, hne⟩ := noFolder_of_writable hw
  have hput : ∀ {g : Folder}, g.writable path = .ok place → ∀ c,
      g.putFile path c = .ok (g.set (.file c) place) := by
    intro g hg c
    rw [putFile, hg]
    rfl
  have hw' := writable_set hw (.text "")
  have hempty := changed_set hno hne [] (.text "")
  rw [write, run_bind, run_update, hput hw]
  simp only [run_bind, run_ask]
  cases checkText text with
  | error e => exact ⟨_, rfl, hempty, fun h => nomatch h⟩
  | ok u =>
    simp only [run_update, hput hw']
    refine ⟨_, rfl, hempty.trans (changed_set (noFolder_of_writable hw').1 hne [] _), fun _ => ?_⟩
    exact ⟨place, writable_set hw' _, get?_set_self _ _ hne⟩

lemma write_error {e : Fault} (hw : f.writable path = .error e) (text : String) :
    (write path text).run.run f = (.error e, f) := by
  have hput : f.putFile path (.text "") = .error e := by
    rw [putFile, hw]
    rfl
  rw [write, run_bind, run_update, hput]

lemma has_of_write {f' : Folder} {text : String}
    (h : (write path text).run.run f = (.ok (), f')) : f'.Has path (.text text) := by
  cases hw : f.writable path with
  | error e =>
    rw [write_error hw] at h
    cases h
  | ok place =>
    obtain ⟨f'', hrun, -, hhas⟩ := write_run hw text
    rw [hrun, Prod.mk.injEq] at h
    obtain ⟨hok, rfl⟩ := h
    exact hhas hok

end Files

/-! ## Files for documents -/

namespace Store

open Folder Docsmith.Path

variable {docs x : String} {f : Folder} {c : Content}

lemma join_empty (hx : IsFile x) : join "" x = x := by
  rw [join, isAbsolute_of_isFile hx, if_neg (by simp), if_pos (by simp), String.empty_append]

lemma eq_placeOf (hx : IsFile x) {place : List String}
    (h : f.resolve (join docs x) = .ok place) : place = placeOf docs x := by
  by_cases hdocs : docs = ""
  · subst hdocs
    rw [join_empty hx] at h
    have hplace := (follow_spec (resolve_ok_iff.mp h).2).1
    rw [startOf, isAbsolute_of_isFile hx, if_neg (by simp), walk_names (isName_of_mem_parts hx)]
      at hplace
    exact hplace
  · exact eq_placeOf_of_resolve hdocs hx h

lemma not_prefix_notes (hx : IsFile x) : ¬ placeOf docs x <+: [notes] := by
  intro hpre
  have hlen := hpre.length_le
  obtain ⟨q, qs, hparts⟩ := exists_cons_of_ne_nil (parts_ne_nil x)
  rw [placeOf, hparts, length_append, length_cons, length_singleton] at hlen
  have hhome : home docs = [] := eq_nil_of_length_eq_zero (by omega)
  have hqs : qs = [] := eq_nil_of_length_eq_zero (by omega)
  rw [placeOf, hhome, hparts, hqs, nil_append, cons_prefix_cons] at hpre
  exact hx.other (parts_injective (by rw [hparts, hqs, hpre.1]; rfl))

lemma has_after_write (hx : IsFile x) {y : String} (hy : IsFile y) (hne : x ≠ y)
    (h : f.Has (join docs x) c) (text : String) :
    ((Files.write (join docs y) text).run.run f).2.Has (join docs x) c := by
  cases hw : f.writable (join docs y) with
  | error e =>
    rw [Files.write_error hw]
    exact h
  | ok place =>
    obtain ⟨f', hrun, hchanged, -⟩ := Files.write_run hw text
    rw [hrun]
    obtain rfl := eq_placeOf hy (writable_ok_iff.mp hw).1
    refine h.of_changed (noFolder_of_writable hw).1 hchanged fun place hplace => ?_
    rw [eq_placeOf hx hplace]
    exact not_prefix_placeOf hx hy hne docs

lemma has_after_note (hx : IsFile x) {f' : Folder} (hnoted : Talk.Noted f f')
    (h : f.Has (join docs x) c) : f'.Has (join docs x) c := by
  rcases hnoted with rfl | ⟨text, rfl⟩
  · exact h
  · rcases Files.append_changed f notes text with hsame | ⟨place, hw, hchanged⟩
    · rw [hsame]
      exact h
    · obtain rfl : place = [notes] :=
        (follow_spec (resolve_ok_iff.mp (writable_ok_iff.mp hw).1).2).1
      refine h.of_changed (noFolder_of_writable hw).1 hchanged fun place hplace => ?_
      rw [eq_placeOf hx hplace]
      exact not_prefix_notes hx

end Store

/-! ## Where steps can lead -/

section Leads

variable {α β : Type} {R : World → World → Prop} [IsPreorder World R]

lemma leads_ofExcept (x : Except Fault α) : Leads R (Run.ofExcept x) :=
  leads_of_eq fun w => by rw [Run.run_ofExcept]

lemma leads_of_reads {x : Run α} (h : Generate.Reads x) : Leads R x :=
  leads_of_eq fun w => by
    obtain ⟨r, hr⟩ := h w
    rw [hr]

lemma leads_collect {work : α → Run β} (hwork : ∀ a, Leads R (work a)) (xs : List α) :
    Leads R (Generate.collect work xs) := by
  induction xs with
  | nil => exact leads_pure []
  | cons a xs ih =>
    intro w
    exact trans_of R (hwork a w) (ih ((work a).run.run w).2)

end Leads

/-! ## Steps that keep conversations at most -/

section Aside

variable {σ α : Type} {part : σ → Folder}

def Aside (part : σ → Folder) (s s' : σ) : Prop :=
  Relation.ReflTransGen Talk.Noted (part s) (part s')

instance (part : σ → Folder) : IsPreorder σ (Aside part) where
  refl _ := .refl
  trans _ _ _ h h' := h.trans h'

lemma aside_of_eq {x : ExceptT Fault (StateM σ) α}
    (h : ∀ s, part (x.run.run s).2 = part s) : Leads (Aside part) x := by
  intro s
  rw [Aside, h s]

lemma aside_inFolder {step : Files α} (h : Leads (Aside id) step) :
    Leads (Aside World.folder) (inFolder step) :=
  fun w => h w.folder

def Session.folder (s : Session) : Folder := s.world.folder

lemma aside_inWorld {step : Run α} (h : Leads (Aside World.folder) step) :
    Leads (Aside Session.folder) (inWorld step) :=
  fun s => h s.world

lemma aside_talk {step : Talk α} (h : Leads (Aside Session.folder) step) :
    Leads (Aside World.folder) (Run.talk step) :=
  fun w => h { world := w }

lemma aside_askUser (prompt : String) :
    Leads (Aside World.folder) (Generate.askUser prompt id) := by
  intro w
  obtain ⟨r, w', used, hrun, hasked, -⟩ := Generate.askUser_run prompt w
  rw [hrun]
  exact .single hasked.noted

lemma Store.has_aside {docs x : String} (hx : Store.IsFile x) {f f' : Folder} {c : Content}
    (haside : Relation.ReflTransGen Talk.Noted f f') (h : f.Has (Path.join docs x) c) :
    f'.Has (Path.join docs x) c := by
  induction haside with
  | refl => exact h
  | tail _ hstep ih => exact Store.has_after_note hx hstep ih

end Aside

/-! ## Questions are sent -/

lemma Talk.askFrom_sends (post : String → String) (replies : List Reply) (s : Session) :
    s.world.prompts.length < ((askFrom post replies).run.run s).2.world.prompts.length := by
  have hsent : ∀ rest, (sent rest s).world.prompts.length = s.world.prompts.length + 1 := by
    intro rest
    simp [sent]
  cases replies with
  | nil =>
    rw [askFrom_nil, hsent]
    exact Nat.lt_succ_self _
  | cons reply rest =>
    -- the rest of the conversation starts when the question is sent
    obtain ⟨m, hm⟩ : ∃ m, (sent rest s).history.head? = some m := by
      cases hhistory : s.history with
      | nil => exact ⟨_, by simp [sent, hhistory]; rfl⟩
      | cons m ms => exact ⟨m, by simp [sent, hhistory]⟩
    have hstart : Asked m (sent rest s).world (sent rest s).world :=
      ⟨⟨[], by simp, by simp⟩, Or.inl rfl, rfl⟩
    have hasked : Asked m (sent rest s).world
        ((askFrom post (reply :: rest)).run.run s).2.world := by
      by_cases hlate : reply = .timeout
      · subst hlate
        obtain ⟨r, s', used, hrun, hasked, -⟩ := askFrom_run post rest hm
        rw [(askFrom_cons post .timeout rest s).trans hrun]
        exact hasked
      · by_cases hfailed : ∃ reason, reply = .failure reason
        · obtain ⟨reason, rfl⟩ := hfailed
          rw [askFrom_cons]
          exact hstart
        · obtain ⟨r, s', hrun, hasked, -⟩ := answered_run post reply hstart rfl
          rw [askFrom_reply post hlate (not_exists.mp hfailed), hrun]
          exact hasked
    obtain ⟨new, hnew, -⟩ := hasked.sent
    rw [hnew, length_append, hsent]
    omega

end Docsmith
