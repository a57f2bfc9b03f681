import Docsmith.Proofs.Revision

/-! # The code in finished documents

A finished document shows the code of its routine in a fence, but its file is read by the marks of
chapters and sections alone. `code_kept_iff` says for which code the loaded document still shows all
of it. -/

namespace Docsmith

open Chapter

/-! ## What can be loaded -/

lemma not_infix_title? {t n b : String} (h : title? t = some (n, b)) :
    ¬ '\n' :: chapterMark <:+: b.toList := by
  simp only [title?, Option.bind_eq_bind, Option.bind_eq_some_iff, Option.pure_def,
    Option.some.injEq, Prod.mk.injEq] at h
  obtain ⟨-, -, r, -, -, rfl⟩ := h
  have hmark : "\n### ".toList = '\n' :: chapterMark := by simp [chapterMark]
  rw [Text.before, hmark, String.toList_ofList]
  exact Chars.not_infix_before (by simp) _

lemma RoutineDoc.code_of_read {t : String} {d : RoutineDoc} (h : Document.ofChapter t = .ok d)
    {c : String} (hc : d.code = some c) :
    Unmarked c.toList ∧ ¬ '\n' :: chapterMark <:+: c.toList := by
  rw [Document.ofChapter] at h
  cases htitle : title? t with
  | none =>
    rw [htitle] at h
    cases h
  | some r =>
    obtain ⟨n, b⟩ := r
    simp only [htitle] at h
    cases hdescription : Chapter.section? "Description" b with
    | none =>
      rw [hdescription] at h
      cases h
    | some description =>
      rw [hdescription] at h
      -- the section ends at the next mark, and the text under the title at the next title
      have hsection : Chapter.section? "Source Code" b = some c := by
        rw [← hc, ← Except.ok.inj h]
      obtain ⟨-, hunmarked, hinfix⟩ := section?_spec hsection
      exact ⟨hunmarked, fun hin => not_infix_title? htitle (hin.trans hinfix)⟩

lemma Store.read_of_load? {δ : Type} [Document δ] {name file : String} {f f' : Folder} {d : δ}
    (h : (Store.load? δ name file).run.run f = (.ok (some d), f')) :
    ∃ t, Document.ofChapter t = .ok d := by
  rw [Store.load?, run_bind, Store.run_loadAll] at h
  by_cases hexists : f.pathExists file = true
  · rw [if_pos hexists] at h
    cases hread : (f.readText file).bind (Document.ofText (δ := δ)) with
    | error e =>
      rw [hread] at h
      cases h
    | ok ds =>
      rw [hread] at h
      have hfound : ds.find? (fun d => Document.name d == name) = some d :=
        Except.ok.inj (Prod.mk.inj h).1
      cases htext : f.readText file with
      | error e =>
        rw [htext] at hread
        cases hread
      | ok text =>
        rw [htext] at hread
        have hall : Document.ofText text = .ok ds := hread
        rw [Document.ofText, mapM_ok_iff] at hall
        obtain ⟨t, -, ht⟩ := exists_left_of_forall₂ hall (List.mem_of_find?_eq_some hfound)
        exact ⟨t, ht⟩
  · rw [if_neg hexists] at h
    cases h

namespace Generate

open Project Store

variable {p : Project} {w : World} {s : String}

lemma code_of_load {f f' : Folder} {d : RoutineDoc}
    (h : (p.loadRoutine? s).run.run f = (.ok (some d), f')) {c : String} (hc : d.code = some c) :
    Unmarked c.toList ∧ ¬ '\n' :: chapterMark <:+: c.toList := by
  rw [loadRoutine?, run_bind, Files.run_ask] at h
  cases hfile : p.routineFile s with
  | error e =>
    rw [hfile] at h
    cases h
  | ok file =>
    rw [hfile] at h
    obtain ⟨t, ht⟩ := read_of_load? h
    exact RoutineDoc.code_of_read ht hc

/-! ## Which code is kept -/

def ShowsCode (p : Project) (w : World) (s : String) : Prop :=
  ∃ d r fence, (p.loadRoutine? s).run.run w.folder = (.ok (some d), w.folder) ∧
    p.routines.get s = .ok r ∧ p.fence = .ok fence ∧ d.code = some (fenced fence r)

lemma ShowsCode.unmarked (hshows : ShowsCode p w s) {l : Language}
    (hl : p.fence = .ok l.markdown) {r : Routine} (hr : p.routines.get s = .ok r) :
    Unmarked r.code.toList ∧ Inner r.code.toList := by
  obtain ⟨d, r', fence, hload, hr', hfence, hcode⟩ := hshows
  obtain rfl := Except.ok.inj (hr.symm.trans hr')
  obtain rfl := Except.ok.inj (hl.symm.trans hfence)
  obtain ⟨hmark, hinner⟩ := code_of_load hload hcode
  exact ⟨(unmarked_fenced_iff l r).mp hmark, (inner_fenced_iff l r).mp hinner⟩

/-- **Code is kept unless it looks like a document.** Drafting and revising succeeds and every
finished document shows all the code of its routine just when no code has the mark of a section in
it or a line like the title of a chapter. -/
theorem code_kept_iff (h : Draftable p)
    (hcode : ∀ s ∈ p.routines.graph.nodes, ∀ r, p.routines.get s = .ok r →
      '\r' ∉ r.code.toList ∧ Folder.checkText r.code = .ok ())
    (hfresh : w.folder.lookup? p.docs = some (.folder .empty)) (hquiet : w.verbose = false)
    {first second more : List Reply} (hreplies : w.replies = first ++ (second ++ more))
    (hfirst : first.length = p.routines.graph.nodes.length)
    (hsecond : second.length = (p.routines.graph.nodes.filter (called p)).length)
    (hdrafts : ∀ reply ∈ first, Gives p id reply)
    (hrevisions : ∀ reply ∈ second, Gives p (fromSection "#### Description") reply) :
    Passes p w ((draftAndRevise p).run.run w) ∧ ∀ out, Passes p w out →
      ((out.1 = .ok () ∧ ∀ s ∈ p.routines.graph.nodes, ShowsCode p out.2 s) ↔
        ∀ s ∈ p.routines.graph.nodes, ∀ r, p.routines.get s = .ok r →
          Unmarked r.code.toList ∧ Inner r.code.toList) := by
  refine ⟨passes_draftAndRevise p w, fun out hpass => ⟨fun hkept s hs r hr => ?_, fun hall => ?_⟩⟩
  · obtain ⟨l, hl⟩ := h.exists_fence
    exact (hkept.2 s hs).unmarked hl hr
  · -- nothing in such code is taken for a mark, so this is the case without failures
    have hshowable : Showable p := fun s hs r hr =>
      ⟨(hall s hs r hr).1, (hall s hs r hr).2, (hcode s hs r hr).1, (hcode s hs r hr).2⟩
    obtain ⟨hok, -, drafts, finals, asked, revised, hrevised⟩ :=
      hpass.revised h hshowable hfresh hquiet hreplies hfirst hsecond hdrafts hrevisions
    refine ⟨hok, fun s hs => ?_⟩
    obtain ⟨d, -, -, hload, r, fence, hr, hfence, hcoded⟩ := hrevised.found s hs
    exact ⟨d, r, fence, hload, hr, hfence, hcoded⟩

theorem code_kept_iff_codedTrio : Draftable codedTrio ∧ Showable codedTrio ∧
    (((draftAndRevise codedTrio).run.run codedWorld).1 = .ok () ∧
      ∀ s ∈ codedTrio.routines.graph.nodes,
        ShowsCode codedTrio ((draftAndRevise codedTrio).run.run codedWorld).2 s) := by
  obtain ⟨hpass, hall⟩ := code_kept_iff draftable_codedTrio
    (fun s hs r hr => ⟨(showable_codedTrio s hs r hr).2.noReturn,
      (showable_codedTrio s hs r hr).2.writable⟩) rfl rfl replies_codedWorld rfl (by decide +kernel)
    gives_first gives_second
  refine ⟨draftable_codedTrio, showable_codedTrio, (hall _ hpass).mpr fun s hs r hr => ?_⟩
  exact ⟨(showable_codedTrio s hs r hr).1, (showable_codedTrio s hs r hr).2.inner⟩

def marked : Routine := { symbol := "f", file := "a.c", code := "####" }

def solo : Project :=
  { trio with routines := { graph := ⟨["f"], []⟩, known := [("f", marked)] } }

def soloWorld : World where
  folder := .folder "docs" .empty .empty
  replies := [.text verdict]

def soloDraft : Except Fault Unit × World :=
  Schedule.runGroups (draftWork solo) [["f"]] soloWorld

def soloOut : Except Fault Unit × World :=
  Schedule.runGroups (reviseWork solo) [["f"]] soloDraft.2

lemma layers_solo : solo.routines.graph.isAcyclic = true ∧
    solo.routines.graph.layers = [["f"]] := by
  refine Digraph.layers_of_peel ?_
  simp [solo, Digraph.peel, Digraph.ready_eq, Digraph.waiting_eq, Digraph.successors]

lemma passes_solo (hdraft : soloDraft.1 = .ok ()) : Passes solo soloWorld soloOut := by
  have hsame : Schedule.ofJobs (Schedule.jobsOf solo.routines.graph) = solo.routines.graph := rfl
  have hturned : solo.routines.graph.reverse = solo.routines.graph := rfl
  have hgroups : List.Forall₂ List.Perm [["f"]] solo.routines.graph.layers := by
    rw [layers_solo.2]
    exact .cons (.refl _) .nil
  have hfirst : Schedule.Runs solo.routines.graph (draftWork solo) soloWorld soloDraft :=
    .inGroups layers_solo.1 hgroups
  have hsecond : Schedule.Runs solo.routines.graph (reviseWork solo) soloDraft.2 soloOut :=
    .inGroups layers_solo.1 hgroups
  rw [← hsame] at hfirst hsecond
  rw [← hturned] at hsecond
  have hpair : soloDraft = (.ok (), soloDraft.2) := Prod.ext hdraft rfl
  rw [hpair] at hfirst
  exact .through hfirst hsecond

/-- Both passes succeed, and the finished document does not show the code. -/
theorem solo_code_cut : Passes solo soloWorld soloOut ∧ soloOut.1 = .ok () ∧
    ¬ ShowsCode solo soloOut.2 "f" := by
  have hok : soloDraft.1 = .ok () ∧ soloOut.1 = .ok () := by decide +kernel
  refine ⟨passes_solo hok.1, hok.2, fun hshows => ?_⟩
  have hr : solo.routines.get "f" = .ok marked := rfl
  have hmark : ¬ Unmarked marked.code.toList := by decide
  exact hmark (hshows.unmarked (l := .cpp) rfl hr).1

end Generate

end Docsmith
