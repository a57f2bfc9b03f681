import Docsmith.Proofs.Drafting

/-! # Documents by draft and revision

`revised_of_draftable` says what is asked and what is in the files after drafting and revising all
routines, from a folder without documents and in whichever order the tasks of a group run. -/

namespace Docsmith.Generate

open Project Store Chapter Schedule List

/-! ## Both passes -/

/-- Drafting all routines and then, if nothing failed, revising them, the tasks of a group in any
order. -/
inductive Passes (p : Project) (w : World) : Except Fault Unit × World → Prop where
  | stopped {fault : Fault} {w₁ : World} :
      Runs (ofJobs (jobsOf p.routines.graph)) (draftWork p) w (.error fault, w₁) →
      Passes p w (.error fault, w₁)
  | through {w₁ : World} {out : Except Fault Unit × World} :
      Runs (ofJobs (jobsOf p.routines.graph)) (draftWork p) w (.ok (), w₁) →
      Runs (ofJobs (jobsOf p.routines.graph.reverse)) (reviseWork p) w₁ out →
      Passes p w out

lemma run_overGraph (g : Digraph String) (work : String → Run Unit) (w : World) :
    (overGraph g work).run.run w
      = Schedule.run (ofJobs (jobsOf g)) (fun s w => (work s).run.run w) w := rfl

lemma passes_draftAndRevise (p : Project) (w : World) :
    Passes p w ((draftAndRevise p).run.run w) := by
  rw [draftAndRevise, run_bind, run_overGraph]
  have hdrafts := runs_run (ofJobs (jobsOf p.routines.graph)) (draftWork p) w
  change Runs _ _ _ (Schedule.run _ (fun s w => (draftRoutine p s).run.run w) w) at hdrafts
  rcases hrun : Schedule.run (ofJobs (jobsOf p.routines.graph))
    (fun s w => (draftRoutine p s).run.run w) w with ⟨r, w₁⟩
  rw [hrun] at hdrafts
  cases r with
  | error fault => exact .stopped hdrafts
  | ok u => exact .through hdrafts (runs_run _ (reviseWork p) w₁)

variable {p : Project} {w : World} {drafts finals : List RoutineDoc}

lemma Passes.idle (h : Draftable p) (hshelf : Shelved p w.folder drafts finals)
    (hdrafts : (drafts.map RoutineDoc.name).Perm p.routines.graph.nodes)
    (hfinals : (finals.map RoutineDoc.name).Perm p.routines.graph.nodes)
    {out : Except Fault Unit × World} (hpass : Passes p w out) : out = (.ok (), w) := by
  have hdrafting : ∀ {out}, Runs (ofJobs (jobsOf p.routines.graph)) (draftWork p) w out →
      out = (.ok (), w) := by
    intro out hrun
    obtain ⟨hok, -, -, -, hsame⟩ := hrun.steps (I := fun _ w' => w' = w) h.closed h.acyclic (by
      rintro done s _ rfl hnodes - -
      have hs := hnodes s (by simp)
      rw [draftWork, draftRoutine_known h hshelf hs (hdrafts.mem_iff.mpr hs)]
      exact ⟨rfl, rfl⟩) rfl
    exact Prod.ext hok hsame
  cases hpass with
  | stopped hrun => exact hdrafting hrun
  | through hrun hrun' =>
    rw [(Prod.mk.inj (hdrafting hrun)).2] at hrun'
    obtain ⟨hok, -, -, -, hsame⟩ := hrun'.steps (I := fun _ w' => w' = w)
      (Digraph.closed_reverse h.closed) (Digraph.acyclic_reverse h.closed h.acyclic) (by
        rintro done s _ rfl hnodes - -
        have hs := hnodes s (by simp)
        rw [reviseWork, reviseRoutine_known h hshelf hs (hfinals.mem_iff.mpr hs)]
        exact ⟨rfl, rfl⟩) rfl
    exact Prod.ext hok hsame

/-! ## What is there afterwards -/

/-- The drafts and the finished documents in the order in which they were written, and what the
model was asked for them. -/
structure Revised (p : Project) (w w' : World) (drafts finals : List RoutineDoc)
    (asked revised : List Prompt) : Prop where
  /-- Each routine has one draft and one finished document. -/
  drafted : (drafts.map RoutineDoc.name).Perm p.routines.graph.nodes
  finished : (finals.map RoutineDoc.name).Perm p.routines.graph.nodes
  /-- Each is one chapter of the file for its routine, and there are no others. -/
  draftFiles : ∀ source, IsSource source →
    (loadAll RoutineDoc (draftFile p source)).run.run w'.folder
      = (.ok (drafts.filter fun d => inFile p source d.name), w'.folder)
  finalFiles : ∀ source, IsSource source →
    (loadAll RoutineDoc (p.path (.routines source))).run.run w'.folder
      = (.ok (finals.filter fun d => inFile p source d.name), w'.folder)
  /-- The finished document on a routine is found, and it shows the code. -/
  found : ∀ s ∈ p.routines.graph.nodes, ∃ d ∈ finals, d.name = s ∧
    (p.loadRoutine? s).run.run w'.folder = (.ok (some d), w'.folder) ∧
    ∃ r fence, p.routines.get s = .ok r ∧ p.fence = .ok fence ∧ d.code = some (fenced fence r)
  /-- The model is asked once for each draft, and once for each routine that is called. -/
  prompts : w'.prompts = w.prompts ++ asked ++ revised
  calls : asked.length = p.routines.graph.nodes.length ∧
    revised.length = (p.routines.graph.nodes.filter (called p)).length
  asks : List.Forall₂ (AsksDraft p w.language) (drafts.map RoutineDoc.name) asked
  /-- Every question about a revision quotes the finished documents on all callers. -/
  revises : List.Forall₂ (AsksRevision p w.language drafts finals)
    ((finals.map RoutineDoc.name).filter (called p)) revised
  /-- Another run does nothing. -/
  again : ∀ out, Passes p w' out → out = (.ok (), w')

lemma Revising.revised (h : Draftable p) {start w₁ w₂ : World} {first second more : List Reply}
    {asked revised : List Prompt}
    (hdrafted : Drafted p start first more drafts asked w₁)
    (hdrafts : (drafts.map RoutineDoc.name).Perm p.routines.graph.nodes) {more' : List Reply}
    (hrevising : Revising p w₁ second more' drafts finals revised w₂)
    (hfinals : (finals.map RoutineDoc.name).Perm p.routines.graph.nodes) :
    Revised p start w₂ drafts finals asked revised := by
  obtain ⟨texts, hkeeps, hdraftTexts, hfinalTexts⟩ := hrevising.shelved
  refine ⟨hdrafts, hfinals, fun source hsource => ?_, fun source hsource => ?_, fun s hs => ?_, ?_,
    ⟨?_, ?_⟩, hdrafted.asks, ?_, fun out => Passes.idle h hrevising.shelved hdrafts hfinals⟩
  · rw [draftFile_eq]
    exact loadAll_run hkeeps (naming_draftName.isFile hsource) (hdraftTexts source hsource)
  · exact loadAll_run hkeeps (naming_finalName.isFile hsource) (hfinalTexts source hsource)
  · obtain ⟨r, hr, hsource, -⟩ := h.known s hs
    obtain ⟨d, hd, hmem, rfl⟩ := exists_docOn? (hfinals.mem_iff.mpr hs)
    have hload := hrevising.shelved.loadFinal hr hsource
    rw [hd] at hload
    exact ⟨d, hmem, rfl, hload, (hrevising.finished d hmem).coded⟩
  · rw [hrevising.prompts, hdrafted.prompts]
  · rw [← hdrafted.asks.length_eq, hdrafts.length_eq]
  · rw [← hrevising.asks.length_eq, (hfinals.filter (called p)).length_eq]
  · rw [← hdrafted.language]
    exact hrevising.asks

lemma Passes.revised (h : Draftable p) (hcode : Showable p)
    (hfresh : w.folder.lookup? p.docs = some (.folder .empty)) (hquiet : w.verbose = false)
    {first second more : List Reply} (hreplies : w.replies = first ++ (second ++ more))
    (hfirst : first.length = p.routines.graph.nodes.length)
    (hsecond : second.length = (p.routines.graph.nodes.filter (called p)).length)
    (hdrafts : ∀ reply ∈ first, Gives p id reply)
    (hrevisions : ∀ reply ∈ second, Gives p (fromSection "#### Description") reply)
    {out : Except Fault Unit × World} (hpass : Passes p w out) :
    out.1 = .ok () ∧ out.2.replies = more ∧ ∃ drafts finals asked revised,
      Revised p w out.2 drafts finals asked revised := by
  cases hpass with
  | stopped hrun =>
    cases (Drafted.run h hcode hfresh hquiet hreplies hfirst hdrafts hrun).1
  | @through w₁ out hrun hrun' =>
    obtain ⟨-, drafts, asked, hdrafted, hall⟩ :=
      Drafted.run h hcode hfresh hquiet hreplies hfirst hdrafts hrun
    -- the first pass has used up its replies and no more
    have hleft : w₁.replies = second ++ more := by
      rw [hdrafted.replies, ← hdrafted.asks.length_eq, hall.length_eq, ← hfirst, drop_length,
        nil_append]
    obtain ⟨hok, finals, revised, hrevising, hfinals⟩ := Revising.run h hcode hdrafted.shelved
      hdrafted.finished hall hdrafted.quiet hleft hsecond hrevisions hrun'
    refine ⟨hok, ?_, drafts, finals, asked, revised, hrevising.revised h hdrafted hall hfinals⟩
    rw [hrevising.replies, ← hrevising.asks.length_eq, (hfinals.filter (called p)).length_eq,
      ← hsecond, drop_length, nil_append]

/-- **Drafting and revising documents every routine.** From a folder without documents, for routines
that do not call each other in a circle, nothing fails; the model is asked once for each routine and
once more for each that is called, with the finished documents on all its callers; and each routine
has one draft and one finished document. -/
theorem revised_of_draftable (h : Draftable p) (hcode : Showable p)
    (hfresh : w.folder.lookup? p.docs = some (.folder .empty)) (hquiet : w.verbose = false)
    {first second more : List Reply} (hreplies : w.replies = first ++ (second ++ more))
    (hfirst : first.length = p.routines.graph.nodes.length)
    (hsecond : second.length = (p.routines.graph.nodes.filter (called p)).length)
    (hdrafts : ∀ reply ∈ first, Gives p id reply)
    (hrevisions : ∀ reply ∈ second, Gives p (fromSection "#### Description") reply) :
    Passes p w ((draftAndRevise p).run.run w) ∧ ∀ out, Passes p w out →
      out.1 = .ok () ∧ out.2.replies = more ∧ ∃ drafts finals asked revised,
        Revised p w out.2 drafts finals asked revised :=
  ⟨passes_draftAndRevise p w, fun _ hpass =>
    hpass.revised h hcode hfresh hquiet hreplies hfirst hsecond hdrafts hrevisions⟩

def codedTrio : Project :=
  { trio with routines := { trio.routines with
      known := [("f", { symbol := "f", file := "a.c", code := "return g()\n  + h();" }),
        ("g", { symbol := "g", file := "a.c", code := "# g\n###g" }),
        ("h", { symbol := "h", file := "lib/b.c", code := "" })] } }

def finalVerdict : String := "As asked:\n#### Description\ny\n#### Example\nz\n### more"

def codedWorld : World where
  folder := .folder "docs" .empty .empty
  replies := [.text verdict, .text verdict, .text verdict, .text finalVerdict,
    .stream [.reasoning "?", .content (some "#### Desc"), .content (some "ription\ny"), .usage],
    .failure "busy"]

lemma draftable_codedTrio : Draftable codedTrio := by
  have hclosed : codedTrio.routines.graph.Closed := by
    rw [Digraph.Closed]
    decide +kernel
  have hone : IsSource "a.c" ∧ Fits "docs" (draftName "a.c") ∧ Fits "docs" (finalName "a.c") :=
    ⟨by decide +kernel, ⟨by decide +kernel, by decide +kernel, by decide +kernel⟩,
      ⟨by decide +kernel, by decide +kernel, by decide +kernel⟩⟩
  have htwo : IsSource "lib/b.c" ∧ Fits "docs" (draftName "lib/b.c") ∧
      Fits "docs" (finalName "lib/b.c") :=
    ⟨by decide +kernel, ⟨by decide +kernel, by decide +kernel, by decide +kernel⟩,
      ⟨by decide +kernel, by decide +kernel, by decide +kernel⟩⟩
  refine ⟨hclosed, (Digraph.isAcyclic_iff hclosed).mp layers_trio.1, by decide, ?_, by decide +kernel,
    _, rfl⟩
  simp only [codedTrio, trio, forall_mem_cons]
  exact ⟨⟨_, rfl, hone⟩, ⟨_, rfl, hone⟩, ⟨_, rfl, htwo⟩, by simp⟩

lemma showable_codedTrio : Showable codedTrio := by
  have hall : ∀ k ∈ codedTrio.routines.known, Unmarked k.2.code.toList ∧ Plain k.2.code := by
    decide +kernel
  intro s _ r hr
  obtain ⟨k, hk, rfl⟩ := known_of_get hr
  exact hall k hk

lemma gives_codedTrio {post : String → String} {reply : Reply} (text : String)
    (hanswer : Talk.answer? reply = some text) (description : String) (usage : Option String)
    (hread : ∀ s ∈ codedTrio.routines.graph.nodes, Document.ofChapter (titled s (post text))
      = .ok ({ name := s, description, usage } : RoutineDoc))
    (hplain : Plain description ∧ ∀ t ∈ usage, Plain t) : Gives codedTrio post reply := by
  refine ⟨text, hanswer, fun s hs => ⟨_, hread s hs, ?_⟩⟩
  simpa [RoutineDoc.texts, RoutineDoc.fields] using hplain

lemma replies_codedWorld : codedWorld.replies = codedWorld.replies.take 3
    ++ ((codedWorld.replies.drop 3).take 2 ++ [.failure "busy"]) := rfl

lemma gives_first : ∀ reply ∈ codedWorld.replies.take 3, Gives codedTrio id reply := by
  intro reply hreply
  obtain rfl : reply = .text verdict := by simpa [codedWorld] using hreply
  exact gives_codedTrio verdict rfl "x" none (by decide +kernel) (by decide +kernel)

lemma gives_second : ∀ reply ∈ (codedWorld.replies.drop 3).take 2,
    Gives codedTrio (fromSection "#### Description") reply := by
  simp only [codedWorld, drop_succ_cons, drop_zero, take_succ_cons,
    take_zero, forall_mem_cons]
  exact ⟨gives_codedTrio finalVerdict rfl "y" (some "z") (by decide +kernel) (by decide +kernel),
    gives_codedTrio "#### Description\ny" (by decide +kernel) "y" none (by decide +kernel)
      (by decide +kernel), by simp⟩

theorem revised_of_draftable_codedTrio : Draftable codedTrio ∧ Showable codedTrio ∧
    codedWorld.folder.lookup? codedTrio.docs = some (.folder .empty) ∧
    ((draftAndRevise codedTrio).run.run codedWorld).1 = .ok () ∧
    ((draftAndRevise codedTrio).run.run codedWorld).2.replies = [.failure "busy"] ∧
    ∃ drafts finals asked revised, Revised codedTrio codedWorld
      ((draftAndRevise codedTrio).run.run codedWorld).2 drafts finals asked revised := by
  obtain ⟨hpass, hall⟩ := revised_of_draftable draftable_codedTrio showable_codedTrio rfl rfl
    replies_codedWorld rfl (by decide +kernel) gives_first gives_second
  exact ⟨draftable_codedTrio, showable_codedTrio, rfl, hall _ hpass⟩

end Docsmith.Generate
