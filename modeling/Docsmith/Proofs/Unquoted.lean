import Docsmith.Proofs.Drafting

/-! # What drafts are made from

The prompt for a draft quotes the finished documents on what is called, but none is finished before
the drafts are: `callees_handed_iff` says that from a folder without documents no draft is made from
the document on another routine, whatever the model does. -/

namespace Docsmith.Generate

open Project Store Schedule

/-! ## Folders without finished documents -/

def Unfinished (p : Project) (f : Folder) : Prop :=
  ∃ texts, Keeps p.docs f texts ∧ ∀ source, texts (finalName source) = none

variable {p : Project} {f : Folder} {w : World} {s : String}

lemma unfinished_empty (h : f.lookup? p.docs = some (.folder .empty)) : Unfinished p f :=
  ⟨_, keeps_empty h, fun _ => rfl⟩

lemma Unfinished.of_noted (h : Unfinished p f) {f' : Folder} (hnoted : Talk.Noted f f') :
    Unfinished p f' := by
  obtain ⟨texts, hkeeps, hnone⟩ := h
  exact ⟨texts, hnoted.keeps hkeeps, hnone⟩

lemma Unfinished.saveDraft (h : Unfinished p f) {source : String} (hsource : IsSource source)
    (d : RoutineDoc) : Unfinished p ((Store.save (draftFile p source) d).run.run f).2 := by
  obtain ⟨texts, hkeeps, hnone⟩ := h
  obtain ⟨r, f', t, hrun, hkeeps', -⟩ :=
    save_run hkeeps (naming_draftName.isFile hsource) d.markdown_eq
  rw [draftFile_eq, hrun]
  refine ⟨_, hkeeps', fun other => ?_⟩
  rw [Function.update_of_ne (draftName_ne_finalName source other).symm, hnone]

lemma Unfinished.load (hp : p.Sourced) (h : Unfinished p f) (s : String) :
    (p.loadRoutine? s).run.run f = ((p.routines.get s).map fun _ => none, f) := by
  obtain ⟨texts, hkeeps, hnone⟩ := h
  rw [loadRoutine?, run_bind, Files.run_ask]
  cases hr : p.routines.get s with
  | error e =>
    rw [routineFile, hr]
    rfl
  | ok r =>
    have hholds : Document.Holds ((texts (finalName r.file)).getD "") ([] : List RoutineDoc) := by
      rw [hnone]
      exact Document.holds_nil
    have hload := loadAll_run hkeeps (naming_finalName.isFile (hp.routines s r hr)) hholds
    rw [routineFile_eq hr]
    simp only [load?, run_bind, hload]
    rfl

lemma Unfinished.loadMany (hp : p.Sourced) (h : Unfinished p f) (symbols : List String) :
    ∃ r, (symbols.filterMapM p.loadRoutine?).run.run f = (r, f) ∧ ∀ ds, r = .ok ds → ds = [] := by
  induction symbols with
  | nil => exact ⟨.ok [], rfl, fun ds hds => (Except.ok.inj hds).symm⟩
  | cons s symbols ih =>
    rw [List.filterMapM_cons, run_bind, h.load hp s]
    cases p.routines.get s with
    | error e => exact ⟨.error e, rfl, fun ds hds => by cases hds⟩
    | ok r => exact ih

/-! ## What a task is handed and what it asks -/

/-- The documents that a task is handed for its prompt are on all routines that are called. -/
def HandedCallees (p : Project) (w : World) (s : String) : Prop :=
  ∃ ds, (routineDocs p (p.routines.graph.successors s)).run.run w = (.ok ds, w) ∧
    ds.map RoutineDoc.name = p.routines.graph.successors s

/-- A conversation that starts with the prompt which quotes no other document. -/
def StartsBare (p : Project) (s : String) (q : Prompt) : Prop :=
  ∃ r fence text, p.routines.get s = .ok r ∧ p.fence = .ok fence ∧
    draftPrompt fence r s [] = .ok text ∧ q.messages.head? = some (.said .system (some text))

def SendsBare (p : Project) (s : String) (before after : List Prompt) : Prop :=
  ∃ new, after = before ++ new ∧ ∀ q ∈ new, StartsBare p s q

lemma Unfinished.handed_iff (hp : p.Sourced) (h : Unfinished p w.folder) (s : String) :
    HandedCallees p w s ↔ p.routines.graph.successors s = [] := by
  obtain ⟨r, hrun, hnone⟩ := h.loadMany hp (p.routines.graph.successors s)
  constructor
  · -- what is handed on is empty, so there is nothing that it can be on
    rintro ⟨ds, hds, hnames⟩
    rw [routineDocs, run_inFolder, hrun] at hds
    rw [← hnames, hnone ds (Prod.mk.inj hds).1, List.map_nil]
  · intro hno
    refine ⟨[], ?_, ?_⟩
    · rw [hno]
      rfl
    · rw [hno]
      rfl

def draftFrom (p : Project) (s : String) (r : Routine) (fence prompt : String) : Run Unit := do
  let reply ← askDocument prompt id
  let doc : RoutineDoc ← Run.ofExcept (Document.ofChapter (titled s reply))
  inFolder (Store.save (draftFile p r.file) { doc with code := some (fenced fence r) })

lemma draftRoutine_eq (p : Project) (s : String) : draftRoutine p s = (do
    let r ← Run.ofExcept (p.routines.get s)
    if (← inFolder (load? RoutineDoc s (draftFile p r.file))).isSome then return
    let callees ← routineDocs p (p.routines.graph.successors s)
    let fence ← Run.ofExcept p.fence
    let prompt ← Run.ofExcept (draftPrompt fence r s callees)
    draftFrom p s r fence prompt) := rfl

lemma Unfinished.draftFrom (h : Unfinished p w.folder) {r : Routine}
    (hr : p.routines.get s = .ok r) (hsource : IsSource r.file) {fence prompt : String}
    (hfence : p.fence = .ok fence) (hprompt : draftPrompt fence r s [] = .ok prompt) :
    Unfinished p ((draftFrom p s r fence prompt).run.run w).2.folder ∧
      SendsBare p s w.prompts ((draftFrom p s r fence prompt).run.run w).2.prompts := by
  obtain ⟨answer, w₁, -, hask, hasked, -⟩ := askDocument_run prompt w
  obtain ⟨new, hsent, hstart⟩ := hasked.sent
  have hbare : SendsBare p s w.prompts w₁.prompts :=
    ⟨new, hsent, fun q hq => ⟨r, fence, prompt, hr, hfence, hprompt, hstart q hq⟩⟩
  have hunfinished := h.of_noted hasked.noted
  rw [Generate.draftFrom, run_bind, hask]
  cases answer with
  | error e => exact ⟨hunfinished, hbare⟩
  | ok reply =>
    simp only [run_bind, Run.run_ofExcept, run_inFolder]
    cases (Document.ofChapter (titled s reply) : Except Fault RoutineDoc) with
    | error e => exact ⟨hunfinished, hbare⟩
    | ok doc =>
      simp only
      refine ⟨?_, hbare⟩
      exact hunfinished.saveDraft hsource _

lemma draftWork_unfinished (hp : p.Sourced) (h : Unfinished p w.folder) (s : String) :
    Unfinished p (draftWork p s w).2.folder ∧ SendsBare p s w.prompts (draftWork p s w).2.prompts := by
  have hnothing : Unfinished p w.folder ∧ SendsBare p s w.prompts w.prompts :=
    ⟨h, [], by simp, by simp⟩
  -- each step before the question can end the task without a change
  rw [draftWork, draftRoutine_eq, run_bind, Run.run_ofExcept]
  cases hr : p.routines.get s with
  | error e => exact hnothing
  | ok r =>
    obtain ⟨o, hload⟩ := load?_folder RoutineDoc s (draftFile p r.file) w.folder
    obtain ⟨callees, hcallees, hnone⟩ := h.loadMany hp (p.routines.graph.successors s)
    simp only [run_bind, run_inFolder, hload]
    cases o with
    | error e => exact hnothing
    | ok o =>
      cases o with
      | some d => exact hnothing
      | none =>
        simp only [Option.isSome_none, Bool.false_eq_true, if_false, run_bind, routineDocs,
          run_inFolder, hcallees]
        cases callees with
        | error e => exact hnothing
        | ok ds =>
          obtain rfl := hnone ds rfl
          simp only [Run.run_ofExcept]
          cases hfence : p.fence with
          | error e => exact hnothing
          | ok fence =>
            obtain ⟨prompt, hprompt⟩ : ∃ prompt, draftPrompt fence r s [] = .ok prompt :=
              ⟨_, rfl⟩
            simp only [hprompt]
            exact h.draftFrom hr (hp.routines s r hr) hfence hprompt

/-! ## What all tasks are handed -/

def AllUnfinished (p : Project) (x : List (String × World) × World) : Prop :=
  (∀ note ∈ x.1, Unfinished p note.2.folder) ∧ Unfinished p x.2.folder

lemma AllUnfinished.step (hp : p.Sourced) (s : String) (x : List (String × World) × World)
    (h : AllUnfinished p x) : AllUnfinished p (traced (draftWork p) s x).2 := by
  refine ⟨?_, (draftWork_unfinished hp h.2 s).1⟩
  rw [traced, List.forall_mem_append]
  exact ⟨h.1, List.forall_mem_singleton.mpr h.2⟩

/-- **Drafts are made without the documents on callees.** From a folder without documents, whatever
the model does, a task is handed the documents on all routines that its routine calls just when it
calls none, and every prompt that it sends quotes nothing. -/
theorem callees_handed_iff (hp : p.Sourced)
    (hfresh : w.folder.lookup? p.docs = some (.folder .empty)) :
    (∃ notes, Runs (ofJobs (jobsOf p.routines.graph)) (traced (draftWork p)) ([], w)
      (((overGraph p.routines.graph (draftRoutine p)).run.run w).1, notes,
        ((overGraph p.routines.graph (draftRoutine p)).run.run w).2)) ∧
    ∀ out, Runs (ofJobs (jobsOf p.routines.graph)) (traced (draftWork p)) ([], w) out →
      ∀ note ∈ out.2.1,
        (HandedCallees p note.2 note.1 ↔ p.routines.graph.successors note.1 = []) ∧
        SendsBare p note.1 note.2.prompts (draftWork p note.1 note.2).2.prompts := by
  refine ⟨exists_traced_run _ (draftWork p) w, fun out hrun note hnote => ?_⟩
  have hall : AllUnfinished p out.2 :=
    hrun.keeps (AllUnfinished.step hp) ⟨by simp, unfinished_empty hfresh⟩
  have hnone := hall.1 note hnote
  exact ⟨hnone.handed_iff hp note.1, (draftWork_unfinished hp hnone note.1).2⟩

def duo : Project :=
  { trio with routines := { trio.routines with graph := ⟨["f", "g"], [("f", "g")]⟩ } }

def duoWorld : World where
  folder := .folder "docs" .empty .empty
  replies := [.text verdict, .text verdict]

def duoDrafts : Except Fault Unit × (List (String × World) × World) :=
  runGroups (traced (draftWork duo)) [["g"], ["f"]] ([], duoWorld)

lemma layers_duo : duo.routines.graph.isAcyclic = true ∧
    duo.routines.graph.layers = [["g"], ["f"]] := by
  refine Digraph.layers_of_peel ?_
  simp [duo, Digraph.peel, Digraph.ready_eq, Digraph.waiting_eq, Digraph.successors]

lemma runs_duoDrafts : Runs (ofJobs (jobsOf duo.routines.graph)) (traced (draftWork duo))
    ([], duoWorld) duoDrafts := by
  have hsame : ofJobs (jobsOf duo.routines.graph) = duo.routines.graph := rfl
  rw [hsame]
  refine .inGroups layers_duo.1 ?_
  rw [layers_duo.2]
  exact .cons (.refl _) (.cons (.refl _) .nil)

lemma sourced_duo : duo.Sourced :=
  sourced_of_known (by decide +kernel) (by decide +kernel)

theorem callees_handed_iff_duo : duo.Sourced ∧
    duoWorld.folder.lookup? duo.docs = some (.folder .empty) ∧
    ∀ note ∈ duoDrafts.2.1,
      (HandedCallees duo note.2 note.1 ↔ duo.routines.graph.successors note.1 = []) ∧
      SendsBare duo note.1 note.2.prompts (draftWork duo note.1 note.2).2.prompts :=
  ⟨sourced_duo, rfl, (callees_handed_iff sourced_duo rfl).2 duoDrafts runs_duoDrafts⟩

def draftOnG (w : World) : Except Fault (Option RoutineDoc) :=
  ((load? RoutineDoc "g" (draftFile duo "a.c")).run.run w.folder).1

def handedToF (w : World) : Except Fault (List RoutineDoc) :=
  ((routineDocs duo (duo.routines.graph.successors "f")).run.run w).1

/-- When `f` is drafted there is a document on `g`, which it calls, and it is not handed on. -/
theorem duoDrafts_unquoted : duo.routines.graph.successors "f" = ["g"] ∧
    (duoDrafts.2.1.map fun note => (note.1, (draftOnG note.2).map Option.isSome, handedToF note.2))
      = [("g", .ok false, .ok []), ("f", .ok true, .ok [])] := by
  decide +kernel

end Docsmith.Generate
