import Docsmith.Generate.Routines
import Docsmith.Proofs.Asking
import Docsmith.Proofs.Heights
import Docsmith.Proofs.Storage

/-! # Documenting one routine

The state between tasks is the list of the routines that have a document, tied to the folder by
`Stored`. `documentRoutine_run` says what a task does to it when the routines that are called have
their documents. -/

namespace Docsmith.Generate

open Project Store List

/-! ## The prompt for a routine -/

/-- The prompt that is built for a routine from the documents in a folder. -/
def prompted (p : Project) (symbol : String) : Files String := do
  let r ← Files.ask fun _ => p.routines.get symbol
  let successors ← (p.routines.graph.successors symbol).filterMapM p.loadRoutine?
  let predecessors ← (p.routines.graph.predecessors symbol).filterMapM p.loadRoutine?
  let fence ← Files.ask fun _ => p.fence
  return routinePrompt fence r symbol successors predecessors

def drafted (p : Project) (symbol prompt : String) : Run Unit := do
  let reply ← askDocument prompt id
  let doc ← Run.ofExcept (Document.ofChapter (titled symbol reply))
  inFolder (p.saveRoutine symbol doc)

lemma run_documentRoutine (p : Project) (symbol : String) (w : World) :
    (documentRoutine p symbol).run.run w
      = match (p.loadRoutine? symbol).run.run w.folder with
        | (.error e, f) => (.error e, { w with folder := f })
        | (.ok (some _), f) => (.ok (), { w with folder := f })
        | (.ok none, f) =>
          match (prompted p symbol).run.run f with
          | (.error e, f) => (.error e, { w with folder := f })
          | (.ok prompt, f) => (drafted p symbol prompt).run.run { w with folder := f } := by
  rw [documentRoutine, run_bind, run_inFolder]
  rcases (p.loadRoutine? symbol).run.run w.folder with ⟨r | o, f⟩
  · rfl
  · cases o with
    | some d => rfl
    | none =>
      simp only [prompted, run_bind, run_inFolder, Run.run_ofExcept, Files.run_ask, routineDocs,
        Option.isSome_none, Bool.false_eq_true, if_false]
      cases p.routines.get symbol with
      | error e => rfl
      | ok r =>
        simp only
        rcases ((p.routines.graph.successors symbol).filterMapM p.loadRoutine?).run.run f
          with ⟨r₁ | ds, f₁⟩
        · rfl
        · simp only
          rcases ((p.routines.graph.predecessors symbol).filterMapM p.loadRoutine?).run.run f₁
            with ⟨r₂ | es, f₂⟩
          · rfl
          · simp only
            cases p.fence with
            | error e => rfl
            | ok fence =>
              show _ = (drafted p symbol _).run.run _
              simp only [drafted, run_bind, run_inFolder, Run.run_ofExcept]

/-- The prompt for a routine, given the documents on the routines it calls. -/
def promptOf (p : Project) (docs : String → RoutineDoc) (symbol : String) :
    Except Fault String := do
  let r ← p.routines.get symbol
  let fence ← p.fence
  return routinePrompt fence r symbol ((p.routines.graph.successors symbol).map docs) []

/-! ## The documents in a folder -/

/-- A project whose routines are known, and for each of them the document that it is to have. -/
structure Plan (p : Project) (llm : String → String) (docs : String → RoutineDoc) : Prop where
  closed : p.routines.graph.Closed
  known : ∀ s ∈ p.routines.graph.nodes, ∃ r, p.routines.get s = .ok r ∧ IsSource r.file
  named : ∀ s ∈ p.routines.graph.nodes, (docs s).name = s
  /-- The model makes the document from those on the routines that are called. -/
  made : ∀ s ∈ p.routines.graph.nodes, ∀ prompt, promptOf p docs s = .ok prompt →
    Document.ofChapter (titled s (llm prompt)) = .ok (docs s) ∧ (docs s).Clean

def inFile (p : Project) (source symbol : String) : Bool :=
  (p.routines.get symbol).toOption.any (·.file = source)

/-- The folder holds the documents on the routines of a list; with a routine the list has all that
it calls. -/
structure Stored (p : Project) (docs : String → RoutineDoc) (f : Folder) (log : List String) :
    Prop where
  holds : ∃ texts, Keeps p.docs f texts ∧ ∀ source, IsSource source →
    Document.Holds ((texts (Slot.routines source).name).getD "")
      ((log.filter (inFile p source)).map docs)
  nodes : ∀ s ∈ log, s ∈ p.routines.graph.nodes
  callees : ∀ s ∈ log, ∀ t ∈ p.routines.graph.successors s, t ∈ log
  nodup : log.Nodup

variable {p : Project} {llm : String → String} {docs : String → RoutineDoc} {f : Folder}
  {log : List String}

variable {s : String}

lemma inFile_self {r : Routine} (hr : p.routines.get s = .ok r) : inFile p r.file s = true := by
  rw [inFile, hr]
  exact decide_eq_true rfl

lemma find?_named (hnamed : ∀ s ∈ log, (docs s).name = s) {keep : String → Bool}
    (hkeep : keep s = true) :
    ((log.filter keep).map docs).find? (fun d => d.name == s)
      = if s ∈ log then some (docs s) else none := by
  induction log with
  | nil => rfl
  | cons t log ih =>
    rw [forall_mem_cons] at hnamed
    have hrest := ih hnamed.2
    by_cases hs : t = s
    · subst hs
      rw [filter_cons_of_pos hkeep, map_cons, find?_cons_of_pos
        (by rw [hnamed.1, beq_self_eq_true]), if_pos mem_cons_self]
    · have hmem : s ∈ t :: log ↔ s ∈ log := by simp [Ne.symm hs]
      rw [if_congr hmem rfl rfl, ← hrest]
      by_cases ht : keep t = true
      · rw [filter_cons_of_pos ht, map_cons, find?_cons_of_neg]
        rw [hnamed.1]
        simpa using hs
      · rw [filter_cons_of_neg ht]

lemma Stored.load (hplan : Plan p llm docs) (h : Stored p docs f log)
    (hs : s ∈ p.routines.graph.nodes) :
    (p.loadRoutine? s).run.run f = (.ok (if s ∈ log then some (docs s) else none), f) := by
  obtain ⟨r, hr, hsource⟩ := hplan.known s hs
  obtain ⟨texts, hkeeps, hholds⟩ := h.holds
  rw [run_loadRoutine? hr (loadAll_run hkeeps (Slot.isFile (σ := .routines r.file) hsource)
    (hholds r.file hsource)), find?_named (fun t ht => hplan.named t (h.nodes t ht)) (inFile_self hr)]

lemma Stored.loadMany (hplan : Plan p llm docs) (h : Stored p docs f log) {symbols : List String}
    (hs : ∀ s ∈ symbols, s ∈ p.routines.graph.nodes) :
    (symbols.filterMapM p.loadRoutine?).run.run f
      = (.ok ((symbols.filter (· ∈ log)).map docs), f) := by
  induction symbols with
  | nil => rfl
  | cons s symbols ih =>
    rw [forall_mem_cons] at hs
    rw [filterMapM_cons, run_bind, h.load hplan hs.1]
    by_cases hlog : s ∈ log
    · simp only [if_pos hlog, run_bind, ih hs.2]
      rw [filter_cons_of_pos (by simpa using hlog)]
      rfl
    · simp only [if_neg hlog, ih hs.2]
      rw [filter_cons_of_neg (by simpa using hlog)]

lemma Stored.prompted (hplan : Plan p llm docs) (h : Stored p docs f log)
    (hs : s ∈ p.routines.graph.nodes) (hnew : s ∉ log)
    (hcallees : ∀ t ∈ p.routines.graph.successors s, t ∈ log) :
    ((p.routines.graph.successors s).filterMapM p.loadRoutine?).run.run f
        = (.ok ((p.routines.graph.successors s).map docs), f) ∧
      ((p.routines.graph.predecessors s).filterMapM p.loadRoutine?).run.run f = (.ok [], f) ∧
      (prompted p s).run.run f = (promptOf p docs s, f) := by
  have hcalled := h.loadMany hplan fun t ht => h.nodes t (hcallees t ht)
  rw [List.filter_eq_self.mpr fun t ht => by simpa using hcallees t ht] at hcalled
  have hcalling := h.loadMany hplan fun t (ht : t ∈ p.routines.graph.predecessors s) =>
    (hplan.closed _ (Digraph.mem_predecessors.mp ht)).1
  rw [filter_eq_nil_iff.mpr] at hcalling
  · refine ⟨hcalled, hcalling, ?_⟩
    obtain ⟨r, hr, -⟩ := hplan.known s hs
    rw [Generate.prompted, promptOf, hr]
    simp only [run_bind, Files.run_ask, hcalled, hcalling]
    cases p.fence with
    | error e | ok fence => rfl
  · intro t ht hlog
    refine hnew (h.callees t (by simpa using hlog) s ?_)
    exact Digraph.mem_successors.mpr (Digraph.mem_predecessors.mp ht)

/-! ## What changes the documents -/

lemma Stored.of_noted (h : Stored p docs f log) {f' : Folder} (hnoted : Talk.Noted f f') :
    Stored p docs f' log := by
  obtain ⟨texts, hkeeps, hholds⟩ := h.holds
  exact ⟨⟨texts, hnoted.keeps hkeeps, hholds⟩, h.nodes, h.callees, h.nodup⟩

lemma Stored.save (hplan : Plan p llm docs) (h : Stored p docs f log)
    (hs : s ∈ p.routines.graph.nodes) (hnew : s ∉ log)
    (hcallees : ∀ t ∈ p.routines.graph.successors s, t ∈ log) (hclean : (docs s).Clean) :
    ∃ r f' log', (p.saveRoutine s (docs s)).run.run f = (r, f') ∧ Stored p docs f' log' ∧
      (r = .ok () ∧ log' = log ++ [s] ∨ r ≠ .ok () ∧ log' = log) ∧
      (p.Storable (.routine s (docs s)) → r = .ok ()) := by
  obtain ⟨routine, hr, hsource⟩ := hplan.known s hs
  obtain ⟨texts, hkeeps, hholds⟩ := h.holds
  obtain ⟨t, ht⟩ := RoutineDoc.Clean.legible hclean
  have hslot : (Saving.routine s (docs s)).slot p = .ok (.routines routine.file) := by
    rw [Saving.slot, hr]
    rfl
  obtain ⟨r, f', texts', hrun, hkeeps', hadded, hok⟩ :=
    save_step hkeeps (c := .routine s (docs s)) hclean (by
      intro σ hσ
      obtain rfl := Except.ok.inj (hslot.symm.trans hσ)
      exact hsource)
  cases r with
  | error e =>
    refine ⟨_, f', log, hrun, ⟨⟨texts', hkeeps', fun source hsource => ?_⟩, h.nodes, h.callees,
      h.nodup⟩, Or.inr ⟨by rintro ⟨⟩, rfl⟩, hok⟩
    rw [hadded, added_error, String.append_empty]
    exact hholds source hsource
  | ok u =>
    refine ⟨_, f', log ++ [s], hrun, ⟨⟨texts', hkeeps', fun source hsource => ?_⟩, ?_, ?_, ?_⟩,
      Or.inl ⟨rfl, rfl⟩, hok⟩
    · rw [hadded, filter_append, map_append]
      refine (hholds source hsource).append ?_
      by_cases hfile : routine.file = source
      · subst hfile
        rw [added_ok hslot ht.written, filter_cons_of_pos (inFile_self hr)]
        exact Document.holds_single ht
      · have hother : inFile p source s = false := by
          rw [inFile, hr]
          simpa [Except.toOption] using hfile
        rw [added_of_ne (by simpa [hslot] using hfile), filter_cons_of_neg (by simp [hother])]
        exact Document.holds_nil
    · intro t ht
      rcases mem_append.mp ht with ht | ht
      · exact h.nodes t ht
      · exact mem_singleton.mp ht ▸ hs
    · intro t ht c hc
      rcases mem_append.mp ht with ht | ht
      · exact mem_append_left _ (h.callees t ht c hc)
      · rw [mem_singleton.mp ht] at hc
        exact mem_append_left _ (hcallees c hc)
    · rw [← concat_eq_append]
      exact h.nodup.concat hnew

/-! ## What a task does -/

/-- A question about a routine that is not in the list: it starts with the prompt for the
routine. -/
def Question (p : Project) (docs : String → RoutineDoc) (log : List String) (q : Prompt) : Prop :=
  ∃ s ∈ p.routines.graph.nodes, s ∉ log ∧ ∃ text, promptOf p docs s = .ok text ∧
    q.messages.head? = some (.said .system (some text))

/-- Documents are added, the model is asked about routines that had none, and if all had one nothing
is done. -/
structure Goes (p : Project) (docs : String → RoutineDoc) (log : List String) (w : World)
    (log' : List String) (w' : World) : Prop where
  stored : Stored p docs w'.folder log'
  grows : log <+: log'
  asked : ∃ new, w'.prompts = w.prompts ++ new ∧ ∀ q ∈ new, Question p docs log q
  idle : (∀ s ∈ p.routines.graph.nodes, s ∈ log) → w'.folder = w.folder
  verbose : w'.verbose = w.verbose

lemma Goes.refl {w : World} (h : Stored p docs w.folder log) : Goes p docs log w log w :=
  ⟨h, prefix_rfl, ⟨[], by simp, by simp⟩, fun _ => rfl, rfl⟩

lemma Goes.trans {log₁ log₂ : List String} {w w₁ w₂ : World} (h : Goes p docs log w log₁ w₁)
    (h' : Goes p docs log₁ w₁ log₂ w₂) : Goes p docs log w log₂ w₂ := by
  obtain ⟨new, hnew, hasked⟩ := h.asked
  obtain ⟨new', hnew', hasked'⟩ := h'.asked
  refine ⟨h'.stored, h.grows.trans h'.grows, ⟨new ++ new', ?_, ?_⟩, fun hall => ?_,
    h'.verbose.trans h.verbose⟩
  · rw [hnew', hnew, append_assoc]
  · intro q hq
    rcases mem_append.mp hq with hq | hq
    · exact hasked q hq
    · obtain ⟨s, hs, hlog, htext⟩ := hasked' q hq
      exact ⟨s, hs, fun hin => hlog (h.grows.subset hin), htext⟩
  · rw [h'.idle fun s hs => h.grows.subset (hall s hs), h.idle hall]

/-- The replies that a task uses up are failures or answer its prompt. -/
def Heeds (p : Project) (llm : String → String) (s : String) (w : World) : Prop :=
  ∀ prompt, ((prompted p s).run.run w.folder).1 = .ok prompt →
    ∀ used, w.replies = used ++ ((documentRoutine p s).run.run w).2.replies →
      ∀ reply ∈ used, ∀ a ∈ Talk.answer? reply, a = llm prompt

lemma replies_drafted {s prompt : String} {w w' : World} {r : Except Fault String}
    (hask : (askDocument prompt id).run.run w = (r, w')) :
    ((drafted p s prompt).run.run w).2.replies = w'.replies := by
  rw [drafted, run_bind, hask]
  cases r with
  | error e => rfl
  | ok reply =>
    simp only [run_bind, Run.run_ofExcept]
    cases (Document.ofChapter (titled s reply) : Except Fault RoutineDoc) with
    | error e | ok d => rfl

lemma drafted_run (hplan : Plan p llm docs) {w : World} (h : Stored p docs w.folder log)
    {s prompt : String} (hs : s ∈ p.routines.graph.nodes) (hnew : s ∉ log)
    (hcallees : ∀ t ∈ p.routines.graph.successors s, t ∈ log)
    (hprompt : promptOf p docs s = .ok prompt)
    (hheeds : ∀ used, w.replies = used ++ ((drafted p s prompt).run.run w).2.replies →
      ∀ reply ∈ used, ∀ a ∈ Talk.answer? reply, a = llm prompt) :
    ∃ r w' log', (drafted p s prompt).run.run w = (r, w') ∧ Goes p docs log w log' w' ∧
      (r = .ok () → s ∈ log') ∧
      (w.replies.head?.bind Talk.answer? = some (llm prompt) → w.verbose = false →
        p.Storable (.routine s (docs s)) → r = .ok ()) := by
  obtain ⟨hread, hclean⟩ := hplan.made s hs prompt hprompt
  obtain ⟨r₁, w₁, used, hask, hasked, hused, hanswer, hwilling⟩ := askDocument_run prompt w
  rw [replies_drafted hask] at hheeds
  obtain ⟨new, hsent, hstart⟩ := hasked.sent
  have hquestions : ∀ q ∈ new, Question p docs log q := fun q hq =>
    ⟨s, hs, hnew, prompt, hprompt, hstart q hq⟩
  have hbusy : ∀ {f' : Folder}, (∀ s ∈ p.routines.graph.nodes, s ∈ log) → f' = w.folder :=
    fun hall => absurd (hall s hs) hnew
  have hstored := h.of_noted hasked.noted
  rw [drafted, run_bind, hask]
  cases r₁ with
  | error e =>
    refine ⟨_, w₁, log, rfl, ⟨hstored, prefix_rfl, ⟨new, hsent, hquestions⟩, hbusy,
      hasked.verbose⟩, (fun hr => nomatch hr), fun hhead hquiet _ => ?_⟩
    exact nomatch hwilling _ hhead hquiet
  | ok reply =>
    obtain ⟨x, hx, ha⟩ := hanswer reply rfl
    obtain rfl := hheeds used hused x hx reply ha
    obtain ⟨r₂, f₂, log₂, hsave, hstored₂, hcase, hok⟩ :=
      hstored.save hplan hs hnew hcallees hclean
    simp only [run_bind, Run.run_ofExcept, hread, run_inFolder, hsave]
    refine ⟨r₂, _, log₂, rfl, ⟨hstored₂, ?_, ⟨new, hsent, hquestions⟩, hbusy, hasked.verbose⟩,
      fun hr => ?_, fun _ _ => hok⟩
    · rcases hcase with ⟨-, rfl⟩ | ⟨-, rfl⟩
      · exact prefix_append log [s]
      · exact prefix_rfl
    · rcases hcase with ⟨-, rfl⟩ | ⟨hne, -⟩
      · simp
      · exact absurd hr hne

lemma documentRoutine_run (hplan : Plan p llm docs) {w : World} (h : Stored p docs w.folder log)
    (hs : s ∈ p.routines.graph.nodes) (hcallees : ∀ t ∈ p.routines.graph.successors s, t ∈ log)
    (hheeds : Heeds p llm s w) :
    ∃ r w' log', (documentRoutine p s).run.run w = (r, w') ∧ Goes p docs log w log' w' ∧
      (r = .ok () → s ∈ log') ∧ (s ∈ log → r = .ok ()) ∧
      ((s ∉ log → ∃ prompt, promptOf p docs s = .ok prompt ∧
          w.replies.head?.bind Talk.answer? = some (llm prompt)) →
        w.verbose = false → p.Storable (.routine s (docs s)) → r = .ok ()) := by
  have hrun := run_documentRoutine p s w
  rw [h.load hplan hs] at hrun
  by_cases hnew : s ∈ log
  · rw [if_pos hnew] at hrun
    exact ⟨_, w, log, hrun, Goes.refl h, fun _ => hnew, fun _ => rfl, fun _ _ _ => rfl⟩
  · have hbuilt := (h.prompted hplan hs hnew hcallees).2.2
    simp only [if_neg hnew, hbuilt] at hrun
    cases hprompt : promptOf p docs s with
    | error e =>
      simp only [hprompt] at hrun
      exact ⟨_, w, log, hrun, Goes.refl h, (fun hr => nomatch hr), fun hin => absurd hin hnew,
        fun hready => nomatch (hready hnew).choose_spec.1⟩
    | ok prompt =>
      simp only [hprompt] at hrun
      obtain ⟨r, w', log', hdrafted, hgoes, hdone, hwilling⟩ :=
        drafted_run hplan h hs hnew hcallees hprompt fun used hused =>
          hheeds prompt (by rw [hbuilt, hprompt]) used (by rw [hrun]; exact hused)
      refine ⟨r, w', log', hrun.trans hdrafted, hgoes, hdone, fun hin => absurd hin hnew, ?_⟩
      intro hready
      obtain ⟨prompt', hprompt', hhead⟩ := hready hnew
      rw [← Except.ok.inj hprompt'] at hhead
      exact hwilling hhead

end Docsmith.Generate
