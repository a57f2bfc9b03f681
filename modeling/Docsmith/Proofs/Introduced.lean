import Docsmith.Generate.Records
import Docsmith.Proofs.Faithful
import Docsmith.Proofs.FencedCode
import Docsmith.Proofs.Passages
import Docsmith.Proofs.Rereading
import Docsmith.Proofs.Unquoted

/-! # What prompts say about other documents

The prompt for a routine has passages on routines that the code calls and that call it, and the
prompt for a record one on records that it holds. The documents in them come from the other side of
the graph, so a prompt tells the truth about the graph exactly if it quotes nothing
(`introductions_truthful_iff`). -/

namespace Docsmith

open List

namespace Generate

open Project Store Schedule Prompt

/-! ## Prompts that say what they are told to -/

def routineText (fence : String) (r : Routine) (symbol : String) (said : Relations) : String :=
  let prompt : RoutinePrompt := {}
  prompt.parameters r.params |>.code r.code |>.sayCalledBy said.calledBy |>.sayCalls said.calls
    |>.lang fence |>.name symbol |>.build

def recordText (fence : String) (r : Record) (symbol : String) (methods : List RoutineDoc)
    (said : String) : String :=
  let prompt : RecordPrompt := {}
  prompt.attributes r.fields |>.code r.code |>.methods methods |>.sayHolds said
    |>.lang fence |>.name symbol |>.build

lemma routinePrompt_eq (fence : String) (r : Routine) (symbol : String)
    (successors predecessors : List RoutineDoc) :
    routinePrompt fence r symbol successors predecessors
      = routineText fence r symbol (relations quoteLetters predecessors successors) := by
  rw [routinePrompt, routineText, RoutinePrompt.callers_eq _ _ predecessors,
    RoutinePrompt.callees_eq _ _ successors]

lemma recordPrompt_eq (fence : String) (r : Record) (symbol : String)
    (methods : List RoutineDoc) (predecessors : List RecordDoc) :
    recordPrompt fence r symbol methods predecessors
      = recordText fence r symbol methods (holdings quoteLetters predecessors) := by
  rw [recordPrompt, recordText, RecordPrompt.records_eq]

/-! ## What is quoted -/

lemma isCited_routine {t : String} {d : RoutineDoc} (h : Document.ofChapter t = .ok d) :
    IsCited (d.name, d.markdown) := by
  obtain ⟨n, s, b, htitle, -, hblock⟩ := Document.ofChapter_eq_ok h
  obtain rfl := Except.ok.inj hblock
  exact ⟨(Chapter.title?_spec htitle).2, _, by simp [RoutineDoc.markdown, Chapter.head]; rfl⟩

lemma isCited_record {t : String} {d : RecordDoc} (h : Document.ofChapter t = .ok d) :
    IsCited (d.name, d.markdown) := by
  obtain ⟨n, s, b, htitle, -, hblock⟩ := Document.ofChapter_eq_ok h
  obtain rfl := Except.ok.inj hblock
  exact ⟨(Chapter.title?_spec htitle).2, _, by simp [RecordDoc.markdown, Chapter.head]; rfl⟩

section Tells

variable {σ α β : Type} {x : ExceptT Fault (StateM σ) α} {P Q : σ → α → Prop}

/-- A step that changes nothing and whose result, if there is one, is as `P` says. -/
def Tells (x : ExceptT Fault (StateM σ) α) (P : σ → α → Prop) : Prop :=
  ∀ s, ∃ o, x.run.run s = (o, s) ∧ ∀ a, o = .ok a → P s a

lemma Tells.mono (h : Tells x P) (hPQ : ∀ s a, P s a → Q s a) : Tells x Q := by
  intro s
  obtain ⟨o, hrun, hP⟩ := h s
  exact ⟨o, hrun, fun a ha => hPQ s a (hP a ha)⟩

lemma Tells.bind {k : α → ExceptT Fault (StateM σ) β} {R : σ → β → Prop} (h : Tells x P)
    (hk : ∀ a, Tells (k a) fun s b => P s a → R s b) : Tells (x >>= k) R := by
  intro s
  obtain ⟨o, hrun, hP⟩ := h s
  rw [run_bind, hrun]
  cases o with
  | error e => exact ⟨.error e, rfl, by simp⟩
  | ok a =>
    obtain ⟨o', hrun', hR⟩ := hk a s
    exact ⟨o', hrun', fun b hb => hR b hb (hP a rfl)⟩

lemma tells_pure {a : α} (h : ∀ s, P s a) : Tells (pure a) P :=
  fun s => ⟨.ok a, rfl, fun _ ha => Except.ok.inj ha ▸ h s⟩

lemma tells_ofExcept (x : Except Fault α) : Tells (Run.ofExcept x) fun _ a => x = .ok a :=
  fun w => ⟨x, Run.run_ofExcept x w, fun _ => id⟩

lemma tells_filterMapM {load : α → ExceptT Fault (StateM σ) (Option β)} {R : β → Prop}
    (h : ∀ a, Tells (load a) fun _ o => ∀ d, o = some d → R d) (xs : List α) :
    Tells (xs.filterMapM load) fun _ ds => ∀ d ∈ ds, R d := by
  induction xs with
  | nil => exact tells_pure (by simp)
  | cons a xs ih =>
    rw [filterMapM_cons]
    refine (h a).bind fun o => ?_
    cases o with
    | none => exact ih.mono fun _ _ hds _ => hds
    | some d =>
      exact ih.bind fun ds => tells_pure fun _ hds hd => forall_mem_cons.mpr ⟨hd d rfl, hds⟩

end Tells

section Found

variable {δ : Type}

lemma tells_load? [Document δ] (s : String) (file : Except Fault String) :
    Tells (do load? δ s (← Files.ask fun _ => file)) fun _ o =>
      ∀ d, o = some d → ∃ t, Document.ofChapter t = .ok d := by
  intro f
  rw [run_bind]
  cases file with
  | error e => exact ⟨.error e, rfl, by simp⟩
  | ok file =>
    obtain ⟨o, hload⟩ := load?_folder δ s file f
    refine ⟨o, hload, ?_⟩
    rintro _ rfl d rfl
    exact Store.read_of_load? hload

variable {load : String → Files (Option δ)} {cite : δ → String × String} {symbols : List String}

lemma cited_of_found (h : ∀ s, Tells (load s) fun _ o => ∀ d, o = some d → IsCited (cite d))
    {f : Folder} {ds : List δ} (hfound : ((symbols.filterMapM load).run.run f).1 = .ok ds) :
    ∀ c ∈ ds.map cite, IsCited c := by
  obtain ⟨o, hrun, hall⟩ := tells_filterMapM h symbols f
  rw [hrun] at hfound
  rw [forall_mem_map]
  exact hall ds hfound

lemma tells_found {R : δ → Prop} (h : ∀ s, Tells (load s) fun _ o => ∀ d, o = some d → R d)
    (symbols : List String) : Tells (inFolder (symbols.filterMapM load)) fun w ds =>
      ((symbols.filterMapM load).run.run w.folder).1 = .ok ds := by
  intro w
  obtain ⟨o, hrun, -⟩ := tells_filterMapM h symbols w.folder
  exact ⟨o, by rw [run_inFolder, hrun], fun ds hds => (congrArg Prod.fst hrun).trans hds⟩

end Found

lemma tells_loadRoutine? (p : Project) (s : String) : Tells (p.loadRoutine? s) fun _ o =>
    ∀ d, o = some d → IsCited (d.name, d.markdown) :=
  (tells_load? s (p.routineFile s)).mono fun _ _ h d hd => isCited_routine (h d hd).choose_spec

lemma tells_loadRecord? (p : Project) (s : String) : Tells (p.loadRecord? s) fun _ o =>
    ∀ d, o = some d → IsCited (d.name, d.markdown) :=
  (tells_load? s (p.recordFile s)).mono fun _ _ h d hd => isCited_record (h d hd).choose_spec

def RoutinesFound (p : Project) (f : Folder) (symbols : List String) (ds : List RoutineDoc) :
    Prop :=
  ((symbols.filterMapM p.loadRoutine?).run.run f).1 = .ok ds

def RecordsFound (p : Project) (f : Folder) (symbols : List String) (ds : List RecordDoc) : Prop :=
  ((symbols.filterMapM p.loadRecord?).run.run f).1 = .ok ds

lemma RoutinesFound.cited {p : Project} {f : Folder} {symbols : List String}
    {ds : List RoutineDoc} (h : RoutinesFound p f symbols ds) :
    ∀ c ∈ ds.map fun d => (d.name, d.markdown), IsCited c :=
  cited_of_found (tells_loadRoutine? p) h

lemma RecordsFound.cited {p : Project} {f : Folder} {symbols : List String}
    {ds : List RecordDoc} (h : RecordsFound p f symbols ds) :
    ∀ c ∈ ds.map fun d => (d.name, d.markdown), IsCited c :=
  cited_of_found (tells_loadRecord? p) h

lemma relations_eq_iff {p : Project} {f : Folder} {xs ys : List String}
    {successors predecessors : List RoutineDoc} (hs : RoutinesFound p f xs successors)
    (hp : RoutinesFound p f ys predecessors) :
    relations quoteLetters predecessors successors = relations quoteLines successors predecessors ↔
      successors = [] ∧ predecessors = [] := by
  constructor
  · intro h
    -- the passage on callees decides: it is quoted in the other way
    obtain ⟨hpred, hsucc⟩ := (passage_eq_iff (by simp [callsIntro]) hp.cited hs.cited).mp
      (congrArg Relations.calls h)
    exact ⟨map_eq_nil_iff.mp hsucc, map_eq_nil_iff.mp hpred⟩
  · rintro ⟨rfl, rfl⟩
    rfl

lemma holdings_eq_iff {p : Project} {f : Folder} {xs ys : List String}
    {successors predecessors : List RecordDoc} (hs : RecordsFound p f xs successors)
    (hp : RecordsFound p f ys predecessors) :
    holdings quoteLetters predecessors = holdings quoteLines successors ↔
      successors = [] ∧ predecessors = [] := by
  rw [holdings, holdings, passage_eq_iff holdsIntro_ne hp.cited hs.cited,
    map_eq_nil_iff, map_eq_nil_iff, and_comm]

/-! ## What a task asks -/

def askWith (request : Run String) (use : String → Run Unit) : Run Unit := do
  let prompt ← request
  let reply ← askDocument prompt id
  use reply

lemma askDocument_sends (prompt : String) (w : World) :
    w.prompts.length < ((askDocument prompt id).run.run w).2.prompts.length :=
  Talk.askFrom_sends id w.replies
    { history := [.said .system (some prompt), .said .user (some guideline)], world := w }

lemma askWith_sends {request : Run String} {use : String → Run Unit} (hreads : Reads request)
    (hquiet : ∀ reply w, ((use reply).run.run w).2.prompts = w.prompts) (w : World) :
    ∃ new, ((askWith request use).run.run w).2.prompts = w.prompts ++ new ∧
      (∀ q ∈ new, ∃ prompt, (request.run.run w).1 = .ok prompt ∧
        q.messages.head? = some (.said .system (some prompt))) ∧
      ∀ prompt, (request.run.run w).1 = .ok prompt → new ≠ [] := by
  obtain ⟨r, hr⟩ := hreads w
  rw [askWith, run_bind, hr]
  cases r with
  | error e => exact ⟨[], by simp, by simp, by simp⟩
  | ok prompt =>
    obtain ⟨answer, w', -, hask, hasked, -⟩ := askDocument_run prompt w
    obtain ⟨new, hnew, hstart⟩ := hasked.sent
    refine ⟨new, ?_, fun q hq => ⟨prompt, rfl, hstart q hq⟩, ?_⟩
    · rw [← hnew]
      simp only [run_bind, hask]
      cases answer with
      | error e => rfl
      | ok reply => exact hquiet reply w'
    · -- even a model that never answers was asked
      rintro - - rfl
      have hsends := askDocument_sends prompt w
      rw [hask] at hsends
      simp [hnew] at hsends

def routineRequest (p : Project) (symbol : String) : Run String := do
  let r ← Run.ofExcept (p.routines.get symbol)
  let successors ← routineDocs p (p.routines.graph.successors symbol)
  let predecessors ← routineDocs p (p.routines.graph.predecessors symbol)
  let fence ← Run.ofExcept p.fence
  return routinePrompt fence r symbol successors predecessors

def recordRequest (p : Project) (symbol : String) : Run String := do
  let r ← Run.ofExcept (p.records.get symbol)
  let records ← inFolder ((p.records.graph.predecessors symbol).filterMapM p.loadRecord?)
  let methods ← routineDocs p (r.methods.map Routine.symbol)
  let fence ← Run.ofExcept p.fence
  return recordPrompt fence r symbol methods records

lemma documentRoutine_eq (p : Project) (symbol : String) : documentRoutine p symbol = (do
    if (← inFolder (p.loadRoutine? symbol)).isSome then return
    askWith (routineRequest p symbol) fun reply => do
      let doc ← Run.ofExcept (Document.ofChapter (titled symbol reply))
      inFolder (p.saveRoutine symbol doc)) := by
  simp only [documentRoutine, askWith, routineRequest, bind_assoc, pure_bind]

lemma documentRecord_eq (p : Project) (symbol : String) : documentRecord p symbol = (do
    if (← inFolder (p.loadRecord? symbol)).isSome then return
    askWith (recordRequest p symbol) fun reply => do
      let doc ← Run.ofExcept (Document.ofChapter (titled symbol reply))
      inFolder (p.saveRecord symbol doc)) := by
  simp only [documentRecord, askWith, recordRequest, bind_assoc, pure_bind]

/-- A conversation that starts with the prompt for a routine, made from the documents on both sides
that are found when the task starts. -/
def AsksRoutine (p : Project) (note : String × World) (successors predecessors : List RoutineDoc)
    (said : Relations) (q : Prompt) : Prop :=
  RoutinesFound p note.2.folder (p.routines.graph.successors note.1) successors ∧
    RoutinesFound p note.2.folder (p.routines.graph.predecessors note.1) predecessors ∧
    ∃ r fence, p.routines.get note.1 = .ok r ∧ p.fence = .ok fence ∧
      q.messages.head? = some (.said .system (some (routineText fence r note.1 said)))

def AsksRecord (p : Project) (note : String × World) (predecessors : List RecordDoc)
    (said : String) (q : Prompt) : Prop :=
  RecordsFound p note.2.folder (p.records.graph.predecessors note.1) predecessors ∧
    ∃ r fence methods, p.records.get note.1 = .ok r ∧ p.fence = .ok fence ∧
      RoutinesFound p note.2.folder (r.methods.map Routine.symbol) methods ∧
      q.messages.head? = some (.said .system (some (recordText fence r note.1 methods said)))

lemma tells_routineDocs (p : Project) (symbols : List String) :
    Tells (routineDocs p symbols) fun w ds => RoutinesFound p w.folder symbols ds :=
  tells_found (tells_loadRoutine? p) symbols

lemma tells_routineRequest (p : Project) (s : String) :
    Tells (routineRequest p s) fun w prompt => ∀ q : Prompt,
      q.messages.head? = some (.said .system (some prompt)) → ∃ successors predecessors,
        AsksRoutine p (s, w) successors predecessors
          (relations quoteLetters predecessors successors) q := by
  refine (tells_ofExcept _).bind fun r => (tells_routineDocs p _).bind fun successors =>
    (tells_routineDocs p _).bind fun predecessors => (tells_ofExcept _).bind fun fence =>
    tells_pure fun w hfence hpredecessors hsuccessors hr q hq => ?_
  rw [routinePrompt_eq] at hq
  exact ⟨successors, predecessors, hsuccessors, hpredecessors, r, fence, hr, hfence, hq⟩

lemma tells_recordRequest (p : Project) (s : String) :
    Tells (recordRequest p s) fun w prompt => ∀ q : Prompt,
      q.messages.head? = some (.said .system (some prompt)) → ∃ predecessors,
        AsksRecord p (s, w) predecessors (holdings quoteLetters predecessors) q := by
  refine (tells_ofExcept _).bind fun r => (tells_found (tells_loadRecord? p) _).bind
    fun predecessors => (tells_routineDocs p _).bind fun methods => (tells_ofExcept _).bind
    fun fence => tells_pure fun w hfence hmethods hpredecessors hr q hq => ?_
  rw [recordPrompt_eq] at hq
  exact ⟨predecessors, hpredecessors, r, fence, methods, hr, hfence, hmethods, hq⟩

/-! ## One task -/

def routineWork (p : Project) (s : String) (w : World) : Except Fault Unit × World :=
  (documentRoutine p s).run.run w

def recordWork (p : Project) (s : String) (w : World) : Except Fault Unit × World :=
  (documentRecord p s).run.run w

/-- A task on a routine that has no document, for which a prompt can be made. -/
def RoutineDue (p : Project) (note : String × World) : Prop :=
  ((p.loadRoutine? note.1).run.run note.2.folder).1 = .ok none ∧
    ∃ prompt, ((routineRequest p note.1).run.run note.2).1 = .ok prompt

def RecordDue (p : Project) (note : String × World) : Prop :=
  ((p.loadRecord? note.1).run.run note.2.folder).1 = .ok none ∧
    ∃ prompt, ((recordRequest p note.1).run.run note.2).1 = .ok prompt

/-- Every conversation that a task sends has an account, and a task that is due sends one. -/
def Accounts (due : String × World → Prop) (account : String × World → Prompt → Prop)
    (work : String → World → Except Fault Unit × World) : Prop :=
  ∀ s w, ∃ new, (work s w).2.prompts = w.prompts ++ new ∧ (∀ q ∈ new, account (s, w) q) ∧
    (due (s, w) → new ≠ [])

lemma accounts_of_request {δ : Type} {due : String × World → Prop}
    {account : String × World → Prompt → Prop} {found : String → Files (Option δ)}
    {request : String → Run String} {use : String → String → Run Unit}
    {P : Folder → Option δ → Prop} (hfound : ∀ s, Tells (found s) P)
    (hrequest : ∀ s, Tells (request s) fun w prompt => ∀ q : Prompt,
      q.messages.head? = some (.said .system (some prompt)) → account (s, w) q)
    (hquiet : ∀ s reply w, ((use s reply).run.run w).2.prompts = w.prompts)
    (hdue : ∀ s w, due (s, w) → ((found s).run.run w.folder).1 = .ok none ∧
      ∃ prompt, ((request s).run.run w).1 = .ok prompt) :
    Accounts due account fun s w => (do
      if (← inFolder (found s)).isSome then return
      askWith (request s) (use s) : Run Unit).run.run w := by
  intro s w
  obtain ⟨o, ho, -⟩ := hfound s w.folder
  have hwhen := hdue s w
  rw [ho] at hwhen
  simp only [run_bind, run_inFolder, ho]
  -- without a question nothing is sent, and the task was not due
  have hnothing : o ≠ .ok none → ∃ new, w.prompts = w.prompts ++ new ∧
      (∀ q ∈ new, account (s, w) q) ∧ (due (s, w) → new ≠ []) := by
    intro hne
    exact ⟨[], by simp, by simp, fun h => absurd (hwhen h).1 hne⟩
  cases o with
  | error e => exact hnothing (by simp)
  | ok o =>
    cases o with
    | some d => exact hnothing (by simp)
    | none =>
      have hreads : Reads (request s) := by
        intro w
        obtain ⟨o, hrun, -⟩ := hrequest s w
        exact ⟨o, hrun⟩
      obtain ⟨o, hrun, hall⟩ := hrequest s w
      obtain ⟨new, hnew, hstart, hsome⟩ := askWith_sends hreads (hquiet s) w
      refine ⟨new, hnew, fun q hq => ?_, fun h => ?_⟩
      · obtain ⟨prompt, hprompt, hhead⟩ := hstart q hq
        rw [hrun] at hprompt
        exact hall prompt hprompt q hhead
      · obtain ⟨prompt, hprompt⟩ := (hwhen h).2
        exact hsome prompt hprompt

lemma prompts_of_save {δ : Type} [Document δ] (save : String → δ → Files Unit) (s reply : String)
    (w : World) : ((do
      let doc ← Run.ofExcept (Document.ofChapter (titled s reply))
      inFolder (save s doc) : Run Unit).run.run w).2.prompts = w.prompts := by
  rw [run_bind]
  cases (Document.ofChapter (titled s reply) : Except Fault δ) with
  | error e | ok d => rfl

lemma accounts_routine (p : Project) : Accounts (RoutineDue p) (fun note q =>
    ∃ successors predecessors, AsksRoutine p note successors predecessors
      (relations quoteLetters predecessors successors) q) (routineWork p) := by
  have hwork : routineWork p = fun s w => (documentRoutine p s).run.run w := rfl
  simp only [hwork, documentRoutine_eq]
  exact accounts_of_request (tells_loadRoutine? p) (tells_routineRequest p)
    (prompts_of_save p.saveRoutine) fun _ _ => id

lemma accounts_record (p : Project) : Accounts (RecordDue p) (fun note q =>
    ∃ predecessors, AsksRecord p note predecessors (holdings quoteLetters predecessors) q)
      (recordWork p) := by
  have hwork : recordWork p = fun s w => (documentRecord p s).run.run w := rfl
  simp only [hwork, documentRecord_eq]
  exact accounts_of_request (tells_loadRecord? p) (tells_recordRequest p)
    (prompts_of_save p.saveRecord) fun _ _ => id

/-! ## All tasks -/

abbrev Traced := List (String × World) × World

/-- Every conversation of a run is accounted for by a task of it, and every task that was due has
sent one. -/
def Accounted (due : String × World → Prop) (account : String × World → Prompt → Prop)
    (w : World) (x : Traced) : Prop :=
  ∃ new, x.2.prompts = w.prompts ++ new ∧ (∀ q ∈ new, ∃ note ∈ x.1, account note q) ∧
    ∀ note ∈ x.1, due note → ∃ q ∈ new, account note q

lemma Accounted.mono {due : String × World → Prop}
    {account account' : String × World → Prompt → Prop} {w : World} {x : Traced}
    (h : Accounted due account w x) (himp : ∀ note q, account note q → account' note q) :
    Accounted due account' w x := by
  obtain ⟨new, hnew, hfrom, hdue⟩ := h
  refine ⟨new, hnew, fun q hq => ?_, fun note hnote hd => ?_⟩
  · obtain ⟨note, hnote, haccount⟩ := hfrom q hq
    exact ⟨note, hnote, himp note q haccount⟩
  · obtain ⟨q, hq, haccount⟩ := hdue note hnote hd
    exact ⟨q, hq, himp note q haccount⟩

variable {due : String × World → Prop} {account : String × World → Prompt → Prop}
  {work : String → World → Except Fault Unit × World} {w : World}

lemma Accounted.step (h : Accounts due account work) (s : String) (x : Traced)
    (hx : Accounted due account w x) : Accounted due account w (traced work s x).2 := by
  obtain ⟨notes, w₁⟩ := x
  obtain ⟨new, hnew, hfrom, hdue⟩ := hx
  obtain ⟨more, hmore, hfrom', hdue'⟩ := h s w₁
  refine ⟨new ++ more, ?_, ?_, ?_⟩
  · show (work s w₁).2.prompts = _
    rw [hmore, hnew, append_assoc]
  · show ∀ q ∈ new ++ more, ∃ note ∈ notes ++ [(s, w₁)], account note q
    intro q hq
    rcases mem_append.mp hq with hold | hq
    · obtain ⟨note, hnote, haccount⟩ := hfrom q hold
      exact ⟨note, mem_append_left _ hnote, haccount⟩
    · exact ⟨(s, w₁), by simp, hfrom' q hq⟩
  · show ∀ note ∈ notes ++ [(s, w₁)], due note → ∃ q ∈ new ++ more, account note q
    intro note hnote hd
    rcases mem_append.mp hnote with hold | hlast
    · obtain ⟨q, hq, haccount⟩ := hdue note hold hd
      exact ⟨q, mem_append_left _ hq, haccount⟩
    · obtain rfl := mem_singleton.mp hlast
      obtain ⟨q, hq⟩ := exists_mem_of_ne_nil more (hdue' hd)
      exact ⟨q, mem_append_right _ hq, hfrom' q hq⟩

lemma Accounts.runs (h : Accounts due account work) {g : Digraph String}
    {out : Except Fault Unit × Traced} (hrun : Runs g (traced work) ([], w) out) :
    Accounted due account w out.2 :=
  hrun.keeps (Accounted.step h) ⟨[], by simp, by simp, by simp⟩

/-- **Prompts tell the truth about the graph exactly if they quote nothing.** In every run the
prompt for a routine introduces the documents on its predecessors as those of routines that it
calls, each letter on a line, and the documents on its successors as those of its callers; the
prompt for a record introduces the documents on its predecessors as those of records that it
holds. -/
theorem introductions_truthful_iff (p : Project) (w : World) :
    ((∃ notes, Runs (ofJobs (jobsOf p.routines.graph)) (traced (routineWork p)) ([], w)
        (((documentRoutines p).run.run w).1, notes, ((documentRoutines p).run.run w).2)) ∧
      ∀ out, Runs (ofJobs (jobsOf p.routines.graph)) (traced (routineWork p)) ([], w) out →
        Accounted (RoutineDue p) (fun note q => ∃ successors predecessors said,
          AsksRoutine p note successors predecessors said q ∧
          said = relations quoteLetters predecessors successors ∧
          (said = relations quoteLines successors predecessors ↔
            successors = [] ∧ predecessors = [])) w out.2) ∧
    (∃ notes, Runs (ofJobs (jobsOf p.records.graph)) (traced (recordWork p)) ([], w)
        (((documentRecords p).run.run w).1, notes, ((documentRecords p).run.run w).2)) ∧
      ∀ out, Runs (ofJobs (jobsOf p.records.graph)) (traced (recordWork p)) ([], w) out →
        Accounted (RecordDue p) (fun note q => ∃ predecessors said,
          AsksRecord p note predecessors said q ∧ said = holdings quoteLetters predecessors ∧
          ∀ successors,
            RecordsFound p note.2.folder (p.records.graph.successors note.1) successors →
            (said = holdings quoteLines successors ↔
              successors = [] ∧ predecessors = [])) w out.2 := by
  refine ⟨⟨exists_traced_run _ (routineWork p) w, fun out hrun => ?_⟩,
    exists_traced_run _ (recordWork p) w, fun out hrun => ?_⟩
  · refine ((accounts_routine p).runs hrun).mono ?_
    rintro note q ⟨successors, predecessors, hasks⟩
    exact ⟨successors, predecessors, _, hasks, rfl, relations_eq_iff hasks.1 hasks.2.1⟩
  · refine ((accounts_record p).runs hrun).mono ?_
    rintro note q ⟨predecessors, hasks⟩
    exact ⟨predecessors, _, hasks, rfl, fun successors hfound => holdings_eq_iff hfound hasks.1⟩

/-! ## A function that calls another -/

def docOnG : RoutineDoc where
  name := "g"
  description := "x"

def passageOnG (intro : String) : String :=
  passage intro "**Method**: `" quoteLines [("g", docOnG.markdown)]

def duoNext : World := (routineWork duo "g" duoWorld).2

def duoRun : Except Fault Unit × Traced :=
  runGroups (traced (routineWork duo)) [["g"], ["f"]] ([], duoWorld)

lemma runs_duoRun : Runs (ofJobs (jobsOf duo.routines.graph)) (traced (routineWork duo))
    ([], duoWorld) duoRun := by
  have hsame : ofJobs (jobsOf duo.routines.graph) = duo.routines.graph := rfl
  rw [hsame]
  refine .inGroups layers_duo.1 ?_
  rw [layers_duo.2]
  exact .cons (.refl _) (.cons (.refl _) .nil)

lemma duo_values : (routineWork duo "g" duoWorld).1 = .ok () ∧
    ((duo.loadRoutine? "f").run.run duoNext.folder).1 = .ok none ∧
    ((routineRequest duo "f").run.run duoNext).1.toOption.isSome = true ∧
    ((duo.routines.graph.successors "f").filterMapM duo.loadRoutine? |>.run.run duoNext.folder).1
      = .ok [docOnG] ∧
    ((duo.routines.graph.predecessors "f").filterMapM duo.loadRoutine? |>.run.run duoNext.folder).1
      = .ok [] := by
  decide +kernel

lemma mem_duoRun : ("f", duoNext) ∈ duoRun.2.1 := by
  have hfirst : routineWork duo "g" duoWorld = (.ok (), duoNext) := by
    rw [duoNext, ← duo_values.1]
  rcases hsecond : routineWork duo "f" duoNext with ⟨r, w⟩
  simp only [duoRun, runGroups, runGroup, traced, hfirst, hsecond]
  cases r with
  | error e | ok u => simp

/-- The conversation on `f` introduces the document on `g`, which `f` calls, as that of a caller. -/
theorem duo_callee_introduced_as_caller :
    duo.routines.graph.successors "f" = ["g"] ∧ duo.routines.graph.predecessors "f" = [] ∧
    (∃ q ∈ duoRun.2.2.prompts, AsksRoutine duo ("f", duoNext) [docOnG] []
      { calls := "", calledBy := passageOnG calledByIntro } q) ∧
    relations quoteLines [docOnG] [] = { calls := passageOnG callsIntro, calledBy := "" } := by
  obtain ⟨-, hnone, hrequest, hsuccessors, hpredecessors⟩ := duo_values
  have hok : ∀ {x : Except Fault String}, x.toOption.isSome = true → ∃ prompt, x = .ok prompt := by
    intro x hx
    cases x with
    | error e => cases hx
    | ok prompt => exact ⟨prompt, rfl⟩
  obtain ⟨prompt, hprompt⟩ := hok hrequest
  have hdue : RoutineDue duo ("f", duoNext) := by
    rw [RoutineDue]
    dsimp only
    exact ⟨hnone, prompt, hprompt⟩
  obtain ⟨new, hnew, -, hall⟩ := (accounts_routine duo).runs runs_duoRun
  obtain ⟨q, hq, successors, predecessors, hfound, hfound', hasks⟩ := hall _ mem_duoRun hdue
  obtain rfl : successors = [docOnG] := Except.ok.inj (hfound.symm.trans hsuccessors)
  obtain rfl : predecessors = [] := Except.ok.inj (hfound'.symm.trans hpredecessors)
  refine ⟨by decide, by decide, ⟨q, ?_, hfound, hfound', hasks⟩, rfl⟩
  rw [hnew]
  exact List.mem_append_right _ hq

end Generate

end Docsmith

