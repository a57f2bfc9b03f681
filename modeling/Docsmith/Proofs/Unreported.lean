import Docsmith.Pipeline
import Docsmith.Proofs.Idle
import Docsmith.Proofs.KeptAnswers
import Docsmith.Proofs.Rounds

/-! # Work that sends no report

From the survey to the document on the repository nothing is sent to the receiver of reports,
whatever the model does and whichever step fails. What happens to the folder is left open as a
relation `S` that its steps respect (`Unreported`). -/

namespace Docsmith

/-- The receiver of reports is left alone, and the folder changes as `S` says. -/
structure Unreported (S : Folder → Folder → Prop) (w w' : World) : Prop where
  folder : S w.folder w'.folder
  posts : w'.posts = w.posts
  outcomes : w'.outcomes = w.outcomes

def UnreportedIn (S : Folder → Folder → Prop) (s s' : Session) : Prop :=
  Unreported S s.world s'.world

def AnyChange (_ _ : Folder) : Prop := True

instance : IsPreorder Folder AnyChange where
  refl _ := trivial
  trans _ _ _ _ _ := trivial

section Steps

variable {S : Folder → Folder → Prop} {α : Type}

lemma unreported_inFolder {step : Files α} (h : Leads S step) :
    Leads (Unreported S) (inFolder step) :=
  fun w => ⟨h w.folder, rfl, rfl⟩

lemma unreported_inWorld {step : Run α} (h : Leads (Unreported S) step) :
    Leads (UnreportedIn S) (inWorld step) :=
  fun s => h s.world

lemma unreported_talk {step : Talk α} (h : Leads (UnreportedIn S) step) :
    Leads (Unreported S) (Run.talk step) :=
  fun w => h { world := w }

variable [IsPreorder Folder S]

instance : IsPreorder World (Unreported S) where
  refl w := ⟨refl_of S w.folder, rfl, rfl⟩
  trans _ _ _ h h' := ⟨trans_of S h.folder h'.folder, h'.posts.trans h.posts,
    h'.outcomes.trans h.outcomes⟩

instance : IsPreorder Session (UnreportedIn S) where
  refl s := refl_of (Unreported S) s.world
  trans _ _ _ h h' := trans_of (Unreported S) h h'

lemma unreported_of_eq {x : Run α} (hfolder : ∀ w, (x.run.run w).2.folder = w.folder)
    (hposts : ∀ w, (x.run.run w).2.posts = w.posts)
    (houtcomes : ∀ w, (x.run.run w).2.outcomes = w.outcomes) : Leads (Unreported S) x := by
  intro w
  refine ⟨?_, hposts w, houtcomes w⟩
  rw [hfolder]
  exact refl_of S w.folder

lemma unreportedIn_of_eq {x : Talk α} (h : ∀ s, (x.run.run s).2.world = s.world) :
    Leads (UnreportedIn S) x := by
  intro s
  rw [UnreportedIn, h s]
  exact refl_of (Unreported S) s.world

lemma leads_loadAll {δ : Type} [Document δ] (file : String) :
    Leads S (Store.loadAll δ file) :=
  leads_of_eq fun f => by
    obtain ⟨o, ho⟩ := Store.loadAll_folder δ file f
    rw [ho]

lemma leads_forIn {σ α β : Type} {R : σ → σ → Prop} [IsPreorder σ R]
    {body : α → β → ExceptT Fault (StateM σ) (ForInStep β)} (hbody : ∀ a b, Leads R (body a b))
    (xs : List α) (b : β) : Leads R (forIn xs b body) := by
  induction xs generalizing b with
  | nil => exact leads_pure b
  | cons a xs ih =>
    rw [List.forIn_cons]
    refine (hbody a b).bind fun step => ?_
    cases step with
    | done b => exact leads_pure b
    | yield b => exact ih b

lemma leads_overGraph {R : World → World → Prop} [IsPreorder World R] {work : String → Run Unit}
    (hwork : ∀ s, Leads R (work s)) (g : Digraph String) :
    Leads R (Generate.overGraph g work) := by
  intro w
  have hruns := Schedule.runs_run (Schedule.ofJobs (Schedule.jobsOf g))
    (fun s w => (work s).run.run w) w
  exact hruns.keeps (I := R w) (fun s w' h => trans_of R h (hwork s w')) (refl_of R w)

end Steps

/-! ## Conversations -/

namespace Talk

variable {S : Folder → Folder → Prop} [IsPreorder Folder S]

lemma unreported_assemble (verbose thinking : Bool) (cs : List Chunk) :
    Leads (Unreported S) (assemble verbose thinking cs) := by
  intro w
  obtain ⟨printed, -, hrun⟩ := assemble_run verbose thinking cs w
  rw [hrun]
  exact ⟨refl_of S w.folder, rfl, rfl⟩

variable (hnotes : ∀ f f', Noted f f' → S f f')

include hnotes

omit [IsPreorder Folder S] in
lemma unreported_keep : Leads (UnreportedIn S) keep := by
  intro s
  obtain ⟨r, f, hrun, hnoted, -⟩ := keep_run s
  rw [hrun]
  exact ⟨hnotes _ _ hnoted, rfl, rfl⟩

lemma unreported_answered (post : String → String) (reply : Reply) :
    Leads (UnreportedIn S) (answered post reply) := by
  refine (unreportedIn_of_eq fun _ => rfl).bind fun s => ?_
  refine (unreported_inWorld (unreported_assemble _ _ _)).bind fun text => ?_
  refine (unreported_keep hnotes).bind fun _ => ?_
  exact (unreportedIn_of_eq fun _ => rfl).bind fun _ => leads_pure _

lemma unreported_askFrom (post : String → String) (replies : List Reply) :
    Leads (UnreportedIn S) (askFrom post replies) := by
  have hsent : ∀ rest s, UnreportedIn S s (sent rest s) :=
    fun rest s => ⟨refl_of S s.world.folder, rfl, rfl⟩
  have hanswered : ∀ rest s reply,
      UnreportedIn S s ((answered post reply).run.run (sent rest s)).2 := fun rest s reply =>
    trans_of (UnreportedIn S) (hsent rest s) (unreported_answered hnotes post reply _)
  induction replies with
  | nil => exact fun s => hsent [] s
  | cons reply rest ih =>
    intro s
    rw [askFrom_cons]
    cases reply with
    | timeout => exact trans_of (UnreportedIn S) (hsent rest s) (ih _)
    | failure reason => exact hsent rest s
    | text content | stream chunks | calls calls => exact hanswered rest s _

end Talk

namespace Generate

open Project Store

variable {S : Folder → Folder → Prop} [IsPreorder Folder S] {p : Project}

/-! ## Looking things up -/

lemma leads_loadRoutine? (s : String) : Leads S (p.loadRoutine? s) :=
  leads_of_eq fun f => by
    rw [loadRoutine?, run_bind, Files.run_ask]
    cases p.routineFile s with
    | error e => rfl
    | ok file =>
      obtain ⟨o, ho⟩ := load?_folder RoutineDoc s file f
      simp only [ho]

lemma leads_loadRecord? (s : String) : Leads S (p.loadRecord? s) :=
  leads_of_eq fun f => by
    rw [loadRecord?, run_bind, Files.run_ask]
    cases p.recordFile s with
    | error e => rfl
    | ok file =>
      obtain ⟨o, ho⟩ := load?_folder RecordDoc s file f
      simp only [ho]

lemma unreported_routineDocs (symbols : List String) :
    Leads (Unreported S) (routineDocs p symbols) :=
  unreported_inFolder (leads_filterMapM leads_loadRoutine? symbols)

lemma unreported_log (c : IndexCall) : Leads (Unreported S) (Index.log c) :=
  unreported_of_eq (fun _ => rfl) (fun _ => rfl) fun _ => rfl

lemma unreported_query (k : Nat) : Leads (Unreported S) (Index.query k) := by
  refine (unreported_log _).bind fun _ => (unreported_log _).bind fun _ =>
    (unreported_of_eq (fun _ => rfl) (fun _ => rfl) fun _ => rfl).bind fun w => ?_
  cases w.hits with
  | nil => exact leads_pure []
  | cons found rest =>
    exact (unreported_of_eq (fun _ => rfl) (fun _ => rfl) fun _ => rfl).bind fun _ =>
      leads_pure found

lemma unreported_add (n : Nat) : Leads (Unreported S) (Index.add n) := by
  have hencode : Leads (Unreported S) (Index.encode n) := by
    refine (leads_forM (fun _ => unreported_log _) (Index.batches n)).bind fun _ => ?_
    by_cases hn : n = 0
    · rw [if_pos hn]
      exact leads_throw _
    · rw [if_neg hn]
      exact leads_pure ()
  exact hencode.bind fun _ => unreported_log _

lemma unreported_linesOr {file : String} (hwrite : ∀ text, Leads S (Files.write file text))
    {make : Run (List String)} (hmake : Leads (Unreported S) make) :
    Leads (Unreported S) (linesOr file make) := by
  refine (unreported_inFolder (leads_of_eq fun _ => rfl)).bind fun found => ?_
  cases found with
  | true =>
    refine (unreported_inFolder (leads_of_eq fun f => ?_)).bind fun _ => leads_pure _
    rw [Files.read, Files.run_ask]
  | false =>
    exact hmake.bind fun lines => (unreported_inFolder (hwrite _)).bind fun _ => leads_pure lines

def indexed (p : Project) (draft : RepositoryDoc) (questions : List String) :
    Run (List String) := do
  let docs ← inFolder (p.routines.graph.nodes.mapM p.loadRoutine?)
  let docs ← docs.mapM fun
    | some d => return d
    | none => throw .noDocument
  Index.add docs.length
  collect (answerByIndex docs draft) questions

/-! ## Documenting -/

section Noted

-- keeping a conversation is a change that `S` allows
variable (hnotes : ∀ f f', Talk.Noted f f' → S f f')

include hnotes

lemma unreported_askUser (prompt : String) (post : String → String) :
    Leads (Unreported S) (askUser prompt post) :=
  unreported_talk ((unreportedIn_of_eq fun _ => rfl).bind fun _ =>
    (unreportedIn_of_eq fun _ => rfl).bind fun s =>
      Talk.unreported_askFrom hnotes post s.world.replies)

lemma unreported_askDocument (prompt : String) (post : String → String) :
    Leads (Unreported S) (askDocument prompt post) :=
  unreported_talk ((unreportedIn_of_eq fun _ => rfl).bind fun _ =>
    (unreportedIn_of_eq fun _ => rfl).bind fun _ =>
      (unreportedIn_of_eq fun _ => rfl).bind fun s =>
        Talk.unreported_askFrom hnotes post s.world.replies)

lemma unreported_documentRoutines (hsave : ∀ s d, Leads S (p.saveRoutine s d)) :
    Leads (Unreported S) (documentRoutines p) := by
  refine leads_overGraph (fun symbol => ?_) _
  refine (unreported_inFolder (leads_loadRoutine? symbol)).bind fun found => ?_
  split
  · exact leads_pure ()
  · exact (leads_ofExcept _).bind fun r => (unreported_routineDocs _).bind fun successors =>
      (unreported_routineDocs _).bind fun predecessors => (leads_ofExcept _).bind fun fence =>
        (unreported_askDocument hnotes _ _).bind fun reply => (leads_ofExcept _).bind fun d =>
          unreported_inFolder (hsave symbol d)

lemma unreported_documentRecords (hsave : ∀ s d, Leads S (p.saveRecord s d)) :
    Leads (Unreported S) (documentRecords p) := by
  refine leads_overGraph (fun symbol => ?_) _
  refine (unreported_inFolder (leads_loadRecord? symbol)).bind fun found => ?_
  split
  · exact leads_pure ()
  · exact (leads_ofExcept _).bind fun r =>
      (unreported_inFolder (leads_filterMapM leads_loadRecord? _)).bind fun records =>
        (unreported_routineDocs _).bind fun methods => (leads_ofExcept _).bind fun fence =>
          (unreported_askDocument hnotes _ _).bind fun reply =>
            (leads_ofExcept _).bind fun d => unreported_inFolder (hsave symbol d)

lemma unreported_documentModules
    (hdraft : ∀ d : ModuleDoc, Leads S (Store.save (modulesDraftFile p) d))
    (hsave : ∀ d, Leads S (p.saveModule d)) : Leads (Unreported S) (documentModules p) := by
  have hproposed : Leads (Unreported S) (proposed p) :=
    (leads_ofExcept _).bind fun symbols =>
      (leads_of_reads (reads_listing p symbols)).bind fun text =>
        (unreported_askUser hnotes _ _).bind fun reply => (leads_ofExcept _).bind fun ds =>
          leads_pure _
  have hdrafts : Leads (Unreported S) (draftModules p) := by
    rw [draftModules_eq]
    refine (unreported_inFolder (leads_loadAll _)).bind fun found => ?_
    cases found with
    | nil =>
      exact hproposed.bind fun ds =>
        (unreported_inFolder (leads_forM hdraft ds)).bind fun _ => leads_pure ds
    | cons d ds => exact leads_pure (d :: ds)
  have htask : ∀ m, Leads (Unreported S) (enhanceModule p m) := by
    intro m
    rw [enhanceModule_eq]
    exact ((leads_of_reads (reads_modulePrompt p m)).bind fun prompt =>
      (unreported_askUser hnotes _ _).bind fun _ => leads_ofExcept _).bind fun d =>
        unreported_inFolder (hsave d)
  refine (leads_ofExcept _).bind fun symbols => ?_
  split
  · exact leads_pure ()
  · refine hdrafts.bind fun drafts => (unreported_inFolder (leads_loadAll _)).bind fun found => ?_
    split
    · exact (leads_collect htask drafts).bind fun _ => leads_pure ()
    · exact leads_pure ()

lemma unreported_draftRepository
    (hsave : ∀ d : RepositoryDoc, Leads S (Store.save (repositoryDraftFile p) d)) :
    Leads (Unreported S) (draftRepository p) := by
  have hmodules : Leads (Unreported S) (modulesText p) :=
    (unreported_inFolder (leads_loadAll _)).bind fun _ =>
      (leads_ofExcept _).bind fun _ => leads_pure _
  refine (unreported_inFolder (leads_loadAll _)).bind fun found => ?_
  cases found with
  | cons d ds => exact leads_pure d
  | nil =>
    exact hmodules.bind fun text => (leads_ofExcept _).bind fun modules =>
      (leads_ofExcept _).bind fun fence => (unreported_askUser hnotes _ _).bind fun reply =>
        (leads_ofExcept _).bind fun d => (unreported_inFolder (hsave d)).bind fun _ =>
          leads_pure d

lemma unreported_askQuestions (hwrite : ∀ text, Leads S (Files.write (questionsFile p) text))
    (draft : RepositoryDoc) : Leads (Unreported S) (askQuestions p draft) :=
  unreported_linesOr hwrite ((leads_ofExcept _).bind fun _ => (leads_ofExcept _).bind fun _ =>
    (unreported_askUser hnotes _ _).bind fun _ => leads_pure _)

lemma unreported_indexed (draft : RepositoryDoc) (questions : List String) :
    Leads (Unreported S) (indexed p draft questions) := by
  have hanswer : ∀ docs question, Leads (Unreported S) (answerByIndex docs draft question) := by
    intro docs question
    refine (unreported_query _).bind fun found => (leads_mapM (fun i => ?_) found).bind fun _ =>
      (leads_ofExcept _).bind fun _ => (leads_ofExcept _).bind fun _ =>
        unreported_askUser hnotes _ _
    cases Index.at? docs i with
    | none => exact leads_throw _
    | some d => exact leads_pure _
  refine (unreported_inFolder (leads_mapM leads_loadRoutine? _)).bind fun found =>
    (leads_mapM (fun o => ?_) found).bind fun docs => (unreported_add _).bind fun _ =>
      leads_collect (hanswer docs) questions
  cases o with
  | none => exact leads_throw _
  | some d => exact leads_pure d

lemma unreported_enhanceRepository (hsave : ∀ d, Leads S (p.saveRepository d))
    (draft : RepositoryDoc) (questions answers : List String) :
    Leads (Unreported S) (enhanceRepository p draft questions answers) := by
  have hload : Leads S p.loadRepository? := (leads_loadAll _).bind fun _ => leads_pure _
  refine (unreported_inFolder hload).bind fun found => ?_
  split
  · exact leads_pure ()
  · exact (leads_ofExcept _).bind fun _ => (leads_ofExcept _).bind fun _ =>
      (leads_ofExcept _).bind fun _ => (leads_ofExcept _).bind fun _ =>
        (unreported_askUser hnotes _ _).bind fun _ => (leads_ofExcept _).bind fun d =>
          unreported_inFolder (hsave d)

lemma unreported_documentRepositoryByIndex
    (hdraft : ∀ d : RepositoryDoc, Leads S (Store.save (repositoryDraftFile p) d))
    (hquestions : ∀ text, Leads S (Files.write (questionsFile p) text))
    (hanswers : ∀ text, Leads S (Files.write (answersFile p) text))
    (hsave : ∀ d, Leads S (p.saveRepository d)) :
    Leads (Unreported S) (documentRepositoryByIndex p) := by
  refine (unreported_inFolder (leads_loadAll _)).bind fun modules => ?_
  split
  · exact leads_pure ()
  · exact (unreported_draftRepository hnotes hdraft).bind fun draft =>
      (unreported_askQuestions hnotes hquestions draft).bind fun questions =>
        (unreported_linesOr hanswers (unreported_indexed hnotes draft questions)).bind
          fun answers => unreported_enhanceRepository hnotes hsave draft questions answers

end Noted

end Generate

/-! ## From sources to documents -/

lemma leads_anyChange {α : Type} (step : Files α) : Leads AnyChange step :=
  fun _ => trivial

lemma unreported_files {α : Type} (step : Files α) :
    Leads (Unreported AnyChange) (inFolder step) :=
  unreported_inFolder (leads_anyChange step)

namespace Facts

lemma unreported_get : Leads (Unreported AnyChange) (get : Run World) :=
  fun _ => ⟨trivial, rfl, rfl⟩

lemma unreported_print (text : String) : Leads (Unreported AnyChange) (Run.print text) :=
  fun _ => ⟨trivial, rfl, rfl⟩

lemma unreported_command (text folder : String) :
    Leads (Unreported AnyChange) (Run.command text folder) :=
  fun _ => ⟨trivial, rfl, rfl⟩

lemma unreported_writeScript (folder : String) :
    Leads (Unreported AnyChange) (Build.writeScript folder) := by
  refine (unreported_files _).bind fun text => ?_
  split
  · exact leads_throw _
  · exact (leads_ofExcept _).bind fun cs => unreported_get.bind fun w =>
      (unreported_files _).bind fun _ => unreported_files _
  · exact (unreported_print _).bind fun _ => leads_throw _

variable (output sources : String)

lemma unreported_make : Leads (Unreported AnyChange) (do
    unless ← inFolder (Files.pathExists (Path.join sources "Makefile")) do throw .noMakefile
    Run.command "bear make -j`nproc`" sources
    Build.writeScript sources
    Run.command "chmod +x buildast.sh" sources
    Run.command "./buildast.sh" sources
    inFolder (copyInto (Path.join "lib" "cge") sources)
    Run.command "./cge astList.txt" sources
    inFolder (Files.makeFolders output)
    for name in ["structs.json", "typedefs.json", "functions.json", "records.json", "cg.dot"] do
      inFolder (moveInto (Path.join sources name) output)) := by
  refine (unreported_files _).bind fun found => ?_
  cases found with
  | false => exact leads_of_eq fun _ => rfl
  | true =>
    refine (unreported_command _ _).bind fun _ => (unreported_writeScript _).bind fun _ =>
      (unreported_command _ _).bind fun _ => (unreported_command _ _).bind fun _ =>
        (unreported_files _).bind fun _ => (unreported_command _ _).bind fun _ =>
          (unreported_files _).bind fun _ => Leads.bind ?_ fun _ => leads_pure ()
    exact leads_forIn (fun name _ => (unreported_files _).bind fun _ => leads_pure _) _ _

lemma unreported_prepare : Leads (Unreported AnyChange) (prepare output sources) := by
  refine (unreported_files _).bind fun found => ?_
  cases found with
  | true => exact leads_pure ()
  | false =>
    refine unreported_get.bind fun w => ?_
    dsimp only
    cases configure? w.folder sources with
    | none => exact unreported_make output sources
    | some command => exact (unreported_command _ _).bind fun _ => unreported_make output sources

lemma unreported_readFacts (path sources : String) :
    Leads (Unreported AnyChange) (readFacts path sources) := by
  refine unreported_get.bind fun w => ?_
  cases w.clock with
  | false => exact leads_of_eq fun _ => rfl
  | true =>
    refine unreported_get.bind fun w => ?_
    dsimp only
    split
    · exact leads_pure _
    · split
      · exact leads_pure _
      · split
        · exact leads_pure _
        · exact leads_pure _
    · exact leads_pure _

lemma unreported_analyse : Leads (Unreported AnyChange) (analyse output sources) := by
  have hdrawing : Leads (Unreported AnyChange) (readDrawing output) := by
    refine (unreported_files _).bind fun text => (leads_ofExcept _).bind fun sketch => ?_
    cases sketch with
    | ok sketch => exact leads_ofExcept _
    | error complaint => exact (unreported_print _).bind fun _ => leads_throw _
  exact (unreported_prepare output sources).bind fun _ =>
    ((unreported_readFacts _ _).bind fun _ => leads_ofExcept _).bind fun aliases =>
      ((unreported_readFacts _ _).bind fun _ => leads_ofExcept _).bind fun routines =>
        hdrawing.bind fun drawing =>
          ((unreported_readFacts _ _).bind fun _ => leads_ofExcept _).bind fun records =>
            leads_pure _

end Facts

namespace Pipeline

open Generate

lemma unreported_survey (parse : Parser) (language : Option Language) (p : Project) :
    Leads (Unreported AnyChange) (survey parse language p) := by
  cases language with
  | none => exact leads_throw _
  | some language =>
    cases language with
    | cpp => exact (Facts.unreported_analyse _ _).bind fun found => leads_pure _
    | python =>
      exact Facts.unreported_get.bind fun w => (leads_ofExcept _).bind fun routines =>
        leads_pure _

lemma unreported_document (parse : Parser) (language : Option Language) (p : Project) :
    Leads (Unreported AnyChange) (document parse language p) := by
  have hnotes : ∀ f f', Talk.Noted f f' → AnyChange f f' := fun _ _ _ => trivial
  exact (unreported_survey parse language p).bind fun p =>
    (unreported_documentRoutines hnotes fun _ _ => leads_anyChange _).bind fun _ =>
      (unreported_documentRecords hnotes fun _ _ => leads_anyChange _).bind fun _ =>
        (unreported_documentModules hnotes (fun _ => leads_anyChange _)
          fun _ => leads_anyChange _).bind fun _ =>
            (unreported_documentRepositoryByIndex hnotes (fun _ => leads_anyChange _)
              (fun _ => leads_anyChange _) (fun _ => leads_anyChange _)
                fun _ => leads_anyChange _).bind fun _ => leads_pure p

end Pipeline

end Docsmith
