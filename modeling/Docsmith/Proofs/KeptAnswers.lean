import Docsmith.Generate.Repository
import Docsmith.Proofs.Rereading

/-! # Questions and answers that are kept

Questions on a draft and the answers to them go to two files, one a line. A later run finds the list
that was written exactly if every entry is one line with nothing blank around it and the last one is
not empty (`relined_eq_iff`); any other entry shifts the lines after it or is lost. -/

namespace Docsmith

open List

/-! ## Lines with their ends -/

namespace Chars

variable {l cs : List Char} {c : Char}

lemma keepLines_cons (hc : c ≠ '\n') (cs : List Char) :
    keepLines (c :: cs) = match keepLines cs with
      | [] => [[c]]
      | line :: lines => (c :: line) :: lines :=
  keepLines.eq_3 c cs hc

lemma keepLines_append_newline (hl : '\n' ∉ l) (cs : List Char) :
    keepLines (l ++ '\n' :: cs) = (l ++ ['\n']) :: keepLines cs := by
  induction l with
  | nil => rfl
  | cons c l ih =>
    rw [mem_cons, not_or] at hl
    obtain ⟨hc, hrest⟩ := hl
    rw [cons_append, keepLines_cons (Ne.symm hc), ih hrest]
    rfl

lemma keepLines_line (hl : '\n' ∉ l) (hne : l ≠ []) : keepLines l = [l] := by
  induction l with
  | nil => exact absurd rfl hne
  | cons c l ih =>
    rw [mem_cons, not_or] at hl
    obtain ⟨hc, hrest⟩ := hl
    rw [keepLines_cons (Ne.symm hc)]
    by_cases hnil : l = []
    · subst hnil
      rfl
    · rw [ih hrest hnil]

lemma mem_keepLines (h : l ∈ keepLines cs) :
    l ⊆ cs ∧ ∃ body, '\n' ∉ body ∧ (l = body ∨ l = body ++ ['\n']) := by
  have hsub : l ⊆ cs := by
    have hflat := flatten_keepLines cs
    intro c hc
    rw [← hflat]
    exact mem_flatten_of_mem h hc
  refine ⟨hsub, ?_⟩
  clear hsub
  fun_induction keepLines cs generalizing l with
  | case1 => cases h
  | case2 rest ih =>
    rcases mem_cons.mp h with rfl | hrest
    · exact ⟨[], by simp, Or.inr rfl⟩
    · exact ih hrest
  | case3 c rest hc hrest ih =>
    rw [mem_singleton.mp h]
    exact ⟨[c], by simpa using fun h => hc h.symm, Or.inl rfl⟩
  | case4 c rest hc line lines hrest ih =>
    rcases mem_cons.mp h with rfl | hlater
    · obtain ⟨body, hbody, hend⟩ := ih (by rw [hrest]; exact mem_cons_self)
      refine ⟨c :: body, by simpa using ⟨fun h => hc h.symm, hbody⟩, ?_⟩
      rcases hend with rfl | rfl
      · exact Or.inl rfl
      · exact Or.inr rfl
    · exact ih (by rw [hrest]; exact mem_cons_of_mem line hlater)

lemma return_notMem_unifyBreaks (cs : List Char) : '\r' ∉ unifyBreaks cs := by
  fun_induction unifyBreaks cs with
  | case1 => simp
  | case2 rest ih | case3 rest _ ih => simpa using ih
  | case4 c rest _ hc ih => simpa using ⟨fun h => hc h.symm, ih⟩

end Chars

/-! ## Lists kept as lines -/

namespace Generate

open Project Store

structure IsLine (x : String) : Prop where
  feed : '\n' ∉ x.toList
  carriage : '\r' ∉ x.toList
  trimmed : Text.strip x = x

def linesOf (text : String) : List String :=
  (Text.keepLines text).map Text.strip

def relined (xs : List String) : List String :=
  linesOf (Text.unifyBreaks (Text.join "\n" xs))

lemma linesOf_eq (text : String) :
    linesOf text = (Chars.keepLines text.toList).map fun l => String.ofList (Chars.strip l) := by
  rw [linesOf, Text.keepLines, map_map]
  refine map_congr_left fun l _ => ?_
  rw [Function.comp_apply, Text.strip, String.toList_ofList]

lemma strip_append_newline (l : List Char) : Chars.strip (l ++ ['\n']) = Chars.strip l :=
  Chars.trim_append_of_all fun c hc => by rw [mem_singleton.mp hc]; rfl

lemma isLine_of_mem {x text : String} (h : x ∈ linesOf (Text.unifyBreaks text)) : IsLine x := by
  rw [linesOf_eq, Text.unifyBreaks, String.toList_ofList] at h
  obtain ⟨l, hl, rfl⟩ := mem_map.mp h
  obtain ⟨hsub, body, hbody, hend⟩ := Chars.mem_keepLines hl
  have hstrip : Chars.strip l = Chars.strip body := by
    rcases hend with rfl | rfl
    · rfl
    · exact strip_append_newline body
  refine ⟨?_, ?_, ?_⟩
  · rw [String.toList_ofList, hstrip]
    exact fun hc => hbody ((Chars.trim_infix _ body).subset hc)
  · rw [String.toList_ofList]
    exact fun hc => Chars.return_notMem_unifyBreaks text.toList
      (hsub ((Chars.trim_infix _ l).subset hc))
  · rw [Text.strip, String.toList_ofList]
    exact congrArg String.ofList (Chars.trim_trim _ l)

def lineChars (xs : List String) : List Char :=
  xs.flatMap fun x => x.toList ++ ['\n']

lemma toList_join_concat (xs : List String) (x : String) :
    (Text.join "\n" (xs ++ [x])).toList = lineChars xs ++ x.toList := by
  induction xs with
  | nil => rfl
  | cons y xs ih =>
    obtain ⟨z, zs, hz⟩ := exists_cons_of_ne_nil (l := xs ++ [x]) (by simp)
    rw [hz] at ih
    rw [cons_append, hz, Text.join_cons_cons, String.toList_append, ih]
    simp [lineChars]

lemma map_keepLines_lineChars {xs : List String} (hxs : ∀ x ∈ xs, IsLine x) (cs : List Char) :
    (Chars.keepLines (lineChars xs ++ cs)).map (fun l => String.ofList (Chars.strip l))
      = xs ++ (Chars.keepLines cs).map fun l => String.ofList (Chars.strip l) := by
  induction xs with
  | nil => rfl
  | cons x xs ih =>
    obtain ⟨hx, hrest⟩ := forall_mem_cons.mp hxs
    have hlines : lineChars (x :: xs) ++ cs = x.toList ++ '\n' :: (lineChars xs ++ cs) := by
      simp [lineChars]
    have htrimmed : String.ofList (Chars.strip x.toList) = x := hx.trimmed
    rw [hlines, Chars.keepLines_append_newline hx.feed, map_cons, strip_append_newline,
      htrimmed, ih hrest, cons_append]

lemma relined_concat {xs : List String} {x : String} (h : ∀ y ∈ xs ++ [x], IsLine y) :
    relined (xs ++ [x]) = xs ++ if x = "" then [] else [x] := by
  have hx : IsLine x := h x (by simp)
  have hxs : ∀ y ∈ xs, IsLine y := fun y hy => h y (mem_append_left [x] hy)
  have hreturn : '\r' ∉ lineChars xs ++ x.toList := by
    simp only [lineChars, mem_append, mem_flatMap, not_or, not_exists, not_and]
    refine ⟨fun y hy => ⟨(hxs y hy).carriage, by simp⟩, hx.carriage⟩
  rw [relined, linesOf_eq, Text.unifyBreaks, String.toList_ofList, toList_join_concat,
    Chars.unifyBreaks_eq_self hreturn, map_keepLines_lineChars hxs]
  by_cases hempty : x = ""
  · subst hempty
    rfl
  · have hne : x.toList ≠ [] := fun hnil => hempty (String.toList_eq_nil_iff.mp hnil)
    have htrimmed : String.ofList (Chars.strip x.toList) = x := hx.trimmed
    rw [if_neg hempty, Chars.keepLines_line hx.feed hne, map_singleton, htrimmed]

structure Kept (xs : List String) : Prop where
  lines : ∀ x ∈ xs, IsLine x
  last : ∀ x ∈ xs.getLast?, x ≠ ""

lemma relined_eq_iff {xs : List String} : relined xs = xs ↔ Kept xs := by
  rcases eq_nil_or_concat xs with rfl | ⟨ys, x, rfl⟩
  · exact ⟨fun _ => ⟨by simp, by simp⟩, fun _ => rfl⟩
  · rw [concat_eq_append]
    constructor
    · intro h
      -- whatever is read consists of lines
      have hlines : ∀ y ∈ ys ++ [x], IsLine y := fun y hy => isLine_of_mem (h.symm ▸ hy)
      refine ⟨hlines, fun y hy => ?_⟩
      rw [getLast?_concat, Option.mem_some_iff] at hy
      subst hy
      rw [relined_concat hlines, append_cancel_left_eq] at h
      by_contra hempty
      rw [if_pos hempty] at h
      cases h
    · intro h
      rw [relined_concat h.lines, if_neg (h.last x (by simp))]

/-! ## Reading what was written -/

variable {file : String} {make : Run (List String)} {w w' : World} {lines : List String}

lemma linesOr_there {c : Content} (h : w.folder.Has file c) (make : Run (List String)) :
    (linesOr file make).run.run w = ((Folder.textOf c).map linesOf, w) := by
  obtain ⟨hexists, hread⟩ := h.read
  rw [linesOr, run_bind, run_inFolder, Files.run_pathExists, hexists]
  simp only [if_true, run_bind, run_inFolder, Files.read, Files.run_ask, hread]
  cases Folder.textOf c with
  | error e | ok text => rfl

lemma linesOr_missing (hmissing : w.folder.pathExists file = false)
    (h : (linesOr file make).run.run w = (.ok lines, w')) :
    ∃ w₁, make.run.run w = (.ok lines, w₁) ∧
      w'.folder = ((Files.write file (Text.join "\n" lines)).run.run w₁.folder).2 ∧
      w'.folder.Has file (.text (Text.join "\n" lines)) := by
  rw [linesOr, run_bind, run_inFolder, Files.run_pathExists, hmissing] at h
  simp only [Bool.false_eq_true, if_false, run_bind, run_inFolder] at h
  rcases hmake : make.run.run w with ⟨r, w₁⟩
  rw [hmake] at h
  cases r with
  | error e => cases h
  | ok made =>
    simp only at h
    rcases hwrite : (Files.write file (Text.join "\n" made)).run.run w₁.folder with ⟨r, f⟩
    rw [hwrite] at h
    cases r with
    | error e => cases h
    | ok u =>
      cases h
      exact ⟨w₁, rfl, by rw [hwrite], Files.has_of_write hwrite⟩

lemma linesOr_ok (h : (linesOr file make).run.run w = (.ok lines, w')) :
    (∃ c, w'.folder.Has file c ∧ (Folder.textOf c).map linesOf = .ok lines) ∨
      w'.folder.Has file (.text (Text.join "\n" lines)) ∧
        ∃ w₁, make.run.run w = (.ok lines, w₁) := by
  cases hexists : w.folder.pathExists file with
  | false =>
    obtain ⟨w₁, hmake, -, hhas⟩ := linesOr_missing hexists h
    exact Or.inr ⟨hhas, w₁, hmake⟩
  | true =>
    left
    cases hread : w.folder.readText file with
    | error e =>
      rw [linesOr, run_bind, run_inFolder, Files.run_pathExists, hexists] at h
      simp only [if_true, run_bind, run_inFolder, Files.read, Files.run_ask, hread] at h
      cases h
    | ok text =>
      obtain ⟨c, hhas, -⟩ := Folder.has_of_readText hread
      rw [linesOr_there hhas, Prod.mk.injEq] at h
      obtain ⟨hlines, rfl⟩ := h
      exact ⟨c, hhas, hlines⟩

/-! ## Questions -/

lemma mem_questions {x text : String} (h : x ∈ Question.all text) :
    Text.strip x = x ∧ x ≠ "" := by
  obtain ⟨⟨q, a⟩, -, rfl⟩ := mem_map.mp h
  simp only [Question.shown]
  constructor
  · rw [Text.strip, String.toList_ofList]
    exact congrArg String.ofList (Chars.trim_trim _ _)
  · intro hempty
    have hnil : Chars.strip (q ++ '(' :: a ++ [')']) = [] := by
      rw [← String.toList_eq_nil_iff, String.toList_ofList] at hempty
      exact hempty
    obtain ⟨l, r, hsplit, hl, hr⟩ := Chars.exists_eq_trim Chars.isBlank (q ++ '(' :: a ++ [')'])
    have hmem : ')' ∈ l ++ Chars.strip (q ++ '(' :: a ++ [')']) ++ r := hsplit ▸ by simp
    -- the bracket would be among the blanks that were taken away
    rw [hnil, append_nil, mem_append] at hmem
    have hblank : Chars.isBlank ')' = true := hmem.elim (hl _) (hr _)
    exact absurd hblank (by decide)

def OneLine (x : String) : Prop :=
  '\n' ∉ x.toList ∧ '\r' ∉ x.toList

lemma kept_questions_iff (text : String) :
    Kept (Question.all text) ↔ ∀ q ∈ Question.all text, OneLine q := by
  constructor
  · intro h q hq
    exact ⟨(h.lines q hq).feed, (h.lines q hq).carriage⟩
  · intro h
    refine ⟨fun q hq => ⟨(h q hq).1, (h q hq).2, (mem_questions hq).1⟩, fun q hq => ?_⟩
    exact (mem_questions (mem_of_mem_getLast? hq)).2

lemma questions_made {p : Project} {draft : RepositoryDoc} {w w₁ : World}
    {questions : List String}
    (h : (do
      let text ← Run.ofExcept (Document.markdown draft)
      let fence ← Run.ofExcept p.fence
      return Question.all (← askUser (Prompt.questions fence text) id) : Run (List String)).run.run w
        = (.ok questions, w₁)) : ∃ reply, questions = Question.all reply := by
  simp only [run_bind, Run.run_ofExcept] at h
  cases htext : Document.markdown draft with
  | error e =>
    rw [htext] at h
    cases h
  | ok text =>
    rw [htext] at h
    simp only at h
    cases hfence : p.fence with
    | error e =>
      rw [hfence] at h
      cases h
    | ok fence =>
      rw [hfence] at h
      simp only at h
      rcases hask : (askUser (Prompt.questions fence text) id).run.run w with ⟨r, w'⟩
      rw [hask] at h
      cases r with
      | error e => cases h
      | ok reply =>
        cases h
        exact ⟨reply, rfl⟩

/-! ## Answers -/

section Tools

variable {tools : List Tool}

lemma aside_callTool
    (htools : ∀ tool ∈ tools, ∀ fields, Leads (Aside World.folder) (tool.call fields))
    (count : Nat) (c : ToolCall) : Leads (Aside Session.folder) (Talk.callTool tools count c) := by
  refine (aside_of_eq fun _ => rfl).bind fun _ => ?_
  cases Json.parse c.arguments with
  | error problem => exact leads_throw _
  | ok arguments =>
    cases hfind : tools.find? (·.name == c.name) with
    | none => exact leads_throw _
    | some tool =>
      cases arguments with
      | obj fields =>
        have htool := htools tool (mem_of_find?_eq_some hfind) fields
        exact (aside_inWorld htool).bind fun _ => aside_of_eq fun _ => rfl
      | _ => exact leads_throw _

lemma aside_finish (post : Option (String → String)) (content : Option String) :
    Leads (Aside Session.folder) (Talk.finish post content) := by
  have hlast : ∀ answer : Option String, Leads (Aside Session.folder) (do
      Talk.add (.said .assistant answer)
      return answer) := fun answer => (aside_of_eq fun _ => rfl).bind fun _ => leads_pure answer
  cases post with
  | none => exact hlast content
  | some f =>
    cases content with
    | none => exact leads_throw _
    | some text => exact hlast (some (f text))

lemma aside_askToolsFrom
    (htools : ∀ tool ∈ tools, ∀ fields, Leads (Aside World.folder) (tool.call fields))
    (replies : List Reply) (post : Option (String → String)) :
    Leads (Aside Session.folder) (Talk.askToolsFrom tools post replies) := by
  induction replies generalizing post with
  | nil => exact (aside_of_eq fun _ => rfl).bind fun _ => leads_throw _
  | cons reply rest ih =>
    refine (aside_of_eq fun _ => rfl).bind fun _ => ?_
    cases reply with
    | timeout | failure reason => exact leads_throw _
    | text content => exact aside_finish post (some content)
    | stream chunks => exact aside_finish post none
    | calls calls =>
      cases calls with
      | nil => exact aside_finish post none
      | cons c cs =>
        exact (leads_forM (aside_callTool htools _) (c :: cs)).bind fun _ => ih none

end Tools

lemma aside_lookupTool (p : Project) (fields : List (String × Json)) :
    Leads (Aside World.folder) ((lookupTool p).call fields) := by
  simp only [lookupTool]
  split
  · exact (leads_of_reads (reads_routineDoc p _)).bind fun _ => leads_pure _
  all_goals exact leads_throw _

lemma aside_answerByLookup (p : Project) (draft : RepositoryDoc) (modules question : String) :
    Leads (Aside World.folder) (answerByLookup p draft modules question) := by
  have htools : ∀ tool ∈ [lookupTool p], ∀ fields,
      Leads (Aside World.folder) (tool.call fields) := by
    intro tool htool
    rw [mem_singleton.mp htool]
    exact aside_lookupTool p
  have htalk : ∀ own modules, Leads (Aside Session.folder) (do
      Talk.system (Prompt.lookup own modules)
      Talk.user question
      Talk.askTools [lookupTool p] none) := by
    intro own modules
    refine (aside_of_eq fun _ => rfl).bind fun _ => (aside_of_eq fun _ => rfl).bind fun _ => ?_
    exact (aside_of_eq fun _ => rfl).bind fun s => aside_askToolsFrom htools s.world.replies none
  refine (leads_ofExcept _).bind fun own => (leads_ofExcept _).bind fun modules =>
    (aside_talk (htalk own modules)).bind fun answer => ?_
  cases answer with
  | none => exact leads_throw _
  | some text => exact leads_pure _

lemma aside_modulesText (p : Project) : Leads (Aside World.folder) (modulesText p) := by
  have hload : Leads (Aside id) p.loadModules := aside_of_eq fun f => by
    obtain ⟨o, ho⟩ := loadAll_folder ModuleDoc p.modulesFile f
    rw [loadModules, ho]
  exact (aside_inFolder hload).bind fun _ => (leads_ofExcept _).bind fun _ => leads_pure _

lemma aside_query (k : Nat) : Leads (Aside World.folder) (Index.query k) := by
  refine (aside_of_eq fun _ => rfl).bind fun _ => (aside_of_eq fun _ => rfl).bind fun _ =>
    (aside_of_eq fun _ => rfl).bind fun w => ?_
  cases w.hits with
  | nil => exact leads_pure []
  | cons found rest => exact (aside_of_eq fun _ => rfl).bind fun _ => leads_pure found

lemma aside_add (n : Nat) : Leads (Aside World.folder) (Index.add n) := by
  have hencode : Leads (Aside World.folder) (Index.encode n) := by
    refine (leads_forM (fun _ => aside_of_eq fun _ => rfl) (Index.batches n)).bind fun _ => ?_
    by_cases hn : n = 0
    · rw [if_pos hn]
      exact leads_throw _
    · rw [if_neg hn]
      exact leads_pure ()
  exact hencode.bind fun _ => aside_of_eq fun _ => rfl

lemma aside_answerByIndex (docs : List RoutineDoc) (draft : RepositoryDoc) (question : String) :
    Leads (Aside World.folder) (answerByIndex docs draft question) := by
  refine (aside_query _).bind fun found => (leads_mapM (fun i => ?_) found).bind fun _ =>
    (leads_ofExcept _).bind fun _ => (leads_ofExcept _).bind fun _ => aside_askUser _
  cases Index.at? docs i with
  | none => exact leads_throw _
  | some d => exact leads_pure _

lemma exists_make {p : Project} {answer : RepositoryDoc → List String → Run (List String)}
    (hanswer : answer = answersByLookup p ∨ answer = answersByIndex p) (draft : RepositoryDoc)
    (questions : List String) : ∃ make, answer draft questions = linesOr (answersFile p) make ∧
      Leads (Aside World.folder) make := by
  rcases hanswer with rfl | rfl
  · refine ⟨_, rfl, (aside_modulesText p).bind fun modules => ?_⟩
    exact leads_collect (aside_answerByLookup p draft modules) questions
  · have hload : ∀ s, Leads (Aside id) (p.loadRoutine? s) := fun s => aside_of_eq fun f => by
      rw [loadRoutine?, run_bind, Files.run_ask]
      cases p.routineFile s with
      | error e => rfl
      | ok file =>
        obtain ⟨o, ho⟩ := load?_folder RoutineDoc s file f
        simp only [ho]
    refine ⟨_, rfl, (aside_inFolder (leads_mapM hload _)).bind fun found =>
      (leads_mapM (fun o => ?_) found).bind fun docs => (aside_add _).bind fun _ =>
        leads_collect (aside_answerByIndex docs draft) questions⟩
    cases o with
    | none => exact leads_throw _
    | some d => exact leads_pure d

/-! ## The two files -/

def questionsName : String := "repo-q.md"

def answersName : String := "repo-a.md"

lemma isFile_questionsName : IsFile questionsName :=
  isFile_of_name (by decide) (by decide) (by decide) (by decide)

lemma isFile_answersName : IsFile answersName :=
  isFile_of_name (by decide) (by decide) (by decide) (by decide)

lemma askQuestions_ok {p : Project} {draft : RepositoryDoc} {w w' : World}
    {questions : List String} (h : (askQuestions p draft).run.run w = (.ok questions, w')) :
    ∃ c questions', w'.folder.Has (questionsFile p) c ∧
      (Folder.textOf c).map linesOf = .ok questions' ∧
      (questions' = questions ↔ ∀ q ∈ questions, OneLine q) := by
  rcases linesOr_ok h with ⟨c, hhas, hlines⟩ | ⟨hhas, w₁, hmake⟩
  · refine ⟨c, questions, hhas, hlines, fun _ q hq => ?_, fun _ => rfl⟩
    obtain ⟨text, htext, rfl⟩ := map_ok_iff.mp hlines
    obtain ⟨s, rfl⟩ := Folder.textOf_ok htext
    exact ⟨(isLine_of_mem hq).feed, (isLine_of_mem hq).carriage⟩
  · obtain ⟨reply, rfl⟩ := questions_made hmake
    refine ⟨_, _, hhas, rfl, ?_⟩
    rw [← kept_questions_iff]
    exact relined_eq_iff

/-- **Questions and answers stay together exactly if they are lines.** Every later run that finds
the folder as it was left reads both lists from their files. The questions are those that were asked
exactly if each is one line, and the answers those that were given exactly if each is one line with
nothing blank around it and the last one is not empty. -/
theorem reread_answers_iff {p : Project}
    {answer : RepositoryDoc → List String → Run (List String)}
    (hanswer : answer = answersByLookup p ∨ answer = answersByIndex p) {draft : RepositoryDoc}
    {w w₁ w₂ : World} {questions answers : List String}
    (hask : (askQuestions p draft).run.run w = (.ok questions, w₁))
    (hnew : w₁.folder.pathExists (answersFile p) = false)
    (hreply : (answer draft questions).run.run w₁ = (.ok answers, w₂))
    {later : World} (hlater : later.folder = w₂.folder) (draft' : RepositoryDoc) :
    ∃ questions' answers',
      (askQuestions p draft').run.run later = (.ok questions', later) ∧
      (answer draft' questions').run.run later = (.ok answers', later) ∧
      (questions' = questions ↔ ∀ q ∈ questions, OneLine q) ∧
      (answers' = answers ↔ Kept answers) := by
  obtain ⟨c, questions', hasked, hlines, hquestions⟩ := askQuestions_ok hask
  obtain ⟨make, hmake, haside⟩ := exists_make hanswer draft questions
  rw [hmake] at hreply
  obtain ⟨w', hmade, hfolder, hanswered⟩ := linesOr_missing hnew hreply
  -- making the answers and writing them leaves the file for questions as it is
  have hkept : w₂.folder.Has (questionsFile p) c := by
    have hnoted := haside w₁
    rw [hmade] at hnoted
    rw [hfolder]
    exact has_after_write isFile_questionsName isFile_answersName (by decide)
      (has_aside isFile_questionsName hnoted hasked) _
  rw [← hlater] at hkept hanswered
  obtain ⟨make', hmake', -⟩ := exists_make hanswer draft' questions'
  refine ⟨questions', relined answers, ?_, ?_, hquestions, relined_eq_iff⟩
  · rw [askQuestions, linesOr_there hkept, hlines]
  · rw [hmake', linesOr_there hanswered]
    rfl

/-! ## Two questions -/

def quizDraft : RepositoryDoc where
  name := "r"
  description := "x"
  features := some ["a"]
  standards := some ["b"]

def quizQuestions : List String := ["p(q)", "r(s)"]

/-- A code base with a module, before the questions are asked that the given answers are for. -/
def quizWorld (answers : List String) : World where
  folder := ((gallery.saveModule (draftOf "A")).run.run (.folder "docs" .empty .empty)).2
  replies := .text "- Q1: p\n- A1: q\n- Q2: r\n- A2: s" :: answers.map .text

def quizAsked (answers : List String) : World :=
  ((askQuestions gallery quizDraft).run.run (quizWorld answers)).2

def quizAnswered (answers : List String) : World :=
  ((answersByLookup gallery quizDraft quizQuestions).run.run (quizAsked answers)).2

theorem reread_quiz : (askQuestions gallery quizDraft).run.run (quizAnswered ["yes", "no"])
      = (.ok quizQuestions, quizAnswered ["yes", "no"]) ∧
    (answersByLookup gallery quizDraft quizQuestions).run.run (quizAnswered ["yes", "no"])
      = (.ok ["yes", "no"], quizAnswered ["yes", "no"]) := by
  have hvalues : ((askQuestions gallery quizDraft).run.run (quizWorld ["yes", "no"])).1
        = .ok quizQuestions ∧
      (quizAsked ["yes", "no"]).folder.pathExists (answersFile gallery) = false ∧
      ((answersByLookup gallery quizDraft quizQuestions).run.run (quizAsked ["yes", "no"])).1
        = .ok ["yes", "no"] := by
    decide +kernel
  obtain ⟨hfirst, hnew, hsecond⟩ := hvalues
  have hask : (askQuestions gallery quizDraft).run.run (quizWorld ["yes", "no"])
      = (.ok quizQuestions, quizAsked ["yes", "no"]) := by
    rw [quizAsked]
    exact run_eq_pair hfirst
  have hreply : (answersByLookup gallery quizDraft quizQuestions).run.run (quizAsked ["yes", "no"])
      = (.ok ["yes", "no"], quizAnswered ["yes", "no"]) := by
    rw [quizAnswered]
    exact run_eq_pair hsecond
  obtain ⟨questions', answers', hask', hreply', hquestions, hanswers⟩ :=
    reread_answers_iff (Or.inl rfl) hask hnew hreply rfl quizDraft
  obtain rfl : questions' = quizQuestions := hquestions.mpr (by simp [quizQuestions, OneLine])
  obtain rfl : answers' = ["yes", "no"] := by
    refine hanswers.mpr ⟨?_, by simp⟩
    rw [List.forall_mem_cons, List.forall_mem_singleton]
    exact ⟨⟨by simp, by simp, rfl⟩, ⟨by simp, by simp, rfl⟩⟩
  exact ⟨hask', hreply'⟩

/-- An answer in two lines is read as two answers, and the second of them goes to the next
question. -/
theorem quiz_answers_shifted :
    ((askQuestions gallery quizDraft).run.run (quizWorld ["a\nb", "c"])).1
        = .ok quizQuestions ∧
      ((answersByLookup gallery quizDraft quizQuestions).run.run (quizAsked ["a\nb", "c"])).1
        = .ok ["a\nb", "c"] ∧
      ((answersByLookup gallery quizDraft quizQuestions).run.run (quizAnswered ["a\nb", "c"])).1
        = .ok ["a", "b", "c"] ∧
      paired ["a\nb", "c"] "r(s)" 1 = .ok "- Q1: r(s)\n > A1: c" ∧
      paired ["a", "b", "c"] "r(s)" 1 = .ok "- Q1: r(s)\n > A1: b" := by
  decide +kernel

end Generate

end Docsmith

