import Docsmith.Generate.Question
import Docsmith.Generate.Tasks
import Docsmith.Prompt.Repository
import Docsmith.Session.Index
import Docsmith.Session.Tools

/-! # The document on a repository

A draft from the documents on the modules is put to questions, which a model answers, either by
looking up routines itself or from those that an index finds. -/

namespace Docsmith.Generate

def repositoryDraftFile (p : Project) : String := Path.join p.docs "repo-draft.md"

def questionsFile (p : Project) : String := Path.join p.docs "repo-q.md"

def answersFile (p : Project) : String := Path.join p.docs "repo-a.md"

def modulesText (p : Project) : Run String := do
  let modules ← inFolder p.loadModules
  return Text.join ("\n" ++ Prompt.rule ++ "\n") (← Run.ofExcept (modules.mapM Document.markdown))

def draftRepository (p : Project) : Run RepositoryDoc := do
  match ← inFolder (Store.loadAll RepositoryDoc (repositoryDraftFile p)) with
  | draft :: _ => return draft
  | [] =>
    let modules ← Run.ofExcept (Prompt.quote Prompt.mark (← modulesText p))
    let fence ← Run.ofExcept p.fence
    let reply ← askUser (Prompt.repository fence modules) id
    let doc ← Run.ofExcept (Document.ofChapter reply)
    inFolder (Store.save (repositoryDraftFile p) doc)
    return doc

def linesOr (file : String) (make : Run (List String)) : Run (List String) := do
  if ← inFolder (Files.pathExists file) then
    return (Text.keepLines (← inFolder (Files.read file))).map Text.strip
  else
    let lines ← make
    inFolder (Files.write file (Text.join "\n" lines))
    return lines

def askQuestions (p : Project) (draft : RepositoryDoc) : Run (List String) :=
  linesOr (questionsFile p) do
    let text ← Run.ofExcept (Document.markdown draft)
    let fence ← Run.ofExcept p.fence
    return Question.all (← askUser (Prompt.questions fence text) id)

/-! ## Answers by looking up routines -/

def lookupTool (p : Project) : Tool where
  name := "read_functions_md"
  call
    | [("name", .str symbol)] => do return (← routineDoc p symbol).markdown
    | [("name", .arr _)] => throw .notCallable
    | [("name", .obj _)] => throw .notCallable
    | [("name", _)] => throw (.unknownName "")
    | _ => throw .notCallable

def answerByLookup (p : Project) (draft : RepositoryDoc) (modules question : String) :
    Run String := do
  let own ← Run.ofExcept do Prompt.quote Prompt.mark (← Document.markdown draft)
  let modules ← Run.ofExcept (Prompt.quote Prompt.mark modules)
  let answer ← Run.talk do
    Talk.system (Prompt.lookup own modules)
    Talk.user question
    Talk.askTools [lookupTool p] none
  match answer with
  | some text => return Text.strip text
  | none => throw .noContent

def answersByLookup (p : Project) (draft : RepositoryDoc) (questions : List String) :
    Run (List String) :=
  linesOr (answersFile p) do
    let modules ← modulesText p
    collect (answerByLookup p draft modules) questions

/-! ## Answers from what an index finds -/

def answerByIndex (docs : List RoutineDoc) (draft : RepositoryDoc) (question : String) :
    Run String := do
  let found ← Index.query Index.usualHits
  let texts ← found.mapM fun i =>
    match Index.at? docs i with
    | some d => return d.markdown
    | none => throw .noSuchPosition
  let own ← Run.ofExcept do Prompt.quote Prompt.mark (← Document.markdown draft)
  let routines ← Run.ofExcept
    (Prompt.quote Prompt.mark (Text.join ("\n" ++ Prompt.rule ++ "\n") texts))
  askUser (Prompt.answer own routines question) id

def answersByIndex (p : Project) (draft : RepositoryDoc) (questions : List String) :
    Run (List String) :=
  linesOr (answersFile p) do
    let docs ← inFolder (p.routines.graph.nodes.mapM p.loadRoutine?)
    let docs ← docs.mapM fun
      | some d => return d
      | none => throw .noDocument
    Index.add docs.length
    collect (answerByIndex docs draft) questions

/-! ## The finished document -/

def paired (answers : List String) (question : String) (i : Nat) : Except Fault String :=
  match answers[i]? with
  | some a => .ok ("- Q" ++ toString i ++ ": " ++ question ++ "\n > A" ++ toString i ++ ": " ++ a)
  | none => .error .noSuchPosition

def enhanceRepository (p : Project) (draft : RepositoryDoc) (questions answers : List String) :
    Run Unit := do
  if (← inFolder p.loadRepository?).isSome then return
  let pairs ← Run.ofExcept (questions.zipIdx.mapM fun (q, i) => paired answers q i)
  let own ← Run.ofExcept do Prompt.quote Prompt.mark (← Document.markdown draft)
  let all ← Run.ofExcept (Prompt.quote Prompt.mark (Text.join "\n" pairs))
  let fence ← Run.ofExcept p.fence
  let reply ← askUser (Prompt.enhanceRepository fence own all) id
  let doc ← Run.ofExcept (Document.ofChapter reply)
  inFolder (p.saveRepository doc)

def documentRepositoryWith (p : Project)
    (answer : RepositoryDoc → List String → Run (List String)) : Run Unit := do
  if (← inFolder p.loadModules).isEmpty then return
  let draft ← draftRepository p
  let questions ← askQuestions p draft
  let answers ← answer draft questions
  enhanceRepository p draft questions answers

def documentRepository (p : Project) : Run Unit :=
  documentRepositoryWith p (answersByLookup p)

def documentRepositoryByIndex (p : Project) : Run Unit :=
  documentRepositoryWith p (answersByIndex p)

end Docsmith.Generate
