import Docsmith.Prompt.Slot
import Docsmith.Project
import Docsmith.Schedule
import Docsmith.Session.Chat

/-! # Steps shared by all generators -/

namespace Docsmith.Generate

def overGraph (g : Digraph String) (work : String → Run Unit) : Run Unit :=
  ExceptT.mk fun w =>
    Schedule.run (Schedule.ofJobs (Schedule.jobsOf g)) (fun n w => (work n).run.run w) w

/-- Works on every item of a list. All are worked on even if one fails; then the first failure
counts. -/
def collect {α β : Type} (work : α → Run β) : List α → Run (List β)
  | [] => return []
  | a :: rest => ExceptT.mk do
    let first ← (work a).run
    let others ← (collect work rest).run
    return do
      let b ← first
      let bs ← others
      return b :: bs

def askUser (prompt : String) (post : String → String) : Run String :=
  Run.talk do
    Talk.user prompt
    Talk.ask post

def askDocument (prompt : String) (post : String → String) : Run String :=
  Run.talk do
    Talk.system prompt
    Talk.user Prompt.guideline
    Talk.ask post

def titled (symbol reply : String) : String :=
  "### " ++ symbol ++ "\n" ++ reply

def routineDocs (p : Project) (symbols : List String) : Run (List RoutineDoc) :=
  inFolder (symbols.filterMapM p.loadRoutine?)

def routineDoc (p : Project) (symbol : String) : Run RoutineDoc := do
  match ← inFolder (p.loadRoutine? symbol) with
  | some d => return d
  | none => throw .noDocument

end Docsmith.Generate
