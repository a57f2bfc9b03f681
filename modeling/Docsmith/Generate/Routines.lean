import Docsmith.Generate.Tasks
import Docsmith.Prompt.Routine

/-! # Documents on routines, in one go

Routines are documented after those they call. A routine that has a document is left alone, so an
interrupted run can be taken up again. -/

namespace Docsmith.Generate

/-- The documents on successors are introduced as those of callers, the documents on predecessors as
those of routines that are called. -/
def routinePrompt (fence : String) (r : Routine) (symbol : String)
    (successors predecessors : List RoutineDoc) : String :=
  let prompt : Prompt.RoutinePrompt := {}
  prompt.parameters r.params |>.code r.code |>.callers successors |>.callees predecessors
    |>.lang fence |>.name symbol |>.build

def documentRoutine (p : Project) (symbol : String) : Run Unit := do
  if (← inFolder (p.loadRoutine? symbol)).isSome then return
  let r ← Run.ofExcept (p.routines.get symbol)
  let successors ← routineDocs p (p.routines.graph.successors symbol)
  let predecessors ← routineDocs p (p.routines.graph.predecessors symbol)
  let fence ← Run.ofExcept p.fence
  let reply ← askDocument (routinePrompt fence r symbol successors predecessors) id
  let doc ← Run.ofExcept (Document.ofChapter (titled symbol reply))
  inFolder (p.saveRoutine symbol doc)

def documentRoutines (p : Project) : Run Unit :=
  overGraph p.routines.graph (documentRoutine p)

end Docsmith.Generate
