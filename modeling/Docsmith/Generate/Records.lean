import Docsmith.Generate.Tasks
import Docsmith.Prompt.Record

/-! # Documents on records -/

namespace Docsmith.Generate

def recordPrompt (fence : String) (r : Record) (symbol : String) (methods : List RoutineDoc)
    (records : List RecordDoc) : String :=
  let prompt : Prompt.RecordPrompt := {}
  prompt.attributes r.fields |>.code r.code |>.methods methods |>.records records
    |>.lang fence |>.name symbol |>.build

/-- Documents a record. The records that lead to it are quoted as those it holds. -/
def documentRecord (p : Project) (symbol : String) : Run Unit := do
  if (← inFolder (p.loadRecord? symbol)).isSome then return
  let r ← Run.ofExcept (p.records.get symbol)
  let records ← inFolder ((p.records.graph.predecessors symbol).filterMapM p.loadRecord?)
  let methods ← routineDocs p (r.methods.map Routine.symbol)
  let fence ← Run.ofExcept p.fence
  let reply ← askDocument (recordPrompt fence r symbol methods records) id
  let doc ← Run.ofExcept (Document.ofChapter (titled symbol reply))
  inFolder (p.saveRecord symbol doc)

def documentRecords (p : Project) : Run Unit :=
  overGraph p.records.graph (documentRecord p)

end Docsmith.Generate
