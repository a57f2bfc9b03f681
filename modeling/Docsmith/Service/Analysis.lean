import Docsmith.Archive
import Docsmith.Pipeline
import Docsmith.Service.Delivery
import Docsmith.Service.Report

/-! # The analysis service

A task names an archive of sources. The service unpacks it at once and says whether it could; the
documents follow later in a report. -/

namespace Docsmith.Service

structure Task where
  id : String
  callback : String
  language : String := Language.cpp.render

structure Answer where
  id : String
  status : Status
  message : String
deriving Repr, DecidableEq

namespace Answer

def toJson (a : Answer) : Json :=
  .obj [("id", .str a.id), ("status", .int a.status.code), ("message", .str a.message),
    ("score", .null), ("result", .null)]

end Answer

structure Download where
  status : Nat
  text : String
  archive : Option Archive

def sourcesAt (place : String) : String := Path.join "resource" place

def unpack (download : Except Fault Download) (place : String) : Run Unit := do
  let d ← Run.ofExcept download
  if d.status == 403 then throw (.denied d.text)
  match d.archive with
  | some a => inFolder (a.unpack (sourcesAt place))
  | none => throw .notAnArchive

def accept (download : Except Fault Download) (place : String) (task : Task) : Run Answer :=
  tryCatch
    (do
      unpack download place
      return { id := task.id, status := .received, message := "task received" })
    fun f => return { id := task.id, status := .failure, message := f.message }

def successBody (task : Task) (r : Report) : String :=
  (Json.obj [("id", .str task.id), ("status", .int Status.success.code), ("message", .str "ok"),
    ("result", .str r.toJson.compact)]).compact

def failureBody (task : Task) (message : String) : String :=
  (Json.obj [("id", .str task.id), ("status", .int Status.failure.code),
    ("message", .str message)]).compact

def analyse (parse : Pipeline.Parser) (place : String) (task : Task) : Run Report := do
  let language ← Run.ofExcept (Language.ofRender task.language)
  let p ← Pipeline.document parse (some language) {
    docs := Path.join "docs" place, sources := sourcesAt place,
    output := Path.join "output" place, language := some language }
  Report.collect p

def work (parse : Pipeline.Parser) (place : String) (task : Task) : Run Unit :=
  workAndReport task.callback (return successBody task (← analyse parse place task))
    (failureBody task)

/-! ## For tests of the service -/

def takeReport (v : Json) : Except Fault String :=
  match v.field? "id", v.field? "status" with
  | some (.str _), some (.int _) => .ok "ok"
  | _, _ => .error .badReport

def greet : Run String := do
  Run.print "hello\n"
  return "hello"

end Docsmith.Service
