import Docsmith.Definition
import Docsmith.Language
import Docsmith.Store

/-! # Projects

A code base under study: where its files are, what is known about its routines and records, and
where its documents are kept. -/

namespace Docsmith

structure Project where
  docs : String
  sources : String
  output : String
  language : Option Language
  routines : Catalog Routine := {}
  records : Catalog Record := {}
  listing : Option String := none

namespace Project

def fence (p : Project) : Except Fault String :=
  match p.language with
  | some language => .ok language.markdown
  | none => .error .noLanguage

def fileFor (p : Project) (kind source : String) : String :=
  Path.join p.docs (source ++ "." ++ kind ++ ".md")

def modulesFile (p : Project) : String := Path.join p.docs "modules.md"

def repositoryFile (p : Project) : String := Path.join p.docs "repo.md"

def routineFile (p : Project) (symbol : String) : Except Fault String := do
  return p.fileFor (Document.kind RoutineDoc) (← p.routines.get symbol).file

def recordFile (p : Project) (symbol : String) : Except Fault String := do
  return p.fileFor (Document.kind RecordDoc) (← p.records.get symbol).file

def saveRoutine (p : Project) (symbol : String) (d : RoutineDoc) : Files Unit := do
  Store.save (← Files.ask fun _ => p.routineFile symbol) d

def loadRoutine? (p : Project) (symbol : String) : Files (Option RoutineDoc) := do
  Store.load? RoutineDoc symbol (← Files.ask fun _ => p.routineFile symbol)

def saveRecord (p : Project) (symbol : String) (d : RecordDoc) : Files Unit := do
  Store.save (← Files.ask fun _ => p.recordFile symbol) d

def loadRecord? (p : Project) (symbol : String) : Files (Option RecordDoc) := do
  Store.load? RecordDoc symbol (← Files.ask fun _ => p.recordFile symbol)

def saveModule (p : Project) (d : ModuleDoc) : Files Unit :=
  Store.save p.modulesFile d

def loadModules (p : Project) : Files (List ModuleDoc) :=
  Store.loadAll ModuleDoc p.modulesFile

def saveRepository (p : Project) (d : RepositoryDoc) : Files Unit :=
  Store.save p.repositoryFile d

def loadRepository? (p : Project) : Files (Option RepositoryDoc) := do
  return (← Store.loadAll RepositoryDoc p.repositoryFile).head?

end Project

end Docsmith
