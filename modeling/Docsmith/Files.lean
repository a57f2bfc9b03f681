import Docsmith.Folder.Files

/-! # Steps on a folder

A step reads or changes a folder and can fail; what it changed before it failed stays. -/

namespace Docsmith

abbrev Files := ExceptT Fault (StateM Folder)

namespace Files

def ask {α : Type} (f : Folder → Except Fault α) : Files α := do
  match f (← get) with
  | .ok a => return a
  | .error e => throw e

def update (f : Folder → Except Fault Folder) : Files Unit := do
  set (← ask f)

def pathExists (path : String) : Files Bool := do
  return (← get).pathExists path

def read (path : String) : Files String :=
  ask (·.readText path)

/-- The file is emptied first, so it is there even if the text cannot be written. -/
def write (path text : String) : Files Unit := do
  update (·.putFile path (.text ""))
  ask fun _ => Folder.checkText text
  update (·.putFile path (.text text))

def append (path text : String) : Files Unit := do
  update (·.appendText path "")
  ask fun _ => Folder.checkText text
  update (·.appendText path text)

def makeFolders (path : String) : Files Unit := do
  let (result, f) := (← get).makeFolders path
  set f
  match result with
  | .ok _ => return ()
  | .error e => throw e

end Files

end Docsmith
