import Docsmith.Document
import Docsmith.Files

/-! # The store of documents

Documents are kept in files, one chapter after the other; a new document goes to the end of its
file. -/

namespace Docsmith.Store

variable {δ : Type} [Document δ]

def prepare (file : String) : Files Unit :=
  if Path.dir file == "" then pure () else Files.makeFolders (Path.dir file)

/-- Adds a document to a file. The file is made before the document is written, so it is there even
if that fails. -/
def save (file : String) (d : δ) : Files Unit := do
  prepare file
  Files.append file ""
  let text ← Files.ask fun _ => Document.markdown d
  Files.append file (text ++ "\n")

/-- Adds a document to a file if there is one. If there is none the file is made all the same. -/
def saveOption (file : String) (d : Option δ) : Files Unit := do
  match d with
  | some d => save file d
  | none =>
    prepare file
    Files.append file ""
    throw .noDocument

def loadAll (δ : Type) [Document δ] (file : String) : Files (List δ) := do
  if ← Files.pathExists file then
    let text ← Files.read file
    Files.ask fun _ => Document.ofText text
  else return []

def load? (δ : Type) [Document δ] (name file : String) : Files (Option δ) := do
  return (← loadAll δ file).find? fun d => Document.name d == name

end Docsmith.Store
