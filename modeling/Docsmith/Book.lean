import Docsmith.Files

/-! # The book of the documents

A folder of documents becomes a book by a summary, which lists the folders and files from the top
down, and a front page. -/

namespace Docsmith.Book

def fileNames : Folder → List String
  | .empty => []
  | .file name _ rest => name :: fileNames rest
  | .folder _ _ rest => fileNames rest

/-- The folders below the folder of a path, each before those in it, with their paths and files. -/
def below (path : String) : Folder → List (String × List String)
  | .empty => []
  | .file _ _ rest => below path rest
  | .folder name inner rest =>
    (Path.join path name, fileNames inner) :: below (Path.join path name) inner ++ below path rest

def walk (path : String) (f : Folder) : List (String × List String) :=
  (path, fileNames f) :: below path f

/-! ## The summary -/

def isLeading (name : String) : Bool :=
  Text.contains "modules.md" name || Text.contains "cares.md" name

/-- The order of files in a folder: leading ones first, then by their names whatever the case of the
letters. -/
def inOrder (a b : String) : Bool :=
  if isLeading a == isLeading b then !(Text.lower b < Text.lower a) else isLeading a

/-- A name without its extension, which is taken to have three characters. -/
def shortName (name : String) : String :=
  .ofList (name.toList.take (name.length - 3))

def fileLine (folder name : String) : String :=
  if folder.isEmpty then "* [" ++ shortName name ++ "](" ++ name ++ ")\n"
  else Text.times (Path.parts folder).length "  " ++ "* [" ++ shortName name ++ "]("
    ++ Path.join folder name ++ "\n"

def folderLine (folder : String) : String :=
  if folder.isEmpty then ""
  else Text.times ((Path.parts folder).length - 1) "  " ++ "* [" ++ folder ++ "]\n"

def folderLines (folder : String) (files : List String) : String :=
  folderLine folder ++ Text.join "" ((files.mergeSort inOrder).map (fileLine folder))

/-- Folders are named by what follows the path and the character after it. -/
def summary (path : String) (f : Folder) : String :=
  let inner (folder : String) := String.ofList (folder.toList.drop (path.length + 1))
  "# Summary\n" ++ Text.join "" ((walk path f).map fun (folder, files) =>
    folderLines (inner folder) files)

def frontPage (path : String) : String :=
  "### " ++ Path.base path ++ "\n"

def write (path : String) : Files Unit := do
  let text := match (← get).lookup? path with
    | some (.folder f) => summary path f.shown
    | _ => "# Summary\n"
  Files.write (Path.join path "SUMMARY.md") text
  Files.write (Path.join path "README.md") (frontPage path)

end Docsmith.Book
