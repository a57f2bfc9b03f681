import Docsmith.Generate.Tasks
import Docsmith.Prompt.Listing

/-! # The listing of source files

Folders and the source files in them, indented by their depth. Hidden entries and folders without
source files are left out. A model trims the listing to what matters. -/

namespace Docsmith.Listing

def extensions : List String := [".c", ".cpp", ".h", ".hpp"]

def isSource (name : String) : Bool :=
  extensions.any (Text.endsWith · name)

def isHidden (name : String) : Bool :=
  Text.startsWith "." name

def withHead (indent name : String) (lines : List String) : List String :=
  if lines.isEmpty then [] else (indent ++ name) :: lines

def below (indent : String) : Folder → List String
  | .empty => []
  | .file name _ rest =>
    (if !isHidden name && isSource name then [indent ++ name] else []) ++ below indent rest
  | .folder name inner rest =>
    (if isHidden name then [] else withHead indent name (below (indent ++ "  ") inner))
      ++ below indent rest

def lines (root : Folder) (path indent : String) : Except Fault (List String) := do
  let place ← root.resolve path
  match root.entry? place with
  | some (.folder f) => return withHead indent (Path.base path) (below (indent ++ "  ") f)
  | some (.file _) => throw (.notAFolder path)
  | none => throw (.noSuchFile path)

end Docsmith.Listing

namespace Docsmith.Generate

def makeListing (p : Project) : Run Project := do
  let lines ← inFolder (Files.ask fun f => Listing.lines f p.sources "")
  let reply ← Run.talk do
    Talk.system Prompt.trimListing
    Talk.user (Text.join "\n" lines)
    Talk.ask id
  return { p with listing := some (Text.strip reply) }

end Docsmith.Generate
