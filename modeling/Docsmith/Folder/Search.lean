import Docsmith.Chars.Pattern
import Docsmith.Folder.Files

/-! # Searching for paths

A path whose parts are patterns leads to all entries whose names fit part by part; the part `**`
leads to a folder and all folders below it. Hidden names have to be asked for by a dot. -/

namespace Docsmith.Folder

def anyDepth : String := "**"

def isPattern (s : String) : Bool :=
  Chars.isPattern s.toList

def isHidden (name : String) : Bool :=
  Text.startsWith "." name

/-- Nothing if there is no such folder. The empty path is that of the working folder. -/
def entriesAt (root : Folder) (path : String) : Except Fault Folder := do
  if path.isEmpty then return root.shown
  checkSpelling path
  match root.lookup? path with
  | some (.folder f) => return f.shown
  | _ => return .empty

/-- The paths of the folders below a folder, hidden ones left out; each path starts with `start`. -/
def foldersBelow (start : String) : Folder → List String
  | .empty => []
  | .file _ _ rest => foldersBelow start rest
  | .folder name inner rest =>
    (if isHidden name then [] else (start ++ name) :: foldersBelow (start ++ name ++ "/") inner)
      ++ foldersBelow start rest

def fitting (pattern : String) (onlyFolders : Bool) (f : Folder) : List String :=
  (f.entries.filter fun (name, entry) =>
    (!onlyFolders || entry.isFolder) && (isHidden pattern || !isHidden name)
      && Chars.fitsPattern pattern.toList name.toList).map Prod.fst

def onward (root : Folder) (path part : String) (onlyFolders : Bool) :
    Except Fault (List String) := do
  if part == anyDepth then return "" :: foldersBelow "" (← root.entriesAt path)
  else if isPattern part then return fitting part onlyFolders (← root.entriesAt path)
  else if part.isEmpty then return if root.isFolderAt path then [part] else []
  else return if root.pathExists (Path.join path part) then [part] else []

def searchFrom (root : Folder) : Nat → String → Bool → Except Fault (List String)
  | 0, _, _ => .ok []
  | fuel + 1, path, onlyFolders => do
    let above := Path.dir path
    let part := Path.base path
    if !isPattern path then
      return if root.pathExists path then [path] else []
    else
      let starts ← if above != path && isPattern above then searchFrom root fuel above true
        else pure [above]
      let found ← starts.mapM fun start => do
        return (← root.onward start part onlyFolders).map (Path.join start)
      return found.flatten

def search (root : Folder) (path : String) : Except Fault (List String) := do
  return (← searchFrom root (path.length + 1) path false).mergeSort fun a b => !(b < a)

end Docsmith.Folder
