import Docsmith.Files

/-! # Copying and removing folders

The entries of a folder are listed before the first one is copied, and the folders in it when it is
their turn, so a folder can be copied into itself. -/

namespace Docsmith.Folder

def size : Folder → Nat
  | .empty => 0
  | .file _ _ rest => rest.size + 1
  | .folder _ inner rest => inner.size + rest.size + 1

/-- Where a folder stands the file goes into that one; the second part tells whether it could not be
copied. -/
def copyFile (root : Folder) (source goal : List String) : Folder × Bool :=
  let goal := match root.get? goal with
    | some (.folder _) => goal ++ source.getLast?.toList
    | _ => goal
  if source == goal then (root, true)
  else
    match root.get? source, root.get? goal with
    | some (.file _), some (.folder _) => (root, true)
    | some (.file c), _ => (root.set (.file c) goal, false)
    | _, _ => (root, true)

/-- Makes a folder at a place unless one is there; the second part tells whether a file is in the
way. -/
def makeAt (root : Folder) (goal : List String) : Folder × Bool :=
  match root.get? goal with
  | some (.folder _) => (root, false)
  | some (.file _) => (root, true)
  | none => (root.set (.folder .empty) goal, false)

/-- Copies one name after the other; the second part tells whether something could not be copied. -/
def copyEach (copy : Folder → String → Folder × Bool) (root : Folder) (names : List String) :
    Folder × Bool :=
  names.foldl (fun (root, failed) name =>
    let (root, more) := copy root name
    (root, failed || more)) (root, false)

/-- Copies folder by folder down to the given depth; the second part tells whether something could
not be copied. -/
def copyFrom (root : Folder) (source goal : List String) : Nat → Folder × Bool
  | 0 => (root, true)
  | depth + 1 =>
    match root.get? source with
    | some (.folder inner) =>
      let (made, blocked) := root.makeAt goal
      if blocked then (root, true)
      else
        copyEach (fun root name => copyFrom root (source ++ [name]) (goal ++ [name]) depth) made
          inner.names
    | some (.file _) => root.copyFile source goal
    | none => (root, true)

end Docsmith.Folder

namespace Docsmith.Files

def folderPlace (path : String) : Files (List String) :=
  ask fun f => do
    let place ← f.resolve path
    match f.get? place with
    | some (.folder _) => return place
    | some (.file _) => throw (.notAFolder path)
    | none => throw (.noSuchFile path)

def copyTree (path goal : String) : Files Unit := do
  let source ← folderPlace path
  let names ← ask (·.list path)
  let depth := 2 * (← get).size + 2
  makeFolders goal
  let goal ← folderPlace goal
  let (f, failed) := Folder.copyEach
    (fun f name => f.copyFrom (source ++ [name]) (goal ++ [name]) depth) (← get) names
  set f
  if failed then throw .notCopied

/-- The folder is emptied first; a path that led through what was in it does not name it any more,
and one that ends in a dot cannot be removed. -/
def removeTree (path : String) : Files Unit := do
  let place ← folderPlace path
  modify fun f => f.set (.folder .empty) place
  let place ← folderPlace path
  if Path.base path == "." then throw (.notRemovable path)
  modify fun f => f.remove place

end Docsmith.Files
