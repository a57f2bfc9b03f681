import Docsmith.Fault
import Docsmith.Folder.Basic
import Docsmith.Path

/-! # Reading and writing files

Paths are looked up part by part: a part is a name, a stay (`.` or nothing) or a step up (`..`). A
path that starts with a slash leads to the root of the file system. -/

namespace Docsmith.Folder

/-- The name under which a working folder keeps what is known of the root of the file system. No
file has this name. -/
def rootName : String := "/"

/-- The name under which a working folder keeps what is known of the folder around it. -/
def aroundName : String := ".."

def shown (f : Folder) : Folder :=
  (f.erase rootName).erase aroundName

def startOf (path : String) : List String :=
  if Path.isAbsolute path then [rootName] else []

def isAround (place : List String) : Bool :=
  place.all (· == aroundName)

def up (place : List String) : List String :=
  if place == [rootName] then place
  else if isAround place then place ++ [aroundName]
  else place.dropLast

def trimmed (path : String) : String :=
  .ofList (Chars.trimRight (· == '/') path.toList)

def maxName : Nat := 255

def maxPath : Nat := 4095

def hasZero (s : String) : Bool :=
  s.toList.contains (Char.ofNat 0)

/-- A half of a character is reported with those that follow it directly. -/
def checkHalves (refused : Nat → Bool) (text : String) : Except Fault Unit :=
  let cs := text.toList
  let first := (cs.takeWhile fun c => !(Chars.half? c).any refused).length
  match (cs.drop first).takeWhile fun c => (Chars.half? c).isSome with
  | [] => .ok ()
  | c :: row => .error (.halfCharacters first (first + row.length) ((Chars.half? c).getD 0))

def checkText (text : String) : Except Fault Unit :=
  checkHalves (fun _ => true) text

/-- Whether a half of a character can stand in a path: it stands for a byte there. -/
def isByteHalf (unit : Nat) : Bool :=
  0xdc80 ≤ unit && unit < 0xdd00

def checkSpelling (s : String) : Except Fault Unit := do
  checkHalves (!isByteHalf ·) s
  if hasZero s then .error .zeroInPath

def checkPath (path : String) : Except Fault Unit := do
  checkSpelling path
  if path.utf8ByteSize > maxPath then .error (.nameTooLong path)
  else if path.isEmpty then .error (.noSuchFile path)

/-- Follows the parts of a path from `here`. Every part but the last names a folder; the last may be
missing. -/
def follow (root : Folder) (path : String) : List String → List String → Except Fault (List String)
  | here, [] => .ok here
  | here, p :: ps =>
    if p.isEmpty || p == "." then follow root path here ps
    else if p == ".." then follow root path (up here) ps
    else if p.utf8ByteSize > maxName then .error (.nameTooLong path)
    else
      let there := here ++ [p]
      if ps.isEmpty then .ok there
      else
        match root.get? there with
        | some (.folder _) => follow root path there ps
        | some (.file _) => .error (.notAFolder path)
        | none => .error (.noSuchFile path)

def resolve (root : Folder) (path : String) : Except Fault (List String) := do
  checkPath path
  follow root path (startOf path) (Path.parts path)

/-- The root of the file system and the folders around the working folder are there, even if nothing
is known of them. -/
def entry? (root : Folder) (place : List String) : Option Entry :=
  (root.get? place).or
    (if place == [rootName] || isAround place then some (.folder .empty) else none)

def lookup? (root : Folder) (path : String) : Option Entry :=
  match root.resolve path with
  | .ok place => root.entry? place
  | .error _ => none

def pathExists (root : Folder) (path : String) : Bool :=
  (root.lookup? path).isSome

def isFolderAt (root : Folder) (path : String) : Bool :=
  match root.lookup? path with
  | some (.folder _) => true
  | _ => false

def isFileAt (root : Folder) (path : String) : Bool :=
  match root.lookup? path with
  | some (.file _) => true
  | _ => false

def contentAt (root : Folder) (path : String) : Except Fault Content := do
  let place ← root.resolve path
  match root.entry? place with
  | some (.file c) => if Text.endsWith "/" path then .error (.notAFolder path) else .ok c
  | some (.folder _) => .error (.isAFolder path)
  | none => .error (.noSuchFile path)

def readText (root : Folder) (path : String) : Except Fault String := do
  match ← root.contentAt path with
  | .text s => .ok (Text.unifyBreaks s)
  | .bytes bs =>
    match Utf8.flaw? bs with
    | some flaw => .error (.notText flaw)
    | none => .ok (Text.unifyBreaks ((String.fromUTF8? ⟨bs.toArray⟩).getD ""))

def list (root : Folder) (path : String) : Except Fault (List String) := do
  let place ← root.resolve path
  match root.entry? place with
  | some (.folder f) => .ok f.shown.names
  | some (.file _) => .error (.notAFolder path)
  | none => .error (.noSuchFile path)

/-! ## Writing -/

/-- The place at which a file can be written under a path. A path that ends in a slash names a
folder. -/
def writable (root : Folder) (path : String) : Except Fault (List String) := do
  let place ← root.resolve (if (trimmed path).isEmpty then path else trimmed path)
  match root.entry? place with
  | some (.folder _) => .error (.isAFolder path)
  | _ => if Text.endsWith "/" path then .error (.isAFolder path) else .ok place

def putFile (root : Folder) (path : String) (content : Content) : Except Fault Folder := do
  return root.set (.file content) (← root.writable path)

def appendContent (c : Content) (text : String) : Content :=
  match c with
  | .text s => .text (s ++ text)
  | .bytes bs => .bytes (bs ++ text.toUTF8.toList)

def appendText (root : Folder) (path text : String) : Except Fault Folder := do
  let place ← root.writable path
  match root.get? place with
  | some (.file c) => return root.set (.file (appendContent c text)) place
  | _ => return root.set (.file (.text text)) place

/-- The first `used` bytes of the path are passed. Folders made before a failure stay. -/
def makeAlong (root : Folder) (path : String) (used : Nat) :
    List String → List String → Except Fault Unit × Folder
  | _, [] => (.ok (), root)
  | here, p :: ps =>
    let next := used + p.utf8ByteSize + 1
    if p.isEmpty || p == "." then makeAlong root path next here ps
    else if p == ".." then makeAlong root path next (up here) ps
    else
      match checkSpelling p with
      | .error e => (.error e, root)
      | .ok _ =>
        if p.utf8ByteSize > maxName || next > maxPath + 1 then (.error (.nameTooLong path), root)
        else
          let there := here ++ [p]
          match root.get? there with
          | some (.folder _) => makeAlong root path next there ps
          | some (.file _) =>
            match ps.find? (!·.isEmpty) with
            | none => (.error (.fileInTheWay path), root)
            | some q => (checkSpelling q *> .error (.notAFolder path), root)
          | none => makeAlong (root.set (.folder .empty) there) path next there ps

def missing (root : Folder) : List String → List String → Nat
  | _, [] => 0
  | here, p :: ps =>
    if p.isEmpty || p == "." then missing root here ps
    else if p == ".." then missing root (up here) ps
    else
      match root.get? (here ++ [p]) with
      | some _ => missing root (here ++ [p]) ps
      | none => ((p :: ps).filter (!·.isEmpty)).length

def maxLevels : Nat := 985

def makeFolders (root : Folder) (path : String) : Except Fault Unit × Folder :=
  if path.isEmpty then (.error (.noSuchFile path), root)
  else
    let parts := Path.parts (trimmed path)
    if root.missing (startOf path) parts > maxLevels then (.error .tooManyLevels, root)
    else makeAlong root path 0 (startOf path) parts

def listing (f : Folder) : List (String × Option Content) :=
  (f.shown.leaves []).map fun (path, c) => (Text.join "/" path, c)

def ofFiles (files : List (String × Content)) (folders : List String) : Folder :=
  let place (p : String) := (Path.collapse true [] (Path.parts p)).reverse
  let f := folders.foldl
    (fun f d => if (f.get? (place d)).isSome then f else f.set (.folder .empty) (place d)) .empty
  files.foldl (fun f (p, c) => f.set (.file c) (place p)) f

end Docsmith.Folder
