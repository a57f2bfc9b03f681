import Docsmith.Files

/-! # Archives

An archive is a list of members, each with the path it had when it was packed. Unpacking leaves out
the chain of single folders that everything in it often lies in. -/

namespace Docsmith

inductive Packing where
  | zip
  | tar
deriving Repr, DecidableEq

/-- A folder has no content. -/
structure Member where
  name : String
  content : Option Content
deriving Repr, DecidableEq

structure Archive where
  packing : Packing
  members : List Member
deriving Repr, DecidableEq

namespace Archive

/-! ## Recognising an archive -/

def emptyZip : List UInt8 :=
  [0x50, 0x4b, 0x05, 0x06] ++ List.replicate 18 0

/-- Of the archives with nothing in them, a zip archive is its closing record and a tape archive
starts with a block of zeros. -/
def ofBytes? (bytes : List UInt8) : Option Archive :=
  let block := bytes.take 512
  if bytes = emptyZip then some ⟨.zip, []⟩
  else if block.length = 512 ∧ block.all (· == 0) then some ⟨.tar, []⟩
  else none

/-! ## Members -/

def names (a : Archive) : List String :=
  a.members.map Member.name

/-- Of two members with one name the later counts. On tape, slashes at the end of a name do not
matter. -/
def find? (a : Archive) (name : String) : Option Member :=
  let key := match a.packing with
    | .zip => name
    | .tar => Folder.trimmed name
  a.members.reverse.find? (·.name == key)

def find (a : Archive) (name : String) : Except Fault Member :=
  match a.find? name with
  | some m => .ok m
  | none => .error (.unknownName name)

def isFolder (packing : Packing) (m : Member) : Bool :=
  match packing with
  | .zip => Text.endsWith "/" m.name
  | .tar => m.content.isNone

/-- What the member of a name holds. In a zip archive a folder holds nothing; on tape it cannot be
read. -/
def read (a : Archive) (name : String) : Except Fault Content := do
  match (← a.find name).content, a.packing with
  | some c, _ => return c
  | none, .zip => return .text ""
  | none, .tar => throw .notReadable

/-- Of a folder in a zip archive, of anything on tape. -/
def isTop (packing : Packing) (name : String) : Bool :=
  match packing with
  | .zip => Text.endsWith "/" name && (Path.parts name).length == 2
  | .tar => (Path.parts name).length == 1

/-- What comes before a character zero. Only on tape are names that are long or not in ASCII kept
whole, but for slashes at their end. -/
def keptName (packing : Packing) (name : String) : String :=
  if packing == .tar && (name.length > 100 || name.toList.any (·.toNat ≥ 128)) then
    Folder.trimmed name
  else .ofList (name.toList.takeWhile (·.toNat ≠ 0))

def top (a : Archive) : String :=
  match a.names.filter (isTop a.packing) with
  | [name] => name
  | _ => ""

/-! ## Unpacking -/

/-- Zip archives cannot lead out of the folder. -/
def target (packing : Packing) (folder : String) (name : String) : String :=
  match packing with
  | .zip =>
    let kept := (Path.parts name).filter fun p => !(p.isEmpty || p == "." || p == "..")
    Path.normalize (Path.join folder (Text.join "/" kept))
  | .tar => Folder.trimmed (Path.join folder name)

def place (packing : Packing) (folder : String) (m : Member) : Files Unit := do
  let path := target packing folder m.name
  let above := Path.dir path
  unless above.isEmpty || (← Files.pathExists above) do Files.makeFolders above
  if isFolder packing m then Files.makeFolders path
  else Files.update (·.putFile path (m.content.getD (.text "")))

/-- In a zip archive a name always stands for its last member. -/
def placeAll (a : Archive) (folder : String) : Files Unit :=
  a.members.forM fun m =>
    match a.packing with
    | .zip => place .zip folder ((a.find? m.name).getD m)
    | .tar => place .tar folder m

def scratch : String := "tmp"

def contents (a : Archive) : Except Fault Folder :=
  let start := Folder.empty.put scratch (.folder .empty)
  match (a.placeAll scratch).run.run start with
  | (.ok _, f) => .ok (f.sub scratch)
  | (.error e, _) => .error e

/-- The innermost folder that everything in a folder of the given name lies in, with its name. -/
def unwrap (name : String) : Folder → String × Folder
  | .folder n inner .empty => unwrap n inner
  | f => (name, f)

/-- Where a folder stands the file goes into that one, under its own name; the second part tells
whether it could not be put there. -/
def pourFile (f : Folder) (name : String) (c : Content) : Folder × Bool :=
  match f.find? name with
  | some (.folder g) =>
    match g.find? name with
    | some (.folder _) => (f, true)
    | _ => (f.put name (.folder (g.put name (.file c))), false)
  | _ => (f.put name (.file c), false)

/-- Puts the entries of the second folder into the first; the second part tells whether something
was left out. -/
def pour (f : Folder) : Folder → Folder × Bool
  | .empty => (f, false)
  | .file n c rest =>
    let (f, failed) := pourFile f n c
    let (f, more) := pour f rest
    (f, failed || more)
  | .folder n inner rest =>
    let there := (f.find? n).isSome
    let (f, more) := pour (if there then f else f.put n (.folder inner)) rest
    (f, there || more)

/-- Moves a folder to a path, or into the folder there under its own name. A path that leads back to
something through folders that are missing is in the way, but for one that ends in a dot, where the
entries of the folder go. -/
def moveTo (name : String) (inner : Folder) (path : String) : Files Unit := do
  Files.ask fun _ => Folder.checkSpelling path
  let before ← get
  if before.isFolderAt path then
    let goal := Path.join path name
    if ← Files.pathExists goal then throw .alreadyThere
    Files.makeFolders goal
    Files.update fun f => return f.set (.folder inner) (← f.resolve goal)
  else
    Files.makeFolders path
    let place ← Files.ask (·.resolve (Folder.trimmed path))
    let old := before.entry? place
    if old.isNone then modify (·.set (.folder inner) place)
    else if Path.base (Folder.trimmed path) == "." then
      let now ← get
      match now.entry? place with
      | some (.folder there) =>
        let (poured, failed) := pour there inner
        modify (·.set (.folder poured) place)
        if failed then throw .notCopied
      | _ => throw (.fileInTheWay path)
    else throw (.fileInTheWay path)

def unpack (a : Archive) (path : String) : Files Unit := do
  let inner ← Files.ask fun _ => a.contents
  let (name, inner) := unwrap scratch inner
  moveTo name inner path

/-- If one name is at the top of the archive, it is left out of the path of the member, wherever it
occurs. -/
def unpackMember (a : Archive) (name path : String) : Files Unit := do
  if a.top.isEmpty then
    place a.packing path (← Files.ask fun _ => a.find name)
  else
    let goal := Path.join path (Text.replace a.top "" name)
    Files.makeFolders (Path.dir goal)
    match a.packing with
    | .zip =>
      Files.write goal ""
      let c ← Files.ask fun _ => a.read name
      Files.update (·.putFile goal c)
    | .tar =>
      match (← Files.ask fun _ => a.find name).content with
      | some c => Files.update (·.putFile goal c)
      | none => throw .notAFile

end Archive

end Docsmith
