import Docsmith.CommandLine

/-! # The program

Reads the working folder, runs the command line on it and writes back what changed. -/

namespace Docsmith.Program

def contentOf (bytes : ByteArray) : Content :=
  match String.fromUTF8? bytes with
  | some s => .text s
  | none => .bytes bytes.toList

def bytesOf : Content → ByteArray
  | .text s => s.toUTF8
  | .bytes bs => ⟨bs.toArray⟩

partial def readEntries (entries : Array IO.FS.DirEntry) : IO Folder :=
  entries.foldlM (fun f e => do
    if ← e.path.isDir then
      return f.put e.fileName (.folder (← readEntries (← e.path.readDir)))
    else
      return f.put e.fileName (.file (contentOf (← IO.FS.readBinFile e.path)))) .empty

def writeBack (old new : Folder) : IO Unit := do
  let here ← IO.currentDir
  let was := old.listing
  let is := new.listing
  for (path, content) in was do
    if content.isSome && !is.any (·.1 == path) then IO.FS.removeFile (here / path)
  for (path, content) in is do
    match content with
    | none => IO.FS.createDirAll (here / path)
    | some c =>
      if !was.any (· == (path, some c)) then
        let goal := here / path
        if let some above := goal.parent then IO.FS.createDirAll above
        IO.FS.writeBinFile goal (bytesOf c)

/-- No parser and no model are linked in, so that programs cannot be read and questions stay
open. -/
def run (args : List String) : IO UInt32 := do
  let here ← IO.currentDir
  let folder ← readEntries (← here.readDir)
  let start : World := { folder, here := here.toString }
  let (result, w) := (CommandLine.run (fun _ => none) args).run.run start
  IO.print w.printed
  writeBack folder w.folder
  match result with
  | .ok _ => pure ()
  | .error (.stopped 2) => IO.eprint CommandLine.usage
  | .error f => IO.eprintln f.message
  return (CommandLine.exitCode result).toUInt32

end Docsmith.Program

def main (args : List String) : IO UInt32 :=
  Docsmith.Program.run args
