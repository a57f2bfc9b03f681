import Docsmith.Build.Script
import Docsmith.Facts.Reading
import Docsmith.Facts.Sketch

/-! # Analysis with a compiler

A project is built once under watch of its compile commands, the compiler dumps its syntax trees,
and a helper turns the dumps into facts. -/

namespace Docsmith.Facts

def copyInto (path folder : String) : Files Unit := do
  let c ← Files.ask (·.contentAt path)
  let goal := if (← get).isFolderAt folder then Path.join folder (Path.base path) else folder
  Files.update (·.putFile goal c)

def moveInto (path folder : String) : Files Unit := do
  match (← get).lookup? path with
  | none => throw (.noSuchFile path)
  | some entry =>
    let goal := Path.join folder (Path.base path)
    if ← Files.pathExists goal then throw .alreadyThere
    Files.update fun f => do
      let source ← f.resolve path
      let goal ← f.resolve goal
      return (f.set entry goal).remove source

def configure? (f : Folder) (sources : String) : Option String :=
  let has name := f.pathExists (Path.join sources name)
  if has "configure" then some "./configure"
  else if has "Configure" then some "./Configure"
  else if has "CMakeLists.txt" then
    some "cmake -DCMAKE_BUILD_TYPE=Release -DLLVM_PREFIX=/lib/llvm-9 ."
  else none

def prepare (output sources : String) : Run Unit := do
  if ← inFolder (Files.pathExists output) then return
  match configure? (← get).folder sources with
  | some command => Run.command command sources
  | none => pure ()
  unless ← inFolder (Files.pathExists (Path.join sources "Makefile")) do throw .noMakefile
  Run.command "bear make -j`nproc`" sources
  Build.writeScript sources
  Run.command "chmod +x buildast.sh" sources
  Run.command "./buildast.sh" sources
  inFolder (copyInto (Path.join "lib" "cge") sources)
  Run.command "./cge astList.txt" sources
  inFolder (Files.makeFolders output)
  for name in ["structs.json", "typedefs.json", "functions.json", "records.json", "cg.dot"] do
    inFolder (moveInto (Path.join sources name) output)

/-- The drawing of the call graph. What is wrong with its text is printed. -/
def readDrawing (output : String) : Run Drawing := do
  match ← Run.ofExcept (Sketch.read (← inFolder (Files.read (Path.join output "cg.dot")))) with
  | .ok sketch => Run.ofExcept sketch.drawing
  | .error complaint =>
    Run.print complaint
    throw .badDrawing

def analyse (output sources : String) : Run (Catalog Routine × Catalog Record) := do
  prepare output sources
  let aliases ← readAliases output sources
  let routines ← readRoutines output sources
  let calls := callGraph routines (← readDrawing output)
  let records ← readRecords output sources calls aliases
  return (calls, recordGraph records aliases)

end Docsmith.Facts
