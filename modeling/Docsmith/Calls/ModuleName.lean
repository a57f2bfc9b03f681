import Docsmith.Folder.Search

/-! # Names of modules

The name of a module is its path without the extension, with dots for slashes, from the outermost
folder above it that is a package, or from a given folder. -/

namespace Docsmith.Calls

def startFile : String := "__init__.py"

/-- The path of the module in a file: a start file stands for its folder. -/
def modulePath (file : String) : String :=
  if Path.base file == startFile then Path.dir file else Text.replace ".py" "" file

def packages (root : Folder) (folders : List String) : Except Fault (List (String × Bool)) :=
  folders.mapM fun d => do return (d, (← root.list d).contains startFile)

/-- The name of a module from its path and the folders above it, the nearest first. -/
def dotted (path : String) (above : List String) : String :=
  Text.join "." ((path :: above).reverse.map Path.base)

/-- Folders between the outermost package and the file count even if they are no packages. -/
def moduleName (root : Folder) (file : String) : Except Fault String := do
  let path := modulePath file
  let above ← packages root ((Path.ancestors path).takeWhile (· ≠ ""))
  let kept := (above.reverse.dropWhile (!·.2)).reverse
  return dotted path (kept.map Prod.fst)

def moduleNameFrom (top file : String) : Except Fault String :=
  let path := modulePath file
  let line := path :: Path.ancestors path
  if line.contains top then
    .ok (Text.join "." ((line.takeWhile (· ≠ top) ++ [top]).reverse.map Path.base))
  else .error .endless

/-! ## Files of a program -/

/-- The programs below a folder in order of their paths; the path of the folder may be a pattern. -/
def programs (root : Folder) (top : String) : Except Fault (List String) :=
  root.search (top ++ "/" ++ Folder.anyDepth ++ "/*.py")

end Docsmith.Calls
