import Docsmith.Text

/-! # Paths

A path is a text whose parts are separated by slashes. These functions look at the text alone;
`Docsmith.Folder` looks paths up. -/

namespace Docsmith.Path

def parts (p : String) : List String :=
  Text.splitOn "/" p

def isAbsolute (p : String) : Bool :=
  Text.startsWith "/" p

def base (p : String) : String :=
  .ofList (p.toList.reverse.takeWhile (· ≠ '/')).reverse

/-- The path before the last part, without the slashes that end it unless it has nothing else. -/
def dir (p : String) : String :=
  let head := (p.toList.reverse.dropWhile (· ≠ '/')).reverse
  if head.all (· == '/') then .ofList head else .ofList (Chars.trimRight (· == '/') head)

/-- The folders above a path from the nearest on, up to one that is its own, at most `n` of them. -/
def above (n : Nat) (p : String) : List String :=
  match n with
  | 0 => []
  | n + 1 => if dir p == p then [] else dir p :: above n (dir p)

def ancestors (p : String) : List String :=
  above (p.length + 1) p

def join (p q : String) : String :=
  if isAbsolute q then q
  else if p.isEmpty || Text.endsWith "/" p then p ++ q
  else p ++ "/" ++ q

def stem (name : String) : String :=
  let cs := name.toList.reverse
  let tail := cs.takeWhile (· ≠ '.')
  match cs.drop tail.length with
  | [] => name
  | _ :: front => if front.all (· == '.') then name else .ofList front.reverse

/-- At the root `..` stays there; elsewhere a leading one is kept. -/
def collapse (rooted : Bool) : List String → List String → List String
  | acc, [] => acc
  | acc, p :: ps =>
    if p.isEmpty || p == "." then collapse rooted acc ps
    else if p == ".." then
      match acc with
      | [] => collapse rooted (if rooted then [] else [".."]) ps
      | top :: rest => collapse rooted (if top == ".." then ".." :: acc else rest) ps
    else collapse rooted (p :: acc) ps

/-- The shortest path to the same place, by its text. Two slashes at the start are kept, as the
standard asks. -/
def normalize (p : String) : String :=
  let rooted := isAbsolute p
  let lead := if Text.startsWith "//" p && !Text.startsWith "///" p then "//"
    else if rooted then "/" else ""
  let body := Text.join "/" (collapse rooted [] (parts p)).reverse
  if lead.isEmpty && body.isEmpty then "." else lead ++ body

def absolute (here p : String) : String :=
  normalize (join here p)

end Docsmith.Path
