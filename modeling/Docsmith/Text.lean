import Docsmith.Chars.Blank
import Docsmith.Chars.Case
import Docsmith.Chars.Lines
import Docsmith.Chars.Quoted
import Docsmith.Chars.Search

/-! # Text

The operations on strings that the rest of the library uses, each the lifting of an operation on
lists of characters. -/

namespace Docsmith.Text

def strip (s : String) : String :=
  .ofList (Chars.strip s.toList)

def stripOf (chars : List Char) (s : String) : String :=
  .ofList (Chars.trim chars.contains s.toList)

def splitLines (s : String) : List String :=
  (Chars.splitLines s.toList).map String.ofList

def keepLines (s : String) : List String :=
  (Chars.keepLines s.toList).map String.ofList

def unifyBreaks (s : String) : String :=
  .ofList (Chars.unifyBreaks s.toList)

def replace (pat rep s : String) : String :=
  .ofList (Chars.replace pat.toList rep.toList s.toList)

def splitOn (sep s : String) : List String :=
  (Chars.splitOn sep.toList s.toList).map String.ofList

def breakOn (pat s : String) : Option (String × String) :=
  (Chars.breakOn pat.toList s.toList).map fun (b, a) => (.ofList b, .ofList a)

def before (pat s : String) : String :=
  .ofList (Chars.before pat.toList s.toList)

def contains (pat s : String) : Bool :=
  Chars.contains pat.toList s.toList

def startsWith (pat s : String) : Bool :=
  pat.toList.isPrefixOf s.toList

def endsWith (pat s : String) : Bool :=
  pat.toList.reverse.isPrefixOf s.toList.reverse

def dropStart (pat s : String) : String :=
  if startsWith pat s then .ofList (s.toList.drop pat.toList.length) else s

def upper (s : String) : String :=
  .ofList (Chars.upper s.toList)

def lower (s : String) : String :=
  .ofList (Chars.lower s.toList)

def quoted (s : String) : String :=
  .ofList (Chars.quoted s.toList)

def join (sep : String) : List String → String
  | [] => ""
  | s :: rest => rest.foldl (fun done t => done ++ sep ++ t) s

@[simp] theorem join_nil (sep : String) : join sep [] = "" := rfl

@[simp] theorem join_singleton (sep s : String) : join sep [s] = s := rfl

theorem foldl_join (sep a b : String) (rest : List String) :
    rest.foldl (fun done t => done ++ sep ++ t) (a ++ b)
      = a ++ rest.foldl (fun done t => done ++ sep ++ t) b := by
  induction rest generalizing b with
  | nil => rfl
  | cons t rest ih =>
    simp only [List.foldl_cons]
    rw [← ih, String.append_assoc, String.append_assoc, String.append_assoc]

theorem join_cons_cons (sep s t : String) (rest : List String) :
    join sep (s :: t :: rest) = s ++ sep ++ join sep (t :: rest) :=
  foldl_join sep (s ++ sep) t rest

def times (n : Nat) (s : String) : String :=
  join "" (List.replicate n s)

def dropLast (sep : String) (n : Nat) (s : String) : String :=
  let pieces := splitOn sep s
  join sep (pieces.take (max 1 (pieces.length - n)))

/-- Puts `mark` before every line of a text and a line feed after it. A text without lines has no
such form. -/
def markLines? (mark s : String) : Option String :=
  match splitLines s with
  | [] => none
  | lines => some (join "" (lines.map fun line => mark ++ line ++ "\n"))

end Docsmith.Text
