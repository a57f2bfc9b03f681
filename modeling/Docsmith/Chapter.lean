import Docsmith.Fault

/-! # Chapters of Markdown

A chapter starts at a heading of level three and has sections under headings of level four, found by
their marks alone, wherever they stand in a line. -/

namespace Docsmith.Chapter

/-- The first chapter starts at the first mark of level three, the others at such a mark and a blank
at the start of a line. -/
def split (text : String) : List String :=
  match Text.breakOn "###" text with
  | none => []
  | some (_, rest) =>
    match Text.splitOn "\n### " rest with
    | [] => []
    | first :: others => ("###" ++ first) :: others.map ("### " ++ ·)

def title? (text : String) : Option (String × String) := do
  let (_, rest) ← Text.breakOn "### " text
  let (title, block) ← Text.breakOn "\n" rest
  return (Text.strip title, Text.before "\n### " block)

def section? (header block : String) : Option String := do
  let (_, rest) ← Text.breakOn ("#### " ++ header) block
  return Text.strip (Text.before "####" rest)

/-- The items of a list in Markdown: its lines without marks and blanks around them, empty ones left
out. -/
def items (list : String) : List String :=
  ((Text.splitLines list).map (Text.stripOf ['-', ' '])).filter (!·.isEmpty)

def bullets (items : List String) : String :=
  Text.join "\n" (items.map ("- " ++ ·))

def writeSection (header text : String) : String :=
  "#### " ++ header ++ "\n" ++ text ++ "\n\n"

def writeSection? (header : String) (text : Option String) : String :=
  match text with
  | some t => writeSection header t
  | none => ""

def writeItems? (header : String) (items : Option (List String)) : String :=
  match items with
  | none | some [] => ""
  | some items => writeSection header (bullets items)

def head (name description : String) : String :=
  "### " ++ name ++ "\n" ++ writeSection "Description" description

def itemsOf (header block : String) : Except Fault (List String) :=
  match section? header block with
  | some text => .ok (items text)
  | none => .error (.noSection header)

end Docsmith.Chapter
