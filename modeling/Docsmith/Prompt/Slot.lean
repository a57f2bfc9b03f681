import Docsmith.Fault

/-! # Templates

`fill` replaces one slot by a text wherever it stands, in texts filled in before too; `fillAll`
replaces all slots of a template at once. -/

namespace Docsmith.Prompt

def slot (name : String) : String :=
  "\x7b" ++ name ++ "\x7d"

/-- A template by its first text and its slots, each with the text after it. -/
def template (first : String) (slots : List (String × String)) : String :=
  first ++ Text.join "" (slots.map fun s => slot s.1 ++ s.2)

def fill (name value template : String) : String :=
  Text.replace (slot name) value template

def fillPiece (values : List (String × String)) (piece : String) : String :=
  match Text.breakOn "\x7d" piece with
  | some (name, rest) => (values.lookup name).getD "" ++ rest
  | none => piece

def fillAll (values : List (String × String)) (template : String) : String :=
  match Text.splitOn "\x7b" template with
  | [] => ""
  | first :: pieces => first ++ Text.join "" (pieces.map (fillPiece values))

def quote (mark text : String) : Except Fault String :=
  match Text.markLines? mark text with
  | some t => .ok t
  | none => .error .nothingToQuote

def mark : String := "> "

def quoteLines (text : String) : String :=
  Text.join "\n" ((Text.splitOn "\n" text).map (mark ++ ·))

def quoteLetters (text : String) : String :=
  Text.join "\n" (text.toList.map fun c => mark ++ c.toString)

def guideline : String :=
  "Keep in mind that your audience is document readers, so use a deterministic tone to "
    ++ "generate precise content and don't let them know you're provided with code snippet and "
    ++ "documents. AVOID ANY SPECULATION and inaccurate descriptions! Now, provide the "
    ++ "documentation for the target object in a professional way."

def rule : String := "\n---\n"

/-! ## Wordings that prompts share -/

def workflow : String := "You'd better consider the following workflow:\n"

def formatNote : String :=
  "The standard format is in the Markdown reference paragraph below, and you do not need "
    ++ "to write the reference symbols `>` when you output:\n"

def sameFormat : String :=
  "The improved README should keep the same format as before. To ensure the same format, "
    ++ "you should follow the standard format in the Markdown reference paragraph below. You do "
    ++ "not need to write the reference symbols `>` when you output:\n\n"

def fixedHeadings (like : String) : String :=
  "- The Level 4 headings in the format like `#### " ++ like ++ "` are fixed, don't change or "
    ++ "translate them."

def noHeadings : String :=
  "- Don't add new Level 3 or Level 4 headings. Do not write anything outside the format"

end Docsmith.Prompt
