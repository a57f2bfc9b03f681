import Docsmith.Document
import Docsmith.Definition
import Docsmith.Prompt.Slot

/-! # Prompts for documents on routines

A template whose slots are filled one after the other, in the order of the calls. -/

namespace Docsmith.Prompt

def routineOpening : String :=
  "\n"
    ++ ("You are an AI documentation assistant, and your task is to generate documentation based "
    ++ ("on the given code of an object.\n"
    ++ ("The purpose of the documentation is to help developers and beginners understand the "
    ++ ("function and specific usage of the code.\n"
    ++ "Now you need to generate a document for a Function, whose name is `"))))

def codeSlots : List (String × String) :=
  [("code_name", "`.\n" ++ ("\n" ++ ("The code of the Function is as follows:\n" ++ "```"))),
    ("lang", "\n"),
    ("code", "\n" ++ "```\n\n")]

def routineTask : String :=
  "Please generate a detailed explanation document for this Function based on the code of "
    ++ ("the target Function itself and combine it with its calling situation in the project.\n"
    ++ ("Please write out the function of this Function briefly followed by a detailed analysis "
    ++ "(including all details) to serve as the documentation for this part of the code.\n"))

def routineSlots : List (String × String) := codeSlots ++
  [("referenced", "\n"),
    ("referencer", "\n\n"
      ++ (routineTask
      ++ (formatNote
      ++ ("> #### Description\n"
      ++ "> Briefly describe the Function in one sentence.\n")))),
    ("parameters", "\n"
      ++ ("> #### Code Details\n"
      ++ "> Detailed and CERTAIN code analysis of the Function. ")),
    ("has_relationship", "\n" ++ ("> #### Example\n" ++ "> ```")),
    ("lang", "\n" ++ "> Mock possible usage examples of the Function with codes. "),
    ("example", "\n"
      ++ ("> ```\n"
      ++ ("Please note:\n"
      ++ (fixedHeadings "xxx" ++ ("\n" ++ (noHeadings ++ ".\n"))))))]

def routineTemplate : String :=
  template routineOpening routineSlots

def parameterLines : List String :=
  ["#### Parameters", "- Parameter1: XXX", "- Parameter2: XXX", "- ..."]

def markedLines (mark : String) (lines : List String) : String :=
  Text.join "" (lines.map fun l => mark ++ l ++ "\n")

structure RoutinePrompt where
  text : String := routineTemplate
  hasCallees : Bool := false
  hasCallers : Bool := false

namespace RoutinePrompt

def name (p : RoutinePrompt) (name : String) : RoutinePrompt :=
  { p with text := fill "code_name" name p.text }

def lang (p : RoutinePrompt) (lang : String) : RoutinePrompt :=
  { p with text := fill "lang" lang p.text }

def code (p : RoutinePrompt) (code : String) : RoutinePrompt :=
  { p with text := fill "code" code p.text }

def parameters (p : RoutinePrompt) (params : List Param) : RoutinePrompt :=
  let lines := if params.isEmpty then "" else markedLines mark parameterLines
  { p with text := fill "parameters" lines p.text }

def quoted (quote : String → String) (d : RoutineDoc) : String :=
  "**Method**: `" ++ d.name ++ "`\n\n**Document**:\n\n" ++ quote d.markdown ++ rule

def callees (p : RoutinePrompt) (docs : List RoutineDoc) : RoutinePrompt :=
  if docs.isEmpty then { p with text := fill "referenced" "" p.text }
  else
    { p with
      text := fill "referenced"
        ("As you can see, the code calls the following methods, their docs and code are as "
          ++ "following:\n\n" ++ Text.join "" (docs.map (quoted quoteLetters))) p.text,
      hasCallees := true }

def callers (p : RoutinePrompt) (docs : List RoutineDoc) : RoutinePrompt :=
  if docs.isEmpty then { p with text := fill "referencer" "" p.text }
  else
    { p with
      text := fill "referencer"
        ("Also, the code has been called by the following methods, their code and docs are as "
          ++ "following:\n" ++ Text.join "" (docs.map (quoted quoteLines))) p.text,
      hasCallers := true }

def relation : String :=
  "And please include the reference relationship with its callers or callees in the project "
    ++ "from a functional perspective"

def build (p : RoutinePrompt) : String :=
  let text :=
    if p.hasCallees || p.hasCallers then fill "has_relationship" relation p.text
    else fill "example" "" (fill "has_relationship" "" p.text)
  if p.hasCallers then
    fill "example" "You can refer to the use of this Function in the caller." text
  else text

end RoutinePrompt

end Docsmith.Prompt
