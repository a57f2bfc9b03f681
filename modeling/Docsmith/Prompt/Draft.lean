import Docsmith.Prompt.Routine

/-! # Prompts for drafts and their revision

A draft on a routine quotes the routines it calls; the revision of a draft quotes the routines that
call it. -/

namespace Docsmith.Prompt

def draftTemplate : String :=
  template routineOpening (codeSlots ++
    [("referenced", "\n\n" ++ routineTask ++ formatNote
      ++ "\n"
      ++ "> #### Description\n"
      ++ "> Briefly describe the Function in one sentence.\n"
      ++ "> #### Parameters\n"
      ++ "> - Parameter1\n"
      ++ "> #### Code Details\n"
      ++ "> Detailed and CERTAIN code analysis of the Function. "),
    ("details_supplement", "\n"
      ++ "> #### Example\n"
      ++ "> ```"),
    ("lang", "\n"
      ++ "> Mock possible usage examples of the Function with codes. \n"
      ++ "> ```\n\n"
      ++ "Please note:\n"
      ++ fixedHeadings "xxx" ++ "\n"
      ++ noHeadings ++ ".\n")])

def revisionTemplate : String :=
  "\n"
    ++ "You are an AI documentation assistant tasked with revising and enhancing the "
    ++ "documentation for a given Function based on its usage examples. \n"
    ++ "Your goal is to ensure that the documentation accurately reflects the Function's "
    ++ "functionality without any speculation or inaccuracies.\n\n"
    ++ "The following Function documentation is what you need to revise:\n"
    ++ "\x7bfunction_doc\x7d\n\n"
    ++ "As you can see, the Function is called by the following Functions, their docs and code "
    ++ "are as following. Please revise the above documentation by incorporating insights from "
    ++ "them:\n"
    ++ "\x7breferencer\x7d\n\n"
    ++ "The previous documentation is written by a robot, and it may not be accurate or "
    ++ "detailed enough. You should give it a major revision.\n"
    ++ "There are some points you need to pay attention to:\n"
    ++ "1. Ensure that the Description is concise and accurate.\n"
    ++ "2. Ensure that the Function is called correctly in Example.\n\n"
    ++ sameFormat
    ++ "> #### Description\n"
    ++ "> Briefly describe the Function in one sentence.\n"
    ++ "\x7bparameters\x7d\n"
    ++ "> #### Code Details\n"
    ++ "> Detailed and CERTAIN code analysis of the Function. \n"
    ++ "> #### Example\n"
    ++ "> ```\x7blang\x7d\n"
    ++ "> Mock possible usage examples of the Function with codes. \n"
    ++ "> ```\n\n"
    ++ "Please note:\n"
    ++ "- The improved documentation should keep the same format as before. That is, you should "
    ++ "keep the headings in the documentation and only revise the content under each heading. \n"
    ++ fixedHeadings "xxx" ++ "\n"
    ++ noHeadings ++ ".\n"
    ++ "- You do not need to write the reference symbols `>` when you output.\n"

structure DraftPrompt where
  text : String := draftTemplate

namespace DraftPrompt

def name (p : DraftPrompt) (name : String) : DraftPrompt :=
  ⟨fill "code_name" name p.text⟩

def lang (p : DraftPrompt) (lang : String) : DraftPrompt :=
  ⟨fill "lang" lang p.text⟩

def code (p : DraftPrompt) (code : String) : DraftPrompt :=
  ⟨fill "code" code p.text⟩

def parameters (p : DraftPrompt) (params : List Param) : DraftPrompt :=
  ⟨fill "parameters"
    (if params.isEmpty then ">\n" else Text.strip (markedLines mark parameterLines)) p.text⟩

def quoted (d : RoutineDoc) : Except Fault String := do
  return "**Function**: `" ++ d.name ++ "`\n\n**Document**:\n\n" ++ (← quote mark d.markdown)
    ++ rule

def intro : String :=
  "As you can see, the code calls the following Functions, their docs and code are as "
    ++ "following:\n\n"

def supplement : String :=
  "You should refer to the documentation of the called Functions to analyze the code details."

def callees (p : DraftPrompt) (docs : List RoutineDoc) : Except Fault DraftPrompt := do
  if docs.isEmpty then
    return ⟨fill "details_supplement" "" (fill "referenced" "" p.text)⟩
  let parts ← docs.mapM fun d => quoted { d with code := none }
  return ⟨fill "details_supplement" supplement
    (fill "referenced" (intro ++ Text.join "" parts) p.text)⟩

def build (p : DraftPrompt) : String := p.text

end DraftPrompt

def revision (lang : String) (params : List Param) (callers : List RoutineDoc)
    (draft : RoutineDoc) : Except Fault String := do
  let parts ← callers.mapM DraftPrompt.quoted
  return fillAll
    [("referencer", Text.join "" parts), ("lang", lang),
     ("parameters", Text.strip (markedLines (if params.isEmpty then "\n" else mark)
        parameterLines)),
     ("function_doc", ← quote mark draft.markdown)] revisionTemplate

end Docsmith.Prompt
