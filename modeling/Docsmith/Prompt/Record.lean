import Docsmith.Prompt.Routine

/-! # Prompts for documents on records

A template whose slots are filled one after the other, in the order of the calls. -/

namespace Docsmith.Prompt

def recordTemplate : String :=
  "You are an AI documentation assistant, and your task is to generate documentation based "
    ++ "on the given code of an object. The purpose of the documentation is to help developers "
    ++ "and beginners understand the function and specific usage of the code.\n\n"
    ++ "Now you need to generate a document for a Class, whose name is `\x7bcode_name\x7d`.\n\n"
    ++ "The code of the Class is as follows:\n\n"
    ++ "```\x7blang\x7d\n"
    ++ "\x7bcode\x7d\n"
    ++ "```\n\n"
    ++ "\x7bfunctions\x7d\n"
    ++ "\x7breferenced\x7d\n\n"
    ++ "Please generate a detailed explanation document for this Class based on the code of the "
    ++ "target Class itself and combine it with its calling situation in the project.\n\n"
    ++ "Please write out the function of this Class briefly followed by a detailed analysis "
    ++ "(including all details) to serve as the documentation for this part of the code.\n\n"
    ++ formatNote ++ "\n"
    ++ "> #### Description\n"
    ++ "> Briefly describe the Class in one sentence\n"
    ++ "\x7battributes\x7d> #### Code Details\n"
    ++ "> Detailed and CERTAIN code analysis of the Class. \x7bhas_relationship\x7d\n\n"
    ++ "Please note:\n"
    ++ fixedHeadings "xxx" ++ "\n"
    ++ noHeadings ++ "\n"

def attributeLines : List String :=
  ["#### Attributes", "- Attribute1: XXX", "- Attribute2: XXX", "- ..."]

structure RecordPrompt where
  text : String := recordTemplate
  hasRecords : Bool := false
  hasMethods : Bool := false

namespace RecordPrompt

def name (p : RecordPrompt) (name : String) : RecordPrompt :=
  { p with text := fill "code_name" name p.text }

def lang (p : RecordPrompt) (lang : String) : RecordPrompt :=
  { p with text := fill "lang" lang p.text }

def code (p : RecordPrompt) (code : String) : RecordPrompt :=
  { p with text := fill "code" code p.text }

def attributes (p : RecordPrompt) (fields : List Field) : RecordPrompt :=
  let lines := if fields.isEmpty then "" else markedLines mark attributeLines
  { p with text := fill "attributes" lines p.text }

def quoted (d : RecordDoc) : String :=
  "**Class**: `" ++ d.name ++ "`\n\n**Document**:\n\n" ++ quoteLetters d.markdown ++ rule

def records (p : RecordPrompt) (docs : List RecordDoc) : RecordPrompt :=
  if docs.isEmpty then { p with text := fill "referenced" "" p.text }
  else
    { p with
      text := fill "referenced"
        ("As you can see, the class holds the following class as attributes, their docs and code "
          ++ "are as following:\n\n" ++ Text.join "" (docs.map quoted)) p.text,
      hasRecords := true }

def described (d : RoutineDoc) : String :=
  "**Method**: `" ++ d.name ++ "`\n\n**Description**:" ++ d.description ++ "\n" ++ rule

def methods (p : RecordPrompt) (docs : List RoutineDoc) : RecordPrompt :=
  if docs.isEmpty then { p with text := fill "functions" "" p.text }
  else
    { p with
      text := fill "functions"
        ("The class have some relative methods, their descriptions are as following:\n"
          ++ Text.join "" (docs.map described)) p.text,
      hasMethods := true }

def build (p : RecordPrompt) : String :=
  fill "has_relationship"
    (if p.hasRecords || p.hasMethods then
      "And please include the reference relationship with its methods or callees in the project "
       ++ "from a functional perspective"
     else "") p.text

end RecordPrompt

end Docsmith.Prompt
