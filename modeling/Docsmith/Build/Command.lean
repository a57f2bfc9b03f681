import Docsmith.Fault
import Docsmith.Json.Basic
import Docsmith.Path

/-! # Compile commands

A compile database lists, for each source file, the folder in which its compiler runs and the words
of the command. Here it becomes one that dumps the syntax tree of the file. -/

namespace Docsmith.Build

structure Command where
  folder : String
  file : String
  words : List String
deriving Repr, DecidableEq

/-! ## Words -/

/-- The compiler that the database names only decides for which language the compiler of the
environment is called. -/
def dumper (compiler : String) : String :=
  if ["c++", "g++", "cpp", "cxx"].contains (Text.lower compiler) then "$CXX -emit-ast"
  else "$CC -emit-ast"

def unquote (word : String) : String :=
  Text.stripOf ['"', '\''] word

/-- Into the folder of the command, under the name of the file. -/
def dumpPath (folder file : String) : String :=
  Path.join folder (Path.stem (Path.base file) ++ ".ast")

def setOutput (out : String) : List String → Option (List String)
  | [] => some []
  | word :: rest =>
    if word == "-o" then
      match rest with
      | [] => none
      | _ :: more => some (word :: out :: more)
    else (setOutput out rest).map (word :: ·)

/-- A command that names no output loses its last word, the source, to the option, and gets it
back. -/
def sendTo (out file : String) (words : List String) : Option (List String) :=
  if words.contains "-o" then setOutput out words
  else some (words.dropLast ++ ["-o", out, file])

/-! ## Reading a database -/

def fieldOf (entry : Json) (name : String) : Json :=
  (entry.field? name).getD .null

def textFor (operation : String) : Json → Except Fault String
  | .str s => .ok s
  | v => .error (.lacks v.kindWord operation)

def pathOf : Json → Except Fault String
  | .str s => .ok s
  | v => .error (.notAPath v.kindWord)

/-- The first word is read before it is replaced, so an empty text fails for another reason than a
full one. -/
def refuseArguments (v : Json) : Fault :=
  match v with
  | .str s => if s.isEmpty then .emptyText else .notAssignable v.kindWord
  | .obj _ => .noSuchKey 0
  | v => .notIndexable v.kindWord

/-- The list of arguments, else the command cut at every space. -/
def wordsOf (entry : Json) : Except Fault (List String) := do
  let given ← match fieldOf entry "arguments" with
    | .null => do
      let command ← textFor "split" (fieldOf entry "command")
      pure ((Text.splitOn " " command).map .str)
    | .arr words => pure words
    | v => throw (refuseArguments v)
  match given with
  | [] => throw .emptyCommand
  | compiler :: rest => do
    let compiler ← textFor "lower" compiler
    return dumper compiler :: (← rest.mapM (textFor "strip")).map unquote

def commandOf (entry : Json) : Except Fault Command := do
  let words ← wordsOf entry
  let file ← pathOf (fieldOf entry "file")
  let folder ← pathOf (fieldOf entry "directory")
  match sendTo (dumpPath folder file) file words with
  | some words => return { folder, file, words }
  | none => throw .noOutput

/-- An entry for a file in `seen` is passed over unread. -/
def commandsFrom (seen : List String) : List Json → Except Fault (List Command)
  | [] => .ok []
  | entry :: rest => do
    let .obj _ := entry | throw (.lacks entry.kindWord "get")
    match fieldOf entry "file" with
    | .str file =>
      if seen.contains file then commandsFrom seen rest
      else
        let command ← commandOf entry
        return command :: (← commandsFrom (file :: seen) rest)
    | .arr items => throw (.unhashable (Json.arr items).kindWord)
    | .obj fields => throw (.unhashable (Json.obj fields).kindWord)
    | _ =>
      let command ← commandOf entry
      return command :: (← commandsFrom seen rest)

def commands (entries : List Json) : Except Fault (List Command) :=
  commandsFrom [] entries

end Docsmith.Build
