import Docsmith.Book
import Docsmith.Folder.Copy
import Docsmith.Pipeline

/-! # The command line

The program takes the path of a code base and the option `--lang`. It works on a copy of the sources
and leaves a book of documents behind. -/

namespace Docsmith.CommandLine

/-! ## Arguments -/

structure Words where
  free : List String := []
  language : Option String := none
  help : Bool := false
deriving Repr, DecidableEq

/-- Nothing if an option is unknown or used in the wrong way. After `--` no word is an option. -/
def readWords (w : Words) : List String → Option Words
  | [] => some w
  | "--" :: rest => some { w with free := w.free ++ rest }
  | "--help" :: rest => readWords { w with help := true } rest
  | ["--lang"] => none
  | "--lang" :: value :: rest => readWords { w with language := some value } rest
  | word :: rest =>
    if Text.startsWith "--lang=" word then
      readWords { w with language := some (Text.dropStart "--lang=" word) } rest
    else if Text.startsWith "-" word && word.length > 1 then none
    else readWords { w with free := w.free ++ [word] } rest

inductive Request where
  | help
  | document (path : String) (language : Language)
  | misuse
deriving Repr, DecidableEq

def languageOf? (word : String) : Option Language :=
  Language.all.find? fun l => l.cli == Text.lower word

/-- The path has to lead somewhere; one that is none is found out later. -/
def request (f : Folder) (args : List String) : Request :=
  match readWords {} args with
  | none => .misuse
  | some w =>
    if w.help then .help
    else
      match w.free, languageOf? (w.language.getD Language.cpp.cli) with
      | [path], some language =>
        if f.pathExists path || !(Folder.checkSpelling path).isOk then .document path language
        else .misuse
      | _, _ => .misuse

/-! ## Running -/

/-- Only the analysis is told the language, so the documents cannot name it. -/
def document (parse : Pipeline.Parser) (path : String) (language : Language) : Run Unit := do
  let path := Text.stripOf ['/'] path
  let name := Path.base path
  let sources := Path.join "resource" name
  let docs := Path.join "docs" name
  let output := Path.join "output" name
  inFolder (Files.copyTree path sources)
  let _ ← Pipeline.document parse (some language) { docs, sources, output, language := none }
  inFolder (Book.write docs)
  inFolder (Files.removeTree sources)
  inFolder (Files.removeTree output)

def usage : String :=
  "Usage: main [OPTIONS] PATH\n\nOptions:\n  --lang [py|cpp]\n  --help           Show this message and exit.\n"

def run (parse : Pipeline.Parser) (args : List String) : Run Unit := do
  match request (← get).folder args with
  | .help => Run.print usage
  | .misuse => throw (.stopped 2)
  | .document path language => document parse path language

def exitCode : Except Fault Unit → Nat
  | .ok _ => 0
  | .error (.stopped code) => code
  | .error _ => 1

end Docsmith.CommandLine
