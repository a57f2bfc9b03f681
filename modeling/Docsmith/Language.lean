import Docsmith.Fault

/-! # Languages of the sources

The languages that can be documented, each with the names it has in requests, in Markdown and on the
command line. -/

namespace Docsmith

inductive Language where
  | python
  | cpp
deriving Repr, DecidableEq

namespace Language

def all : List Language := [.python, .cpp]

def name : Language → String
  | .python => "python"
  | .cpp => "cpp"

def render : Language → String
  | .python => "Rust"
  | .cpp => "C/C++"

def markdown : Language → String
  | .python => "python"
  | .cpp => "c++"

def cli : Language → String
  | .python => "py"
  | .cpp => "cpp"

def ofName (view : Language → String) (name : String) : Except Fault Language :=
  match all.find? (view · == name) with
  | some lang => .ok lang
  | none => .error (.unknownLanguage name)

def ofRender (name : String) : Except Fault Language := ofName render name

def ofCli (name : String) : Except Fault Language := ofName cli name

end Language

end Docsmith
