import Docsmith.Files
import Docsmith.Json.Basic

/-! # The world around the library

A folder, a language model, an index of texts, a receiver of reports. The model and the index follow
a script, so a run is a function of the world it starts in; what was said to them is kept. -/

namespace Docsmith

inductive Chunk where
  | content (text : Option String)
  | reasoning (text : String)
  | usage
  | nothing
deriving Repr, DecidableEq

structure ToolCall where
  name : String
  arguments : String
deriving Repr, DecidableEq

inductive Reply where
  | text (content : String)
  | stream (chunks : List Chunk)
  | calls (calls : List ToolCall)
  | timeout
  | failure (reason : String)
deriving Repr, DecidableEq

inductive Role where
  | system
  | user
  | assistant
  | tool
deriving Repr, DecidableEq

def Role.word : Role → String
  | .system => "system"
  | .user => "user"
  | .assistant => "assistant"
  | .tool => "tool"

inductive Message where
  | said (role : Role) (content : Option String)
  | called (count : Nat)
deriving Repr, DecidableEq

structure Prompt where
  messages : List Message
  tools : Option (List String) := none
deriving Repr, DecidableEq

inductive IndexCall where
  | encode (texts : Nat)
  | add (texts : Nat)
  | search (queries hits : Nat)
  | cluster (clusters rounds : Nat)
  | train (texts : Nat)
deriving Repr, DecidableEq

structure Post where
  url : String
  body : String
  failed : Bool
deriving Repr, DecidableEq

structure World where
  folder : Folder := .empty
  /-- The path of the folder from the root. -/
  here : String := ""
  /-- The language that answers are to be in. -/
  language : String := "English"
  /-- Whether conversations are shown and kept. -/
  verbose : Bool := false
  replies : List Reply := []
  prompts : List Prompt := []
  printed : String := ""
  /-- What each search in the index will find. -/
  hits : List (List Int) := []
  /-- The group of each text. -/
  labels : List Int := []
  indexCalls : List IndexCall := []
  clock : Bool := false
  /-- The commands that were run, each with the folder it ran in. -/
  commands : List (String × String) := []
  /-- Why each of the next reports cannot be sent, or that it can. -/
  outcomes : List (Option String) := []
  posts : List Post := []

abbrev Run := ExceptT Fault (StateM World)

def onPart {σ τ α : Type} (part : τ → σ) (put : σ → τ → τ) (step : ExceptT Fault (StateM σ) α) :
    ExceptT Fault (StateM τ) α :=
  ExceptT.mk do
    let t ← get
    let (result, s) := step.run.run (part t)
    set (put s t)
    return result

def inFolder {α : Type} (step : Files α) : Run α :=
  onPart World.folder (fun f w => { w with folder := f }) step

namespace Run

def ofExcept {α : Type} (result : Except Fault α) : Run α :=
  match result with
  | .ok a => return a
  | .error f => throw f

def print (text : String) : Run Unit :=
  modify fun w => { w with printed := w.printed ++ text }

def command (text folder : String) : Run Unit :=
  modify fun w => { w with commands := w.commands ++ [(text, folder)] }

end Run

end Docsmith
