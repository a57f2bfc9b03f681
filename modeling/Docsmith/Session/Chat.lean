import Docsmith.Session.World

/-! # Conversations

Asking adds a reminder of the language, sends everything said so far, and adds the answer. A model
that does not answer in time is asked again, with one more reminder. -/

namespace Docsmith

structure Session where
  history : List Message := []
  world : World

abbrev Talk := ExceptT Fault (StateM Session)

def inWorld {α : Type} (step : Run α) : Talk α :=
  onPart Session.world (fun w s => { s with world := w }) step

namespace Talk

def add (m : Message) : Talk Unit :=
  modify fun s => { s with history := s.history ++ [m] }

def system (text : String) : Talk Unit := add (.said .system (some text))

def user (text : String) : Talk Unit := add (.said .user (some text))

def languageReminder (language : String) : String :=
  "You must output in " ++ language ++ " though the prompt is written in English."
    ++ "You can write with some English words in the analysis and description "
    ++ "to enhance the document's readability because you do not need to translate the "
    ++ "function name or variable name into the target language.\n"

/-- Sends the conversation; `rest` is what the model will do after this. -/
def send (tools : Option (List String)) (rest : List Reply) : Talk Unit :=
  modify fun s => { s with world := { s.world with
    prompts := s.world.prompts ++ [{ messages := s.history, tools }], replies := rest } }

/-! ## Answers in pieces -/

def banner (word : String) : String :=
  Text.times 10 "=" ++ word ++ Text.times 10 "="

def shown (thinking : Bool) : Chunk → String × Bool
  | .reasoning text => ((if thinking then "" else banner "thinking" ++ "\n") ++ text, true)
  | .content text =>
    ((if thinking then "\n" ++ banner "answering" ++ "\n" else "") ++ text.getD "", false)
  | .usage => ("\n", thinking)
  | .nothing => ("", thinking)

/-- The answer in pieces. Reasoning is no part of it; a piece without text breaks it off. -/
def assemble (verbose thinking : Bool) : List Chunk → Run String
  | [] => return ""
  | .content none :: _ => throw .noText
  | c :: cs => do
    let (text, thinking) := shown thinking c
    if verbose then Run.print text
    let rest ← assemble verbose thinking cs
    match c with
    | .content (some text) => return text ++ rest
    | _ => return rest

def messageText : Message → String
  | .said _ (some text) => text
  | _ => ""

def keep : Talk Unit := do
  let s ← get
  if s.world.verbose then
    inWorld (inFolder (Files.append "prompt.md"
      (Text.join "\n" (s.history.map messageText) ++ "\n\n---\n\n")))

def chunksOf : Reply → List Chunk
  | .text content => [.content (some content)]
  | .stream chunks => chunks
  | _ => []

/-! ## Asking -/

def askFrom (post : String → String) : List Reply → Talk String
  | [] => do
    user (languageReminder (← get).world.language)
    send none []
    throw .noReply
  | reply :: rest => do
    user (languageReminder (← get).world.language)
    send none rest
    match reply with
    | .timeout => askFrom post rest
    | .failure reason => throw (.reported reason)
    | reply =>
      let text ← inWorld <| assemble (← get).world.verbose false (chunksOf reply)
      keep
      let answer := post text
      add (.said .assistant (some answer))
      return answer

def ask (post : String → String) : Talk String := do
  askFrom post (← get).world.replies

/-! ## Files -/

def size : Content → Nat
  | .text s => s.utf8ByteSize
  | .bytes bs => bs.length

/-- Shows the model a file. The transfer fails if that is what comes next. -/
def showFile (path : String) : Talk Unit := do
  let content ← inWorld (inFolder (Files.ask (·.contentAt path)))
  match (← get).world.replies with
  | .timeout :: rest =>
    modify fun s => { s with world := { s.world with replies := rest } }
    throw .timedOut
  | .failure reason :: rest =>
    modify fun s => { s with world := { s.world with replies := rest } }
    throw (.reported reason)
  | _ => system ("fileid://file-extract-" ++ toString (size content))

end Talk

def Run.talk {α : Type} (step : Talk α) : Run α :=
  ExceptT.mk do
    let (result, s) := step.run.run { world := ← get }
    set s.world
    return result

end Docsmith
