import Docsmith.Json.Reader
import Docsmith.Session.Chat

/-! # Tools

A model that may use tools answers with a message or with calls. Calls are carried out in order,
each followed by its result, and the model is asked again. -/

namespace Docsmith

structure Tool where
  name : String
  call : List (String × Json) → Run String

namespace Talk

/-- `count` is the number of calls asked for. The arguments are read before the tool is looked
up. -/
def callTool (tools : List Tool) (count : Nat) (c : ToolCall) : Talk Unit := do
  add (.called count)
  match Json.parse c.arguments with
  | .error problem => throw (.badJson problem)
  | .ok arguments =>
    match tools.find? (·.name == c.name), arguments with
    | some tool, .obj fields =>
      let result ← inWorld (tool.call fields)
      add (.said .tool (some result))
    | _, _ => throw .notCallable

def finish (post : Option (String → String)) (content : Option String) : Talk (Option String) := do
  let answer ← match post, content with
    | none, content => pure content
    | some f, some text => pure (some (f text))
    | some _, none => throw .noContent
  add (.said .assistant answer)
  return answer

/-- Only an answer without calls before it goes through `post`. -/
def askToolsFrom (tools : List Tool) (post : Option (String → String)) :
    List Reply → Talk (Option String)
  | [] => do
    send (some (tools.map Tool.name)) []
    throw .noReply
  | reply :: rest => do
    send (some (tools.map Tool.name)) rest
    match reply with
    | .timeout => throw .timedOut
    | .failure reason => throw (.reported reason)
    | .calls [] => finish post none
    | .calls calls => do
      calls.forM (callTool tools calls.length)
      askToolsFrom tools none rest
    | .text content => finish post (some content)
    | .stream _ => finish post none

def askTools (tools : List Tool) (post : Option (String → String)) : Talk (Option String) := do
  askToolsFrom tools post (← get).world.replies

end Talk

end Docsmith
