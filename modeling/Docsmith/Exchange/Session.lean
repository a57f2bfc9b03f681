import Docsmith.Json.Access
import Docsmith.Session.World

/-! # Conversations in JSON -/

namespace Docsmith.Exchange

def message : Message → Json
  | .said role text => .obj [("role", .str role.word), ("content", .ofStr? text)]
  | .called n => .obj [("role", .str "assistant"), ("tool_calls", .int n)]

def prompt (p : Prompt) : Json :=
  .obj (("messages", .arr (p.messages.map message)) ::
    (match p.tools with
     | some names => [("tools", .ofStrs names)]
     | none => []))

end Docsmith.Exchange
