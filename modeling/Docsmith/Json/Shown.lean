import Docsmith.Decimal.Shortest
import Docsmith.Json.Basic
import Docsmith.Text

/-! # JSON values for display

Texts in quotes of the reader's choice, a blank after commas and colons, and words for null and
truth values. -/

namespace Docsmith.Json

mutual

def shown : Json → String
  | .null => "None"
  | .bool b => if b then "True" else "False"
  | .int n => toString n
  | .real x => x.text
  | .str s => Text.quoted s
  | .arr items => "[" ++ Text.join ", " (shownItems items) ++ "]"
  | .obj fields => "\x7b" ++ Text.join ", " (shownFields fields) ++ "\x7d"

def shownItems : List Json → List String
  | [] => []
  | v :: rest => shown v :: shownItems rest

def shownFields : List (String × Json) → List String
  | [] => []
  | (n, v) :: rest => (Text.quoted n ++ ": " ++ shown v) :: shownFields rest

end

end Docsmith.Json
