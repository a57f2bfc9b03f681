import Docsmith.Json.Basic

/-! # Looking into JSON values

Each function looks up a field of an object and takes a value of the wrong kind for a missing one.
-/

namespace Docsmith.Json

def getField (v : Json) (name : String) : Json :=
  (v.field? name).getD .null

def getStr? (v : Json) (name : String) : Option String :=
  (v.field? name).bind str?

def getStr (v : Json) (name : String) : String :=
  (v.getStr? name).getD ""

def getArr (v : Json) (name : String) : List Json :=
  ((v.field? name).bind items?).getD []

def getStrs? (v : Json) (name : String) : Option (List String) :=
  ((v.field? name).bind items?).map (·.filterMap str?)

def getStrs (v : Json) (name : String) : List String :=
  (v.getStrs? name).getD []

def getBool (v : Json) (name : String) (usual : Bool) : Bool :=
  match v.field? name with
  | some (.bool b) => b
  | _ => usual

def getNat (v : Json) (name : String) (usual : Nat) : Nat :=
  match v.field? name with
  | some (.int n) => n.toNat
  | _ => usual

def getFields (v : Json) (name : String) : List (String × Json) :=
  match v.field? name with
  | some (.obj fields) => fields
  | _ => []

def ints (v : Json) : List Int :=
  (v.items?.getD []).filterMap fun
    | .int n => some n
    | _ => none

def pair (v : Json) : String × String :=
  match v with
  | .arr [.str a, .str b] => (a, b)
  | _ => ("", "")

def ofStrs (texts : List String) : Json :=
  .arr (texts.map .str)

def ofStr? : Option String → Json
  | some s => .str s
  | none => .null

def ofStrs? : Option (List String) → Json
  | some texts => ofStrs texts
  | none => .null

end Docsmith.Json
