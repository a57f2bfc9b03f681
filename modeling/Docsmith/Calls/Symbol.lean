import Docsmith.Calls.Tree

/-! # Symbols

A module, a class, a function, an attribute, or a name of which only the name is known. -/

namespace Docsmith.Calls

inductive Flavor where
  | unspecified
  | unknown
  | nameSpace
  | attribute
  | imported
  | module
  | classObject
  | function
  | method
  | staticMethod
  | classMethod
deriving Repr, DecidableEq

namespace Flavor

/-- How much a flavor says; a symbol only ever takes one that says more. -/
def specificity : Flavor → Nat
  | .unspecified | .unknown => 0
  | .nameSpace | .attribute => 1
  | .imported => 2
  | .module | .classObject | .function | .method | .staticMethod | .classMethod => 3

def label : Flavor → String
  | .unspecified => "---"
  | .unknown => "???"
  | .nameSpace => "namespace"
  | .attribute => "attribute"
  | .imported => "import"
  | .module => "module"
  | .classObject => "class"
  | .function => "function"
  | .method => "method"
  | .staticMethod => "staticmethod"
  | .classMethod => "classmethod"

end Flavor

/-- The piece of syntax that a symbol comes from: its kind, and its place if it is a function
definition. -/
structure Origin where
  kind : String
  span : Option Span := none
deriving Repr, DecidableEq

namespace Origin

def isFunction (o : Origin) : Bool := o.span.isSome

def ofHead (h : Head) : Origin where
  kind := if h.isAsync then "AsyncFunctionDef" else "FunctionDef"
  span := some h.span

end Origin

structure Symbol where
  /-- The full name of the enclosing space: empty for modules, none for a name that could not be
  resolved. -/
  space : Option String
  name : String
  origin : Option Origin
  file : Option String
  flavor : Flavor
  defined : Bool
deriving Repr, DecidableEq

namespace Symbol

def fullName (s : Symbol) : String :=
  match s.space with
  | none => "*." ++ s.name
  | some "" => s.name
  | some space => space ++ "." ++ s.name

def isWild (s : Symbol) : Bool := s.space.isNone

def isFunction (s : Symbol) : Bool :=
  s.defined && (s.origin.map (·.isFunction)).getD false

def isClass (s : Symbol) : Bool :=
  (s.origin.map (·.kind == "ClassDef")).getD false

end Symbol

end Docsmith.Calls
