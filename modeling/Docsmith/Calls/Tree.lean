/-! # Syntax trees of scripts

* `Tree.bind` stands for every construct that binds targets to values. Tuples and lists on either
  side are already taken apart.
* `Tree.enter` stands for the entry into a context.
* `Tree.group` stands for everything else: its children in order. -/

namespace Docsmith.Calls

inductive Mode where
  | load
  | store
  | delete
deriving Repr, DecidableEq

/-- A stretch of source text: lines count from one, columns from zero. -/
structure Span where
  line : Nat
  column : Nat
  endLine : Nat
  endColumn : Nat
deriving Repr, DecidableEq

structure Params where
  /-- Given by position only. -/
  leading : List String := []
  /-- Given by position or by name. -/
  ordinary : List String := []
  /-- Collects further positions. -/
  others : Option String := none
  /-- Given by name only. -/
  named : List String := []
  /-- Collects further names. -/
  further : Option String := none
deriving Repr, DecidableEq

structure Alias where
  name : String
  asName : Option String := none
deriving Repr, DecidableEq

structure Head where
  name : String
  isAsync : Bool := false
  params : Params := {}
  span : Span
deriving Repr, DecidableEq

/-- A program, reduced to the forms that the analysis tells apart. -/
inductive Tree where
  | group (children : List Tree)
  | name (id : String) (mode : Mode)
  | attribute (value : Tree) (attr : String) (mode : Mode)
  | constant (type : String)
  | call (func : Tree) (args keywords : List Tree)
  | bind (targets values : List Tree)
  | declare (target : Tree)
  | enter (context : List Tree)
  | function (head : Head) (decorators defaults body : List Tree)
  | lambda (params : Params) (defaults : List Tree) (body : Tree)
  /-- What is first iterated over, the targets and conditions of that, further loops, and the
  element. -/
  | generator (iters targets conditions further : List Tree) (element : Tree)
  | classDef (name : String) (bases body : List Tree)
  | importModules (aliases : List Alias)
  | importFrom (module : Option String) (level : Nat) (aliases : List Alias)
deriving Repr, Inhabited

inductive Block where
  | mk (name : String) (names : List String) (children : List Block)
deriving Repr, Inhabited

structure Source where
  block : Block
  body : List Tree
deriving Repr, Inhabited

end Docsmith.Calls
