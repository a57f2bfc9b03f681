import Docsmith.Calls.State

/-! # Attributes

The object of an attribute is resolved from the expression in front of it, then its symbol in the
object's own scope or in that of a class it inherits from. -/

namespace Docsmith.Calls

def Mode.word : Mode → String
  | .load => "Load"
  | .store => "Store"
  | .delete => "Del"

/-- Whether a literal of this type is an object with attributes of its own. -/
def isPlainLiteral (type : String) : Bool :=
  type == "int" || type == "float" || type == "complex" || type == "str"

def State.member? (s : State) (space name : String) : Option Id :=
  (s.scope? space).bind fun scope => (Assoc.get? name scope).join

/-- The first class in line, after the class itself, whose scope knows a name. -/
def State.inherited? (s : State) (line : List Id) (name : String) : Option (Id × Id) :=
  line.tail.findSome? fun base => (s.member? (s.symbol base).fullName name).map fun v => (base, v)

def superClass : Visit Id := do
  let s ← get
  let shown := match s.classes with
    | [] => "None"
    | c :: _ => "<Node " ++ (s.symbol c).fullName ++ ">"
  match s.classes.head?.bind (Assoc.get? · s.lineage) with
  | some (_ :: next :: _) => return next
  | some _ => throw (.unresolvedSuper ("super called for " ++ shown ++ ", but no known bases"))
  | none =>
    throw (.unresolvedSuper ("super called for " ++ shown
      ++ ", but MRO not determined for it (maybe still in pass 1?)"))

/-- The object and the symbol of an attribute. Of an inherited attribute the object is the base
class. -/
def memberOf (object : Option Id) (attr : String) : Visit (Option Id × Option Id) := do
  let s ← get
  match object with
  | none => return (none, none)
  | some o =>
    let symbol := s.symbol o
    if symbol.isWild then return (some o, none)
    let space := symbol.fullName
    if space == "Num" || space == "Str" then
      return (some o, some (← symbolFor (some space) attr none .attribute))
    match s.member? space attr with
    | some v => return (some o, some v)
    | none =>
      match Assoc.get? o s.lineage with
      | none => return (some o, none)
      | some line =>
        match s.inherited? line attr with
        | some (base, v) => return (some base, some v)
        | none => return (none, none)

def Tree.mode? : Tree → Option Mode
  | .name _ mode => some mode
  | .attribute _ _ mode => some mode
  | _ => none

/-- What an expression stands for, as far as scopes and classes tell. Of calls only those of
`super`, `str` and `repr` are understood; the latter stand for the method that does the work. -/
def objectOf : Tree → Visit (Option Id)
  | .attribute value attr _ => do
    match ← objectOf value with
    | none => return none
    | some o =>
      let s ← get
      if (s.symbol o).isWild then return none
      else return s.member? (s.symbol o).fullName attr
  | .constant type =>
    if isPlainLiteral type then do return some (← symbolFor (some "") "Constant" none .classObject)
    else noName
  | .call (.name "super" _) _ _ => do return some (← superClass)
  | .call (.name f _) [arg] _ =>
    if f == "str" || f == "repr" then
      match arg.mode? with
      | none => return none
      | some .load => do return (← memberOf (← objectOf arg) ("__" ++ f ++ "__")).2
      | some mode => throw (.wrongMode "load" mode.word)
    else return none
  | .call _ _ _ => return none
  | .name id _ => valueOf id
  | _ => noName
where
  /-- An expression without a name stands for nothing that scopes know. -/
  noName : Visit (Option Id) := do
    if (← get).within.isEmpty then throw .outsideScopes else return none

def readAttribute (value : Tree) (attr : String) (mode : Mode) :
    Visit (Option Id × Option Id) := do
  match mode with
  | .load => memberOf (← objectOf value) attr
  | mode => throw (.wrongMode "load" mode.word)

/-- Gives an attribute a new meaning, if there is one and the object's scope is known: whether it
was done. -/
def writeAttribute (value : Tree) (attr : String) (mode : Mode) (new : Option Id) :
    Visit Bool := do
  match mode, new with
  | .store, none => return false
  | .store, some new =>
    match ← objectOf value with
    | none => return false
    | some o =>
      let s ← get
      let symbol := s.symbol o
      if symbol.isWild || (s.scope? symbol.fullName).isNone then return false
      setName symbol.fullName attr new
      return true
  | mode, _ => throw (.wrongMode "store" mode.word)

/-! ## Attributes as whole expressions -/

def Tree.word : Tree → String
  | .name _ _ => "Name"
  | .attribute _ _ _ => "Attribute"
  | .constant _ => "Constant"
  | .call _ _ _ => "Call"
  | .lambda _ _ _ => "Lambda"
  | .generator _ _ _ _ _ => "GeneratorExp"
  | _ => "expr"

def attributeParts : Tree → Visit (Tree × String × Mode)
  | .attribute value attr mode => return (value, attr, mode)
  | other => throw (.wrongSyntax "Attribute" other.word)

def resolve (t : Tree) : Visit (Option Id × String) := do
  let (value, attr, _) ← attributeParts t
  return (← objectOf value, attr)

def readTree (t : Tree) : Visit (Option Id × Option Id) := do
  let (value, attr, mode) ← attributeParts t
  readAttribute value attr mode

def writeTree (t : Tree) (new : Option Id) : Visit Bool := do
  let (value, attr, mode) ← attributeParts t
  writeAttribute value attr mode new

end Docsmith.Calls
