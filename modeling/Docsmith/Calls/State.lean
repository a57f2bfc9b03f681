import Docsmith.Assoc
import Docsmith.Calls.Symbol
import Docsmith.Fault

/-! # The state of an analysis

Symbols are numbered in order of creation, and the table lists them by name; edges say which symbol
uses or defines which. A scope maps the names in a block to the symbols they stand for, once known.
-/

namespace Docsmith.Calls

abbrev Id := Nat

abbrev Scope := List (String × Option Id)

abbrev Edges := List (Id × List Id)

structure State where
  modules : List (String × String) := []
  files : List String := []
  /-- The folder that module names start from, if it is given. -/
  root : Option String := none
  symbols : Array Symbol := #[]
  table : List (String × List Id) := []
  uses : Edges := []
  defines : Edges := []
  scopes : List (String × Scope) := []
  bases : List (Id × List Tree) := []
  /-- The base classes of every class, as far as they are known. -/
  parents : Edges := []
  /-- The order in which attributes of a class are looked up. -/
  lineage : Edges := []
  module : String := ""
  file : Option String := none
  /-- The names of the enclosing blocks, the innermost first. -/
  path : List String := []
  /-- The full names of the enclosing scopes, the innermost first. -/
  within : List String := []
  /-- The enclosing classes, the innermost first. -/
  classes : List Id := []
  /-- For each enclosing block, whether it is the body of a class. -/
  inClass : List Bool := []
  /-- The symbol of the expression visited last. -/
  last : Option Id := none

/-- What was found out stays when a step fails. -/
abbrev Visit := ExceptT Fault (StateM State)

def State.symbol (s : State) (id : Id) : Symbol :=
  s.symbols.getD id
    { space := none, name := "", origin := none, file := none, flavor := .unspecified,
      defined := false }

def State.named (s : State) (name : String) : List Id :=
  (Assoc.get? name s.table).getD []

def State.scope? (s : State) (space : String) : Option Scope :=
  Assoc.get? space s.scopes

def symbolOf (id : Id) : Visit Symbol := do
  return (← get).symbol id

def modifySymbol (id : Id) (f : Symbol → Symbol) : Visit Unit :=
  modify fun s => { s with symbols := s.symbols.modify id f }

def setLast (value : Option Id) : Visit Unit :=
  modify fun s => { s with last := value }

/-! ## Symbols by space and name -/

/-- The symbol is made if there is none. One that exists takes the flavor if it says more than the
one it has. -/
def symbolFor (space : Option String) (name : String) (origin : Option Origin) (flavor : Flavor) :
    Visit Id := do
  let s ← get
  match (s.named name).find? fun id => (s.symbol id).space == space with
  | some id =>
    if flavor.specificity > (s.symbol id).flavor.specificity then
      modifySymbol id ({ · with flavor })
    return id
  | none =>
    let file := match space.bind (Assoc.get? · s.modules) with
      | some f => some f
      | none => s.file
    let id := s.symbols.size
    let symbol : Symbol := { space, name, origin, file, flavor, defined := space.isNone }
    set { s with
      symbols := s.symbols.push symbol,
      table := Assoc.set name (s.named name ++ [id]) s.table }
    return id

def current : Visit Id := do
  match (← get).path with
  | [] => throw .brokenInvariant
  | name :: outer =>
    symbolFor (some (Text.join "." outer.reverse)) name none .nameSpace

def currentName : Visit String := do
  return (← symbolOf (← current)).fullName

def parentOf (id : Id) : Visit Id := do
  match (← symbolOf id).space with
  | none => throw .noSpace
  | some space =>
    let parts := Text.splitOn "." space
    symbolFor (some (Text.join "." parts.dropLast)) (parts.getLast?.getD "") none .unspecified

def associate (id : Id) (origin : Origin) : Visit Unit := do
  let file := (← get).file
  modifySymbol id fun s =>
    { s with origin := some origin, file := match file with
        | some f => some f
        | none => s.file }

/-! ## Edges -/

def Edges.add (edges : Edges) (source target : Id) : Edges :=
  let targets := (Assoc.get? source edges).getD []
  Assoc.set source (if target ∈ targets then targets else targets ++ [target]) edges

def Edges.touch (edges : Edges) (source : Id) : Edges :=
  Assoc.set source ((Assoc.get? source edges).getD []) edges

def Edges.remove (edges : Edges) (source target : Id) : Edges :=
  match Assoc.get? source edges with
  | some targets => Assoc.set source (targets.erase target) edges
  | none => edges

def Edges.targets (edges : Edges) (source : Id) : List Id :=
  (Assoc.get? source edges).getD []

def addDefines (source : Id) (target : Option Id) : Visit Unit := do
  modify fun s => { s with defines := s.defines.touch source }
  modifySymbol source ({ · with defined := true })
  match target with
  | none => pure ()
  | some target =>
    if target ∈ ((← get).defines.targets source) then pure ()
    else
      modify fun s => { s with defines := s.defines.add source target }
      modifySymbol target ({ · with defined := true })

def argumentName : String := "^^^argument^^^"

/-- Removes the use of an unresolved name once a target for it is known. A parameter resolves
nothing, and neither does the source itself. -/
def removeWild (source target : Id) (name : String) : Visit Unit := do
  let s ← get
  match Assoc.get? source s.uses with
  | none => pure ()
  | some targets =>
    if Text.contains argumentName (s.symbol target).fullName || target == source then pure ()
    else
      match targets.filter fun t => (s.symbol t).isWild && (s.symbol t).name == name with
      | [] => pure ()
      | [wild] => set { s with uses := s.uses.remove source wild }
      | _ => throw .brokenInvariant

def addUses (source target : Id) : Visit Unit := do
  modify fun s => { s with uses := s.uses.touch source }
  let s ← get
  if target ∈ s.uses.targets source then pure ()
  else
    set { s with uses := s.uses.add source target }
    let t := s.symbol target
    if !t.isWild then removeWild source target t.name

/-! ## Names in scopes -/

def setName (space name : String) (value : Id) : Visit Unit :=
  modify fun s =>
    match s.scope? space with
    | some scope => { s with scopes := Assoc.set space (Assoc.set name (some value) scope) s.scopes }
    | none => s

def scopeOf (space : String) : Visit Scope := do
  match (← get).scope? space with
  | some scope => return scope
  | none => throw (.unknownName space)

/-- The meaning of a name in the innermost enclosing scope that knows one. -/
def State.lookup (s : State) (name : String) : Option Id :=
  s.within.findSome? fun space =>
    (s.scope? space).bind fun scope => (Assoc.get? name scope).join

def valueOf (name : String) : Visit (Option Id) := do
  let s ← get
  match s.lookup name with
  | some id => return some id
  | none => if s.within.isEmpty then throw .outsideScopes else return none

def bindName (name : String) (value : Option Id) : Visit Unit := do
  let s ← get
  match s.within.find? fun space => ((s.scope? space).map (Assoc.has name)).getD false, value with
  | some space, some id => setName space name id
  | _, _ => pure ()

end Docsmith.Calls
