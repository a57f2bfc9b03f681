import Docsmith.Calls.Attribute

/-! # Visiting a program

Names and attributes that are read become uses of the block they stand in; definitions become
symbols; bindings give names in scopes their meaning. `State.last` carries the symbol of an
expression to the construct around it. -/

namespace Docsmith.Calls

def always {α : Type} (body : Visit α) (after : Visit Unit) : Visit α :=
  ExceptT.mk do
    let result ← body.run
    match ← after.run with
    | .ok () => return result
    | .error f => return .error f

def orUnresolved {α : Type} (body : Visit α) (fallback : α) : Visit α :=
  tryCatch body fun
    | .unresolvedSuper _ => return fallback
    | f => throw f

/-! ## Blocks -/

/-- The scope of the block must be known: the full name of the block. -/
def enterBlock (name : String) (isClass : Bool) : Visit String := do
  modify fun s => { s with path := name :: s.path }
  let inner ← currentName
  let _ ← scopeOf inner
  modify fun s => { s with within := inner :: s.within, inClass := isClass :: s.inClass }
  return inner

def leaveBlock : Visit Unit :=
  modify fun s =>
    { s with path := s.path.tail, within := s.within.tail, inClass := s.inClass.tail }

/-- All blocks of one label in a place are one symbol, which the place defines. -/
def inBlock (label : String) (body : String → Visit Unit) : Visit Unit := do
  modify fun s => { s with path := label :: s.path }
  let inner ← currentName
  if ((← get).scope? inner).isNone then
    modify fun s => { s with path := s.path.tail }
    throw (.unknownBlock inner)
  modify fun s => { s with within := inner :: s.within, inClass := false :: s.inClass }
  always (body inner) do
    leaveBlock
    let outer ← current
    let block ← symbolFor (some (← symbolOf outer).fullName) label none .nameSpace
    addDefines outer (some block)
    setLast (some block)

/-- Outer names of the spelling of a parameter do not show through. -/
def markParams (inner : String) (params : Params) : Visit Unit := do
  let _ ← scopeOf inner
  let mark ← symbolFor (some inner) argumentName none .unspecified
  (params.ordinary ++ params.named).forM fun p => setName inner p mark

def define (name : String) (origin : Origin) (flavor : Flavor) : Visit Id := do
  let outer ← current
  let id ← symbolFor (some (← symbolOf outer).fullName) name (some origin) flavor
  addDefines outer (some id)
  associate id origin
  bindName name (some id)
  return id

/-! ## Imports -/

def importModule (a : Alias) : Visit Unit := do
  let user ← current
  let module ← symbolFor (some "") a.name (some { kind := "Import" }) .module
  addUses user module
  bindName (a.asName.getD a.name) (some module)

def importSource (current : String) (module : Option String) (level : Nat) : String :=
  match module with
  | none => Text.dropLast "." level current
  | some m => if level == 0 then m else Text.dropLast "." level current ++ "." ++ m

def importName (user : Id) (source : String) (a : Alias) : Visit Unit := do
  let origin : Origin := { kind := "ImportFrom" }
  let id ← if Assoc.has (source ++ "." ++ a.name) (← get).modules then
      symbolFor (some "") (source ++ "." ++ a.name) (some origin) .module
    else symbolFor (some source) a.name (some origin) .imported
  bindName (a.asName.getD a.name) (some id)
  addUses user id

/-! ## Expressions -/

def visitName (id : String) (mode : Mode) : Visit Unit := do
  match mode with
  | .delete => pure ()
  | .store => bindName id (← get).last
  | .load =>
    let value ← valueOf id
    let self := (← get).classes.head?
    if self.isSome && value == self then setLast value
    else
      let target ← match value with
        | some v => pure v
        | none => symbolFor none id (some { kind := "Name" }) .unknown
      addUses (← current) target
      setLast (some target)

def contextMethods : List String := ["__enter__", "__exit__"]

def useMethod (object : Id) (method : String) : Visit Unit := do
  let user ← current
  let target ← symbolFor (some (← symbolOf object).fullName) method none .method
  addUses user target

/-- An attribute that is read, up to the object in front of it: whether that is left to visit. -/
def visitAttribute (value : Tree) (attr : String) (mode : Mode) : Visit Bool := do
  match mode with
  | .delete => return false
  | .store =>
    let new := (← get).last
    let _ ← orUnresolved (writeAttribute value attr mode new) false
    return false
  | .load =>
    match ← orUnresolved (some <$> readAttribute value attr mode) none with
    | none => return false
    | some (_, some member) =>
      let user ← current
      addUses user member
      if !(← symbolOf member).isWild then removeWild user member attr
      setLast (some member)
      return false
    | some (some object, none) =>
      let symbol ← symbolOf object
      if symbol.isWild then return true
      let user ← current
      let target ← symbolFor (some symbol.fullName) attr (some { kind := "Attribute" }) .attribute
      addUses user target
      removeWild user object attr
      setLast (some target)
      return false
    | some (none, none) => return true

def functionFlavor (inClass : Bool) (decorators : List String) : Flavor :=
  if !inClass then .function
  else if decorators.contains "staticmethod" then .staticMethod
  else if decorators.contains "classmethod" then .classMethod
  else .method

def selfName? (flavor : Flavor) (params : Params) : Option String :=
  match flavor with
  | .method | .classMethod => params.ordinary.head?
  | _ => none

mutual

def visit : Tree → Visit Unit
  | .group children => visitAll children
  | .name id mode => visitName id mode
  | .attribute value attr mode => do
    if ← visitAttribute value attr mode then visit value
  | .constant type => do
    let id ← symbolFor (some (← currentName)) type (some { kind := "Constant" }) .attribute
    setLast (some id)
  | .call func args keywords => do
    visitAll args
    visitAll keywords
    match ← orUnresolved (objectOf (.call func args keywords)) none with
    | some result =>
      setLast (some result)
      addUses (← current) result
    | none =>
      visit func
      match (← get).last with
      | some f => if Assoc.has f (← get).bases then useMethod f "__init__"
      | none => pure ()
  | .bind targets values => do
    setLast none
    if targets.length == values.length then
      assignAll targets (← captureAll values)
    else
      visitAll values
      visitAll targets
    setLast none
  | .declare target => do
    setLast none
    visit target
  | .enter context => do
    setLast none
    visitAll context
    match (← get).last with
    | some object => contextMethods.forM (useMethod object)
    | none => pure ()
    setLast none
  | .function head decorators defaults body => do
    setLast none
    let names ← decoratorNames decorators
    let flavor := functionFlavor ((← get).inClass.headD false) names
    let _ ← define head.name (.ofHead head) flavor
    let inner ← enterBlock head.name false
    markParams inner head.params
    match selfName? flavor head.params, (← get).classes.head? with
    | some self, some c => setName inner self c
    | _, _ => pure ()
    visitAll defaults
    visitAll body
    leaveBlock
  | .lambda params defaults body =>
    inBlock "lambda" fun inner => do
      markParams inner params
      visitAll defaults
      visit body
  | .generator iters targets conditions further element => do
    visitAll iters
    inBlock "genexpr" fun _ => do
      visitAll targets
      setLast none
      visitAll conditions
      visitAll further
      visit element
  | .classDef name bases body => do
    let id ← define name { kind := "ClassDef" } .classObject
    modify fun s => { s with classes := id :: s.classes }
    let _ ← enterBlock name true
    modify fun s => { s with bases := Assoc.set id bases s.bases }
    visitAll bases
    visitAll body
    leaveBlock
    modify fun s => { s with classes := s.classes.tail }
  | .importModules aliases => aliases.forM importModule
  | .importFrom module level aliases => do
    let user ← current
    let source := importSource (← get).module module level
    aliases.forM (importName user source)

def visitAll : List Tree → Visit Unit
  | [] => pure ()
  | t :: ts => do
    visit t
    visitAll ts

def captureAll : List Tree → Visit (List (Option Id))
  | [] => return []
  | t :: ts => do
    visit t
    let value := (← get).last
    setLast none
    return value :: (← captureAll ts)

def assignAll : List Tree → List (Option Id) → Visit Unit
  | t :: ts, v :: vs => do
    setLast v
    visit t
    assignAll ts vs
  | _, _ => pure ()

def decoratorNames : List Tree → Visit (List String)
  | [] => return []
  | t :: ts => do
    visit t
    let value := (← get).last
    setLast none
    let rest ← decoratorNames ts
    match value with
    | some id => return (← symbolOf id).name :: rest
    | none => return rest

end

/-! ## Files -/

mutual

/-- Of two blocks with one name the later counts. -/
def blockScopes (outer : String) (scopes : List (String × Scope)) : Block → List (String × Scope)
  | .mk name names children =>
    let space := if name.isEmpty || name == "top" then outer else outer ++ "." ++ name
    blocksScopes space (Assoc.set space (Assoc.ofList (names.map (·, none))) scopes) children

def blocksScopes (outer : String) (scopes : List (String × Scope)) :
    List Block → List (String × Scope)
  | [] => scopes
  | b :: bs => blocksScopes outer (blockScopes outer scopes b) bs

end

def Scope.extend (old new : Scope) : Scope :=
  new.foldl (fun scope (n, v) => if Assoc.has n scope then scope else scope ++ [(n, v)]) old

def addScopes (block : Block) : Visit Unit :=
  modify fun s =>
    let new := blockScopes s.module [] block
    let scopes := new.foldl (fun scopes (space, scope) =>
      match Assoc.get? space scopes with
      | some old => Assoc.set space (Scope.extend old scope) scopes
      | none => scopes ++ [(space, scope)]) s.scopes
    { s with scopes }

def visitModule (body : List Tree) : Visit Unit := do
  let name := (← get).module
  let origin : Origin := { kind := "Module" }
  let module ← symbolFor (some "") name (some origin) .module
  associate module origin
  modify fun s => { s with path := name :: s.path }
  let _ ← scopeOf name
  modify fun s => { s with within := name :: s.within, inClass := false :: s.inClass }
  visitAll body
  leaveBlock
  setLast none
  addDefines module none

end Docsmith.Calls
