import Docsmith.Calls.Visit

/-! # Settling what a visit leaves open

Uses of unresolved names are spread over the symbols of that name, imported names are replaced by
what they stand for, uses of what does not exist are dropped to the bare name, uses that another use
implies are removed, and anonymous blocks hand their uses to the blocks around them. -/

namespace Docsmith.Calls

def Edges.pairs (edges : Edges) : List (Id × Id) :=
  edges.flatMap fun (a, bs) => bs.map (a, ·)

def addAllUses (pairs : List (Id × Id)) : Visit Unit :=
  pairs.forM fun (a, b) => addUses a b

def removeAllUses (pairs : List (Id × Id)) : Visit Unit :=
  pairs.forM fun (a, b) => modify fun s => { s with uses := s.uses.remove a b }

/-! ## Unresolved names -/

/-- A use of an unresolved name becomes a use of every symbol of that name. -/
def expandWild : Visit Unit := do
  let s ← get
  let new := s.uses.pairs.flatMap fun (a, b) =>
    if (s.symbol b).isWild then
      ((s.named (s.symbol b).name).filter fun c => !(s.symbol c).isWild).map (a, ·)
    else []
  addAllUses new
  modify fun s => { s with
    symbols := s.symbols.map fun x => if x.isWild then { x with defined := false } else x }

/-! ## Imports -/

def State.listed (s : State) : List Id :=
  (s.table.flatMap Prod.snd).eraseDups

/-- What an imported name stands for: a symbol of its name that its module uses. -/
def importTarget (id : Id) : Visit (Option Id) := do
  let s ← get
  let target ← match Assoc.get? id s.uses with
    | none => pure id
    | some [only] =>
      set { s with uses := Assoc.set id [] s.uses }
      pure only
    | some _ => throw .brokenInvariant
  let t ← symbolOf target
  let name := (← symbolOf id).name
  let module ← if t.space == some "" then pure target
    else if name == t.name then symbolFor (some "") (t.space.getD "") none .unspecified
    else throw .brokenInvariant
  let s ← get
  return (s.uses.targets module).find? fun c => (s.symbol c).name == name

def importTargets : Visit (List (Id × Id)) := do
  let s ← get
  let imports := s.listed.filter fun id => (s.symbol id).flavor == .imported
  let found ← imports.mapM fun id => do return (id, ← importTarget id)
  return found.filterMap fun (a, b) => b.map (a, ·)

/-- An attribute of an imported name stands for what the target defines under that name. -/
def State.attributeTarget? (s : State) (targets : List (Id × Id)) (id : Id) : Option Id :=
  let x := s.symbol id
  let matching := targets.filter fun (a, _) =>
    let y := s.symbol a
    y.flavor == .imported && some ((y.space.getD "None") ++ "." ++ y.name) == x.space
  (matching.filterMap fun (_, b) =>
    (s.defines.targets b).find? fun c => (s.symbol c).name == x.name).getLast?

def State.attributeTargets (s : State) (targets : List (Id × Id)) : List (Id × Id) :=
  (s.listed.filter fun id => !(s.symbol id).defined && (s.symbol id).flavor == .attribute).filterMap
    fun id => (s.attributeTarget? targets id).map (id, ·)

/-- Edges between what the ends stand for; sources without targets are dropped. -/
def Edges.rename (f : Id → Id) (edges : Edges) : Edges :=
  (edges.filter fun (_, bs) => !bs.isEmpty).foldl
    (fun m (a, bs) => Assoc.set (f a) (bs.map f).eraseDups m) []

def resolveImports : Visit Unit := do
  let targets ← importTargets
  modify fun s =>
    let all := targets ++ s.attributeTargets targets
    let f (id : Id) : Id := (Assoc.get? id all).getD id
    { s with
      table := s.table.map fun (n, ids) => (n, ids.map f),
      uses := s.uses.rename f,
      defines := s.defines.rename f }

/-! ## What does not exist -/

/-- A use of something that no file defines becomes a use of its bare name. -/
def contractMissing : Visit Unit := do
  let s ← get
  let gone := s.uses.pairs.filter fun (_, b) => !(s.symbol b).isWild && !(s.symbol b).defined
  let new ← gone.mapM fun (a, b) => do
    let x ← symbolOf b
    let wild ← symbolFor none x.name x.origin .unspecified
    modifySymbol wild ({ · with defined := false })
    return (a, wild)
  addAllUses new
  removeAllUses gone

/-! ## Inherited uses -/

def rivals (x y : Symbol) : Bool :=
  y.name == x.name && !x.isWild && !y.isWild && y.space != x.space

/-- Whether `all` has another symbol of the name of `b` whose space is used by the space of `b`. -/
def isImplied (b : Id) (all : List Id) : Visit Bool := do
  let hits ← all.mapM fun c => do
    if rivals (← symbolOf b) (← symbolOf c) then
      let above ← parentOf b
      let other ← parentOf c
      return ((← get).uses.targets above).contains other
    else return false
  return hits.contains true

def cullInherited : Visit Unit := do
  let uses := (← get).uses
  let gone ← uses.flatMapM fun (a, bs) =>
    bs.filterMapM fun b => do return if ← isImplied b bs then some (a, b) else none
  removeAllUses gone

/-! ## Anonymous blocks -/

def blockLabels : List String := ["lambda", "listcomp", "setcomp", "dictcomp", "genexpr"]

def collapse (id : Id) : Visit Unit := do
  let outer ← parentOf id
  ((← get).uses.targets id).forM (addUses outer)
  modifySymbol id ({ · with defined := false })

/-- The block around one can be new in the table and is then collapsed after it; it is nested less
deep, which bounds the number of rounds. -/
def collapseFrom (name : String) : Nat → Nat → Visit Unit
  | 0, _ => pure ()
  | rounds + 1, done => do
    match ((← get).named name).drop done with
    | [] => pure ()
    | todo => do
      todo.forM collapse
      collapseFrom name rounds (done + todo.length)

def State.nesting (s : State) (name : String) : Nat :=
  ((s.named name).map fun id => (Text.splitOn "." ((s.symbol id).space.getD "")).length).foldl max 0

def collapseBlocks : Visit Unit := do
  let names := (← get).table.map Prod.fst
  (names.filter blockLabels.contains).forM fun name => do
    collapseFrom name ((← get).nesting name + 2) 0

def settle : Visit Unit := do
  expandWild
  resolveImports
  contractMissing
  cullInherited
  collapseBlocks

end Docsmith.Calls
