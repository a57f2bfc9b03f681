import Docsmith.Calls.State

/-! # Symbols related to one

The search goes along uses and definitions as long as they stay in a space, and stops after a number
of symbols. -/

namespace Docsmith.Calls

def State.inSpace (s : State) (space : String) (id : Id) : Except Fault Bool :=
  match (s.symbol id).space with
  | none => .error .noSpace
  | some own => .ok (Text.contains space own)

/-- The targets of a symbol that are sources themselves, were not found yet and stay in a space. -/
def State.onward (s : State) (edges : Edges) (space : String) (found : List Id) (id : Id) :
    Except Fault (List Id) :=
  (edges.targets id).filterM fun n =>
    if Assoc.has n edges && !found.contains n then s.inSpace space n else .ok false

/-- Searches from a stack of symbols. Every symbol found uses up one of `limit`; the one that finds
it used up is the last. -/
def State.search (s : State) (space : String) (limit : Nat) (found stack : List Id) :
    Except Fault (List Id) :=
  match stack with
  | [] => .ok found
  | id :: rest =>
    if found.contains id then s.search space limit found rest
    else
      match limit with
      | 0 => .ok (found ++ [id])
      | limit + 1 => do
        let found := found ++ [id]
        let used ← s.onward s.uses space found id
        let defined ← s.onward s.defines space found id
        s.search space limit found (defined.reverse ++ (used.reverse ++ rest))
termination_by (limit, stack.length)

def State.outermost (s : State) (id : Id) : Except Fault String :=
  match (s.symbol id).space with
  | none => .error .noSpaceToSearch
  | some own => .ok (Text.before "." (Text.stripOf ['.'] own))

/-- The symbols related to one, or, without one, all symbols in a space. -/
def State.related (s : State) (id : Option Id) (space : Option String) (limit : Nat) :
    Except Fault (List Id) := do
  match id with
  | some id =>
    let space ← match space with
      | some t => pure t
      | none => s.outermost id
    s.search space limit [] [id]
  | none =>
    let all := (s.table.flatMap Prod.snd).eraseDups
    match space with
    | none => return all
    | some t => return all.filter fun n => ((s.symbol n).space.map (Text.contains t)).getD false

def State.restrict (s : State) (keep : List Id) : State :=
  let cut (edges : Edges) : Edges :=
    (edges.filter fun (a, _) => keep.contains a).map fun (a, bs) => (a, bs.filter keep.contains)
  { s with
    table := s.table.map fun (n, ids) => (n, ids.filter keep.contains),
    uses := cut s.uses,
    defines := cut s.defines }

end Docsmith.Calls
