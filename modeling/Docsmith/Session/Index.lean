import Docsmith.Session.World

/-! # An index of texts

Texts are encoded in batches. The index finds the texts closest to a query, or groups texts by their
likeness. -/

namespace Docsmith.Index

def batch : Nat := 32

def batches (n : Nat) : List Nat :=
  List.replicate (n / batch) batch ++ (if n % batch = 0 then [] else [n % batch])

def log (c : IndexCall) : Run Unit :=
  modify fun w => { w with indexCalls := w.indexCalls ++ [c] }

def encode (n : Nat) : Run Unit := do
  (batches n).forM fun b => log (.encode b)
  if n = 0 then throw .nothingToEncode

def add (n : Nat) : Run Unit := do
  encode n
  log (.add n)

def query (k : Nat) : Run (List Int) := do
  log (.encode 1)
  log (.search 1 k)
  match (← get).hits with
  | [] => return []
  | found :: rest =>
    modify fun w => { w with hits := rest }
    return found

def usualHits : Nat := 3

/-- How many groups `n` texts are put into: half the root of their number, but at least one. -/
def groups (n : Nat) : Nat :=
  max 1 ((List.range n).filter fun c => 4 * (c + 1) * (c + 1) ≤ n).length

/-- The positions of each label, by first occurrence; positions count from `start`. -/
def positions {α : Type} [DecidableEq α] (labels : List α) : List (List Nat) :=
  labels.eraseDups.map fun l =>
    (labels.zipIdx.filter fun (m, _) => m == l).map Prod.snd

def cluster (n : Nat) : Run (List (List Nat)) := do
  encode n
  log (.cluster (groups n) 20)
  log (.train n)
  let labels := (← get).labels
  return positions ((List.range n).map fun i => labels.getD i 0)

def at? {α : Type} (xs : List α) (i : Int) : Option α :=
  if i < 0 then
    if xs.length < i.natAbs then none else xs[xs.length - i.natAbs]?
  else xs[i.toNat]?

end Docsmith.Index
