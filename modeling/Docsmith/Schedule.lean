import Docsmith.Digraph.Layers
import Docsmith.Fault

/-! # Scheduling tasks

A task is in a later group than all it depends on. Every task of a group runs, even when one of them
fails; the failure then ends the schedule before the next group. -/

namespace Docsmith

structure Job (α : Type) where
  key : α
  dependencies : Option (List α) := none
deriving Repr

namespace Job

def label (work : String) (job : Job String) : String :=
  "Task(" ++ work ++ ", (" ++ Text.quoted job.key ++ ",))"

def same {α : Type} [DecidableEq α] (a b : Job α) : Bool :=
  a.key = b.key

end Job

namespace Schedule

variable {α : Type} [DecidableEq α]

def add (g : Digraph α) (job : Job α) : Digraph α :=
  (job.dependencies.getD []).foldl (fun g dep => g.addEdge (job.key, dep)) (g.addNode job.key)

def ofJobs (jobs : List (Job α)) : Digraph α :=
  jobs.foldl add {}

def jobsOf (g : Digraph α) : List (Job α) :=
  g.nodes.map fun n => { key := n, dependencies := some (g.successors n) }

/-- Runs every task of a group in order: the first failure, if any, and the state after all of
them. -/
def runGroup {σ : Type} (work : α → σ → Except Fault Unit × σ) :
    List α → σ → Option Fault × σ
  | [], s => (none, s)
  | a :: rest, s =>
    let (outcome, s) := work a s
    let (later, s) := runGroup work rest s
    match outcome with
    | .ok () => (later, s)
    | .error f => (some f, s)

def runGroups {σ : Type} (work : α → σ → Except Fault Unit × σ) :
    List (List α) → σ → Except Fault Unit × σ
  | [], s => (.ok (), s)
  | group :: rest, s =>
    match runGroup work group s with
    | (none, s) => runGroups work rest s
    | (some f, s) => (.error f, s)

/-- Runs the tasks of a graph, each after its successors. Nothing runs if the graph has a cycle. -/
def run {σ : Type} [Hashable α] (g : Digraph α) (work : α → σ → Except Fault Unit × σ) (s : σ) :
    Except Fault Unit × σ :=
  if g.isAcyclic then runGroups work g.layers s else (.error .cyclicTasks, s)

end Schedule

end Docsmith
