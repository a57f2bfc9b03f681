import Docsmith.Digraph.Basic

/-! # Ranking nodes by a random walk

With probability `damping` a walker follows an edge of the node it is in, each with the same chance;
otherwise, or if there is none, it jumps anywhere. The shares of time in each node are approached by
iteration from the uniform distribution. -/

namespace Docsmith.Digraph

variable {α : Type} [DecidableEq α]

structure Walk where
  size : Nat
  out : List (Nat × List Nat)

namespace Walk

def damping : Float := 0.85

/-- The walk stops changing when the shares move by less than this per node. -/
def tolerance : Float := 1.0e-6

def maxSteps : Nat := 100

def step (w : Walk) (x : Array Float) : Array Float :=
  let jump := 1.0 / w.size.toFloat
  let moved := w.out.foldl (fun acc (u, vs) =>
    let part := x.getD u 0.0 * (1.0 / vs.length.toFloat)
    vs.foldl (fun acc v => acc.modify v (· + part)) acc) (Array.replicate w.size 0.0)
  let stuck := w.out.foldl (fun s (u, vs) => if vs.isEmpty then s + x.getD u 0.0 else s) 0.0
  moved.map fun y => damping * (y + stuck * jump) + (1.0 - damping) * jump

def distance (x y : Array Float) : Float :=
  (x.zip y).foldl (fun s (a, b) => s + (a - b).abs) 0.0

def iterate (w : Walk) : Nat → Array Float → Array Float
  | 0, x => x
  | k + 1, x =>
    let y := w.step x
    if distance x y < w.size.toFloat * tolerance then y else iterate w k y

def shares (w : Walk) : Array Float :=
  w.iterate maxSteps (Array.replicate w.size (1.0 / w.size.toFloat))

end Walk

def walk (g : Digraph α) : Walk where
  size := g.nodes.length
  out := g.nodes.zipIdx.map fun (n, i) =>
    (i, (g.successors n).map fun m => g.nodes.idxOf m)

def ranks (g : Digraph α) : List (α × Float) :=
  g.nodes.zip g.walk.shares.toList

end Docsmith.Digraph
