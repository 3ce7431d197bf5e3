/-!
# Directed graphs

Finite graphs on the numbers below their size. `findCycle` looks for a cycle other than a loop at
one node, and `order` puts the nodes behind all they lead to, provided there is no such cycle.
-/
namespace Schemata

/-- The nodes that each node leads to, in the order in which they are tried. -/
structure Digraph where
  successors : List (List Nat)
  deriving DecidableEq, Repr

namespace Digraph

def size (g : Digraph) : Nat := g.successors.length

def next (g : Digraph) (v : Nat) : List Nat := g.successors.getD v []

def Edge (g : Digraph) (v w : Nat) : Prop := w ∈ g.next v

instance (g : Digraph) (v w : Nat) : Decidable (g.Edge v w) := inferInstanceAs (Decidable (_ ∈ _))

/-- A sequence of edges between distinct nodes. -/
inductive Walk (g : Digraph) : Nat → Nat → Prop
  | one {v w : Nat} (edge : g.Edge v w) (distinct : v ≠ w) : Walk g v w
  | step {v w x : Nat} (edge : g.Edge v w) (distinct : v ≠ w) (rest : Walk g w x) : Walk g v x

/-- Some node leads back to itself by way of another. -/
def Cyclic (g : Digraph) : Prop := ∃ v, g.Walk v v

/-- Follows all edges that leave a node, depth first. `above` is the way to the node, nearest first;
`cleared` holds the nodes from which all edges were followed. The way from a node to itself is
reported as soon as an edge leads back into the way. -/
def search (g : Digraph) : Nat → List Nat → Nat → List Nat → Except (List Nat) (List Nat)
  | 0, _, _, cleared => .ok cleared
  | depth + 1, above, node, cleared => do
    let cleared ← (g.next node).foldlM (fun cleared w =>
      if w = node ∨ w ∈ cleared then .ok cleared
      else if w ∈ above then .error (node :: above.takeWhile (· ≠ w) ++ [w]).reverse
      else g.search depth (node :: above) w cleared) cleared
    return node :: cleared

/-- The nodes of a cycle in the order of its edges, or none. Loops at one node do not count. -/
def findCycle (g : Digraph) : List Nat :=
  let result := (List.range g.size).foldlM (fun cleared start =>
    if start ∈ cleared then .ok cleared else g.search g.size [] start cleared) []
  match result with
  | .error cycle => cycle
  | .ok _ => []

/-- Appends a node behind the nodes it leads to, unless it is listed already. -/
def visit (g : Digraph) : Nat → List Nat → Nat → List Nat
  | 0, done, _ => done
  | depth + 1, done, v =>
    if v ∈ done then done else (g.next v).foldl (g.visit depth) done ++ [v]

/-- All nodes in depth-first post-order. -/
def order (g : Digraph) : List Nat := (List.range g.size).foldl (g.visit g.size) []

end Digraph

end Schemata
