import Schemata.Proofs.Digraph.Exploration
import Schemata.Proofs.Schema.TableOrder

/-!
# Cycles of tables

When tables cannot be sorted, those that are named in the fault refer to one another in a circle.
The search behind it is one of maps from nodes to the nodes they lead to: it ends, and it reports a
circle exactly if there is one.
-/
namespace Schemata

namespace Digraph
open Relation

variable {α : Type} {g : Digraph} {names : List α} {R : α → α → Prop}

/-- The names on the way around a reported cycle, and none exactly if the graph has no cycle. -/
theorem Named.circle_findCycle (h : g.Named names R) :
    (g.findCycle.filterMap (names[·]?) = [] ∧ ¬ g.Cyclic) ∨
      (Circle R (g.findCycle.filterMap (names[·]?)) ∧ g.Cyclic) := by
  rcases findCycle_sound h.bounded with ⟨hnil, acyclic⟩ | hcycle
  · exact .inl ⟨by simp [hnil], acyclic⟩
  · exact .inr ⟨h.circle hcycle, hcycle.cyclic⟩

theorem Named.findCycle_eq_nil_iff [DecidableEq α] (h : g.Named names R) :
    g.findCycle.filterMap (names[·]?) = [] ↔ ¬ ∃ a, TransGen (fun a b => R a b ∧ a ≠ b) a a := by
  rw [← h.cyclic_iff]
  rcases h.circle_findCycle with ⟨hnil, acyclic⟩ | ⟨circle, cyclic⟩
  · simp [hnil, acyclic]
  · simp [circle.ne_nil, cyclic]

end Digraph

namespace Catalog
open Relation Schemata.Digraph

variable {c : Catalog} {tables : List TableRef}

/-- Two positions with the same table are one if edges leave both: all edges leave its last
position. -/
theorem eq_of_edge_dependencyGraph {i j : Nat} {t : TableRef}
    (hi : ∃ k, (c.dependencyGraph tables).Edge i k) (hj : ∃ k, (c.dependencyGraph tables).Edge j k)
    (hti : tables[i]? = some t) (htj : tables[j]? = some t) : i = j := by
  have hle : ∀ i j : Nat, (∃ k, (c.dependencyGraph tables).Edge i k) → tables[i]? = some t →
      tables[j]? = some t → j ≤ i := by
    rintro i j ⟨k, edge⟩ hi hj
    obtain ⟨t', _, ht, last, _⟩ := edge_dependencyGraph_iff.mp edge
    obtain rfl : t = t' := Option.some.inj (hi.symm.trans ht)
    by_contra hlt
    refine last (List.mem_iff_getElem?.mpr ⟨j - (i + 1), ?_⟩)
    rw [List.getElem?_drop, ← hj]
    congr 1
    omega
  exact Nat.le_antisymm (hle j i hj htj hti) (hle i j hi hti htj)

/-- The tables of a reported cycle are a circle, also if tables are listed repeatedly. -/
theorem circle_of_sortTables {names : List String}
    (h : c.sortTables tables = .error (.cycle names)) :
    ∃ ts, Circle (c.References tables) ts ∧ names = ts.map fun t => (c.table t).name := by
  rw [sortTables] at h
  split at h
  case h_1 => cases h
  case h_2 hne =>
    cases h
    rcases findCycle_sound bounded_dependencyGraph with ⟨hnil, _⟩ | hcycle
    · exact absurd hnil hne
    · refine ⟨_, hcycle.circle ?_ fun _ _ _ => eq_of_edge_dependencyGraph, rfl⟩
      intro i j edge
      obtain ⟨t, p, ht, _, hp, hr⟩ := edge_dependencyGraph_iff.mp edge
      exact ⟨t, p, ht, hp, List.mem_of_getElem? ht, List.mem_of_getElem? hp, refersTo_iff.mp hr⟩

/-- The search in a map ends. It reports nothing exactly if no node leads back to itself by way of
another, and a circle of nodes otherwise. So the tables that sorting reports are a circle. -/
theorem sortTables_circle {α : Type} [DecidableEq α] (map : List (α × List α))
    (distinct : (map.map Prod.fst).Nodup)
    (closed : ∀ entry ∈ map, ∀ b ∈ entry.2, b ∈ map.map Prod.fst) :
    Exploration.Ends (ofMap map) { starts := List.range map.length } (ofMap map).findCycle ∧
      (cycleOf map = [] ↔ ¬ ∃ a, TransGen (fun a b => Leads map a b ∧ a ≠ b) a a) ∧
      (cycleOf map ≠ [] → Circle (Leads map) (cycleOf map)) ∧
      ∀ (c : Catalog) (tables : List TableRef) (names : List String),
        c.sortTables tables = .error (.cycle names) →
          ∃ ts, Circle (c.References tables) ts ∧ names = ts.map fun t => (c.table t).name := by
  have named := named_ofMap distinct closed
  have hsize : (ofMap map).size = map.length := by simpa using named.size
  refine ⟨hsize ▸ ends_findCycle named.bounded, named.findCycle_eq_nil_iff, ?_,
    fun _ _ _ => circle_of_sortTables⟩
  intro hne
  rcases named.circle_findCycle with ⟨hnil, _⟩ | ⟨circle, _⟩
  · exact absurd hnil hne
  · exact circle

/-- The first node leads to itself and into a circle of the others, and the first table into a
circle of the others. -/
theorem sortTables_circle_three :
    let map : List (Nat × List Nat) := [(30, [10, 30]), (10, [20]), (20, [10, 20])]
    let c : Catalog := { tables := [{ name := "A", dependents := [⟨⟨0⟩, 0⟩, ⟨⟨1⟩, 0⟩] },
      { name := "B", dependents := [⟨⟨0⟩, 1⟩, ⟨⟨2⟩, 0⟩] }, { name := "C" }] }
    let tables : List TableRef := [⟨2⟩, ⟨0⟩, ⟨1⟩]
    (map.map Prod.fst).Nodup ∧ (∀ entry ∈ map, ∀ b ∈ entry.2, b ∈ map.map Prod.fst) ∧
      Exploration.Ends (ofMap map) { starts := List.range 3 } (ofMap map).findCycle ∧
      cycleOf map = [10, 20] ∧ Circle (Leads map) [10, 20] ∧
      c.sortTables tables = .error (.cycle ["B", "A"]) ∧
      ∃ ts, Circle (c.References tables) ts ∧ ["B", "A"] = ts.map fun t => (c.table t).name := by
  intro map c tables
  have distinct : (map.map Prod.fst).Nodup := by decide
  have closed : ∀ entry ∈ map, ∀ b ∈ entry.2, b ∈ map.map Prod.fst := by decide
  have hcycle : cycleOf map = [10, 20] := rfl
  have hsort : c.sortTables tables = .error (.cycle ["B", "A"]) := rfl
  obtain ⟨ends, _, circle, tablesCircle⟩ := sortTables_circle map distinct closed
  rw [hcycle] at circle
  exact ⟨distinct, closed, ends, hcycle, circle (by simp), hsort, tablesCircle c tables _ hsort⟩

end Catalog

end Schemata
