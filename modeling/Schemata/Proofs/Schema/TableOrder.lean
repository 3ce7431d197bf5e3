import Schemata.Proofs.Digraph.Naming
import Schemata.Proofs.Digraph.Order
import Schemata.Schema.Dependency

/-!
# The order of tables

Sorting distinct tables either puts each of them behind all others it refers to, or reports a cycle
because there is one.
-/
namespace Schemata
namespace Catalog
open Relation

variable {c : Catalog} {tables : List TableRef}

/-- Both tables are listed, they differ, and one of the first table's columns is among the
dependents of the second. -/
def References (c : Catalog) (tables : List TableRef) (table principal : TableRef) : Prop :=
  table ∈ tables ∧ principal ∈ tables ∧ table ≠ principal ∧
    ∃ column ∈ (c.table principal).dependents, column.table = table

theorem refersTo_iff {table principal : TableRef} : c.refersTo table principal = true ↔
    table ≠ principal ∧ ∃ column ∈ (c.table principal).dependents, column.table = table := by
  simp [refersTo]

@[simp] theorem size_dependencyGraph : (c.dependencyGraph tables).size = tables.length := by
  simp [Digraph.size, dependencyGraph]

/-- In the graph of table positions the last position of a table leads to those it refers to. -/
theorem edge_dependencyGraph_iff {i j : Nat} : (c.dependencyGraph tables).Edge i j ↔
    ∃ t p, tables[i]? = some t ∧ t ∉ tables.drop (i + 1) ∧ tables[j]? = some p ∧
      c.refersTo t p = true := by
  rw [Digraph.Edge, Digraph.next, dependencyGraph, List.getD_eq_getElem?_getD, List.getElem?_map,
    List.getElem?_zipIdx]
  cases tables[i]? with
  | none => simp
  | some t =>
    simp only [Option.map_some, Nat.zero_add, Option.getD_some, List.contains_iff_mem]
    split_ifs with later
    · simp [later]
    · simp only [List.mem_filter, List.mem_range, Option.any_eq_true]
      constructor
      · rintro ⟨_, p, hp, hr⟩
        exact ⟨t, p, rfl, later, hp, hr⟩
      · rintro ⟨t', p, ht, _, hp, hr⟩
        obtain rfl : t = t' := by simpa using ht
        exact ⟨(List.getElem?_eq_some_iff.mp hp).1, p, hp, hr⟩

theorem edge_dependencyGraph (distinct : tables.Nodup) {i j : Nat} :
    (c.dependencyGraph tables).Edge i j ↔
      ∃ t p, tables[i]? = some t ∧ tables[j]? = some p ∧ c.refersTo t p = true := by
  rw [edge_dependencyGraph_iff]
  constructor
  · rintro ⟨t, p, ht, _, hp, hr⟩
    exact ⟨t, p, ht, hp, hr⟩
  · rintro ⟨t, p, ht, hp, hr⟩
    exact ⟨t, p, ht, not_mem_drop_of_nodup distinct ht, hp, hr⟩

theorem bounded_dependencyGraph : (c.dependencyGraph tables).Bounded := by
  intro i j edge
  obtain ⟨_, p, _, _, hp, _⟩ := edge_dependencyGraph_iff.mp edge
  simpa using (List.getElem?_eq_some_iff.mp hp).1

theorem loopless_dependencyGraph (distinct : tables.Nodup) :
    (c.dependencyGraph tables).Loopless := by
  intro i edge
  obtain ⟨t, p, ht, hp, hr⟩ := (edge_dependencyGraph distinct).mp edge
  obtain rfl : t = p := by simpa [ht] using hp
  exact (refersTo_iff.mp hr).1 rfl

theorem named_dependencyGraph (distinct : tables.Nodup) :
    (c.dependencyGraph tables).Named tables (c.References tables) where
  distinct := distinct
  edge := by
    intro i j
    rw [edge_dependencyGraph distinct]
    constructor
    · rintro ⟨t, p, ht, hp, hr⟩
      exact ⟨t, p, ht, hp, List.mem_of_getElem? ht, List.mem_of_getElem? hp, refersTo_iff.mp hr⟩
    · rintro ⟨t, p, ht, hp, _, _, hr⟩
      exact ⟨t, p, ht, hp, refersTo_iff.mpr hr⟩
  size := size_dependencyGraph
  mem := fun _ _ h => ⟨h.1, h.2.1⟩

theorem cyclic_dependencyGraph (distinct : tables.Nodup) :
    (c.dependencyGraph tables).Cyclic ↔ ∃ t, TransGen (c.References tables) t t := by
  have hne : (fun t p => c.References tables t p ∧ t ≠ p) = c.References tables := by
    funext t p
    exact propext ⟨And.left, fun h => ⟨h, h.2.2.1⟩⟩
  rw [(named_dependencyGraph distinct).cyclic_iff, hne]

theorem sortTables_of_ok {sorted : List TableRef} (distinct : tables.Nodup)
    (h : c.sortTables tables = .ok sorted) :
    (¬ ∃ t, TransGen (c.References tables) t t) ∧ sorted.Perm tables ∧
      ∀ t p, c.References tables t p → sorted.idxOf p < sorted.idxOf t := by
  have bounded : (c.dependencyGraph tables).Bounded := bounded_dependencyGraph
  have loopless := loopless_dependencyGraph (c := c) distinct
  rw [sortTables] at h
  split at h
  case h_2 => cases h
  case h_1 hcycle =>
    cases h
    have acyclic := (Digraph.findCycle_eq_nil_iff bounded).mp hcycle
    -- The order of positions is carried over to the tables at these positions.
    have hperm : ((c.dependencyGraph tables).order.filterMap (tables[·]?)).Perm tables := by
      have := (Digraph.order_perm bounded loopless acyclic).filterMap (tables[·]?)
      rwa [size_dependencyGraph, filterMap_getElem?_range] at this
    refine ⟨fun hc => acyclic ((cyclic_dependencyGraph distinct).mpr hc), hperm, ?_⟩
    rintro t p ⟨ht, hp, hne, hc⟩
    have ht' := List.getElem?_idxOf ht
    have hp' := List.getElem?_idxOf hp
    have edge := (edge_dependencyGraph distinct).mpr ⟨t, p, ht', hp', refersTo_iff.mpr ⟨hne, hc⟩⟩
    have hs := (Digraph.order_sublist bounded loopless acyclic edge).filterMap (tables[·]?)
    refine idxOf_lt_of_sublist (hperm.nodup_iff.mpr distinct) ?_
    simpa [ht', hp'] using hs

theorem sortTables_of_error {fault : Fault} (distinct : tables.Nodup)
    (h : c.sortTables tables = .error fault) :
    (∃ names, fault = .cycle names) ∧ ∃ t, TransGen (c.References tables) t t := by
  have bounded : (c.dependencyGraph tables).Bounded := bounded_dependencyGraph
  rw [sortTables] at h
  split at h
  case h_1 => cases h
  case h_2 hcycle =>
    cases h
    refine ⟨⟨_, rfl⟩, (cyclic_dependencyGraph distinct).mp ?_⟩
    exact not_not.mp fun acyclic => hcycle ((Digraph.findCycle_eq_nil_iff bounded).mpr acyclic)

/-- A cycle is reported exactly if there is one. Otherwise the result lists the same tables, each
behind all others it refers to. -/
theorem sortTables_topological (c : Catalog) (tables : List TableRef) (distinct : tables.Nodup) :
    ((∃ names, c.sortTables tables = .error (.cycle names)) ↔
        ∃ t, TransGen (c.References tables) t t) ∧
      ((¬ ∃ t, TransGen (c.References tables) t t) →
        ∃ sorted, c.sortTables tables = .ok sorted ∧ sorted.Perm tables ∧
          ∀ t p, c.References tables t p → sorted.idxOf p < sorted.idxOf t) := by
  cases h : c.sortTables tables with
  | ok sorted =>
    obtain ⟨acyclic, hperm, hbefore⟩ := sortTables_of_ok distinct h
    refine ⟨⟨?_, fun hc => absurd hc acyclic⟩, fun _ => ⟨sorted, rfl, hperm, hbefore⟩⟩
    rintro ⟨_, e⟩
    cases e
  | error fault =>
    obtain ⟨⟨names, rfl⟩, hc⟩ := sortTables_of_error distinct h
    exact ⟨⟨fun _ => hc, fun _ => ⟨names, rfl⟩⟩, fun acyclic => absurd hc acyclic⟩

/-- The first table refers to the third and the second to both; a column of the table itself, a
repeated column and a column of a table that is not listed do not count. -/
theorem sortTables_topological_three :
    let c : Catalog := { tables := [{ dependents := [⟨⟨1⟩, 0⟩, ⟨⟨0⟩, 0⟩] }, {},
      { dependents := [⟨⟨0⟩, 1⟩, ⟨⟨1⟩, 1⟩, ⟨⟨1⟩, 1⟩, ⟨⟨7⟩, 0⟩] }] }
    let tables : List TableRef := [⟨0⟩, ⟨1⟩, ⟨2⟩]
    tables.Nodup ∧ c.sortTables tables = .ok [⟨2⟩, ⟨0⟩, ⟨1⟩] ∧
      ((∃ names, c.sortTables tables = .error (.cycle names)) ↔
        ∃ t, TransGen (c.References tables) t t) ∧
      ((¬ ∃ t, TransGen (c.References tables) t t) →
        ∃ sorted, c.sortTables tables = .ok sorted ∧ sorted.Perm tables ∧
          ∀ t p, c.References tables t p → sorted.idxOf p < sorted.idxOf t) :=
  ⟨by decide, rfl, sortTables_topological _ _ (by decide)⟩

end Catalog

end Schemata
