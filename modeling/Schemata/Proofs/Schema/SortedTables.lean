import Schemata.Document.Resolve
import Schemata.Proofs.Database
import Schemata.Proofs.Document.Written

/-!
# Tables in order

Sorting leaves exactly those lists of tables as they are in which each table already follows all
others it refers to. A list that was sorted is one of them, and so is the list of the tables of a
database.
-/
namespace Schemata
namespace Catalog

variable {c : Catalog} {tables sorted : List TableRef}

/-- Each table stands behind all others of the list that it refers to. -/
def InOrder (c : Catalog) (tables : List TableRef) : Prop :=
  ∀ t p, c.References tables t p → tables.idxOf p < tables.idxOf t

theorem References.of_perm {t p : TableRef} (h : c.References sorted t p)
    (perm : sorted.Perm tables) :
    c.References tables t p := by
  obtain ⟨ht, hp, refers⟩ := h
  exact ⟨perm.mem_iff.mp ht, perm.mem_iff.mp hp, refers⟩

theorem InOrder.descending (h : c.InOrder tables) (distinct : tables.Nodup) :
    (c.dependencyGraph tables).Descending := by
  intro i j edge
  obtain ⟨t, p, ht, hp, refers⟩ := (edge_dependencyGraph distinct).mp edge
  have hlt := h t p ⟨List.mem_of_getElem? ht, List.mem_of_getElem? hp, refersTo_iff.mp refers⟩
  obtain ⟨hi, rfl⟩ := List.getElem?_eq_some_iff.mp ht
  obtain ⟨hj, rfl⟩ := List.getElem?_eq_some_iff.mp hp
  rwa [distinct.idxOf_getElem j hj, distinct.idxOf_getElem i hi] at hlt

theorem InOrder.sortTables (h : c.InOrder tables) (distinct : tables.Nodup) :
    c.sortTables tables = .ok tables := by
  have descending := h.descending distinct
  have acyclic : (c.dependencyGraph tables).findCycle = [] :=
    (Digraph.findCycle_eq_nil_iff descending.bounded).mpr descending.acyclic
  simp only [Catalog.sortTables, acyclic, descending.order_eq_range, size_dependencyGraph,
    filterMap_getElem?_range]

theorem inOrder_of_sortTables (distinct : tables.Nodup) (h : c.sortTables tables = .ok sorted) :
    sorted.Nodup ∧ c.InOrder sorted := by
  obtain ⟨_, perm, behind⟩ := sortTables_of_ok distinct h
  exact ⟨perm.nodup_iff.mpr distinct, fun t p refers => behind t p (refers.of_perm perm)⟩

end Catalog

namespace Options

variable {o : Options} {m : Model} {c c' : Catalog} {db : Database}

/-- Which tables a table refers to is not changed by what is added after the tables were sorted. -/
theorem build_inOrder (h : (o.build m c).value = .ok (db, c')) :
    db.tables.Nodup ∧ c'.InOrder db.tables := by
  rw [build_eq] at h
  obtain ⟨map, _, h⟩ := Logged.bind_eq_ok.mp h
  obtain ⟨linked, hl, table⟩ := buildWith_tables h
  obtain ⟨definitions, _, perm, behind, _⟩ := deriveTables_cases hl
  refine ⟨perm.nodup_iff.mpr (c.nodup_added _), ?_⟩
  rintro t p ⟨ht, hp, distinct, refers⟩
  obtain ⟨_, keys, hk⟩ := table p hp
  rw [hk] at refers
  exact behind t p (Catalog.References.of_perm ⟨ht, hp, distinct, refers⟩ perm)

end Options

namespace Catalog

/-- Distinct tables are left as they are exactly if they are in order. Sorting them a second time
therefore changes nothing, and neither does sorting the tables of a database that was built. -/
theorem sortTables_unchanged (c : Catalog) (tables : List TableRef) (distinct : tables.Nodup) :
    (c.sortTables tables = .ok tables ↔ c.InOrder tables) ∧
      (∀ sorted, c.sortTables tables = .ok sorted → c.sortTables sorted = .ok sorted) ∧
      ∀ (o : Options) (m : Model) (db : Database) (c' : Catalog),
        (o.build m c).value = .ok (db, c') → c'.sortTables db.tables = .ok db.tables := by
  refine ⟨⟨fun h => (inOrder_of_sortTables distinct h).2, fun h => h.sortTables distinct⟩, ?_, ?_⟩
  · intro sorted h
    obtain ⟨distinct', inOrder⟩ := inOrder_of_sortTables distinct h
    exact inOrder.sortTables distinct'
  · intro o m db c' h
    obtain ⟨distinct', inOrder⟩ := Options.build_inOrder h
    exact inOrder.sortTables distinct'

/-- Two tables refer to the third one, which is sorted to the front and stays there. A database
whose tables are added to the same catalog has the table of the second classifier first. -/
theorem sortTables_unchanged_three :
    let c : Catalog := { tables := [{}, {}, { dependents := [⟨⟨0⟩, 0⟩, ⟨⟨1⟩, 0⟩, ⟨⟨2⟩, 0⟩] }] }
    let tables : List TableRef := [⟨0⟩, ⟨1⟩, ⟨2⟩]
    let sorted : List TableRef := [⟨2⟩, ⟨0⟩, ⟨1⟩]
    let document : ModelDocument := { name := "m", classifiers := [
      { id := "e", name := "Employee", attributes := [
        .identity "Id" "integer", .of "department" "d"] },
      { id := "d", name := "Department", attributes := [.identity "Id" "integer"] }] }
    ∃ m db c', Model.ofDatum document.write = .ok m ∧
      ((Options.of .sqlServer).build m c).value = .ok (db, c') ∧ db.tables = [⟨4⟩, ⟨3⟩] ∧
      c'.sortTables db.tables = .ok db.tables ∧
      tables.Nodup ∧ c.sortTables tables = .ok sorted ∧ ¬ c.InOrder tables ∧
      sorted.Nodup ∧ c.sortTables sorted = .ok sorted ∧ c.InOrder sorted := by
  intro c tables sorted document
  have hrun : (Options.of .sqlServer).observe document (fun _ db c' =>
      .ok db.tables) c =
      .ok [⟨4⟩, ⟨3⟩] := by
    decide +kernel
  obtain ⟨m, db, c', hm, hb, hrun⟩ := Options.observe_eq_ok.mp hrun
  have hsort : c.sortTables tables = .ok sorted := rfl
  obtain ⟨unchanged, again, built⟩ := sortTables_unchanged c tables (by decide)
  refine ⟨m, db, c', hm, hb, Except.ok.inj hrun, built _ m db c' hb, by decide, hsort,
    fun h => ?_, by decide, again sorted hsort,
    (sortTables_unchanged c sorted (by decide)).1.mp (again sorted hsort)⟩
  exact absurd (Except.ok.inj (hsort.symm.trans (unchanged.mpr h))) (by decide)

end Catalog
end Schemata
