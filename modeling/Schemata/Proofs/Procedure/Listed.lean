import Schemata.Proofs.Assembled
import Schemata.Proofs.Document.Written
import Schemata.Proofs.Model.Loaded

/-!
# Table types of a database

The table types of a database have distinct names, and one of them holds identities. If a name tells
what a table type holds, the list that a relationship update takes is of a table type in the
database that holds what identifies the rows of the dependent.
-/
namespace Schemata

/-- The procedure updates the rows that refer to a row by a list of their identities, in a table
type that holds the SQL type of these. -/
def Procedure.UpdatesByList (p : Procedure) (db : Database) (c : Catalog) : Prop :=
  ∃ key principal values u column identity, p.dependent = some key ∧ key.table ∈ db.tables ∧
    p.parameters = [principal, values] ∧ principal.isTableValued = false ∧
    values.isTableValued = true ∧
    values.tableType = some u ∧ u ∈ db.tableTypes ∧ (c.table u).columns = [column] ∧
    (c.table key.table).identityColumn? = some identity ∧ column.sqlType = identity.sqlType

theorem isTableValued_identityParameter? {n : Naming} {m : Model} {table : Table} {index : Int}
    {q : Parameter} (h : identityParameter? n m table index = some q) :
    q.isTableValued = false ∧ q.isIdentity = true := by
  rw [identityParameter?] at h
  split at h
  · obtain ⟨source, _, rfl⟩ := Option.map_eq_some_iff.mp h
    exact ⟨rfl, rfl⟩
  · cases h

namespace Options

variable {o : Options} {m : Model} {map : RelationshipMap} {c : Catalog} {db : Database}
  {identityType : TableRef} {p : Procedure} {key identity : ColumnRef}
  {principal values : Parameter} {u : TableRef}

/-- The table type for identities has a single column of their SQL type. -/
theorem Assembled.identityColumn (h : o.Assembled m map db c identityType)
    (unambiguous : Unambiguous (o.consideredShapes m c db.procedures)) :
    ∃ column sqlType, (c.table identityType).columns = [column] ∧
      o.identitySqlType m = .ok sqlType ∧ column.sqlType = sqlType := by
  obtain ⟨sqlType, hs, name⟩ := h.identities
  have hmem : o.valueShape sqlType ∈ o.consideredShapes m c db.procedures := by
    refine List.mem_append_left _ (List.mem_append_right _ ?_)
    rw [identityShape?, hs]
    exact List.mem_singleton_self _
  obtain ⟨column, hc, ht⟩ := h.types.holds unambiguous h.mem_identityType hmem rfl name
  exact ⟨column, sqlType, hc, hs, ht⟩

theorem Assembled.updatesByList (h : o.Assembled m map db c identityType)
    (unambiguous : Unambiguous (o.consideredShapes m c db.procedures)) (hp : p ∈ db.procedures)
    (update : p.query = .updateRelationship) : p.UpdatesByList db c := by
  obtain ⟨key, identity, principal, values, u, lists⟩ := h.lists p hp update
  obtain ⟨t, ht, origin⟩ := h.procedures p hp
  obtain rfl := origin.table
  have hkey := h.closed.owner ht lists.mem_keys
  have hidentity := Catalog.identityColumn?_of_identity? lists.identified
  have hcolumn : ∃ column, (c.table u).columns = [column] ∧
      column.sqlType = (c.column identity).sqlType := by
    rcases lists.holds with name | ⟨rfl, fits⟩
    · exact h.types.holds unambiguous lists.mem_tableTypes lists.mem_shapes rfl name
    · obtain ⟨column, _, hc, _⟩ := h.identityColumn unambiguous
      rw [hc] at fits
      exact ⟨column, hc, beq_iff_eq.mp fits⟩
  obtain ⟨column, hc, same⟩ := hcolumn
  exact ⟨key, principal, values, u, column, c.column identity, lists.dependent, hkey,
    lists.parameters,
    (isTableValued_identityParameter? lists.principal).1, lists.tableValued, lists.tableType,
    lists.mem_tableTypes, hc, hidentity, same⟩

/-- Table types have distinct names. If names are unambiguous, there is one for identities, and each
update of a relationship takes a list in a table type that holds the identities of the dependent. -/
theorem build_tableTypes (o : Options) (sqlServer : o.dialect = .sqlServer) (m : Model)
    (c : Catalog) (db : Database) (c' : Catalog) (h : (o.build m c).value = .ok (db, c'))
    (unambiguous : Unambiguous (o.consideredShapes m c' db.procedures)) :
    (db.tableTypes.map fun t => (c'.table t).name).Nodup ∧
    (∃ t ∈ db.tableTypes, ∃ column sqlType, (c'.table t).columns = [column] ∧
      o.identitySqlType m = .ok sqlType ∧ column.sqlType = sqlType) ∧
    ∀ p ∈ db.procedures, p.query = .updateRelationship → p.UpdatesByList db c' := by
  obtain ⟨map, identityType, _, assembled⟩ := build_assembled sqlServer h
  exact ⟨assembled.types.distinct,
    ⟨identityType, assembled.mem_identityType, assembled.identityColumn unambiguous⟩,
    fun p hp => assembled.updatesByList unambiguous hp⟩

/-- The enumeration has the table type for identities; the one for the dependents that a unique
identifier tells apart is only added for the procedure that lists them. -/
theorem build_tableTypes_added :
    let o := ((of .sqlServer).addProcedures .insert none).addTableTypes fun _ _ => true
    let document : ModelDocument := { name := "m", classifiers := [
      { id := "e", name := "Color", kind := .enumeration },
      { id := "a", name := "A", attributes := [
        .identity "Id" "integer", .many "bs" "b", .many "as" "a"] },
      { id := "b", name := "B", attributes := [.identity "Key" "uuid"] }] }
    ∃ m db c', Model.ofDatum document.write = .ok m ∧ (o.build m {}).value = .ok (db, c') ∧
      Unambiguous (o.consideredShapes m c' db.procedures) ∧
      (db.tableTypes.map fun t => (c'.table t).name) =
        ["IntTable", "TT_A", "TT_B", "UniqueidentifierTable"] ∧
      (db.procedures.filter fun p => p.query = .updateRelationship).map (·.name) =
        ["UpdateAas", "UpdateAbs"] ∧
      (db.tableTypes.map fun t => (c'.table t).name).Nodup ∧
      (∃ t ∈ db.tableTypes, ∃ column sqlType, (c'.table t).columns = [column] ∧
        o.identitySqlType m = .ok sqlType ∧ column.sqlType = sqlType) ∧
      ∀ p ∈ db.procedures, p.query = .updateRelationship → p.UpdatesByList db c' := by
  intro o document
  have hrun : o.observe document (fun m db c' =>
      .ok (decide (Unambiguous (o.consideredShapes m c' db.procedures) ∧
        (db.tableTypes.map fun t => (c'.table t).name) =
          ["IntTable", "TT_A", "TT_B", "UniqueidentifierTable"] ∧
        (db.procedures.filter fun p : Procedure =>
          decide (p.query = QueryKind.updateRelationship)).map
          Procedure.name = ["UpdateAas", "UpdateAbs"]))) =
      .ok true := by
    decide +kernel
  obtain ⟨m, db, c', hm, hb, hrun⟩ := observe_eq_ok.mp hrun
  obtain ⟨unambiguous, tableTypes, procedures⟩ := of_decide_eq_true (Except.ok.inj hrun)
  exact ⟨m, db, c', hm, hb, unambiguous, tableTypes, procedures,
    build_tableTypes o rfl m {} db c' hb unambiguous⟩

end Options

end Schemata
