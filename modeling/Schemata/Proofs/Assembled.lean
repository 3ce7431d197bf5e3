import Schemata.Proofs.Database
import Schemata.Proofs.Procedure.ListTypes
import Schemata.Proofs.Relationship.Found

/-!
# Assembled databases

Whatever the model is, a database for SQL Server is assembled from tables that only know columns of
one another, from table types with distinct names, and from procedures that were made for the tables
and use the table types.
-/
namespace Schemata
namespace Options

variable {o : Options} {m : Model} {map : RelationshipMap} {c c' : Catalog} {db : Database}
  {tables : List TableRef}

theorem deriveTables_closed (h : (o.deriveTables m map c).value = .ok (tables, c')) :
    c'.Closed tables := by
  obtain ⟨definitions, _, perm, _, hdependents⟩ := deriveTables_cases h
  refine ⟨fun t ht => (hdependents t (perm.mem_iff.mp ht)).1, fun t ht column hc => ?_⟩
  rw [(hdependents t (perm.mem_iff.mp ht)).2] at hc
  obtain ⟨r, hr, rfl⟩ := List.mem_map.mp hc
  exact perm.mem_iff.mpr (Catalog.mem_addedReferences.mp (List.mem_filter.mp hr).1).1

theorem createKeys_closed {derived keyed : Catalog}
    (hl : (o.deriveTables m map c).value = .ok (tables, derived))
    (hk : (o.createKeys m tables derived).completed.value = .ok keyed) (grows : keyed.Grows c') :
    c'.Closed tables := by
  obtain ⟨distinct, bounded, _⟩ := deriveTables_made hl
  have hkeyed := createKeys_grows distinct bounded hk grows
  refine ⟨fun t ht => (hkeyed t ht).1, fun t ht => ?_⟩
  obtain ⟨_, ⟨keys, hkeys⟩, _⟩ := hkeyed t ht
  rw [hkeys]
  exact (deriveTables_closed hl).owners t ht

/-- The table types that are considered for a database with these procedures. -/
def consideredShapes (o : Options) (m : Model) (c : Catalog) (procedures : List Procedure) :
    List TableTypeShape :=
  o.selectedShapes m (RelationshipMap.insertAll {} m (m.found o.convention)) ++
    o.listShapes m c procedures

/-- What the tables, the table types and the procedures of a database for SQL Server are made
from. -/
structure Assembled (o : Options) (m : Model) (map : RelationshipMap) (db : Database) (c : Catalog)
    (identityType : TableRef) : Prop where
  closed : c.Closed db.tables
  made : ∀ t ∈ db.tables, ∃ definition s own further,
    o.Made m map definition (c.table t) s own further
  keys : ∀ t ∈ db.tables,
    (o.tableKeys m (presentIds m c db.tables) (c.table t)).value = .ok (c.table t).keys
  procedures : ∀ p ∈ db.procedures, ∃ t ∈ db.tables, p.Origin o.naming m c t
  types : c.HasTypes db.tableTypes (o.consideredShapes m c db.procedures)
  mem_identityType : identityType ∈ db.tableTypes
  identities : ∃ sqlType, o.identitySqlType m = .ok sqlType ∧
    (c.table identityType).name = (o.valueShape sqlType).name
  lists : ∀ p ∈ db.procedures, p.query = .updateRelationship → ∃ key identity principal values u,
    p.Lists o m identityType c db.tableTypes (o.consideredShapes m c db.procedures)
      key identity principal values u

/-- Whatever the model is, a database for SQL Server is assembled from its parts. -/
theorem build_assembled (sqlServer : o.dialect = .sqlServer)
    (h : (o.build m c).value = .ok (db, c')) : ∃ map identityType,
      (m.relationshipMap o.convention).value = .ok map ∧ o.Assembled m map db c' identityType := by
  rw [build_eq] at h
  obtain ⟨map, hmap, h⟩ := Logged.bind_eq_ok.mp h
  obtain rfl := Except.ok.inj (Model.relationshipMap_value.symm.trans hmap)
  obtain ⟨⟨plain, linked⟩, hp, h⟩ := Logged.bind_eq_ok.mp h
  obtain ⟨⟨tables, _⟩, hl, hp⟩ := Logged.bind_eq_ok.mp hp
  cases hp
  simp only [sqlServer] at h
  obtain ⟨keyed, identityType, tableTypes, typed, d, hk, htt, hd, rfl, rfl⟩ := complete_eq_ok h
  obtain ⟨distinct, bounded, definition, made⟩ := deriveTables_made hl
  obtain ⟨types, mem, sqlType, hs, name⟩ := createTableTypes_eq_ok htt
  have grown := grows_createTableTypes htt
  have closed := createKeys_closed hl hk grown
  have sound := createProcedures_sound closed.bounded rfl hd
  have lists := createProcedures_typed closed rfl types mem hd
  have hkeyed := createKeys_grows distinct bounded hk (grown.trans sound.grows)
  refine ⟨_, identityType, hmap, lists.closed, fun t ht => ?_, fun t ht => (hkeyed t ht).2.2,
    fun p hp => ?_, lists.types, lists.mem_identityType, ⟨sqlType, hs, ?_⟩, lists.lists⟩
  · obtain ⟨s, own, further, made⟩ := made t ht
    obtain ⟨_, ⟨keys, hkeys⟩, _⟩ := hkeyed t ht
    exact ⟨definition t, s, own, further, hkeys ▸ made.with_keys keys⟩
  · obtain ⟨t, ht, origin⟩ := sound.origin p hp
    exact ⟨t, ht, origin.congr (sound.grows.table (closed.bounded t ht))⟩
  · rw [sound.grows.table (types.bounded identityType mem)]
    exact name

end Options

end Schemata
