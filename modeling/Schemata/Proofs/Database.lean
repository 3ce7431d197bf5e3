import Schemata.Database
import Schemata.Proofs.Procedure.Origin
import Schemata.Proofs.Schema.Keys
import Schemata.Proofs.Schema.References

/-!
# Complete databases

The parts of a database for SQL Server are derived one after the other. What each of them gives the
tables is still there at the end, because the parts that come later only add tables behind those
there are. Without these parts a database only has its tables.
-/
namespace Schemata
namespace Options

variable {o : Options} {m : Model} {map : RelationshipMap} {c c' : Catalog} {db : Database}
  {tables : List TableRef} {definition : TableRef → TableDefinition}

def buildWith (o : Options) (m : Model) (map : RelationshipMap) (c : Catalog) :
    Logged (Database × Catalog) := do
  let (db, c) ← o.buildTables m map c
  match o.dialect with
  | .ansi => return (db, c)
  | .sqlServer => o.complete m map db c

theorem build_eq (c : Catalog) :
    o.build m c = m.relationshipMap o.convention >>= fun map => o.buildWith m map c := rfl

theorem Derived.of_keys (h : o.Derived m map tables c definition)
    (bounded : ∀ t ∈ tables, t.place < c'.tables.length)
    (table : ∀ t ∈ tables, ∃ keys, c'.table t = { c.table t with keys }) :
    o.Derived m map tables c' definition where
  distinct := h.distinct
  bounded := bounded
  defined := h.defined
  injective := h.injective
  table := by
    intro t ht
    obtain ⟨dependents, _, hc⟩ := h.table t ht
    obtain ⟨keys, hk⟩ := table t ht
    exact ⟨dependents, keys, by rw [hk, hc]⟩
  nodup_dependents := by
    intro t ht
    obtain ⟨keys, hk⟩ := table t ht
    rw [hk]
    exact h.nodup_dependents t ht
  mem_dependents := by
    intro t ht
    obtain ⟨keys, hk⟩ := table t ht
    rw [hk]
    exact h.mem_dependents t ht
  behind := by
    rintro t p ⟨ht, hp, hne, hc⟩
    obtain ⟨keys, hk⟩ := table p hp
    rw [hk] at hc
    exact h.behind t p ⟨ht, hp, hne, hc⟩

structure Completed (o : Options) (m : Model) (map : RelationshipMap) (db : Database) (c : Catalog)
    (definition : TableRef → TableDefinition) : Prop where
  derived : o.Derived m map db.tables c definition
  keys : ∀ t ∈ db.tables,
    (o.tableKeys m (presentIds m c db.tables) (c.table t)).value = .ok (c.table t).keys
  procedures : ∀ p ∈ db.procedures, ∃ t ∈ db.tables, p.Origin o.naming m c t

theorem tableKeys_congr {present : List String} {table table' : Table}
    (name : table'.name = table.name) (source : table'.source = table.source)
    (columns : table'.columns = table.columns) :
    o.tableKeys m present table' = o.tableKeys m present table := by
  rw [tableKeys, tableKeys, columns, funext (columnKeys_congr name source)]

theorem presentIds_congr (h : ∀ t ∈ tables, (c'.table t).source = (c.table t).source) :
    presentIds m c' tables = presentIds m c tables :=
  List.filterMap_congr fun t ht => by rw [h t ht]

theorem grows_createTableTypes {identityType : TableRef} {tableTypes : List TableRef}
    (h : (o.createTableTypes m map c).value = .ok (identityType, tableTypes, c')) : c.Grows c' := by
  obtain ⟨types, _, h⟩ := Logged.bind_eq_ok.mp h
  cases h
  exact Catalog.grows_addAll _ _

theorem complete_eq_ok {db' : Database} (h : (o.complete m map db c).value = .ok (db', c')) :
    ∃ keyed identityType tableTypes typed d,
      (o.createKeys m db.tables c).completed.value = .ok keyed ∧
      (o.createTableTypes m map keyed).value = .ok (identityType, tableTypes, typed) ∧
      (o.createProcedures m identityType db.tables
        (({ db with tableTypes } : Database).draft typed)).completed.value = .ok d ∧
      db' = { db with tableTypes := d.tableTypes, procedures := d.procedures } ∧
      c' = d.catalog := by
  rw [complete] at h
  split at h
  case isTrue => cases h
  case isFalse =>
    obtain ⟨keyed, hk, h⟩ := Logged.bind_eq_ok.mp h
    obtain ⟨⟨identityType, tableTypes, typed⟩, ht, h⟩ := Logged.bind_eq_ok.mp h
    obtain ⟨d, hd, h⟩ := Logged.bind_eq_ok.mp h
    cases h
    exact ⟨keyed, identityType, tableTypes, typed, d, hk, ht, hd, rfl, rfl⟩

theorem createKeys_eq_ok {keyed : Catalog} (distinct : tables.Nodup)
    (bounded : ∀ t ∈ tables, t.place < c.tables.length)
    (hk : (o.createKeys m tables c).completed.value = .ok keyed) :
    (∀ t ∈ tables, t.place < keyed.tables.length) ∧ ∀ t ∈ tables, ∃ keys,
      keyed.table t = { c.table t with keys } ∧
        (o.tableKeys m (presentIds m c tables) (c.table t)).value = .ok keys := by
  rw [createKeys, Progress.completed_walk] at hk
  obtain ⟨size, hkeys, _⟩ := foldlM_addKeys distinct bounded hk
  refine ⟨fun t ht => size ▸ bounded t ht, fun t ht => ?_⟩
  obtain ⟨keys, hk, hs⟩ := hkeys t ht
  exact ⟨keys, hs, hk⟩

theorem createKeys_grows {keyed : Catalog} (distinct : tables.Nodup)
    (bounded : ∀ t ∈ tables, t.place < c.tables.length)
    (hk : (o.createKeys m tables c).completed.value = .ok keyed) (grows : keyed.Grows c') :
    ∀ t ∈ tables, t.place < c'.tables.length ∧ (∃ keys, c'.table t = { c.table t with keys }) ∧
      (o.tableKeys m (presentIds m c' tables) (c'.table t)).value = .ok (c'.table t).keys := by
  obtain ⟨bounded, hkeys⟩ := createKeys_eq_ok distinct bounded hk
  have hkeyed : ∀ t ∈ tables, ∃ keys, c'.table t = { c.table t with keys } ∧
      (o.tableKeys m (presentIds m c tables) (c.table t)).value = .ok keys := by
    intro t ht
    rw [grows.table (bounded t ht)]
    exact hkeys t ht
  have hpresent : presentIds m c' tables = presentIds m c tables := by
    refine presentIds_congr fun t ht => ?_
    obtain ⟨keys, hs, _⟩ := hkeyed t ht
    rw [hs]
  intro t ht
  obtain ⟨keys, hs, hk⟩ := hkeyed t ht
  refine ⟨grows.lt_length (bounded t ht), ⟨keys, hs⟩, ?_⟩
  rw [hpresent, hs, ← hk]
  exact congrArg Logged.value (tableKeys_congr rfl rfl rfl)

theorem Derived.completed {keyed : Catalog} (h : o.Derived m map db.tables c definition)
    (hk : (o.createKeys m db.tables c).completed.value = .ok keyed) (grows : keyed.Grows c')
    (procedures : ∀ p ∈ db.procedures, ∃ t ∈ db.tables, p.Origin o.naming m c' t) :
    o.Completed m map db c' definition := by
  have hkeyed := createKeys_grows h.distinct h.bounded hk grows
  exact ⟨h.of_keys (fun t ht => (hkeyed t ht).1) fun t ht => (hkeyed t ht).2.1,
    fun t ht => (hkeyed t ht).2.2, procedures⟩

theorem buildWith_eq_ok (sqlServer : o.dialect = .sqlServer)
    (distinct : (m.packagedClassifiers.map fun s => (m.classifier s).id).Nodup)
    (h : (o.buildWith m map c).value = .ok (db, c')) :
    ∃ definition, o.Completed m map db c' definition := by
  obtain ⟨⟨plain, linked⟩, hp, h⟩ := Logged.bind_eq_ok.mp h
  obtain ⟨⟨tables, _⟩, ht, hp⟩ := Logged.bind_eq_ok.mp hp
  cases hp
  simp only [sqlServer] at h
  obtain ⟨keyed, identityType, tableTypes, typed, d, hk, htt, hd, rfl, rfl⟩ := complete_eq_ok h
  obtain ⟨definition, derived⟩ := deriveTables_eq_ok distinct ht
  have grown := grows_createTableTypes htt
  have bounded : ∀ t ∈ tables, t.place < typed.tables.length := fun t ht =>
    grown.lt_length ((createKeys_eq_ok derived.distinct derived.bounded hk).1 t ht)
  have sound := createProcedures_sound bounded rfl hd
  refine ⟨definition, Derived.completed derived hk (grown.trans sound.grows) ?_⟩
  intro p hp
  obtain ⟨t, ht, origin⟩ := sound.origin p hp
  exact ⟨t, ht, origin.congr (sound.grows.table (bounded t ht))⟩

/-- A database for SQL Server has the tables that it was completed from; they only get keys. -/
theorem complete_tables {db' : Database} (distinct : db.tables.Nodup)
    (bounded : ∀ t ∈ db.tables, t.place < c.tables.length)
    (h : (o.complete m map db c).value = .ok (db', c')) :
    db'.tables = db.tables ∧ ∀ t ∈ db.tables, t.place < c'.tables.length ∧
      ∃ keys, c'.table t = { c.table t with keys } := by
  obtain ⟨keyed, identityType, tableTypes, typed, d, hk, htt, hd, rfl, rfl⟩ := complete_eq_ok h
  obtain ⟨bounded, hkeys⟩ := createKeys_eq_ok distinct bounded hk
  have grown := grows_createTableTypes htt
  have grows := grown.trans
    (createProcedures_sound (fun t ht => grown.lt_length (bounded t ht)) rfl hd).grows
  refine ⟨rfl, fun t ht => ⟨grows.lt_length (bounded t ht), ?_⟩⟩
  obtain ⟨keys, hs, _⟩ := hkeys t ht
  exact ⟨keys, (grows.table (bounded t ht)).trans hs⟩

theorem buildWith_tables (h : (o.buildWith m map c).value = .ok (db, c')) :
    ∃ linked, (o.deriveTables m map c).value = .ok (db.tables, linked) ∧
      ∀ t ∈ db.tables, t.place < c'.tables.length ∧
        ∃ keys, c'.table t = { linked.table t with keys } := by
  obtain ⟨⟨plain, linked⟩, hp, h⟩ := Logged.bind_eq_ok.mp h
  obtain ⟨⟨tables, _⟩, ht, hp⟩ := Logged.bind_eq_ok.mp hp
  cases hp
  obtain ⟨distinct, bounded, _⟩ := deriveTables_made ht
  cases hdialect : o.dialect with
  | ansi =>
    simp only [hdialect] at h
    cases h
    exact ⟨c', ht, fun t ht => ⟨bounded t ht, _, rfl⟩⟩
  | sqlServer =>
    simp only [hdialect] at h
    obtain ⟨e, table⟩ := complete_tables distinct bounded h
    refine ⟨linked, ?_, fun t ht => table t (e ▸ ht)⟩
    rw [e]
    exact ht

/-- Whatever the model is, the tables of its database are made from packaged classifiers. -/
theorem build_made (h : (o.build m c).value = .ok (db, c')) :
    ∃ map, (m.relationshipMap o.convention).value = .ok map ∧
      ∃ definition : TableRef → TableDefinition, ∀ t ∈ db.tables, ∃ s own further,
        o.Made m map (definition t) (c'.table t) s own further := by
  rw [build_eq] at h
  obtain ⟨map, hmap, h⟩ := Logged.bind_eq_ok.mp h
  obtain ⟨linked, hl, table⟩ := buildWith_tables h
  obtain ⟨_, _, definition, made⟩ := deriveTables_made hl
  refine ⟨map, hmap, definition, fun t ht => ?_⟩
  obtain ⟨s, own, further, made⟩ := made t ht
  obtain ⟨_, keys, hk⟩ := table t ht
  exact ⟨s, own, further, hk ▸ made.with_keys keys⟩

theorem build_derived (distinct : (m.packagedClassifiers.map fun s => (m.classifier s).id).Nodup)
    (h : (o.build m c).value = .ok (db, c')) :
    ∃ map, (m.relationshipMap o.convention).value = .ok map ∧
      ∃ definition, o.Derived m map db.tables c' definition := by
  rw [build_eq] at h
  obtain ⟨map, hmap, h⟩ := Logged.bind_eq_ok.mp h
  obtain ⟨linked, hl, table⟩ := buildWith_tables h
  obtain ⟨definition, derived⟩ := deriveTables_eq_ok distinct hl
  exact ⟨map, hmap, definition,
    derived.of_keys (fun t ht => (table t ht).1) fun t ht => (table t ht).2⟩

end Options

end Schemata
