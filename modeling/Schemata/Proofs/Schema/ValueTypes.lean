import Schemata.Proofs.Assembled
import Schemata.Proofs.Document.Written
import Schemata.Proofs.Procedure.Faults
import Schemata.Proofs.Schema.Alike
import Schemata.Proofs.Schema.Narrowed
import Schemata.Proofs.Schema.Rootless

/-!
# Further table types

What is selected to become a table type makes no difference to the tables of a database and to their
keys. A further value classifier only adds a table type, or a report if it has no SQL type. The one
thing that it can stop a derivation with is the lack of a root.
-/
namespace Schemata

/-- The report that a classifier is left out because it has no SQL type. -/
inductive Notice.LeavesOut (name : String) : Notice → Prop
  | unmapped : LeavesOut name (.valueTypeUnmapped name)
  | failed (reason : String) : LeavesOut name (.valueTypeFailed name reason)

namespace Options

/-! ## What does not depend on the selection -/

section
variable (o : Options) (T : List ClassifierFilter) (m : Model) (map : RelationshipMap)

theorem deriveTables_tableTypes (c : Catalog) :
    { o with tableTypes := T }.deriveTables m map c = o.deriveTables m map c := by
  have hpackaged : { o with tableTypes := T }.packagedTable? m map = o.packagedTable? m map := by
    funext s
    rw [packagedTable?, packagedTable?, tableDefinition?_selection o o.filters T]
    rfl
  rw [deriveTables, deriveTables, tableDefinitions, tableDefinitions, hpackaged]

theorem tableTypeOf?_tableTypes (identityType : String) (s : ClassifierRef) :
    { o with tableTypes := T }.tableTypeOf? m map identityType s =
      o.tableTypeOf? m map identityType s := by
  rw [tableTypeOf?, tableTypeOf?, complexTableType?, complexTableType?,
    tableDefinition?_selection o o.filters T]
  rfl

end

variable {o : Options} {m : Model} {map : RelationshipMap} {s : ClassifierRef}
  {identityType : String} {types : TableTypes} {c c' : Catalog} {tables : List TableRef}
  {more : List ClassifierFilter}

/-! ## SQL types of value classifiers -/

def hasSqlType (o : Options) : ClassifierFilter := fun m s =>
  match o.typeNames.ofClassifier m s with
  | .ok sqlType => sqlType ≠ ""
  | .error _ => false

theorem exists_valueType?_iff :
    (∃ sqlType?, (o.valueType? m s).value = .ok sqlType?) ↔ ¬ m.Rootless s := by
  rw [← o.typeNames.ofClassifier_iff, valueType?]
  cases h : o.typeNames.ofClassifier m s with
  | ok sqlType =>
    refine iff_of_true ?_ (by simp)
    split
    · exact ⟨_, rfl⟩
    · exact ⟨_, rfl⟩
    · rename_i hsome
      cases hsome
  | error e =>
    dsimp only
    split
    case isTrue mapping => exact iff_of_true ⟨_, rfl⟩ (by simp [mapping])
    case isFalse other => exact iff_of_false nofun fun h => h ⟨e, rfl, other⟩

theorem valueType?_of_not (untyped : o.hasSqlType m s = false) (rooted : ¬ m.Rootless s) :
    (o.valueType? m s).value = .ok none ∧
      ∃ n ∈ (o.valueType? m s).log, n.LeavesOut (m.classifier s).name := by
  rw [hasSqlType] at untyped
  rw [← o.typeNames.ofClassifier_iff] at rooted
  rw [valueType?]
  cases h : o.typeNames.ofClassifier m s with
  | ok sqlType =>
    obtain rfl : sqlType = "" := by simpa [h] using untyped
    exact ⟨rfl, _, List.mem_singleton_self _, .unmapped⟩
  | error e =>
    have mapping : e.family = .mapping := by
      by_contra other
      exact rooted ⟨e, h, other⟩
    dsimp only
    rw [if_pos mapping]
    exact ⟨rfl, _, List.mem_singleton_self _, .failed _⟩

/-! ## Table types of value classifiers -/

theorem exists_simpleTableType (suited : o.factory.table = .sqlServer) (s : ClassifierRef)
    (sqlType : String) :
    ∃ table, o.simpleTableType s sqlType = .ok table := by
  rw [simpleTableType, if_neg (by simp [suited])]
  exact ⟨_, rfl⟩

section
variable (value : (m.classifier s).kind.isValue = true)
include value

theorem exists_tableTypeOf?_iff (suited : o.factory.table = .sqlServer) :
    (∃ found?, (o.tableTypeOf? m map identityType s).value = .ok found?) ↔ ¬ m.Rootless s := by
  rw [← exists_valueType?_iff (o := o), tableTypeOf?, if_pos value]
  constructor
  · rintro ⟨found?, h⟩
    obtain ⟨sqlType?, h, _⟩ := Logged.bind_eq_ok.mp h
    exact ⟨sqlType?, h⟩
  · rintro ⟨sqlType?, h⟩
    cases sqlType? with
    | none => exact ⟨none, Logged.bind_eq_ok.mpr ⟨none, h, rfl⟩⟩
    | some sqlType =>
      obtain ⟨table, simple⟩ := exists_simpleTableType suited s sqlType
      exact ⟨some (table, sqlType == identityType), Logged.bind_eq_ok.mpr
        ⟨some sqlType, h, Logged.bind_eq_ok.mpr ⟨table, Logged.lift_eq_ok.mpr simple, rfl⟩⟩⟩

theorem tableTypeOf?_of_not (map : RelationshipMap) (identityType : String)
    (untyped : o.hasSqlType m s = false) (rooted : ¬ m.Rootless s) :
    (o.tableTypeOf? m map identityType s).value = .ok none ∧
      ∃ n ∈ (o.tableTypeOf? m map identityType s).log, n.LeavesOut (m.classifier s).name := by
  obtain ⟨h, n, hn, leavesOut⟩ := valueType?_of_not untyped rooted
  rw [tableTypeOf?, if_pos value]
  exact ⟨Logged.bind_eq_ok.mpr ⟨none, h, rfl⟩, n, Logged.mem_log_bind hn, leavesOut⟩

end

/-- What is selected is added if its table type can be told, whatever there is already. -/
theorem exists_addTableType_iff :
    (∃ types', (o.addTableType m map identityType types s).value = .ok types') ↔
      (o.becomesTableType m s = true →
        ∃ found?, (o.tableTypeOf? m map identityType s).value = .ok found?) := by
  rw [addTableType]
  cases hs : o.becomesTableType m s with
  | false => exact iff_of_true ⟨types, rfl⟩ (by simp)
  | true =>
    rw [if_neg (by simp)]
    constructor
    · rintro ⟨types', h⟩ _
      obtain ⟨found?, h, _⟩ := Logged.bind_eq_ok.mp h
      exact ⟨found?, h⟩
    · intro h
      obtain ⟨found?, h⟩ := h rfl
      cases found? with
      | none => exact ⟨types, Logged.bind_eq_ok.mpr ⟨none, h, rfl⟩⟩
      | some found =>
        obtain ⟨table, holds⟩ := found
        refine ⟨types.add table holds, Logged.bind_eq_ok.mpr ⟨_, h, ?_⟩⟩
        dsimp only
        split <;> rfl

/-- All table types can be told if there is one for identities, and each selected one can be
told. -/
theorem exists_tableTypesOf_iff (suited : o.factory.table = .sqlServer) :
    (∃ types, (o.tableTypesOf m map).value = .ok types) ↔
    ∃ identityType, o.identitySqlType m = .ok identityType ∧
      ∀ s ∈ m.packagedClassifiers, o.becomesTableType m s = true →
        ∃ found?, (o.tableTypeOf? m map identityType s).value = .ok found? := by
  have folded (identityType : String) :
      (∃ types, (m.packagedClassifiers.foldlM (o.addTableType m map identityType) {}).value =
        .ok types) ↔ ∀ s ∈ m.packagedClassifiers, o.becomesTableType m s = true →
          ∃ found?, (o.tableTypeOf? m map identityType s).value = .ok found? := by
    apply Logged.exists_foldlM_iff
    exact fun s _ types => exists_addTableType_iff
  constructor
  · rintro ⟨types, h⟩
    obtain ⟨identityType, hi, h⟩ := Logged.bind_eq_ok.mp h
    obtain ⟨types, h, _⟩ := Logged.bind_eq_ok.mp h
    exact ⟨identityType, Logged.lift_eq_ok.mp hi, (folded identityType).mp ⟨types, h⟩⟩
  · rintro ⟨identityType, hi, selected⟩
    obtain ⟨types, h⟩ := (folded identityType).mpr selected
    obtain ⟨table, simple⟩ := exists_simpleTableType suited o.identityType identityType
    by_cases hidentity : types.identity.isSome = true
    · refine ⟨types,
        Logged.bind_eq_ok.mpr ⟨_, Logged.lift_eq_ok.mpr hi, Logged.bind_eq_ok.mpr ⟨types, h, ?_⟩⟩⟩
      rw [if_pos hidentity]
      rfl
    · refine ⟨types.add table true, Logged.bind_eq_ok.mpr
        ⟨_, Logged.lift_eq_ok.mpr hi, Logged.bind_eq_ok.mpr ⟨types, h, ?_⟩⟩⟩
      rw [if_neg hidentity]
      exact Logged.bind_eq_ok.mpr ⟨table, Logged.lift_eq_ok.mpr simple, rfl⟩

/-! ## Databases -/

theorem dialect_of_createKeys {keyed : Catalog} (distinct : tables.Nodup)
    (bounded : ∀ t ∈ tables, t.place < c.tables.length)
    (hk : (o.createKeys m tables c).completed.value = .ok keyed) {t : TableRef} (ht : t ∈ tables) :
    (keyed.table t).dialect = .sqlServer := by
  obtain ⟨_, hkeyed⟩ := createKeys_eq_ok distinct bounded hk
  obtain ⟨keys, hkeys, _⟩ := hkeyed t ht
  rw [createKeys, Progress.completed_walk] at hk
  obtain ⟨c₁, c₂, ⟨_, same⟩, step⟩ := Logged.exists_step_of_foldlM
    (P := fun c₁ => (∀ u ∈ tables, u.place < c₁.tables.length) ∧
      ∀ u, (c₁.table u).dialect = (c.table u).dialect) hk
    ⟨bounded, fun _ => rfl⟩ (fun c₁ u c₂ hu known ok => by
      obtain ⟨bounded, same⟩ := known
      obtain ⟨size, ⟨_, _, hself⟩, hother⟩ := addKeys_eq_ok (bounded u hu) ok
      refine ⟨fun v hv => size ▸ bounded v hv, fun v => ?_⟩
      by_cases e : v = u
      · rw [e, hself, same]
      · rw [hother v e, same]) ht
  rw [hkeys, ← same t]
  rw [addKeys] at step
  split at step
  case isTrue => cases step
  case isFalse suited => exact Decidable.not_not.mp suited

theorem build_of_tables {linked : Catalog} (sqlServer : o.dialect = .sqlServer)
    (hmap : (m.relationshipMap o.convention).value = .ok map)
    (hl : (o.deriveTables m map c).value = .ok (tables, linked)) :
    (o.build m c).value =
      (o.complete m map { dialect := o.factory.database, tables } linked).value ∧
      ∀ n ∈ (o.complete m map { dialect := o.factory.database, tables } linked).log,
        n ∈ (o.build m c).log := by
  have hb :
      (o.buildTables m map c).value = .ok ({ dialect := o.factory.database, tables }, linked) :=
    Logged.bind_eq_ok.mpr ⟨(tables, linked), hl, rfl⟩
  have eq : o.buildWith m map c = o.buildTables m map c >>= fun plain =>
      o.complete m map plain.1 plain.2 := by
    rw [buildWith]
    simp only [sqlServer]
  rw [build_eq]
  constructor
  · simp only [Logged.value_bind, hmap, eq, hb, Except.bind]
  · intro n hn
    apply Logged.mem_log_bind_of_ok hmap
    rw [eq]
    exact Logged.mem_log_bind_of_ok hb hn

theorem exists_complete {linked keyed : Catalog} {types : TableTypes}
    (suited : o.factory = .of .sqlServer)
    (hl : (o.deriveTables m map c).value = .ok (tables, linked))
    (hk : (o.createKeys m tables linked).completed.value = .ok keyed)
    (ht : (o.tableTypesOf m map).value = .ok types) :
    ∃ built, (o.complete m map { dialect := o.factory.database, tables } linked).value =
      .ok built := by
  obtain ⟨distinct, bounded, definition, made⟩ := deriveTables_made hl
  let typed := (keyed.addAll types.tables).2
  let identityType : TableRef := ⟨keyed.tables.length + types.identity.getD 0⟩
  have htt : (o.createTableTypes m map keyed).value =
    .ok (identityType, (keyed.addAll types.tables).1, typed) :=
    Logged.bind_eq_ok.mpr ⟨types, ht, rfl⟩
  have grown := grows_createTableTypes htt
  have kept := createKeys_grows distinct bounded hk grown
  -- Procedures are named for the classifiers of tables, and keys and table types leave these as
  -- they were.
  have named : ∀ t ∈ tables, ∀ model, (typed.table t).source = some model →
      (m.classifier model).name ≠ "" := by
    intro t ht model source
    obtain ⟨s, own, further, made⟩ := made t ht
    obtain ⟨_, ⟨keys, same⟩, _⟩ := kept t ht
    rw [same, made.source] at source
    cases source
    exact made.defines.named
  have dialect : ∀ t ∈ tables, (typed.table t).dialect = .sqlServer := by
    intro t ht
    rw [grown.table ((createKeys_eq_ok distinct bounded hk).1 t ht)]
    exact dialect_of_createKeys distinct bounded hk ht
  let db : Database :=
    { dialect := o.factory.database, tables, tableTypes := (keyed.addAll types.tables).1 }
  obtain ⟨d, hd⟩ :=
    exists_createProcedures o m identityType (d := db.draft typed) (by rw [suited]; rfl) rfl
    (fun t ht => (kept t ht).1) named dialect
  refine ⟨({ db with tableTypes := d.tableTypes, procedures := d.procedures }, d.catalog), ?_⟩
  rw [complete, if_neg (by simp [suited, Factory.of])]
  exact Logged.bind_eq_ok.mpr ⟨keyed, hk,
    Logged.bind_eq_ok.mpr ⟨_, htt, Logged.bind_eq_ok.mpr ⟨d, hd, rfl⟩⟩⟩

theorem build_eq_ok {built : Database × Catalog} (sqlServer : o.dialect = .sqlServer)
    (h : (o.build m c).value = .ok built) : ∃ map tables linked keyed types,
      (m.relationshipMap o.convention).value = .ok map ∧
      (o.deriveTables m map c).value = .ok (tables, linked) ∧
      (o.createKeys m tables linked).completed.value = .ok keyed ∧
      (o.tableTypesOf m map).value = .ok types := by
  rw [build_eq] at h
  obtain ⟨map, hmap, h⟩ := Logged.bind_eq_ok.mp h
  obtain ⟨⟨plain, linked⟩, hp, h⟩ := Logged.bind_eq_ok.mp h
  obtain ⟨⟨tables, _⟩, hl, hp⟩ := Logged.bind_eq_ok.mp hp
  cases hp
  simp only [sqlServer] at h
  obtain ⟨keyed, _, _, _, _, hk, ht, _⟩ := complete_eq_ok h
  obtain ⟨types, ht, _⟩ := Logged.bind_eq_ok.mp ht
  exact ⟨map, tables, linked, keyed, types, hmap, hl, hk, ht⟩

/-! ## Further selections -/

theorem foldl_addTableTypes (o : Options) (more : List ClassifierFilter) :
    more.foldl addTableTypes o = { o with tableTypes := o.tableTypes ++ more } := by
  induction more generalizing o with
  | nil => simp
  | cons f more ih => simp [ih, addTableTypes]

theorem becomesTableType_append (o : Options) (more : List ClassifierFilter) (m : Model)
    (s : ClassifierRef) :
    { o with tableTypes := o.tableTypes ++ more }.becomesTableType m s =
      (o.becomesTableType m s || more.any fun f => f m s) :=
  List.any_append

/-- A database only depends on what is selected through its table types. -/
theorem value_build_tableTypes (o : Options) (T T' : List ClassifierFilter) (m : Model)
    (c : Catalog) (h : ∀ map, ({ o with tableTypes := T }.tableTypesOf m map).value =
      ({ o with tableTypes := T' }.tableTypesOf m map).value) :
    ({ o with tableTypes := T }.build m c).value =
      ({ o with tableTypes := T' }.build m c).value := by
  rw [build_eq, build_eq]
  refine Logged.value_bind_congr rfl fun map _ => ?_
  have plain (T : List ClassifierFilter) :
      { o with tableTypes := T }.buildTables m map c = o.buildTables m map c := by
    rw [buildTables, deriveTables_tableTypes]
    rfl
  rw [buildWith, buildWith, plain T, plain T']
  refine Logged.value_bind_congr rfl fun derived _ => ?_
  dsimp only
  split
  case h_1 => rfl
  case h_2 =>
    rw [complete, complete]
    split
    · rfl
    · refine Logged.value_bind_congr rfl fun keyed _ => Logged.value_bind_congr ?_ fun _ _ => rfl
      exact Logged.value_bind_congr (h map) fun _ _ => rfl

def typed (o : Options) (filters : List ClassifierFilter) : List ClassifierFilter :=
  filters.map fun filter m s => filter m s && o.hasSqlType m s

theorem any_typed (filters : List ClassifierFilter) :
    ((o.typed filters).any fun filter => filter m s) =
      ((filters.any fun filter => filter m s) && o.hasSqlType m s) := by
  rw [typed, List.any_map]
  induction filters with
  | nil => rfl
  | cons filter filters ih => simp [ih, Bool.and_or_distrib_right]

theorem value_addTableType_of_none (h : (o.tableTypeOf? m map identityType s).value = .ok none) :
    (o.addTableType m map identityType types s).value = .ok types := by
  rw [addTableType]
  split
  · rfl
  · exact Logged.bind_eq_ok.mpr ⟨none, h, rfl⟩

section
variable
  (value : ∀ s ∈ m.packagedClassifiers, (more.any fun f => f m s) = true →
    (m.classifier s).kind.isValue = true)
  (rooted : ∀ s ∈ m.packagedClassifiers, (more.any fun f => f m s) = true → ¬ m.Rootless s)
include value rooted

/-- What has no SQL type need not be selected. -/
theorem value_tableTypesOf_typed (map : RelationshipMap) :
    ({ o with tableTypes := o.tableTypes ++ more }.tableTypesOf m map).value =
      ({ o with tableTypes := o.tableTypes ++ o.typed more }.tableTypesOf m map).value := by
  refine Logged.value_bind_congr rfl fun identityType _ => Logged.value_bind_congr ?_ fun _ _ => rfl
  refine Logged.value_foldlM_congr (fun s hs types => ?_) _
  -- What has no SQL type adds nothing, whether it is selected or not; all else is selected by both.
  by_cases untyped : (more.any fun f => f m s) = true ∧ o.hasSqlType m s = false
  · have none (T : List ClassifierFilter) :
        ({ o with tableTypes := T }.tableTypeOf? m map identityType s).value = .ok none := by
      rw [tableTypeOf?_tableTypes]
      exact (tableTypeOf?_of_not (value s hs untyped.1) map identityType untyped.2
        (rooted s hs untyped.1)).1
    rw [value_addTableType_of_none (none _), value_addTableType_of_none (none _)]
  · have same : (more.any fun f => f m s) = ((o.typed more).any fun f => f m s) := by
      rw [any_typed]
      cases hmore : more.any fun f => f m s
      · rfl
      · cases typed : o.hasSqlType m s
        · exact absurd ⟨hmore, typed⟩ untyped
        · rfl
    rw [addTableType, addTableType, tableTypeOf?_tableTypes o (o.tableTypes ++ more),
      tableTypeOf?_tableTypes o (o.tableTypes ++ o.typed more), becomesTableType_append,
      becomesTableType_append, same]

theorem mem_log_tableTypesOf {types : TableTypes}
    (ok : ({ o with tableTypes := o.tableTypes ++ more }.tableTypesOf m map).value = .ok types)
    (hs : s ∈ m.packagedClassifiers) (selected : (more.any fun f => f m s) = true)
    (untyped : o.hasSqlType m s = false) :
    ∃ n ∈ ({ o with tableTypes := o.tableTypes ++ more }.tableTypesOf m map).log,
      n.LeavesOut (m.classifier s).name := by
  obtain ⟨identityType, hi, ok⟩ := Logged.bind_eq_ok.mp ok
  obtain ⟨folded, hf, _⟩ := Logged.bind_eq_ok.mp ok
  obtain ⟨_, n, hn, leavesOut⟩ :=
    tableTypeOf?_of_not (value s hs selected) map identityType untyped (rooted s hs selected)
  refine ⟨n, ?_, leavesOut⟩
  apply Logged.mem_log_bind_of_ok hi
  apply Logged.mem_log_bind
  refine Logged.mem_log_foldlM hf hs fun types => ?_
  rw [addTableType, becomesTableType_append, selected, Bool.or_true, if_neg (by simp),
    tableTypeOf?_tableTypes]
  exact Logged.mem_log_bind hn

end

theorem mem_log_build {linked keyed : Catalog} {n : Notice} (sqlServer : o.dialect = .sqlServer)
    (suited : o.factory.database = .sqlServer)
    (hmap : (m.relationshipMap o.convention).value = .ok map)
    (hl : (o.deriveTables m map c).value = .ok (tables, linked))
    (hk : (o.createKeys m tables linked).completed.value = .ok keyed)
    (hn : n ∈ (o.tableTypesOf m map).log) :
    n ∈ (o.build m c).log := by
  apply (build_of_tables sqlServer hmap hl).2
  rw [complete, if_neg (by simp [suited])]
  exact Logged.mem_log_bind_of_ok hk (Logged.mem_log_bind (Logged.mem_log_bind hn))

/-- With tables and keys, there is a database if the table types can be told. -/
theorem exists_build_iff {linked keyed : Catalog} (sqlServer : o.dialect = .sqlServer)
    (suited : o.factory = .of .sqlServer) (hmap : (m.relationshipMap o.convention).value = .ok map)
    (hl : (o.deriveTables m map c).value = .ok (tables, linked))
    (hk : (o.createKeys m tables linked).completed.value = .ok keyed) :
    (∃ built, (o.build m c).value = .ok built) ↔
    ∃ types, (o.tableTypesOf m map).value = .ok types := by
  constructor
  · rintro ⟨built, h⟩
    obtain ⟨map', _, _, _, types, hmap', _, _, ht⟩ := build_eq_ok sqlServer h
    cases hmap.symm.trans hmap'
    exact ⟨types, ht⟩
  · rintro ⟨types, ht⟩
    rw [(build_of_tables sqlServer hmap hl).1]
    exact exists_complete suited hl hk ht

/-- All further table types of value classifiers can be told if none of them is rootless. -/
theorem exists_tableTypesOf_append_iff (suited : o.factory.table = .sqlServer)
    (ht : (o.tableTypesOf m map).value = .ok types)
    (value : ∀ s ∈ m.packagedClassifiers, (more.any fun f => f m s) = true →
      (m.classifier s).kind.isValue = true) :
    (∃ types', ({ o with tableTypes := o.tableTypes ++ more }.tableTypesOf m map).value =
      .ok types') ↔
      ∀ s ∈ m.packagedClassifiers, (more.any fun f => f m s) = true → ¬ m.Rootless s := by
  obtain ⟨identityType, hi, given⟩ := (exists_tableTypesOf_iff suited).mp ⟨types, ht⟩
  rw [exists_tableTypesOf_iff (o := { o with tableTypes := o.tableTypes ++ more }) suited]
  constructor
  · rintro ⟨_, _, told⟩ s hs selected
    rw [← exists_tableTypeOf?_iff (o := o) (value s hs selected) suited,
      ← tableTypeOf?_tableTypes o (o.tableTypes ++ more)]
    exact told s hs (by rw [becomesTableType_append, selected, Bool.or_true])
  · intro rooted
    refine ⟨identityType, hi, fun s hs selected => ?_⟩
    rw [tableTypeOf?_tableTypes]
    rw [becomesTableType_append] at selected
    rcases Bool.or_eq_true_iff.mp selected with selected | selected
    · exact given s hs selected
    · exact (exists_tableTypeOf?_iff (value s hs selected) suited).mpr (rooted s hs selected)

/-- If there is a database, there is one with further table types of value classifiers exactly if
none of these is rootless. It is the one with table types of those that have a SQL type, and the
others are reported. -/
theorem build_addTableTypes_iff (o : Options) (sqlServer : o.dialect = .sqlServer)
    (suited : o.factory = .of .sqlServer) (m : Model) (c : Catalog) (built : Database × Catalog)
    (h : (o.build m c).value = .ok built) (more : List ClassifierFilter)
    (value : ∀ s ∈ m.packagedClassifiers, (more.any fun f => f m s) = true →
      (m.classifier s).kind.isValue = true) :
    let further := more.foldl addTableTypes o
    ((∃ built', (further.build m c).value = .ok built') ↔
      ∀ s ∈ m.packagedClassifiers, (more.any fun f => f m s) = true → ¬ m.Rootless s) ∧
    ∀ built', (further.build m c).value = .ok built' →
      (((o.typed more).foldl addTableTypes o).build m c).value = .ok built' ∧
      ∀ s ∈ m.packagedClassifiers, (more.any fun f => f m s) = true → o.hasSqlType m s = false →
        ∃ n ∈ (further.build m c).log, n.LeavesOut (m.classifier s).name := by
  intro further
  have hfurther : further = { o with tableTypes := o.tableTypes ++ more } :=
    foldl_addTableTypes o more
  have table : o.factory.table = .sqlServer := by rw [suited]; rfl
  have database : o.factory.database = .sqlServer := by rw [suited]; rfl
  obtain ⟨map, tables, linked, keyed, types, hmap, hl, hk, ht⟩ := build_eq_ok sqlServer h
  have told := exists_tableTypesOf_append_iff table ht value
  rw [← deriveTables_tableTypes o (o.tableTypes ++ more)] at hl
  rw [hfurther]
  have completed := exists_build_iff (o := { o with tableTypes := o.tableTypes ++ more }) sqlServer
    suited hmap hl hk
  refine ⟨completed.trans told, fun built' h' => ?_⟩
  obtain ⟨types', ht'⟩ := completed.mp ⟨built', h'⟩
  have rooted := told.mp ⟨types', ht'⟩
  constructor
  · rw [foldl_addTableTypes, ← h']
    exact (value_build_tableTypes o _ _ m c (value_tableTypesOf_typed value rooted)).symm
  · intro s hs selected untyped
    obtain ⟨n, hn, leavesOut⟩ := mem_log_tableTypesOf value rooted ht' hs selected untyped
    exact ⟨n, mem_log_build (o := { o with tableTypes := o.tableTypes ++ more }) sqlServer database
      hmap hl hk hn, leavesOut⟩

/-- The enumeration has the table type for identities, and what has no name is left out. -/
theorem build_addTableTypes_unnamed :
    let o := of .sqlServer
    let values : ClassifierFilter := fun m s => (m.classifier s).kind.isValue
    let document : ModelDocument := { name := "m", classifiers := [
      { id := "e", name := "Color", kind := .enumeration },
      { id := "d", name := "", kind := .dataType },
      { id := "f", name := "Money", kind := .dataType },
      { id := "a", name := "A" }] }
    let named (built : Database × Catalog) := built.1.tableTypes.map fun t => (built.2.table t).name
    ∃ m built built', Model.ofDatum document.write = .ok m ∧ (o.build m {}).value = .ok built ∧
      named built = ["IntTable"] ∧
      (∀ s ∈ m.packagedClassifiers, ([values].any fun f => f m s) = true →
        (m.classifier s).kind.isValue = true) ∧
      ((o.addTableTypes values).build m {}).value = .ok built' ∧
      named built' = ["IntTable", "MoneyTable"] ∧
      (∀ s ∈ m.packagedClassifiers, values m s = true → ¬ m.Rootless s) ∧
      (((o.addTableTypes fun m s => values m s && o.hasSqlType m s).build m {}).value =
        .ok built') ∧
      ∃ n ∈ ((o.addTableTypes values).build m {}).log, n.LeavesOut "" := by
  intro o values document named
  have hrun : o.observe document (fun m db c => do
      let built' ← ((o.addTableTypes values).build m {}).value
      return (named (db, c), named built', decide (∃ s ∈ m.packagedClassifiers,
        values m s = true ∧ o.hasSqlType m s = false ∧ (m.classifier s).name = ""))) =
      .ok (["IntTable"], ["IntTable", "MoneyTable"], true) := by
    decide +kernel
  obtain ⟨m, db, c, hm, hb, hrun⟩ := observe_eq_ok.mp hrun
  obtain ⟨built', hb', hrun⟩ := bind_eq_ok.mp hrun
  obtain ⟨types, hrun⟩ := Prod.mk.inj (Except.ok.inj hrun)
  obtain ⟨types', unnamed⟩ := Prod.mk.inj hrun
  have value : ∀ s ∈ m.packagedClassifiers, ([values].any fun f => f m s) = true →
      (m.classifier s).kind.isValue = true := by
    simp [values]
  obtain ⟨possible, further⟩ := build_addTableTypes_iff o rfl rfl m {} (db, c) hb [values] value
  obtain ⟨typed, reported⟩ := further built' hb'
  obtain ⟨s, hs, selected, untyped, name⟩ := of_decide_eq_true unnamed
  have rooted := possible.mp ⟨built', hb'⟩
  simp only [List.any_cons, List.any_nil, Bool.or_false] at rooted reported
  exact ⟨m, _, built', hm, hb, types, value, hb', types', rooted, typed,
    name ▸ reported s hs selected untyped⟩

/-- An enumeration that is based on a class without an identity stops the derivation. -/
theorem not_build_addTableTypes :
    let o := of .sqlServer
    let values : ClassifierFilter := fun m s => (m.classifier s).kind.isValue
    let document : ModelDocument := { name := "m", classifiers := [
      { id := "b", name := "B" },
      { id := "e", name := "E", kind := .enumeration, base := some "b" }] }
    ∃ m built, Model.ofDatum document.write = .ok m ∧ (o.build m {}).value = .ok built ∧
      ((o.addTableTypes values).build m {}).value = .error (.noIdentity "B" .sqlType) := by
  intro o values document
  have hrun : o.observe document (fun m _ _ =>
      .ok (((o.addTableTypes values).build m {}).value.map fun _ => ())) =
      .ok (.error (.noIdentity "B" .sqlType)) := by
    decide +kernel
  obtain ⟨m, db, c, hm, hb, hrun⟩ := observe_eq_ok.mp hrun
  refine ⟨m, _, hm, hb, ?_⟩
  have hrun := Except.ok.inj hrun
  cases hvalue : ((o.addTableTypes values).build m {}).value with
  | ok built' => simp [hvalue, Except.map] at hrun
  | error e => simpa [hvalue, Except.map] using hrun

end Options

end Schemata
