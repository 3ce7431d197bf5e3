import Mathlib.Data.List.Nodup
import Schemata.Proofs.Procedure.Origin
import Schemata.Proofs.Schema.Columns
import Schemata.Schema.TableType

/-!
# Table types by name

Of table types with one name the first counts, so a name alone does not tell what a table type
holds. It does if all table types that are considered under one name hold the same. Then the table
type for identities is one of their SQL type, whichever classifier it was made from.
-/
namespace Schemata

/-- The name of a table type and what it holds: values of a SQL type, or else rows. -/
structure TableTypeShape where
  name : String
  values : Option String
  deriving DecidableEq, Repr

structure Table.HasShape (table : Table) (shape : TableTypeShape) : Prop where
  name : table.name = shape.name
  values : ∀ sqlType, shape.values = some sqlType →
    ∃ column, table.columns = [column] ∧ column.sqlType = sqlType

/-- Table types of one name hold the same. -/
def Unambiguous (shapes : List TableTypeShape) : Prop :=
  ∀ a ∈ shapes, ∀ b ∈ shapes, a.name = b.name → a.values = b.values

def Separate (shapes : List TableTypeShape) : Prop :=
  ∀ a ∈ shapes, ∀ b ∈ shapes, a.name = b.name → a.values.isSome = b.values.isSome

instance (shapes : List TableTypeShape) : Decidable (Unambiguous shapes) :=
  inferInstanceAs (Decidable (∀ a ∈ shapes, ∀ b ∈ shapes, a.name = b.name → a.values = b.values))

instance (shapes : List TableTypeShape) : Decidable (Separate shapes) :=
  inferInstanceAs (Decidable (∀ a ∈ shapes, ∀ b ∈ shapes,
    a.name = b.name → a.values.isSome = b.values.isSome))

/-- The tables are table types with distinct names, each of one of the shapes. -/
structure Catalog.HasTypes (c : Catalog) (tableTypes : List TableRef)
    (shapes : List TableTypeShape) :
    Prop where
  bounded : ∀ u ∈ tableTypes, u.place < c.tables.length
  distinct : (tableTypes.map fun u => (c.table u).name).Nodup
  shaped : ∀ u ∈ tableTypes, ∃ shape ∈ shapes, (c.table u).HasShape shape

theorem Catalog.table_addAll (c : Catalog) (tables : List Table) (i : Nat) :
    (c.addAll tables).2.table ⟨c.tables.length + i⟩ = tables.getD i {} := by
  rw [table, addAll, List.getD_eq_getElem?_getD, List.getElem?_append_right (Nat.le_add_right _ _),
    Nat.add_sub_cancel_left, List.getD_eq_getElem?_getD]

theorem Catalog.map_table_addAll (c : Catalog) (tables : List Table) :
    (c.addAll tables).1.map (c.addAll tables).2.table = tables := by
  refine List.ext_getElem (by simp [addAll]) fun i hi hi' => ?_
  have htable := c.table_addAll tables i
  rw [List.getD_eq_getElem?_getD, List.getElem?_eq_getElem hi', Option.getD_some] at htable
  rw [← htable, List.getElem_map]
  simp [addAll]

theorem Catalog.place_addAll (c : Catalog) {tables : List Table} {u : TableRef}
    (hu : u ∈ (c.addAll tables).1) :
    u.place < (c.addAll tables).2.tables.length := by
  obtain ⟨i, hi, rfl⟩ := List.mem_map.mp hu
  simpa [addAll] using hi

namespace Catalog.HasTypes

variable {c c' : Catalog} {tableTypes : List TableRef} {shapes shapes' : List TableTypeShape}
  {shape : TableTypeShape} {table : Table} {u : TableRef} {sqlType : String}

theorem grows (h : c.HasTypes tableTypes shapes) (grows : c.Grows c') :
    c'.HasTypes tableTypes shapes := by
  refine ⟨fun u hu => grows.lt_length (h.bounded u hu), ?_, fun u hu => ?_⟩
  · rw [List.map_congr_left fun u hu => congrArg Table.name (grows.table (h.bounded u hu))]
    exact h.distinct
  · rw [grows.table (h.bounded u hu)]
    exact h.shaped u hu

theorem mono (h : c.HasTypes tableTypes shapes) (subset : shapes ⊆ shapes') :
    c.HasTypes tableTypes shapes' := by
  refine ⟨h.bounded, h.distinct, fun u hu => ?_⟩
  obtain ⟨shape, hs, hu⟩ := h.shaped u hu
  exact ⟨shape, subset hs, hu⟩

theorem add (h : c.HasTypes tableTypes shapes) (hs : shape ∈ shapes) (ht : table.HasShape shape)
    (new : ∀ u ∈ tableTypes, (c.table u).name ≠ table.name) :
    (c.add table).2.HasTypes (tableTypes ++ [(c.add table).1]) shapes := by
  have old := h.grows (grows_add c table)
  have added := table_add_self c table
  refine ⟨fun u hu => ?_, ?_, fun u hu => ?_⟩
  · rcases List.mem_append.mp hu with hu | hu
    · exact old.bounded u hu
    · rw [List.mem_singleton.mp hu]
      simp [Catalog.add]
  · rw [List.map_append, List.map_singleton, added, ← List.concat_eq_append]
    refine old.distinct.concat fun hm => ?_
    obtain ⟨u, hu, same⟩ := List.mem_map.mp hm
    rw [(grows_add c table).table (h.bounded u hu)] at same
    exact new u hu same
  · rcases List.mem_append.mp hu with hu | hu
    · exact old.shaped u hu
    · rw [List.mem_singleton.mp hu, added]
      exact ⟨shape, hs, ht⟩

/-- A table type of the name of one of values has a single column, if no table type of rows has that
name. -/
theorem single (h : c.HasTypes tableTypes shapes) (separate : Separate shapes) (hu : u ∈ tableTypes)
    (hs : shape ∈ shapes) (holds : shape.values.isSome) (name : (c.table u).name = shape.name) :
    ∃ column, (c.table u).columns = [column] := by
  obtain ⟨shape', hs', hu⟩ := h.shaped u hu
  have same := separate shape hs shape' hs' (name.symm.trans hu.name)
  obtain ⟨sqlType, hv⟩ := Option.isSome_iff_exists.mp (same.symm.trans holds)
  obtain ⟨column, hc, _⟩ := hu.values sqlType hv
  exact ⟨column, hc⟩

/-- A table type of the name of one of values holds these values, if names are unambiguous. -/
theorem holds (h : c.HasTypes tableTypes shapes) (unambiguous : Unambiguous shapes)
    (hu : u ∈ tableTypes) (hs : shape ∈ shapes) (values : shape.values = some sqlType)
    (name : (c.table u).name = shape.name) :
    ∃ column, (c.table u).columns = [column] ∧ column.sqlType = sqlType := by
  obtain ⟨shape', hs', hu⟩ := h.shaped u hu
  have same := unambiguous shape hs shape' hs' (name.symm.trans hu.name)
  exact hu.values sqlType (same.symm.trans values)

end Catalog.HasTypes

namespace Options

variable {o : Options} {m : Model} {map : RelationshipMap} {s : ClassifierRef} {sqlType : String}
  {table : Table} {c c' : Catalog}

def valueShape (o : Options) (sqlType : String) : TableTypeShape :=
  ⟨o.naming.simpleTableTypeName sqlType, some sqlType⟩

def rowShape (o : Options) (m : Model) (s : ClassifierRef) : TableTypeShape :=
  ⟨o.naming.complexTableTypeName (m.classifier s), none⟩

def shapeOf? (o : Options) (m : Model) (map : RelationshipMap) (s : ClassifierRef) :
    Option TableTypeShape :=
  if (m.classifier s).kind.isValue then
    match (o.valueType? m s).value with
    | .ok (some sqlType) => some (o.valueShape sqlType)
    | _ => none
  else
    match (o.tableDefinition? m map s).value with
    | .ok (some _) => some (o.rowShape m s)
    | _ => none

def identityShape? (o : Options) (m : Model) : Option TableTypeShape :=
  match o.identitySqlType m with
  | .ok sqlType => some (o.valueShape sqlType)
  | .error _ => none

/-- The table types that are considered for a model: those of the selected classifiers, and one for
identities, which is made even if a selected classifier has the same. -/
def selectedShapes (o : Options) (m : Model) (map : RelationshipMap) : List TableTypeShape :=
  (m.packagedClassifiers.filter (o.becomesTableType m)).filterMap (o.shapeOf? m map) ++
    (o.identityShape? m).toList

theorem hasShape_of_simpleTableType (h : o.simpleTableType s sqlType = .ok table) :
    table.HasShape (o.valueShape sqlType) := by
  rw [simpleTableType] at h
  split at h
  · cases h
  · cases h
    refine ⟨rfl, fun type ht => ⟨_, rfl, ?_⟩⟩
    exact Option.some.inj ht

theorem hasShape_of_complexTableType? (h : (o.complexTableType? m map s).value = .ok (some table)) :
    (∃ definition, (o.tableDefinition? m map s).value = .ok (some definition)) ∧
      table.HasShape (o.rowShape m s) := by
  obtain ⟨definition?, hd, h⟩ := Logged.bind_eq_ok.mp h
  cases definition? with
  | none => cases h
  | some definition =>
    simp only at h
    split at h
    · cases h
    · cases h
      refine ⟨⟨definition, hd⟩, rfl, fun type ht => ?_⟩
      cases ht

/-- A table type has the shape of its classifier, which is that of identities if it holds any. -/
theorem hasShape_of_tableTypeOf? {identityType : String} {holds : Bool}
    (h : (o.tableTypeOf? m map identityType s).value = .ok (some (table, holds))) :
    ∃ shape, o.shapeOf? m map s = some shape ∧ table.HasShape shape ∧
      (holds = true → shape = o.valueShape identityType) := by
  rw [tableTypeOf?] at h
  split at h
  case isTrue isValue =>
    obtain ⟨sqlType?, hs, h⟩ := Logged.bind_eq_ok.mp h
    cases sqlType? with
    | none => cases h
    | some sqlType =>
      obtain ⟨table, ht, h⟩ := Logged.bind_eq_ok.mp h
      cases h
      refine ⟨o.valueShape sqlType, by simp only [shapeOf?, if_pos isValue, hs],
        hasShape_of_simpleTableType (Logged.lift_eq_ok.mp ht), fun same => ?_⟩
      rw [beq_iff_eq.mp same]
  case isFalse notValue =>
    obtain ⟨table?, ht, h⟩ := Logged.bind_eq_ok.mp h
    cases table? with
    | none => cases h
    | some table =>
      cases h
      obtain ⟨⟨definition, hd⟩, shaped⟩ := hasShape_of_complexTableType? ht
      exact ⟨o.rowShape m s, by simp only [shapeOf?, if_neg notValue, hd], shaped, Bool.noConfusion⟩

namespace TableTypes

variable {types : TableTypes} {table : Table} {holds : Bool}

theorem tables_add (types : TableTypes) (table : Table) (holds : Bool) :
    (types.add table holds).tables = types.tables ∨
      (∀ t ∈ types.tables, t.name ≠ table.name) ∧
        (types.add table holds).tables = types.tables ++ [table] := by
  cases hp : types.position? table.name with
  | some i => exact .inl (by simp [add, hp])
  | none =>
    refine .inr ⟨fun t ht e => ?_, by simp [add, hp]⟩
    have hnone := List.findIdx?_eq_none_iff.mp hp t ht
    rw [e, beq_self_eq_true] at hnone
    cases hnone

theorem identity_add (types : TableTypes) (table : Table) (holds : Bool) :
    ∃ i t, (types.add table holds).tables[i]? = some t ∧ t.name = table.name ∧
      (types.add table holds).identity = types.identity.or (if holds then some i else none) := by
  cases hp : types.position? table.name with
  | some i =>
    obtain ⟨hi, name, _⟩ := List.findIdx?_eq_some_iff_getElem.mp hp
    exact ⟨i, types.tables[i], by simp [add, hp, hi], beq_iff_eq.mp name, by simp [add, hp]⟩
  | none => exact ⟨types.tables.length, table, by simp [add, hp], rfl, by simp [add, hp]⟩

structure Sound (shapes : List TableTypeShape) (identity : TableTypeShape) (types : TableTypes) :
    Prop where
  distinct : (types.tables.map (·.name)).Nodup
  shaped : ∀ table ∈ types.tables, ∃ shape ∈ shapes, table.HasShape shape
  identity : ∀ i, types.identity = some i → ∃ table, types.tables[i]? = some table ∧
    table.name = identity.name

theorem Sound.add {shapes : List TableTypeShape} {identity shape : TableTypeShape}
    (h : types.Sound shapes identity) (hs : shape ∈ shapes) (ht : table.HasShape shape)
    (same : holds = true → shape = identity) : (types.add table holds).Sound shapes identity := by
  have identified : ∀ i, (types.add table holds).identity = some i →
      ∃ t, (types.add table holds).tables[i]? = some t ∧ t.name = identity.name := by
    obtain ⟨i, t, hi, name, e⟩ := types.identity_add table holds
    intro k hk
    rcases Option.or_eq_some_iff.mp (e ▸ hk) with hk | ⟨_, hk⟩
    · obtain ⟨t', ht', name'⟩ := h.identity k hk
      refine ⟨t', ?_, name'⟩
      rcases types.tables_add table holds with e | ⟨_, e⟩ <;> rw [e]
      · exact ht'
      · rw [List.getElem?_append_left (List.getElem?_eq_some_iff.mp ht').1, ht']
    · split at hk
      case isTrue holds =>
        obtain rfl := Option.some.inj hk
        exact ⟨t, hi, name.trans (ht.name.trans (congrArg TableTypeShape.name (same holds)))⟩
      case isFalse => cases hk
  rcases types.tables_add table holds with e | ⟨new, e⟩
  · exact ⟨e ▸ h.distinct, e ▸ h.shaped, identified⟩
  · refine ⟨?_, fun t ht' => ?_, identified⟩
    · rw [e, List.map_append, List.map_singleton, ← List.concat_eq_append]
      refine h.distinct.concat fun hm => ?_
      obtain ⟨t, ht, same⟩ := List.mem_map.mp hm
      exact new t ht same
    · rcases List.mem_append.mp (e ▸ ht') with ht' | ht'
      · exact h.shaped t ht'
      · rw [List.mem_singleton.mp ht']
        exact ⟨shape, hs, ht⟩

end TableTypes

theorem addTableType_eq_ok {types types' : TableTypes} {identityType : String}
    (ok : (o.addTableType m map identityType types s).value = .ok types') :
    types' = types ∨ ∃ table holds, o.becomesTableType m s = true ∧
      (o.tableTypeOf? m map identityType s).value = .ok (some (table, holds)) ∧
      types' = types.add table holds := by
  rw [Options.addTableType] at ok
  split at ok
  case isTrue =>
    cases ok
    exact .inl rfl
  case isFalse selected =>
    obtain ⟨found, hf, ok⟩ := Logged.bind_eq_ok.mp ok
    cases found with
    | none =>
      cases ok
      exact .inl rfl
    | some found =>
      obtain ⟨table, holds⟩ := found
      refine .inr ⟨table, holds, by simpa using selected, hf, ?_⟩
      simp only at ok
      split at ok
      · obtain ⟨_, _, ok⟩ := Logged.bind_eq_ok.mp ok
        exact (Except.ok.inj ok).symm
      · exact (Except.ok.inj ok).symm

theorem TableTypes.Sound.addTableType {shapes : List TableTypeShape} {types types' : TableTypes}
    {identityType : String} (h : types.Sound shapes (o.valueShape identityType))
    (hs : o.becomesTableType m s = true → ∀ shape, o.shapeOf? m map s = some shape → shape ∈ shapes)
    (ok : (o.addTableType m map identityType types s).value = .ok types') :
    types'.Sound shapes (o.valueShape identityType) := by
  rcases addTableType_eq_ok ok with rfl | ⟨table, holds, selected, hf, rfl⟩
  · exact h
  · obtain ⟨shape, hshape, shaped, same⟩ := hasShape_of_tableTypeOf? hf
    exact h.add (hs selected shape hshape) shaped same

theorem tableTypesOf_eq_ok {types : TableTypes} (h : (o.tableTypesOf m map).value = .ok types) :
    ∃ identityType, o.identitySqlType m = .ok identityType ∧
      types.Sound (o.selectedShapes m map) (o.valueShape identityType) ∧ types.identity.isSome := by
  obtain ⟨identityType, hi, h⟩ := Logged.bind_eq_ok.mp h
  have hi := Logged.lift_eq_ok.mp hi
  obtain ⟨selected, hs, h⟩ := Logged.bind_eq_ok.mp h
  have sound : selected.Sound (o.selectedShapes m map) (o.valueShape identityType) := by
    refine Logged.foldlM_induction
      (P := fun types => types.Sound (o.selectedShapes m map) (o.valueShape identityType)) hs
      ⟨List.nodup_nil, by simp, by simp⟩ fun types s types' packaged h ok => h.addTableType ?_ ok
    intro selects shape hshape
    exact List.mem_append_left _
      (List.mem_filterMap.mpr ⟨s, List.mem_filter.mpr ⟨packaged, selects⟩, hshape⟩)
  have hidentity : o.valueShape identityType ∈ o.selectedShapes m map := by
    refine List.mem_append_right _ ?_
    rw [identityShape?, hi]
    exact List.mem_singleton_self _
  refine ⟨identityType, hi, ?_⟩
  split at h
  case isTrue found =>
    cases h
    exact ⟨sound, found⟩
  case isFalse missing =>
    obtain ⟨table, ht, h⟩ := Logged.bind_eq_ok.mp h
    cases h
    have shaped := hasShape_of_simpleTableType (Logged.lift_eq_ok.mp ht)
    refine ⟨sound.add hidentity shaped fun _ => rfl, ?_⟩
    cases hn : selected.identity <;> simp [TableTypes.add, hn]

/-- The table types of a model are added behind all tables. -/
theorem createTableTypes_cases {identityType : TableRef} {tableTypes : List TableRef}
    (h : (o.createTableTypes m map c).value = .ok (identityType, tableTypes, c')) :
    ∃ types, (o.tableTypesOf m map).value = .ok types ∧
      identityType = ⟨c.tables.length + types.identity.getD 0⟩ ∧
      tableTypes = (c.addAll types.tables).1 ∧ c' = (c.addAll types.tables).2 := by
  obtain ⟨types, ht, h⟩ := Logged.bind_eq_ok.mp h
  cases h
  exact ⟨types, ht, rfl, rfl, rfl⟩

theorem createTableTypes_eq_ok {identityType : TableRef} {tableTypes : List TableRef}
    (h : (o.createTableTypes m map c).value = .ok (identityType, tableTypes, c')) :
    c'.HasTypes tableTypes (o.selectedShapes m map) ∧ identityType ∈ tableTypes ∧
      ∃ sqlType, o.identitySqlType m = .ok sqlType ∧
        (c'.table identityType).name = (o.valueShape sqlType).name := by
  obtain ⟨types, ht, rfl, rfl, rfl⟩ := createTableTypes_cases h
  obtain ⟨sqlType, hs, sound, some⟩ := tableTypesOf_eq_ok ht
  obtain ⟨i, hi⟩ := Option.isSome_iff_exists.mp some
  obtain ⟨table, hget, name⟩ := sound.identity i hi
  have htables := c.map_table_addAll types.tables
  refine ⟨⟨fun u hu => c.place_addAll hu, ?_, ?_⟩, ?_, sqlType, hs, ?_⟩
  · have hnames := sound.distinct
    rw [← htables, List.map_map] at hnames
    exact hnames
  · intro u hu
    have hmem := List.mem_map_of_mem (f := (c.addAll types.tables).2.table) hu
    rw [htables] at hmem
    exact sound.shaped _ hmem
  · rw [hi]
    exact List.mem_map_of_mem (List.mem_range.mpr (List.getElem?_eq_some_iff.mp hget).1)
  · rw [hi, Option.getD_some, Catalog.table_addAll, List.getD_eq_getElem?_getD, hget]
    exact name

end Options

end Schemata
