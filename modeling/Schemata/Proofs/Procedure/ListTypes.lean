import Schemata.Proofs.Schema.TableTypes

/-!
# Lists of identities

A procedure that updates a relationship takes a list of identities, in a table type that is in the
database: the one for identities if it fits, and otherwise one that is looked up by name or added.
Procedures that insert and update ask for the same lists.
-/
namespace Schemata
namespace Catalog

variable {c c' : Catalog} {tables : List TableRef} {t : TableRef} {key : ColumnRef}

/-- The tables are in the catalog, and only know columns of one another. -/
structure Closed (c : Catalog) (tables : List TableRef) : Prop where
  bounded : ∀ t ∈ tables, t.place < c.tables.length
  owners : ∀ t ∈ tables, ∀ column ∈ (c.table t).dependents, column.table ∈ tables

theorem Grows.column (h : c.Grows c') (bounded : key.table.place < c.tables.length) :
    c'.column key = c.column key := by
  rw [Catalog.column, Catalog.column, h.table bounded]

theorem Grows.identity? (h : c.Grows c') (bounded : t.place < c.tables.length) :
    c'.identity? t = c.identity? t := by
  rw [Catalog.identity?, Catalog.identity?, h.table bounded]

theorem Closed.grows (h : c.Closed tables) (grows : c.Grows c') : c'.Closed tables := by
  refine ⟨fun t ht => grows.lt_length (h.bounded t ht), fun t ht => ?_⟩
  rw [grows.table (h.bounded t ht)]
  exact h.owners t ht

theorem Closed.relationshipKeys (h : c.Closed tables) (grows : c.Grows c') (ht : t ∈ tables) :
    ResultSet.relationshipKeys c' (c'.table t) = ResultSet.relationshipKeys c (c.table t) := by
  rw [grows.table (h.bounded t ht), ResultSet.relationshipKeys, ResultSet.relationshipKeys]
  refine List.filter_congr fun column hc => ?_
  rw [grows.column (h.bounded _ (h.owners t ht column hc))]

theorem Closed.owner (h : c.Closed tables) (ht : t ∈ tables)
    (hkey : key ∈ ResultSet.relationshipKeys c (c.table t)) : key.table ∈ tables :=
  h.owners t ht key (List.mem_filter.mp hkey).1

theorem table_of_identity? (h : c.identity? t = some key) : key.table = t := by
  obtain ⟨_, _, rfl⟩ := Option.map_eq_some_iff.mp h
  rfl

theorem identityColumn?_of_identity? (h : c.identity? t = some key) :
    (c.table t).identityColumn? = some (c.column key) := by
  obtain ⟨i, hi, rfl⟩ := Option.map_eq_some_iff.mp h
  obtain ⟨hlt, hidentity, first⟩ := List.findIdx?_eq_some_iff_getElem.mp hi
  rw [Table.identityColumn?, Catalog.column, List.getD_eq_getElem?_getD,
    List.getElem?_eq_getElem hlt, Option.getD_some, List.find?_eq_some_iff_getElem]
  exact ⟨hidentity, i, hlt, rfl, fun j hj => by simpa using first j hj⟩

end Catalog

namespace Options

/-- The table types that are considered for the lists of identities of a table's relationships. A
list for which the table type for identities is used counts too: it is a list of identities of the
same SQL type. -/
def listShapesOf (o : Options) (m : Model) (c : Catalog) (p : Procedure) : List TableTypeShape :=
  if p.isWriter && (identityParameter? o.naming m (c.table p.table) 0).isSome then
    (ResultSet.relationshipKeys c (c.table p.table)).filterMap fun key =>
      (c.identity? key.table).map fun identity => o.valueShape (c.column identity).sqlType
  else []

def listShapes (o : Options) (m : Model) (c : Catalog) (procedures : List Procedure) :
    List TableTypeShape :=
  procedures.flatMap (o.listShapesOf m c)

variable {o : Options} {m : Model} {c c' : Catalog} {tables : List TableRef} {p : Procedure}
  {key identity : ColumnRef} {procedures : List Procedure}

theorem mem_listShapes {principal : Parameter} (hp : p ∈ procedures) (writes : p.isWriter = true)
    (hi : identityParameter? o.naming m (c.table p.table) 0 = some principal)
    (hkey : key ∈ ResultSet.relationshipKeys c (c.table p.table))
    (hidentity : c.identity? key.table = some identity) :
    o.valueShape (c.column identity).sqlType ∈ o.listShapes m c procedures := by
  refine List.mem_flatMap.mpr ⟨p, hp, ?_⟩
  rw [listShapesOf, writes, hi, Option.isSome_some, Bool.and_self, if_pos rfl]
  exact List.mem_filterMap.mpr ⟨key, hkey, by rw [hidentity]; rfl⟩

theorem listShapes_grows (closed : c.Closed tables) (grows : c.Grows c')
    (hp : ∀ p ∈ procedures, p.table ∈ tables) :
    o.listShapes m c' procedures = o.listShapes m c procedures := by
  refine List.flatMap_congr fun p hmem => ?_
  have ht := hp p hmem
  rw [listShapesOf, listShapesOf, closed.relationshipKeys grows ht,
    grows.table (closed.bounded _ ht)]
  split
  · refine List.filterMap_congr fun key hkey => ?_
    have bounded := closed.bounded _ (closed.owner ht hkey)
    rw [grows.identity? bounded]
    cases hi : c.identity? key.table with
    | none => rfl
    | some identity =>
      have howner := Catalog.table_of_identity? hi
      rw [Option.map_some, Option.map_some, grows.column (howner ▸ bounded)]
  · rfl

end Options

/-- The procedure updates a relationship by a list of identities. Its table type has the name of one
that holds them, or it is the table type for identities and holds what they are. -/
structure Procedure.Lists (o : Options) (m : Model) (identityType : TableRef) (c : Catalog)
    (tableTypes : List TableRef) (shapes : List TableTypeShape) (p : Procedure)
    (key identity : ColumnRef) (principal values : Parameter) (u : TableRef) : Prop where
  dependent : p.dependent = some key
  mem_keys : key ∈ ResultSet.relationshipKeys c (c.table p.table)
  parameters : p.parameters = [principal, values]
  principal : identityParameter? o.naming m (c.table p.table) 0 = some principal
  tableValued : values.isTableValued = true
  tableType : values.tableType = some u
  mem_tableTypes : u ∈ tableTypes
  identified : c.identity? key.table = some identity
  mem_shapes : o.valueShape (c.column identity).sqlType ∈ shapes
  holds : (c.table u).name = (o.valueShape (c.column identity).sqlType).name ∨
    u = identityType ∧ (c.table u).columns.head?.any fun column =>
      column.sqlType == (c.column identity).sqlType

theorem Procedure.Lists.grows {o : Options} {m : Model} {identityType u : TableRef} {c c' : Catalog}
    {tables tableTypes tableTypes' : List TableRef} {shapes shapes' : List TableTypeShape}
    {p : Procedure} {key identity : ColumnRef} {principal values : Parameter}
    (h : p.Lists o m identityType c tableTypes shapes key identity principal values u)
    (closed : c.Closed tables) (ht : p.table ∈ tables) (grows : c.Grows c')
    (bounded : u.place < c.tables.length) (types : tableTypes ⊆ tableTypes')
    (subset : shapes ⊆ shapes') :
    p.Lists o m identityType c' tableTypes' shapes' key identity principal values u := by
  have hkey := closed.bounded _ (closed.owner ht h.mem_keys)
  have hidentity := grows.column ((Catalog.table_of_identity? h.identified).symm ▸ hkey)
  refine ⟨h.dependent, ?_, h.parameters, ?_, h.tableValued, h.tableType, types h.mem_tableTypes, ?_,
    ?_, ?_⟩
  · rw [closed.relationshipKeys grows ht]
    exact h.mem_keys
  · rw [grows.table (closed.bounded _ ht)]
    exact h.principal
  · rw [grows.identity? hkey]
    exact h.identified
  · rw [hidentity]
    exact subset h.mem_shapes
  · rw [hidentity, grows.table bounded]
    exact h.holds

def Options.rules (o : Options) (identityType : TableRef) : ProcedureRules :=
  { naming := o.naming, identityType, source := .database o }

namespace ProcedureDraft

def shapes (o : Options) (m : Model) (base : List TableTypeShape) (d : ProcedureDraft) :
    List TableTypeShape :=
  base ++ o.listShapes m d.catalog d.procedures

structure Typed (o : Options) (m : Model) (identityType : TableRef) (tables : List TableRef)
    (base : List TableTypeShape) (d : ProcedureDraft) : Prop where
  closed : d.catalog.Closed tables
  tables : ∀ p ∈ d.procedures, p.table ∈ tables
  types : d.catalog.HasTypes d.tableTypes (d.shapes o m base)
  mem_identityType : identityType ∈ d.tableTypes
  lists : ∀ p ∈ d.procedures, p.query = .updateRelationship → ∃ key identity principal values u,
    p.Lists o m identityType d.catalog d.tableTypes (d.shapes o m base) key identity
      principal values u

variable {o : Options} {m : Model} {identityType t u : TableRef} {tables : List TableRef}
  {base : List TableTypeShape} {d d' : ProcedureDraft} {p : Procedure} {key identity : ColumnRef}
  {model : ClassifierRef}

theorem Typed.shapes_subset (h : d.Typed o m identityType tables base) (d' : ProcedureDraft)
    (grows : d.catalog.Grows d'.catalog) (kept : d.procedures ⊆ d'.procedures) :
    d.shapes o m base ⊆ d'.shapes o m base := by
  refine List.append_subset.mpr ⟨List.subset_append_left _ _, fun shape hs => ?_⟩
  rw [← Options.listShapes_grows h.closed grows h.tables] at hs
  obtain ⟨p, hp, hs⟩ := List.mem_flatMap.mp hs
  exact List.mem_append_right _ (List.mem_flatMap.mpr ⟨p, kept hp, hs⟩)

/-- What is derived later does not change what was derived before. -/
theorem Typed.extend (h : d.Typed o m identityType tables base) (grows : d.catalog.Grows d'.catalog)
    (types : d'.catalog.HasTypes d'.tableTypes (d'.shapes o m base))
    (subset : d.tableTypes ⊆ d'.tableTypes) (kept : d.procedures ⊆ d'.procedures)
    (new : ∀ p ∈ d'.procedures, p ∈ d.procedures ∨ p.table ∈ tables ∧
      (p.query = .updateRelationship →
      ∃ key identity principal values u, p.Lists o m identityType d'.catalog d'.tableTypes
        (d'.shapes o m base) key identity principal values u)) :
    d'.Typed o m identityType tables base := by
  refine ⟨h.closed.grows grows, fun p hp => ?_, types, subset h.mem_identityType, fun p hp hq => ?_⟩
  · rcases new p hp with hp | ⟨ht, _⟩
    · exact h.tables p hp
    · exact ht
  · rcases new p hp with hp | ⟨_, lists⟩
    · obtain ⟨key, identity, principal, values, u, lists⟩ := h.lists p hp hq
      exact ⟨key, identity, principal, values, u, lists.grows h.closed (h.tables p hp) grows
        (h.types.bounded u lists.mem_tableTypes) subset (h.shapes_subset d' grows kept)⟩
    · exact lists hq

theorem add_eq_ok {added : Bool} (ok : (d.add p).value = .ok (added, d')) :
    added = false ∧ d' = d ∨ added = true ∧ d' = { d with procedures := d.procedures ++ [p] } := by
  rw [ProcedureDraft.add] at ok
  split at ok
  · cases ok
    exact .inl ⟨rfl, rfl⟩
  · cases ok
    exact .inr ⟨rfl, rfl⟩

theorem Typed.add {added : Bool} (h : d.Typed o m identityType tables base)
    (ok : (d.add p).value = .ok (added, d')) (ht : p.table ∈ tables)
    (lists : p.query = .updateRelationship → ∃ key identity principal values u,
      p.Lists o m identityType d.catalog d.tableTypes
        (d.shapes o m base) key identity principal values u) :
    d'.Typed o m identityType tables base := by
  rcases add_eq_ok ok with ⟨_, rfl⟩ | ⟨_, rfl⟩
  · exact h
  · have grows := Catalog.Grows.refl d.catalog
    have kept : d.procedures ⊆ d.procedures ++ [p] := List.subset_append_left _ _
    have subset := h.shapes_subset { d with procedures := d.procedures ++ [p] } grows kept
    refine h.extend grows (h.types.mono subset) (List.Subset.refl _) kept fun q hq => ?_
    rcases List.mem_append.mp hq with hq | hq
    · exact .inl hq
    · rw [List.mem_singleton.mp hq]
      refine .inr ⟨ht, fun hp => ?_⟩
      obtain ⟨key, identity, principal, values, u, lists⟩ := lists hp
      exact ⟨key, identity, principal, values, u, lists.grows h.closed ht grows
        (h.types.bounded u lists.mem_tableTypes) (List.Subset.refl _) subset⟩

theorem Typed.addType {table : Table} {shape : TableTypeShape}
    (h : d.Typed o m identityType tables base) (hs : shape ∈ d.shapes o m base)
    (shaped : table.HasShape shape)
    (new : ∀ u ∈ d.tableTypes, (d.catalog.table u).name ≠ table.name) :
    { d with
      catalog := (d.catalog.add table).2
      tableTypes := d.tableTypes ++ [(d.catalog.add table).1] : ProcedureDraft }.Typed
        o m identityType tables base := by
  have grows := Catalog.grows_add d.catalog table
  have subset := h.shapes_subset { d with
    catalog := (d.catalog.add table).2
    tableTypes := d.tableTypes ++ [(d.catalog.add table).1] } grows (List.Subset.refl _)
  exact h.extend grows ((h.types.add hs shaped new).mono subset) (List.subset_append_left _ _)
    (List.Subset.refl _) fun p hp => .inl hp

theorem Typed.simpleTableTypeFor (h : d.Typed o m identityType tables base)
    (hs : o.valueShape (d.catalog.column identity).sqlType ∈ d.shapes o m base)
    (ok : (o.simpleTableTypeFor m d identity).value = .ok (u, d')) :
    d'.Typed o m identityType tables base ∧ u ∈ d'.tableTypes ∧
      (d'.catalog.table u).name = (o.valueShape (d.catalog.column identity).sqlType).name := by
  obtain ⟨table, ht, ok⟩ := Logged.bind_eq_ok.mp ok
  have shaped := Options.hasShape_of_simpleTableType (Logged.lift_eq_ok.mp ht)
  split at ok
  case h_1 v hv =>
    cases ok
    have name := List.find?_some hv
    exact ⟨h, List.mem_of_find?_eq_some hv, (beq_iff_eq.mp name).trans shaped.name⟩
  case h_2 hnone =>
    cases ok
    refine ⟨h.addType hs shaped fun v hv e => ?_,
      List.mem_append_right _ (List.mem_singleton_self _), ?_⟩
    · exact List.find?_eq_none.mp hnone v hv (beq_iff_eq.mpr e)
    · exact (congrArg Table.name (Catalog.table_add_self _ _)).trans shaped.name

/-- The table type for a list of identities has the name of one that holds them, or it is the one
for identities and fits. -/
theorem Typed.listType (h : d.Typed o m identityType tables base)
    (hs : o.valueShape (d.catalog.column identity).sqlType ∈ d.shapes o m base)
    (ok : ((o.rules identityType).listType m d identity).value = .ok (u, d')) :
    d'.Typed o m identityType tables base ∧ u ∈ d'.tableTypes ∧
      ((d'.catalog.table u).name = (o.valueShape (d.catalog.column identity).sqlType).name ∨
        u = identityType ∧ (d'.catalog.table u).columns.head?.any fun column =>
          column.sqlType == (d.catalog.column identity).sqlType) := by
  rw [ProcedureRules.listType] at ok
  split at ok
  case isTrue fits =>
    cases ok
    exact ⟨h, h.mem_identityType, .inr ⟨rfl, fits⟩⟩
  case isFalse =>
    obtain ⟨typed, hu, name⟩ := h.simpleTableTypeFor hs ok
    exact ⟨typed, hu, .inl name⟩

theorem listParameter_eq_ok {rules : ProcedureRules} {index : Int} {q : Parameter}
    (ok : (rules.listParameter m d identity index).value = .ok (q, d')) :
    ∃ u, (rules.listType m d identity).value = .ok (u, d') ∧ q.isTableValued = true ∧
      q.tableType = some u := by
  obtain ⟨⟨u, _⟩, hu, ok⟩ := Logged.bind_eq_ok.mp ok
  cases ok
  exact ⟨u, hu, rfl, rfl⟩

theorem addRelationshipUpdate_eq_ok {rules : ProcedureRules}
    (ok : (d.addRelationshipUpdate rules m t model key).value = .ok d') :
    d.catalog.Grows d'.catalog ∧ d.procedures ⊆ d'.procedures := by
  rw [ProcedureDraft.addRelationshipUpdate] at ok
  split at ok
  case h_1 =>
    cases ok
    exact ⟨.refl _, List.Subset.refl _⟩
  case h_2 =>
    cases ok
    exact ⟨.refl _, List.Subset.refl _⟩
  case h_3 =>
    obtain ⟨⟨values, d₁⟩, hv, ok⟩ := Logged.bind_eq_ok.mp ok
    obtain ⟨q, hq, ok⟩ := Logged.bind_eq_ok.mp ok
    obtain ⟨u, hu, _⟩ := listParameter_eq_ok hv
    obtain ⟨grows, procedures⟩ := listType_eq_ok hu
    split at ok
    · cases ok
      exact ⟨grows, procedures ▸ List.Subset.refl _⟩
    · obtain ⟨⟨added, d₂⟩, ha, ok⟩ := Logged.bind_eq_ok.mp ok
      cases ok
      rcases add_eq_ok ha with ⟨_, rfl⟩ | ⟨_, rfl⟩
      · exact ⟨grows, procedures ▸ List.Subset.refl _⟩
      · exact ⟨grows, procedures ▸ List.subset_append_left _ _⟩

theorem Typed.addRelationshipUpdate (h : d.Typed o m identityType tables base) (ht : t ∈ tables)
    (writer : ∃ p ∈ d.procedures, p.isWriter = true ∧ p.table = t)
    (hkey : key ∈ ResultSet.relationshipKeys d.catalog (d.catalog.table t))
    (ok : (d.addRelationshipUpdate (o.rules identityType) m t model key).value = .ok d') :
    d'.Typed o m identityType tables base := by
  obtain ⟨writer, hw, writes, rfl⟩ := writer
  rw [ProcedureDraft.addRelationshipUpdate] at ok
  split at ok
  case h_1 =>
    cases ok
    exact h
  case h_2 =>
    cases ok
    exact h
  case h_3 principal identity hp hi =>
    obtain ⟨⟨values, d₁⟩, hv, ok⟩ := Logged.bind_eq_ok.mp ok
    obtain ⟨q, hq, ok⟩ := Logged.bind_eq_ok.mp ok
    obtain ⟨u, hu, tableValued, tableType⟩ := listParameter_eq_ok hv
    have hs := List.mem_append_right base (Options.mem_listShapes hw writes hp hkey hi)
    obtain ⟨typed, mem, holds⟩ := h.listType hs hu
    obtain ⟨grows, procedures⟩ := listType_eq_ok hu
    split at ok
    · cases ok
      exact typed
    · obtain ⟨⟨added, d₂⟩, ha, ok⟩ := Logged.bind_eq_ok.mp ok
      cases ok
      obtain ⟨name, rfl⟩ := procedure_eq_ok (Logged.lift_eq_ok.mp hq)
      have hkeys := h.closed.bounded _ (h.closed.owner ht hkey)
      have hidentity := grows.column ((Catalog.table_of_identity? hi).symm ▸ hkeys)
      refine typed.add ha ht fun _ => ⟨key, identity, principal, values, u, ?_⟩
      refine ⟨rfl, ?_, rfl, ?_, tableValued, tableType, mem, ?_, ?_, ?_⟩
      · rw [h.closed.relationshipKeys grows ht]
        exact hkey
      · rw [grows.table (h.closed.bounded _ ht)]
        exact hp
      · rw [grows.identity? hkeys]
        exact hi
      · rw [hidentity]
        exact h.shapes_subset d₁ grows (procedures ▸ List.Subset.refl _) hs
      · rw [hidentity]
        exact holds

theorem Typed.addWriter (h : d.Typed o m identityType tables base) (ht : p.table ∈ tables)
    (writes : p.isWriter = true)
    (ok : (d.addWriter (o.rules identityType) m p p.table model).value = .ok d') :
    d'.Typed o m identityType tables base := by
  obtain ⟨⟨added, d₁⟩, ha, rest⟩ := Logged.bind_eq_ok.mp ok
  have hp : p.query ≠ .updateRelationship := by
    intro e
    rw [Procedure.isWriter, e] at writes
    cases writes
  have h₁ := h.add ha ht fun e => absurd e hp
  rcases add_eq_ok ha with ⟨rfl, rfl⟩ | ⟨rfl, rfl⟩
  · cases rest
    exact h₁
  · -- The writer stays, and so do the relationships of its table, while table types are added.
    let P : ProcedureDraft → Prop := fun d₂ => d₂.Typed o m identityType tables base ∧
      d.catalog.Grows d₂.catalog ∧ p ∈ d₂.procedures
    have first : P { d with procedures := d.procedures ++ [p] } :=
      ⟨h₁, .refl _, List.mem_append_right _ (List.mem_singleton_self p)⟩
    refine (Logged.foldlM_induction (P := P) rest first
      fun d₂ key d₃ hkey ⟨h₂, grows, hp⟩ ok => ?_).1
    have hkey' : key ∈ ResultSet.relationshipKeys d₂.catalog (d₂.catalog.table p.table) := by
      rw [h.closed.relationshipKeys grows ht]
      exact hkey
    obtain ⟨grows', kept⟩ := addRelationshipUpdate_eq_ok ok
    exact ⟨h₂.addRelationshipUpdate ht ⟨p, hp, writes, rfl⟩ hkey' ok, grows.trans grows', kept hp⟩

theorem Typed.addKind {kind : ProcedureKind} (h : d.Typed o m identityType tables base)
    (ht : t ∈ tables) (ok : (d.addKind (o.rules identityType) m t model kind).value = .ok d') :
    d'.Typed o m identityType tables base := by
  rcases addKind_cases ok with rfl | ⟨p, origin, own, ok⟩
  · exact h
  obtain rfl := origin.table
  rcases ok with ⟨writes, ok⟩ | ⟨added, ok⟩
  · exact h.addWriter ht writes ok
  · exact h.add ok ht fun e => absurd e own

theorem Typed.addTable {selection : ProcedureSelection} (h : d.Typed o m identityType tables base)
    (ht : t ∈ tables) (ok : (d.addTable (o.rules identityType) m selection t).value = .ok d') :
    d'.Typed o m identityType tables base := by
  rw [ProcedureDraft.addTable] at ok
  split at ok
  · cases ok
    exact h
  · split at ok
    · cases ok
    · exact Logged.foldlM_induction (P := Typed o m identityType tables base) ok h
        fun d kind d' _ h ok => h.addKind ht ok

end ProcedureDraft

theorem Options.createProcedures_typed {o : Options} {m : Model} {identityType : TableRef}
    {tables : List TableRef} {base : List TableTypeShape} {d d' : ProcedureDraft}
    (closed : d.catalog.Closed tables) (none : d.procedures = [])
    (types : d.catalog.HasTypes d.tableTypes base) (mem : identityType ∈ d.tableTypes)
    (ok : (o.createProcedures m identityType tables d).completed.value = .ok d') :
    d'.Typed o m identityType tables base := by
  rw [createProcedures, Progress.completed_walk] at ok
  refine Logged.foldlM_induction (P := ProcedureDraft.Typed o m identityType tables base) ok ?_
    fun d t d' ht h ok => h.addTable ht ok
  exact ⟨closed, by simp [none], types.mono (List.subset_append_left _ _), mem, by simp [none]⟩

end Schemata
