import Schemata.Proofs.Schema.Columns
import Schemata.Proofs.Schema.TableOrder

/-!
# References between tables

Adding the tables of definitions to a catalog, and listing each foreign key column with the
dependents of the table it refers to, change nothing but the dependents of the new tables.
-/
namespace Schemata

namespace Options

theorem mem_referencesOf {columns : List DerivedColumn} {position : Nat}
    {principal : ClassifierRef} :
    (position, principal) ∈ referencesOf columns ↔
      ∃ d, columns[position]? = some d ∧ d.principal = some principal := by
  simp only [referencesOf, List.mem_filterMap, Prod.exists, List.mem_zipIdx_iff_getElem?,
    Option.map_eq_some_iff, Prod.mk.injEq]
  constructor
  · rintro ⟨d, i, hd, r, hr, rfl, rfl⟩
    exact ⟨d, hd, hr⟩
  · rintro ⟨d, hd, hr⟩
    exact ⟨d, position, hd, principal, hr, rfl, rfl⟩

theorem nodup_referencesOf (columns : List DerivedColumn) :
    ((referencesOf columns).map Prod.fst).Nodup := by
  have hs : columns.zipIdx.Pairwise fun a b => a.2 ≠ b.2 := by
    rw [← List.pairwise_map (f := Prod.snd) (R := (· ≠ ·)), List.zipIdx_map_snd]
    exact List.nodup_range'
  rw [List.Nodup, List.pairwise_map, referencesOf]
  refine hs.filterMap _ ?_
  rintro ⟨_, i⟩ ⟨_, j⟩ hij a ha b hb
  obtain ⟨_, _, rfl⟩ := Option.map_eq_some_iff.mp ha
  obtain ⟨_, _, rfl⟩ := Option.map_eq_some_iff.mp hb
  exact hij

end Options

namespace Catalog

variable {c c' : Catalog} {m : Model} {tables : List TableRef} {t : TableRef}

def dependentsOf (c : Catalog) (m : Model) (tables : List TableRef) (references : List Reference)
    (t : TableRef) : List ColumnRef :=
  (references.filter fun r => c.principalTable? m tables r.principal == some t).map (·.column)

theorem principalTable?_congr (h : ∀ t, (c'.table t).source = (c.table t).source) :
    c'.principalTable? m tables = c.principalTable? m tables := by
  funext principal
  simp only [principalTable?, h]

theorem table_addDependent (bounded : t.place < c.tables.length) (column : ColumnRef)
    (u : TableRef) :
    (c.addDependent t column).table u =
      { c.table u with
        dependents := (c.table u).dependents ++ if t = u then [column] else [] } := by
  rw [addDependent]
  by_cases h : u = t
  · subst h
    rw [table_update_self bounded, if_pos rfl]
  · rw [table_update_of_ne h, if_neg fun e => h e.symm, List.append_nil]

theorem principalTable?_mem {principal : ClassifierRef}
    (h : c.principalTable? m tables principal = some t) :
    t ∈ tables := List.mem_of_find?_eq_some h

/-- A reference is listed with the table it refers to. -/
theorem table_resolveReference {r : Reference} (bounded : ∀ t ∈ tables, t.place < c.tables.length)
    (h : (resolveReference m tables c r).value = .ok c') :
    c'.tables.length = c.tables.length ∧ ∀ t, c'.table t =
      { c.table t with
        dependents := (c.table t).dependents ++ c.dependentsOf m tables [r] t } := by
  rw [resolveReference] at h
  split at h
  case h_1 p hp =>
    cases h
    refine ⟨length_update _ _ _, fun t => ?_⟩
    rw [table_addDependent (bounded p (principalTable?_mem hp))]
    by_cases hpt : p = t <;> simp [dependentsOf, hp, hpt]
  case h_2 hp =>
    cases h
    exact ⟨rfl, fun t => by simp [dependentsOf, hp]⟩

theorem table_resolveReferences {references : List Reference}
    (bounded : ∀ t ∈ tables, t.place < c.tables.length)
    (h : (c.resolveReferences m tables references).value = .ok c') :
    c'.tables.length = c.tables.length ∧ ∀ t, c'.table t =
      { c.table t with
        dependents := (c.table t).dependents ++ c.dependentsOf m tables references t } := by
  induction references generalizing c with
  | nil =>
    cases h
    exact ⟨rfl, fun t => by simp [dependentsOf]⟩
  | cons r rest ih =>
    rw [resolveReferences, List.foldlM_cons] at h
    obtain ⟨d, hd, h⟩ := Logged.bind_eq_ok.mp h
    obtain ⟨hl, ht⟩ := table_resolveReference bounded hd
    obtain ⟨hl', ht'⟩ := ih (hl ▸ bounded) h
    refine ⟨hl'.trans hl, fun t => ?_⟩
    have hp : d.principalTable? m tables = c.principalTable? m tables :=
      principalTable?_congr fun t => by rw [ht t]
    have happ : c.dependentsOf m tables (r :: rest) t =
        c.dependentsOf m tables [r] t ++ d.dependentsOf m tables rest t := by
      simp only [dependentsOf, hp]
      rw [← List.map_append, ← List.filter_append]
      rfl
    rw [ht' t, ht t, happ, List.append_assoc]

def added (c : Catalog) (count : Nat) : List TableRef :=
  (List.range count).map fun i => ⟨c.tables.length + i⟩

theorem nodup_added (c : Catalog) (count : Nat) : (c.added count).Nodup := by
  refine List.Nodup.map_on ?_ List.nodup_range
  intro i _ j _ h
  have := TableRef.mk.inj h
  omega

variable {definitions : List TableDefinition}

def definitionAt (c : Catalog) (definitions : List TableDefinition) (t : TableRef) :
    TableDefinition :=
  definitions.getD (t.place - c.tables.length) { table := {} }

theorem mem_added {count : Nat} :
    t ∈ c.added count ↔ c.tables.length ≤ t.place ∧ t.place < c.tables.length + count := by
  obtain ⟨place⟩ := t
  simp only [added, List.mem_map, List.mem_range, TableRef.mk.injEq]
  constructor
  · rintro ⟨i, hi, rfl⟩
    omega
  · rintro ⟨h, h'⟩
    exact ⟨place - c.tables.length, by omega, by omega⟩

theorem definitionAt_mem (h : t ∈ c.added definitions.length) :
    definitions[t.place - c.tables.length]? = some (c.definitionAt definitions t) := by
  have := mem_added.mp h
  rw [definitionAt, List.getD_eq_getElem?_getD, List.getElem?_eq_getElem (by omega),
    Option.getD_some]

theorem zip_added (c : Catalog) (definitions : List TableDefinition) :
    (c.added definitions.length).zip definitions =
      (c.added definitions.length).map fun t => (t, c.definitionAt definitions t) := by
  refine List.ext_getElem (by simp [added]) fun i hi _ => ?_
  have hd : i < definitions.length := by
    rw [List.length_zip] at hi
    omega
  simp [added, definitionAt, hd]

def addedReferences (c : Catalog) (definitions : List TableDefinition) : List Reference :=
  (c.added definitions.length).flatMap fun t =>
    (c.definitionAt definitions t).references.map fun (position, principal) =>
      ⟨⟨t, position⟩, principal⟩

def extended (c : Catalog) (definitions : List TableDefinition) : Catalog :=
  { tables := c.tables ++ definitions.map (·.table) }

theorem addDefinitions_eq (c : Catalog) (definitions : List TableDefinition) :
    c.addDefinitions definitions = (c.added definitions.length, c.addedReferences definitions,
      c.extended definitions) := by
  have hr : ((c.added definitions.length).zip definitions).flatMap (fun d =>
      d.2.references.map fun r => Reference.mk ⟨d.1, r.1⟩ r.2) = c.addedReferences definitions := by
    rw [zip_added, List.flatMap_map]
    rfl
  rw [← hr]
  rfl

theorem mem_addedReferences {r : Reference} : r ∈ c.addedReferences definitions ↔
    r.column.table ∈ c.added definitions.length ∧
      (r.column.position, r.principal) ∈
        (c.definitionAt definitions r.column.table).references := by
  obtain ⟨⟨table, position⟩, principal⟩ := r
  simp only [addedReferences, List.mem_flatMap, List.mem_map, Prod.exists, Reference.mk.injEq,
    ColumnRef.mk.injEq]
  constructor
  · rintro ⟨t, ht, _, _, hr, ⟨rfl, rfl⟩, rfl⟩
    exact ⟨ht, hr⟩
  · rintro ⟨ht, hr⟩
    exact ⟨table, ht, position, principal, hr, ⟨rfl, rfl⟩, rfl⟩

theorem nodup_addedReferences
    (h : ∀ t ∈ c.added definitions.length,
      ((c.definitionAt definitions t).references.map Prod.fst).Nodup) :
    ((c.addedReferences definitions).map (·.column)).Nodup := by
  rw [addedReferences, List.map_flatMap, List.nodup_flatMap]
  constructor
  · intro t ht
    have hd := h t ht
    rw [List.Nodup, List.pairwise_map] at hd
    rw [List.map_map, List.Nodup, List.pairwise_map]
    exact hd.imp fun hne e => hne (ColumnRef.mk.inj e).2
  · refine (nodup_added c _).imp fun hne => ?_
    simp only [Function.onFun, List.Disjoint, List.mem_map]
    rintro _ ⟨_, ⟨_, _, rfl⟩, rfl⟩ ⟨_, ⟨_, _, rfl⟩, e⟩
    exact hne (ColumnRef.mk.inj e).1.symm

theorem table_added (h : t ∈ c.added definitions.length) :
    (c.extended definitions).table t =
      (c.definitionAt definitions t).table := by
  have := mem_added.mp h
  rw [table, extended, List.getD_eq_getElem?_getD, List.getElem?_append_right this.1,
    List.getElem?_map, definitionAt_mem h]
  rfl

/-- Where identifiers tell the tables apart, the table of a principal is the one with its
identifier. -/
theorem principalTable?_eq_some {principal : ClassifierRef}
    (distinct : ∀ t ∈ tables, ∀ u ∈ tables, ∀ s s', (c.table t).source = some s →
      (c.table u).source = some s' → (m.classifier s).id = (m.classifier s').id → t = u) :
    c.principalTable? m tables principal = some t ↔ t ∈ tables ∧
      ∃ s, (c.table t).source = some s ∧ (m.classifier s).id = (m.classifier principal).id := by
  have hfind : c.principalTable? m tables principal = tables.find? fun u =>
      (c.table u).source.any fun s => (m.classifier s).id == (m.classifier principal).id := by
    rw [principalTable?]
    congr 1
    funext u
    cases (c.table u).source <;> rfl
  have hsource :
      ∀ u, ((c.table u).source.any fun s => (m.classifier s).id == (m.classifier principal).id) =
      true ↔ ∃ s, (c.table u).source = some s ∧
        (m.classifier s).id = (m.classifier principal).id := by
    intro u
    simp only [Option.any_eq_true, beq_iff_eq]
  rw [hfind]
  constructor
  · intro h
    have hs := List.find?_some h
    exact ⟨List.mem_of_find?_eq_some h, (hsource t).mp hs⟩
  · rintro ⟨ht, s, hs, hid⟩
    cases hf : List.find? _ tables with
    | none => exact absurd ((hsource t).mpr ⟨s, hs, hid⟩) (List.find?_eq_none.mp hf t ht)
    | some u =>
      have hu := List.find?_some hf
      obtain ⟨s', hs', hid'⟩ := (hsource u).mp hu
      rw [distinct t ht u (List.mem_of_find?_eq_some hf) s s' hs hs' (hid.trans hid'.symm)]

end Catalog

namespace Options

variable {o : Options} {m : Model} {map : RelationshipMap} {c c' : Catalog} {tables : List TableRef}

/-- What the tables of a model are, apart from their keys. -/
structure Derived (o : Options) (m : Model) (map : RelationshipMap) (tables : List TableRef)
    (c : Catalog) (definition : TableRef → TableDefinition) : Prop where
  distinct : tables.Nodup
  bounded : ∀ t ∈ tables, t.place < c.tables.length
  defined : ∀ t ∈ tables, ∃ s ∈ m.packagedClassifiers,
    (definition t).table.source = some s ∧
      (o.packagedTable? m map s).value = .ok (some (definition t))
  /-- A classifier has one table at most. -/
  injective : ∀ t ∈ tables, ∀ u ∈ tables,
    (definition t).table.source = (definition u).table.source → t = u
  table : ∀ t ∈ tables, ∃ dependents keys,
    c.table t = { (definition t).table with dependents, keys }
  nodup_dependents : ∀ t ∈ tables, (c.table t).dependents.Nodup
  mem_dependents : ∀ t ∈ tables, ∀ column, column ∈ (c.table t).dependents ↔ column.table ∈ tables ∧
    ∃ principal, (column.position, principal) ∈ (definition column.table).references ∧
      ∃ s, (definition t).table.source = some s ∧
        (m.classifier s).id = (m.classifier principal).id
  behind : ∀ t p, c.References tables t p → tables.idxOf p < tables.idxOf t

theorem table_of_packagedTable? {s : ClassifierRef} {definition : TableDefinition}
    (h : (o.packagedTable? m map s).value = .ok (some definition)) :
    definition.table.source = some s ∧ definition.table.dependents = [] ∧
      (definition.references.map Prod.fst).Nodup := by
  obtain ⟨_, _, _, h⟩ := packagedTable?_eq_ok h
  obtain ⟨own, further, h⟩ := tableDefinition?_eq_ok h
  rw [h.table, h.references]
  exact ⟨rfl, rfl, nodup_referencesOf _⟩

variable {definitions : List TableDefinition}

theorem source_added (h : (o.tableDefinitions m map).value = .ok definitions) :
    ∃ cs : List ClassifierRef, cs.Sublist m.packagedClassifiers ∧ ∀ t ∈ c.added definitions.length,
      ∃ s, cs[t.place - c.tables.length]? = some s ∧
        (c.definitionAt definitions t).table.source = some s ∧
        (o.packagedTable? m map s).value = .ok (some (c.definitionAt definitions t)) := by
  obtain ⟨cs, hcs, hf⟩ := tableDefinitions_eq_ok h
  refine ⟨cs, hcs, fun t ht => ?_⟩
  obtain ⟨s, hs, hst⟩ := exists_getElem?_of_forall₂ hf (Catalog.definitionAt_mem ht)
  exact ⟨s, hs, (table_of_packagedTable? hst).1, hst⟩

theorem defined_added (h : (o.tableDefinitions m map).value = .ok definitions) {t : TableRef}
    (ht : t ∈ c.added definitions.length) : ∃ s ∈ m.packagedClassifiers,
      (c.definitionAt definitions t).table.source = some s ∧
        (o.packagedTable? m map s).value = .ok (some (c.definitionAt definitions t)) := by
  obtain ⟨cs, hcs, hsource⟩ := source_added (c := c) h
  obtain ⟨s, hs, hst⟩ := hsource t ht
  exact ⟨s, hcs.subset (List.mem_of_getElem? hs), hst⟩

/-- The tables that are added come from different classifiers. -/
theorem injective_added (distinct : m.packagedClassifiers.Nodup)
    (h : (o.tableDefinitions m map).value = .ok definitions) :
    ∀ t ∈ c.added definitions.length, ∀ u ∈ c.added definitions.length,
      (c.definitionAt definitions t).table.source = (c.definitionAt definitions u).table.source →
        t = u := by
  obtain ⟨cs, hcs, hsource⟩ := source_added (c := c) h
  intro t ht u hu e
  obtain ⟨s, hs, hst, _⟩ := hsource t ht
  obtain ⟨s', hs', hsu, _⟩ := hsource u hu
  rw [hst, hsu, Option.some.injEq] at e
  have hplace := (List.getElem?_inj (List.getElem?_eq_some_iff.mp hs).1 (distinct.sublist hcs)).mp
    (hs.trans (e ▸ hs'.symm))
  have := Catalog.mem_added.mp ht
  have := Catalog.mem_added.mp hu
  obtain ⟨t⟩ := t
  obtain ⟨u⟩ := u
  simp only [TableRef.mk.injEq] at *
  omega

theorem eq_of_id_added (distinct : (m.packagedClassifiers.map fun s => (m.classifier s).id).Nodup)
    (h : (o.tableDefinitions m map).value = .ok definitions) :
    ∀ t ∈ c.added definitions.length, ∀ u ∈ c.added definitions.length, ∀ s s',
      ((c.extended definitions).table t).source = some s →
      ((c.extended definitions).table u).source = some s' →
        (m.classifier s).id = (m.classifier s').id → t = u := by
  intro t ht u hu s s' hs hs' hid
  have injective := injective_added (c := c) (List.Nodup.of_map _ distinct) h
  rw [Catalog.table_added ht] at hs
  rw [Catalog.table_added hu] at hs'
  obtain ⟨r, hr, hrs, _⟩ := defined_added h ht
  obtain ⟨r', hr', hrs', _⟩ := defined_added h hu
  obtain rfl := Option.some.inj (hs.symm.trans hrs)
  obtain rfl := Option.some.inj (hs'.symm.trans hrs')
  have e : s = s' := List.inj_on_of_nodup_map distinct hr hr' hid
  exact injective t ht u hu (by rw [hs, hs', e])

theorem nodup_dependentsOf_added (h : (o.tableDefinitions m map).value = .ok definitions)
    (t : TableRef) :
    ((c.extended definitions).dependentsOf m (c.added definitions.length)
      (c.addedReferences definitions) t).Nodup := by
  have hn : ∀ t ∈ c.added definitions.length,
      ((c.definitionAt definitions t).references.map Prod.fst).Nodup := by
    intro t ht
    obtain ⟨s, _, _, hst⟩ := defined_added h ht
    exact (table_of_packagedTable? hst).2.2
  exact (Catalog.nodup_addedReferences hn).sublist (List.filter_sublist.map _)

/-- The columns that are listed with a table that is added are those that refer to its
classifier. -/
theorem mem_dependentsOf_added
    (distinct : (m.packagedClassifiers.map fun s => (m.classifier s).id).Nodup)
    (h : (o.tableDefinitions m map).value = .ok definitions) {t : TableRef}
    (ht : t ∈ c.added definitions.length) (column : ColumnRef) :
    column ∈ (c.extended definitions).dependentsOf m (c.added definitions.length)
        (c.addedReferences definitions) t ↔
      column.table ∈ c.added definitions.length ∧ ∃ principal,
        (column.position, principal) ∈ (c.definitionAt definitions column.table).references ∧
        ∃ s, (c.definitionAt definitions t).table.source = some s ∧
          (m.classifier s).id = (m.classifier principal).id := by
  simp only [Catalog.dependentsOf, List.mem_map, List.mem_filter, beq_iff_eq,
    Catalog.principalTable?_eq_some (eq_of_id_added distinct h), Catalog.mem_addedReferences,
    Catalog.table_added ht]
  constructor
  · rintro ⟨r, ⟨⟨hr, hmem⟩, _, s, hs, hid⟩, rfl⟩
    exact ⟨hr, r.principal, hmem, s, hs, hid⟩
  · rintro ⟨hr, principal, hmem, s, hs, hid⟩
    exact ⟨⟨column, principal⟩, ⟨⟨hr, hmem⟩, ht, s, hs, hid⟩, rfl⟩

/-- The tables are those that were added, in an order in which each follows those that it refers
to. -/
theorem deriveTables_cases (h : (o.deriveTables m map c).value = .ok (tables, c')) :
    ∃ definitions, (o.tableDefinitions m map).value = .ok definitions ∧
      tables.Perm (c.added definitions.length) ∧
      (∀ t p, c'.References (c.added definitions.length) t p → tables.idxOf p < tables.idxOf t) ∧
      ∀ t ∈ c.added definitions.length, t.place < c'.tables.length ∧ c'.table t =
        { (c.definitionAt definitions t).table with
          dependents := (c.extended definitions).dependentsOf m
            (c.added definitions.length) (c.addedReferences definitions) t } := by
  obtain ⟨definitions, hd, h⟩ := Logged.bind_eq_ok.mp h
  simp only [Catalog.addDefinitions_eq] at h
  obtain ⟨linked, hl, h⟩ := Logged.bind_eq_ok.mp h
  obtain ⟨sorted, hs, h⟩ := Logged.bind_eq_ok.mp h
  cases h
  obtain ⟨_, perm, behind⟩ := Catalog.sortTables_of_ok (c.nodup_added definitions.length)
    (Logged.lift_eq_ok.mp hs)
  have bounded : ∀ t ∈ c.added definitions.length,
      t.place < (c.extended definitions).tables.length := by
    intro t ht
    simpa [Catalog.extended] using (Catalog.mem_added.mp ht).2
  obtain ⟨size, table⟩ := Catalog.table_resolveReferences bounded hl
  refine ⟨definitions, hd, perm, behind, fun t ht => ⟨size ▸ bounded t ht, ?_⟩⟩
  obtain ⟨s, _, _, hst⟩ := defined_added hd ht
  rw [table t, Catalog.table_added ht, (table_of_packagedTable? hst).2.1, List.nil_append]

theorem deriveTables_eq_ok
    (distinct : (m.packagedClassifiers.map fun s => (m.classifier s).id).Nodup)
    (h : (o.deriveTables m map c).value = .ok (tables, c')) :
    ∃ definition, o.Derived m map tables c' definition := by
  obtain ⟨definitions, hd, perm, behind, hdependents⟩ := deriveTables_cases h
  have injective := injective_added (c := c) (List.Nodup.of_map _ distinct) hd
  -- Everything was shown of the tables in the order of their definitions; sorting only permutes
  -- them.
  refine ⟨c.definitionAt definitions, perm.nodup_iff.mpr (c.nodup_added _), ?_, ?_, ?_,
    ?_, ?_, ?_, ?_⟩
  · exact fun t ht => (hdependents t (perm.mem_iff.mp ht)).1
  · exact fun t ht => defined_added hd (perm.mem_iff.mp ht)
  · exact fun t ht u hu => injective t (perm.mem_iff.mp ht) u (perm.mem_iff.mp hu)
  · exact fun t ht => ⟨_, _, (hdependents t (perm.mem_iff.mp ht)).2⟩
  · intro t ht
    rw [(hdependents t (perm.mem_iff.mp ht)).2]
    exact nodup_dependentsOf_added hd t
  · intro t ht column
    rw [(hdependents t (perm.mem_iff.mp ht)).2, perm.mem_iff]
    exact mem_dependentsOf_added distinct hd (perm.mem_iff.mp ht) column
  · rintro t p ⟨ht, hp, hne, hc⟩
    exact behind t p ⟨perm.mem_iff.mp ht, perm.mem_iff.mp hp, hne, hc⟩

structure Made (o : Options) (m : Model) (map : RelationshipMap) (definition : TableDefinition)
    (table : Table) (s : ClassifierRef) (own further : List DerivedColumn) : Prop where
  packaged : s ∈ m.packagedClassifiers
  membered : (m.classifier s).kind.isMembered = true
  defines : o.Defines m map s definition own further
  source : table.source = some s
  name : table.name = o.naming.tableName (m.classifier s)
  columns : table.columns = (own ++ further).map (·.column)

/-- What a packaged classifier defines is kept by a table with other dependents and keys. -/
theorem made_of_packagedTable? {s : ClassifierRef} {definition : TableDefinition} {table : Table}
    (packaged : s ∈ m.packagedClassifiers)
    (hd : (o.packagedTable? m map s).value = .ok (some definition))
    (ht : ∃ dependents keys, table = { definition.table with dependents, keys }) :
    ∃ own further, o.Made m map definition table s own further := by
  obtain ⟨membered, _, _, hd⟩ := packagedTable?_eq_ok hd
  obtain ⟨own, further, hd⟩ := tableDefinition?_eq_ok hd
  obtain ⟨dependents, keys, rfl⟩ := ht
  exact ⟨own, further, packaged, membered, hd, by rw [hd.table], by rw [hd.table], by rw [hd.table]⟩

theorem Derived.made {definition : TableRef → TableDefinition} {t : TableRef}
    (h : o.Derived m map tables c definition) (ht : t ∈ tables) :
    ∃ s own further, o.Made m map (definition t) (c.table t) s own further := by
  obtain ⟨s, hs, _, hd⟩ := h.defined t ht
  exact ⟨s, made_of_packagedTable? hs hd (h.table t ht)⟩

/-- Whatever the model is, its tables are made from packaged classifiers. -/
theorem deriveTables_made (h : (o.deriveTables m map c).value = .ok (tables, c')) :
    tables.Nodup ∧ (∀ t ∈ tables, t.place < c'.tables.length) ∧
    ∃ definition : TableRef → TableDefinition,
      ∀ t ∈ tables, ∃ s own further, o.Made m map (definition t) (c'.table t) s own further := by
  obtain ⟨definitions, hd, perm, _, hdependents⟩ := deriveTables_cases h
  refine ⟨perm.nodup_iff.mpr (c.nodup_added _), fun t ht => (hdependents t (perm.mem_iff.mp ht)).1,
    c.definitionAt definitions, fun t ht => ?_⟩
  obtain ⟨s, hs, _, hst⟩ := defined_added hd (perm.mem_iff.mp ht)
  exact ⟨s, made_of_packagedTable? hs hst ⟨_, _, (hdependents t (perm.mem_iff.mp ht)).2⟩⟩

theorem Made.with_keys {definition : TableDefinition} {table : Table} {s : ClassifierRef}
    {own further : List DerivedColumn} (h : o.Made m map definition table s own further)
    (keys : List Key) : o.Made m map definition { table with keys } s own further :=
  ⟨h.packaged, h.membered, h.defines, h.source, h.name, h.columns⟩

theorem Made.column {definition : TableDefinition} {table : Table} {s : ClassifierRef}
    {own further : List DerivedColumn} (h : o.Made m map definition table s own further)
    {position : Nat} {column : Column} (hc : table.columns[position]? = some column) :
    ∃ d, (own ++ further)[position]? = some d ∧ d.column = column := by
  rw [h.columns, List.getElem?_map] at hc
  exact Option.map_eq_some_iff.mp hc

end Options

end Schemata
