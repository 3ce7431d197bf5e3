import Schemata.Proofs.Document.Written
import Schemata.Proofs.Relationship.Convention
import Schemata.Proofs.Schema.Derivable

/-!
# Models in another order

The order of packaged elements decides in which order relationships are found, tables are defined
and references are resolved, but not what comes of them: the same classifiers have tables, with the
same columns and the same dependents, and only the columns of relationships and the dependents stand
in another order.
-/
namespace Schemata

def Model.rearranged (m : Model) (elements : List Element) : Model := { m with elements }

/-- The tables are the same, but for the order of the columns that realize one-to-many relationships
and the order of dependents. -/
structure Catalog.SameTable (c c' : Catalog) (t t' : TableRef) : Prop where
  rest : c'.table t' =
    { c.table t with columns := (c'.table t').columns, dependents := (c'.table t').dependents }
  attributes : ((c'.table t').columns.filter fun column => !column.isMany) =
    (c.table t).columns.filter fun column => !column.isMany
  synthesized :
      ((c'.table t').columns.filter (·.isMany)).Perm ((c.table t).columns.filter (·.isMany))
  dependents : ((c'.table t').dependents.map c'.ownedColumn).Perm
    ((c.table t).dependents.map c.ownedColumn)

/-- The same classifiers have tables, and each of them the same. -/
structure SameTables (tables tables' : List TableRef) (c c' : Catalog) : Prop where
  distinct : (tables.map fun t => (c.table t).source).Nodup
  sources :
      (tables'.map fun t' => (c'.table t').source).Perm (tables.map fun t => (c.table t).source)
  table : ∀ t ∈ tables, ∀ t' ∈ tables', (c'.table t').source = (c.table t).source →
    c.SameTable c' t t'
  owners : ∀ t ∈ tables, ∀ column ∈ (c.table t).dependents, column.table ∈ tables
  owners' : ∀ t' ∈ tables', ∀ column ∈ (c'.table t').dependents, column.table ∈ tables'

namespace Model

variable {m : Model} {elements : List Element} {convention : EndConvention}

theorem packagedClassifiers_rearranged (perm : elements.Perm m.elements) :
    (m.rearranged elements).packagedClassifiers.Perm m.packagedClassifiers :=
  perm.filterMap _

theorem found_rearranged (perm : elements.Perm m.elements) :
    ((m.rearranged elements).found convention).Perm (m.found convention) := by
  have associations : (m.rearranged elements).packagedAssociations.Perm m.packagedAssociations :=
    perm.filterMap _
  have members :=
    (packagedClassifiers_rearranged perm).filter fun c => (m.classifier c).kind.isMembered
  exact (associations.flatMap_right _).append (members.flatMap_right _)

theorem get_rearranged (perm : elements.Perm m.elements) {map map' : RelationshipMap}
    (h : (m.relationshipMap convention).value = .ok map)
    (h' : ((m.rearranged elements).relationshipMap convention).value = .ok map') (id : String) :
    (map'.get id).Perm (map.get id) := by
  rw [get_of_relationshipMap h, get_of_relationshipMap h']
  exact (found_rearranged perm).filter _

end Model

def Options.definitionWith (o : Options) (m : Model) (s : ClassifierRef)
    (columns : List DerivedColumn) :
    TableDefinition :=
  { table :=
      { dialect := o.factory.table
        name := o.naming.tableName (m.classifier s)
        source := some s
        columns := columns.map (·.column) }
    references := Options.referencesOf columns }

theorem Options.referring_definitionWith (o : Options) (m : Model) (s p : ClassifierRef)
    (columns : List DerivedColumn) : (o.definitionWith m s columns).referring m p =
      columns.filterMap fun d => (d.principal.filter fun principal =>
        (m.classifier principal).id == (m.classifier p).id).map fun _ => d.column := by
  have hzip : columns = columns.zipIdx.map Prod.fst := by rw [List.zipIdx_map_fst]
  rw [TableDefinition.referring, TableDefinition.positionsOf, definitionWith, Options.referencesOf]
  conv_rhs => rw [hzip, List.filterMap_map]
  rw [List.filter_filterMap, List.map_map, List.map_filterMap]
  refine List.filterMap_congr ?_
  rintro ⟨d, i⟩ hd
  have hi : columns[i]? = some d := List.mem_zipIdx_iff_getElem?.mp hd
  cases hp : d.principal with
  | none => simp [hp]
  | some principal =>
    cases hid : (m.classifier principal).id == (m.classifier p).id <;>
      simp [hp, hid, hi, Option.filter_some]

/-- The definitions of one classifier's table that differ in the order of its relationships. -/
inductive Options.Reordered (o : Options) (m : Model) (s : ClassifierRef) :
    TableDefinition → TableDefinition → Prop
  | intro {own further further' : List DerivedColumn} (perm : further'.Perm further)
    (isMany_own : ∀ d ∈ own, d.column.isMany = false)
    (isMany_further : ∀ d ∈ further, d.column.isMany = true) :
    Reordered o m s (o.definitionWith m s (own ++ further)) (o.definitionWith m s (own ++ further'))

namespace Options
open Relation

variable {o : Options} {m : Model} {elements : List Element} {map map' : RelationshipMap}
  {s s' p : ClassifierRef} {d d' : TableDefinition}

theorem Reordered.referring (h : o.Reordered m s d d') (p : ClassifierRef) :
    (d'.referring m p).Perm (d.referring m p) := by
  obtain ⟨perm, _, _⟩ := h
  rw [referring_definitionWith, referring_definitionWith]
  exact (perm.append_left _).filterMap _

theorem Reordered.positionsOf_ne_nil (h : o.Reordered m s d d') (refers : d.positionsOf m p ≠ []) :
    d'.positionsOf m p ≠ [] := by
  intro hnil
  have perm := h.referring p
  rw [TableDefinition.referring, hnil, List.map_nil, List.nil_perm, TableDefinition.referring,
    List.map_eq_nil_iff] at perm
  exact refers perm

theorem Reordered.columns (h : o.Reordered m s d d') :
    (d'.table.columns.filter fun column => !column.isMany) =
      (d.table.columns.filter fun column => !column.isMany) ∧
    (d'.table.columns.filter (·.isMany)).Perm (d.table.columns.filter (·.isMany)) := by
  obtain @⟨own, further, further', perm, isMany_own, isMany_further⟩ := h
  have hcolumns : ∀ l : List DerivedColumn, (∀ d ∈ l, d.column.isMany = true) →
      ((l.map (·.column)).filter fun column => !column.isMany) = [] ∧
        (l.map (·.column)).filter (·.isMany) = l.map (·.column) := by
    intro l hl
    simpa [List.filter_eq_nil_iff, List.filter_eq_self] using hl
  have hown : (own.map (·.column)).filter (·.isMany) = [] := by
    simpa [List.filter_eq_nil_iff] using isMany_own
  have hfurther' := hcolumns further' fun d hd => isMany_further d (perm.mem_iff.mp hd)
  have hfurther := hcolumns further isMany_further
  simp only [definitionWith, List.map_append, List.filter_append, hfurther, hfurther', hown]
  exact ⟨trivial, perm.map _⟩

/-- Whatever the order of relationships is, a classifier has its table or needs none. -/
theorem exists_tableDefinition? (groups : ∀ id, (map'.get id).Perm (map.get id))
    {d? : Option TableDefinition} (h : (o.tableDefinition? m map s).value = .ok d?) :
    ∃ d?', (o.tableDefinition? m map' s).value = .ok d?' ∧ Option.Rel (o.Reordered m s) d? d?' := by
  rw [tableDefinition?] at h
  rw [tableDefinition?]
  by_cases hn : (m.classifier s).name = ""
  · simp only [if_pos hn] at h ⊢
    cases h
    exact ⟨none, rfl, .none⟩
  simp only [if_neg hn] at h ⊢
  obtain ⟨own, ho, h⟩ := Logged.bind_eq_ok.mp h
  obtain ⟨further, hf, h⟩ := Logged.bind_eq_ok.mp h
  cases h
  have hf := Logged.mapM_eq_ok.mp hf
  have defines : o.Defines m map s (o.definitionWith m s (own ++ further)) own further :=
    ⟨hn, attributeColumns_eq_ok ho, hf, rfl, rfl⟩
  obtain ⟨further', hf', perm⟩ := List.perm_comp_forall₂ ((groups _).filter needsColumn) hf
  refine ⟨some (o.definitionWith m s (own ++ further')), ?_, .some (.intro perm
    (fun _ => defines.isMany_own) fun _ => defines.isMany_further)⟩
  exact Logged.bind_eq_ok.mpr ⟨own, ho,
    Logged.bind_eq_ok.mpr ⟨further', Logged.mapM_eq_ok.mpr hf', rfl⟩⟩

theorem exists_packagedTable? (groups : ∀ id, (map'.get id).Perm (map.get id))
    {d? : Option TableDefinition} (h : (o.packagedTable? m map s).value = .ok d?) :
    ∃ d?', (o.packagedTable? m map' s).value = .ok d?' ∧ Option.Rel (o.Reordered m s) d? d?' := by
  rw [packagedTable?] at h
  rw [packagedTable?]
  by_cases hk : (!(m.classifier s).kind.isMembered) = true ∨ (m.classifier s).kind.isValue = true
  · simp only [if_pos hk] at h ⊢
    cases h
    exact ⟨none, rfl, .none⟩
  simp only [if_neg hk] at h ⊢
  by_cases hb : (!o.becomesTable m s) = true
  · simp only [if_pos hb] at h ⊢
    cases h
    exact ⟨none, rfl, .none⟩
  simp only [if_neg hb] at h ⊢
  obtain ⟨found, hd, h⟩ := Logged.bind_eq_ok.mp h
  obtain ⟨found', hd', rel⟩ := exists_tableDefinition? groups hd
  cases rel with
  | none =>
    cases h
    exact ⟨none, Logged.bind_eq_ok.mpr ⟨none, hd', rfl⟩, .none⟩
  | some reordered =>
    cases h
    exact ⟨_, Logged.bind_eq_ok.mpr ⟨_, hd', rfl⟩, .some reordered⟩

end Options

/-- An order of the packaged elements that filters do not see, and the relationships found in either
order. -/
structure Rearrangement (o : Options) (m : Model) (elements : List Element)
    (map map' : RelationshipMap) :
    Prop where
  perm : elements.Perm m.elements
  filters : ∀ s, o.becomesTable (m.rearranged elements) s = o.becomesTable m s
  groups : ∀ id, (map'.get id).Perm (map.get id)

namespace Rearrangement
open Relation Options

variable {o : Options} {m : Model} {elements : List Element} {map map' : RelationshipMap}
  (h : Rearrangement o m elements map map') {s s' : ClassifierRef} {d d' : TableDefinition}
include h

theorem symm : Rearrangement o (m.rearranged elements) m.elements map' map :=
  ⟨h.perm.symm, fun s => (h.filters s).symm, fun id => (h.groups id).symm⟩

theorem exists_packagedTable? {d? : Option TableDefinition}
    (hd : (o.packagedTable? m map s).value = .ok d?) :
    ∃ d?', (o.packagedTable? (m.rearranged elements) map' s).value = .ok d?' ∧
      Option.Rel (o.Reordered m s) d? d?' := by
  have alike : m.SameMembers (m.rearranged elements) :=
    ⟨rfl, fun p => ⟨_, rfl⟩, fun _ _ _ => .inl rfl⟩
  rw [alike.packagedTable?_value o h.filters]
  exact Options.exists_packagedTable? h.groups hd

theorem definable (hd : o.Definable m map) : o.Definable (m.rearranged elements) map' := by
  intro s hs
  obtain ⟨_, hs⟩ := hd s ((Model.packagedClassifiers_rearranged h.perm).mem_iff.mp hs)
  obtain ⟨d?, hd, _⟩ := h.exists_packagedTable? hs
  exact ⟨d?, hd⟩

theorem exists_definitionOf? (hd : o.definitionOf? m map s = some d) :
    ∃ d', o.definitionOf? (m.rearranged elements) map' s = some d' ∧ o.Reordered m s d d' := by
  obtain ⟨_, hd', rel⟩ := h.exists_packagedTable? (definitionOf?_eq_some.mp hd)
  cases rel with
  | some reordered => exact ⟨_, definitionOf?_of_ok hd', reordered⟩

theorem refersTo (hr : o.RefersTo m map s s') : o.RefersTo (m.rearranged elements) map' s s' := by
  have packaged := Model.packagedClassifiers_rearranged h.perm
  obtain ⟨d, hd, refers⟩ := hr.refers
  obtain ⟨d', hd', reordered⟩ := h.exists_definitionOf? hd
  obtain ⟨p, hp⟩ := Option.isSome_iff_exists.mp hr.tabled
  obtain ⟨p', hp', _⟩ := h.exists_definitionOf? hp
  exact ⟨packaged.mem_iff.mpr hr.packaged, packaged.mem_iff.mpr hr.principal, hr.distinct,
    ⟨d', hd', reordered.positionsOf_ne_nil refers⟩, Option.isSome_of_eq_some hp'⟩

theorem exists_deriveTables
    (distinct : (m.packagedClassifiers.map fun s => (m.classifier s).id).Nodup) {c : Catalog}
    (hd : ∃ derived, (o.deriveTables m map c).value = .ok derived) :
    ∃ derived, (o.deriveTables (m.rearranged elements) map' c).value = .ok derived := by
  have distinct' := (((Model.packagedClassifiers_rearranged h.perm).map
    fun s => (m.classifier s).id).nodup_iff).mpr distinct
  rw [exists_deriveTables_iff distinct] at hd
  rw [exists_deriveTables_iff distinct']
  exact ⟨h.definable hd.1, fun ⟨s, path⟩ =>
    hd.2 ⟨s, TransGen.mono (fun _ _ => h.symm.refersTo) s s path⟩⟩

theorem isSome_definitionOf? (s : ClassifierRef) :
    (o.definitionOf? (m.rearranged elements) map' s).isSome = (o.definitionOf? m map s).isSome := by
  rw [Bool.eq_iff_iff, Option.isSome_iff_exists, Option.isSome_iff_exists]
  constructor
  · rintro ⟨d', hd'⟩
    obtain ⟨d, hd, _⟩ := h.symm.exists_definitionOf? hd'
    exact ⟨d, hd⟩
  · rintro ⟨d, hd⟩
    obtain ⟨d', hd', _⟩ := h.exists_definitionOf? hd
    exact ⟨d', hd'⟩

theorem perm_referring (p : ClassifierRef) :
    (((m.rearranged elements).packagedClassifiers.filterMap
        (o.definitionOf? (m.rearranged elements) map')).flatMap fun d =>
          (d.referring (m.rearranged elements) p).map fun column => (d.table.source, column)).Perm
      ((m.packagedClassifiers.filterMap (o.definitionOf? m map)).flatMap fun d =>
        (d.referring m p).map fun column => (d.table.source, column)) := by
  have packaged := Model.packagedClassifiers_rearranged h.perm
  refine ((packaged.filterMap _).flatMap_right _).trans ?_
  rw [flatMap_filterMap, flatMap_filterMap]
  refine List.Perm.flatMap_left _ fun s _ => ?_
  cases hd : o.definitionOf? m map s with
  | none =>
    have hnone := h.isSome_definitionOf? s
    rw [hd, Option.isSome_none, Option.isSome_eq_false_iff, Option.isNone_iff_eq_none] at hnone
    rw [hnone]
    exact .nil
  | some d =>
    obtain ⟨d', hd', reordered⟩ := h.exists_definitionOf? hd
    have referring := reordered.referring p
    have hsource : d'.table.source = d.table.source := by
      cases reordered
      rfl
    rw [hd', Option.elim_some, Option.elim_some, hsource]
    exact referring.map _

theorem sameTables (distinct : m.packagedClassifiers.Nodup) {tables tables' : List TableRef}
    {c c' : Catalog} (outcome : o.Outcome m map tables c)
    (outcome' : o.Outcome (m.rearranged elements) map' tables' c') :
    SameTables tables tables' c c' := by
  refine ⟨?_, ?_, ?_, outcome.owners, outcome'.owners⟩
  · rw [outcome.sources.nodup_iff]
    exact (distinct.filter _).map fun _ _ => Option.some.inj
  · refine outcome'.sources.trans (.trans (.map _ ?_) outcome.sources.symm)
    simp only [h.isSome_definitionOf?]
    exact (Model.packagedClassifiers_rearranged h.perm).filter _
  · intro t ht t' ht' e
    obtain ⟨s, _, d, hs, hd, htable, _⟩ := outcome.table t ht
    obtain ⟨s', _, _, hs', hd', htable', _⟩ := outcome'.table t' ht'
    obtain rfl := Option.some.inj (hs'.symm.trans (e.trans hs))
    obtain ⟨d', hd'', reordered⟩ := h.exists_definitionOf? hd
    obtain rfl := Option.some.inj (hd''.symm.trans hd')
    obtain ⟨attributes, synthesized⟩ := reordered.columns
    have hrest : d'.table = { d.table with columns := d'.table.columns } := by
      cases reordered
      rfl
    refine ⟨?_, ?_, ?_, ?_⟩
    · rw [htable, htable', hrest]
    · rw [htable, htable']
      exact attributes
    · rw [htable, htable']
      exact synthesized
    · rw [outcome.columns t ht s' hs, outcome'.columns t' ht' s' hs']
      exact h.perm_referring s'

end Rearrangement

namespace Options

variable {o : Options} {m : Model} {elements : List Element}

theorem rearrangement_of_found (perm : elements.Perm m.elements)
    (filters : ∀ s, o.becomesTable (m.rearranged elements) s = o.becomesTable m s)
    {map map' : RelationshipMap} (hmap : (m.relationshipMap o.convention).value = .ok map)
    (hmap' : ((m.rearranged elements).relationshipMap o.convention).value = .ok map') :
    Rearrangement o m elements map map' :=
  ⟨perm, filters, Model.get_rearranged perm hmap hmap'⟩

theorem exists_build_rearranged (ansi : o.dialect = .ansi)
    (distinct : (m.packagedClassifiers.map fun s => (m.classifier s).id).Nodup)
    (perm : elements.Perm m.elements)
    (filters : ∀ s, o.becomesTable (m.rearranged elements) s = o.becomesTable m s) {c : Catalog}
    (h : ∃ built, (o.build m c).value = .ok built) :
    ∃ built, (o.build (m.rearranged elements) c).value = .ok built := by
  obtain ⟨⟨db, c₁⟩, h⟩ := h
  obtain ⟨map, tables, hmap, ht, _⟩ := (build_eq_ok_of_ansi ansi).mp h
  have hmap' : ((m.rearranged elements).relationshipMap o.convention).value = .ok _ :=
    Model.relationshipMap_value
  have rearrangement := rearrangement_of_found perm filters hmap hmap'
  obtain ⟨⟨tables', c'⟩, ht'⟩ := rearrangement.exists_deriveTables distinct ⟨_, ht⟩
  exact ⟨({ dialect := o.factory.database, tables := tables' }, c'),
    (build_eq_ok_of_ansi ansi).mpr ⟨_, tables', hmap', ht', rfl⟩⟩

/-- The order of the packaged elements decides neither whether a model has tables nor which ones.
Filters are given the model, so they have to pass the same classifiers in both orders. -/
theorem build_rearranged (o : Options) (ansi : o.dialect = .ansi) (m : Model)
    (distinct : (m.packagedClassifiers.map fun s => (m.classifier s).id).Nodup)
    (elements : List Element) (perm : elements.Perm m.elements)
    (filters : ∀ s, o.becomesTable (m.rearranged elements) s = o.becomesTable m s) (c : Catalog) :
    ((∃ built, (o.build (m.rearranged elements) c).value = .ok built) ↔
      ∃ built, (o.build m c).value = .ok built) ∧
    ∀ db c₁ db' c₂, (o.build m c).value = .ok (db, c₁) →
      (o.build (m.rearranged elements) c).value = .ok (db', c₂) →
        SameTables db.tables db'.tables c₁ c₂ := by
  have distinct' := (((Model.packagedClassifiers_rearranged perm).map
    fun s => (m.classifier s).id).nodup_iff).mpr distinct
  refine ⟨⟨fun h => ?_, exists_build_rearranged ansi distinct perm filters⟩,
    fun db c₁ db' c₂ h h' => ?_⟩
  · exact exists_build_rearranged (m := m.rearranged elements) ansi distinct' perm.symm
      (fun s => (filters s).symm) h
  · obtain ⟨map, tables, hmap, ht, rfl⟩ := (build_eq_ok_of_ansi ansi).mp h
    obtain ⟨map', tables', hmap', ht', rfl⟩ := (build_eq_ok_of_ansi ansi).mp h'
    exact (rearrangement_of_found perm filters hmap hmap').sameTables (List.Nodup.of_map _ distinct)
      (deriveTables_outcome distinct ht) (deriveTables_outcome distinct' ht')

/-- Two classifiers have many of a third. In the opposite order the tables of the two are exchanged,
and so are the columns by which the third refers to them. -/
theorem build_rearranged_opposite :
    let o := of .ansi
    let document : ModelDocument := { name := "m", classifiers := [
      { id := "a", name := "A", attributes := [.identity "Id" "integer", .many "first" "c"] },
      { id := "b", name := "B", attributes := [.identity "Id" "integer", .many "second" "c"] },
      { id := "c", name := "C", attributes := [.identity "Id" "integer", .of "a" "a"] }] }
    let columns (built : Database × Catalog) := built.1.tables.map fun t =>
      ((built.2.table t).name, (built.2.table t).columns.map (·.name),
        (built.2.table t).dependents.map fun column => (built.2.column column).name)
    ∃ m built built', Model.ofDatum document.write = .ok m ∧
      (m.packagedClassifiers.map fun s => (m.classifier s).id).Nodup ∧
      (o.build m {}).value = .ok built ∧
      columns built = [("A", ["Id"], ["aId", "Id_first"]), ("B", ["Id"], ["Id_second"]),
        ("C", ["Id", "aId", "Id_first", "Id_second"], [])] ∧
      (o.build (m.rearranged m.elements.reverse) {}).value = .ok built' ∧
      columns built' = [("B", ["Id"], ["Id_second"]), ("A", ["Id"], ["aId", "Id_first"]),
        ("C", ["Id", "aId", "Id_second", "Id_first"], [])] ∧
      SameTables built.1.tables built'.1.tables built.2 built'.2 := by
  intro o document columns
  have hrun : o.observe document (fun m db c => do
      let built' ← (o.build (m.rearranged m.elements.reverse) {}).value
      return decide ((m.packagedClassifiers.map fun s => (m.classifier s).id).Nodup ∧
        columns (db, c) = [("A", ["Id"], ["aId", "Id_first"]), ("B", ["Id"], ["Id_second"]),
          ("C", ["Id", "aId", "Id_first", "Id_second"], [])] ∧
        columns built' = [("B", ["Id"], ["Id_second"]), ("A", ["Id"], ["aId", "Id_first"]),
          ("C", ["Id", "aId", "Id_second", "Id_first"], [])])) =
      .ok true := by
    decide +kernel
  obtain ⟨m, db, c, hm, hb, hrun⟩ := observe_eq_ok.mp hrun
  obtain ⟨⟨db', c'⟩, hb', hrun⟩ := bind_eq_ok.mp hrun
  obtain ⟨distinct, columns₁, columns₂⟩ := of_decide_eq_true (Except.ok.inj hrun)
  have same :=
    (build_rearranged o rfl m distinct m.elements.reverse (List.reverse_perm _) (fun _ => rfl)
    {}).2 db c db' c' hb hb'
  exact ⟨m, _, _, hm, distinct, hb, columns₁, hb', columns₂, same⟩

end Options

end Schemata
