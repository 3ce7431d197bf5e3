import Schemata.Proofs.Document.Written
import Schemata.Proofs.Relationship.Convention
import Schemata.Proofs.Schema.Derivable

/-!
# Further filters

A further filter takes tables away and nothing else: the tables that are left have the columns that
they had, and know the columns of the other tables that are left. The order of filters does not
matter.
-/
namespace Schemata

/-- The tables of the classifiers that are kept, and of what they knew the columns of such
tables. -/
structure Narrowed (kept : ClassifierRef → Bool) (tables tables' : List TableRef) (c c' : Catalog) :
    Prop where
  distinct : (tables.map fun t => (c.table t).source).Nodup
  sources : (tables'.map fun t => (c'.table t).source).Perm
    ((tables.map fun t => (c.table t).source).filter fun source => source.any kept)
  table : ∀ t ∈ tables, ∀ t' ∈ tables', (c'.table t').source = (c.table t).source →
    c'.table t' = { c.table t with dependents := (c'.table t').dependents }
  dependents : ∀ t ∈ tables, ∀ t' ∈ tables', (c'.table t').source = (c.table t).source →
    (c'.table t').dependents.map c'.placeOf =
      ((c.table t).dependents.filter fun column => (c.table column.table).source.any kept).map
        c.placeOf
  owners : ∀ t' ∈ tables', ∀ column ∈ (c'.table t').dependents, column.table ∈ tables'

namespace Options
open Relation

section
variable (o : Options) (filters tableTypes : List ClassifierFilter) (m : Model)
  (map : RelationshipMap)

theorem attributeColumns_selection (table : String) (c : ClassifierRef) (identity : Option String)
    (ps : List PropertyRef) :
    { o with filters, tableTypes }.attributeColumns m table c identity ps =
      o.attributeColumns m table c identity ps := by
  induction ps generalizing identity with
  | nil => rfl
  | cons p rest ih =>
    rw [attributeColumns, attributeColumns]
    simp only [ih]
    rfl

/-- What is selected are classifiers; the table of a selected one does not depend on it. -/
theorem tableDefinition?_selection (s : ClassifierRef) :
    { o with filters, tableTypes }.tableDefinition? m map s = o.tableDefinition? m map s := by
  rw [tableDefinition?, tableDefinition?]
  simp only [attributeColumns_selection]
  rfl

end

variable {o : Options} {m : Model} {map : RelationshipMap} {F G H : List ClassifierFilter}
  {s s' : ClassifierRef}

theorem becomesTable_filters (same : ∀ f, f ∈ H ↔ f ∈ F ∨ f ∈ G) (s : ClassifierRef) :
    { o with filters := H }.becomesTable m s =
      ({ o with filters := F }.becomesTable m s && { o with filters := G }.becomesTable m s) := by
  rw [Bool.eq_iff_iff]
  simp only [becomesTable, Bool.and_eq_true, List.all_eq_true, same, or_imp, forall_and]

theorem packagedTable?_filters
    (same : { o with filters := H }.becomesTable m s = { o with filters := F }.becomesTable m s) :
    { o with filters := H }.packagedTable? m map s =
      { o with filters := F }.packagedTable? m map s := by
  rw [packagedTable?, packagedTable?, same, tableDefinition?_selection o H,
    tableDefinition?_selection o F]

theorem packagedTable?_of_not (h : o.becomesTable m s = false) :
    (o.packagedTable? m map s).value = .ok none := by
  rw [packagedTable?]
  split
  · rfl
  · rw [h]
    rfl

theorem build_filters (ansi : o.dialect = .ansi)
    (same : ∀ s, { o with filters := H }.becomesTable m s =
      { o with filters := F }.becomesTable m s)
    (c : Catalog) : { o with filters := H }.build m c = { o with filters := F }.build m c := by
  have htables : ∀ map, { o with filters := H }.buildTables m map c =
      { o with filters := F }.buildTables m map c := by
    intro map
    have hpackaged : { o with filters := H }.packagedTable? m map =
        { o with filters := F }.packagedTable? m map :=
          funext fun s => packagedTable?_filters (same s)
    rw [buildTables, buildTables, deriveTables, deriveTables, tableDefinitions,
      tableDefinitions, hpackaged]
  have hH := fun map => buildWith_of_ansi { o with filters := H } m map c ansi
  have hF := fun map => buildWith_of_ansi { o with filters := F } m map c ansi
  rw [build_eq, build_eq]
  exact congrArg (m.relationshipMap o.convention >>= ·) (funext fun map => by rw [hH, hF, htables])

theorem definitionOf?_filters (same : ∀ f, f ∈ H ↔ f ∈ F ∨ f ∈ G) (s : ClassifierRef) :
    { o with filters := H }.definitionOf? m map s =
      if { o with filters := G }.becomesTable m s then { o with filters := F }.definitionOf? m map s
      else none := by
  have hboth := becomesTable_filters (o := o) (m := m) same s
  split
  case isTrue kept =>
    rw [kept, Bool.and_true] at hboth
    rw [definitionOf?, definitionOf?, packagedTable?_filters hboth]
  case isFalse dropped =>
    rw [eq_false_of_ne_true dropped, Bool.and_false] at hboth
    exact definitionOf?_of_ok (packagedTable?_of_not hboth)

theorem definable_filters (same : ∀ f, f ∈ H ↔ f ∈ F ∨ f ∈ G)
    (definable : { o with filters := F }.Definable m map) :
    { o with filters := H }.Definable m map := by
  intro s hs
  have hboth := becomesTable_filters (o := o) (m := m) same s
  cases hG : { o with filters := G }.becomesTable m s with
  | true =>
    rw [hG, Bool.and_true] at hboth
    rw [packagedTable?_filters hboth]
    exact definable s hs
  | false =>
    rw [hG, Bool.and_false] at hboth
    exact ⟨none, packagedTable?_of_not hboth⟩

/-- With further filters no reference appears, so neither does a circle. -/
theorem refersTo_filters (same : ∀ f, f ∈ H ↔ f ∈ F ∨ f ∈ G)
    (h : { o with filters := H }.RefersTo m map s s') :
    { o with filters := F }.RefersTo m map s s' := by
  have hdefinition : ∀ s d, { o with filters := H }.definitionOf? m map s = some d →
      { o with filters := F }.definitionOf? m map s = some d := by
    intro s d hd
    rw [definitionOf?_filters same] at hd
    split at hd
    · exact hd
    · cases hd
  obtain ⟨d, hd, refers⟩ := h.refers
  obtain ⟨d', hd'⟩ := Option.isSome_iff_exists.mp h.tabled
  exact ⟨h.packaged, h.principal, h.distinct, ⟨d, hdefinition s d hd, refers⟩,
    Option.isSome_of_eq_some (hdefinition s' d' hd')⟩

theorem Outcome.narrowed (same : ∀ f, f ∈ H ↔ f ∈ F ∨ f ∈ G)
    (distinct : m.packagedClassifiers.Nodup) {tables tables' : List TableRef} {c c' : Catalog}
    (h : { o with filters := F }.Outcome m map tables c)
    (h' : { o with filters := H }.Outcome m map tables' c') :
    Narrowed ({ o with filters := G }.becomesTable m) tables tables' c c' := by
  have hsome : ∀ s, ({ o with filters := H }.definitionOf? m map s).isSome =
      (({ o with filters := G }.becomesTable m s) &&
        ({ o with filters := F }.definitionOf? m map s).isSome) := by
    intro s
    rw [definitionOf?_filters same]
    cases { o with filters := G }.becomesTable m s <;> rfl
  refine ⟨?_, ?_, ?_, ?_, h'.owners⟩
  · rw [h.sources.nodup_iff]
    exact (distinct.filter _).map fun _ _ => Option.some.inj
  · refine h'.sources.trans (.trans (.of_eq ?_) (h.sources.filter _).symm)
    rw [List.filter_map, List.filter_filter]
    simp only [hsome, Function.comp_def, Option.any_some]
  · intro t ht t' ht' e
    obtain ⟨s, _, d, hs, hd, htable, _⟩ := h.table t ht
    obtain ⟨s', _, d', hs', hd', htable', _⟩ := h'.table t' ht'
    obtain rfl := Option.some.inj (hs'.symm.trans (e.trans hs))
    rw [definitionOf?_filters same] at hd'
    split at hd'
    · obtain rfl := Option.some.inj (hd.symm.trans hd')
      rw [htable, htable']
    · cases hd'
  · intro t ht t' ht' e
    obtain ⟨s, _, _, hs, _, _, hdependents⟩ := h.table t ht
    obtain ⟨s', _, _, hs', _, _, hdependents'⟩ := h'.table t' ht'
    obtain rfl := Option.some.inj (hs'.symm.trans (e.trans hs))
    have hfilter : (fun column : ColumnRef =>
        (c.table column.table).source.any ({ o with filters := G }.becomesTable m)) =
        (fun place => place.1.any ({ o with filters := G }.becomesTable m)) ∘ c.placeOf := rfl
    rw [hfilter, ← List.filter_map, hdependents, hdependents', flatMap_filterMap, flatMap_filterMap,
      List.filter_flatMap]
    refine List.flatMap_congr fun s _ => ?_
    rw [definitionOf?_filters same]
    cases hd : { o with filters := F }.definitionOf? m map s with
    | none =>
      rw [ite_self]
      rfl
    | some d =>
      have hsource := (table_of_packagedTable? (definitionOf?_eq_some.mp hd)).1
      cases hkept : { o with filters := G }.becomesTable m s <;>
        simp [List.filter_map, Function.comp_def, hkept, hsource]

/-- Filters may be given in any order. With further ones the database has the tables that pass them,
as they were but for the columns of the tables that are gone. -/
theorem build_narrowed (o : Options) (ansi : o.dialect = .ansi) (m : Model)
    (distinct : (m.packagedClassifiers.map fun s => (m.classifier s).id).Nodup)
    (F G : List ClassifierFilter) (c c₁ : Catalog) (db₁ : Database)
    (h : ({ o with filters := F }.build m c).value = .ok (db₁, c₁)) :
    ∃ db₂ c₂, (∀ H : List ClassifierFilter, (∀ f, f ∈ H ↔ f ∈ F ∨ f ∈ G) →
        ({ o with filters := H }.build m c).value = .ok (db₂, c₂)) ∧
      Narrowed ({ o with filters := G }.becomesTable m) db₁.tables db₂.tables c₁ c₂ := by
  have same : ∀ f, f ∈ F ++ G ↔ f ∈ F ∨ f ∈ G := fun f => List.mem_append
  obtain ⟨map, tables₁, hmap, h₁, rfl⟩ :=
    (build_eq_ok_of_ansi (o := { o with filters := F }) ansi).mp h
  have derivable := (exists_deriveTables_iff distinct c).mp ⟨_, h₁⟩
  obtain ⟨⟨tables₂, c₂⟩, h₂⟩ := (exists_deriveTables_iff distinct c).mpr
    ⟨definable_filters same derivable.1, fun ⟨s, path⟩ =>
      derivable.2 ⟨s, TransGen.mono (fun _ _ => refersTo_filters same) s s path⟩⟩
  have hbuild : ({ o with filters := F ++ G }.build m c).value =
      .ok ({ dialect := o.factory.database, tables := tables₂ }, c₂) :=
    (build_eq_ok_of_ansi (o := { o with filters := F ++ G }) ansi).mpr ⟨map, tables₂, hmap, h₂, rfl⟩
  refine ⟨{ dialect := o.factory.database, tables := tables₂ }, c₂, fun H hH => ?_, ?_⟩
  · rw [← hbuild, build_filters ansi fun s => ?_]
    rw [becomesTable_filters hH, becomesTable_filters same]
  · exact (deriveTables_outcome distinct h₁).narrowed same (List.Nodup.of_map _ distinct)
      (deriveTables_outcome distinct h₂)

/-- Of two tables that refer to a third one is taken away, whichever filter comes first. -/
theorem build_narrowed_two :
    let o := of .ansi
    let named : ClassifierFilter := fun m s => (m.classifier s).name != ""
    let kept : ClassifierFilter := fun m s => (m.classifier s).name != "B"
    let document : ModelDocument := { name := "m", classifiers := [
      { id := "a", name := "A", attributes := [.identity "Id" "integer"] },
      { id := "b", name := "B", attributes := [.identity "Id" "integer", .of "a" "a"] },
      { id := "c", name := "C", attributes := [.identity "Id" "integer", .of "a" "a"] }] }
    let owners (built : Database × Catalog) := built.1.tables.map fun t => ((built.2.table t).name,
      (built.2.table t).dependents.map fun column => (built.2.table column.table).name)
    ∃ m built₁ built₂, Model.ofDatum document.write = .ok m ∧
      (m.packagedClassifiers.map fun s => (m.classifier s).id).Nodup ∧
      ({ o with filters := [named] }.build m {}).value = .ok built₁ ∧
      owners built₁ = [("A", ["B", "C"]), ("B", []), ("C", [])] ∧
      ({ o with filters := [kept, named] }.build m {}).value = .ok built₂ ∧
      owners built₂ = [("A", ["C"]), ("C", [])] ∧
      Narrowed ({ o with filters := [kept] }.becomesTable m) built₁.1.tables built₂.1.tables
        built₁.2 built₂.2 := by
  intro o named kept document owners
  have hrun : ({ o with filters := [named] } : Options).observe document (fun m db₁ c₁ => do
      let built₂ ← ({ o with filters := [kept, named] }.build m {}).value
      return (decide (m.packagedClassifiers.map fun s => (m.classifier s).id).Nodup,
        owners (db₁, c₁), owners built₂)) =
      .ok (true, [("A", ["B", "C"]), ("B", []), ("C", [])], [("A", ["C"]), ("C", [])]) := by
    decide +kernel
  obtain ⟨m, db₁, c₁, hm, h₁, hrun⟩ := observe_eq_ok.mp hrun
  obtain ⟨built₂, h₂, hrun⟩ := bind_eq_ok.mp hrun
  obtain ⟨distinct, hrun⟩ := Prod.mk.inj (Except.ok.inj hrun)
  obtain ⟨owners₁, owners₂⟩ := Prod.mk.inj hrun
  have distinct := of_decide_eq_true distinct
  obtain ⟨db, c, hbuild, narrowed⟩ := build_narrowed o rfl m distinct [named] [kept] {} c₁ db₁ h₁
  have hsame := hbuild [kept, named] fun f => by simp [or_comm]
  obtain rfl := Except.ok.inj (hsame.symm.trans h₂)
  exact ⟨m, _, _, hm, distinct, h₁, owners₁, h₂, owners₂, narrowed⟩

end Options

end Schemata
