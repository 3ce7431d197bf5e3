import Schemata.Document.Resolve
import Schemata.Proofs.Document.Written
import Schemata.Proofs.Procedure.AllTypes
import Schemata.Proofs.Procedure.Parameters
import Schemata.Proofs.Schema.Layout

/-!
# The order of parameters

Each column that qualifies has one parameter. Inputs stand in the order of their columns, and behind
them outputs in the order of theirs. A table that was made from a model has one identity column at
most, and with it one output at most.
-/
namespace Schemata

/-! ## Tables made from a model -/

/-- The table was defined for a classifier, or it belongs to a database as a table or as a table
type. -/
inductive Table.FromModel : Table → Prop
  | defined {o : Options} {m : Model} {map : RelationshipMap} {s : ClassifierRef}
    {definition : TableDefinition}
    (h : (o.tableDefinition? m map s).value = .ok (some definition)) : FromModel definition.table
  | built {o : Options} {m : Model} {c c' : Catalog} {db : Database} {t : TableRef}
    (h : (o.build m c).value = .ok (db, c')) (ht : t ∈ db.tables ∨ t ∈ db.tableTypes) :
    FromModel (c'.table t)

def Table.OneIdentity (table : Table) : Prop := table.columns.countP (·.isIdentity) ≤ 1

namespace Options

variable {o : Options} {m : Model} {map : RelationshipMap} {s : ClassifierRef}
  {definition : TableDefinition} {table : Table}

theorem Defines.oneIdentity {own further : List DerivedColumn}
    (h : o.Defines m map s definition own further) :
    definition.table.OneIdentity := by
  obtain ⟨found, _, hown⟩ := h.ofAttributes
  rw [Table.OneIdentity, h.table, List.countP_eq_length_filter, h.filter_isIdentity,
    List.length_map, hown, filter_keepFirstIdentity, if_neg Bool.false_ne_true]
  cases (found.filterMap id).find? (·.column.isIdentity) <;> simp

theorem oneIdentity_of_tableDefinition?
    (h : (o.tableDefinition? m map s).value = .ok (some definition)) :
    definition.table.OneIdentity := by
  obtain ⟨own, further, h⟩ := tableDefinition?_eq_ok h
  exact h.oneIdentity

theorem oneIdentity_of_simpleTableType {sqlType : String}
    (h : o.simpleTableType s sqlType = .ok table) :
    table.OneIdentity := by
  rw [simpleTableType] at h
  split at h
  · cases h
  · cases h
    simp [Table.OneIdentity]

theorem oneIdentity_of_complexTableType?
    (h : (o.complexTableType? m map s).value = .ok (some table)) :
    table.OneIdentity := by
  obtain ⟨definition?, hd, h⟩ := Logged.bind_eq_ok.mp h
  cases definition? with
  | none => cases h
  | some definition =>
    simp only at h
    split at h
    · cases h
    · cases h
      exact oneIdentity_of_tableDefinition? hd

end Options

theorem Table.FromModel.oneIdentity {table : Table} (h : table.FromModel) : table.OneIdentity := by
  cases h with
  | defined h => exact Options.oneIdentity_of_tableDefinition? h
  | built h ht =>
    rcases ht with ht | ht
    · obtain ⟨_, _, _, made⟩ := Options.build_made h
      obtain ⟨s, own, further, made⟩ := made _ ht
      rw [Table.OneIdentity, List.countP_eq_length_filter, made.identityColumn?.1]
      exact Option.length_toList_le
    · have all := Options.build_each (P := Table.OneIdentity)
        (fun _ _ _ => Options.oneIdentity_of_simpleTableType)
        (fun _ _ _ => Options.oneIdentity_of_complexTableType?) h
      exact (all _ ht).2

/-! ## Parameters of columns -/

def Column.isTyped (m : Model) (column : Column) : Bool :=
  column.source.any fun source => (m.property source).type.isSome

structure Parameter.OfColumn (options : ParameterOptions) (n : Naming) (m : Model) (table : String)
    (column : Column) (p : Parameter) : Prop where
  name : p.name = n.parameterName column.name false
  sqlType : p.sqlType = column.sqlType
  facets : p.facets = column.facets
  direction : p.direction =
    if options.identityAsOutput = true ∧ column.isAutoIncrement = true then .output else .input
  ofTable : p.table = some table
  ofColumn : p.column = some column.name
  property : p.property = column.source
  modelType : p.modelType = column.source.map fun source => m.typeName (m.property source)
  identity : p.isIdentity = column.isIdentity
  filter : p.isFilter = true ↔ column.isIdentity = true ∧ options.identityAsFilter = true
  nullable : p.isNullable = true ↔
    column.isIdentity = false ∧ (options.allowNulls = true ∨ column.isNullable = true)
  single : p.isReadOnly = false ∧ p.isTableValued = false ∧ p.isMany = false ∧ p.tableType = none

namespace ParameterOptions

/-- The filter lets the column pass, and columns of its kind are included; it is not one that only
realizes the relationship of another classifier, and its property has a type. -/
def qualifies (options : ParameterOptions) (m : Model) (filter : ColumnFilter) (column : Column) :
    Bool :=
  filter column && options.includes column && !column.isMany && column.isTyped m

/-- The database gives the value of the column back. -/
def returnsValue (options : ParameterOptions) (column : Column) : Bool :=
  options.identityAsOutput && column.isAutoIncrement

/-- The columns in the order of their parameters: those whose values are given back come last. -/
def ordered (options : ParameterOptions) (columns : List Column) : List Column :=
  columns.filter (fun column => !options.returnsValue column) ++ columns.filter options.returnsValue

/-- The parameters are those of the columns that qualify, inputs before outputs, and are numbered by
their positions. -/
structure Derives (options : ParameterOptions) (n : Naming) (m : Model) (filter : ColumnFilter)
    (table : Table) (parameters : List Parameter) : Prop where
  ofColumns : List.Forall₂ (Parameter.OfColumn options n m table.name)
    (options.ordered (table.columns.filter (options.qualifies m filter))) parameters
  directions : parameters.Pairwise fun p q => p.direction.code ≤ q.direction.code
  index : ∀ (i : Nat) (p : Parameter), parameters[i]? = some p → p.index = i
  required : ∀ p ∈ parameters, p.isIdentity = true → p.isNullable = false

variable {options : ParameterOptions} {n : Naming} {m : Model} {table : String} {column : Column}
  {filter : ColumnFilter} {columns : List Column} {parameters : List Parameter} {p : Parameter}

theorem isSome_parameterOf? :
    (options.parameterOf? n m table column).isSome = (!column.isMany && column.isTyped m) := by
  rw [parameterOf?, Column.isTyped]
  cases column.isMany with
  | true => rfl
  | false =>
    cases column.source with
    | none => rfl
    | some source =>
      simp only [Bool.false_eq_true, if_false, Option.bind_some, Option.any_some]
      cases (m.property source).type.isSome <;> rfl

theorem ofColumn_of_parameterOf? (h : options.parameterOf? n m table column = some p) :
    p.OfColumn options n m table column := by
  obtain ⟨_, source, hs, rfl⟩ := parameterOf?_eq_some h
  refine ⟨rfl, rfl, rfl, rfl, rfl, rfl, hs.symm, ?_, rfl, ?_, ?_, rfl, rfl, rfl, rfl⟩
  · rw [hs]
    rfl
  · simp [parameter]
  · cases hi : column.isIdentity <;> simp [parameter, hi]

/-- Without sorting, the columns that qualify have their parameters in order. -/
theorem forall₂_parameterOf? : List.Forall₂ (Parameter.OfColumn options n m table)
    (columns.filter (options.qualifies m filter))
    ((options.select filter columns).filterMap (options.parameterOf? n m table)) := by
  have hselected : columns.filter (options.qualifies m filter) =
      (options.select filter columns).filter fun column => !column.isMany && column.isTyped m := by
    rw [select, List.filter_filter]
    refine List.filter_congr fun column _ => ?_
    rw [qualifies, Bool.and_assoc, Bool.and_comm]
  have hfound : List.Forall₂ (fun column p? => (!column.isMany && column.isTyped m) = p?.isSome ∧
      ∀ p ∈ p?, Parameter.OfColumn options n m table column p)
      (options.select filter columns)
        ((options.select filter columns).map (options.parameterOf? n m table)) := by
    rw [List.forall₂_map_right_iff, List.forall₂_same]
    exact fun column _ => ⟨isSome_parameterOf?.symm, fun p hp => ofColumn_of_parameterOf? hp⟩
  have hparameters := forall₂_filter_filterMap hfound
  rw [List.filterMap_map] at hparameters
  rw [hselected]
  exact hparameters

end ParameterOptions

namespace Parameter.OfColumn

variable {options : ParameterOptions} {n : Naming} {m : Model} {table : String} {column : Column}
  {p : Parameter}

theorem direction_cases (h : p.OfColumn options n m table column) :
    p.direction = .input ∨ p.direction = .output := by
  rw [h.direction]
  split
  · exact .inr rfl
  · exact .inl rfl

theorem decide_output (h : p.OfColumn options n m table column) :
    decide (p.direction = .output) = options.returnsValue column := by
  rw [h.direction, ParameterOptions.returnsValue]
  cases options.identityAsOutput <;> cases column.isAutoIncrement <;> rfl

theorem decide_input (h : p.OfColumn options n m table column) :
    decide (p.direction = .input) = !options.returnsValue column := by
  rw [← h.decide_output]
  rcases h.direction_cases with hd | hd <;> rw [hd] <;> rfl

theorem required (h : p.OfColumn options n m table column) (hi : p.isIdentity = true) :
    p.isNullable = false := by
  rw [Bool.eq_false_iff]
  intro hn
  rw [h.identity, (h.nullable.mp hn).1] at hi
  cases hi

theorem unnumbered_iff :
    p.unnumbered.OfColumn options n m table column ↔ p.OfColumn options n m table column := by
  constructor <;> exact fun h => { h with }

end Parameter.OfColumn

namespace ParameterOptions

variable {options : ParameterOptions} {n : Naming} {m : Model} {table : String}
  {filter : ColumnFilter} {columns : List Column} {parameters : List Parameter}

/-- Sorting moves the parameters of the columns whose values are given back behind the others. -/
theorem forall₂_sortParameters
    (h : List.Forall₂ (Parameter.OfColumn options n m table) columns parameters) :
    List.Forall₂ (Parameter.OfColumn options n m table) (options.ordered columns)
      (sortParameters parameters) := by
  have hdirections : ∀ p ∈ parameters, p.direction = .input ∨ p.direction = .output := by
    intro p hp
    obtain ⟨column, _, hp⟩ := exists_mem_of_forall₂ h hp
    exact hp.direction_cases
  have hinputs := List.rel_filter (p := fun column => !options.returnsValue column)
    (q := fun p => decide (p.direction = .input))
      (fun column p h => by simp only [h.decide_input]) h
  have houtputs :=
    List.rel_filter (p := options.returnsValue) (q := fun p => decide (p.direction = .output))
    (fun column p h => by simp only [h.decide_output]) h
  have hunnumbered (ps : List Parameter) :
      List.Forall₂ (Parameter.OfColumn options n m table) (options.ordered columns)
        (ps.map Parameter.unnumbered) ↔
        List.Forall₂ (Parameter.OfColumn options n m table) (options.ordered columns) ps := by
    simp only [List.forall₂_map_right_iff, Parameter.OfColumn.unnumbered_iff]
  rw [← hunnumbered, sortParameters_of_input_output hdirections, hunnumbered]
  exact List.rel_append hinputs houtputs

theorem countP_output (h : List.Forall₂ (Parameter.OfColumn options n m table) columns parameters) :
    parameters.countP (fun p => p.direction = .output) = columns.countP options.returnsValue := by
  induction h with
  | nil => rfl
  | cons hp _ ih => rw [List.countP_cons, List.countP_cons, ih, hp.decide_output]

/-- Only identity columns can be given back, and the order of columns does not matter for their
number. -/
theorem countP_ordered_le :
    (options.ordered (columns.filter (options.qualifies m filter))).countP options.returnsValue ≤
    columns.countP (·.isIdentity) := by
  have hperm : (options.ordered (columns.filter (options.qualifies m filter))).Perm
      (columns.filter (options.qualifies m filter)) :=
    List.perm_append_comm.trans (List.filter_append_perm options.returnsValue _)
  calc (options.ordered (columns.filter (options.qualifies m filter))).countP options.returnsValue
      = (columns.filter (options.qualifies m filter)).countP options.returnsValue :=
        hperm.countP_eq _
    _ ≤ columns.countP options.returnsValue := List.filter_sublist.countP_le
    _ ≤ columns.countP (·.isIdentity) := List.countP_mono_left fun column _ h => by
        simp only [returnsValue, Column.isAutoIncrement, Bool.and_eq_true] at h
        exact h.2.1.2

/-- Every table has parameters, and they are those of its columns in order. If it was made from a
model, one of them is an output at most. -/
theorem parameters_ordered (options : ParameterOptions) (n : Naming) (m : Model)
    (filter : ColumnFilter) (table : Table) :
    ∃ parameters, (options.parameters n m table filter).value = .ok parameters ∧
      options.Derives n m filter table parameters ∧
      (table.FromModel → parameters.countP (fun p => p.direction = .output) ≤ 1) := by
  have hcolumns : List.Forall₂ (Parameter.OfColumn options n m table.name)
      (options.ordered (table.columns.filter (options.qualifies m filter)))
      (sortParameters
        ((options.select filter table.columns).filterMap (options.parameterOf? n m table.name))) :=
    forall₂_sortParameters forall₂_parameterOf?
  refine ⟨_, parameters_value table filter,
    ⟨hcolumns, pairwise_sortParameters, fun i p => index_sortParameters,
    fun p hp => ?_⟩, fun fromModel => ?_⟩
  · obtain ⟨column, _, hp⟩ := exists_mem_of_forall₂ hcolumns hp
    exact hp.required
  · rw [countP_output hcolumns]
    exact countP_ordered_le.trans fromModel.oneIdentity

/-- The identity of an employee is given back, and so it comes last. There is no parameter for the
column that the filter leaves out and for the one that only realizes the staff of a department. -/
theorem parameters_ordered_employee :
    let document : ModelDocument := { name := "m", classifiers := [
      { id := "d", name := "Department", attributes := [
        .identity "Id" "integer", .many "staff" "e"] },
      { id := "e", name := "Employee", attributes := [
        { name := "name", type := some "string", facets := { maxLength := some 100 } },
        .identity "Id" "integer", .identity "Badge" "integer", .of "hired" "date",
        { name := "superior", type := some "e", lower := 0 }] }] }
    let options : ParameterOptions := { identityAsOutput := true, allowNulls := true }
    let n : Naming := { dialect := .sqlServer }
    let filter : ColumnFilter := fun column => column.name != "hired"
    ∃ m db c' parameters, Model.ofDatum document.write = .ok m ∧
      ((Options.of .sqlServer).build m {}).value = .ok (db, c') ∧
      (c'.table ⟨1⟩).columns.map (·.name) =
        ["name", "Id", "Badge", "hired", "superiorId", "Id_staff"] ∧
      (options.parameters n m (c'.table ⟨1⟩) filter).value = .ok parameters ∧
      parameters.map (fun p => (p.index, p.text)) =
        [(0, "@name nvarchar(100) = NULL"), (1, "@Badge int = NULL"),
        (2, "@superiorId int = NULL"), (3, "@Id int OUTPUT")] ∧
      options.Derives n m filter (c'.table ⟨1⟩) parameters ∧
      (c'.table ⟨1⟩).FromModel ∧ parameters.countP (fun p => p.direction = .output) ≤ 1 := by
  intro document options n filter
  have hrun : (Options.of .sqlServer).observe document (fun m db c' => do
      let parameters ← (options.parameters n m (c'.table ⟨1⟩) filter).value
      return (db.tables, (c'.table ⟨1⟩).columns.map fun column : Column => column.name,
        parameters.map fun p : Parameter => (p.index, p.text))) =
      .ok ([⟨0⟩, ⟨1⟩], ["name", "Id", "Badge", "hired", "superiorId", "Id_staff"],
          [(0, "@name nvarchar(100) = NULL"), (1, "@Badge int = NULL"),
            (2, "@superiorId int = NULL"), (3, "@Id int OUTPUT")]) := by
    decide +kernel
  obtain ⟨m, db, c', hm, hb, hrun⟩ := Options.observe_eq_ok.mp hrun
  obtain ⟨parameters, hp, hrun⟩ := bind_eq_ok.mp hrun
  obtain ⟨htables, hshape⟩ := Prod.mk.inj (Except.ok.inj hrun)
  obtain ⟨hcolumns, htexts⟩ := Prod.mk.inj hshape
  have fromModel : (c'.table ⟨1⟩).FromModel := .built hb (.inl (by rw [htables]; simp))
  obtain ⟨parameters', hp', derives, single⟩ := parameters_ordered options n m filter (c'.table ⟨1⟩)
  obtain rfl := Except.ok.inj (hp.symm.trans hp')
  exact ⟨m, db, c', parameters, hm, hb, hcolumns, hp, htexts, derives, fromModel, single fromModel⟩

end ParameterOptions

end Schemata
