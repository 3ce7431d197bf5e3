import Schemata.Proofs.Procedure.Rendered
import Schemata.Proofs.Script.Texts

/-!
# Texts of procedures

A procedure is written with its own names and those of its parameters, of the columns that it
selects, and of the tables that it is applied to. If these stay on one line, no line of the
procedure begins as the separator does, whichever query it performs.
-/
namespace Schemata
open Text

def Parameter.strings (q : Parameter) : List String :=
  [q.name, q.sqlType] ++ q.facets.length.toList ++ q.table.toList ++ q.column.toList

namespace Procedure

/-- The tables and table types whose names or columns a procedure mentions. -/
def tables (p : Procedure) (c : Catalog) : List TableRef :=
  p.table :: (c.table p.table).dependents.map (·.table) ++ p.dependent.toList.map (·.table) ++
    p.parameters.filterMap (·.tableType)

theorem mem_tables (p : Procedure) (c : Catalog) : p.table ∈ p.tables c := by simp [tables]

def strings (p : Procedure) (c : Catalog) : List String :=
  p.name :: p.parameters.flatMap Parameter.strings ++
    p.resultSets.flatMap (fun columns => columns.flatMap ResultColumn.strings) ++
    (p.tables c).flatMap fun t => (c.table t).strings

end Procedure

variable {c : Catalog} {p : Procedure} {q : Parameter}

theorem Parameter.unbroken_text (h : AllUnbroken q.strings) : Unbroken q.text := by
  obtain ⟨hname, htype, hlength, -⟩ : Unbroken q.name ∧ Unbroken q.sqlType ∧
      (∀ length ∈ q.facets.length, Unbroken length) ∧ _ := by
    simpa [strings] using h
  have htypeText : Unbroken q.typeText := by
    unfold typeText
    split
    · exact unbroken_bracketed htype
    · exact unbroken_append.mpr ⟨htype, SqlFacets.unbroken_suffix hlength⟩
  have hparameter : Unbroken (parameterName q.name) := unbroken_append.mpr ⟨by decide, hname⟩
  simp only [text]
  split <;> split <;> split <;> simp +decide [hparameter, htypeText]

theorem Parameter.opened_text (h : AllUnbroken q.strings) : Opened q.text :=
  opened_of_unbroken (unbroken_text h) (by simp [text, parameterName])

theorem Catalog.unbroken_column {key : ColumnRef} (h : AllUnbroken (c.table key.table).strings) :
    AllUnbroken (c.column key).strings := by
  obtain ⟨-, hcolumns, -⟩ : _ ∧
      (∀ column ∈ (c.table key.table).columns, AllUnbroken column.strings) ∧ _ := by
    simpa [Table.strings] using h
  rw [Catalog.column, List.getD_eq_getElem?_getD]
  cases hcolumn : (c.table key.table).columns[key.position]? with
  | none => decide
  | some column => exact hcolumns column (List.mem_of_getElem? hcolumn)

namespace Procedure

section
variable (h : AllUnbroken (p.strings c))
include h

theorem unbroken_parameter (hq : q ∈ p.parameters) : AllUnbroken q.strings := by
  simp only [strings, allUnbroken_append, allUnbroken_cons, allUnbroken_flatMap] at h
  exact h.1.1.2 q hq

theorem unbroken_result {columns : ResultSet} (hcolumns : columns ∈ p.resultSets) {r : ResultColumn}
    (hr : r ∈ columns) : AllUnbroken r.strings := by
  simp only [strings, allUnbroken_append, allUnbroken_cons, allUnbroken_flatMap] at h
  exact h.1.2 columns hcolumns r hr

theorem unbroken_table {t : TableRef} (ht : t ∈ p.tables c) : AllUnbroken (c.table t).strings := by
  simp only [strings, allUnbroken_append, allUnbroken_cons, allUnbroken_flatMap] at h
  exact h.2 t ht

end

theorem unbroken_assignment {a : Assignment} (h : AllUnbroken q.strings)
    (ha : assignment? q = some a) :
    AllUnbroken a.strings := by
  obtain ⟨hcolumn, hname⟩ := assignment?_eq_some ha
  have hc : Unbroken a.column := h a.column (by simp [Parameter.strings, hcolumn])
  have hp : Unbroken a.parameter := h a.parameter (by simp [Parameter.strings, hname])
  simp [Assignment.strings, hc, hp]

theorem unbroken_condition {table : String} (h : AllUnbroken q.strings) (ht : Unbroken table) :
    AllUnbroken (condition table q).strings := by
  obtain ⟨hname, -, -, htable, hcolumn⟩ : Unbroken q.name ∧ _ ∧ _ ∧ (∀ t ∈ q.table, Unbroken t) ∧
      ∀ t ∈ q.column, Unbroken t := by simpa [Parameter.strings] using h
  simp [condition, Condition.strings, QualifiedColumn.strings, hname, unbroken_given htable ht,
    unbroken_given hcolumn hname]

/-! ## Bodies -/

section
variable (h : AllUnbroken (p.strings c))
include h

theorem unbroken_name : Unbroken p.name := h p.name (by simp [strings])

theorem unbroken_table_name {t : TableRef} (ht : t ∈ p.tables c) : Unbroken (c.table t).name :=
  unbroken_table h ht _ (by simp [Table.strings])

theorem unbroken_column_name {t : TableRef} (ht : t ∈ p.tables c) {column : Column}
    (hc : column ∈ (c.table t).columns) : Unbroken column.name := by
  obtain ⟨-, hcolumns, -⟩ :
      _ ∧ (∀ column ∈ (c.table t).columns, AllUnbroken column.strings) ∧ _ := by
    simpa [Table.strings] using unbroken_table h ht
  exact hcolumns column hc _ (by simp [Column.strings])

theorem unbroken_assignments {inputs : List Parameter} (subset : inputs ⊆ p.parameters) :
    ∀ a ∈ inputs.filterMap assignment?, AllUnbroken a.strings := by
  intro a ha
  obtain ⟨q, hq, ha⟩ := List.mem_filterMap.mp ha
  exact unbroken_assignment (unbroken_parameter h (subset hq)) ha

theorem unbroken_conditions {filters : List Parameter} (subset : filters ⊆ p.parameters) :
    ∀ x ∈ filters.map (condition (c.table p.table).name), AllUnbroken x.strings :=
  List.forall_mem_map.mpr fun _ hq => unbroken_condition (unbroken_parameter h (subset hq))
    (unbroken_table_name h (mem_tables p c))

theorem unbroken_joins : ∀ j ∈ joins c (c.table p.table), AllUnbroken j.strings := by
  intro j hj
  unfold joins at hj
  split at hj
  · cases hj
  · rename_i identity hidentity
    obtain ⟨key, hkey, rfl⟩ := List.mem_map.mp hj
    have hdependent : key ∈ (c.table p.table).dependents := List.mem_of_mem_filter hkey
    have hkey : key.table ∈ p.tables c := by
      simpa [tables] using .inr (.inl ⟨key, hdependent, rfl⟩)
    have hcolumn := Catalog.unbroken_column (unbroken_table h hkey)
    have hidentity := unbroken_column_name h (mem_tables p c) (List.mem_of_find?_eq_some hidentity)
    simp only [Column.strings, allUnbroken_append, allUnbroken_cons] at hcolumn
    simp only [Join.strings, QualifiedColumn.strings, allUnbroken_append, allUnbroken_cons]
    exact ⟨⟨⟨unbroken_table_name h hkey, hcolumn.1.1.1, allUnbroken_nil⟩, hcolumn.2⟩,
      unbroken_table_name h (mem_tables p c), hidentity, allUnbroken_nil⟩

theorem unbroken_insertBody : ∀ s ∈ p.insertBody c, AllUnbroken s.strings := by
  refine List.forall_mem_cons.mpr ⟨?_, List.forall_mem_map.mpr fun q hq => ?_⟩
  · simp only [Statement.strings, allUnbroken_cons, allUnbroken_flatMap]
    exact ⟨unbroken_table_name h (mem_tables p c), unbroken_assignments h inputs_subset⟩
  · have hq := unbroken_parameter h (List.mem_of_mem_filter hq)
    simpa [Statement.strings] using hq q.name (by simp [Parameter.strings])

theorem unbroken_updateBody : ∀ s ∈ p.updateBody c, AllUnbroken s.strings := by
  intro s hs
  simp only [updateBody] at hs
  split at hs
  · cases hs
  · obtain rfl := List.mem_singleton.mp hs
    simp only [Statement.strings, allUnbroken_append, allUnbroken_cons, allUnbroken_flatMap]
    exact ⟨⟨unbroken_table_name h (mem_tables p c), unbroken_assignments h
      (List.Subset.trans (List.filter_subset_self _) inputs_subset)⟩,
        unbroken_conditions h filters_subset⟩

theorem unbroken_deleteBody : ∀ s ∈ p.deleteBody c, AllUnbroken s.strings := by
  intro s hs
  obtain rfl := List.mem_singleton.mp hs
  simp only [Statement.strings, allUnbroken_cons, allUnbroken_flatMap]
  exact ⟨unbroken_table_name h (mem_tables p c), unbroken_conditions h filters_subset⟩

theorem unbroken_selectBody {statements : List Statement}
    (hb : (p.selectBody c).value = .ok statements) :
    ∀ s ∈ statements, AllUnbroken s.strings := by
  rw [selectBody] at hb
  split at hb
  · cases hb
    simp
  · rename_i columns _ hresults
    cases hb
    have hcolumns : columns ∈ p.resultSets := by simp [hresults]
    intro s hs
    obtain rfl := List.mem_singleton.mp hs
    simp only [Statement.strings, allUnbroken_append, allUnbroken_cons, allUnbroken_flatMap]
    exact ⟨⟨⟨unbroken_table_name h (mem_tables p c), fun _ => unbroken_result h hcolumns⟩,
      unbroken_joins h⟩, unbroken_conditions h (List.filter_subset_self _)⟩

theorem unbroken_replacement {key : ColumnRef} {identity value : Column}
    {principal values : Parameter} (hkey : key.table ∈ p.tables c)
    (hidentity : identity ∈ (c.table key.table).columns) (hprincipal : principal ∈ p.parameters)
    (hvalues : values ∈ p.parameters) (hvalue : valueColumn? c values = some value) :
    ∀ s ∈ replacement c key identity principal values value, AllUnbroken s.strings := by
  obtain ⟨t, htype, hvalue⟩ := Option.bind_eq_some_iff.mp hvalue
  have ht : t ∈ p.tables c := by simpa [tables] using .inr (.inr (.inr ⟨values, hvalues, htype⟩))
  have htable := unbroken_table_name h hkey
  have hcolumn : Unbroken (c.column key).name :=
    Catalog.unbroken_column (unbroken_table h hkey) _ (by simp [Column.strings])
  have hidentity := unbroken_column_name h hkey hidentity
  have hprincipal := unbroken_parameter h hprincipal principal.name (by simp [Parameter.strings])
  have hvalues := unbroken_parameter h hvalues values.name (by simp [Parameter.strings])
  have hvalue := unbroken_column_name h ht (List.mem_of_head? hvalue)
  simp [replacement, Statement.strings, RelationshipUpdate.strings, htable, hcolumn,
    hidentity, hprincipal, hvalues, hvalue]

theorem unbroken_relationshipBody {statements : List Statement}
    (hb : (p.relationshipBody c).value = .ok statements) :
    ∀ s ∈ statements, AllUnbroken s.strings := by
  rw [relationshipBody] at hb
  split at hb
  · cases hb
  · rename_i key hdependent
    have hkey : key.table ∈ p.tables c := by simp [tables, hdependent]
    dsimp only at hb
    split at hb
    · rename_i identity principal values hidentity hprincipal hvalues
      split at hb
      · rename_i value hvalue
        cases hb
        exact unbroken_replacement h hkey (List.mem_of_find?_eq_some hidentity)
          (List.mem_of_find?_eq_some hprincipal) (List.mem_of_find?_eq_some hvalues) hvalue
      · cases hb
        simp
    · cases hb
      simp

theorem unbroken_body {statements : List Statement} (hb : (p.body c).value = .ok statements) :
    ∀ s ∈ statements, AllUnbroken s.strings := by
  unfold body at hb
  split at hb
  · cases hb
    exact unbroken_insertBody h
  · cases hb
    exact unbroken_updateBody h
  · cases hb
    exact unbroken_deleteBody h
  · exact unbroken_selectBody h hb
  · exact unbroken_relationshipBody h hb

theorem opened_header : Opened p.header := by
  have hname := opened_bracketed (unbroken_name h)
  have hparameters := opened_intercalate (s := ",\n") (opened_ofList (by decide))
    (List.forall_mem_map.mpr fun q hq => Parameter.opened_text (unbroken_parameter h hq))
  delta header
  simp only [toString_text]
  split
  · repeat' with_reducible apply Opened.append
    all_goals first | with_reducible assumption | exact opened_ofList (by simp)
  · repeat' with_reducible apply Opened.append
    all_goals first | with_reducible assumption | exact opened_ofList (by simp)

theorem opened_create {text : String} (ht : (p.create c).value = .ok text) : Opened text := by
  obtain ⟨statements, hb, ht⟩ := Logged.bind_eq_ok.mp ht
  cases ht
  have hstatements : ∀ text ∈ statements.map Statement.text, Opened text :=
    List.forall_mem_map.mpr fun s hs => Statement.opened_text (unbroken_body h hb s hs)
  have hframe : ∀ text ∈ ["AS", "BEGIN", "SET NOCOUNT ON;"], Opened text := by
    simp only [List.forall_mem_cons]
    exact ⟨opened_ofList (by simp), opened_ofList (by simp), opened_ofList (by simp), by simp⟩
  have hend : ∀ text ∈ ["END;"], Opened text := by
    simpa using show Opened "END;" from opened_ofList (by simp)
  refine opened_intercalate (opened_ofList (by decide)) ?_
  exact List.forall_mem_append.mpr ⟨List.forall_mem_append.mpr
    ⟨List.forall_mem_cons.mpr ⟨opened_header h, hframe⟩, hstatements⟩, hend⟩

omit h in
theorem opened_dropIfExists (h : Unbroken p.name) : Opened p.dropIfExists := by
  have hname := opened_bracketed h
  have hliteral := opened_literal h
  delta dropIfExists
  simp only [toString_text]
  repeat' with_reducible apply Opened.append
  all_goals first | with_reducible assumption | exact opened_ofList (by simp)

end

end Procedure

end Schemata
