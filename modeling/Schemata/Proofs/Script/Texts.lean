import Schemata.Proofs.Outcome
import Schemata.Proofs.Text.Lines
import Schemata.Script.Schema

/-!
# Texts of statements

The names, types, lengths and roles of a database are all that a script takes from it. As long as
each of them stays on one line, whatever it is, no line of a statement begins as the separator does:
a name stands behind its bracket or its sign, and the rest is written by the generator.
-/
namespace Schemata
open Text

def AllUnbroken (texts : List String) : Prop := ∀ text ∈ texts, Unbroken text

instance (texts : List String) : Decidable (AllUnbroken texts) :=
  inferInstanceAs (Decidable (∀ text ∈ texts, Unbroken text))

section
variable {text : String} {texts more : List String} {α : Type} {f : α → List String} {l : List α}

@[simp] theorem allUnbroken_nil : AllUnbroken [] := by simp [AllUnbroken]

@[simp] theorem allUnbroken_cons :
    AllUnbroken (text :: texts) ↔ Unbroken text ∧ AllUnbroken texts :=
  List.forall_mem_cons

@[simp] theorem allUnbroken_append :
    AllUnbroken (texts ++ more) ↔ AllUnbroken texts ∧ AllUnbroken more :=
  List.forall_mem_append

@[simp] theorem allUnbroken_flatMap : AllUnbroken (l.flatMap f) ↔ ∀ a ∈ l, AllUnbroken (f a) := by
  simp only [AllUnbroken, List.mem_flatMap]
  exact ⟨fun h a ha text ht => h text ⟨a, ha, ht⟩, fun h text ⟨a, ha, ht⟩ => h a ha text ht⟩

@[simp] theorem allUnbroken_toList {o : Option String} :
    AllUnbroken o.toList ↔ ∀ text ∈ o, Unbroken text := by
  simp [AllUnbroken]

end

/-! ## Parts of tables -/

def Column.strings (c : Column) : List String :=
  [c.name, c.sqlType] ++ c.facets.length.toList ++ c.role.toList

def Key.strings (k : Key) : List String :=
  [k.name, k.column] ++ k.principalTable.toList ++ k.principalColumn.toList

def Table.strings (t : Table) : List String :=
  t.name :: t.columns.flatMap Column.strings ++ t.keys.flatMap Key.strings

theorem SqlFacets.unbroken_suffix {f : SqlFacets} (h : ∀ length ∈ f.length, Unbroken length) :
    Unbroken f.suffix := by
  have digits (ints : List Int) : Unbroken (",".intercalate (ints.map toString)) :=
    unbroken_intercalate (by decide) (List.forall_mem_map.mpr fun i _ => unbroken_toString i)
  simp only [suffix]
  split
  · split <;> simp +decide [digits]
  · split <;> simp +decide [digits]
  · rename_i length _ hlength
    simp +decide [h length hlength]

theorem Column.unbroken_text {c : Column} (h : AllUnbroken c.strings) : Unbroken c.text := by
  obtain ⟨hname, htype, hlength, -⟩ : Unbroken c.name ∧ Unbroken c.sqlType ∧
      (∀ length ∈ c.facets.length, Unbroken length) ∧ _ := by
    simpa [strings] using h
  have htypeText : Unbroken c.typeText := by
    cases hd : c.dialect <;> simp [typeText, hd, htype, SqlFacets.unbroken_suffix hlength]
  simp only [text]
  split <;> split <;> simp +decide [hname, htypeText]

theorem Column.opened_text {c : Column} (h : AllUnbroken c.strings) : Opened c.text :=
  opened_of_unbroken (unbroken_text h) (by simp [text, toList_bracketed])

theorem Key.opened_rule {k : Key} (h : AllUnbroken k.strings) {text : String}
    (ht : k.rule = .ok text) :
    Opened text := by
  obtain ⟨-, hcolumn, htable, hprincipal⟩ : Unbroken k.name ∧ Unbroken k.column ∧
      (∀ table ∈ k.principalTable, Unbroken table) ∧
      ∀ column ∈ k.principalColumn, Unbroken column := by
    simpa [strings] using h
  have hcolumn := opened_bracketed hcolumn
  rw [rule] at ht
  split at ht
  · cases ht
    simp only [toString_text]
    repeat' with_reducible apply Opened.append
    all_goals first | with_reducible assumption | exact opened_ofList (by simp)
  · rename_i table column _ hsome hsome'
    have htable := opened_bracketed (htable table hsome)
    have hprincipal := opened_bracketed (hprincipal column hsome')
    have hcascade : Opened (if k.cascades then " ON DELETE CASCADE" else "") := by
      split <;> exact opened_ofList (by simp)
    cases ht
    simp only [toString_text]
    repeat' with_reducible apply Opened.append
    all_goals first | with_reducible assumption | exact opened_ofList (by simp)
  · cases ht

theorem Key.opened_text {k : Key} (h : AllUnbroken k.strings) {text : String}
    (ht : k.text = .ok text) :
    Opened text := by
  obtain ⟨rule, hrule, ht⟩ := bind_eq_ok.mp ht
  have hname := opened_bracketed (h k.name (by simp [strings]))
  have hrule := opened_rule h hrule
  cases ht
  simp only [toString_text]
  repeat' with_reducible apply Opened.append
  all_goals first | with_reducible assumption | exact opened_ofList (by simp)

/-! ## Tables and table types -/

namespace Table
variable {t : Table}

theorem opened_definition {parts : List String} (h : ∀ part ∈ parts, Opened part) :
    Opened (definition parts) := by
  have hparts := opened_intercalate (s := ",\n") (opened_ofList (by decide)) h
  delta definition
  repeat' with_reducible apply Opened.append
  all_goals first | with_reducible assumption | exact opened_ofList (by simp)

theorem opened_columns (h : AllUnbroken t.strings) :
    ∀ part ∈ t.columns.map Column.text, Opened part := by
  obtain ⟨-, hcolumns, -⟩ : Unbroken t.name ∧ (∀ c ∈ t.columns, AllUnbroken c.strings) ∧ _ := by
    simpa [strings] using h
  exact List.forall_mem_map.mpr fun c hc => Column.opened_text (hcolumns c hc)

theorem opened_keys (h : AllUnbroken t.strings) {keys : List String}
    (hkeys : t.keys.mapM Key.text = .ok keys) : ∀ part ∈ keys, Opened part := by
  obtain ⟨-, -, hunbroken⟩ : Unbroken t.name ∧ _ ∧ ∀ k ∈ t.keys, AllUnbroken k.strings := by
    simpa [strings] using h
  intro part hpart
  obtain ⟨k, hk, hkey⟩ := exists_mem_of_forall₂ (mapM_eq_ok.mp hkeys) hpart
  exact Key.opened_text (hunbroken k hk) hkey

theorem opened_create (h : AllUnbroken t.strings) {text : String} (ht : t.create = .ok text) :
    Opened text := by
  have hname : Opened t.text := opened_bracketed (h t.name (by simp [strings]))
  obtain ⟨keys, hkeys, ht⟩ := bind_eq_ok.mp ht
  have hdefinition :=
    opened_definition (List.forall_mem_append.mpr ⟨opened_columns h, opened_keys h hkeys⟩)
  cases ht
  simp only [toString_text]
  repeat' with_reducible apply Opened.append
  all_goals first | with_reducible assumption | exact opened_ofList (by simp)

theorem opened_createType (h : AllUnbroken t.strings) : Opened t.createType := by
  have hname : Opened t.text := opened_bracketed (h t.name (by simp [strings]))
  have hdefinition := opened_definition (opened_columns h)
  delta createType
  simp only [toString_text]
  repeat' with_reducible apply Opened.append
  all_goals first | with_reducible assumption | exact opened_ofList (by simp)

theorem opened_dropIfExists (h : Unbroken t.name) : Opened t.dropIfExists := by
  have hname : Opened t.text := opened_bracketed h
  have hliteral := opened_literal h
  delta dropIfExists
  simp only [toString_text]
  repeat' with_reducible apply Opened.append
  all_goals first | with_reducible assumption | exact opened_ofList (by simp)

theorem opened_dropTypeIfExists (h : Unbroken t.name) : Opened t.dropTypeIfExists := by
  have hname : Opened t.text := opened_bracketed h
  have hliteral := opened_literal h
  delta dropTypeIfExists
  simp only [toString_text]
  repeat' with_reducible apply Opened.append
  all_goals first | with_reducible assumption | exact opened_ofList (by simp)

end Table

/-! ## Statements of procedures -/

def Assignment.strings (a : Assignment) : List String := [a.column, a.parameter]

def QualifiedColumn.strings (q : QualifiedColumn) : List String := [q.table, q.column]

def Condition.strings (c : Condition) : List String := c.column.strings ++ [c.parameter]

def Join.strings (j : Join) : List String :=
  [j.table, j.key] ++ j.role.toList ++ j.principal.strings

def ResultColumn.strings (r : ResultColumn) : List String := [r.name, r.sourceTable, r.sourceColumn]

def RelationshipUpdate.strings (u : RelationshipUpdate) : List String :=
  [u.table, u.key, u.identity, u.principalParameter, u.valueColumn, u.valuesParameter]

def Statement.strings : Statement → List String
  | .insert table cells => table :: cells.flatMap Assignment.strings
  | .storeIdentity parameter => [parameter]
  | .update table cells conditions =>
    table :: cells.flatMap Assignment.strings ++ conditions.flatMap Condition.strings
  | .delete table conditions => table :: conditions.flatMap Condition.strings
  | .select table columns joins conditions =>
    table :: columns.flatMap ResultColumn.strings ++ joins.flatMap Join.strings ++
      conditions.flatMap Condition.strings
  | .detach u | .attach u => u.strings

theorem unbroken_given {text : Option String} {fallback : String} (h : ∀ t ∈ text, Unbroken t)
    (hf : Unbroken fallback) : Unbroken (given text fallback) := by
  unfold given
  split
  · exact hf
  · exact hf
  · exact h _ rfl

theorem Assignment.opened_text {a : Assignment} (h : AllUnbroken a.strings) : Opened a.text := by
  have hcolumn := opened_bracketed (h a.column (by simp [strings]))
  have hparameter := opened_parameterName (h a.parameter (by simp [strings]))
  delta text
  simp only [toString_text]
  repeat' with_reducible apply Opened.append
  all_goals first | with_reducible assumption | exact opened_ofList (by simp)

theorem QualifiedColumn.opened_text {q : QualifiedColumn} (h : AllUnbroken q.strings) :
    Opened q.text := by
  have htable := opened_bracketed (h q.table (by simp [strings]))
  have hcolumn := opened_bracketed (h q.column (by simp [strings]))
  delta text
  simp only [toString_text]
  repeat' with_reducible apply Opened.append
  all_goals first | with_reducible assumption | exact opened_ofList (by simp)

theorem Condition.opened_text {c : Condition} (h : AllUnbroken c.strings) : Opened c.text := by
  obtain ⟨hcolumn, hparameter⟩ : AllUnbroken c.column.strings ∧ Unbroken c.parameter := by
    simpa [strings] using h
  have hcolumn := QualifiedColumn.opened_text hcolumn
  have hparameter := opened_parameterName hparameter
  delta text
  simp only [toString_text]
  split
  · repeat' with_reducible apply Opened.append
    all_goals first | with_reducible assumption | exact opened_ofList (by simp)
  · repeat' with_reducible apply Opened.append
    all_goals first | with_reducible assumption | exact opened_ofList (by simp)

theorem opened_whereText {conditions : List Condition}
    (h : ∀ c ∈ conditions, AllUnbroken c.strings) :
    Opened (whereText conditions) := by
  have hconditions := opened_intercalate (s := " AND ") (opened_ofList (by decide))
    (List.forall_mem_map.mpr fun c hc => Condition.opened_text (h c hc))
  delta whereText
  split
  · exact opened_ofList (by decide)
  · repeat' with_reducible apply Opened.append
    all_goals first | with_reducible assumption | exact opened_ofList (by simp)

theorem Join.opened_text {j : Join} (h : AllUnbroken j.strings) : Opened j.text := by
  obtain ⟨htable, hkey, hrole, hprincipal⟩ : Unbroken j.table ∧ Unbroken j.key ∧
      (∀ role ∈ j.role, Unbroken role) ∧ AllUnbroken j.principal.strings := by
        simpa [strings] using h
  have hlabel : Opened (QualifiedColumn.mk j.label j.key).text :=
    QualifiedColumn.opened_text (by
      simp [QualifiedColumn.strings, label, hkey, unbroken_given hrole htable])
  have hprincipal := QualifiedColumn.opened_text hprincipal
  have htable := opened_bracketed htable
  delta text
  simp only [toString_text]
  split
  · repeat' with_reducible apply Opened.append
    all_goals first | with_reducible assumption | exact opened_ofList (by simp)
  · repeat' with_reducible apply Opened.append
    all_goals first | with_reducible assumption | exact opened_ofList (by simp)
  · rename_i role _ hsome
    have hrole := opened_bracketed (hrole role hsome)
    repeat' with_reducible apply Opened.append
    all_goals first | with_reducible assumption | exact opened_ofList (by simp)

theorem ResultColumn.opened_selection {r : ResultColumn} (h : AllUnbroken r.strings) :
    Opened r.selection := by
  have hname := opened_bracketed (h r.name (by simp [strings]))
  have htable := opened_bracketed (h r.sourceTable (by simp [strings]))
  have hcolumn := opened_bracketed (h r.sourceColumn (by simp [strings]))
  delta selection
  simp only [toString_text]
  split
  · repeat' with_reducible apply Opened.append
    all_goals first | with_reducible assumption | exact opened_ofList (by simp)
  · repeat' with_reducible apply Opened.append
    all_goals first | with_reducible assumption | exact opened_ofList (by simp)

namespace Statement
variable {table : String} {cells : List Assignment} {conditions : List Condition}

theorem opened_insert (h : AllUnbroken (insert table cells).strings) :
    Opened (insert table cells).text := by
  obtain ⟨htable, hcells⟩ : Unbroken table ∧ ∀ a ∈ cells, AllUnbroken a.strings := by
    simpa [strings] using h
  have htable := opened_bracketed htable
  have hcolumns := opened_intercalate (s := ", ") (opened_ofList (by decide))
    (List.forall_mem_map.mpr fun a ha =>
      opened_bracketed (hcells a ha a.column (by simp [Assignment.strings])))
  have hvalues := opened_intercalate (s := ", ") (opened_ofList (by decide))
    (List.forall_mem_map.mpr fun a ha =>
      opened_parameterName (hcells a ha a.parameter (by simp [Assignment.strings])))
  cases cells with
  | nil =>
    delta text
    simp only [toString_text]
    repeat' with_reducible apply Opened.append
    all_goals first | with_reducible assumption | exact opened_ofList (by simp)
  | cons cell cells =>
    delta text
    simp only [toString_text]
    repeat' with_reducible apply Opened.append
    all_goals first | with_reducible assumption | exact opened_ofList (by simp)

theorem opened_update (h : AllUnbroken (update table cells conditions).strings) :
    Opened (update table cells conditions).text := by
  obtain ⟨htable, hcells, hconditions⟩ : Unbroken table ∧ (∀ a ∈ cells, AllUnbroken a.strings) ∧
      ∀ c ∈ conditions, AllUnbroken c.strings := by simpa [strings] using h
  have htable := opened_bracketed htable
  have hcells := opened_intercalate (s := ",\n") (opened_ofList (by decide))
    (List.forall_mem_map.mpr fun a ha => Assignment.opened_text (hcells a ha))
  have hconditions := opened_whereText hconditions
  delta text
  simp only [toString_text]
  repeat' with_reducible apply Opened.append
  all_goals first | with_reducible assumption | exact opened_ofList (by simp)

theorem opened_delete (h : AllUnbroken (delete table conditions).strings) :
    Opened (delete table conditions).text := by
  obtain ⟨htable, hconditions⟩ : Unbroken table ∧ ∀ c ∈ conditions, AllUnbroken c.strings := by
    simpa [strings] using h
  have htable := opened_bracketed htable
  have hconditions := opened_whereText hconditions
  delta text
  simp only [toString_text]
  repeat' with_reducible apply Opened.append
  all_goals first | with_reducible assumption | exact opened_ofList (by simp)

theorem opened_select {columns : ResultSet} {joins : List Join}
    (h : AllUnbroken (select table columns joins conditions).strings) :
    Opened (select table columns joins conditions).text := by
  obtain ⟨htable, hcolumns, hjoins, hconditions⟩ : Unbroken table ∧
      (∀ r ∈ columns, AllUnbroken r.strings) ∧ (∀ j ∈ joins, AllUnbroken j.strings) ∧
      ∀ c ∈ conditions, AllUnbroken c.strings := by simpa [strings] using h
  have htable := opened_bracketed htable
  have hcolumns := opened_intercalate (s := ",\n") (opened_ofList (by decide))
    (List.forall_mem_map.mpr fun r hr => ResultColumn.opened_selection (hcolumns r hr))
  have hjoins := opened_join (List.forall_mem_map.mpr fun j hj =>
    (show Opened "\n" from opened_ofList (by decide)).append (Join.opened_text (hjoins j hj)))
  have hconditions := opened_whereText hconditions
  delta text
  simp only [toString_text]
  repeat' with_reducible apply Opened.append
  all_goals first | with_reducible assumption | exact opened_ofList (by simp)

theorem opened_text {s : Statement} (h : AllUnbroken s.strings) : Opened s.text := by
  cases s with
  | insert table cells => exact opened_insert h
  | storeIdentity parameter =>
    have hparameter := opened_parameterName (h parameter (by simp [strings]))
    delta text
    simp only [toString_text]
    repeat' with_reducible apply Opened.append
    all_goals first | with_reducible assumption | exact opened_ofList (by simp)
  | update table cells conditions => exact opened_update h
  | delete table conditions => exact opened_delete h
  | select table columns joins conditions => exact opened_select h
  | detach u | attach u =>
    have htable := opened_bracketed (h u.table (by simp [strings, RelationshipUpdate.strings]))
    have hkey := opened_bracketed (h u.key (by simp [strings, RelationshipUpdate.strings]))
    have hidentity :=
      opened_bracketed (h u.identity (by simp [strings, RelationshipUpdate.strings]))
    have hprincipal :=
      opened_parameterName (h u.principalParameter (by simp [strings, RelationshipUpdate.strings]))
    have hcolumn :=
      opened_bracketed (h u.valueColumn (by simp [strings, RelationshipUpdate.strings]))
    have hvalues :=
      opened_parameterName (h u.valuesParameter (by simp [strings, RelationshipUpdate.strings]))
    delta text
    simp only [toString_text]
    repeat' with_reducible apply Opened.append
    all_goals first | with_reducible assumption | exact opened_ofList (by simp)

end Statement

end Schemata
