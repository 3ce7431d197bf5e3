import Schemata.Proofs.Document.Written
import Schemata.Proofs.Procedure.ById

/-!
# Columns that an insertion writes

A procedure that inserts a row writes each own column of its table that the database does not
generate, that is no mere foreign key of a one-to-many relationship, and whose attribute has a type.
The rows at the other end of such a relationship are set by a procedure of their own.
-/
namespace Schemata
open Text

def Statement.Inserts (s : Statement) (table column parameter : String) : Prop :=
  ∃ cells, s = .insert table cells ∧ ⟨column, parameter⟩ ∈ cells ∧
    let columns := ", ".intercalate (cells.map fun a => bracketed a.column)
    let values := ", ".intercalate (cells.map fun a => parameterName a.parameter)
    s.text = s!"INSERT INTO {bracketed table} ({columns})\nVALUES ({values});"

/-- The first statement inserts a row whose column has the value of an input. -/
def Procedure.Writes (p : Procedure) (c : Catalog) (column : Column) : Prop :=
  ∃ q ∈ p.parameters, q.direction = .input ∧ q.StandsFor (c.table p.table).name column ∧
    ∃ s further, (p.body c).value = .ok (s :: further) ∧
      s.Inserts (c.table p.table).name column.name q.name

theorem inserts_of_mem {table column parameter : String} {cells : List Assignment}
    (h : ⟨column, parameter⟩ ∈ cells) :
    (Statement.insert table cells).Inserts table column parameter := by
  refine ⟨cells, rfl, h, ?_⟩
  cases cells with
  | nil => cases h
  | cons cell rest => rfl

namespace Procedure

variable {p : Procedure} {c : Catalog} {q : Parameter} {column : Column}

theorem assignment?_of_column {name : String} (hq : q.column = some name) (named : name ≠ "") :
    assignment? q = some ⟨name, q.name⟩ := by
  rw [assignment?, hq]
  split
  · rename_i e
    exact absurd (Option.some.inj e) named
  · rename_i e
    cases e
  · rename_i e
    rw [Option.some.inj e]

theorem writes_of_input (insert : p.query = .insert) (hq : q ∈ p.parameters)
    (input : q.direction = .input) (stands : q.StandsFor (c.table p.table).name column)
    (named : column.name ≠ "") : p.Writes c column := by
  have hinput : q ∈ p.inputs := List.mem_filter.mpr ⟨hq, by simp [Parameter.isInput, input]⟩
  have hcell := List.mem_filterMap.mpr ⟨q, hinput, assignment?_of_column stands.2.1 named⟩
  have hbody : (p.body c).value = .ok (p.insertBody c) := by
    rw [body, insert]
    rfl
  exact ⟨q, hq, input, stands, _, _, hbody, inserts_of_mem hcell⟩

theorem Origin.inserts {n : Naming} {m : Model} {t : TableRef} (origin : p.Origin n m c t)
    (insert : p.query = .insert) : p.table = t ∧
      (ParameterOptions.parameters { identityAsOutput := true } n m (c.table t) fun _ =>
        true).value = .ok p.parameters := by
  cases origin with
  | insert columns => exact ⟨rfl, columns⟩
  | update => cases insert
  | delete => cases insert
  | select => cases insert
  | relationship => cases insert

end Procedure

namespace ParameterOptions

variable {options : ParameterOptions} {n : Naming} {m : Model} {table : Table}
  {parameters : List Parameter} {q : Parameter} {column : Column} {source : PropertyRef}

theorem mem_parameters (ok : (options.parameters n m table fun _ => true).value = .ok parameters)
    {x : Parameter} : x ∈ parameters.map Parameter.unnumbered ↔
      ∃ column ∈ table.columns, options.includes column = true ∧
        (options.parameterOf? n m table.name column).map Parameter.unnumbered = some x := by
  rw [parameters_value] at ok
  obtain rfl := Except.ok.inj ok
  rw [mem_sortParameters]
  simp only [List.mem_map, List.mem_filterMap, select, Bool.true_and, List.mem_filter,
    Option.map_eq_some_iff]
  constructor
  · rintro ⟨q, ⟨column, ⟨hc, hi⟩, hq⟩, rfl⟩
    exact ⟨column, hc, hi, q, hq, rfl⟩
  · rintro ⟨column, hc, hi, q, hq, rfl⟩
    exact ⟨q, ⟨column, ⟨hc, hi⟩, hq⟩, rfl⟩

theorem exists_parameter (ok : (options.parameters n m table fun _ => true).value = .ok parameters)
    (hc : column ∈ table.columns) (included : options.includes column = true)
    (single : column.isMany = false) (hs : column.source = some source)
    (typed : (m.property source).type.isSome = true) :
    ∃ q ∈ parameters,
      q.unnumbered = (options.parameter n m table.name column source).unnumbered := by
  have hq : options.parameterOf? n m table.name column =
      some (options.parameter n m table.name column source) := by
    simp [parameterOf?, single, hs, typed]
  have hm := (mem_parameters ok).mpr ⟨column, hc, included, by rw [hq]; rfl⟩
  exact List.mem_map.mp hm

theorem standsFor_of_mem (ok : (options.parameters n m table fun _ => true).value = .ok parameters)
    (hq : q ∈ parameters) :
    ∃ column ∈ table.columns, column.isMany = false ∧ q.StandsFor table.name column := by
  obtain ⟨column, hc, _, h⟩ := (mem_parameters ok).mp (List.mem_map_of_mem hq)
  obtain ⟨q', hq', e⟩ := Option.map_eq_some_iff.mp h
  obtain ⟨single, source, hs, rfl⟩ := parameterOf?_eq_some hq'
  exact ⟨column, hc, single, Procedure.standsFor_of_unnumbered hs e.symm⟩

end ParameterOptions

namespace Options

variable {o : Options} {m : Model} {map : RelationshipMap} {c : Catalog} {db : Database}
  {definition : TableRef → TableDefinition} {p : Procedure}

/-- Only the columns of relationships can be without a name. -/
theorem Made.named {definition : TableDefinition} {table : Table} {s : ClassifierRef}
    {own further : List DerivedColumn} (made : o.Made m map definition table s own further)
    {column : Column} (hc : column ∈ table.columns) (single : column.isMany = false) :
    column.name ≠ "" := by
  obtain ⟨i, hi⟩ := List.mem_iff_getElem?.mp hc
  obtain ⟨d, hd, rfl⟩ := made.column hi
  rcases List.mem_append.mp (List.mem_of_getElem? hd) with hd | hd
  · obtain ⟨p, _, d₀, hbears, isIdentity, rfl, _⟩ := made.defines.mem_own hd
    cases hbears with
    | reference => exact affixed_ne_empty o.naming .foreignKeyColumn (by simp)
    | value _ named => exact affixed_ne_empty o.naming .column named
  · rw [made.defines.isMany_further hd] at single
    cases single

theorem Completed.writes (h : o.Completed m map db c definition) (hp : p ∈ db.procedures)
    (insert : p.query = .insert) :
    p.table ∈ db.tables ∧
      (∀ column ∈ (c.table p.table).columns, column.isMany = false →
        column.isAutoIncrement = false →
        (∃ source, column.source = some source ∧ (m.property source).type.isSome = true) →
          p.Writes c column) ∧
      ∀ q ∈ p.parameters, ∃ column ∈ (c.table p.table).columns, column.isMany = false ∧
        q.StandsFor (c.table p.table).name column := by
  obtain ⟨t, ht, origin⟩ := h.procedures p hp
  obtain ⟨rfl, hparameters⟩ := origin.inserts insert
  obtain ⟨s, own, further, made⟩ := h.derived.made ht
  refine ⟨ht, fun column hc single generated typed => ?_,
    fun q hq => ParameterOptions.standsFor_of_mem hparameters hq⟩
  obtain ⟨source, hs, typed⟩ := typed
  obtain ⟨q, hq, e⟩ :=
    ParameterOptions.exists_parameter hparameters hc (by simp [ParameterOptions.includes])
    single hs typed
  have input : q.direction = .input := by
    refine (congrArg Parameter.direction e).trans ?_
    simp [Parameter.unnumbered, ParameterOptions.parameter, generated]
  exact Procedure.writes_of_input insert hq input (Procedure.standsFor_of_unnumbered hs e)
    (made.named hc single)

/-- A derived procedure that inserts a row writes every column of its table that the database does
not generate, that is not the foreign key of a one-to-many relationship, and whose attribute has a
type. It has no parameters for the foreign keys of one-to-many relationships. -/
theorem build_writes (o : Options) (sqlServer : o.dialect = .sqlServer) (m : Model)
    (loaded : m.Loaded) (c : Catalog) (db : Database) (c' : Catalog)
    (h : (o.build m c).value = .ok (db, c')) (p : Procedure) (hp : p ∈ db.procedures)
    (insert : p.query = .insert) :
    p.table ∈ db.tables ∧
      (∀ column ∈ (c'.table p.table).columns, column.isMany = false →
        column.isAutoIncrement = false →
        (∃ source, column.source = some source ∧ (m.property source).type.isSome = true) →
          p.Writes c' column) ∧
      ∀ q ∈ p.parameters, ∃ column ∈ (c'.table p.table).columns, column.isMany = false ∧
        q.StandsFor (c'.table p.table).name column := by
  rw [build_eq] at h
  obtain ⟨map, _, h⟩ := Logged.bind_eq_ok.mp h
  obtain ⟨definition, completed⟩ := buildWith_eq_ok sqlServer loaded.wellFormed.distinct h
  exact completed.writes hp insert

/-- The classifier has an attribute beside its identity, which the database generates. -/
theorem build_writes_named :
    let o := (of .sqlServer).addProcedures .insert none
    let document : ModelDocument := { name := "m", classifiers := [
      { id := "a", name := "A", attributes := [.identity "Id" "integer", .of "title" "string"] }] }
    ∃ m db c' p, Model.ofDatum document.write = .ok m ∧ (o.build m {}).value = .ok (db, c') ∧
      db.procedures = [p] ∧ p.query = .insert ∧
      p.texts c' = some ["INSERT INTO [A] ([title])\nVALUES (@title);",
        "SET @Id = SCOPE_IDENTITY();"] ∧
      p.table ∈ db.tables ∧
      (∀ column ∈ (c'.table p.table).columns, column.isMany = false →
        column.isAutoIncrement = false →
        (∃ source, column.source = some source ∧ (m.property source).type.isSome = true) →
          p.Writes c' column) ∧
      ∀ q ∈ p.parameters, ∃ column ∈ (c'.table p.table).columns, column.isMany = false ∧
        q.StandsFor (c'.table p.table).name column := by
  intro o document
  have hrun : o.observe document (fun _ db c' =>
      .ok (db.procedures.map fun p : Procedure => (p.query, p.texts c'))) =
      .ok [(QueryKind.insert,
          some ["INSERT INTO [A] ([title])\nVALUES (@title);",
            "SET @Id = SCOPE_IDENTITY();"])] := by
    decide +kernel
  obtain ⟨m, db, c', hm, hb, hrun⟩ := observe_eq_ok.mp hrun
  obtain ⟨p, hp, e⟩ := List.map_eq_singleton_iff.mp (Except.ok.inj hrun)
  have hp : db.procedures = [p] := hp
  obtain ⟨insert, hbody⟩ := Prod.mk.inj e
  exact ⟨m, db, c', p, hm, hb, hp, insert, hbody,
    build_writes o rfl m (.document hm) {} db c' hb p (by simp [hp]) insert⟩

/-- The table has two columns that are required and that the database does not generate: that of an
attribute without a type, and the foreign key of a one-to-many relationship. An insertion writes
neither. -/
theorem not_writes_required :
    let o := (of .sqlServer).addProcedures .insert none
    let document : ModelDocument := { name := "m", classifiers := [
      { id := "c", name := "C", attributes := [.identity "Id" "integer", { name := "note" }] },
      { id := "d", name := "D", attributes := [.identity "Id" "integer", .many "cs" "c"] }] }
    ∃ m db c' p, m.Loaded ∧ Model.ofDatum document.write = .ok m ∧
      (o.build m {}).value = .ok (db, c') ∧ p ∈ db.procedures ∧ p.query = .insert ∧
      ((c'.table p.table).columns.map fun column => (column.text, column.isAutoIncrement)) =
        [("[Id] [int] IDENTITY(1,1) NOT NULL", true), ("[note] [int] NOT NULL", false),
          ("[Id_cs] [int] NOT NULL", false)] ∧
      p.texts c' = some ["INSERT INTO [C] DEFAULT VALUES;", "SET @Id = SCOPE_IDENTITY();"] ∧
      ∀ column ∈ (c'.table p.table).columns, ¬ p.Writes c' column := by
  intro o document
  have hrun : o.observe document (fun _ db c' =>
      .ok (db.procedures.any fun p : Procedure => p.query = QueryKind.insert ∧
        ((c'.table p.table).columns.map fun column : Column =>
          (column.text, column.isAutoIncrement)) =
            [("[Id] [int] IDENTITY(1,1) NOT NULL", true), ("[note] [int] NOT NULL", false),
              ("[Id_cs] [int] NOT NULL", false)] ∧
        (p.body c').value.toOption =
          some [Statement.insert "C" [], Statement.storeIdentity "Id"])) =
      .ok true := by
    decide +kernel
  obtain ⟨m, db, c', hm, hb, hrun⟩ := observe_eq_ok.mp hrun
  obtain ⟨p, hp, h⟩ := List.any_eq_true.mp (Except.ok.inj hrun)
  obtain ⟨insert, hcolumns, hbody⟩ := of_decide_eq_true h
  refine ⟨m, db, c', p, .document hm, hm, hb, hp, insert, hcolumns, ?_, ?_⟩
  · rw [Procedure.texts, hbody]
    rfl
  · rintro column - ⟨q, _, _, _, s, further, hs, cells, rfl, hmem, _⟩
    rw [hs] at hbody
    have hempty := (Statement.insert.inj (List.cons.inj (Option.some.inj hbody)).1).2
    rw [hempty] at hmem
    cases hmem

end Options

end Schemata
