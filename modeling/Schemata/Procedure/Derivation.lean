import Schemata.Procedure.Basic
import Schemata.Schema.TableType

/-!
# Procedures of tables

Tables get procedures that insert a row, and that update, select or delete a row by its identity.
Insertion and update come with one further procedure for each one-to-many relationship, which
replaces the set of rows that refer to a row. Of procedures with one name the first is kept.
-/
namespace Schemata

/-- Where a table type for identities of another SQL type comes from. -/
inductive TableTypeSource where
  | nowhere
  | fixed (tableType : TableRef)
  /-- It is looked up by name, and created if there is none. -/
  | database (options : Options)

structure ProcedureRules where
  naming : Naming
  /-- The table type for lists of identities. -/
  identityType : TableRef
  source : TableTypeSource := .nowhere

/-- Procedures under construction, with the table types created for them. -/
structure ProcedureDraft where
  catalog : Catalog
  tableTypes : List TableRef := []
  procedures : List Procedure := []
  deriving DecidableEq, Repr

/-- The table type for the values of a column, created if there is none of its name. -/
def Options.simpleTableTypeFor (o : Options) (m : Model) (d : ProcedureDraft) (column : ColumnRef) :
    Logged (TableRef × ProcedureDraft) := do
  let column := d.catalog.column column
  let type := (column.source.bind fun source => (m.property source).type).getD o.identityType
  let table ← o.simpleTableType type column.sqlType
  match d.tableTypes.find? fun t => (d.catalog.table t).name == table.name with
  | some t => return (t, d)
  | none => do
    Logged.note (.tableTypeAdded table.name)
    let (t, catalog) := d.catalog.add table
    return (t, { d with catalog, tableTypes := d.tableTypes ++ [t] })

namespace ProcedureRules

def listType (rules : ProcedureRules) (m : Model) (d : ProcedureDraft) (identity : ColumnRef) :
    Logged (TableRef × ProcedureDraft) := do
  let sqlType := (d.catalog.column identity).sqlType
  let table := d.catalog.table rules.identityType
  if table.columns.head?.any fun column => column.sqlType == sqlType then
    return (rules.identityType, d)
  else
    match rules.source with
    | .fixed t => return (t, d)
    | .database o => o.simpleTableTypeFor m d identity
    | .nowhere => do
      Logged.note (.tableTypeMismatch table.name sqlType (d.catalog.table identity.table).name
        (d.catalog.column identity).name)
      return (rules.identityType, d)

def listParameter (rules : ProcedureRules) (m : Model) (d : ProcedureDraft) (identity : ColumnRef)
    (index : Int) : Logged (Parameter × ProcedureDraft) := do
  let (t, d) ← rules.listType m d identity
  let tableType := d.catalog.table t
  let column := (d.catalog.column identity).name
  return (
    { name := rules.naming.parameterName column true
      index
      sqlType := tableType.name
      column := some column
      modelType := tableType.source.map fun source => (m.classifier source).name
      isReadOnly := true
      isTableValued := true
      isMany := true
      tableType := some t }, d)

def procedure (rules : ProcedureRules) (m : Model) (c : Catalog) (query : QueryKind)
    (table : TableRef) (model : ClassifierRef) (parameters : List Parameter)
    (dependent : Option ColumnRef) :
    Except Fault Procedure := do
  let name ← rules.naming.procedureName m c query model dependent
  return { name, query, model := some model, table, parameters, dependent }

end ProcedureRules

namespace ProcedureDraft

def find? (d : ProcedureDraft) (name : String) : Option Procedure :=
  d.procedures.find? fun p => p.name == name

/-- Adds a procedure unless its name is taken; says whether it was added. -/
def add (d : ProcedureDraft) (p : Procedure) : Logged (Bool × ProcedureDraft) := do
  if (d.find? p.name).isSome then do
    Logged.note (.procedureRepeated p.name)
    return (false, d)
  else return (true, { d with procedures := d.procedures ++ [p] })

def requireIdentity (d : ProcedureDraft) (t : TableRef) (query : QueryKind) : Logged Bool := do
  let table := d.catalog.table t
  if table.identityColumn?.isSome then return true
  else do
    Logged.note (.tableWithoutIdentity query.word table.name)
    return false

/-- Adds the procedure that replaces the rows that refer to a row. The same procedure may be asked
for more than once. -/
def addRelationshipUpdate (rules : ProcedureRules) (m : Model) (t : TableRef)
    (model : ClassifierRef) (d : ProcedureDraft) (key : ColumnRef) : Logged ProcedureDraft := do
  let dependent := (d.catalog.table key.table).name
  let column := (d.catalog.column key).name
  let table := d.catalog.table t
  match identityParameter? rules.naming m table 0, d.catalog.identity? key.table with
  | none, _ => do
    Logged.note (.principalWithoutIdentity dependent column table.name)
    return d
  | some _, none => do
    Logged.note (.dependentWithoutIdentity dependent column)
    return d
  | some principal, some identity => do
    let (values, d) ← rules.listParameter m d identity 1
    let p ← rules.procedure m d.catalog .updateRelationship t model [principal, values] (some key)
    if (d.find? p.name).any fun existing => existing.dependent == some key then return d
    else return (← d.add p).2

/-- Adds a procedure that writes rows and, if it is new, those for the relationships of its
table. -/
def addWriter (rules : ProcedureRules) (m : Model) (d : ProcedureDraft) (p : Procedure)
    (t : TableRef) (model : ClassifierRef) : Logged ProcedureDraft := do
  let (added, d) ← d.add p
  if added then
    (ResultSet.relationshipKeys d.catalog (d.catalog.table t)).foldlM
      (addRelationshipUpdate rules m t model) d
  else return d

/-- Adds a procedure that inserts a row and returns the identity that the database gave it. -/
def addInsert (rules : ProcedureRules) (m : Model) (d : ProcedureDraft) (t : TableRef)
    (model : ClassifierRef) : Logged ProcedureDraft := do
  let options : ParameterOptions := { identityAsOutput := true }
  let parameters ← options.parameters rules.naming m (d.catalog.table t) fun _ => true
  let p ← rules.procedure m d.catalog .insert t model parameters none
  d.addWriter rules m p t model

def addUpdate (rules : ProcedureRules) (m : Model) (d : ProcedureDraft) (t : TableRef)
    (model : ClassifierRef) : Logged ProcedureDraft := do
  if ← d.requireIdentity t .update then
    let options : ParameterOptions := { identityAsFilter := true }
    let parameters ← options.parameters rules.naming m (d.catalog.table t) fun _ => true
    let p ← rules.procedure m d.catalog .update t model parameters none
    d.addWriter rules m p t model
  else return d

def identityFilters (rules : ProcedureRules) (m : Model) (d : ProcedureDraft) (t : TableRef) :
    Logged (List Parameter) :=
  let options : ParameterOptions := { includeOther := false, identityAsFilter := true }
  options.parameters rules.naming m (d.catalog.table t) fun _ => true

def addDelete (rules : ProcedureRules) (m : Model) (d : ProcedureDraft) (t : TableRef)
    (model : ClassifierRef) : Logged ProcedureDraft := do
  if ← d.requireIdentity t .delete then
    let p ← rules.procedure m d.catalog .delete t model (← d.identityFilters rules m t) none
    return (← d.add p).2
  else return d

def addSelect (rules : ProcedureRules) (m : Model) (d : ProcedureDraft) (t : TableRef)
    (model : ClassifierRef) : Logged ProcedureDraft := do
  if ← d.requireIdentity t .selectSingle then
    let p ← rules.procedure m d.catalog .selectSingle t model (← d.identityFilters rules m t) none
    let columns :=
      ResultSet.ofTable rules.naming m d.catalog (d.catalog.table t) fun _ => true
    return (← d.add { p with resultSets := [columns] }).2
  else return d

def addKind (rules : ProcedureRules) (m : Model) (t : TableRef) (model : ClassifierRef)
    (d : ProcedureDraft) (kind : ProcedureKind) : Logged ProcedureDraft :=
  match kind with
  | .insert => d.addInsert rules m t model
  | .updateById => d.addUpdate rules m t model
  | .selectById => d.addSelect rules m t model
  | .deleteById => d.addDelete rules m t model

/-- Adds the selected procedures of a table; a table without a classifier has none. -/
def addTable (rules : ProcedureRules) (m : Model) (selection : ProcedureSelection)
    (d : ProcedureDraft) (t : TableRef) : Logged ProcedureDraft := do
  let table := d.catalog.table t
  match table.source with
  | none => return d
  | some model =>
    if table.dialect ≠ .sqlServer then Logged.fail .unsuitedTable
    else
      let selected := selection.kinds.filter fun (_, selectors) =>
        ProcedureSelection.selects selectors m model table
      (selected.map (·.1)).foldlM (addKind rules m t model) d

end ProcedureDraft

def Options.createProcedures (o : Options) (m : Model) (identityType : TableRef)
    (tables : List TableRef) (d : ProcedureDraft) : Progress ProcedureDraft :=
  let rules : ProcedureRules := { naming := o.naming, identityType, source := .database o }
  .walk (ProcedureDraft.addTable rules m o.procedures) d tables

end Schemata
