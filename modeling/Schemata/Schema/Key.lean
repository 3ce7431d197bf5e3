import Schemata.Schema.Derivation

/-!
# Keys

A table made from a classifier has a primary key on its identity column, and a foreign key on each
column that refers to a classifier with a table.
-/
namespace Schemata
namespace Options

/-- The foreign key of a column, given the identifiers of the classifiers that have tables. -/
def foreignKey? (o : Options) (m : Model) (present : List String) (table : String)
    (column : Column) :
    Logged (Option Key) := do
  match column.source, column.referenced with
  | some source, some referenced =>
    let referenced := m.property referenced
    match referenced.owner with
    | some (.classifier principal) =>
      let classifier := m.classifier principal
      if !present.contains classifier.id then do
        Logged.note (.keyWithoutTable table column.name classifier.name)
        return none
      else do
        let name ← o.naming.foreignKeyName m (m.property source) referenced
        let identity ← m.identityProperty principal
        return some
          { name
            kind := .foreign
            column := column.name
            principalTable := some (o.naming.tableName classifier)
            principalColumn := some (o.naming.columnName (m.property identity)) }
    | _ => Logged.fail (.unownedIdentity referenced.name)
  | _, _ => do
    Logged.note (.keyWithoutIdentity table column.name)
    return none

def primaryKey (o : Options) (column : Column) (c : Classifier) : Key :=
  { name := o.naming.primaryKeyName c, kind := .primary, column := column.name }

def columnKeys (o : Options) (m : Model) (present : List String) (table : Table) (column : Column) :
    Logged (List Key) := do
  let foreign ←
    if column.isForeignKey then o.foreignKey? m present table.name column else pure none
  let primary :=
    match table.source with
    | some c => if column.isIdentity then some (o.primaryKey column (m.classifier c)) else none
    | none => none
  return foreign.toList ++ primary.toList

def tableKeys (o : Options) (m : Model) (present : List String) (table : Table) :
    Logged (List Key) := do
  return (← table.columns.mapM (o.columnKeys m present table)).flatten

/-- Gives a table its keys; only a table for SQL Server can have any. -/
def addKeys (o : Options) (m : Model) (present : List String) (c : Catalog) (t : TableRef) :
    Logged Catalog := do
  let table := c.table t
  if table.dialect ≠ .sqlServer then Logged.fail .unsuitedTable
  else do
    let keys ← o.tableKeys m present table
    return c.update t fun table => { table with keys }

/-- The identifiers of the classifiers that tables were made from. -/
def presentIds (m : Model) (c : Catalog) (tables : List TableRef) : List String :=
  tables.filterMap fun t => (c.table t).source.map fun source => (m.classifier source).id

def createKeys (o : Options) (m : Model) (tables : List TableRef) (c : Catalog) :
    Progress Catalog :=
  .walk (o.addKeys m (presentIds m c tables)) c tables

end Options

end Schemata
