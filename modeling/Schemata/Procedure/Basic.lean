import Schemata.Procedure.Parameter
import Schemata.Procedure.Statement

/-!
# Procedures

A procedure performs one query on a table. Its body follows from its parameters: filters restrict,
the other inputs are written.
-/
namespace Schemata
open Text

structure Procedure where
  name : String
  query : QueryKind
  /-- The classifier the procedure is named for. -/
  model : Option ClassifierRef := none
  table : TableRef
  parameters : List Parameter := []
  resultSets : List ResultSet := []
  /-- The foreign key that a relationship update sets. -/
  dependent : Option ColumnRef := none
  deriving DecidableEq, Repr

namespace Procedure

def inputs (p : Procedure) : List Parameter := p.parameters.filter Parameter.isInput

def filters (p : Procedure) : List Parameter := p.inputs.filter (·.isFilter)

/-- The restriction by a parameter; without a table and a column of its own it is read as one of the
procedure's table. -/
def condition (table : String) (q : Parameter) : Condition :=
  { column := ⟨given q.table table, given q.column q.name⟩
    parameter := q.name
    isOptional := q.isNullable }

/-- The writing of a parameter into its column, if it has one. -/
def assignment? (q : Parameter) : Option Assignment :=
  match q.column with
  | some "" | none => none
  | some column => some ⟨column, q.name⟩

def insertBody (p : Procedure) (c : Catalog) : List Statement :=
  let outputs := p.parameters.filter fun q => q.isIdentity && q.direction == .output
  .insert (c.table p.table).name (p.inputs.filterMap assignment?) ::
    outputs.map fun q => .storeIdentity q.name

/-- Without anything to write there is no statement. -/
def updateBody (p : Procedure) (c : Catalog) : List Statement :=
  let table := (c.table p.table).name
  let cells := (p.inputs.filter fun q => !q.isFilter).filterMap assignment?
  if cells.isEmpty then [] else [.update table cells (p.filters.map (condition table))]

def deleteBody (p : Procedure) (c : Catalog) : List Statement :=
  let table := (c.table p.table).name
  [.delete table (p.filters.map (condition table))]

def joins (c : Catalog) (table : Table) : List Join :=
  match table.identityColumn? with
  | none => []
  | some identity =>
    (ResultSet.relationshipKeys c table).map fun key =>
      { table := (c.table key.table).name
        role := (c.column key).role
        key := (c.column key).name
        principal := ⟨table.name, identity.name⟩ }

def selectBody (p : Procedure) (c : Catalog) : Logged (List Statement) :=
  match p.resultSets with
  | [] => do
    Logged.note (.noResultSet p.name)
    return []
  | columns :: _ =>
    let table := c.table p.table
    let conditions := (p.parameters.filter (·.isFilter)).map (condition table.name)
    return [.select table.name columns (joins c table) conditions]

/-- The first column of the table type of a parameter. -/
def valueColumn? (c : Catalog) (q : Parameter) : Option Column :=
  q.tableType.bind fun t => (c.table t).columns.head?

def relationshipBody (p : Procedure) (c : Catalog) : Logged (List Statement) := do
  match p.dependent with
  | none => Logged.fail (.relationshipWithoutColumn p.name)
  | some key =>
    let table := c.table key.table
    let column := (c.column key).name
    match table.identityColumn?, p.parameters.find? (·.isIdentity),
      p.parameters.find? (·.isTableValued) with
    | some identity, some principal, some values =>
      match valueColumn? c values with
      | some value =>
        let update : RelationshipUpdate :=
          { table := table.name
            key := column
            identity := identity.name
            principalParameter := principal.name
            valueColumn := value.name
            valuesParameter := values.name }
        return [.detach update, .attach update]
      | none => do
        Logged.note (.tableTypeInvalid table.name column values.name)
        return []
    | _, _, _ => do
      Logged.note (.relationshipUnknown table.name column)
      return []

def body (p : Procedure) (c : Catalog) : Logged (List Statement) :=
  match p.query with
  | .insert => return p.insertBody c
  | .update => return p.updateBody c
  | .delete => return p.deleteBody c
  | .selectSingle => p.selectBody c
  | .updateRelationship => p.relationshipBody c

def header (p : Procedure) : String :=
  let parameters :=
    if p.parameters.isEmpty then ""
    else " (\n" ++ ",\n".intercalate (p.parameters.map Parameter.text) ++ "\n)"
  s!"CREATE PROCEDURE {bracketed p.name}{parameters}"

def create (p : Procedure) (c : Catalog) : Logged String := do
  let body ← p.body c
  return "\n".intercalate
    ([p.header, "AS", "BEGIN", "SET NOCOUNT ON;"] ++ body.map Statement.text ++ ["END;"])

def dropIfExists (p : Procedure) : String :=
  s!"IF OBJECT_ID({literal p.name}, 'P') IS NOT NULL DROP PROCEDURE {bracketed p.name};"

end Procedure

end Schemata
