import Schemata.Procedure.Query
import Schemata.Text.Quoted

/-!
# Result sets

The rows that a selection returns: the navigable columns of a table, followed by the columns of each
table that refers to it by a one-to-many relationship, under an alias that tells the tables apart.
-/
namespace Schemata
open Text

structure ResultColumn where
  ordinal : Nat := 0
  name : String
  /-- The table or the alias that the column is selected from. -/
  sourceTable : String
  sourceColumn : String
  /-- The foreign key by which the table is joined. -/
  parentColumn : Option String := none
  isJoined : Bool := false
  isForeignKey : Bool := false
  isNullable : Bool := false
  sqlType : String
  modelType : Option String := none
  deriving DecidableEq, Repr

def ResultColumn.selection (r : ResultColumn) : String :=
  let place := s!"{bracketed r.sourceTable}.{bracketed r.sourceColumn}"
  if r.name = r.sourceColumn then place else s!"{place} AS {bracketed r.name}"

abbrev ResultSet := List ResultColumn

namespace ResultSet

/-- The result column of a column, which is joined by a foreign key if there is one. -/
def column (n : Naming) (m : Model) (table : String) (parent : Option Column) (column : Column) :
    ResultColumn :=
  { name := if parent.isSome then n.columnAlias table column.name else column.name
    sourceTable := table
    sourceColumn := column.name
    parentColumn := parent.map (·.name)
    isJoined := parent.isSome
    isForeignKey := column.isForeignKey
    isNullable := column.isNullable
    sqlType := column.sqlType
    modelType := column.source.map fun source => m.typeName (m.property source) }

/-- The columns of a table that the classifier's own attributes gave it. -/
def ownColumns (n : Naming) (m : Model) (table : Table) (filter : Column → Bool) : ResultSet :=
  (table.columns.filter fun c => filter c && c.isNavigable).map (column n m table.name none)

/-- The columns of a table that refers to another by a foreign key, without the key itself. -/
def joinedColumns (n : Naming) (m : Model) (c : Catalog) (filter : Column → Bool)
    (key : ColumnRef) :
    ResultSet :=
  let parent := c.column key
  let name := given parent.role (c.table key.table).name
  ((c.columnRefs key.table).filter fun ref => filter (c.column ref) && ref != key).map
    fun ref => column n m name (some parent) (c.column ref)

/-- The foreign keys by which one-to-many relationships of a table are realized. -/
def relationshipKeys (c : Catalog) (table : Table) : List ColumnRef :=
  table.dependents.filter fun ref => (c.column ref).isMany

def ofTable (n : Naming) (m : Model) (c : Catalog) (table : Table) (filter : Column → Bool) :
    ResultSet :=
  let joined := (relationshipKeys c table).flatMap (joinedColumns n m c filter)
  (ownColumns n m table filter ++ joined).zipIdx.map fun (r, i) => { r with ordinal := i }

end ResultSet

end Schemata
