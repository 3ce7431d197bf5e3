import Schemata.Procedure.ResultSet

/-!
# Statements of procedures

The body of a procedure as structured statements, and their text. What a statement reads, writes and
compares stands in its fields, so that nothing has to be read back from the text.
-/
namespace Schemata
open Text

structure QualifiedColumn where
  table : String
  column : String
  deriving DecidableEq, Repr

def QualifiedColumn.text (q : QualifiedColumn) : String :=
  s!"{bracketed q.table}.{bracketed q.column}"

/-- A column that takes the value of a parameter. -/
structure Assignment where
  column : String
  parameter : String
  deriving DecidableEq, Repr

def Assignment.text (a : Assignment) : String :=
  s!"{bracketed a.column} = {parameterName a.parameter}"

/-- A column has the value of a parameter, or any value if an optional parameter is left out. -/
structure Condition where
  column : QualifiedColumn
  parameter : String
  isOptional : Bool := false
  deriving DecidableEq, Repr

def Condition.text (c : Condition) : String :=
  let column := c.column.text
  let parameter := parameterName c.parameter
  if c.isOptional then s!"{column} = ISNULL({parameter}, {column})" else s!"{column} = {parameter}"

/-- The table of a foreign key, joined to the table the key refers to. -/
structure Join where
  table : String
  role : Option String
  key : String
  principal : QualifiedColumn
  deriving DecidableEq, Repr

/-- The name under which the joined table's columns are selected. -/
def Join.label (j : Join) : String := given j.role j.table

def Join.text (j : Join) : String :=
  let role := match j.role with
    | some "" | none => ""
    | some role => s!" AS {bracketed role}"
  let key := QualifiedColumn.mk j.label j.key
  s!"LEFT JOIN {bracketed j.table}{role} ON {key.text} = {j.principal.text}"

/-- The rows of a table that refer to a principal are to be those whose identities a parameter
lists. -/
structure RelationshipUpdate where
  table : String
  key : String
  identity : String
  principalParameter : String
  valueColumn : String
  valuesParameter : String
  deriving DecidableEq, Repr

inductive Statement where
  | insert (table : String) (cells : List Assignment)
  /-- Stores the identity that the database gave a new row. -/
  | storeIdentity (parameter : String)
  | update (table : String) (cells : List Assignment) (conditions : List Condition)
  | delete (table : String) (conditions : List Condition)
  | select (table : String) (columns : ResultSet) (joins : List Join) (conditions : List Condition)
  /-- Deletes the rows that refer to the principal and are not listed. -/
  | detach (update : RelationshipUpdate)
  /-- Makes the listed rows refer to the principal. -/
  | attach (update : RelationshipUpdate)
  deriving DecidableEq, Repr

/-- The restriction of a statement, on a line of its own. -/
def whereText (conditions : List Condition) : String :=
  if conditions.isEmpty then ""
  else "\nWHERE " ++ " AND ".intercalate (conditions.map Condition.text)

def Statement.text : Statement → String
  | .insert table [] => s!"INSERT INTO {bracketed table} DEFAULT VALUES;"
  | .insert table cells =>
    let columns := ", ".intercalate (cells.map fun a => bracketed a.column)
    let values := ", ".intercalate (cells.map fun a => parameterName a.parameter)
    s!"INSERT INTO {bracketed table} ({columns})\nVALUES ({values});"
  | .storeIdentity parameter => s!"SET {parameterName parameter} = SCOPE_IDENTITY();"
  | .update table cells conditions =>
    let cells := ",\n".intercalate (cells.map Assignment.text)
    s!"UPDATE {bracketed table} SET\n{cells}{whereText conditions};"
  | .delete table conditions => s!"DELETE FROM {bracketed table}{whereText conditions};"
  | .select table columns joins conditions =>
    let columns := ",\n".intercalate (columns.map ResultColumn.selection)
    let joins := String.join (joins.map fun j => "\n" ++ j.text)
    s!"SELECT\n{columns}\nFROM {bracketed table}{joins}{whereText conditions};"
  | .detach u =>
    let values := s!"(SELECT {bracketed u.valueColumn} FROM {parameterName u.valuesParameter})"
    s!"DELETE {bracketed u.table} WHERE {bracketed u.key} = {parameterName u.principalParameter} " ++
      s!"AND {bracketed u.identity} NOT IN {values};"
  | .attach u =>
    let values := s!"(SELECT {bracketed u.valueColumn} FROM {parameterName u.valuesParameter})"
    s!"UPDATE {bracketed u.table} SET {bracketed u.key} = {parameterName u.principalParameter} " ++
      s!"WHERE {bracketed u.identity} IN {values};"

end Schemata
