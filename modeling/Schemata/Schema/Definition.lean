import Schemata.Logged
import Schemata.Schema.Table

/-!
# Statements that define tables

The text of columns, keys and tables, and the statements that create and drop tables and table
types.
-/
namespace Schemata
open Text

/-- What follows a type: its length, or else its digits; digits that are zero are left out. -/
def SqlFacets.suffix (f : SqlFacets) : String :=
  let digits := ([f.precision, f.scale].filterMap id).filter (· ≠ 0)
  match f.length with
  | some "" | none =>
    if digits.isEmpty then "" else "(" ++ ",".intercalate (digits.map toString) ++ ")"
  | some length => s!"({length})"

/-- The type of a column with its facets; SQL Server puts the type in brackets. -/
def Column.typeText (c : Column) : String :=
  let type := match c.dialect with
    | .ansi => c.sqlType
    | .sqlServer => bracketed c.sqlType
  type ++ c.facets.suffix

def Column.text (c : Column) : String :=
  let identity := if c.isAutoIncrement then " IDENTITY(1,1)" else ""
  let required := if c.isRequired then " NOT NULL" else ""
  s!"{bracketed c.name} {c.typeText}{identity}{required}"

/-- The rule of a key; a foreign key needs the table and the column it refers to. -/
def Key.rule (k : Key) : Except Fault String :=
  match k.kind, k.principalTable, k.principalColumn with
  | .primary, _, _ => .ok s!"PRIMARY KEY CLUSTERED ({bracketed k.column})"
  | .foreign, some table, some column =>
    let cascade := if k.cascades then " ON DELETE CASCADE" else ""
    .ok (s!"FOREIGN KEY ({bracketed k.column}) " ++
      s!"REFERENCES {bracketed table} ({bracketed column}){cascade}")
  | .foreign, _, _ => .error .incompleteForeignKey

def Key.text (k : Key) : Except Fault String := do
  return s!"CONSTRAINT {bracketed k.name} {← k.rule}"

namespace Table

def text (t : Table) : String := bracketed t.name

/-- The lines of a definition, one for each part. -/
def definition (parts : List String) : String := "(\n" ++ ",\n".intercalate parts ++ "\n)"

def create (t : Table) : Except Fault String := do
  let keys ← t.keys.mapM Key.text
  return s!"CREATE TABLE {t.text} {definition (t.columns.map Column.text ++ keys)};"

def dropIfExists (t : Table) : String :=
  s!"IF OBJECT_ID({literal t.name}, 'U') IS NOT NULL DROP TABLE {t.text};"

def createType (t : Table) : String :=
  s!"CREATE TYPE {t.text} AS TABLE {definition (t.columns.map Column.text)};"

def dropTypeIfExists (t : Table) : String :=
  "IF EXISTS (SELECT * FROM sys.types WHERE is_user_defined = 1 AND name = " ++
    s!"{literal t.name}) DROP TYPE {t.text};"

end Table

end Schemata
