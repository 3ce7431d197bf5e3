import Schemata.Text.UpperCase
import Schemata.Model.Identity
import Schemata.Schema.Table

/-!
# Names of derived objects

Every derived object takes its name from the model element it comes from. A naming can put texts
around the names of one kind.
-/
namespace Schemata
open Text

inductive NameKind where
  | table
  | column
  | foreignKeyColumn
  | parameter
  | columnAlias
  | primaryKey
  | foreignKey
  | simpleTableType
  | simpleTableTypeColumn
  | complexTableType
  | procedure
  deriving DecidableEq, Repr

structure Affix where
  before : String := ""
  after : String := ""
  deriving DecidableEq, Repr

structure Naming where
  dialect : Dialect
  affixes : List (NameKind × Affix) := []
  deriving DecidableEq, Repr

namespace Naming

def affixed (n : Naming) (kind : NameKind) (name : String) : String :=
  match n.affixes.lookup kind with
  | some affix => affix.before ++ name ++ affix.after
  | none => name

def tableName (n : Naming) (c : Classifier) : String := n.affixed .table c.name

def columnName (n : Naming) (p : Property) : String := n.affixed .column p.name

/-- The column of a reference is told apart from the attribute that it realizes. -/
def foreignKeyColumnName (n : Naming) (p : Property) : String :=
  n.affixed .foreignKeyColumn (p.name ++ "Id")

/-- The name of a parameter for a column, or on SQL Server for a table of its values. -/
def parameterName (n : Naming) (column : String) (isMany : Bool) : String :=
  let name := if n.dialect = .sqlServer ∧ isMany then column ++ "Table" else column
  n.affixed .parameter name

def columnAlias (n : Naming) (table column : String) : String :=
  n.affixed .columnAlias s!"{table}_{column}"

def primaryKeyName (n : Naming) (c : Classifier) : String := n.affixed .primaryKey s!"PK_{c.name}"

/-- A foreign key is named after the owner of the identity it refers to and the property that
refers. -/
def foreignKeyName (n : Naming) (m : Model) (source referenced : Property) : Except Fault String :=
  match referenced.owner with
  | some (.classifier c) =>
    let dependent := if source.name = "" then m.typeName source else source.name
    let principal := (m.classifier c).name
    .ok (n.affixed .foreignKey s!"FK_{principal}_{dependent}")
  | _ => .error (.unownedIdentity referenced.name)

def simpleTableTypeName (n : Naming) (sqlType : String) : String :=
  n.affixed .simpleTableType (capitalized sqlType ++ "Table")

def simpleTableTypeColumnName (n : Naming) : String := n.affixed .simpleTableTypeColumn "Value"

def complexTableTypeName (n : Naming) (c : Classifier) : String :=
  n.affixed .complexTableType s!"TT_{c.name}"

end Naming

end Schemata
