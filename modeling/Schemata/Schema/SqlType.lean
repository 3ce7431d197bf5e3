import Schemata.Model.Identity
import Schemata.Schema.Table

/-!
# SQL types of model elements

A value classifier has a SQL type of its own. An enumeration takes the type of its base, and an
entity that of its identity property, because that is what a reference to it holds.
-/
namespace Schemata

def Dialect.sqlTypes : Dialect → List (String × String)
  | .ansi => [
    ("boolean", "boolean"), ("integer", "integer"), ("long", "bigint"), ("short", "smallint"),
    ("byte", "smallint"), ("real", "real"), ("double", "double precision"), ("decimal", "decimal"),
    ("string", "varchar"), ("date", "date"), ("time", "time"), ("dateTime", "timestamp"),
    ("binary", "varbinary"), ("object", "blob")]
  | .sqlServer => [
    ("boolean", "bit"), ("integer", "int"), ("long", "bigint"), ("short", "smallint"),
    ("byte", "tinyint"), ("real", "real"), ("double", "float"), ("decimal", "decimal"),
    ("string", "nvarchar"), ("date", "date"), ("time", "time"), ("dateTime", "datetime2"),
    ("uuid", "uniqueidentifier"), ("binary", "varbinary"), ("object", "varbinary")]

/-- How classifiers are mapped to SQL types; an entry of `overrides` wins over that of the
dialect. -/
structure SqlTypeNames where
  dialect : Dialect
  overrides : List (String × String) := []
  deriving DecidableEq, Repr

namespace SqlTypeNames

def lookup? (names : SqlTypeNames) (name : String) : Option String :=
  (names.overrides ++ names.dialect.sqlTypes).lookup name

/-- The SQL type of integers, which stands in where a model gives no type. -/
def integer (names : SqlTypeNames) : String := (names.lookup? "integer").getD ""

/-- The SQL type of a property without a type; only SQL Server assumes an integer. -/
def ofUntyped (names : SqlTypeNames) (property : Property) : Except Fault String :=
  match names.dialect with
  | .ansi => .error (.untypedProperty property.name)
  | .sqlServer => .ok names.integer

/-- The SQL type of a classifier, at most so many references away. -/
def within (names : SqlTypeNames) (m : Model) : Nat → ClassifierRef → Except Fault String
  | 0, c => .error (.endlessType (m.classifier c).label)
  | steps + 1, c =>
    let classifier := m.classifier c
    match classifier.kind with
    | .enumeration =>
      match classifier.base with
      | some base => names.within m steps base
      | none => .ok names.integer
    | .dataType | .primitive => .ok ((names.lookup? classifier.name).getD classifier.name)
    | .entity | .interface =>
      match m.identityProperty? c with
      | none => .error (.noIdentity classifier.label .sqlType)
      | some p =>
        match (m.property p).type with
        | some type => names.within m steps type
        | none => names.ofUntyped (m.property p)

/-- A chain of references that does not lead back into itself passes each classifier once. -/
def ofClassifier (names : SqlTypeNames) (m : Model) (c : ClassifierRef) : Except Fault String :=
  names.within m (m.classifiers.length + 1) c

def ofProperty (names : SqlTypeNames) (m : Model) (p : Property) : Except Fault String :=
  match p.type with
  | some type => names.ofClassifier m type
  | none => names.ofUntyped p

end SqlTypeNames

def lengthTypes : List String := ["binary", "varbinary", "char", "nchar", "varchar", "nvarchar"]

def fixedLengthTypes : List String := ["binary", "char", "nchar"]

/-- The length of a column: that of the property, one character for a single value of a fixed-length
type, and as much as the type allows otherwise. -/
def Dialect.length (dialect : Dialect) (sqlType : String) (p : Option Property) : Option String :=
  if dialect = .ansi ∨ !lengthTypes.contains sqlType then none
  else
    match p with
    | none => some "max"
    | some p =>
      match p.facets.maxLength with
      | some n => some (toString n)
      | none =>
        if !p.multiplicity.isMany ∧ fixedLengthTypes.contains sqlType then some "1" else some "max"

/-- The facets of a column; on SQL Server a decimal has 18 digits, two of them after the point,
unless the property says otherwise. -/
def Dialect.facets (dialect : Dialect) (sqlType : String) (p : Option Property) : SqlFacets :=
  let digits (own : Facets → Option Int) (fallback : Int) : Option Int :=
    if dialect = .sqlServer ∧ sqlType = "decimal" then
      some ((p.bind fun p => own p.facets).getD fallback)
    else none
  { length := dialect.length sqlType p
    precision := digits (·.precision) 18
    scale := digits (·.scale) 2 }

end Schemata
