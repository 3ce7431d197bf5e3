import Schemata.Text.Quoted
import Schemata.Text.Diagnostic

/-!
# Notices

What an operation reports while it runs, with its severity and its wording. A notice never changes a
result.
-/
namespace Schemata
open Text

inductive Severity where
  | debug
  | warning
  | error
  deriving DecidableEq, Repr

def Severity.rank : Severity → Nat
  | .debug => 0
  | .warning => 1
  | .error => 2

/-- In the order of work: models, tables, keys, table types, procedures, scripts. -/
inductive Notice where
  | identityPresent (classifier : String)
  | recordClassConverted (recordClass classifier : String)
  | untypedEnd (association : String)
  | valueType (classifier : String)
  | tableCreated (table classifier : String)
  | namelessType (id : String)
  | namelessProperty (id classifier table : String)
  | furtherIdentity (property classifier column : String)
  | columnSynthesized (dependent column principal path : String)
  | referenceDropped (table column principal : String)
  | keyWithoutIdentity (table column : String)
  | keyWithoutTable (table column principal : String)
  | valueTypeFailed (classifier reason : String)
  | valueTypeUnmapped (classifier : String)
  | tableTypeRepeated (tableType classifier : String)
  | tableTypeAdded (tableType : String)
  | procedureRepeated (procedure : String)
  | tableWithoutIdentity (query table : String)
  | principalWithoutIdentity (dependent column principal : String)
  | dependentWithoutIdentity (dependent column : String)
  | tableTypeMismatch (tableType sqlType table column : String)
  | relationshipColumnSkipped (table column : String)
  | untypedColumnSkipped (table column : String)
  | noResultSet (procedure : String)
  | relationshipUnknown (table column : String)
  | tableTypeInvalid (table column parameter : String)
  | nothingToCreate
  | scriptGenerated (tables tableTypes procedures : Nat)
  deriving DecidableEq, Repr

namespace Notice

def severity : Notice → Severity
  | .identityPresent _ | .recordClassConverted .. | .valueType _ | .tableCreated ..
  | .columnSynthesized .. | .referenceDropped .. | .keyWithoutTable .. | .tableTypeRepeated ..
  | .tableTypeAdded _ | .relationshipColumnSkipped .. | .scriptGenerated .. => .debug
  | .untypedEnd _ | .namelessType _ | .namelessProperty .. | .furtherIdentity ..
  | .keyWithoutIdentity .. | .valueTypeFailed .. | .valueTypeUnmapped _ | .procedureRepeated _
  | .tableTypeMismatch .. | .untypedColumnSkipped .. | .noResultSet _ | .nothingToCreate => .warning
  | .tableWithoutIdentity .. | .principalWithoutIdentity .. | .dependentWithoutIdentity ..
  | .relationshipUnknown .. | .tableTypeInvalid .. => .error

/-- A column of a table, both as they stand in a statement. -/
def place (table column : String) : String := s!"{bracketed table}.{bracketed column}"

def message : Notice → String
  | .identityPresent classifier => s!"type {shown classifier} already has an identity property"
  | .recordClassConverted recordClass classifier =>
    s!"converting dataclass `{recordClass}` into type {shown classifier}"
  | .untypedEnd association =>
    s!"skipping association {shown association} because a member end has no type"
  | .valueType classifier => s!"no table for value type {shown classifier}"
  | .tableCreated table classifier =>
    s!"created table {bracketed table} from type {shown classifier}"
  | .namelessType id =>
    s!"cannot build a table definition from type {shown id} because the type has no name"
  | .namelessProperty id classifier table =>
    s!"cannot create a column from property {shown id} of type {shown classifier} " ++
      s!"on table {bracketed table} because the property has no name"
  | .furtherIdentity property classifier column =>
    s!"property {shown property} of type {shown classifier} is not used as identity: " ++
      s!"column {shown column} already is"
  | .columnSynthesized dependent column principal path =>
    s!"adding column {dependent}.{column} for one-to-many relationship {principal}.{path} " ++
      s!"without navigable attribute on {dependent}"
  | .referenceDropped table column principal =>
    s!"dropping relationship of column {bracketed table}.{column}: " ++
      s!"no table for type {shown principal}"
  | .keyWithoutIdentity table column =>
    s!"no foreign key for column {place table column}: referenced identity is unknown"
  | .keyWithoutTable table column principal =>
    s!"no foreign key for column {place table column}: type {shown principal} has no table"
  | .valueTypeFailed classifier reason =>
    s!"cannot create simple table type for type {shown classifier}: {reason}"
  | .valueTypeUnmapped classifier =>
    s!"cannot create simple table type for type {shown classifier}: " ++
      "could not map this type to a SQL type"
  | .tableTypeRepeated tableType classifier =>
    s!"table type {bracketed tableType} already exists, skipping type {shown classifier}"
  | .tableTypeAdded tableType => s!"adding table type {bracketed tableType}"
  | .procedureRepeated procedure =>
    s!"not adding stored procedure {bracketed procedure}: " ++
      "a procedure with the same name already exists"
  | .tableWithoutIdentity query table =>
    s!"cannot build {query} procedure for table {bracketed table}: " ++
      "the table has no identity column"
  | .principalWithoutIdentity dependent column principal =>
    s!"cannot build procedure to update {place dependent column}: " ++
      s!"the identity column of table {bracketed principal} is unknown"
  | .dependentWithoutIdentity dependent column =>
    s!"cannot build procedure to update {place dependent column}: the table has no identity column"
  | .tableTypeMismatch tableType sqlType table column =>
    s!"table type {bracketed tableType} does not match type {sqlType} of column {place table column}"
  | .relationshipColumnSkipped table column =>
    s!"no parameter for column {place table column}: " ++
      "the column is the foreign key of a one-to-many relationship"
  | .untypedColumnSkipped table column =>
    s!"no parameter for column {place table column}: the property type is unknown"
  | .noResultSet procedure =>
    s!"skipping body of stored procedure {bracketed procedure}: there are no result sets"
  | .relationshipUnknown table column =>
    s!"cannot write query to update {place table column}: " ++
      "identity column or parameters are unknown"
  | .tableTypeInvalid table column parameter =>
    s!"cannot write query to update {place table column}: " ++
      s!"parameter {parameterName parameter} has no valid table type"
  | .nothingToCreate => "no objects to create"
  | .scriptGenerated tables tableTypes procedures =>
    s!"generated script with {tables} table(s), {tableTypes} table type(s) " ++
      s!"and {procedures} stored procedure(s)"

end Notice

end Schemata
