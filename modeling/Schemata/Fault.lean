import Schemata.Text.Quoted
import Schemata.Text.Diagnostic

/-!
# Faults

Every cause for which an operation stops, with its wording and the family it belongs to. Only the
families decide which faults an operation may recover from.
-/
namespace Schemata
open Text

/-- The part of a document that names another part. -/
inductive Site where
  | classifier (id : String)
  | property (owner name : String)
  | association (id : String)
  deriving DecidableEq, Repr

def Site.describe : Site → String
  | .classifier id => s!"type {id}"
  | .property owner name => s!"attribute {owner}.{name}"
  | .association id => s!"association {id}"

/-- What a missing identity property was needed for. -/
inductive IdentityUse where
  | sqlType
  | reference
  | synthesizedColumn (table : String)
  deriving DecidableEq, Repr

def IdentityUse.describe : IdentityUse → String
  | .sqlType => "unable to determine SQL type of reference; type has no attribute with `is_id` set"
  | .reference => "type has no attribute with `is_id` set"
  | .synthesizedColumn table =>
    s!"cannot create foreign key column on table {bracketed table}; " ++
      "identity property of principal type is unknown"

/-- In the order of work: reading a document, resolving its references, looking up by name, record
classes, mapping a model to tables, procedures and statements, unsuited options. -/
inductive Fault where
  | expectedBoolean
  | expectedInteger
  | expectedText
  | expectedRecord (document : String)
  | expectedList (document : String)
  | missingMember (name : String)
  | nullMember (name : String)
  | unknownMember
  | unknownWord
  | duplicateClassifier (id : String)
  | unknownType (site : Site) (reference : String)
  | invalidUpperBound (site : Site) (upper : Int)
  | unknownAttribute (association reference : String)
  | incompleteEnd (association : String)
  | noClassifier (id : String)
  | notPrimitive (name : String)
  | noTable (name : String)
  | noTableType (name : String)
  | noProcedure (name : String)
  | notListed (kind : String)
  | notCallable (kind : String)
  | notCell (kind : String)
  | notIdentifier (setting : String)
  | takenSlot (name reason : String)
  | repeatedLiteral (name value : String)
  | literalOrder (literals listed : List String)
  | notRecordClass
  | unjoinable (kind : String)
  | unmarkable (value : String)
  | nestedCollection (field owner : String)
  | unsupportedField (field owner : String)
  | untypedProperty (property : String)
  | endlessType (classifier : String)
  | noIdentity (classifier : String) (use : IdentityUse)
  | unownedIdentity (property : String)
  | unmappedColumn (table property : String)
  | unmappedIdentityType (classifier : String)
  | cycle (tables : List String)
  | namelessClassifier (id : String)
  | missingDependent (classifier : String)
  | relationshipWithoutColumn (procedure : String)
  | incompleteForeignKey
  | unsuitedNaming
  | unsuitedColumnSpecs
  | unsuitedFactory
  | unsuitedDatabase
  | unsuitedTable
  deriving DecidableEq, Repr

inductive Family where
  | shape
  | missing
  | value
  | word
  | mapping
  | identity
  | table
  | cycle
  | lookup
  | unsuited
  | statement
  | assertion
  | endless
  | feature
  deriving DecidableEq, Repr

namespace Fault

def family : Fault → Family
  | .expectedBoolean | .expectedInteger | .expectedText | .expectedRecord _
  | .expectedList _ => .shape
  | .missingMember _ | .unknownMember => .missing
  | .nullMember _ => .value
  | .unknownWord => .word
  | .duplicateClassifier _ | .unknownType .. | .invalidUpperBound .. | .unknownAttribute ..
  | .incompleteEnd _ | .untypedProperty _ | .unownedIdentity _ | .unmappedIdentityType _
  | .namelessClassifier _ | .missingDependent _ => .mapping
  | .noClassifier _ | .notPrimitive _ | .noTable _ | .noTableType _ | .noProcedure _ => .lookup
  | .notListed _ | .notCallable _ | .notCell _ | .notIdentifier _ | .takenSlot ..
  | .repeatedLiteral .. | .literalOrder .. | .notRecordClass | .unjoinable _ | .nestedCollection ..
  | .unsupportedField .. | .unsuitedNaming | .unsuitedColumnSpecs | .unsuitedFactory
  | .unsuitedDatabase | .unsuitedTable => .unsuited
  | .endlessType _ => .endless
  | .unmarkable _ => .feature
  | .noIdentity .. => .identity
  | .unmappedColumn .. => .table
  | .cycle _ => .cycle
  | .relationshipWithoutColumn _ => .statement
  | .incompleteForeignKey => .assertion

/-- Names as a message lists them. -/
def listing (names : List String) : String := "[" ++ ", ".intercalate (names.map shown) ++ "]"

def message : Fault → String
  | .expectedBoolean => "`bool` type expects JSON `boolean` data"
  | .expectedInteger => "`int` type expects integer data as JSON `number`"
  | .expectedText => "`str` type expects JSON `string` data"
  | .expectedRecord document => s!"`type `{document}` expects JSON `object` data"
  | .expectedList document => s!"type `list[{document}]` expects JSON `array` data"
  | .missingMember name => s!"missing required property `{name}`"
  | .nullMember name => s!"required property `{name}` received `null`"
  | .unknownMember => "unrecognized fields in JSON object"
  | .unknownWord => ""
  | .duplicateClassifier id => s!"duplicate type identifier: {id}"
  | .unknownType site reference => s!"{site.describe} references unknown type: {reference}"
  | .invalidUpperBound site upper => s!"{site.describe} has invalid upper bound: {upper}"
  | .unknownAttribute association reference =>
    s!"association {association} references unknown attribute: {reference}"
  | .incompleteEnd association =>
    s!"association {association} has an end with neither attribute nor type"
  | .noClassifier id => s!"type not found in model: {id}"
  | .notPrimitive name => s!"not a primitive type: {name}"
  | .noTable name => s!"table not found: {name}"
  | .noTableType name => s!"table type not found: {name}"
  | .noProcedure name => s!"stored procedure not found: {name}"
  | .notListed kind => s!"'{kind}' object is not iterable"
  | .notCallable kind => s!"'{kind}' object is not callable"
  | .notCell kind => s!"__classcell__ must be a nonlocal cell, not <class '{kind}'>"
  | .notIdentifier setting => s!"{setting} must be identifiers"
  | .takenSlot name reason => s!"{name} slot disallowed: {reason}"
  | .repeatedLiteral name value => s!"{shown name} already defined as {value}"
  | .literalOrder literals listed =>
    s!"member order does not match _order_:\n  {listing literals}\n  {listing listed}"
  | .notRecordClass => "expected: dataclass type"
  | .unjoinable kind => s!"unsupported operand type(s) for |: '{kind}' and 'NoneType'"
  | .unmarkable value => s!"{value} has no attribute '__module__'"
  | .nestedCollection field owner =>
    s!"nested collection types are not supported in field `{field}` of class `{owner}`"
  | .unsupportedField field owner => s!"unsupported type of field `{field}` in class `{owner}`"
  | .untypedProperty property =>
    s!"unable to provide a type name for property {shown property} because it has no type"
  | .endlessType classifier => s!"the SQL type of {shown classifier} depends on itself"
  | .noIdentity classifier use => s!"type {classifier}: {use.describe}"
  | .unownedIdentity property => s!"identity property {shown property} is not owned by a type"
  | .unmappedColumn table property =>
    s!"table {bracketed table}: unable to determine SQL type of property {shown property}"
  | .unmappedIdentityType classifier =>
    s!"cannot map identity type {shown classifier} to a SQL type"
  | .cycle tables => "tables depend on each other: " ++ " -> ".intercalate (tables.map bracketed)
  | .namelessClassifier id => s!"cannot name stored procedure: model type {shown id} has no name"
  | .missingDependent classifier =>
    s!"cannot name relationship update for {shown classifier} without dependent column"
  | .relationshipWithoutColumn procedure =>
    s!"relationship update {bracketed procedure} has no dependent column"
  | .incompleteForeignKey => ""
  | .unsuitedNaming => "expected an object name provider for Microsoft SQL Server"
  | .unsuitedColumnSpecs => "expected a column spec provider for Microsoft SQL Server"
  | .unsuitedFactory => "expected an object factory for Microsoft SQL Server"
  | .unsuitedDatabase => "expected: MSSQLDatabase; got: Database"
  | .unsuitedTable => "expected: MSSQLTable"

end Fault

end Schemata
