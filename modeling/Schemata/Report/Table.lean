import Schemata.Report.Model
import Schemata.Schema.Definition
import Schemata.Schema.Derivation

/-!
# Reports on tables

Tables with their columns and keys as data, and the statements that define them. What only tables
for SQL Server have is left out of the report on any other table.
-/
namespace Schemata

def Column.report (m : Model) (column : Column) : Datum :=
  let generated := match column.dialect with
    | .ansi => []
    | .sqlServer => [("auto", Datum.flag column.isAutoIncrement)]
  .record ([
    ("name", .text column.name),
    ("sql", .text column.sqlType),
    ("length", .ofOption .text column.facets.length),
    ("precision", .ofOption .integer column.facets.precision),
    ("scale", .ofOption .integer column.facets.scale),
    ("identity", .flag column.isIdentity),
    ("required", .flag column.isRequired),
    ("fk", .flag column.isForeignKey),
    ("property", .ofOption m.propertyId column.source),
    ("pk_property", .ofOption m.propertyId column.referenced),
    ("role", .ofOption .text column.role),
    ("navigable", .flag column.isNavigable),
    ("many", .flag column.isMany),
    ("spec", .text column.text)] ++ generated)

def Key.members (key : Key) : Members := [
  ("name", .text key.name),
  ("type", .text key.kind.word),
  ("column", .text key.column),
  ("pk_table", .ofOption .text key.principalTable),
  ("pk_column", .ofOption .text key.principalColumn),
  ("cascade", .flag key.cascades)]

def Key.report (key : Key) : Datum := .record key.members

namespace Catalog

def reportPlace (c : Catalog) (ref : ColumnRef) : Datum :=
  .ofTexts [(c.table ref.table).name, (c.column ref).name]

/-- A table that need not be in the catalog itself; the columns that depend on it are. -/
def report (c : Catalog) (m : Model) (table : Table) : Datum :=
  let keys := match table.dialect with
    | .ansi => []
    | .sqlServer => [("keys", Datum.ofList Key.report table.keys)]
  .record ([
    ("name", .text table.name),
    ("type", .ofOption m.classifierId table.source),
    ("junction", .flag table.isJunction),
    ("columns", .ofList (Column.report m) table.columns),
    ("dependent", .ofList c.reportPlace table.dependents),
    ("identity", .ofOption (fun column => .text column.name) table.identityColumn?)] ++ keys)

def reportTable (c : Catalog) (m : Model) (t : TableRef) : Datum := c.report m (c.table t)

def reportDefinition (c : Catalog) (m : Model) (d : TableDefinition) : Datum :=
  let name (position : Nat) : Datum :=
    .ofOption (fun column => .text column.name) d.table.columns[position]?
  .record [
    ("table", c.report m d.table),
    ("relationships", .ofList (fun (position, principal) =>
      .list [name position, m.classifierId principal]) d.references)]

end Catalog

def Table.statements (t : Table) : Except Fault Members := do
  return [("text", .text t.text),
    ("create", .text (← t.create)),
    ("drop", .text t.dropIfExists),
    ("create_type", .text t.createType),
    ("drop_type", .text t.dropTypeIfExists)]

def Dialect.reportFacets (dialect : Dialect) (m : Model) (sqlType : String) (p : Option Property) :
    Members :=
  let facets := dialect.facets sqlType p
  let relationship := p.toList.map fun p => ("relationship", Datum.flag (m.isRelationship p))
  let isValue (c : ClassifierRef) : Datum := .flag (m.classifier c).kind.isValue
  let further := match dialect with
    | .ansi => []
    | .sqlServer =>
      ("requires_length", Datum.flag (lengthTypes.contains sqlType)) ::
        (p.bind (·.type)).toList.map fun type => ("simple", isValue type)
  [("length", .ofOption .text facets.length),
    ("precision", .ofOption .integer facets.precision),
    ("scale", .ofOption .integer facets.scale)] ++ relationship ++ further

end Schemata
