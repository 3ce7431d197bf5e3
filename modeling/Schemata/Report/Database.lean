import Schemata.Report.Table
import Schemata.Script.Schema

/-!
# Reports on procedures and databases

Procedures with their parameters and result sets, whole databases and their scripts, as data. A
result column is a row of values, because result sets are long.
-/
namespace Schemata

def Parameter.flags (p : Parameter) : List String :=
  [("identity", p.isIdentity), ("filter", p.isFilter), ("nullable", p.isNullable),
    ("read_only", p.isReadOnly), ("table_valued", p.isTableValued),
    ("multivalued", p.isMany)].filterMap
    fun (name, holds) => if holds then some name else none

def Parameter.members (m : Model) (c : Catalog) (p : Parameter) : Members := [
  ("name", .text p.name),
  ("index", .integer p.index),
  ("sql", .text p.sqlType),
  ("direction", .integer p.direction.code),
  ("table", .ofOption .text p.table),
  ("column", .ofOption .text p.column),
  ("object_type", .ofOption .text p.modelType),
  ("property", .ofOption m.propertyId p.property),
  ("length", .ofOption .text p.facets.length),
  ("precision", .ofOption .integer p.facets.precision),
  ("scale", .ofOption .integer p.facets.scale),
  ("flags", .ofTexts p.flags),
  ("table_type", .ofOption (fun t => .text (c.table t).name) p.tableType)]

def Parameter.report (m : Model) (c : Catalog) (p : Parameter) : Datum := .record (p.members m c)

def Parameter.reportDeclared (m : Model) (c : Catalog) (p : Parameter) : Datum :=
  .record (p.members m c ++ [("text", .text p.text)])

def ResultColumn.report (r : ResultColumn) : Datum :=
  .list [
    .integer r.ordinal,
    .text r.name,
    .text r.sourceTable,
    .text r.sourceColumn,
    .ofOption .text r.parentColumn,
    .flag r.isJoined,
    .flag r.isForeignKey,
    .flag r.isNullable,
    .text r.sqlType,
    .ofOption .text r.modelType]

def Procedure.report (m : Model) (c : Catalog) (p : Procedure) : Datum :=
  .record [
    ("name", .text p.name),
    ("query", .text p.query.word),
    ("type", .ofOption m.classifierId p.model),
    ("table", .text (c.table p.table).name),
    ("parameters", .ofList (Parameter.report m c) p.parameters),
    ("result_sets", .ofList (Datum.ofList ResultColumn.report) p.resultSets),
    ("dependent", .ofOption c.reportPlace p.dependent)]

def Procedure.statements (p : Procedure) (c : Catalog) : Logged Members := do
  return [("create", .text (← p.create c)), ("drop", .text p.dropIfExists)]

/-- A plain database has tables alone. -/
def Database.report (m : Model) (c : Catalog) (db : Database) : Datum :=
  let tables := ("tables", Datum.ofList (c.reportTable m) db.tables)
  match db.dialect with
  | .ansi => .record [tables]
  | .sqlServer =>
    .record [
      tables,
      ("table_types", .ofList (c.reportTable m) db.tableTypes),
      ("procedures", .ofList (Procedure.report m c) db.procedures)]

def Database.scripts (db : Database) (c : Catalog) (options : ScriptOptions) : Logged Members := do
  let create ← db.createBatches c options
  let schema ← db.schemaScript c options
  return [("drop", .ofOption .text (db.dropScript c options)),
    ("create", .ofTexts create),
    ("schema", .ofOption .text schema)]

def Options.selections (o : Options) : Members :=
  let filters := ("filters", Datum.integer o.filters.length)
  match o.dialect with
  | .ansi => [filters]
  | .sqlServer =>
    [filters,
      ("table_types", .integer o.tableTypes.length),
      ("procedures", .ofList (fun (kind, selectors) =>
        .list [.text kind.word, .integer selectors.length]) o.procedures.kinds)]

end Schemata
