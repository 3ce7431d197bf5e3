import Schemata.Procedure.Derivation
import Schemata.Schema.Key

/-!
# Databases

A database holds the tables of a model in the order in which they can be created and, for SQL
Server, table types and procedures.
-/
namespace Schemata

structure Database where
  dialect : Dialect := .sqlServer
  tables : List TableRef := []
  tableTypes : List TableRef := []
  procedures : List Procedure := []
  deriving DecidableEq, Repr

namespace Database

def findTable (db : Database) (c : Catalog) (name : String) : Except Fault TableRef :=
  match db.tables.find? fun t => (c.table t).name == name with
  | some t => .ok t
  | none => .error (.noTable name)

def findTableType (db : Database) (c : Catalog) (name : String) : Except Fault TableRef :=
  match db.tableTypes.find? fun t => (c.table t).name == name with
  | some t => .ok t
  | none => .error (.noTableType name)

def findProcedure (db : Database) (name : String) : Except Fault Procedure :=
  match db.procedures.find? fun p => p.name == name with
  | some p => .ok p
  | none => .error (.noProcedure name)

/-- What the derivation of procedures starts from: none of them, and the table types there are. -/
def draft (db : Database) (c : Catalog) : ProcedureDraft :=
  { catalog := c, tableTypes := db.tableTypes }

end Database

namespace Options

def buildTables (o : Options) (m : Model) (map : RelationshipMap) (c : Catalog) :
    Logged (Database × Catalog) := do
  let (tables, c) ← o.deriveTables m map c
  return ({ dialect := o.factory.database, tables }, c)

/-- Adds keys, table types and procedures to the tables of a database. -/
def complete (o : Options) (m : Model) (map : RelationshipMap) (db : Database) (c : Catalog) :
    Logged (Database × Catalog) := do
  if db.dialect ≠ .sqlServer then Logged.fail .unsuitedDatabase
  else do
    let c ← (o.createKeys m db.tables c).completed
    let (identityType, tableTypes, c) ← o.createTableTypes m map c
    let db := { db with tableTypes }
    let d ← (o.createProcedures m identityType db.tables (db.draft c)).completed
    return ({ db with tableTypes := d.tableTypes, procedures := d.procedures }, d.catalog)

/-- Derives the database of a model and adds its tables to a catalog. -/
def build (o : Options) (m : Model) (c : Catalog) : Logged (Database × Catalog) := do
  let map ← m.relationshipMap o.convention
  let (db, c) ← o.buildTables m map c
  match o.dialect with
  | .ansi => return (db, c)
  | .sqlServer => o.complete m map db c

end Options

end Schemata
