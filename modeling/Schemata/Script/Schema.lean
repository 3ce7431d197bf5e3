import Schemata.Database
import Schemata.Script.Batch

/-!
# Scripts

A script first drops what is there, in the reverse order of creation, and then creates table types,
tables and procedures. All but procedures go into one batch; a procedure must be the only statement
of its batch.
-/
namespace Schemata
namespace Database

def dropStatements (db : Database) (c : Catalog) (options : ScriptOptions) : List String :=
  let procedures := if options.includeProcedures then db.procedures.reverse else []
  let tableTypes := if options.includeTableTypes then db.tableTypes.reverse else []
  procedures.map Procedure.dropIfExists ++
    db.tables.reverse.map (fun t => (c.table t).dropIfExists) ++
    tableTypes.map fun t => (c.table t).dropTypeIfExists

/-- One batch that drops everything, if there is anything to drop. -/
def dropScript (db : Database) (c : Catalog) (options : ScriptOptions) : Option String :=
  let statements := db.dropStatements c options
  if statements.isEmpty then none else some ("\n".intercalate statements)

def createBatches (db : Database) (c : Catalog) (options : ScriptOptions) :
    Logged (List String) := do
  let tableTypes := if options.includeTableTypes then db.tableTypes else []
  let tables ← (db.tables.mapM fun t => (c.table t).create : Except Fault (List String))
  let statements := tableTypes.map (fun t => (c.table t).createType) ++ tables
  let procedures ←
    (if options.includeProcedures then db.procedures else []).mapM fun p => p.create c
  return (if statements.isEmpty then [] else ["\n".intercalate statements]) ++ procedures

/-- The script that creates all objects anew, if there are any. -/
def schemaScript (db : Database) (c : Catalog) (options : ScriptOptions) :
    Logged (Option String) := do
  let drop := if options.keepExisting then none else db.dropScript c options
  let batches := drop.toList ++ (← db.createBatches c options)
  if batches.isEmpty then do
    Logged.note .nothingToCreate
    return none
  else do
    Logged.note (.scriptGenerated db.tables.length db.tableTypes.length db.procedures.length)
    return some (joinBatches batches)

end Database

end Schemata
