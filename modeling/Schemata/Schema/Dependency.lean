import Schemata.Logged
import Schemata.Schema.Digraph
import Schemata.Schema.Table

/-!
# The order of tables

A table refers to another if the other lists one of its columns as a dependent. `sortTables` puts
every table behind the tables it refers to, or names the tables of a cycle.
-/
namespace Schemata

/-- A foreign key column and the classifier whose table it refers to. -/
structure Reference where
  column : ColumnRef
  principal : ClassifierRef
  deriving DecidableEq, Repr

namespace Catalog

/-- The first of the tables that was made from a classifier with the identifier of the principal. -/
def principalTable? (c : Catalog) (m : Model) (tables : List TableRef) (principal : ClassifierRef) :
    Option TableRef :=
  tables.find? fun t =>
    match (c.table t).source with
    | some source => (m.classifier source).id == (m.classifier principal).id
    | none => false

/-- Lists a foreign key column with the dependents of the table it refers to, if there is one. -/
def resolveReference (m : Model) (tables : List TableRef) (c : Catalog) (r : Reference) :
    Logged Catalog :=
  match c.principalTable? m tables r.principal with
  | some t => return c.addDependent t r.column
  | none => do
    Logged.note (.referenceDropped (c.table r.column.table).name (c.column r.column).name
      (m.classifier r.principal).name)
    return c

def resolveReferences (c : Catalog) (m : Model) (tables : List TableRef)
    (references : List Reference) : Logged Catalog :=
  references.foldlM (resolveReference m tables) c

/-- The table refers to the principal, which is another table. -/
def refersTo (c : Catalog) (table principal : TableRef) : Bool :=
  table != principal && (c.table principal).dependents.any fun column => column.table == table

/-- The graph of table positions. Of a table that is listed twice, the last position counts. -/
def dependencyGraph (c : Catalog) (tables : List TableRef) : Digraph where
  successors := tables.zipIdx.map fun (table, i) =>
    if (tables.drop (i + 1)).contains table then []
    else (List.range tables.length).filter fun j => tables[j]?.any (c.refersTo table)

/-- The tables in an order in which each follows those it refers to. -/
def sortTables (c : Catalog) (tables : List TableRef) : Except Fault (List TableRef) :=
  let g := c.dependencyGraph tables
  match g.findCycle with
  | [] => .ok (g.order.filterMap (tables[·]?))
  | cycle => .error (.cycle ((cycle.filterMap (tables[·]?)).map fun t => (c.table t).name))

end Catalog

end Schemata
