import Schemata.Model.Primitive
import Schemata.Relationship.End
import Schemata.Schema.Naming
import Schemata.Schema.Selection
import Schemata.Schema.SqlType

/-!
# Options of a derivation

What a derivation leaves open: the dialect, the types and names of derived objects, how association
ends are read, and what is selected. A derivation for SQL Server checks that its parts suit it.
-/
namespace Schemata

/-- The dialects of the objects that a derivation creates. -/
structure Factory where
  /-- The factory is made for SQL Server, even if it creates some plain objects. -/
  forSqlServer : Bool
  database : Dialect
  table : Dialect
  column : Dialect
  deriving DecidableEq, Repr

def Factory.of : Dialect → Factory
  | .ansi => ⟨false, .ansi, .ansi, .ansi⟩
  | .sqlServer => ⟨true, .sqlServer, .sqlServer, .sqlServer⟩

structure Options where
  dialect : Dialect
  typeNames : SqlTypeNames
  naming : Naming
  /-- The dialect whose rules give columns their facets. -/
  facets : Dialect
  factory : Factory
  convention : EndConvention := .opposite
  /-- A classifier becomes a table only if all filters hold. -/
  filters : List ClassifierFilter := []
  /-- The type of identities that are passed in lists. -/
  identityType : ClassifierRef := Primitive.integer.ref
  /-- A classifier becomes a table type if any of these holds. -/
  tableTypes : List ClassifierFilter := []
  procedures : ProcedureSelection := {}

namespace Options

def of (dialect : Dialect) : Options :=
  { dialect
    typeNames := { dialect }
    naming := { dialect }
    facets := dialect
    factory := .of dialect }

/-- A derivation for SQL Server needs names, facets and objects for SQL Server. -/
def check (o : Options) : Except Fault Unit :=
  match o.dialect with
  | .ansi => .ok ()
  | .sqlServer =>
    if o.naming.dialect ≠ .sqlServer then .error .unsuitedNaming
    else if o.facets ≠ .sqlServer then .error .unsuitedColumnSpecs
    else if !o.factory.forSqlServer then .error .unsuitedFactory
    else .ok ()

def addFilter (o : Options) (filter : ClassifierFilter) : Options :=
  { o with filters := o.filters ++ [filter] }

def addTableTypes (o : Options) (filter : ClassifierFilter) : Options :=
  { o with tableTypes := o.tableTypes ++ [filter] }

def addProcedures (o : Options) (kind : ProcedureKind) (selector : Option TableSelector) :
    Options :=
  { o with procedures := o.procedures.add kind selector }

def becomesTable (o : Options) (m : Model) (c : ClassifierRef) : Bool :=
  o.filters.all fun filter => filter m c

def becomesTableType (o : Options) (m : Model) (c : ClassifierRef) : Bool :=
  o.tableTypes.any fun filter => filter m c

theorem check_of (dialect : Dialect) : (of dialect).check = .ok () := by
  cases dialect <;> rfl

end Options

end Schemata
