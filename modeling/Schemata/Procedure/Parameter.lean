import Schemata.Logged
import Schemata.Procedure.Query
import Schemata.Schema.Definition

/-!
# Parameters

The columns of a table become the parameters of its procedures. Inputs come before outputs, and
within a direction parameters keep the order of their columns.
-/
namespace Schemata
open Text

inductive Direction where
  | input
  | inputOutput
  | output
  | returnValue
  deriving DecidableEq, Repr

def Direction.all : List Direction := [.input, .inputOutput, .output, .returnValue]

def Direction.code : Direction → Nat
  | .input => 0
  | .inputOutput => 1
  | .output => 2
  | .returnValue => 3

structure Parameter where
  name : String
  index : Int := 0
  /-- A SQL type, or the name of a table type. -/
  sqlType : String
  direction : Direction := .input
  table : Option String := none
  column : Option String := none
  modelType : Option String := none
  property : Option PropertyRef := none
  facets : SqlFacets := {}
  isIdentity : Bool := false
  /-- The parameter restricts the rows of a query. -/
  isFilter : Bool := false
  isNullable : Bool := false
  isReadOnly : Bool := false
  isTableValued : Bool := false
  isMany : Bool := false
  tableType : Option TableRef := none
  deriving DecidableEq, Repr

namespace Parameter

def isInput (p : Parameter) : Bool := p.direction == .input || p.direction == .inputOutput

/-- The type of a parameter; only a table type stands in brackets. -/
def typeText (p : Parameter) : String :=
  if p.isTableValued then bracketed p.sqlType else p.sqlType ++ p.facets.suffix

def text (p : Parameter) : String :=
  let nullable := if p.isNullable then " = NULL" else ""
  let output := if p.direction = .inputOutput ∨ p.direction = .output then " OUTPUT" else ""
  let readOnly := if p.isReadOnly then " READONLY" else ""
  s!"{parameterName p.name} {p.typeText}{nullable}{output}{readOnly}"

end Parameter

/-- Orders parameters by direction and numbers them. -/
def sortParameters (parameters : List Parameter) : List Parameter :=
  (Direction.all.flatMap fun d => parameters.filter fun p => p.direction = d).zipIdx.map
    fun (p, i) => { p with index := i }

structure ParameterOptions where
  includeIdentity : Bool := true
  includeOther : Bool := true
  /-- An identity that the database generates is an output. -/
  identityAsOutput : Bool := false
  /-- The identity restricts the rows of the query. -/
  identityAsFilter : Bool := false
  /-- All parameters but the identity may be left out. -/
  allowNulls : Bool := false
  deriving DecidableEq, Repr

abbrev ColumnFilter := Column → Bool

namespace ParameterOptions

def includes (options : ParameterOptions) (column : Column) : Bool :=
  if column.isIdentity then options.includeIdentity else options.includeOther

/-- The columns that a filter lets pass and that are included. -/
def select (options : ParameterOptions) (filter : ColumnFilter) (columns : List Column) :
    List Column :=
  columns.filter fun column => filter column && options.includes column

def parameter (options : ParameterOptions) (n : Naming) (m : Model) (table : String)
    (column : Column) (source : PropertyRef) : Parameter :=
  { name := n.parameterName column.name false
    sqlType := column.sqlType
    direction :=
      if options.identityAsOutput ∧ column.isAutoIncrement then .output else .input
    table := some table
    column := some column.name
    modelType := some (m.typeName (m.property source))
    property := some source
    facets := column.facets
    isIdentity := column.isIdentity
    isFilter := column.isIdentity && options.identityAsFilter
    isNullable := (options.allowNulls || column.isNullable) && !column.isIdentity }

/-- The parameter of a column. The foreign key of a one-to-many relationship has none, because the
rows it refers to are set by another procedure; neither has a column whose property has no type. -/
def parameter? (options : ParameterOptions) (n : Naming) (m : Model) (table : String)
    (column : Column) : Logged (Option Parameter) := do
  if column.isMany then do
    Logged.note (.relationshipColumnSkipped table column.name)
    return none
  else
    match column.source with
    | some source =>
      if (m.property source).type.isSome then
        return some (options.parameter n m table column source)
      else do
        Logged.note (.untypedColumnSkipped table column.name)
        return none
    | none => do
      Logged.note (.untypedColumnSkipped table column.name)
      return none

def parameters (options : ParameterOptions) (n : Naming) (m : Model) (table : Table)
    (filter : ColumnFilter) : Logged (List Parameter) := do
  let columns := options.select filter table.columns
  let parameters ← columns.mapM (options.parameter? n m table.name)
  return sortParameters (parameters.filterMap id)

end ParameterOptions

/-- The parameter that names a row of a table by its identity. -/
def identityParameter? (n : Naming) (m : Model) (table : Table) (index : Int) : Option Parameter :=
  match table.identityColumn? with
  | some column =>
    column.source.map fun source =>
      { name := n.parameterName column.name false
        index
        sqlType := column.sqlType
        table := some table.name
        column := some column.name
        modelType := some (m.typeName (m.property source))
        property := some source
        facets := column.facets
        isIdentity := true }
  | none => none

end Schemata
