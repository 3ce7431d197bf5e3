import Schemata.Report.Database

/-!
# Tables and parameters read from data

Columns, keys and parameters that were not derived are read from the members under which a report
shows them. A property is found by the name that the reader is given for it.
-/
namespace Schemata

def SqlFacets.read (members : Members) : Except Fault SqlFacets := do
  let length ← members.text? "length"
  let precision ← members.integer? "precision"
  let scale ← members.integer? "scale"
  return { length, precision, scale }

def Column.read (find : String → Except Fault PropertyRef) (dialect : Dialect) (members : Members) :
    Except Fault Column := do
  let name ← members.text "name"
  let sqlType ← members.text "sql"
  let facets ← SqlFacets.read members
  let isIdentity ← members.flag "identity" false
  let isRequired ← members.flag "required" false
  let isForeignKey ← members.flag "fk" false
  let source ← (← members.text? "property").mapM find
  let referenced ← (← members.text? "pk_property").mapM find
  let role ← members.text? "role"
  let isNavigable ← members.flag "navigable" false
  let isMany ← members.flag "many" false
  return { dialect, name, sqlType, facets, isIdentity, isRequired, isForeignKey, source, referenced,
           role, isNavigable, isMany }

def Key.read (members : Members) : Except Fault Key := do
  let name ← members.text "name"
  let kind ← Datum.asWord KeyKind.ofWord? ((members.lookup "type").getD .null)
  let column ← members.text "column"
  let principalTable ← members.text? "pk_table"
  let principalColumn ← members.text? "pk_column"
  let cascades ← members.flag "cascade" false
  return { name, kind, column, principalTable, principalColumn, cascades }

/-- A key is what its report says. -/
theorem Key.read_members (key : Key) : Key.read key.members = .ok key := by
  obtain ⟨name, kind, column, table, principal, cascades⟩ := key
  cases kind <;> cases table <;> cases principal <;> rfl

/-- A table that derives from a classifier, or from none; only a table for SQL Server has keys. -/
def Table.read (find : String → Except Fault PropertyRef) (dialect : Dialect)
    (source : Option ClassifierRef) (members : Members) : Except Fault Table := do
  let name ← members.text "name"
  let isJunction ← members.flag "junction" false
  let columns ← members.items "columns" fun column => do
    Column.read find dialect (← column.asRecord "Column")
  let keys ← match dialect with
    | .ansi => .ok []
    | .sqlServer => members.items "keys" fun key => do Key.read (← key.asRecord "Key")
  return { dialect, name, source, isJunction, columns, keys }

def Direction.ofCode? (code : Int) : Option Direction := Direction.all.find? fun d => d.code == code

theorem Direction.ofCode?_code (d : Direction) : ofCode? d.code = some d := by
  cases d <;> decide

/-- Another number is the code of no direction. -/
theorem Direction.ofCode?_eq_some_iff (code : Int) (d : Direction) :
    ofCode? code = some d ↔ code = d.code := by
  constructor
  · intro h
    have := List.find?_some h
    simp_all
  · rintro rfl
    exact ofCode?_code d

/-- The columns that a code includes: the identity if its last bit is set, and the others if the bit
before is. -/
def ParameterOptions.including (code : Int) : ParameterOptions :=
  { includeIdentity := code % 2 == 1, includeOther := code / 2 % 2 == 1 }

/-- Further bits mean nothing; this also gives codes below zero a meaning. -/
theorem ParameterOptions.including_emod (code : Int) : including (code % 4) = including code := by
  have h₁ : code % 4 % 2 = code % 2 := by omega
  have h₂ : code % 4 / 2 % 2 = code / 2 % 2 := by omega
  rw [including, including, h₁, h₂]

/-- A decimal is a code only if it is one of the four combinations itself. -/
def Datum.asIncluding : Datum → Except Fault ParameterOptions
  | .decimal d => (decimal d).asCode fun code =>
    if 0 ≤ code ∧ code < 4 then some (ParameterOptions.including code) else none
  | datum => datum.asCode fun code => some (ParameterOptions.including code)

/-- The ways in which the columns of a table become parameters; both kinds are included if nothing
else is said. -/
def ParameterOptions.read (members : Members) : Except Fault ParameterOptions := do
  let options ← members.orElse "includes" {} Datum.asIncluding
  let identityAsOutput ← members.flag "output" false
  let identityAsFilter ← members.flag "filter" false
  let allowNulls ← members.flag "nulls" false
  return { options with identityAsOutput, identityAsFilter, allowNulls }

/-- Any other predicate lets every column pass. -/
def Datum.asColumnFilter : Datum → Except Fault ColumnFilter
  | .record [("names", names)] => do
    let names ← names.asTexts
    return fun column => names.contains column.name
  | .record [("not_names", names)] => do
    let names ← names.asTexts
    return fun column => !names.contains column.name
  | .record [("foreign_key", holds)] => do
    let holds ← holds.asFlag
    return fun column => column.isForeignKey == holds
  | .record [("nullable", holds)] => do
    let holds ← holds.asFlag
    return fun column => column.isNullable == holds
  | _ => .ok fun _ => true

/-- A parameter at a place, which is an input of an integer type unless the members say
otherwise. -/
def Parameter.read (members : Members) (index : Int) : Except Fault Parameter := do
  let name ← members.text "name"
  let sqlType ← members.optional "sql" "int" Datum.asText
  let direction ← members.orElse "direction" .input (Datum.asCode Direction.ofCode?)
  let table ← members.text? "table"
  let column ← members.text? "column"
  let facets ← SqlFacets.read members
  let flags ← members.items "flags" Datum.asText
  return {
    name
    index
    sqlType
    direction
    table
    column
    facets
    isIdentity := flags.contains "identity"
    isFilter := flags.contains "filter"
    isNullable := flags.contains "nullable"
    isReadOnly := flags.contains "read_only"
    isTableValued := flags.contains "table_valued"
    isMany := flags.contains "multivalued" }

end Schemata
