import Schemata.Schema.Derivation

/-!
# Table types

Table types pass rows to procedures. A value classifier has one with a single column of its SQL
type, any other classifier one with the columns of its table. Of table types with one name the first
counts. There is always one that holds a list of identities.
-/
namespace Schemata
namespace Options

/-- A table type with a single column of a SQL type. -/
def simpleTableType (o : Options) (c : ClassifierRef) (sqlType : String) : Except Fault Table :=
  if o.factory.table ≠ .sqlServer then .error .unsuitedTable
  else .ok
    { dialect := o.factory.table
      name := o.naming.simpleTableTypeName sqlType
      source := some c
      columns := [
        { dialect := o.factory.column
          name := o.naming.simpleTableTypeColumnName
          sqlType
          facets := o.facets.facets sqlType none
          isRequired := true }] }

/-- A table type with the columns of the table of a classifier. -/
def complexTableType? (o : Options) (m : Model) (map : RelationshipMap) (c : ClassifierRef) :
    Logged (Option Table) := do
  match ← o.tableDefinition? m map c with
  | none => return none
  | some definition =>
    if definition.table.dialect ≠ .sqlServer then Logged.fail .unsuitedTable
    else
      return some { definition.table with name := o.naming.complexTableTypeName (m.classifier c) }

/-- The SQL type of a value classifier; one that cannot be mapped is reported and has none. -/
def valueType? (o : Options) (m : Model) (c : ClassifierRef) : Logged (Option String) := do
  let name := (m.classifier c).name
  match o.typeNames.ofClassifier m c with
  | .ok "" => do
    Logged.note (.valueTypeUnmapped name)
    return none
  | .ok sqlType => return some sqlType
  | .error e =>
    if e.family = .mapping then do
      Logged.note (.valueTypeFailed name e.message)
      return none
    else Logged.fail e

/-- The table type of a classifier, and whether it holds values of the given SQL type. -/
def tableTypeOf? (o : Options) (m : Model) (map : RelationshipMap) (identityType : String)
    (c : ClassifierRef) : Logged (Option (Table × Bool)) := do
  if (m.classifier c).kind.isValue then
    match ← o.valueType? m c with
    | none => return none
    | some sqlType => return some (← o.simpleTableType c sqlType, sqlType == identityType)
  else return (← o.complexTableType? m map c).map (·, false)

/-- Table types with distinct names, and the position of the one that holds identities. -/
structure TableTypes where
  tables : List Table := []
  identity : Option Nat := none
  deriving DecidableEq, Repr

namespace TableTypes

def position? (types : TableTypes) (name : String) : Option Nat :=
  types.tables.findIdx? fun t => t.name == name

/-- Adds a table type unless one of its name is there; the first that holds identities is kept. -/
def add (types : TableTypes) (table : Table) (holdsIdentities : Bool) : TableTypes :=
  let position := (types.position? table.name).getD types.tables.length
  { tables :=
      if (types.position? table.name).isSome then types.tables else types.tables ++ [table]
    identity := types.identity.or (if holdsIdentities then some position else none) }

end TableTypes

/-- Adds the table type of a classifier, if it is selected and has one. -/
def addTableType (o : Options) (m : Model) (map : RelationshipMap) (identityType : String)
    (types : TableTypes) (c : ClassifierRef) : Logged TableTypes := do
  if !o.becomesTableType m c then return types
  else
    match ← o.tableTypeOf? m map identityType c with
    | none => return types
    | some (table, holdsIdentities) => do
      if (types.position? table.name).isSome then
        Logged.note (.tableTypeRepeated table.name (m.classifier c).name)
      return types.add table holdsIdentities

def identitySqlType (o : Options) (m : Model) : Except Fault String := do
  let sqlType ← o.typeNames.ofClassifier m o.identityType
  if sqlType = "" then throw (.unmappedIdentityType (m.classifier o.identityType).name)
  else return sqlType

/-- All table types of a model, with one for identities. -/
def tableTypesOf (o : Options) (m : Model) (map : RelationshipMap) : Logged TableTypes := do
  let identityType ← o.identitySqlType m
  let types ← m.packagedClassifiers.foldlM (o.addTableType m map identityType) {}
  if types.identity.isSome then return types
  else return types.add (← o.simpleTableType o.identityType identityType) true

end Options

def Catalog.addAll (c : Catalog) (tables : List Table) : List TableRef × Catalog :=
  ((List.range tables.length).map fun i => TableRef.mk (c.tables.length + i),
    { tables := c.tables ++ tables })

/-- A database's table types in a catalog, and the one that holds identities. -/
def Options.createTableTypes (o : Options) (m : Model) (map : RelationshipMap) (c : Catalog) :
    Logged (TableRef × List TableRef × Catalog) := do
  let types ← o.tableTypesOf m map
  let (refs, after) := c.addAll types.tables
  return (⟨c.tables.length + types.identity.getD 0⟩, refs, after)

end Schemata
