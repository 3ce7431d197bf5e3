import Schemata.Relationship.Basic
import Schemata.Schema.Dependency
import Schemata.Schema.Options

/-!
# Tables of classifiers

A classifier becomes a table with one column for each attribute that holds a single value or refers
to a single entity, followed by one foreign key column for each one-to-many relationship whose
dependent owns no attribute for it. Each foreign key column keeps the classifier it refers to.
-/
namespace Schemata

/-- A column and, if it is a foreign key, the classifier it refers to. -/
structure DerivedColumn where
  column : Column
  principal : Option ClassifierRef := none
  deriving DecidableEq, Repr

/-- A table and the foreign key columns that are to be resolved, by position. -/
structure TableDefinition where
  table : Table
  references : List (Nat × ClassifierRef) := []
  deriving DecidableEq, Repr

/-- What a column is made for. -/
structure ColumnPurpose where
  name : String
  source : PropertyRef
  /-- The identity property that a foreign key refers to. -/
  referenced : Option PropertyRef := none
  role : Option String := none
  isForeignKey : Bool
  isNavigable : Bool
  isMany : Bool := false
  deriving DecidableEq, Repr

namespace Options

def columnType (o : Options) (m : Model) (table : String) (p : Property) : Except Fault String := do
  let sqlType ← o.typeNames.ofProperty m p
  if sqlType = "" then throw (.unmappedColumn table p.name) else return sqlType

/-- A column takes its type from the identity property it refers to, or else from its own
property. -/
def column (o : Options) (m : Model) (table : String) (purpose : ColumnPurpose) :
    Except Fault Column := do
  let source := m.property purpose.source
  let typed :=
    match purpose.referenced with
    | some referenced => if purpose.isForeignKey then m.property referenced else source
    | none => source
  let sqlType ← o.columnType m table typed
  return {
    dialect := o.factory.column
    name := purpose.name
    sqlType
    facets := o.facets.facets sqlType (some typed)
    isIdentity := !purpose.isForeignKey && source.isId
    isRequired := !source.multiplicity.isOptional || source.isId
    isForeignKey := purpose.isForeignKey
    source := some purpose.source
    referenced := purpose.referenced
    role := purpose.role
    isNavigable := purpose.isNavigable
    isMany := purpose.isMany }

/-- The column of an attribute. An attribute with many entities has none, and neither has one
without a name. -/
def attributeColumn? (o : Options) (m : Model) (table : String) (c : ClassifierRef)
    (p : PropertyRef) :
    Logged (Option DerivedColumn) := do
  let property := m.property p
  let principal :=
    if property.owner = some (.classifier c) ∧
      m.isRelationship property then property.type else none
  if principal.isSome ∧ property.multiplicity.isMany then return none
  else if property.name = "" then do
    Logged.note (.namelessProperty property.id (m.classifier c).name table)
    return none
  else
    match principal with
    | some type => do
      let referenced ← m.identityProperty type
      let column ← o.column m table
        { name := o.naming.foreignKeyColumnName property
          source := p
          referenced := some referenced
          isForeignKey := true
          isNavigable := true }
      return some ⟨column, some type⟩
    | none => do
      let column ← o.column m table
        { name := o.naming.columnName property
          source := p
          isForeignKey := false
          isNavigable := true }
      return some ⟨column, none⟩

/-- The columns of attributes, in order. The first identity column, if any is seen already under the
given name, is the only one: a further one becomes an ordinary column. -/
def attributeColumns (o : Options) (m : Model) (table : String) (c : ClassifierRef) :
    Option String → List PropertyRef → Logged (List DerivedColumn)
  | _, [] => return []
  | identity, p :: rest => do
    match ← o.attributeColumn? m table c p with
    | none => o.attributeColumns m table c identity rest
    | some d =>
      match d.column.isIdentity, identity with
      | false, _ => return d :: (← o.attributeColumns m table c identity rest)
      | true, none => return d :: (← o.attributeColumns m table c (some d.column.name) rest)
      | true, some first => do
        Logged.note (.furtherIdentity (m.property p).name (m.classifier c).name first)
        let d := { d with column := { d.column with isIdentity := false } }
        return d :: (← o.attributeColumns m table c identity rest)

/-- The name of a column that no attribute gives a name, and the role it plays. -/
def synthesizedName (o : Options) (identity path : Property) : String × Option String :=
  let column := o.naming.columnName identity
  let role := o.naming.columnName path
  if role = "" then (column, none) else (s!"{column}_{role}", some role)

/-- The column by which a dependent refers to the principal of a one-to-many relationship. -/
def relationshipColumn (o : Options) (m : Model) (table : String) (c : ClassifierRef)
    (r : Relationship) : Logged DerivedColumn := do
  match m.identityProperty? r.principal with
  | none => Logged.fail (.noIdentity (m.classifier r.principal).label (.synthesizedColumn table))
  | some identity => do
    let path := m.property r.path
    let (name, role) := o.synthesizedName (m.property identity) path
    Logged.note
      (.columnSynthesized (m.classifier c).name name (m.classifier r.principal).name path.name)
    let column ← o.column m table
      { name, source := r.path, referenced := some identity, role
        isForeignKey := true, isNavigable := false, isMany := true }
    return ⟨column, some r.principal⟩

/-- The relationships for which a dependent needs a column of its own. -/
def needsColumn (r : Relationship) : Bool := !r.isOwned && r.isOneToMany

def referencesOf (columns : List DerivedColumn) : List (Nat × ClassifierRef) :=
  columns.zipIdx.filterMap fun (d, i) => d.principal.map fun principal => (i, principal)

/-- The table of a classifier; without a name, a classifier has none. -/
def tableDefinition? (o : Options) (m : Model) (map : RelationshipMap) (c : ClassifierRef) :
    Logged (Option TableDefinition) := do
  let classifier := m.classifier c
  if classifier.name = "" then do
    Logged.note (.namelessType classifier.id)
    return none
  else do
    let name := o.naming.tableName classifier
    let attributes := if classifier.kind.isMembered then classifier.attributes else []
    let own ← o.attributeColumns m name c none attributes
    let further ← ((map.get classifier.id).filter needsColumn).mapM (o.relationshipColumn m name c)
    let columns := own ++ further
    let table : Table :=
      { dialect := o.factory.table, name, source := some c, columns := columns.map (·.column) }
    return some { table, references := referencesOf columns }

def packagedTable? (o : Options) (m : Model) (map : RelationshipMap) (c : ClassifierRef) :
    Logged (Option TableDefinition) := do
  let classifier := m.classifier c
  if !classifier.kind.isMembered ∨ classifier.kind.isValue then do
    Logged.note (.valueType classifier.name)
    return none
  else if !o.becomesTable m c then return none
  else
    match ← o.tableDefinition? m map c with
    | none => return none
    | some definition => do
      Logged.note (.tableCreated definition.table.name classifier.name)
      return some definition

def tableDefinitions (o : Options) (m : Model) (map : RelationshipMap) :
    Logged (List TableDefinition) := do
  return (← m.packagedClassifiers.mapM (o.packagedTable? m map)).filterMap id

end Options

/-- Adds the tables of definitions to a catalog: their references, what is to be resolved, the
catalog. -/
def Catalog.addDefinitions (c : Catalog) (definitions : List TableDefinition) :
    List TableRef × List Reference × Catalog :=
  let tables := (List.range definitions.length).map fun i => TableRef.mk (c.tables.length + i)
  let references := (tables.zip definitions).flatMap fun (t, definition) =>
    definition.references.map fun (position, principal) => ⟨⟨t, position⟩, principal⟩
  (tables, references, { tables := c.tables ++ definitions.map (·.table) })

/-- The tables of a model, each behind those it refers to. -/
def Options.deriveTables (o : Options) (m : Model) (map : RelationshipMap) (c : Catalog) :
    Logged (List TableRef × Catalog) := do
  let (tables, references, c) := c.addDefinitions (← o.tableDefinitions m map)
  let c ← c.resolveReferences m tables references
  return (← c.sortTables tables, c)

end Schemata
