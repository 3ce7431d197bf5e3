import Schemata.Schema.Naming

/-!
# Queries

The operations that procedures perform, and the names of the procedures.
-/
namespace Schemata

inductive QueryKind where
  | insert
  | update
  | updateRelationship
  | delete
  | selectSingle
  deriving DecidableEq, Repr

def QueryKind.word : QueryKind → String
  | .insert => "insert"
  | .update => "update"
  | .updateRelationship => "updateRelationship"
  | .delete => "delete"
  | .selectSingle => "selectSingle"

def QueryKind.all : List QueryKind :=
  [.insert, .update, .updateRelationship, .delete, .selectSingle]

def QueryKind.ofWord? (word : String) : Option QueryKind := all.find? fun kind => kind.word == word

theorem QueryKind.ofWord?_word (kind : QueryKind) : ofWord? kind.word = some kind := by
  cases kind <;> decide

/-- A text, unless it is missing or empty. -/
def given (text : Option String) (fallback : String) : String :=
  match text with
  | some "" | none => fallback
  | some text => text

/-- The name of the relationship that a dependent column realizes: its role, or its table's
classifier. -/
def Catalog.relationName (c : Catalog) (m : Model) (column : ColumnRef) : String :=
  let table := c.table column.table
  given (c.column column).role
    (match table.source with
      | some source => (m.classifier source).name
      | none => table.name)

/-- The name of a procedure for a classifier, which must have a name itself. -/
def Naming.procedureName (n : Naming) (m : Model) (c : Catalog) (query : QueryKind)
    (model : ClassifierRef) (dependent : Option ColumnRef) : Except Fault String := do
  let classifier := m.classifier model
  let name := classifier.name
  if name = "" then throw (.namelessClassifier classifier.id)
  let text ← match query, dependent with
    | .insert, _ => pure s!"Insert{name}"
    | .update, _ => pure s!"Update{name}"
    | .selectSingle, _ => pure s!"Select{name}ById"
    | .delete, _ => pure s!"Delete{name}ById"
    | .updateRelationship, some column => pure s!"Update{name}{c.relationName m column}"
    | .updateRelationship, none => throw (.missingDependent name)
  return n.affixed .procedure text

end Schemata
