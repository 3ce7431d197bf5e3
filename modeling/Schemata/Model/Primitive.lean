import Schemata.Model.Basic

/-!
# Primitive classifiers

Every model can refer to the same primitive classifiers, which take its first places and are never
packaged in it.
-/
namespace Schemata

inductive Primitive where
  | boolean
  | integer
  | long
  | short
  | byte
  | real
  | double
  | decimal
  | string
  | date
  | time
  | dateTime
  | uuid
  | binary
  | object
  deriving DecidableEq, Repr

namespace Primitive

def all : List Primitive :=
  [.boolean, .integer, .long, .short, .byte, .real, .double, .decimal, .string, .date, .time,
    .dateTime, .uuid, .binary, .object]

def name : Primitive → String
  | .boolean => "boolean"
  | .integer => "integer"
  | .long => "long"
  | .short => "short"
  | .byte => "byte"
  | .real => "real"
  | .double => "double"
  | .decimal => "decimal"
  | .string => "string"
  | .date => "date"
  | .time => "time"
  | .dateTime => "dateTime"
  | .uuid => "uuid"
  | .binary => "binary"
  | .object => "object"

def ofName? (name : String) : Option Primitive := all.find? fun p => p.name == name

/-- The place of a primitive classifier in every model. -/
def ref (p : Primitive) : ClassifierRef := ⟨all.idxOf p⟩

def classifier (p : Primitive) : Classifier :=
  { id := s!"primitive:{p.name}", name := p.name, kind := .primitive }

theorem ofName?_name (p : Primitive) : ofName? p.name = some p := by
  cases p <;> decide

def find (name : String) : Except Fault ClassifierRef :=
  match ofName? name with
  | some p => .ok p.ref
  | none => .error (.notPrimitive name)

end Primitive

/-- A model that packages nothing yet. -/
def Model.empty (name : String) : Model :=
  { name, classifiers := Primitive.all.map Primitive.classifier }

/-- A new model beside an old one: it packages nothing, and all earlier places stay valid. -/
def Model.restart (m : Model) (name : String) : Model :=
  { m with name, elements := [], issued := 0 }

theorem Model.classifier_ref (name : String) (p : Primitive) :
    (Model.empty name).classifier p.ref = p.classifier := by
  cases p <;> rfl

end Schemata
