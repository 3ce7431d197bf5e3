import Schemata.Fault

/-!
# Models

A model is a graph of classifiers, properties and associations. Elements refer to one another by
their place in the model, so that a property keeps its identity when one of its fields changes.
Places are only ever added; `elements` lists those that are packaged in the model.
-/
namespace Schemata

inductive ClassifierKind where
  | entity
  | interface
  | dataType
  | primitive
  | enumeration
  deriving DecidableEq, Repr

def ClassifierKind.word : ClassifierKind → String
  | .entity => "class"
  | .interface => "interface"
  | .dataType => "dataType"
  | .primitive => "primitiveType"
  | .enumeration => "enumeration"

def ClassifierKind.label : ClassifierKind → String
  | .entity => "CLASS"
  | .interface => "INTERFACE"
  | .dataType => "DATA_TYPE"
  | .primitive => "PRIMITIVE_TYPE"
  | .enumeration => "ENUMERATION"

def ClassifierKind.all : List ClassifierKind :=
  [.entity, .interface, .dataType, .primitive, .enumeration]

def ClassifierKind.ofWord? (word : String) : Option ClassifierKind :=
  all.find? fun kind => kind.word == word

/-- Instances are told apart by their value alone, so the classifier maps to a column type. -/
def ClassifierKind.isValue : ClassifierKind → Bool
  | .dataType | .primitive | .enumeration => true
  | .entity | .interface => false

/-- The classifier can own attributes. -/
def ClassifierKind.isMembered : ClassifierKind → Bool
  | .entity | .interface | .dataType => true
  | .primitive | .enumeration => false

theorem ClassifierKind.ofWord?_word (kind : ClassifierKind) : ofWord? kind.word = some kind := by
  cases kind <;> decide

structure ClassifierRef where
  place : Nat
  deriving DecidableEq, Repr

structure PropertyRef where
  place : Nat
  deriving DecidableEq, Repr

structure AssociationRef where
  place : Nat
  deriving DecidableEq, Repr

/-- How many values a property holds; without an upper bound, any number. -/
structure Multiplicity where
  lower : Int := 1
  upper : Option Int := some 1
  deriving DecidableEq, Repr

def Multiplicity.isMany (m : Multiplicity) : Bool :=
  match m.upper with
  | none => true
  | some n => 1 < n

def Multiplicity.isOptional (m : Multiplicity) : Bool := m.lower == 0

structure Facets where
  maxLength : Option Int := none
  precision : Option Int := none
  scale : Option Int := none
  deriving DecidableEq, Repr

inductive Owner where
  | classifier (ref : ClassifierRef)
  | association (ref : AssociationRef)
  deriving DecidableEq, Repr

/-- An attribute of a classifier or an end of an association; an end may have no name. -/
structure Property where
  id : String := ""
  name : String := ""
  type : Option ClassifierRef := none
  owner : Option Owner := none
  multiplicity : Multiplicity := {}
  isId : Bool := false
  association : Option AssociationRef := none
  facets : Facets := {}
  deriving DecidableEq, Repr

structure Classifier where
  id : String := ""
  name : String := ""
  kind : ClassifierKind := .entity
  attributes : List PropertyRef := []
  /-- The classifier this one derives from, such as the underlying type of an enumeration. -/
  base : Option ClassifierRef := none
  deriving DecidableEq, Repr

/-- The name, or the identifier of a classifier without a name. -/
def Classifier.label (c : Classifier) : String := if c.name = "" then c.id else c.name

structure Association where
  id : String := ""
  name : String := ""
  ends : List PropertyRef := []
  deriving DecidableEq, Repr

def Association.label (a : Association) : String := if a.name = "" then a.id else a.name

inductive Element where
  | classifier (ref : ClassifierRef)
  | association (ref : AssociationRef)
  deriving DecidableEq, Repr

structure Model where
  name : String
  elements : List Element := []
  /-- How many identifiers the model has made up. -/
  issued : Nat := 0
  classifiers : List Classifier := []
  properties : List Property := []
  associations : List Association := []
  deriving DecidableEq, Repr

namespace Model

def classifier (m : Model) (c : ClassifierRef) : Classifier := m.classifiers.getD c.place {}

def property (m : Model) (p : PropertyRef) : Property := m.properties.getD p.place {}

def association (m : Model) (a : AssociationRef) : Association := m.associations.getD a.place {}

def packagedClassifiers (m : Model) : List ClassifierRef :=
  m.elements.filterMap fun
    | .classifier c => some c
    | .association _ => none

def packagedAssociations (m : Model) : List AssociationRef :=
  m.elements.filterMap fun
    | .association a => some a
    | .classifier _ => none

def find? (m : Model) (id : String) : Option ClassifierRef :=
  m.packagedClassifiers.find? fun c => (m.classifier c).id == id

def find (m : Model) (id : String) : Except Fault ClassifierRef :=
  match m.find? id with
  | some c => .ok c
  | none => .error (.noClassifier id)

/-- The name of a property's type; empty without a type. -/
def typeName (m : Model) (p : Property) : String :=
  match p.type with
  | some c => (m.classifier c).name
  | none => ""

/-- The property refers to an entity and does not hold a value. -/
def isRelationship (m : Model) (p : Property) : Bool :=
  match p.type with
  | some c => !(m.classifier c).kind.isValue
  | none => false

/-- Takes an identifier if there is one, and makes one up from a stem otherwise. -/
def identifier (m : Model) (id : Option String) (stem : String) : String × Nat :=
  match id with
  | some id => (id, m.issued)
  | none => (s!"{stem}#{m.issued + 1}", m.issued + 1)

def createClassifier (m : Model) (name : String) (kind : ClassifierKind)
    (base : Option ClassifierRef) (id : Option String) : ClassifierRef × Model :=
  let (id, issued) := m.identifier id (if name = "" then "type" else name)
  let c := ⟨m.classifiers.length⟩
  (c, { m with
    elements := m.elements ++ [.classifier c]
    issued
    classifiers := m.classifiers ++ [{ id, name, kind, base }] })

def createAssociation (m : Model) (name : String) (id : Option String) : AssociationRef × Model :=
  let (id, issued) := m.identifier id (if name = "" then "association" else name)
  let a := ⟨m.associations.length⟩
  (a, { m with
    elements := m.elements ++ [.association a]
    issued
    associations := m.associations ++ [{ id, name }] })

def updateProperty (m : Model) (p : PropertyRef) (f : Property → Property) : Model :=
  { m with properties := m.properties.modify p.place f }

def updateClassifier (m : Model) (c : ClassifierRef) (f : Classifier → Classifier) : Model :=
  { m with classifiers := m.classifiers.modify c.place f }

def updateAssociation (m : Model) (a : AssociationRef) (f : Association → Association) : Model :=
  { m with associations := m.associations.modify a.place f }

def addProperty (m : Model) (p : Property) : PropertyRef × Model :=
  (⟨m.properties.length⟩, { m with properties := m.properties ++ [p] })

/-- Lists a property with the attributes of a classifier; its owner stays. -/
def attach (m : Model) (c : ClassifierRef) (p : PropertyRef) : Model :=
  m.updateClassifier c fun classifier =>
    { classifier with attributes := classifier.attributes ++ [p] }

/-- The identifier of a new attribute: by its name, or by its position if it has none. -/
def attributeId (m : Model) (c : ClassifierRef) (name : String) : String :=
  let classifier := m.classifier c
  let last := if name = "" then toString classifier.attributes.length else name
  s!"{classifier.id}.{last}"

def addAttribute (m : Model) (c : ClassifierRef) (p : Property) (id : Option String) :
    PropertyRef × Model :=
  let id := id.getD (m.attributeId c p.name)
  let (ref, m) := m.addProperty { p with id, owner := some (.classifier c) }
  (ref, m.attach c ref)

def addEnd (m : Model) (a : AssociationRef) (p : PropertyRef) : Model :=
  let m := m.updateProperty p fun property => { property with association := some a }
  m.updateAssociation a fun association => { association with ends := association.ends ++ [p] }

/-- Adds an end that the association itself owns. -/
def createEnd (m : Model) (a : AssociationRef) (p : Property) : PropertyRef × Model :=
  let association := m.association a
  let id := s!"{association.id}.{association.ends.length}"
  let (ref, m) := m.addProperty { p with id, owner := some (.association a) }
  (ref, m.addEnd a ref)

@[simp] theorem identifier_some (m : Model) (id stem : String) :
    m.identifier (some id) stem = (id, m.issued) := rfl

@[simp] theorem packagedClassifiers_createClassifier (m : Model) (name : String)
    (kind : ClassifierKind) (base : Option ClassifierRef) (id : Option String) :
    (m.createClassifier name kind base id).2.packagedClassifiers =
      m.packagedClassifiers ++ [(m.createClassifier name kind base id).1] := by
  simp [createClassifier, packagedClassifiers]

@[simp] theorem packagedClassifiers_createAssociation (m : Model) (name : String)
    (id : Option String) :
    (m.createAssociation name id).2.packagedClassifiers = m.packagedClassifiers := by
  simp [createAssociation, packagedClassifiers]

end Model

end Schemata
