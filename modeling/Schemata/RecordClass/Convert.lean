import Schemata.Logged
import Schemata.RecordClass.Basic

/-!
# Record classes as models

Every record class that the roots reach becomes a classifier with one attribute for each of its
fields. Roots are declared first; converting a field may declare further classes, which are
converted in the order in which they were declared. A class and an enumeration are declared once.
-/
namespace Schemata

/-- A model under construction and the classifiers of the declarations met so far, in order. -/
structure Conversion where
  model : Model
  classes : List (DeclarationRef × ClassifierRef) := []
  enumerations : List (DeclarationRef × ClassifierRef) := []
  deriving DecidableEq, Repr

namespace Conversion

/-- The classifier of a record class, or nothing if the declaration is no record class. -/
def declareClass? (r : Registry) (s : Conversion) (ref : DeclarationRef) :
    Option (ClassifierRef × Conversion) :=
  match r.class? ref, r.fields? ref with
  | some c, some _ =>
    match s.classes.lookup ref with
    | some classifier => some (classifier, s)
    | none =>
      let (classifier, model) := s.model.createClassifier c.name .entity none (some c.id)
      some (classifier, { s with model, classes := s.classes ++ [(ref, classifier)] })
  | _, _ => none

def declareEnumeration? (r : Registry) (s : Conversion) (ref : DeclarationRef) :
    Option (ClassifierRef × Conversion) :=
  match r.enumeration? ref with
  | some e =>
    match s.enumerations.lookup ref with
    | some classifier => some (classifier, s)
    | none =>
      let (classifier, model) :=
        s.model.createClassifier e.name .enumeration (some e.primitive.ref) (some e.id)
      some (classifier, { s with model, enumerations := s.enumerations ++ [(ref, classifier)] })
  | none => none

def target? (r : Registry) (s : Conversion) : FieldTarget → Option (ClassifierRef × Conversion)
  | .primitive p => some (p.ref, s)
  | .declared ref => (declareClass? r s ref).or (declareEnumeration? r s ref)
  | .unsupported => none

def addField (r : Registry) (className : String) (owner : ClassifierRef) (s : Conversion)
    (field : Field) : Except Fault Conversion :=
  match field.type.cause?, field.type.shape? {} with
  | some cause, _ => .error cause
  | none, none => .error (.nestedCollection field.name className)
  | none, some shape =>
    match target? r s shape.target with
    | none => .error (.unsupportedField field.name className)
    | some (type, s) =>
      let (_, model) := s.model.addAttribute owner
        { name := field.name
          type := some type
          multiplicity := shape.multiplicity
          isId := shape.marks.any Mark.isKey
          facets := Facets.ofMarks shape.marks } none
      .ok { s with model }

/-- Declares a class that has to be a record class. -/
def declareRoot (r : Registry) (s : Conversion) (root : Option DeclarationRef) :
    Except Fault Conversion :=
  match root.bind (declareClass? r s) with
  | some (_, s) => .ok s
  | none => .error .notRecordClass

def convertClass (r : Registry) (s : Conversion) (declared : DeclarationRef × ClassifierRef) :
    Logged Conversion := do
  let className := (r.class? declared.1).elim "" (·.name)
  Logged.note (.recordClassConverted className (s.model.classifier declared.2).name)
  let fields := (r.fields? declared.1).getD []
  (fields.foldlM (addField r className declared.2) s : Except Fault Conversion)

/-- Converts the declared classes from a position on, at most as many as the registry has. -/
def convertFrom (r : Registry) : Nat → Nat → Conversion → Logged Conversion
  | 0, _, s => return s
  | budget + 1, position, s =>
    match s.classes[position]? with
    | none => return s
    | some declared => do convertFrom r budget (position + 1) (← convertClass r s declared)

end Conversion

namespace Registry

/-- The model of the record classes that the roots reach; a root that is no declaration is none. -/
def toModel (r : Registry) (name : String) (roots : List (Option DeclarationRef)) :
    Logged Model := do
  let start : Conversion := { model := Model.empty name }
  let s ← (roots.foldlM (Conversion.declareRoot r) start : Except Fault Conversion)
  let s ← Conversion.convertFrom r r.classes.length 0 s
  return s.model

def modulesToModel (r : Registry) (name : String) (modules : List String) : Logged Model :=
  r.toModel name ((modules.flatMap (r.members modules)).map some)

end Registry

end Schemata
