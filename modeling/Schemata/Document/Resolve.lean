import Schemata.Document.Basic
import Schemata.Model.Primitive

/-!
# Documents as models

All classifiers of a document are declared before any reference is followed, so that a reference may
point forward. A reference finds a classifier of the document before a primitive one, and an
association end finds the last attribute that was added under its identifier.
-/
namespace Schemata

/-- A classifier of a document and its place in the model. -/
structure Declared where
  ref : ClassifierRef
  document : ClassifierDocument
  deriving DecidableEq, Repr

/-- A text without the mark of primitive identifiers in front. -/
def withoutPrimitiveMark (reference : String) : String :=
  let mark := "primitive:".toList
  if mark.isPrefixOf reference.toList then String.ofList (reference.toList.drop mark.length)
  else reference

def resolveType (declared : List Declared) (site : Site) (reference : String) :
    Except Fault ClassifierRef :=
  match declared.find? fun d => d.document.id == reference with
  | some d => .ok d.ref
  | none =>
    match Primitive.ofName? (withoutPrimitiveMark reference) with
    | some p => .ok p.ref
    | none => .error (.unknownType site reference)

def resolveOptionalType (declared : List Declared) (site : Site) :
    Option String → Except Fault (Option ClassifierRef)
  | none => .ok none
  | some reference => some <$> resolveType declared site reference

def resolveUpper (site : Site) (upper : Int) : Except Fault (Option Int) :=
  if upper = unbounded then .ok none
  else if upper < 0 then .error (.invalidUpperBound site upper)
  else .ok (some upper)

/-- Creates the classifiers of a document, in order, without their references. -/
def declareClassifiers (m : Model) (declared : List Declared) :
    List ClassifierDocument → Except Fault (List Declared × Model)
  | [] => .ok (declared, m)
  | document :: rest =>
    if declared.any fun d => d.document.id == document.id then
      .error (.duplicateClassifier document.id)
    else
      let (ref, m) := m.createClassifier document.name document.kind none (some document.id)
      declareClassifiers m (declared ++ [⟨ref, document⟩]) rest

/-- A model under construction, with its attributes by identifier, the latest first. -/
structure Resolution where
  model : Model
  attributes : List (String × PropertyRef) := []
  deriving DecidableEq, Repr

namespace Resolution

def addAttribute (declared : List Declared) (owner : Declared) (r : Resolution)
    (document : AttributeDocument) : Except Fault Resolution := do
  let site := Site.property owner.document.id document.name
  let type ← resolveOptionalType declared site document.type
  let upper ← resolveUpper site document.upper
  let (p, model) := r.model.addAttribute owner.ref
    { name := document.name
      type
      multiplicity := ⟨document.lower, upper⟩
      isId := document.isId
      facets := document.facets } document.id
  return ⟨model, ((model.property p).id, p) :: r.attributes⟩

/-- Follows the references of a declared classifier: its base, then its attributes. -/
def addClassifier (declared : List Declared) (r : Resolution) (d : Declared) :
    Except Fault Resolution := do
  let base ← resolveOptionalType declared (.classifier d.document.id) d.document.base
  let model := r.model.updateClassifier d.ref fun classifier => { classifier with base }
  d.document.attributes.foldlM (addAttribute declared d) { r with model }

def addEnd (declared : List Declared) (association : String) (a : AssociationRef) (r : Resolution)
    (document : EndDocument) : Except Fault Resolution :=
  match document.realizedBy, document.type with
  | some reference, _ =>
    match r.attributes.lookup reference with
    | some p => .ok { r with model := r.model.addEnd a p }
    | none => .error (.unknownAttribute association reference)
  | none, some reference => do
    let site := Site.association association
    let type ← resolveType declared site reference
    let upper ← resolveUpper site document.upper
    let (_, model) := r.model.createEnd a
      { name := document.name, type := some type, multiplicity := ⟨document.lower, upper⟩ }
    return { r with model }
  | none, none => .error (.incompleteEnd association)

def addAssociation (declared : List Declared) (r : Resolution) (document : AssociationDocument) :
    Except Fault Resolution :=
  let (a, model) := r.model.createAssociation document.name (some document.id)
  document.ends.foldlM (addEnd declared document.id a) { r with model }

end Resolution

namespace ModelDocument

/-- Adds the elements of a document to a model that packages nothing yet. -/
def resolveOnto (m : Model) (document : ModelDocument) : Except Fault Model := do
  let (declared, model) ← declareClassifiers m [] document.classifiers
  let r ← declared.foldlM (Resolution.addClassifier declared) { model }
  let r ← document.associations.foldlM (Resolution.addAssociation declared) r
  return r.model

/-- The model that a document describes. -/
def resolve (document : ModelDocument) : Except Fault Model :=
  document.resolveOnto (Model.empty document.name)

end ModelDocument

/-- Reads a model document from a datum and resolves it. -/
def Model.ofDatum (datum : Datum) : Except Fault Model := do
  (← ModelDocument.read datum).resolve

end Schemata
