import Schemata.Document.Datum
import Schemata.Model.Description
import Schemata.Model.Identity
import Schemata.Relationship.Basic

/-!
# Reports on models

Models and their relationships as data, for tools that show or compare them. References stand as
identifiers, and a property without an upper bound has none in its report.
-/
namespace Schemata
namespace Model

def classifierId (m : Model) (c : ClassifierRef) : Datum := .text (m.classifier c).id

def propertyId (m : Model) (p : PropertyRef) : Datum := .text (m.property p).id

def associationId (m : Model) (a : AssociationRef) : Datum := .text (m.association a).id

def ownerId (m : Model) : Owner → Datum
  | .classifier c => m.classifierId c
  | .association a => m.associationId a

def reportProperty (m : Model) (p : PropertyRef) : Datum :=
  let property := m.property p
  .record [
    ("id", .text property.id),
    ("name", .text property.name),
    ("type", .ofOption m.classifierId property.type),
    ("owner", .ofOption m.ownerId property.owner),
    ("lower", .integer property.multiplicity.lower),
    ("upper", .ofOption .integer property.multiplicity.upper),
    ("is_id", .flag property.isId),
    ("association", .ofOption m.associationId property.association),
    ("max_length", .ofOption .integer property.facets.maxLength),
    ("precision", .ofOption .integer property.facets.precision),
    ("scale", .ofOption .integer property.facets.scale)]

def reportClassifier (m : Model) (c : ClassifierRef) : Datum :=
  let classifier := m.classifier c
  .record [
    ("id", .text classifier.id),
    ("name", .text classifier.name),
    ("kind", .text classifier.kind.word),
    ("base_type", .ofOption m.classifierId classifier.base),
    ("attributes", .ofList m.reportProperty classifier.attributes)]

def reportAssociation (m : Model) (a : AssociationRef) : Datum :=
  let association := m.association a
  .record [
    ("id", .text association.id),
    ("name", .text association.name),
    ("ends", .ofList m.reportProperty association.ends)]

def reportElement (m : Model) : Element → Datum
  | .classifier c => .record [("type", m.reportClassifier c)]
  | .association a => .record [("association", m.reportAssociation a)]

def report (m : Model) : Datum :=
  .record [("name", .text m.name), ("elements", .ofList m.reportElement m.elements)]

def reportRelationship (m : Model) (r : Relationship) : Datum :=
  .record [
    ("from_type", m.classifierId r.principal),
    ("from_property", m.propertyId r.path),
    ("to_type", m.classifierId r.dependent),
    ("to_property", .ofOption m.propertyId r.opposite),
    ("owned", .flag r.isOwned),
    ("one_to_many", .flag r.isOneToMany)]

/-- The groups of a map, in the order in which their keys were added. -/
def reportRelationships (m : Model) (map : RelationshipMap) : Datum :=
  .ofList (fun (id, rs) => .list [.text id, .ofList m.reportRelationship rs]) map.groups

def classifierFacts (m : Model) (c : ClassifierRef) : Members :=
  let classifier := m.classifier c
  [("data_type", .flag classifier.kind.isValue),
    ("primitive", .flag (classifier.kind == .primitive)),
    ("enumeration", .flag (classifier.kind == .enumeration)),
    ("membered", .flag classifier.kind.isMembered),
    ("identity", .ofOption m.propertyId (m.identityProperty? c)),
    ("repr", .text classifier.describe)]

def propertyFacts (m : Model) (p : PropertyRef) : Members :=
  let property := m.property p
  [("multivalued", .flag property.multiplicity.isMany),
    ("optional", .flag property.multiplicity.isOptional),
    ("type_name", .text (m.typeName property)),
    ("relationship", .flag (m.isRelationship property)),
    ("repr", .text (m.describeProperty property))]

def reportEnd (m : Model) (e : AssociationEnd) : Datum :=
  .list [m.propertyId e.property, m.classifierId e.host, m.classifierId e.target]

/-- The ends of an association as a convention reads them, if it reads them at all. -/
def associationFacts (m : Model) (convention : EndConvention) (a : AssociationRef) :
    Logged Members := do
  let ends ← m.ends? convention a
  return [("repr", .text (m.association a).describe),
    ("ends", .ofOption (fun (p, q) => .list [m.reportEnd p, m.reportEnd q]) ends)]

end Model

end Schemata
