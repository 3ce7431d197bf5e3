import Schemata.Document.Datum
import Schemata.Model.Basic

/-!
# Model documents

The written form of a model. Types are referred to by identifier, primitive ones also by their name,
and an upper bound of `unbounded` stands for any number of values. A member is read where it is
declared, depth first, and the first fault wins; members without a declaration are looked for last.
-/
namespace Schemata

structure AttributeDocument where
  name : String
  type : Option String := none
  lower : Int := 1
  upper : Int := 1
  isId : Bool := false
  id : Option String := none
  facets : Facets := {}
  deriving DecidableEq, Repr

structure ClassifierDocument where
  id : String
  name : String
  kind : ClassifierKind := .entity
  base : Option String := none
  attributes : List AttributeDocument := []
  deriving DecidableEq, Repr

/-- An end refers to the attribute that realizes it, or describes a property of the association. -/
structure EndDocument where
  realizedBy : Option String := none
  name : String := ""
  type : Option String := none
  lower : Int := 1
  upper : Int := 1
  deriving DecidableEq, Repr

structure AssociationDocument where
  id : String
  name : String := ""
  ends : List EndDocument := []
  deriving DecidableEq, Repr

structure ModelDocument where
  name : String
  classifiers : List ClassifierDocument := []
  associations : List AssociationDocument := []
  deriving DecidableEq, Repr

/-- The upper bound of a property with any number of values. -/
def unbounded : Int := -1

def AttributeDocument.read (datum : Datum) : Except Fault AttributeDocument := do
  let members : Members ← datum.asRecord "AttributeDocument"
  let name ← members.text "name"
  let type ← members.text? "type"
  let lower ← members.optional "lower" 1 Datum.asInteger
  let upper ← members.optional "upper" 1 Datum.asInteger
  let isId ← members.flag "is_id" false
  let id ← members.text? "id"
  let maxLength ← members.integer? "max_length"
  let precision ← members.integer? "precision"
  let scale ← members.integer? "scale"
  members.only
    ["name", "type", "lower", "upper", "is_id", "id", "max_length", "precision", "scale"]
  return { name, type, lower, upper, isId, id, facets := { maxLength, precision, scale } }

def ClassifierDocument.read (datum : Datum) : Except Fault ClassifierDocument := do
  let members : Members ← datum.asRecord "TypeDocument"
  let id ← members.text "id"
  let name ← members.text "name"
  let kind ← members.optional "kind" .entity (Datum.asWord ClassifierKind.ofWord?)
  let base ← members.text? "base_type"
  let attributes ← members.optional "attributes" []
    (Datum.asList "AttributeDocument" AttributeDocument.read)
  members.only ["id", "name", "kind", "base_type", "attributes"]
  return { id, name, kind, base, attributes }

def EndDocument.read (datum : Datum) : Except Fault EndDocument := do
  let members : Members ← datum.asRecord "AssociationEndDocument"
  let realizedBy ← members.text? "attribute"
  let name ← members.optional "name" "" Datum.asText
  let type ← members.text? "type"
  let lower ← members.optional "lower" 1 Datum.asInteger
  let upper ← members.optional "upper" 1 Datum.asInteger
  members.only ["attribute", "name", "type", "lower", "upper"]
  return { realizedBy, name, type, lower, upper }

def AssociationDocument.read (datum : Datum) : Except Fault AssociationDocument := do
  let members : Members ← datum.asRecord "AssociationDocument"
  let id ← members.text "id"
  let name ← members.optional "name" "" Datum.asText
  let ends ← members.optional "ends" [] (Datum.asList "AssociationEndDocument" EndDocument.read)
  members.only ["id", "name", "ends"]
  return { id, name, ends }

def ModelDocument.read (datum : Datum) : Except Fault ModelDocument := do
  let members : Members ← datum.asRecord "ModelDocument"
  let name ← members.text "name"
  let classifiers ← members.optional "types" []
    (Datum.asList "TypeDocument" ClassifierDocument.read)
  let associations ← members.optional "associations" []
    (Datum.asList "AssociationDocument" AssociationDocument.read)
  members.only ["name", "types", "associations"]
  return { name, classifiers, associations }

end Schemata
