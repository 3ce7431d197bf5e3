import Schemata.Logged
import Schemata.Model.Basic

/-!
# Identity properties

The first attribute of a classifier marked as identity tells its instances apart. `withIdentities`
gives one to every classifier that can own attributes and has none.
-/
namespace Schemata
namespace Model

def identityProperty? (m : Model) (c : ClassifierRef) : Option PropertyRef :=
  (m.classifier c).attributes.find? fun p => (m.property p).isId

/-- The identity property of a classifier that must have one. -/
def identityProperty (m : Model) (c : ClassifierRef) : Except Fault PropertyRef :=
  match m.identityProperty? c with
  | some p => .ok p
  | none => .error (.noIdentity (m.classifier c).label .reference)

end Model

/-- Which identity property a classifier gets. -/
structure IdentityRule where
  type : ClassifierRef
  nameOf : Classifier → String := fun _ => "Id"

namespace Model

/-- Puts a new identity property in front of the attributes of a classifier. -/
def insertIdentity (m : Model) (rule : IdentityRule) (c : ClassifierRef) : Model :=
  let classifier := m.classifier c
  let name := rule.nameOf classifier
  let (p, m) := m.addProperty
    { id := s!"{classifier.id}.{name}"
      name
      type := some rule.type
      owner := some (.classifier c)
      isId := true }
  m.updateClassifier c fun classifier =>
    { classifier with attributes := p :: classifier.attributes }

/-- Leaves a classifier that cannot own attributes or that has an identity property as it is. -/
def ensureIdentity (rule : IdentityRule) (m : Model) (c : ClassifierRef) : Logged Model :=
  let classifier := m.classifier c
  if !classifier.kind.isMembered then return m
  else if (m.identityProperty? c).isSome then do
    Logged.note (.identityPresent classifier.name)
    return m
  else return m.insertIdentity rule c

def withIdentities (m : Model) (rule : IdentityRule) : Logged Model :=
  m.packagedClassifiers.foldlM (ensureIdentity rule) m

end Model

end Schemata
