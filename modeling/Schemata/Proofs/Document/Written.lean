import Schemata.Database
import Schemata.Document.Resolve
import Schemata.Proofs.Outcome

/-!
# Written documents

A document can be written as data, with all its members. It is read back as it was, so a model can
be given by its document. Attributes of the common kinds have short forms, and what becomes of a
document can be looked at.
-/
namespace Schemata

theorem Datum.asList_ofList {α : Type} {document : String} {read : Datum → Except Fault α}
    {write : α → Datum} (h : ∀ a, read (write a) = .ok a) (items : List α) :
    asList document read (ofList write items) = .ok items := by
  rw [ofList, asList, List.mapM_map, mapM_eq_ok, List.forall₂_same]
  exact fun a _ => h a

namespace AttributeDocument

/-- A single value of a type. -/
def of (name type : String) : AttributeDocument := { name, type := some type }

/-- The value that tells the values of the classifier apart. -/
def identity (name type : String) : AttributeDocument := { name, type := some type, isId := true }

def many (name type : String) : AttributeDocument := { name, type := some type, upper := unbounded }

def write (document : AttributeDocument) : Datum := .record [
  ("name", .text document.name),
  ("type", .ofOption .text document.type),
  ("lower", .integer document.lower),
  ("upper", .integer document.upper),
  ("is_id", .flag document.isId),
  ("id", .ofOption .text document.id),
  ("max_length", .ofOption .integer document.facets.maxLength),
  ("precision", .ofOption .integer document.facets.precision),
  ("scale", .ofOption .integer document.facets.scale)]

theorem read_write (document : AttributeDocument) : read document.write = .ok document := by
  obtain ⟨name, type, lower, upper, isId, id, ⟨maxLength, precision, scale⟩⟩ := document
  cases type <;> cases id <;> cases maxLength <;> cases precision <;> cases scale <;> rfl

end AttributeDocument

namespace ClassifierDocument

def write (document : ClassifierDocument) : Datum := .record [
  ("id", .text document.id),
  ("name", .text document.name),
  ("kind", .text document.kind.word),
  ("base_type", .ofOption .text document.base),
  ("attributes", .ofList AttributeDocument.write document.attributes)]

theorem read_write (document : ClassifierDocument) : read document.write = .ok document := by
  obtain ⟨id, name, kind, base, attributes⟩ := document
  have hread : read (write ⟨id, name, kind, base, attributes⟩) =
      (Datum.asList "AttributeDocument" AttributeDocument.read
        (.ofList AttributeDocument.write attributes)).bind fun attributes =>
          .ok ⟨id, name, kind, base, attributes⟩ := by
    cases kind <;> cases base <;> rfl
  rw [hread, Datum.asList_ofList AttributeDocument.read_write]
  rfl

end ClassifierDocument

namespace EndDocument

def write (document : EndDocument) : Datum := .record [
  ("attribute", .ofOption .text document.realizedBy),
  ("name", .text document.name),
  ("type", .ofOption .text document.type),
  ("lower", .integer document.lower),
  ("upper", .integer document.upper)]

theorem read_write (document : EndDocument) : read document.write = .ok document := by
  obtain ⟨realizedBy, name, type, lower, upper⟩ := document
  cases realizedBy <;> cases type <;> rfl

end EndDocument

namespace AssociationDocument

def write (document : AssociationDocument) : Datum := .record [
  ("id", .text document.id),
  ("name", .text document.name),
  ("ends", .ofList EndDocument.write document.ends)]

theorem read_write (document : AssociationDocument) : read document.write = .ok document := by
  have hread : read document.write =
      (Datum.asList "AssociationEndDocument" EndDocument.read
        (.ofList EndDocument.write document.ends)).bind fun ends =>
          .ok { document with ends } := rfl
  rw [hread, Datum.asList_ofList EndDocument.read_write]
  rfl

end AssociationDocument

namespace ModelDocument

def write (document : ModelDocument) : Datum := .record [
  ("name", .text document.name),
  ("types", .ofList ClassifierDocument.write document.classifiers),
  ("associations", .ofList AssociationDocument.write document.associations)]

theorem read_write (document : ModelDocument) : read document.write = .ok document := by
  have hread : read document.write =
      (Datum.asList "TypeDocument" ClassifierDocument.read
        (.ofList ClassifierDocument.write document.classifiers)).bind fun classifiers =>
          (Datum.asList "AssociationDocument" AssociationDocument.read
            (.ofList AssociationDocument.write document.associations)).bind fun associations =>
              .ok { document with classifiers, associations } := rfl
  rw [hread, Datum.asList_ofList ClassifierDocument.read_write, Except.bind,
    Datum.asList_ofList AssociationDocument.read_write]
  rfl

/-- A model can be given by its document. -/
theorem ofDatum_write (document : ModelDocument) :
    Model.ofDatum document.write = document.resolve := by
  rw [Model.ofDatum, read_write]
  rfl

end ModelDocument

/-! ## What becomes of a document -/

namespace Options

variable {α : Type}

/-- Looks at the model of a document, and at the database that is built from it. -/
def observe (o : Options) (document : ModelDocument)
    (view : Model → Database → Catalog → Except Fault α) (c : Catalog := {}) : Except Fault α := do
  let m ← document.resolve
  let (db, c) ← (o.build m c).value
  view m db c

theorem observe_eq_ok {o : Options} {document : ModelDocument}
    {view : Model → Database → Catalog → Except Fault α} {c : Catalog} {a : α} :
    o.observe document view c = .ok a ↔ ∃ m db c', Model.ofDatum document.write = .ok m ∧
      (o.build m c).value = .ok (db, c') ∧ view m db c' = .ok a := by
  simp only [observe, bind_eq_ok, Prod.exists, ModelDocument.ofDatum_write, exists_and_left]

/-- Looks at the model of a document, at what it becomes when every entity is given an identity, and
at the database that is built from that. -/
def observeIdentified (o : Options) (rule : IdentityRule) (document : ModelDocument)
    (view : Model → Model → Database → Catalog → Except Fault α) : Except Fault α := do
  let m ← document.resolve
  let m' ← (m.withIdentities rule).value
  let (db, c) ← (o.build m' {}).value
  view m m' db c

theorem observeIdentified_eq_ok {o : Options} {rule : IdentityRule} {document : ModelDocument}
    {view : Model → Model → Database → Catalog → Except Fault α} {a : α} :
    o.observeIdentified rule document view = .ok a ↔
      ∃ m m' db c', Model.ofDatum document.write = .ok m ∧ (m.withIdentities rule).value = .ok m' ∧
        (o.build m' {}).value = .ok (db, c') ∧ view m m' db c' = .ok a := by
  simp only [observeIdentified, bind_eq_ok, Prod.exists, ModelDocument.ofDatum_write,
    exists_and_left]

end Options

end Schemata
