import Mathlib.Data.Option.Basic
import Schemata.Proofs.Model.Ends

/-!
# Documents and the models that mirror them

What is wrong with a document can be said without resolving it, part by part. A model mirrors a
document if it has the same parts in the same order, and each reference leads to what it names. What
a part mirrors is not lost when a model grows: properties and classifiers are only added, and only
the association of a property changes.
-/
namespace Schemata

/-! ## Flawed documents -/

namespace ModelDocument

/-- A reference names a classifier of the document or a primitive one, which may be marked as
such. -/
def Names (document : ModelDocument) (reference : String) : Prop :=
  (∃ d ∈ document.classifiers, d.id = reference) ∨
    ∃ p : Primitive, reference = p.name ∨ reference = "primitive:" ++ p.name

end ModelDocument

/-- The identifier of an attribute at a position, which is made up of its name or its position if it
has none. -/
def ClassifierDocument.attributeId (d : ClassifierDocument) (a : AttributeDocument)
    (position : Nat) :
    String :=
  let last := if a.name = "" then toString position else a.name
  a.id.getD s!"{d.id}.{last}"

def ClassifierDocument.attributeIds (d : ClassifierDocument) : List String :=
  d.attributes.zipIdx.map fun (a, i) => d.attributeId a i

def ModelDocument.attributeIds (document : ModelDocument) : List String :=
  document.classifiers.flatMap ClassifierDocument.attributeIds

def AttributeDocument.Flawed (document : ModelDocument) (a : AttributeDocument) : Prop :=
  (∃ reference ∈ a.type, ¬ document.Names reference) ∨ a.upper < unbounded

def ClassifierDocument.Flawed (document : ModelDocument) (d : ClassifierDocument) : Prop :=
  (∃ reference ∈ d.base, ¬ document.Names reference) ∨ ∃ a ∈ d.attributes, a.Flawed document

/-- Of an end that an attribute realizes nothing else is read. -/
def EndDocument.Flawed (document : ModelDocument) (e : EndDocument) : Prop :=
  match e.realizedBy, e.type with
  | some reference, _ => reference ∉ document.attributeIds
  | none, some reference => ¬ document.Names reference ∨ e.upper < unbounded
  | none, none => True

def AssociationDocument.Flawed (document : ModelDocument) (s : AssociationDocument) : Prop :=
  ∃ e ∈ s.ends, e.Flawed document

def ModelDocument.Flawed (document : ModelDocument) : Prop :=
  ¬ (document.classifiers.map (·.id)).Nodup ∨ (∃ d ∈ document.classifiers, d.Flawed document) ∨
    ∃ s ∈ document.associations, s.Flawed document

/-! ## Mirrored documents -/

/-- The upper bound that is written as a number. -/
def upperBound (upper : Int) : Option Int := if upper = unbounded then none else some upper

/-- An end that no attribute realizes, as an attribute of its association. -/
def EndDocument.attribute (e : EndDocument) : AttributeDocument :=
  { name := e.name, type := e.type, lower := e.lower, upper := e.upper }

namespace Model

/-- A packaged classifier is denoted by its identifier, and hides a primitive one of that name. -/
inductive Denotes (m : Model) (reference : String) : ClassifierRef → Prop
  | packaged {c : ClassifierRef} : c ∈ m.packagedClassifiers → (m.classifier c).id = reference →
    Denotes m reference c
  | primitive {p : Primitive} : (∀ c ∈ m.packagedClassifiers, (m.classifier c).id ≠ reference) →
    (reference = p.name ∨ reference = "primitive:" ++ p.name) → Denotes m reference p.ref

/-- A property says of itself what is written of it, whichever association it is an end of. -/
structure Realizes (m : Model) (p : PropertyRef) (owner : Owner) (id : String)
    (document : AttributeDocument) : Prop where
  id : (m.property p).id = id
  name : (m.property p).name = document.name
  type : Option.Rel m.Denotes document.type (m.property p).type
  owner : (m.property p).owner = some owner
  multiplicity : (m.property p).multiplicity = ⟨document.lower, upperBound document.upper⟩
  isId : (m.property p).isId = document.isId
  facets : (m.property p).facets = document.facets

structure MirrorsClassifier (m : Model) (d : ClassifierDocument) (c : ClassifierRef) : Prop where
  id : (m.classifier c).id = d.id
  name : (m.classifier c).name = d.name
  kind : (m.classifier c).kind = d.kind
  base : Option.Rel m.Denotes d.base (m.classifier c).base
  attributes : List.Forall₂ (fun x p => m.Realizes p (.classifier c) (d.attributeId x.1 x.2) x.1)
    d.attributes.zipIdx (m.classifier c).attributes

def IsAttribute (m : Model) (p : PropertyRef) : Prop :=
  ∃ c ∈ m.packagedClassifiers, p ∈ (m.classifier c).attributes

/-- An end is an attribute of the identifier that it names, or belongs to the association. -/
def MirrorsEnd (m : Model) (a : AssociationRef) (id : String) (e : EndDocument) (p : PropertyRef) :
    Prop :=
  match e.realizedBy with
  | some reference => m.IsAttribute p ∧ (m.property p).id = reference
  | none => m.Realizes p (.association a) id e.attribute

structure MirrorsAssociation (m : Model) (s : AssociationDocument) (a : AssociationRef) : Prop where
  id : (m.association a).id = s.id
  name : (m.association a).name = s.name
  ends : List.Forall₂ (fun x p => m.MirrorsEnd a s!"{s.id}.{x.2}" x.1 p) s.ends.zipIdx
    (m.association a).ends

/-- Each property knows the last association that it is an end of. -/
def LastListed (m : Model) : Prop :=
  ∀ p, (m.property p).association =
    m.packagedAssociations.reverse.find? fun a => decide (p ∈ (m.association a).ends)

structure Mirrors (m : Model) (document : ModelDocument) : Prop where
  name : m.name = document.name
  elements : m.elements =
    m.packagedClassifiers.map Element.classifier ++ m.packagedAssociations.map Element.association
  primitive : ∀ p : Primitive, m.classifier p.ref = p.classifier
  classifiers : List.Forall₂ m.MirrorsClassifier document.classifiers m.packagedClassifiers
  associations : List.Forall₂ m.MirrorsAssociation document.associations m.packagedAssociations
  ends : m.LastListed
  /-- No two parts of the document are mirrored by one element. -/
  wellFormed : m.WellFormed
  linked : m.Linked

/-! ## Growing models -/

/-- Properties keep what they say of themselves, but for the association, and classifiers keep their
attributes. -/
structure Grows (m m' : Model) : Prop extends m.Keeps m' where
  property : ∀ p, (m.property p).owner.isSome →
    { m'.property p with association := none } = { m.property p with association := none }
  attributes : ∀ c, (m.classifier c).attributes ⊆ (m'.classifier c).attributes

variable {m m' m'' : Model} {p : PropertyRef} {c : ClassifierRef}

theorem Keeps.refl (m : Model) : m.Keeps m := ⟨rfl, rfl, fun _ => rfl, fun _ _ h => h⟩

theorem Grows.refl (m : Model) : m.Grows m := ⟨.refl m, fun _ _ => rfl, fun _ => List.Subset.refl _⟩

theorem Grows.trans (h : m.Grows m') (h' : m'.Grows m'') : m.Grows m'' :=
  ⟨h.toKeeps.trans h'.toKeeps,
    fun p hp => (h'.property p (h.toKeeps.owner_isSome hp)).trans (h.property p hp),
    fun c => List.Subset.trans (h.attributes c) (h'.attributes c)⟩

theorem Keeps.denotes (h : m.Keeps m') {reference : String} (hd : m.Denotes reference c) :
    m'.Denotes reference c := by
  cases hd with
  | packaged hc hid => exact .packaged (h.packaged ▸ hc) ((h.id c).trans hid)
  | primitive none named => exact .primitive (by simpa only [h.packaged, h.id] using none) named

theorem Keeps.denotes_rel (h : m.Keeps m') {reference : Option String} {c : Option ClassifierRef}
    (hr : Option.Rel m.Denotes reference c) : Option.Rel m'.Denotes reference c := by
  cases hr with
  | some hd => exact .some (h.denotes hd)
  | none => exact .none

theorem Grows.realizes (h : m.Grows m') {owner : Owner} {id : String} {document : AttributeDocument}
    (hr : m.Realizes p owner id document) : m'.Realizes p owner id document := by
  have hp := h.property p (by rw [hr.owner]; rfl)
  simp only [Property.mk.injEq] at hp
  obtain ⟨hid, hname, htype, howner, hmultiplicity, hisId, -, hfacets⟩ := hp
  exact ⟨hid.trans hr.id, hname.trans hr.name, htype ▸ h.denotes_rel hr.type, howner.trans hr.owner,
    hmultiplicity.trans hr.multiplicity, hisId.trans hr.isId, hfacets.trans hr.facets⟩

theorem Grows.isAttribute (h : m.Grows m') (hp : m.IsAttribute p) : m'.IsAttribute p := by
  obtain ⟨c, hc, hp⟩ := hp
  exact ⟨c, h.packaged ▸ hc, h.attributes c hp⟩

theorem Grows.property_id (h : m.Grows m') (hp : (m.property p).owner.isSome) :
    (m'.property p).id = (m.property p).id :=
  (Property.mk.inj (h.property p hp)).1

theorem Grows.mirrorsClassifier (h : m.Grows m') {d : ClassifierDocument}
    (same : m'.classifier c = m.classifier c) (hm : m.MirrorsClassifier d c) :
    m'.MirrorsClassifier d c where
  id := same ▸ hm.id
  name := same ▸ hm.name
  kind := same ▸ hm.kind
  base := same ▸ h.denotes_rel hm.base
  attributes := same ▸ hm.attributes.imp fun _ _ => h.realizes

theorem Grows.mirrorsEnd (h : m.Grows m') (wf : m.WellFormed) {a : AssociationRef} {id : String}
    {e : EndDocument} (he : m.MirrorsEnd a id e p) : m'.MirrorsEnd a id e p := by
  unfold MirrorsEnd at he ⊢
  split at he
  · obtain ⟨⟨c, hc, hp⟩, hid⟩ := he
    have howner : (m.property p).owner.isSome := by rw [wf.owned c p hp]; rfl
    exact ⟨h.isAttribute ⟨c, hc, hp⟩, (h.property_id howner).trans hid⟩
  · exact h.realizes he

theorem Grows.mirrorsAssociation (h : m.Grows m') (wf : m.WellFormed) {a : AssociationRef}
    {s : AssociationDocument} (same : m'.association a = m.association a)
    (hm : m.MirrorsAssociation s a) :
    m'.MirrorsAssociation s a where
  id := same ▸ hm.id
  name := same ▸ hm.name
  ends := same ▸ hm.ends.imp fun _ _ => h.mirrorsEnd wf

/-! ## Steps by which models grow -/

theorem grows_updateClassifier (m : Model) (c : ClassifierRef) {f : Classifier → Classifier}
    (hid : ∀ classifier, (f classifier).id = classifier.id)
    (hf : ∀ classifier, classifier.attributes ⊆ (f classifier).attributes) :
    m.Grows (m.updateClassifier c f) where
  toKeeps := keeps_updateClassifier m c hid
  property := fun _ _ => rfl
  attributes := by
    intro d
    rw [classifier_updateClassifier]
    split
    · exact hf _
    · exact List.Subset.refl _

theorem grows_addProperty (m : Model) (new : Property) : m.Grows (m.addProperty new).2 where
  toKeeps := keeps_addProperty m new
  property := by
    intro p hp
    obtain ⟨o, ho⟩ := Option.isSome_iff_exists.mp hp
    rw [property_addProperty_of_owner m new ho]
  attributes := fun _ => List.Subset.refl _

theorem grows_addAttribute (m : Model) (c : ClassifierRef) (new : Property) (id : Option String) :
    m.Grows (m.addAttribute c new id).2 :=
  (grows_addProperty m _).trans (grows_updateClassifier _ c (fun _ => rfl) fun _ => by simp)

theorem grows_addEnd (m : Model) (a : AssociationRef) (p : PropertyRef) :
    m.Grows (m.addEnd a p) where
  toKeeps := keeps_addEnd m a p
  property := by
    intro q _
    have hq : (m.addEnd a p).property q =
        (m.updateProperty p fun property => { property with association := some a }).property
          q := rfl
    rw [hq, property_updateProperty]
    split <;> rfl
  attributes := fun _ => List.Subset.refl _

theorem grows_createEnd (m : Model) (a : AssociationRef) (new : Property) :
    m.Grows (m.createEnd a new).2 :=
  (grows_addProperty m _).trans (grows_addEnd _ a _)

theorem grows_createAssociation (m : Model) (name : String) (id : Option String) :
    m.Grows (m.createAssociation name id).2 :=
  ⟨keeps_createAssociation m name id, fun _ _ => rfl, fun _ => List.Subset.refl _⟩

end Model

end Schemata
