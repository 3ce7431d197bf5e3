import Schemata.Proofs.Document.Classifiers

/-!
# Associations of documents

The associations of a document are added behind its classifiers. An end of one is found among the
attributes of all classifiers or is made for it, and from then on knows the association, unless a
later one lists it as well. So a document that is not flawed has a model that mirrors it.
-/
namespace Schemata

variable {document : ModelDocument} {declared : List Declared} {r before : Resolution}

namespace Model
variable {m m' : Model} {p : PropertyRef} {a : AssociationRef} {new : Property}

/-! ## The association of a property -/

theorem lastListed_of_plain (plain : ∀ p, (m.property p).association = none)
    (none : m.packagedAssociations = []) : m.LastListed := by
  intro p
  rw [plain, none]
  rfl

theorem packagedAssociations_createAssociation (m : Model) (name : String) (id : Option String) :
    (m.createAssociation name id).2.packagedAssociations =
      m.packagedAssociations ++ [(m.createAssociation name id).1] := by
  simp [createAssociation, packagedAssociations]

theorem ends_new (m : Model) (name : String) (id : Option String) :
    ((m.createAssociation name id).2.association (m.createAssociation name id).1).ends = [] := by
  rw [ends_createAssociation]
  simp [association, createAssociation]

theorem LastListed.createAssociation (h : m.LastListed) (name : String) (id : Option String) :
    (m.createAssociation name id).2.LastListed := by
  intro p
  rw [packagedAssociations_createAssociation, List.reverse_append, List.reverse_singleton,
    List.singleton_append, List.find?_cons_of_neg (by simp [ends_new])]
  simp only [ends_createAssociation]
  exact h p

theorem LastListed.addProperty (h : m.LastListed) (plain : new.association = none) :
    (m.addProperty new).2.LastListed := by
  intro p
  by_cases hp : p = (m.addProperty new).1
  · rw [hp, property_addProperty_self, plain]
    exact (congrArg Property.association (property_new m new)).symm.trans (h _)
  · rw [property_addProperty_of_ne hp]
    exact h p

theorem property_addEnd (hp : p.place < m.properties.length) (q : PropertyRef) :
    (m.addEnd a p).property q =
      if p = q then { m.property q with association := some a } else m.property q := by
  refine (property_updateProperty m p q _).trans ?_
  simp only [hp, and_true]

theorem association_addEnd (ha : a.place < m.associations.length) (b : AssociationRef) :
    (m.addEnd a p).association b =
      if a = b then { m.association b with ends := (m.association b).ends ++ [p] }
      else m.association b := by
  refine (association_updateAssociation (m.updateProperty p _) a b _).trans ?_
  have ha : a.place <
    (m.updateProperty p fun q => { q with association := some a }).associations.length := ha
  simp only [ha, and_true]
  rfl

theorem LastListed.addEnd (h : m.LastListed) {others : List AssociationRef}
    (last : m.packagedAssociations = others ++ [a]) (ha : a.place < m.associations.length)
    (hp : p.place < m.properties.length) : (m.addEnd a p).LastListed := by
  intro q
  have hpackaged : (m.addEnd a p).packagedAssociations = m.packagedAssociations := rfl
  rw [property_addEnd hp, hpackaged]
  split
  case isTrue hq =>
    rw [last, List.reverse_append, List.reverse_singleton, List.singleton_append,
      List.find?_cons_of_pos]
    simp [association_addEnd ha, hq]
  case isFalse hq =>
    have hsame : ∀ b, q ∈ ((m.addEnd a p).association b).ends ↔ q ∈ (m.association b).ends := by
      intro b
      rw [association_addEnd ha]
      split
      · simp [Ne.symm hq]
      · rfl
    simp only [hsame]
    exact h q

theorem lt_length_of_owner (h : (m.property p).owner.isSome) : p.place < m.properties.length := by
  by_contra hp
  rw [property_of_length_le (Nat.le_of_not_lt hp)] at h
  cases h

/-! ## Ends -/

structure Ended (before : Model) (a : AssociationRef) (s : AssociationDocument)
    (done : List EndDocument) (m : Model) : Prop extends before.Grows m where
  name : m.name = before.name
  classifiers : m.classifiers = before.classifiers
  elements : m.elements = before.elements
  others : ∀ b, b ≠ a → m.association b = before.association b
  bound : a.place < m.associations.length
  mirrors : m.MirrorsAssociation { s with ends := done } a
  lastListed : m.LastListed

variable {origin : Model} {s : AssociationDocument} {done : List EndDocument} {e : EndDocument}

theorem Ended.addProperty (h : Ended origin a s done m) (wf : m.WellFormed)
    (plain : new.association = none) : Ended origin a s done (m.addProperty new).2 :=
  have grows := grows_addProperty m new
  ⟨h.toGrows.trans grows, h.name, h.classifiers, h.elements, h.others, h.bound,
    grows.mirrorsAssociation wf rfl h.mirrors, h.lastListed.addProperty plain⟩

theorem Ended.addEnd (h : Ended origin a s done m) (wf : m.WellFormed)
    {others : List AssociationRef} (last : origin.packagedAssociations = others ++ [a])
    (hp : (m.property p).owner.isSome) (he : m.MirrorsEnd a s!"{s.id}.{done.length}" e p) :
    Ended origin a s (done ++ [e]) (m.addEnd a p) := by
  have grows := grows_addEnd m a p
  have hassociation := association_addEnd (p := p) h.bound
  have hlast : m.packagedAssociations = others ++ [a] := by
    rw [← last, packagedAssociations, h.elements]
    rfl
  refine ⟨h.toGrows.trans grows, h.name, h.classifiers, h.elements, fun b hb => ?_, ?_,
    ⟨?_, ?_, ?_⟩, h.lastListed.addEnd hlast h.bound (lt_length_of_owner hp)⟩
  · rw [hassociation, if_neg hb.symm, h.others b hb]
  · simpa [Model.addEnd, updateAssociation, updateProperty] using h.bound
  · rw [hassociation, if_pos rfl]
    exact h.mirrors.id
  · rw [hassociation, if_pos rfl]
    exact h.mirrors.name
  · rw [hassociation, if_pos rfl, List.zipIdx_append]
    refine List.rel_append (h.mirrors.ends.imp fun _ _ => grows.mirrorsEnd wf) (.cons ?_ .nil)
    simpa using grows.mirrorsEnd wf he

theorem Ended.createEnd (h : Ended origin a s done m) (wf : m.WellFormed)
    {others : List AssociationRef} (last : origin.packagedAssociations = others ++ [a])
    (unrealized : e.realizedBy = none) (name : new.name = e.name)
    (type : Option.Rel m.Denotes e.type new.type)
    (multiplicity : new.multiplicity = ⟨e.lower, upperBound e.upper⟩) (isId : new.isId = false)
    (facets : new.facets = {}) (plain : new.association = none) :
    Ended origin a s (done ++ [e]) (m.createEnd a new).2 := by
  let added : Property := { new with
    id := s!"{(m.association a).id}.{(m.association a).ends.length}"
    owner := some (.association a) }
  have keeps := keeps_addProperty m added
  have hself : (m.addProperty added).2.property (m.addProperty added).1 = added :=
    property_addProperty_self m added
  have hlength : (m.association a).ends.length = done.length := by
    rw [← h.mirrors.ends.length_eq, List.length_zipIdx]
  have hid : added.id = s!"{s.id}.{done.length}" := by
    rw [← hlength, ← h.mirrors.id]
  have hadded : Ended origin a s done (m.addProperty added).2 := h.addProperty wf plain
  refine hadded.addEnd (p := (m.addProperty added).1) (wf.of_keeps keeps fun _ _ hq => .inl hq) last
    (by rw [hself]; rfl) ?_
  simp only [MirrorsEnd, unrealized]
  exact ⟨by rw [hself, hid], by rw [hself]; exact name, by rw [hself]; exact keeps.denotes_rel type,
    by rw [hself], by rw [hself]; exact multiplicity, by rw [hself]; exact isId,
    by rw [hself]; exact facets⟩

end Model

structure Ending (declared : List Declared) (before : Resolution) (a : AssociationRef)
    (s : AssociationDocument) (done : List EndDocument) (r : Resolution) : Prop where
  indexed : Indexed declared r
  attributes : r.attributes = before.attributes
  ended : Model.Ended before.model a s done r.model

theorem resolves_addEnd (documents : declared.map (·.document) = document.classifiers)
    (keys : before.attributes.map (·.1) = document.attributeIds.reverse) {a : AssociationRef}
    {others : List AssociationRef} (last : before.model.packagedAssociations = others ++ [a])
    {s : AssociationDocument} {done : List EndDocument} (h : Ending declared before a s done r)
    (e : EndDocument) :
    Resolves (e.Flawed document) (Ending declared before a s (done ++ [e]))
      (r.addEnd declared s.id a e) := by
  have wf := h.indexed.built.wellFormed
  rw [← h.attributes] at keys
  unfold Resolution.addEnd EndDocument.Flawed
  cases hrealized : e.realizedBy with
  | some reference =>
    dsimp only
    cases hp : r.attributes.lookup reference with
    | none =>
      refine .error (fun hmem => ?_) rfl
      have hmem :
          reference ∈ r.attributes.map (·.1) := by rw [keys]; exact List.mem_reverse.mpr hmem
      obtain ⟨entry, hentry, rfl⟩ := List.mem_map.mp hmem
      simpa using List.lookup_eq_none_iff.mp hp entry hentry
    | some p =>
      obtain ⟨front, back, he, _⟩ := List.lookup_eq_some_iff.mp hp
      have hentry : (reference, p) ∈ r.attributes := by simp [he]
      have hmem : reference ∈ document.attributeIds := by
        rw [← List.mem_reverse, ← keys]
        exact List.mem_map_of_mem hentry
      have howned := h.indexed.owned _ hentry
      have hmirrors : r.model.MirrorsEnd a s!"{s.id}.{done.length}" e p := by
        simpa only [Model.MirrorsEnd, hrealized] using h.indexed.entries _ hentry
      refine .ok (not_not_intro hmem) ⟨?_, h.attributes, h.ended.addEnd wf last howned hmirrors⟩
      exact h.indexed.of_grows (Model.grows_addEnd r.model a p) (h.indexed.built.member a howned)
  | none =>
    cases htype : e.type with
    | none => exact .error trivial rfl
    | some reference =>
      refine (resolves_type documents h.indexed.declares reference).bind fun type hdenotes =>
        (resolves_upper e.upper).bind_pure fun upper hupper => ?_
      subst hupper
      exact ⟨h.indexed.of_grows (Model.grows_createEnd r.model a _) (h.indexed.built.ownedEnd a _),
        h.attributes,
        h.ended.createEnd wf last hrealized rfl (htype ▸ .some hdenotes) rfl rfl rfl rfl⟩

/-! ## Associations -/

/-- The first associations of a document were added behind its classifiers. -/
structure Associating (declared : List Declared) (before : Resolution)
    (done : List AssociationDocument) (r : Resolution) : Prop where
  indexed : Indexed declared r
  attributes : r.attributes = before.attributes
  grows : before.model.Grows r.model
  name : r.model.name = before.model.name
  classifiers : r.model.classifiers = before.model.classifiers
  elements : r.model.elements =
    before.model.elements ++ r.model.packagedAssociations.map Element.association
  associations : List.Forall₂ r.model.MirrorsAssociation done r.model.packagedAssociations
  lastListed : r.model.LastListed

theorem Model.association_createAssociation_self (m : Model) (name id : String) :
    (m.createAssociation name (some id)).2.association (m.createAssociation name (some id)).1 =
      { id, name } := by
  simp [Model.association, Model.createAssociation]

theorem Model.association_createAssociation_of_lt {m : Model} {b : AssociationRef}
    (hb : b.place < m.associations.length) (name : String) (id : Option String) :
    (m.createAssociation name id).2.association b = m.association b := by
  simp [Model.association, Model.createAssociation, List.getElem?_append_left hb]

theorem ended_createAssociation {m : Model} (h : m.LastListed) (s : AssociationDocument) :
    Model.Ended (m.createAssociation s.name (some s.id)).2
      (m.createAssociation s.name (some s.id)).1 s []
      (m.createAssociation s.name (some s.id)).2 := by
  have hself := m.association_createAssociation_self s.name s.id
  refine ⟨.refl _, rfl, rfl, rfl, fun _ _ => rfl, by simp [Model.createAssociation], ⟨?_, ?_, ?_⟩,
    h.createAssociation s.name (some s.id)⟩
  · rw [hself]
  · rw [hself]
  · rw [hself]
    exact .nil

section
variable {s : AssociationDocument} {r' : Resolution}
  (he : Ending declared { r with model := (r.model.createAssociation s.name (some s.id)).2 }
    (r.model.createAssociation s.name (some s.id)).1 s s.ends r')
include he

theorem Ending.packagedAssociations : r'.model.packagedAssociations =
    r.model.packagedAssociations ++ [(r.model.createAssociation s.name (some s.id)).1] := by
  rw [← Model.packagedAssociations_createAssociation, Model.packagedAssociations, he.ended.elements]
  rfl

theorem Ending.association_of_mem (linked : r.model.Linked) {b : AssociationRef}
    (hb : b ∈ r.model.packagedAssociations) : r'.model.association b = r.model.association b := by
  have hlt := linked.bounded b hb
  have hne : b ≠ (r.model.createAssociation s.name (some s.id)).1 := by
    rintro rfl
    exact Nat.lt_irrefl _ hlt
  rw [he.ended.others b hne, Model.association_createAssociation_of_lt hlt]

theorem Ending.forall₂_append {R R' : AssociationDocument → AssociationRef → Prop}
    {done : List AssociationDocument} (linked : r.model.Linked)
    (h : List.Forall₂ R done r.model.packagedAssociations)
    (kept : ∀ x b, r'.model.association b = r.model.association b → R x b → R' x b)
    (new : R' s (r.model.createAssociation s.name (some s.id)).1) :
    List.Forall₂ R' (done ++ [s]) r'.model.packagedAssociations := by
  rw [he.packagedAssociations]
  refine List.rel_append ?_ (.cons new .nil)
  have hsame : ∀ b ∈ r.model.packagedAssociations, r'.model.association b = r.model.association b :=
    fun _ => he.association_of_mem linked
  have hboth := (List.forall₂_and_left _ _).mpr ⟨hsame, h.flip⟩
  exact hboth.flip.imp fun x b hb => kept x b hb.1 hb.2

theorem Associating.addAssociation {done : List AssociationDocument}
    (h : Associating declared before done r) :
    Associating declared before (done ++ [s]) r' := by
  have grows := (Model.grows_createAssociation r.model s.name (some s.id)).trans he.ended.toGrows
  refine ⟨he.indexed, he.attributes.trans h.attributes, h.grows.trans grows,
    he.ended.name.trans h.name,
    he.ended.classifiers.trans h.classifiers, ?_, ?_, he.ended.lastListed⟩
  · rw [he.ended.elements, he.packagedAssociations, List.map_append, ← List.append_assoc,
      ← h.elements]
    rfl
  · exact he.forall₂_append h.indexed.built.linked h.associations
      (fun _ _ same => grows.mirrorsAssociation h.indexed.built.wellFormed same) he.ended.mirrors

end

theorem Associating.ending {done : List AssociationDocument}
    (h : Associating declared before done r) (s : AssociationDocument) :
    Ending declared { r with model := (r.model.createAssociation s.name (some s.id)).2 }
      (r.model.createAssociation s.name (some s.id)).1 s []
      { r with model := (r.model.createAssociation s.name (some s.id)).2 } :=
  ⟨h.indexed.of_grows (Model.grows_createAssociation r.model s.name (some s.id))
    (h.indexed.built.association s.name s.id), rfl, ended_createAssociation h.lastListed s⟩

theorem resolves_addAssociation (documents : declared.map (·.document) = document.classifiers)
    (keys : before.attributes.map (·.1) = document.attributeIds.reverse)
    {done : List AssociationDocument} (h : Associating declared before done r)
    (s : AssociationDocument) :
    Resolves (s.Flawed document) (Associating declared before (done ++ [s]))
      (r.addAssociation declared s) := by
  refine (Resolves.foldlM (h.ending s) fun done e _ _ he => ?_).imp .rfl fun r' he =>
    Associating.addAssociation he h
  exact resolves_addEnd documents (h.attributes ▸ keys)
    (Model.packagedAssociations_createAssociation r.model s.name (some s.id)) he e

/-! ## Documents -/

theorem Filling.associating {m : Model} (h : Filling declared m declared r)
    (declaration : Declaration m declared) : Associating declared r [] r := by
  have hnone : r.model.packagedAssociations = [] := by
    rw [Model.packagedAssociations, h.fills.elements, declaration.elements, List.filterMap_map]
    simp
  have hplain : ∀ p, (r.model.property p).association = none :=
    h.fills.plain fun p => by simp [Model.property, declaration.properties]
  exact ⟨h.indexed, rfl, .refl _, rfl, rfl, by simp [hnone], by rw [hnone]; exact .nil,
    Model.lastListed_of_plain hplain hnone⟩

theorem Associating.mirrors {m : Model} (h : Associating declared before document.associations r)
    (filling : Filling declared m declared before) (declaration : Declaration m declared)
    (documents : declared.map (·.document) = document.classifiers) (name : m.name = document.name) :
    r.model.Mirrors document := by
  have hclassifier : ∀ c, r.model.classifier c = before.model.classifier c := by
    intro c
    rw [Model.classifier, h.classifiers]
    rfl
  have hpackaged : r.model.packagedClassifiers = m.packagedClassifiers :=
    h.grows.packaged.trans filling.fills.packaged
  refine ⟨?_, ?_, fun p => ?_, ?_, h.associations, h.lastListed, h.indexed.built.wellFormed,
    h.indexed.built.linked⟩
  · rw [h.name, filling.fills.name, name]
  · rw [h.elements, hpackaged, filling.fills.elements, declaration.elements]
  · rw [hclassifier, filling.rest _ fun d hd => declaration.apart d hd p, declaration.primitive p]
  · rw [← documents, hpackaged, declaration.declares.refs, List.forall₂_map_left_iff,
      List.forall₂_map_right_iff, List.forall₂_same]
    exact fun d hd => h.grows.mirrorsClassifier (hclassifier d.ref) (filling.classifiers d hd)

theorem Filling.keys_eq {m : Model} (h : Filling declared m declared r)
    (documents : declared.map (·.document) = document.classifiers) :
    r.attributes.map (·.1) = document.attributeIds.reverse := by
  rw [h.keys, ModelDocument.attributeIds, ← documents, List.flatMap_map]

theorem ModelDocument.resolves (document : ModelDocument) :
    Resolves document.Flawed (fun m => m.Mirrors document) document.resolve := by
  have hdeclared :=
    (resolves_declareClassifiers (declaration_empty document.name) document.classifiers).imp
    (show _ ↔ ¬ (document.classifiers.map (·.id)).Nodup by simp) fun _ => id
  refine hdeclared.bind fun ⟨declared, m⟩ ⟨declaration, name, documents⟩ => ?_
  refine (resolves_addClassifiers documents declaration).bind fun before filling => ?_
  refine (Resolves.foldlM (filling.associating declaration) fun done s r _ hr => ?_).bind_pure
    fun r hr => hr.mirrors filling declaration documents name
  exact resolves_addAssociation documents (filling.keys_eq documents) hr s

/-- A document has a model that mirrors it, or it is flawed and reported. -/
theorem ModelDocument.resolve_mirrors (document : ModelDocument) :
    ((∃ e, document.resolve = .error e ∧ e.family = .mapping) ↔ document.Flawed) ∧
      (¬ document.Flawed → ∃ m, document.resolve = .ok m ∧ m.Mirrors document) := by
  have h := document.resolves
  generalize document.resolve = x at h ⊢
  cases h with
  | ok sound mirrors => exact ⟨by simpa using sound, fun _ => ⟨_, rfl, mirrors⟩⟩
  | error flawed mapping => exact ⟨iff_of_true ⟨_, rfl, mapping⟩ flawed, fun h => absurd flawed h⟩

end Schemata
