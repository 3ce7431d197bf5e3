import Schemata.Proofs.Model.Loaded

/-!
# Attributes and ends of loaded models

What a property says of itself and what its classifier and its association list is the same: a
classifier lists each attribute that it owns once, and the ends of associations know that they are
ends.
-/
namespace Schemata
namespace Model

variable {m : Model} {a : AssociationRef} {p : PropertyRef} {c : ClassifierRef}

def EndsOnce (m : Model) : Prop :=
  ∀ a ∈ m.packagedAssociations, ∀ b ∈ m.packagedAssociations, ∀ p ∈ (m.association a).ends,
    p ∈ (m.association b).ends → a = b

instance (m : Model) : Decidable m.EndsOnce :=
  inferInstanceAs (Decidable (∀ a ∈ m.packagedAssociations, ∀ b ∈ m.packagedAssociations,
    ∀ p ∈ (m.association a).ends, p ∈ (m.association b).ends → a = b))

structure Linked (m : Model) : Prop where
  listed : ∀ p c, (m.property p).owner = some (.classifier c) → p ∈ (m.classifier c).attributes
  attributes : ∀ c, (m.classifier c).attributes.Nodup
  ends : ∀ a, ∀ p ∈ (m.association a).ends, (m.property p).association.isSome
  associations : m.packagedAssociations.Nodup
  bounded : ∀ a ∈ m.packagedAssociations, a.place < m.associations.length

theorem property_of_length_le (h : m.properties.length ≤ p.place) : m.property p = {} := by
  rw [property, List.getD_eq_default _ _ h]

theorem property_new (m : Model) (new : Property) : m.property (m.addProperty new).1 = {} :=
  property_of_length_le (Nat.le_refl _)

theorem property_addProperty_of_ne {new : Property} (h : p ≠ (m.addProperty new).1) :
    (m.addProperty new).2.property p = m.property p := by
  obtain ⟨p⟩ := p
  have hne : p ≠ m.properties.length := fun e => h (by rw [e]; rfl)
  simp only [addProperty, property, List.getD_eq_getElem?_getD]
  rcases Nat.lt_or_ge p m.properties.length with hp | hp
  · rw [List.getElem?_append_left hp]
  · rw [List.getElem?_eq_none hp, List.getElem?_eq_none]
    simp only [List.length_append, List.length_singleton]
    omega

theorem association_updateAssociation (m : Model) (a b : AssociationRef)
    (f : Association → Association) :
    (m.updateAssociation a f).association b =
      if a = b ∧ a.place < m.associations.length then f (m.association b) else m.association b := by
  obtain ⟨a⟩ := a
  obtain ⟨b⟩ := b
  simp only [association, updateAssociation, List.getD_eq_getElem?_getD, List.getElem?_modify,
    AssociationRef.mk.injEq]
  by_cases h : a = b
  · subst h
    by_cases ha : a < m.associations.length <;> simp [ha]
  · simp [h]

theorem ends_createAssociation (m : Model) (name : String) (id : Option String)
    (a : AssociationRef) :
    ((m.createAssociation name id).2.association a).ends = (m.association a).ends := by
  simp only [createAssociation, association, List.getD_eq_getElem?_getD]
  rcases Nat.lt_trichotomy a.place m.associations.length with h | h | h
  · rw [List.getElem?_append_left h]
  · rw [h, List.getElem?_concat_length, List.getElem?_eq_none (Nat.le_refl _)]
    rfl
  · rw [List.getElem?_eq_none (Nat.le_of_lt h), List.getElem?_eq_none]
    simp only [List.length_append, List.length_singleton]
    omega

theorem linked_empty (name : String) : (empty name).Linked := by
  have hn : ∀ c, ((empty name).classifier c).attributes = [] := fun c => by
    by_contra h
    exact absurd ((wellFormed_empty name).packaged c h) List.not_mem_nil
  refine ⟨?_, fun c => hn c ▸ List.nodup_nil, ?_, List.nodup_nil, ?_⟩
  · intro p c h
    cases h
  · intro a p h
    cases h
  · intro a h
    cases h

theorem Linked.of_attributes {m' : Model} (h : m.Linked)
    (attributes : ∀ c, (m'.classifier c).attributes = (m.classifier c).attributes)
    (elements : m'.packagedAssociations = m.packagedAssociations)
    (properties : m'.properties = m.properties) (associations : m'.associations = m.associations) :
    m'.Linked := by
  have hproperty : ∀ p, m'.property p = m.property p := fun p => by rw [property, properties]; rfl
  have hassociation : ∀ a, m'.association a = m.association a := fun a => by
    rw [association, associations]
    rfl
  refine ⟨?_, ?_, ?_, elements ▸ h.associations, ?_⟩
  · intro p c
    rw [hproperty, attributes]
    exact h.listed p c
  · intro c
    rw [attributes]
    exact h.attributes c
  · intro a p
    rw [hassociation, hproperty]
    exact h.ends a p
  · rw [elements, associations]
    exact h.bounded

theorem Linked.createClassifier (h : m.Linked) (wf : m.WellFormed) (name id : String)
    (kind : ClassifierKind) : (m.createClassifier name kind none (some id)).2.Linked := by
  refine h.of_attributes (fun c => ?_) (by simp [Model.createClassifier, packagedAssociations])
    rfl rfl
  by_cases hc : c = (m.createClassifier name kind none (some id)).1
  · rw [hc, classifier_createClassifier_self]
    by_contra hne
    exact Nat.lt_irrefl _ (wf.bounded _ (wf.packaged _ (Ne.symm hne)))
  · rw [classifier_createClassifier_of_ne hc]

theorem Linked.ends_addProperty (h : m.Linked) (new : Property) (a : AssociationRef) :
    ∀ p ∈ (m.association a).ends, ((m.addProperty new).2.property p).association.isSome := by
  intro p hp
  have hsome := h.ends a p hp
  rw [property_addProperty_of_ne]
  · exact hsome
  · rintro rfl
    rw [property_new] at hsome
    cases hsome

theorem Linked.addProperty (h : m.Linked) (wf : m.WellFormed) {new : Property}
    (hc : c ∈ m.packagedClassifiers) (owner : new.owner = some (.classifier c))
    {f : Classifier → Classifier} (hf : ∀ classifier,
      (f classifier).attributes.Perm ((m.addProperty new).1 :: classifier.attributes)) :
    ((m.addProperty new).2.updateClassifier c f).Linked := by
  have hclassifier :
      ∀ d, (((m.addProperty new).2.updateClassifier c f).classifier d).attributes.Perm
      (if c = d then (m.addProperty new).1 :: (m.classifier d).attributes
        else (m.classifier d).attributes) := by
    intro d
    rw [classifier_updateClassifier]
    by_cases hd : c = d
    · subst hd
      rw [if_pos ⟨rfl, wf.bounded c hc⟩, if_pos rfl]
      exact hf _
    · rw [if_neg fun h => hd h.1, if_neg hd]
      exact .refl _
  refine ⟨?_, ?_, h.ends_addProperty new, h.associations, h.bounded⟩
  · intro p d hp
    have hp : ((m.addProperty new).2.property p).owner = some (.classifier d) := hp
    rw [(hclassifier d).mem_iff]
    by_cases hnew : p = (m.addProperty new).1
    · rw [hnew, property_addProperty_self, owner] at hp
      cases hp
      rw [if_pos rfl, hnew]
      exact List.mem_cons_self
    · rw [property_addProperty_of_ne hnew] at hp
      have hmem := h.listed p d hp
      split
      · exact List.mem_cons_of_mem _ hmem
      · exact hmem
  · intro d
    rw [(hclassifier d).nodup_iff]
    split
    · refine List.nodup_cons.mpr ⟨fun hmem => ?_, h.attributes d⟩
      have howner := wf.owned d _ hmem
      rw [property_new] at howner
      cases howner
    · exact h.attributes d

theorem Linked.addEnd (h : m.Linked) (a : AssociationRef) (owned : (m.property p).owner.isSome) :
    (m.addEnd a p).Linked := by
  have hp : p.place < m.properties.length := by
    by_contra hp
    rw [property_of_length_le (Nat.le_of_not_lt hp)] at owned
    cases owned
  have hproperty : ∀ q, (m.addEnd a p).property q =
      if p = q then { m.property q with association := some a } else m.property q := by
    intro q
    refine (property_updateProperty m p q _).trans ?_
    simp only [hp, and_true]
  refine ⟨?_, h.attributes, ?_, h.associations, ?_⟩
  · intro q c hq
    refine h.listed q c (Eq.trans ?_ hq)
    rw [hproperty]
    split <;> rfl
  · intro b q hq
    rw [hproperty]
    split
    case isTrue => rfl
    case isFalse hne =>
      refine h.ends b q ?_
      rw [Model.addEnd, association_updateAssociation] at hq
      split at hq
      case isTrue =>
        rcases List.mem_append.mp hq with hq | hq
        · exact hq
        · exact absurd (List.mem_singleton.mp hq).symm hne
      case isFalse => exact hq
  · intro b hb
    have hlength : (m.addEnd a p).associations.length = m.associations.length := by
      simp [Model.addEnd, updateAssociation, updateProperty]
    rw [hlength]
    exact h.bounded b hb

theorem Linked.createEnd (h : m.Linked) (a : AssociationRef) (new : Property) :
    (m.createEnd a new).2.Linked := by
  have hadd :
      ∀ new : Property, new.owner = some (.association a) → (m.addProperty new).2.Linked := by
    intro new owner
    refine ⟨fun p c hp => h.listed p c ?_, h.attributes, h.ends_addProperty new, h.associations,
      h.bounded⟩
    by_cases hnew : p = (m.addProperty new).1
    · rw [hnew, property_addProperty_self, owner] at hp
      cases hp
    · rwa [property_addProperty_of_ne hnew] at hp
  exact (hadd _ rfl).addEnd a (congrArg (·.owner.isSome) (property_addProperty_self m _))

theorem Linked.createAssociation (h : m.Linked) (name : String) (id : Option String) :
    (m.createAssociation name id).2.Linked := by
  have helements : (m.createAssociation name id).2.packagedAssociations =
      m.packagedAssociations ++ [⟨m.associations.length⟩] := by
    simp [Model.createAssociation, packagedAssociations]
  refine ⟨h.listed, h.attributes, ?_, ?_, ?_⟩
  · intro a p hp
    rw [ends_createAssociation] at hp
    exact h.ends a p hp
  · rw [helements]
    refine List.nodup_append.mpr ⟨h.associations, by simp, fun a ha b hb e => ?_⟩
    have hlt := h.bounded a ha
    rw [e, List.mem_singleton.mp hb] at hlt
    exact Nat.lt_irrefl _ hlt
  · intro a ha
    rw [helements, List.mem_append, List.mem_singleton] at ha
    simp only [Model.createAssociation, List.length_append, List.length_singleton]
    rcases ha with ha | rfl
    · exact Nat.lt_succ_of_lt (h.bounded a ha)
    · exact Nat.lt_succ_self _

theorem Constructed.linked (h : m.Constructed) : m.Linked := by
  induction h with
  | empty name => exact linked_empty name
  | classifier name id kind built _ ih => exact ih.createClassifier built.wellFormed name id kind
  | @base m c base _ ih =>
    exact ih.of_attributes (fun d => attributes_base m c d base) rfl rfl rfl
  | ownedAttribute p id built hc ih =>
    exact ih.addProperty built.wellFormed hc rfl fun _ => List.perm_append_singleton _ _
  | identity rule built hc ih => exact ih.addProperty built.wellFormed hc rfl fun _ => .refl _
  | association name id _ ih => exact ih.createAssociation name (some id)
  | member a _ owned ih => exact ih.addEnd a owned
  | ownedEnd a p _ ih => exact ih.createEnd a p

theorem Loaded.linked (h : m.Loaded) : m.Linked := h.constructed.linked

end Model

end Schemata
