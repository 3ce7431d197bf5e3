import Schemata.Proofs.Document.Associations
import Schemata.Proofs.Model.GivenIdentities

/-!
# Grounded models

The references of a loaded model lead to classifiers that are packaged in it or primitive, and
identity properties of a primitive type keep it so. Where each packaged classifier that can own
attributes has an identity property, a reference to any of them can be resolved.
-/
namespace Schemata
namespace Model

variable {m m' m'' : Model} {c type : ClassifierRef} {p : PropertyRef}

def Known (m : Model) (c : ClassifierRef) : Prop :=
  c ∈ m.packagedClassifiers ∨ (m.classifier c).kind = .primitive

/-- The ends of associations lead to classes, interfaces and data types. -/
def EndsMembered (m : Model) : Prop :=
  ∀ a ∈ m.packagedAssociations, ∀ p ∈ (m.association a).ends, ∀ type ∈ (m.property p).type,
    (m.classifier type).kind.isMembered = true

instance (m : Model) : Decidable m.EndsMembered :=
  inferInstanceAs (Decidable (∀ a ∈ m.packagedAssociations, ∀ p ∈ (m.association a).ends,
    ∀ type ∈ (m.property p).type, (m.classifier type).kind.isMembered = true))

/-- All that is referred to is known. -/
structure Grounded (m : Model) : Prop where
  bases : ∀ c ∈ m.packagedClassifiers, ∀ base ∈ (m.classifier c).base, m.Known base
  types : ∀ c, ∀ p ∈ (m.classifier c).attributes, ∀ type ∈ (m.property p).type, m.Known type
  ends : ∀ a ∈ m.packagedAssociations, ∀ p ∈ (m.association a).ends, ∀ type ∈ (m.property p).type,
    m.Known type

/-- Each packaged classifier can be referred to by its identity. -/
structure Identified (m : Model) : Prop extends m.Grounded where
  identity : ∀ c ∈ m.packagedClassifiers, (m.classifier c).kind.isMembered = true →
    (m.identityProperty? c).isSome
  membered : m.EndsMembered

/-- Only packaged classifiers can own attributes, since no primitive one can. -/
theorem Known.packaged (h : m.Known c) (membered : (m.classifier c).kind.isMembered = true) :
    c ∈ m.packagedClassifiers := by
  rcases h with hc | primitive
  · exact hc
  · rw [primitive] at membered
    cases membered

theorem Identified.identityProperty?_isSome (h : m.Identified) (known : m.Known c)
    (membered : (m.classifier c).kind.isMembered = true) : (m.identityProperty? c).isSome :=
  h.identity c (known.packaged membered) membered

/-! ## Loaded models -/

variable {document : ModelDocument}

theorem Mirrors.known_ref (h : m.Mirrors document) (p : Primitive) : m.Known p.ref :=
  .inr (congrArg Classifier.kind (h.primitive p))

theorem Mirrors.known (h : m.Mirrors document) {reference : Option String}
    {c? : Option ClassifierRef} (hr : Option.Rel m.Denotes reference c?) : ∀ c ∈ c?, m.Known c := by
  rintro c rfl
  cases hr with
  | some denotes =>
    cases denotes with
    | packaged hc _ => exact .inl hc
    | primitive => exact h.known_ref _

theorem Mirrors.grounded (h : m.Mirrors document) : m.Grounded := by
  have types :
      ∀ c, ∀ p ∈ (m.classifier c).attributes, ∀ type ∈ (m.property p).type, m.Known type := by
    intro c p hp
    have hc := h.wellFormed.packaged c (List.ne_nil_of_mem hp)
    obtain ⟨d, _, mirrors⟩ := exists_mem_of_forall₂ h.classifiers hc
    obtain ⟨x, _, realizes⟩ := exists_mem_of_forall₂ mirrors.attributes hp
    exact h.known realizes.type
  refine ⟨fun c hc => ?_, types, fun a ha p hp => ?_⟩
  · obtain ⟨d, _, mirrors⟩ := exists_mem_of_forall₂ h.classifiers hc
    exact h.known mirrors.base
  · obtain ⟨s, _, mirrors⟩ := exists_mem_of_forall₂ h.associations ha
    obtain ⟨x, _, mirrorsEnd⟩ := exists_mem_of_forall₂ mirrors.ends hp
    rw [MirrorsEnd] at mirrorsEnd
    split at mirrorsEnd
    · obtain ⟨⟨c, _, hp⟩, _⟩ := mirrorsEnd
      exact types c p hp
    · exact h.known mirrorsEnd.type

theorem mirrors_ofDatum {datum : Datum} (ok : ofDatum datum = .ok m) :
    ∃ document : ModelDocument, m.Mirrors document := by
  obtain ⟨document, _, ok⟩ := bind_eq_ok.mp ok
  have h := document.resolves
  rw [ok] at h
  cases h with
  | ok _ mirrors => exact ⟨document, mirrors⟩

/-! ## Identity properties -/

/-- The second model is the first with some identity properties of a type added. -/
structure Provides (m : Model) (type : ClassifierRef) (m' : Model) : Prop extends m.Keeps m' where
  kind : ∀ c, (m'.classifier c).kind = (m.classifier c).kind
  base : ∀ c, (m'.classifier c).base = (m.classifier c).base
  elements : m'.elements = m.elements
  association : ∀ a, m'.association a = m.association a
  property : ∀ p, m'.property p = m.property p ∨
    m.property p = {} ∧ (m'.property p).type = some type
  kept : ∀ c, (m.classifier c).attributes ⊆ (m'.classifier c).attributes
  new : ∀ c, ∀ p ∈ (m'.classifier c).attributes,
    p ∈ (m.classifier c).attributes ∨ (m'.property p).type = some type

theorem Provides.property_of_ne (h : m.Provides type m') (hp : m.property p ≠ {}) :
    m'.property p = m.property p :=
  (h.property p).resolve_right fun e => hp e.1

/-- What classifiers are given are identity properties of the type of the rule. -/
theorem Gives.provides {rule : IdentityRule} {cs : List ClassifierRef} (h : m.Gives rule cs m') :
    m.Provides rule.type m' where
  packaged := h.packagedClassifiers
  size := h.size
  id := fun c => by rcases h.classifier_cases c with e | ⟨p, _, e⟩ <;> rw [e]
  owner := by
    intro p o ho
    rw [h.property p (lt_length_of_owner (by rw [ho]; rfl)), ho]
  kind := h.kind
  base := fun c => by rcases h.classifier_cases c with e | ⟨p, _, e⟩ <;> rw [e]
  elements := h.elements
  association := fun a => by rw [Model.association, h.associations]; rfl
  property := by
    intro p
    rcases Nat.lt_or_ge p.place m.properties.length with hold | hnew
    · exact .inl (h.property p hold)
    · have hempty := property_of_length_le hnew
      rcases Nat.lt_or_ge p.place m'.properties.length with hlt | hout
      · obtain ⟨c, _, _, hp⟩ := h.new p hnew hlt
        exact .inr ⟨hempty, by rw [hp]; rfl⟩
      · exact .inl ((property_of_length_le hout).trans hempty.symm)
  kept := by
    intro c
    rcases h.classifier_cases c with e | ⟨p, _, e⟩ <;> rw [e]
    · exact List.Subset.refl _
    · exact List.subset_cons_self _ _
  new := by
    intro c p hp
    rcases h.classifier_cases c with e | ⟨q, hq, e⟩ <;> rw [e] at hp
    · exact .inl hp
    · rcases List.mem_cons.mp hp with rfl | hp
      · exact .inr (by rw [hq]; rfl)
      · exact .inl hp

theorem Provides.packagedAssociations (h : m.Provides type m') :
    m'.packagedAssociations = m.packagedAssociations := by
  simp only [Model.packagedAssociations, h.elements]

theorem Provides.known (h : m.Provides type m') (known : m.Known c) : m'.Known c := by
  rw [Known, h.packaged, h.kind]
  exact known

theorem Provides.known_type (h : m.Provides type m') (known : m.Known type)
    (before : ∀ t ∈ (m.property p).type, m.Known t) : ∀ t ∈ (m'.property p).type, m'.Known t := by
  intro t ht
  rcases h.property p with e | ⟨_, htype⟩
  · rw [e] at ht
    exact h.known (before t ht)
  · obtain rfl := Option.some.inj (htype.symm.trans ht)
    exact h.known known

theorem Provides.grounded (h : m.Provides type m') (known : m.Known type) (grounded : m.Grounded) :
    m'.Grounded where
  bases := by
    intro c hc base hb
    rw [h.packaged] at hc
    rw [h.base] at hb
    exact h.known (grounded.bases c hc base hb)
  types := by
    intro c p hp t ht
    rcases h.new c p hp with hp | htype
    · exact h.known_type known (grounded.types c p hp) t ht
    · obtain rfl := Option.some.inj (htype.symm.trans ht)
      exact h.known known
  ends := by
    intro a ha p hp
    rw [h.packagedAssociations] at ha
    rw [h.association] at hp
    exact h.known_type known (grounded.ends a ha p hp)

theorem Provides.endsMembered (h : m.Provides type m') (linked : m.Linked)
    (membered : m.EndsMembered) :
    m'.EndsMembered := by
  intro a ha p hp t ht
  rw [h.packagedAssociations] at ha
  rw [h.association] at hp
  have hne : m.property p ≠ {} := by
    intro e
    have hsome := linked.ends a p hp
    rw [e] at hsome
    cases hsome
  rw [h.property_of_ne hne] at ht
  rw [h.kind]
  exact membered a ha p hp t ht

theorem exists_withIdentities (wf : m.WellFormed) (rule : IdentityRule) :
    ∃ m', (m.withIdentities rule).value = .ok m' ∧ m.Provides rule.type m' ∧
      ∀ c ∈ m'.packagedClassifiers, (m'.classifier c).kind.isMembered = true →
        (m'.identityProperty? c).isSome := by
  obtain ⟨m', ok, gives⟩ := withIdentities_gives wf.placed rule
  exact ⟨m', ok, gives.provides, gives.identified wf.placed⟩

/-- A loaded model is identified once identity properties of a primitive type were added. -/
theorem exists_identified {datum : Datum} (ok : ofDatum datum = .ok m) (membered : m.EndsMembered)
    {rule : IdentityRule} (primitive : (m.classifier rule.type).kind = .primitive) :
    ∃ m', (m.withIdentities rule).value = .ok m' ∧ m.Provides rule.type m' ∧ m'.Identified := by
  obtain ⟨document, mirrors⟩ := mirrors_ofDatum ok
  obtain ⟨m', h, provides, identity⟩ := exists_withIdentities mirrors.wellFormed rule
  exact ⟨m', h, provides, provides.grounded (.inr primitive) mirrors.grounded, identity,
    provides.endsMembered mirrors.linked membered⟩

end Model

end Schemata
