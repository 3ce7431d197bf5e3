import Schemata.Proofs.Model.Ends

/-!
# Models that are given identities

Each packaged classifier that can own attributes and has no identity property is given one in front
of its attributes, and all else is kept. What is given is never given again, by any rule.
-/
namespace Schemata

def IdentityRule.property (rule : IdentityRule) (m : Model) (c : ClassifierRef) : Property :=
  { id := s!"{(m.classifier c).id}.{rule.nameOf (m.classifier c)}"
    name := rule.nameOf (m.classifier c)
    type := some rule.type
    owner := some (.classifier c)
    isId := true }

namespace Model

/-- The classifier can own attributes, and none of its attributes is marked as identity. -/
def lacksIdentity (m : Model) (c : ClassifierRef) : Bool :=
  (m.classifier c).kind.isMembered && (m.identityProperty? c).isNone

/-- Packaged classifiers, and the attributes of classifiers, have places in the model. -/
structure Placed (m : Model) : Prop where
  classifiers : ∀ c ∈ m.packagedClassifiers, c.place < m.classifiers.length
  attributes : ∀ c, ∀ p ∈ (m.classifier c).attributes, p.place < m.properties.length

/-- Some classifiers were given identity properties, where they lacked them, and nothing else
differs. -/
structure Gives (m : Model) (rule : IdentityRule) (cs : List ClassifierRef) (m' : Model) :
    Prop where
  name : m'.name = m.name
  elements : m'.elements = m.elements
  issued : m'.issued = m.issued
  associations : m'.associations = m.associations
  size : m'.classifiers.length = m.classifiers.length
  grows : m.properties.length ≤ m'.properties.length
  property : ∀ p, p.place < m.properties.length → m'.property p = m.property p
  others : ∀ c, c ∉ cs ∨ m.lacksIdentity c = false → m'.classifier c = m.classifier c
  given : ∀ c ∈ cs, m.lacksIdentity c = true → ∃ p : PropertyRef,
    m.properties.length ≤ p.place ∧ p.place < m'.properties.length ∧
    m'.property p = rule.property m c ∧
      m'.classifier c = { m.classifier c with attributes := p :: (m.classifier c).attributes }
  new : ∀ p : PropertyRef, m.properties.length ≤ p.place → p.place < m'.properties.length →
    ∃ c ∈ cs, m.lacksIdentity c = true ∧ m'.property p = rule.property m c

variable {m m' : Model} {rule : IdentityRule} {c d : ClassifierRef} {cs : List ClassifierRef}

/-! ## One classifier -/

theorem property_insertIdentity (m : Model) (rule : IdentityRule) (c : ClassifierRef)
    (p : PropertyRef) :
    (m.insertIdentity rule c).property p =
      if p = ⟨m.properties.length⟩ then rule.property m c else m.property p := by
  split
  case isTrue hp =>
    subst hp
    exact property_addProperty_self m (rule.property m c)
  case isFalse hp =>
    have hp : p ≠ (m.addProperty (rule.property m c)).1 := hp
    exact property_addProperty_of_ne hp

theorem classifier_insertIdentity (m : Model) (rule : IdentityRule) (c d : ClassifierRef) :
    (m.insertIdentity rule c).classifier d =
      if c = d ∧ c.place < m.classifiers.length then
        { m.classifier d with attributes := ⟨m.properties.length⟩ :: (m.classifier d).attributes }
      else m.classifier d :=
  classifier_updateClassifier (m.addProperty (rule.property m c)).2 c d _

theorem length_insertIdentity (m : Model) (rule : IdentityRule) (c : ClassifierRef) :
    (m.insertIdentity rule c).properties.length = m.properties.length + 1 ∧
      (m.insertIdentity rule c).classifiers.length = m.classifiers.length := by
  simp [insertIdentity, addProperty, updateClassifier]

theorem ensureIdentity_value (rule : IdentityRule) (m : Model) (c : ClassifierRef) :
    (ensureIdentity rule m c).value =
      .ok (if m.lacksIdentity c then m.insertIdentity rule c else m) := by
  rw [ensureIdentity, lacksIdentity]
  cases (m.classifier c).kind.isMembered with
  | false => rfl
  | true => cases m.identityProperty? c <;> rfl

/-- Where no classifier lacks an identity property, no rule changes anything. -/
theorem withIdentities_of_identified (rule : IdentityRule)
    (h : ∀ c ∈ m.packagedClassifiers, m.lacksIdentity c = false) :
    (m.withIdentities rule).value = .ok m := by
  rw [withIdentities, Logged.value_foldlM]
  generalize m.packagedClassifiers = cs at h
  induction cs with
  | nil => rfl
  | cons c rest ih =>
    have hc : (ensureIdentity rule m c).value = .ok m := by
      rw [ensureIdentity_value, h c List.mem_cons_self]
      rfl
    rw [List.foldlM_cons, hc]
    exact ih fun d hd => h d (List.mem_cons_of_mem _ hd)

/-! ## All classifiers -/

theorem Gives.refl (m : Model) (rule : IdentityRule) : m.Gives rule [] m :=
  ⟨rfl, rfl, rfl, rfl, rfl, Nat.le_refl _, fun _ _ => rfl, fun _ _ => rfl, by simp,
    fun _ hp hlt => absurd hp (Nat.not_le_of_lt hlt)⟩

theorem Gives.classifier_cases (h : m.Gives rule cs m') (c : ClassifierRef) :
    m'.classifier c = m.classifier c ∨ ∃ p : PropertyRef, m'.property p = rule.property m c ∧
      m'.classifier c = { m.classifier c with attributes := p :: (m.classifier c).attributes } := by
  by_cases hc : c ∈ cs ∧ m.lacksIdentity c = true
  · obtain ⟨p, _, _, hp, e⟩ := h.given c hc.1 hc.2
    exact .inr ⟨p, hp, e⟩
  · exact .inl (h.others c (by simpa [or_iff_not_imp_left] using hc))

theorem Gives.kind (h : m.Gives rule cs m') (c : ClassifierRef) :
    (m'.classifier c).kind = (m.classifier c).kind := by
  rcases h.classifier_cases c with e | ⟨p, _, e⟩ <;> rw [e]

theorem Gives.packagedClassifiers (h : m.Gives rule cs m') :
    m'.packagedClassifiers = m.packagedClassifiers := by
  simp only [Model.packagedClassifiers, h.elements]

/-- Exactly the classifiers that were not given an identity property still lack one. -/
theorem Gives.lacksIdentity (h : m.Gives rule cs m') (placed : m.Placed) (c : ClassifierRef) :
    m'.lacksIdentity c = (m.lacksIdentity c && decide (c ∉ cs)) := by
  by_cases hc : c ∈ cs ∧ m.lacksIdentity c = true
  · obtain ⟨p, -, -, hp, e⟩ := h.given c hc.1 hc.2
    have hsome : m'.identityProperty? c = some p := by
      rw [identityProperty?, e]
      exact List.find?_cons_of_pos (by rw [hp]; rfl)
    simp [Model.lacksIdentity, hsome, hc.1]
  · have e := h.others c (by simpa [or_iff_not_imp_left] using hc)
    have hsame : m'.lacksIdentity c = m.lacksIdentity c := by
      have hfind : m'.identityProperty? c = m.identityProperty? c := by
        rw [identityProperty?, identityProperty?, e, ← List.head?_filter, ← List.head?_filter]
        exact congrArg List.head?
          (List.filter_congr fun p hp => by rw [h.property p (placed.attributes c p hp)])
      rw [Model.lacksIdentity, Model.lacksIdentity, hfind, e]
    rw [hsame]
    cases hl : m.lacksIdentity c with
    | false => rfl
    | true => simp [show c ∉ cs from fun hcs => hc ⟨hcs, hl⟩]

theorem Gives.skip (h : m.Gives rule cs m') (had : m.lacksIdentity c = true → c ∈ cs) :
    m.Gives rule (cs ++ [c]) m' := by
  refine ⟨h.name, h.elements, h.issued, h.associations, h.size, h.grows, h.property, ?_, ?_, ?_⟩
  · exact fun d hd => h.others d (hd.imp_left fun hd hmem => hd (List.mem_append_left _ hmem))
  · intro d hd lacks
    refine h.given d ?_ lacks
    rcases List.mem_append.mp hd with hd | hd
    · exact hd
    · obtain rfl := List.mem_singleton.mp hd
      exact had lacks
  · intro p hp hlt
    obtain ⟨d, hd, lacks, hpp⟩ := h.new p hp hlt
    exact ⟨d, List.mem_append_left _ hd, lacks, hpp⟩

theorem Gives.insert (h : m.Gives rule cs m') (hc : c.place < m.classifiers.length)
    (lacks : m.lacksIdentity c = true) (fresh : c ∉ cs) :
    m.Gives rule (cs ++ [c]) (m'.insertIdentity rule c) := by
  have hclassifier := h.others c (.inl fresh)
  obtain ⟨hlength, hsize⟩ := length_insertIdentity m' rule c
  have hself : (m'.insertIdentity rule c).property ⟨m'.properties.length⟩ = rule.property m c := by
    rw [property_insertIdentity, if_pos rfl, IdentityRule.property, hclassifier]
    rfl
  have hother : ∀ p : PropertyRef, p.place < m'.properties.length →
      (m'.insertIdentity rule c).property p = m'.property p := by
    intro p hp
    rw [property_insertIdentity, if_neg]
    rintro rfl
    exact Nat.lt_irrefl _ hp
  refine ⟨h.name, h.elements, h.issued, h.associations, hsize.trans h.size, ?_, ?_, ?_, ?_, ?_⟩
  · have := h.grows
    omega
  · intro p hp
    rw [hother p (Nat.lt_of_lt_of_le hp h.grows), h.property p hp]
  · intro d hd
    have hne : c ≠ d := by
      rintro rfl
      simp [lacks] at hd
    rw [classifier_insertIdentity, if_neg fun e => hne e.1]
    exact h.others d (hd.imp_left fun hd hmem => hd (List.mem_append_left _ hmem))
  · intro d hd hlacks
    by_cases he : d = c
    · subst he
      refine ⟨⟨m'.properties.length⟩, h.grows, by simp [hlength], hself, ?_⟩
      rw [classifier_insertIdentity, if_pos ⟨rfl, h.size ▸ hc⟩, hclassifier]
    · obtain ⟨p, hp, hlt, hpp, e⟩ := h.given d (by simpa [he] using hd) hlacks
      refine ⟨p, hp, by omega, (hother p hlt).trans hpp, ?_⟩
      rw [classifier_insertIdentity, if_neg fun e => he e.1.symm, e]
  · intro p hp hlt
    rcases Nat.lt_or_ge p.place m'.properties.length with hold | hnew
    · obtain ⟨d, hd, hlacks, hpp⟩ := h.new p hp hold
      exact ⟨d, List.mem_append_left _ hd, hlacks, (hother p hold).trans hpp⟩
    · obtain rfl : p = ⟨m'.properties.length⟩ := congrArg PropertyRef.mk (by omega)
      exact ⟨c, by simp, lacks, hself⟩

/-- A further classifier is given an identity property, unless it has one or was given one
before. -/
theorem Gives.step (h : m.Gives rule cs m') (placed : m.Placed)
    (hc : c.place < m.classifiers.length) :
    m.Gives rule (cs ++ [c]) (if m'.lacksIdentity c then m'.insertIdentity rule c else m') := by
  rw [h.lacksIdentity placed]
  by_cases hnew : m.lacksIdentity c = true ∧ c ∉ cs
  · rw [if_pos (by simpa using hnew)]
    exact h.insert hc hnew.1 hnew.2
  · rw [if_neg (by simpa using hnew)]
    exact h.skip (by simpa using hnew)

/-- Every packaged classifier that lacks an identity property is given one. -/
theorem withIdentities_gives (placed : m.Placed) (rule : IdentityRule) :
    ∃ m', (m.withIdentities rule).value = .ok m' ∧ m.Gives rule m.packagedClassifiers m' := by
  -- The classifiers behind those that are done are as they were in the first model.
  suffices h : ∀ rest done n, done ++ rest = m.packagedClassifiers → m.Gives rule done n →
      ∃ m', rest.foldlM (fun n c => (ensureIdentity rule n c).value) n = .ok m' ∧
        m.Gives rule m.packagedClassifiers m' by
    rw [withIdentities, Logged.value_foldlM]
    exact h m.packagedClassifiers [] m rfl (.refl m rule)
  intro rest
  induction rest with
  | nil =>
    rintro done n hdone h
    rw [List.append_nil] at hdone
    exact ⟨n, rfl, hdone ▸ h⟩
  | cons c rest ih =>
    rintro done n hdone h
    have hc : c ∈ m.packagedClassifiers := hdone ▸ by simp
    obtain ⟨m', ok, h⟩ :=
      ih (done ++ [c]) _ (by simpa using hdone) (h.step placed (placed.classifiers c hc))
    refine ⟨m', ?_, h⟩
    rw [List.foldlM_cons, ensureIdentity_value]
    exact ok

theorem Gives.lacksIdentity_eq_false (h : m.Gives rule m.packagedClassifiers m')
    (placed : m.Placed) :
    ∀ c ∈ m'.packagedClassifiers, m'.lacksIdentity c = false := by
  intro c hc
  rw [h.packagedClassifiers] at hc
  simp [h.lacksIdentity placed, hc]

theorem Gives.identified (h : m.Gives rule m.packagedClassifiers m') (placed : m.Placed) :
    ∀ c ∈ m'.packagedClassifiers, (m'.classifier c).kind.isMembered = true →
      (m'.identityProperty? c).isSome = true := by
  intro c hc membered
  have hlacks := h.lacksIdentity_eq_false placed c hc
  simpa [Model.lacksIdentity, membered, Option.isSome_iff_ne_none] using hlacks

theorem WellFormed.placed (h : m.WellFormed) : m.Placed := by
  refine ⟨h.bounded, fun c p hp => ?_⟩
  by_contra hlt
  have howner := h.owned c p hp
  rw [property_of_length_le (Nat.le_of_not_lt hlt)] at howner
  cases howner

theorem Loaded.placed (h : m.Loaded) : m.Placed := h.wellFormed.placed

end Model

end Schemata
