import Mathlib.Data.List.GetD
import Mathlib.Data.List.Nodup
import Schemata.Document.Resolve
import Schemata.Model.Identity
import Schemata.Proofs.Outcome

/-!
# Loaded models

A loaded model was read from a document; its classifiers may have been given identity properties.
Its packaged classifiers are told apart by their identifiers, and each of them owns its attributes.
-/
namespace Schemata
namespace Model

variable {m m' : Model}

structure WellFormed (m : Model) : Prop where
  distinct : (m.packagedClassifiers.map fun c => (m.classifier c).id).Nodup
  bounded : ∀ c ∈ m.packagedClassifiers, c.place < m.classifiers.length
  /-- Only packaged classifiers have attributes. -/
  packaged : ∀ c, (m.classifier c).attributes ≠ [] → c ∈ m.packagedClassifiers
  owned : ∀ c, ∀ p ∈ (m.classifier c).attributes, (m.property p).owner = some (.classifier c)

theorem WellFormed.eq_of_id (h : m.WellFormed) {c d : ClassifierRef}
    (hc : c ∈ m.packagedClassifiers) (hd : d ∈ m.packagedClassifiers)
    (e : (m.classifier c).id = (m.classifier d).id) : c = d :=
  List.inj_on_of_nodup_map h.distinct hc hd e

theorem WellFormed.of_identityProperty? (h : m.WellFormed) {c : ClassifierRef} {p : PropertyRef}
    (hp : m.identityProperty? c = some p) :
    c ∈ m.packagedClassifiers ∧ (m.property p).owner = some (.classifier c) :=
  have hm := List.mem_of_find?_eq_some hp
  ⟨h.packaged c (List.ne_nil_of_mem hm), h.owned c p hm⟩

/-- Classifiers stay packaged under their identifiers, and properties keep their owners. -/
structure Keeps (m m' : Model) : Prop where
  packaged : m'.packagedClassifiers = m.packagedClassifiers
  size : m'.classifiers.length = m.classifiers.length
  id : ∀ c, (m'.classifier c).id = (m.classifier c).id
  owner : ∀ p o, (m.property p).owner = some o → (m'.property p).owner = some o

theorem WellFormed.of_keeps (h : m.WellFormed) (k : m.Keeps m')
    (new : ∀ c, ∀ p ∈ (m'.classifier c).attributes, p ∈ (m.classifier c).attributes ∨
      c ∈ m.packagedClassifiers ∧ (m'.property p).owner = some (.classifier c)) :
    m'.WellFormed where
  distinct := by simpa only [k.packaged, k.id] using h.distinct
  bounded := by simpa only [k.packaged, k.size] using h.bounded
  packaged := by
    intro c hc
    rw [k.packaged]
    obtain ⟨p, hp⟩ := List.exists_mem_of_ne_nil _ hc
    rcases new c p hp with hp | ⟨hc, _⟩
    · exact h.packaged c (List.ne_nil_of_mem hp)
    · exact hc
  owned := by
    intro c p hp
    rcases new c p hp with hp | ⟨_, ho⟩
    · exact k.owner p _ (h.owned c p hp)
    · exact ho

theorem Keeps.trans {m'' : Model} (h : m.Keeps m') (h' : m'.Keeps m'') : m.Keeps m'' :=
  ⟨h'.packaged.trans h.packaged, h'.size.trans h.size, fun c => (h'.id c).trans (h.id c),
    fun p o ho => h'.owner p o (h.owner p o ho)⟩

theorem classifier_updateClassifier (m : Model) (c d : ClassifierRef)
    (f : Classifier → Classifier) :
    (m.updateClassifier c f).classifier d =
      if c = d ∧ c.place < m.classifiers.length then f (m.classifier d) else m.classifier d := by
  obtain ⟨c⟩ := c
  obtain ⟨d⟩ := d
  simp only [classifier, updateClassifier, List.getD_eq_getElem?_getD, List.getElem?_modify,
    ClassifierRef.mk.injEq]
  by_cases h : c = d
  · subst h
    by_cases hc : c < m.classifiers.length
    · simp [hc]
    · simp [hc]
  · simp [h]

theorem property_updateProperty (m : Model) (p q : PropertyRef) (f : Property → Property) :
    (m.updateProperty p f).property q =
      if p = q ∧ p.place < m.properties.length then f (m.property q) else m.property q := by
  obtain ⟨p⟩ := p
  obtain ⟨q⟩ := q
  simp only [property, updateProperty, List.getD_eq_getElem?_getD, List.getElem?_modify,
    PropertyRef.mk.injEq]
  by_cases h : p = q
  · subst h
    by_cases hp : p < m.properties.length
    · simp [hp]
    · simp [hp]
  · simp [h]

theorem property_addProperty_self (m : Model) (p : Property) :
    (m.addProperty p).2.property (m.addProperty p).1 = p := by
  simp [addProperty, property]

theorem property_addProperty_of_owner (m : Model) (p : Property) {q : PropertyRef} {o : Owner}
    (h : (m.property q).owner = some o) : (m.addProperty p).2.property q = m.property q := by
  have hq : q.place < m.properties.length := by
    by_contra hq
    rw [property, List.getD_eq_default _ _ (Nat.le_of_not_lt hq)] at h
    cases h
  simp [property, addProperty, List.getElem?_append_left hq]

theorem keeps_updateClassifier (m : Model) (c : ClassifierRef) {f : Classifier → Classifier}
    (hf : ∀ classifier, (f classifier).id = classifier.id) : m.Keeps (m.updateClassifier c f) where
  packaged := rfl
  size := by simp [updateClassifier]
  id := by
    intro d
    rw [classifier_updateClassifier]
    split
    · exact hf _
    · rfl
  owner := fun _ _ ho => ho

theorem keeps_updateProperty (m : Model) (p : PropertyRef) {f : Property → Property}
    (hf : ∀ property, (f property).owner = property.owner) : m.Keeps (m.updateProperty p f) where
  packaged := rfl
  size := rfl
  id := fun _ => rfl
  owner := by
    intro q o ho
    rw [property_updateProperty]
    split
    · rw [hf, ho]
    · exact ho

theorem keeps_addProperty (m : Model) (p : Property) : m.Keeps (m.addProperty p).2 where
  packaged := rfl
  size := rfl
  id := fun _ => rfl
  owner := fun q o ho => by rw [property_addProperty_of_owner m p ho, ho]

/-- A new property of a packaged classifier that owns it may be listed anywhere among the
attributes. -/
theorem WellFormed.addProperty (h : m.WellFormed) {c : ClassifierRef} {p : Property}
    (hc : c ∈ m.packagedClassifiers) (hp : p.owner = some (.classifier c))
    {f : Classifier → Classifier} (hid : ∀ classifier, (f classifier).id = classifier.id)
    (hf : ∀ classifier, ∀ q ∈ (f classifier).attributes,
      q ∈ classifier.attributes ∨ q = (m.addProperty p).1) :
    ((m.addProperty p).2.updateClassifier c f).WellFormed := by
  have k := (keeps_addProperty m p).trans (keeps_updateClassifier (m.addProperty p).2 c hid)
  refine h.of_keeps k fun d q hq => ?_
  rw [classifier_updateClassifier] at hq
  split at hq
  case isFalse => exact .inl hq
  case isTrue hd =>
    rcases hf _ q hq with hq | rfl
    · exact .inl hq
    · refine .inr ⟨hd.1 ▸ hc, ?_⟩
      rw [← hd.1, ← hp]
      exact congrArg Property.owner (property_addProperty_self m p)

theorem keeps_addAttribute (m : Model) (c : ClassifierRef) (p : Property) (id : Option String) :
    m.Keeps (m.addAttribute c p id).2 :=
  (keeps_addProperty m _).trans (keeps_updateClassifier _ c fun _ => rfl)

theorem property_addAttribute_self (m : Model) (c : ClassifierRef) (new : Property)
    (id : Option String) :
    (m.addAttribute c new id).2.property (m.addAttribute c new id).1 =
      { new with id := id.getD (m.attributeId c new.name), owner := some (.classifier c) } :=
  property_addProperty_self m _

theorem classifier_addAttribute (m : Model) (c e : ClassifierRef) (new : Property)
    (id : Option String) :
    (m.addAttribute c new id).2.classifier e =
      if c = e ∧ c.place < m.classifiers.length then
        { m.classifier e with
          attributes := (m.classifier e).attributes ++ [(m.addAttribute c new id).1] }
      else m.classifier e :=
  classifier_updateClassifier (m.addProperty _).2 c e _

theorem WellFormed.addAttribute (h : m.WellFormed) {c : ClassifierRef}
    (hc : c ∈ m.packagedClassifiers) (p : Property) (id : Option String) :
    (m.addAttribute c p id).2.WellFormed :=
  h.addProperty hc rfl (fun _ => rfl) fun _ _ hq => by simpa [Model.addProperty] using hq

theorem WellFormed.insertIdentity (h : m.WellFormed) {c : ClassifierRef}
    (hc : c ∈ m.packagedClassifiers) (rule : IdentityRule) : (m.insertIdentity rule c).WellFormed :=
  h.addProperty hc rfl (fun _ => rfl) fun _ _ hq => by simpa [Model.addProperty, or_comm] using hq

theorem keeps_addEnd (m : Model) (a : AssociationRef) (p : PropertyRef) :
    m.Keeps (m.addEnd a p) where
  packaged := rfl
  size := rfl
  id := fun _ => rfl
  owner :=
    (keeps_updateProperty m p (f := fun property => { property with association := some a })
      fun _ => rfl).owner

theorem WellFormed.addEnd (h : m.WellFormed) (a : AssociationRef) (p : PropertyRef) :
    (m.addEnd a p).WellFormed :=
  h.of_keeps (keeps_addEnd m a p) fun _ _ hq => .inl hq

theorem keeps_createEnd (m : Model) (a : AssociationRef) (p : Property) :
    m.Keeps (m.createEnd a p).2 :=
  (keeps_addProperty m _).trans (keeps_addEnd _ a _)

theorem WellFormed.createEnd (h : m.WellFormed) (a : AssociationRef) (p : Property) :
    (m.createEnd a p).2.WellFormed :=
  h.of_keeps (keeps_createEnd m a p) fun _ _ hq => .inl hq

theorem keeps_createAssociation (m : Model) (name : String) (id : Option String) :
    m.Keeps (m.createAssociation name id).2 :=
  ⟨packagedClassifiers_createAssociation m name id, rfl, fun _ => rfl, fun _ _ ho => ho⟩

theorem WellFormed.createAssociation (h : m.WellFormed) (name : String) (id : Option String) :
    (m.createAssociation name id).2.WellFormed :=
  h.of_keeps (keeps_createAssociation m name id) fun _ _ hq => .inl hq

theorem classifier_createClassifier_self (m : Model) (name id : String) (kind : ClassifierKind)
    (base : Option ClassifierRef) :
    (m.createClassifier name kind base (some id)).2.classifier
      (m.createClassifier name kind base (some id)).1 = { id, name, kind, base } := by
  simp [createClassifier, classifier]

theorem classifier_createClassifier_of_ne {c : ClassifierRef} {name : String}
    {kind : ClassifierKind} {base : Option ClassifierRef} {id : Option String}
    (h : c ≠ (m.createClassifier name kind base id).1) :
    (m.createClassifier name kind base id).2.classifier c = m.classifier c := by
  obtain ⟨c⟩ := c
  have hne : c ≠ m.classifiers.length := fun e => h (by rw [e]; rfl)
  simp only [createClassifier, classifier, List.getD_eq_getElem?_getD]
  rcases Nat.lt_or_ge c m.classifiers.length with hc | hc
  · rw [List.getElem?_append_left hc]
  · rw [List.getElem?_eq_none hc, List.getElem?_eq_none]
    simp only [List.length_append, List.length_singleton]
    omega

theorem WellFormed.classifier_createClassifier (h : m.WellFormed) {c : ClassifierRef}
    (hc : c ∈ m.packagedClassifiers) (name : String) (kind : ClassifierKind)
    (base : Option ClassifierRef) (id : Option String) :
    (m.createClassifier name kind base id).2.classifier c = m.classifier c := by
  refine classifier_createClassifier_of_ne fun e => ?_
  exact Nat.lt_irrefl _ (e ▸ h.bounded c hc)

theorem WellFormed.createClassifier (h : m.WellFormed) {name id : String} {kind : ClassifierKind}
    {base : Option ClassifierRef} (fresh : ∀ c ∈ m.packagedClassifiers, (m.classifier c).id ≠ id) :
    (m.createClassifier name kind base (some id)).2.WellFormed := by
  have hself := classifier_createClassifier_self m name id kind base
  have hids := List.map_congr_left fun c hc =>
    congrArg Classifier.id (h.classifier_createClassifier hc name kind base (some id))
  refine ⟨?_, ?_, ?_, ?_⟩
  · rw [packagedClassifiers_createClassifier, List.map_append, hids]
    refine List.nodup_append.mpr ⟨h.distinct, by simp, ?_⟩
    simpa [hself] using fresh
  · intro c hc
    rw [packagedClassifiers_createClassifier, List.mem_append] at hc
    simp only [Model.createClassifier, List.length_append, List.length_singleton]
    rcases hc with hc | hc
    · have := h.bounded c hc
      omega
    · rw [List.mem_singleton.mp hc]
      exact Nat.lt_succ_self _
  · intro c hc
    rw [packagedClassifiers_createClassifier, List.mem_append, List.mem_singleton]
    by_cases hn : c = (m.createClassifier name kind base (some id)).1
    · exact .inr hn
    · rw [classifier_createClassifier_of_ne hn] at hc
      exact .inl (h.packaged c hc)
  · intro c p hp
    by_cases hn : c = (m.createClassifier name kind base (some id)).1
    · rw [hn, hself] at hp
      cases hp
    · rw [classifier_createClassifier_of_ne hn] at hp
      exact h.owned c p hp

theorem wellFormed_empty (name : String) : (empty name).WellFormed := by
  have hn : ∀ c, ((empty name).classifier c).attributes = [] := fun c => by
    rw [classifier, List.getD_eq_getElem?_getD, empty, List.getElem?_map]
    cases Primitive.all[c.place]? <;> rfl
  refine ⟨List.nodup_nil, fun c hc => absurd hc List.not_mem_nil, fun c hc => absurd (hn c) hc, ?_⟩
  intro c p hp
  rw [hn c] at hp
  cases hp

/-- The models that can be built from an empty one by the operations that documents and identity
rules use. -/
inductive Constructed : Model → Prop
  | empty (name : String) : Constructed (empty name)
  | classifier {m : Model} (name id : String) (kind : ClassifierKind) : Constructed m →
    (∀ c ∈ m.packagedClassifiers, (m.classifier c).id ≠ id) →
    Constructed (m.createClassifier name kind none (some id)).2
  | base {m : Model} (c : ClassifierRef) (base : Option ClassifierRef) : Constructed m →
    Constructed (m.updateClassifier c fun classifier => { classifier with base })
  | ownedAttribute {m : Model} {c : ClassifierRef} (p : Property) (id : Option String) :
      Constructed m →
    c ∈ m.packagedClassifiers → Constructed (m.addAttribute c p id).2
  | identity {m : Model} {c : ClassifierRef} (rule : IdentityRule) : Constructed m →
    c ∈ m.packagedClassifiers → Constructed (m.insertIdentity rule c)
  | association {m : Model} (name id : String) : Constructed m →
    Constructed (m.createAssociation name (some id)).2
  | member {m : Model} (a : AssociationRef) {p : PropertyRef} : Constructed m →
    (m.property p).owner.isSome → Constructed (m.addEnd a p)
  | ownedEnd {m : Model} (a : AssociationRef) (p : Property) : Constructed m →
    Constructed (m.createEnd a p).2

theorem keeps_base (m : Model) (c : ClassifierRef) (base : Option ClassifierRef) :
    m.Keeps (m.updateClassifier c fun classifier => { classifier with base }) :=
  keeps_updateClassifier m c fun _ => rfl

theorem attributes_base (m : Model) (c d : ClassifierRef) (base : Option ClassifierRef) :
    ((m.updateClassifier c fun classifier => { classifier with base }).classifier d).attributes =
      (m.classifier d).attributes := by
  rw [classifier_updateClassifier]
  split <;> rfl

theorem Constructed.wellFormed (h : m.Constructed) : m.WellFormed := by
  induction h with
  | empty name => exact wellFormed_empty name
  | classifier name id kind _ fresh ih => exact ih.createClassifier fresh
  | @base m c base _ ih =>
    refine ih.of_keeps (keeps_base m c base) fun d p hp => .inl ?_
    rwa [attributes_base] at hp
  | ownedAttribute p id _ hc ih => exact ih.addAttribute hc p id
  | identity rule _ hc ih => exact ih.insertIdentity hc rule
  | association name id _ ih => exact ih.createAssociation name (some id)
  | @member m a p _ _ ih => exact ih.addEnd a p
  | ownedEnd a p _ ih => exact ih.createEnd a p

variable {declared declared' : List Declared}

def Declares (m : Model) (declared : List Declared) : Prop :=
  m.packagedClassifiers.map (fun c => (c, (m.classifier c).id)) =
    declared.map fun d => (d.ref, d.document.id)

theorem Declares.refs (h : m.Declares declared) : m.packagedClassifiers = declared.map (·.ref) := by
  simpa [Function.comp_def] using congrArg (List.map Prod.fst) h

theorem Declares.mem (h : m.Declares declared) {d : Declared} (hd : d ∈ declared) :
    d.ref ∈ m.packagedClassifiers :=
  h.refs ▸ List.mem_map_of_mem hd

theorem Declares.id (h : m.Declares declared) {d : Declared} (hd : d ∈ declared) :
    (m.classifier d.ref).id = d.document.id := by
  have hmem :
      (d.ref, d.document.id) ∈ m.packagedClassifiers.map fun c => (c, (m.classifier c).id) :=
    h ▸ List.mem_map_of_mem hd
  obtain ⟨c, _, he⟩ := List.mem_map.mp hmem
  obtain ⟨rfl, hid⟩ := Prod.mk.inj he
  exact hid

theorem Declares.exists_of_mem (h : m.Declares declared) {c : ClassifierRef}
    (hc : c ∈ m.packagedClassifiers) :
    ∃ d ∈ declared, d.ref = c ∧ d.document.id = (m.classifier c).id := by
  have hmem : (c, (m.classifier c).id) ∈ declared.map fun d => (d.ref, d.document.id) :=
    h ▸ List.mem_map_of_mem hc
  obtain ⟨d, hd, he⟩ := List.mem_map.mp hmem
  exact ⟨d, hd, (Prod.mk.inj he).1, (Prod.mk.inj he).2⟩

theorem Declares.of_keeps (h : m.Declares declared) (k : m.Keeps m') : m'.Declares declared := by
  simpa only [Declares, k.packaged, k.id] using h

theorem Declares.createClassifier (h : m.Declares declared) (wf : m.WellFormed)
    (document : ClassifierDocument) {name : String} {kind : ClassifierKind}
    {base : Option ClassifierRef} :
    (m.createClassifier name kind base (some document.id)).2.Declares
      (declared ++ [⟨(m.createClassifier name kind base (some document.id)).1, document⟩]) := by
  have hids := List.map_congr_left fun c hc =>
    congrArg (fun d => (c, d.id))
      (wf.classifier_createClassifier hc name kind base (some document.id))
  rw [Declares, packagedClassifiers_createClassifier, List.map_append, hids, List.map_append,
    show m.packagedClassifiers.map (fun c => (c, (m.classifier c).id)) = _ from h]
  simp [classifier_createClassifier_self]

theorem declareClassifiers_ok {documents : List ClassifierDocument}
    (h : declareClassifiers m declared documents = .ok (declared', m')) (built : m.Constructed)
    (hd : m.Declares declared) : m'.Constructed ∧ m'.Declares declared' := by
  induction documents generalizing m declared with
  | nil =>
    cases h
    exact ⟨built, hd⟩
  | cons document rest ih =>
    rw [declareClassifiers] at h
    split at h
    case isTrue => cases h
    case isFalse hf =>
      have fresh : ∀ c ∈ m.packagedClassifiers, (m.classifier c).id ≠ document.id := by
        intro c hc e
        obtain ⟨d, hd, -, hid⟩ := hd.exists_of_mem hc
        refine hf (List.any_eq_true.mpr ⟨d, hd, ?_⟩)
        rw [hid, e, beq_self_eq_true]
      exact ih h (built.classifier _ _ _ fresh) (hd.createClassifier built.wellFormed document)

/-- The classifiers of a document were declared; their references may have been followed. -/
structure Resolving (declared : List Declared) (r : Resolution) : Prop where
  built : r.model.Constructed
  declares : r.model.Declares declared
  /-- A property that an end can refer to has an owner. -/
  owned : ∀ entry ∈ r.attributes, (r.model.property entry.2).owner.isSome

theorem Keeps.owner_isSome (k : m.Keeps m') {p : PropertyRef} (h : (m.property p).owner.isSome) :
    (m'.property p).owner.isSome := by
  obtain ⟨o, ho⟩ := Option.isSome_iff_exists.mp h
  rw [k.owner p o ho]
  rfl

variable {r r' : Resolution}

theorem Resolving.of_keeps (h : Resolving declared r) (k : r.model.Keeps m')
    (built : m'.Constructed) :
    Resolving declared { r with model := m' } :=
  ⟨built, h.declares.of_keeps k, fun entry he => k.owner_isSome (h.owned entry he)⟩

theorem Resolving.addAttribute {d : Declared} {document : AttributeDocument}
    (h : Resolving declared r) (hd : d ∈ declared)
    (ok : r.addAttribute declared d document = .ok r') : Resolving declared r' := by
  obtain ⟨type, _, ok⟩ := bind_eq_ok.mp ok
  obtain ⟨upper, _, ok⟩ := bind_eq_ok.mp ok
  cases ok
  have k := keeps_addAttribute r.model d.ref
    { name := document.name, type, multiplicity := ⟨document.lower, upper⟩, isId := document.isId
      facets := document.facets } document.id
  refine ⟨h.built.ownedAttribute _ _ (h.declares.mem hd), h.declares.of_keeps k, fun entry he => ?_⟩
  rcases List.mem_cons.mp he with rfl | he
  · exact congrArg (fun p => p.owner.isSome) (property_addProperty_self r.model _)
  · exact k.owner_isSome (h.owned entry he)

theorem Resolving.addClassifier {d : Declared} (h : Resolving declared r) (hd : d ∈ declared)
    (ok : r.addClassifier declared d = .ok r') : Resolving declared r' := by
  obtain ⟨base, _, ok⟩ := bind_eq_ok.mp ok
  exact foldlM_induction (P := Resolving declared) ok
    (h.of_keeps (keeps_base r.model d.ref base) (h.built.base d.ref base))
    fun r document r' _ h ok => h.addAttribute hd ok

theorem Resolving.addEnd {association : String} {a : AssociationRef} {document : EndDocument}
    (h : Resolving declared r) (ok : r.addEnd declared association a document = .ok r') :
    Resolving declared r' := by
  rw [Resolution.addEnd] at ok
  split at ok
  case h_1 =>
    split at ok
    case h_1 p hp =>
      cases ok
      obtain ⟨before, after, e, _⟩ := List.lookup_eq_some_iff.mp hp
      have owned := h.owned (_, p) (e ▸ List.mem_append_right _ List.mem_cons_self)
      exact h.of_keeps (keeps_addEnd _ a p) (h.built.member a owned)
    case h_2 => cases ok
  case h_2 =>
    obtain ⟨type, _, ok⟩ := bind_eq_ok.mp ok
    obtain ⟨upper, _, ok⟩ := bind_eq_ok.mp ok
    cases ok
    exact h.of_keeps (keeps_createEnd _ a _) (h.built.ownedEnd a _)
  case h_3 => cases ok

theorem Resolving.addAssociation {document : AssociationDocument} (h : Resolving declared r)
    (ok : r.addAssociation declared document = .ok r') : Resolving declared r' :=
  foldlM_induction (P := Resolving declared) ok
    (h.of_keeps (keeps_createAssociation _ document.name (some document.id))
      (h.built.association document.name document.id))
    fun _ _ _ _ h ok => h.addEnd ok

theorem constructed_ofDatum {datum : Datum} (ok : ofDatum datum = .ok m) : m.Constructed := by
  obtain ⟨document, _, ok⟩ := bind_eq_ok.mp ok
  obtain ⟨⟨declared, model⟩, hd, ok⟩ := bind_eq_ok.mp ok
  obtain ⟨r, hr, ok⟩ := bind_eq_ok.mp ok
  obtain ⟨r', hr', ok⟩ := bind_eq_ok.mp ok
  cases ok
  obtain ⟨built, hm⟩ := declareClassifiers_ok hd (.empty _) rfl
  have h : Resolving declared r :=
    foldlM_induction (P := Resolving declared) hr ⟨built, hm, by simp⟩
      fun r d r' hd h ok => h.addClassifier hd ok
  exact (foldlM_induction (P := Resolving declared) hr' h
    fun r document r' _ h ok => h.addAssociation ok).built

theorem Constructed.withIdentities (h : m.Constructed) {rule : IdentityRule}
    (ok : (m.withIdentities rule).value = .ok m') : m'.Constructed := by
  -- Each classifier is still packaged when its turn comes, since only attributes are added.
  refine (Logged.foldlM_induction
    (P := fun n => n.Constructed ∧ n.packagedClassifiers = m.packagedClassifiers) ok ⟨h, rfl⟩ ?_).1
  intro n c n' hc hn ok
  rw [ensureIdentity] at ok
  split at ok
  · cases ok
    exact hn
  · split at ok
    · cases ok
      exact hn
    · cases ok
      exact ⟨hn.1.identity rule (hn.2 ▸ hc), hn.2⟩

/-- The models that documents describe, with or without identity properties added. -/
inductive Loaded : Model → Prop
  | document {datum : Datum} {m : Model} : ofDatum datum = .ok m → Loaded m
  | identities {m m' : Model} (rule : IdentityRule) :
    Loaded m → (m.withIdentities rule).value = .ok m' → Loaded m'

theorem Loaded.constructed (h : m.Loaded) : m.Constructed := by
  induction h with
  | document ok => exact constructed_ofDatum ok
  | identities rule _ ok ih => exact ih.withIdentities ok

theorem Loaded.wellFormed (h : m.Loaded) : m.WellFormed := h.constructed.wellFormed

end Model

end Schemata
