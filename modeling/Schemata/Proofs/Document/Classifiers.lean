import Schemata.Proofs.Document.References

/-!
# Classifiers of documents

The classifiers of a document are declared first. Then each of them is given its base and its
attributes, one after the other; those behind it stay as they were declared.
-/
namespace Schemata

variable {document : ModelDocument} {declared : List Declared} {m m' : Model} {d : Declared}
  {r r' before : Resolution}

/-! ## Declarations -/

/-- All that a model has are the classifiers of a document, without what refers to others. -/
structure Declaration (m : Model) (declared : List Declared) : Prop where
  built : m.Constructed
  declares : m.Declares declared
  blank : ∀ d ∈ declared, m.classifier d.ref =
    { id := d.document.id, name := d.document.name, kind := d.document.kind }
  primitive : ∀ p : Primitive, m.classifier p.ref = p.classifier
  apart : ∀ d ∈ declared, ∀ p : Primitive, d.ref ≠ p.ref
  elements : m.elements = m.packagedClassifiers.map Element.classifier
  properties : m.properties = []
  associations : m.associations = []

theorem declaration_empty (name : String) : Declaration (Model.empty name) [] :=
  ⟨.empty name, rfl, by simp, Model.classifier_ref name, by simp, rfl, rfl, rfl⟩

theorem Model.Declares.ids_nodup (h : m.Declares declared) (wf : m.WellFormed) :
    (declared.map fun d => d.document.id).Nodup := by
  have hids := congrArg (List.map Prod.snd) h
  simp only [List.map_map, Function.comp_def] at hids
  exact hids ▸ wf.distinct

theorem Declaration.createClassifier (h : Declaration m declared) (document : ClassifierDocument)
    (fresh : ∀ d ∈ declared, d.document.id ≠ document.id) :
    Declaration (m.createClassifier document.name document.kind none (some document.id)).2
      (declared ++ [⟨(m.createClassifier document.name document.kind none (some document.id)).1,
        document⟩]) := by
  have wf := h.built.wellFormed
  have hfresh : ∀ c ∈ m.packagedClassifiers, (m.classifier c).id ≠ document.id := by
    intro c hc
    obtain ⟨d, hd, -, hid⟩ := h.declares.exists_of_mem hc
    exact hid ▸ fresh d hd
  -- a place behind the last one has no kind of its own
  have hnew : ∀ p : Primitive, ⟨m.classifiers.length⟩ ≠ p.ref := by
    intro p e
    have hplace := h.primitive p
    rw [← e] at hplace
    simp [Model.classifier, Primitive.classifier] at hplace
  refine ⟨h.built.classifier _ _ _ hfresh, h.declares.createClassifier wf document, ?_, ?_, ?_, ?_,
    h.properties, h.associations⟩
  · intro d hd
    rcases List.mem_append.mp hd with hd | hd
    · rw [wf.classifier_createClassifier (h.declares.mem hd), h.blank d hd]
    · obtain rfl := List.mem_singleton.mp hd
      exact Model.classifier_createClassifier_self ..
  · intro p
    rw [Model.classifier_createClassifier_of_ne (hnew p).symm, h.primitive p]
  · exact List.forall_mem_append.mpr ⟨h.apart, List.forall_mem_singleton.mpr hnew⟩
  · rw [Model.packagedClassifiers_createClassifier, List.map_append, ← h.elements]
    rfl

theorem resolves_declareClassifiers (h : Declaration m declared)
    (documents : List ClassifierDocument) :
    Resolves (¬ (declared.map (·.document.id) ++ documents.map (·.id)).Nodup)
      (fun result => Declaration result.2 result.1 ∧ result.2.name = m.name ∧
        result.1.map (·.document) = declared.map (·.document) ++ documents)
      (declareClassifiers m declared documents) := by
  induction documents generalizing m declared with
  | nil =>
    refine .ok (not_not_intro ?_) ⟨h, rfl, by simp⟩
    simpa using h.declares.ids_nodup h.built.wellFormed
  | cons document rest ih =>
    rw [declareClassifiers]
    split
    case isTrue hany =>
      obtain ⟨d, hd, hid⟩ := List.any_eq_true.mp hany
      refine .error (fun hnodup => ?_) rfl
      exact (List.nodup_append.mp hnodup).2.2 _ (List.mem_map_of_mem hd) _ List.mem_cons_self
        (by simpa using hid)
    case isFalse hany =>
      have fresh : ∀ d ∈ declared, d.document.id ≠ document.id := by simpa using hany
      refine (ih (h.createClassifier document fresh)).imp (by simp) fun result => ?_
      simp only [List.map_append, List.append_assoc]
      exact id

/-! ## Attributes -/

namespace Model

/-- A model grows by what is filled into its classifiers alone. -/
structure Fills (m m' : Model) : Prop extends m.Grows m' where
  name : m'.name = m.name
  elements : m'.elements = m.elements
  associations : m'.associations = m.associations
  plain : (∀ p, (m.property p).association = none) → ∀ p, (m'.property p).association = none

theorem Fills.refl (m : Model) : m.Fills m := ⟨.refl m, rfl, rfl, rfl, id⟩

theorem Fills.trans {m'' : Model} (h : m.Fills m') (h' : m'.Fills m'') : m.Fills m'' :=
  ⟨h.toGrows.trans h'.toGrows, h'.name.trans h.name, h'.elements.trans h.elements,
    h'.associations.trans h.associations, fun plain => h'.plain (h.plain plain)⟩

theorem fills_base (m : Model) (c : ClassifierRef) (base : Option ClassifierRef) :
    m.Fills (m.updateClassifier c fun classifier => { classifier with base }) :=
  ⟨grows_updateClassifier m c (fun _ => rfl) fun _ => List.Subset.refl _, rfl, rfl, rfl, id⟩

theorem fills_addAttribute (m : Model) (c : ClassifierRef) {new : Property} (id : Option String)
    (plain : new.association = none) : m.Fills (m.addAttribute c new id).2 := by
  refine ⟨grows_addAttribute m c new id, rfl, rfl, rfl, fun hplain p => ?_⟩
  let added : Property := { new with
    id := id.getD (m.attributeId c new.name)
    owner := some (.classifier c) }
  by_cases hp : p = (m.addProperty added).1
  · rw [hp]
    exact (congrArg Property.association (property_addProperty_self m added)).trans plain
  · exact (congrArg Property.association (property_addProperty_of_ne hp)).trans (hplain p)

end Model

structure Indexed (declared : List Declared) (r : Resolution) :
    Prop extends Model.Resolving declared r where
  entries : ∀ entry ∈ r.attributes, r.model.IsAttribute entry.2 ∧
    (r.model.property entry.2).id = entry.1

theorem Indexed.entry_of_grows (h : Indexed declared r) (grows : r.model.Grows m') :
    ∀ entry ∈ r.attributes, m'.IsAttribute entry.2 ∧ (m'.property entry.2).id = entry.1 := by
  intro entry he
  obtain ⟨hattribute, hid⟩ := h.entries entry he
  exact ⟨grows.isAttribute hattribute, (grows.property_id (h.owned entry he)).trans hid⟩

theorem Indexed.of_grows (h : Indexed declared r) (grows : r.model.Grows m')
    (built : m'.Constructed) :
    Indexed declared { r with model := m' } :=
  ⟨h.of_keeps grows.toKeeps built, h.entry_of_grows grows⟩

structure Attributing (declared : List Declared) (before : Resolution) (d : Declared)
    (done : List AttributeDocument) (r : Resolution) : Prop where
  indexed : Indexed declared r
  fills : before.model.Fills r.model
  others : ∀ c, c ≠ d.ref → r.model.classifier c = before.model.classifier c
  own : { r.model.classifier d.ref with attributes := [] } =
    { before.model.classifier d.ref with attributes := [] }
  attributes : List.Forall₂
    (fun x p => r.model.Realizes p (.classifier d.ref) (d.document.attributeId x.1 x.2) x.1)
    done.zipIdx (r.model.classifier d.ref).attributes
  keys : r.attributes.map (·.1) =
    (done.zipIdx.map fun x => d.document.attributeId x.1 x.2).reverse ++ before.attributes.map (·.1)

theorem Attributing.attributeId {done : List AttributeDocument}
    (h : Attributing declared before d done r) (hd : d ∈ declared) (a : AttributeDocument) :
    a.id.getD (r.model.attributeId d.ref a.name) = d.document.attributeId a done.length := by
  have hlength : (r.model.classifier d.ref).attributes.length = done.length := by
    rw [← h.attributes.length_eq, List.length_zipIdx]
  rw [Model.attributeId, h.indexed.declares.id hd, hlength, ClassifierDocument.attributeId]

theorem Attributing.addAttribute {done : List AttributeDocument}
    (h : Attributing declared before d done r) (hd : d ∈ declared) (a : AttributeDocument)
    {new : Property} (name : new.name = a.name) (type : Option.Rel r.model.Denotes a.type new.type)
    (multiplicity : new.multiplicity = ⟨a.lower, upperBound a.upper⟩) (isId : new.isId = a.isId)
    (facets : new.facets = a.facets) (plain : new.association = none) :
    Attributing declared before d (done ++ [a])
      ⟨(r.model.addAttribute d.ref new a.id).2,
        (((r.model.addAttribute d.ref new a.id).2.property
          (r.model.addAttribute d.ref new a.id).1).id,
          (r.model.addAttribute d.ref new a.id).1) :: r.attributes⟩ := by
  have hmem := h.indexed.declares.mem hd
  have hfills := Model.fills_addAttribute r.model d.ref a.id plain
  have hself := Model.property_addAttribute_self r.model d.ref new a.id
  have hclassifier (c : ClassifierRef) := Model.classifier_addAttribute r.model d.ref c new a.id
  have hown := (hclassifier d.ref).trans
    (if_pos ⟨rfl, h.indexed.built.wellFormed.bounded d.ref hmem⟩)
  have hbuilt := h.indexed.built.ownedAttribute new a.id hmem
  have hid := h.attributeId hd a
  rw [← name] at hid
  generalize r.model.addAttribute d.ref new a.id = added at *
  obtain ⟨p, m'⟩ := added
  dsimp only at *
  refine ⟨⟨⟨hbuilt, h.indexed.declares.of_keeps hfills.toKeeps, ?_⟩, ?_⟩, h.fills.trans hfills,
    ?_, ?_, ?_, ?_⟩
  · refine List.forall_mem_cons.mpr ⟨by rw [hself]; rfl, fun entry he => ?_⟩
    exact hfills.toKeeps.owner_isSome (h.indexed.owned entry he)
  · refine List.forall_mem_cons.mpr ⟨⟨⟨d.ref, hfills.packaged ▸ hmem, ?_⟩, rfl⟩, ?_⟩
    · rw [hown]
      simp
    · exact h.indexed.entry_of_grows hfills.toGrows
  · intro c hc
    rw [hclassifier, if_neg fun e => hc e.1.symm, h.others c hc]
  · rw [hown]
    exact h.own
  · rw [hown, List.zipIdx_append]
    refine List.rel_append (h.attributes.imp fun _ _ => hfills.realizes) (.cons ?_ .nil)
    have hnew : m'.Realizes p (.classifier d.ref) (d.document.attributeId a done.length) a :=
      ⟨by rw [hself, ← hid], by rw [hself, name], by rw [hself]; exact hfills.denotes_rel type,
        by rw [hself], by rw [hself, multiplicity], by rw [hself, isId], by rw [hself, facets]⟩
    simpa using hnew
  · simp [List.zipIdx_append, h.keys, hself, hid]

theorem resolves_addAttribute (documents : declared.map (·.document) = document.classifiers)
    (hd : d ∈ declared) {done : List AttributeDocument} (h : Attributing declared before d done r)
    (a : AttributeDocument) :
    Resolves (a.Flawed document) (Attributing declared before d (done ++ [a]))
      (r.addAttribute declared d a) := by
  refine (resolves_optionalType documents h.indexed.declares a.type).bind fun type htype =>
    (resolves_upper a.upper).bind_pure fun upper hupper => ?_
  subst hupper
  exact h.addAttribute hd a rfl htype rfl rfl rfl rfl

theorem resolves_addAttributes (documents : declared.map (·.document) = document.classifiers)
    (hd : d ∈ declared) (h : Indexed declared r)
    (blank : (r.model.classifier d.ref).attributes = []) :
    Resolves (∃ a ∈ d.document.attributes, a.Flawed document)
      (Attributing declared r d d.document.attributes)
      (d.document.attributes.foldlM (Resolution.addAttribute declared d) r) := by
  refine Resolves.foldlM ⟨h, .refl _, fun _ _ => rfl, rfl, by rw [blank]; exact .nil, rfl⟩ ?_
  exact fun done a s _ hs => resolves_addAttribute documents hd hs a

/-! ## Classifiers -/

structure Filling (declared : List Declared) (m : Model) (done : List Declared) (r : Resolution) :
    Prop where
  indexed : Indexed declared r
  fills : m.Fills r.model
  rest : ∀ c, (∀ d ∈ done, d.ref ≠ c) → r.model.classifier c = m.classifier c
  classifiers : ∀ d ∈ done, r.model.MirrorsClassifier d.document d.ref
  keys : r.attributes.map (·.1) = (done.flatMap fun d => d.document.attributeIds).reverse

theorem Attributing.mirrors (h : Attributing declared before d d.document.attributes r)
    {base : Option ClassifierRef} (hbase : Option.Rel before.model.Denotes d.document.base base)
    (blank : before.model.classifier d.ref =
      { id := d.document.id, name := d.document.name, kind := d.document.kind, base }) :
    r.model.MirrorsClassifier d.document d.ref := by
  have hown := h.own
  rw [blank] at hown
  simp only [Classifier.mk.injEq] at hown
  obtain ⟨hid, hname, hkind, -, hfinal⟩ := hown
  exact ⟨hid, hname, hkind, hfinal ▸ h.fills.denotes_rel hbase, h.attributes⟩

theorem Filling.addClassifier {done : List Declared} (h : Filling declared m done r)
    (declaration : Declaration m declared) (hd : d ∈ declared) (fresh : ∀ e ∈ done, e.ref ≠ d.ref)
    {base : Option ClassifierRef} (hbase : Option.Rel r.model.Denotes d.document.base base)
    (ha : Attributing declared
      { r with model := r.model.updateClassifier d.ref fun classifier =>
        { classifier with base } } d
      d.document.attributes r') : Filling declared m (done ++ [d]) r' := by
  have hbased := Model.fills_base r.model d.ref base
  have hclassifier (c : ClassifierRef) :=
    Model.classifier_updateClassifier r.model d.ref c fun classifier => { classifier with base }
  have hfills := hbased.trans ha.fills
  have hother : ∀ c, c ≠ d.ref → r'.model.classifier c = r.model.classifier c := by
    intro c hc
    rw [ha.others c hc, hclassifier, if_neg fun e => hc e.1.symm]
  refine ⟨ha.indexed, h.fills.trans hfills, ?_, ?_, ?_⟩
  · intro c hc
    obtain ⟨hdone, hd⟩ := List.forall_mem_append.mp hc
    rw [hother c (List.forall_mem_singleton.mp hd).symm, h.rest c hdone]
  · refine List.forall_mem_append.mpr ⟨fun e he => ?_, List.forall_mem_singleton.mpr ?_⟩
    · exact hfills.mirrorsClassifier (hother e.ref (fresh e he)) (h.classifiers e he)
    · refine ha.mirrors (hbased.denotes_rel hbase) ?_
      have hbound := h.indexed.built.wellFormed.bounded d.ref (h.indexed.declares.mem hd)
      rw [hclassifier, if_pos ⟨rfl, hbound⟩, h.rest d.ref fresh, declaration.blank d hd]
  · rw [ha.keys, h.keys]
    simp [ClassifierDocument.attributeIds]

theorem resolves_addClassifier (documents : declared.map (·.document) = document.classifiers)
    (declaration : Declaration m declared) (hd : d ∈ declared) {done : List Declared}
    (fresh : ∀ e ∈ done, e.ref ≠ d.ref) (h : Filling declared m done r) :
    Resolves (d.document.Flawed document) (Filling declared m (done ++ [d]))
      (r.addClassifier declared d) := by
  refine (resolves_optionalType documents h.indexed.declares d.document.base).bind
    fun base hbase => ?_
  have hbased := Model.fills_base r.model d.ref base
  have hblank : (r.model.classifier d.ref).attributes = [] := by
    rw [h.rest d.ref fresh, declaration.blank d hd]
  refine (resolves_addAttributes documents hd
    (h.indexed.of_grows hbased.toGrows (h.indexed.built.base d.ref base))
    ((Model.attributes_base r.model d.ref d.ref base).trans hblank)).imp .rfl fun r' ha => ?_
  exact h.addClassifier declaration hd fresh hbase ha

theorem Declaration.fresh (declaration : Declaration m declared) {done : List Declared}
    (hfront : done ++ [d] <+: declared) : ∀ e ∈ done, e.ref ≠ d.ref := by
  have hrefs : (declared.map (·.ref)).Nodup :=
    declaration.declares.refs ▸ declaration.built.wellFormed.distinct.of_map
  have hnodup := hrefs.sublist (hfront.sublist.map _)
  rw [List.map_append, List.nodup_append] at hnodup
  exact fun e he => hnodup.2.2 _ (List.mem_map_of_mem he) _ (by simp)

theorem Declaration.filling (declaration : Declaration m declared) :
    Filling declared m [] { model := m } :=
  ⟨⟨⟨declaration.built, declaration.declares, by simp⟩, by simp⟩, .refl m, fun _ _ => rfl,
    by simp, rfl⟩

theorem resolves_addClassifiers (documents : declared.map (·.document) = document.classifiers)
    (declaration : Declaration m declared) :
    Resolves (∃ d ∈ document.classifiers, d.Flawed document) (Filling declared m declared)
      (declared.foldlM (Resolution.addClassifier declared) { model := m }) := by
  have hall : Resolves (∃ d ∈ declared, d.document.Flawed document) (Filling declared m declared)
      (declared.foldlM (Resolution.addClassifier declared) { model := m }) :=
    Resolves.foldlM declaration.filling fun done d r hfront hr =>
      resolves_addClassifier documents declaration (hfront.subset (by simp))
        (declaration.fresh hfront) hr
  exact hall.imp (by simp [← documents]) fun _ => id

end Schemata
