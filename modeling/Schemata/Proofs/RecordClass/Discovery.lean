import Mathlib.Logic.Relation
import Schemata.Proofs.Model.Loaded
import Schemata.Proofs.RecordClass.Ending

/-!
# Which declarations a conversion meets

A conversion is at any time what it makes of the roots and of the fields that were converted so far:
the declarations that they mention, in order, each with one classifier, and one attribute for each
of the fields.
-/
namespace Schemata

variable {r : Registry} {ref : DeclarationRef} {field : Field} {roots : List DeclarationRef}
  {listed more : List (DeclarationRef × ClassifierRef)} {done : List (DeclarationRef × Field)}

/-! ## Mentions -/

/-- The declaration under the layers of a field type. -/
def FieldType.declaration? : FieldType → Option DeclarationRef
  | .declared ref => some ref
  | .annotated inner _ => inner.declaration?
  | .optional inner => inner.declaration?
  | .collection _ inner => inner.declaration?
  | _ => none

def FieldTarget.declaration? : FieldTarget → Option DeclarationRef
  | .declared ref => some ref
  | _ => none

/-- Reading the layers of a type does not change what is under them. -/
theorem FieldType.declaration?_of_shape? {t : FieldType} {seen shape : FieldShape}
    (h : t.shape? seen = some shape) :
    t.declaration? = shape.target.declaration? := by
  induction t generalizing seen with
  | annotated inner marks ih => exact ih h
  | optional inner ih => exact ih h
  | collection kind inner ih =>
    rw [shape?] at h
    split at h
    · cases h
    · exact ih h
  | _ =>
    cases h
    rfl

def Registry.fieldsOf (r : Registry) (ref : DeclarationRef) : List (DeclarationRef × Field) :=
  ((r.fields? ref).getD []).map fun field => (ref, field)

/-- The declarations that the fields of a record class mention, in order. -/
def Registry.mentions (r : Registry) (ref : DeclarationRef) : List DeclarationRef :=
  (r.fieldsOf ref).filterMap fun d => d.2.type.declaration?

/-- The declarations that roots and fields mention, in the order in which they are mentioned
first. -/
def metDeclarations (roots : List DeclarationRef) (done : List (DeclarationRef × Field)) :
    List DeclarationRef :=
  (roots ++ done.filterMap fun d => d.2.type.declaration?).eraseDups

theorem metDeclarations_concat (d : DeclarationRef × Field) : metDeclarations roots (done ++ [d]) =
    match d.2.type.declaration? with
    | none => metDeclarations roots done
    | some ref =>
      if ref ∈ metDeclarations roots done then metDeclarations roots done
      else metDeclarations roots done ++ [ref] := by
  rw [metDeclarations, List.filterMap_append, ← List.append_assoc]
  cases hd : d.2.type.declaration? with
  | none => simp [hd, metDeclarations]
  | some ref =>
    simp only [List.filterMap_cons, hd, List.filterMap_nil]
    exact eraseDups_concat _ ref

/-! ## Attributes of fields -/

/-- What the target of a field is in a model whose classifiers are listed by declaration. -/
def FieldTarget.Denotes (listed : List (DeclarationRef × ClassifierRef)) :
    FieldTarget → ClassifierRef → Prop
  | .primitive p, c => c = p.ref
  | .declared ref, c => (ref, c) ∈ listed
  | .unsupported, _ => False

structure Field.Becomes (listed : List (DeclarationRef × ClassifierRef)) (owner : ClassifierRef)
    (field : Field) (p : Property) : Prop where
  owner : p.owner = some (.classifier owner)
  name : p.name = field.name
  plain : p.association = none
  shape : ∃ shape, field.type.shape? {} = some shape ∧ p.multiplicity = shape.multiplicity ∧
    p.isId = shape.marks.any Mark.isKey ∧ p.facets = Facets.ofMarks shape.marks ∧
    ∃ type, p.type = some type ∧ shape.target.Denotes listed type

theorem FieldTarget.Denotes.mono {target : FieldTarget} {c : ClassifierRef}
    (h : target.Denotes listed c) (hs : listed ⊆ more) : target.Denotes more c := by
  cases target with
  | declared ref => exact hs h
  | _ => exact h

theorem Field.Becomes.mono {owner : ClassifierRef} {p : Property} (h : field.Becomes listed owner p)
    (hs : listed ⊆ more) : field.Becomes more owner p := by
  obtain ⟨shape, hshape, hm, hi, hf, type, ht, denotes⟩ := h.shape
  exact ⟨h.owner, h.name, h.plain, shape, hshape, hm, hi, hf, type, ht, denotes.mono hs⟩

def attributesOf (done : List (DeclarationRef × Field)) (ref : DeclarationRef) : List PropertyRef :=
  (done.zipIdx.filter fun d => d.1.1 = ref).map fun d => ⟨d.2⟩

theorem attributesOf_concat (d : DeclarationRef × Field) : attributesOf (done ++ [d]) ref =
    if d.1 = ref then attributesOf done ref ++ [⟨done.length⟩] else attributesOf done ref := by
  by_cases h : d.1 = ref <;> simp [attributesOf, List.zipIdx_append, h]

theorem attributesOf_eq_nil (h : ∀ d ∈ done, d.1 ≠ ref) : attributesOf done ref = [] := by
  rw [attributesOf,
    List.filter_eq_nil_iff.mpr fun d hd => by simpa using h d.1 (List.fst_mem_of_mem_zipIdx hd)]
  rfl

namespace Conversion

variable {s s' : Conversion} {c owner : ClassifierRef} {className : String}

/-! ## What the steps preserve -/

/-- The declarations that are listed were met and the fields that are done were converted. -/
structure Holds (r : Registry) (listed : List (DeclarationRef × ClassifierRef))
    (done : List (DeclarationRef × Field)) (s : Conversion) : Prop where
  distinct : (listed.map Prod.fst).Nodup
  classes : s.classes = listed.filter fun l => r.isRecordClass l.1
  enumerations : s.enumerations = listed.filter fun l => !r.isRecordClass l.1
  packaged : s.model.packagedClassifiers = listed.map Prod.snd
  apart : (listed.map Prod.snd).Nodup
  bounded : ∀ l ∈ listed, l.2.place < s.model.classifiers.length
  classifiers : ∀ l ∈ listed, ∃ blank, r.blank? l.1 = some blank ∧
    s.model.classifier l.2 = { blank with attributes := attributesOf done l.1 }
  properties : List.Forall₂ (fun d p => ∃ owner, (d.1, owner) ∈ listed ∧ d.2.Becomes listed owner p)
    done s.model.properties

theorem holds_empty (r : Registry) (name : String) : Holds r [] [] { model := Model.empty name } :=
  ⟨by simp, rfl, rfl, rfl, by simp, by simp, by simp, .nil⟩

theorem Holds.mem_entries (h : Holds r listed done s) (ref : DeclarationRef)
    (l : DeclarationRef × ClassifierRef) :
    l ∈ s.entries r ref ↔ l ∈ listed ∧ r.isRecordClass l.1 = r.isRecordClass ref := by
  cases hr : r.isRecordClass ref <;> simp [entries, hr, h.classes, h.enumerations]

theorem Holds.ne_enter (h : Holds r listed done s) (ref : DeclarationRef) (blank : Classifier) :
    ∀ l ∈ listed, l.2 ≠ (s.enter r ref blank).1 := by
  intro l hl e
  have hlt := h.bounded l hl
  rw [e] at hlt
  exact Nat.lt_irrefl _ hlt

theorem Holds.attributesOf_fresh (h : Holds r listed done s) (fresh : ref ∉ listed.map Prod.fst) :
    attributesOf done ref = [] := by
  refine attributesOf_eq_nil fun d hd e => fresh ?_
  obtain ⟨p, _, owner, howner, _⟩ := exists_mem_of_forall₂ h.properties.flip hd
  exact List.mem_map.mpr ⟨(d.1, owner), howner, e⟩

theorem Holds.classifiers_enter {blank : Classifier} (h : Holds r listed done s)
    (fresh : ref ∉ listed.map Prod.fst) (hblank : r.blank? ref = some blank) :
    ∀ l ∈ listed ++ [(ref, (s.enter r ref blank).1)], ∃ blank', r.blank? l.1 = some blank' ∧
      (s.enter r ref blank).2.model.classifier l.2 =
        { blank' with attributes := attributesOf done l.1 } := by
  have hself :=
    Model.classifier_createClassifier_self s.model blank.name blank.id blank.kind blank.base
  rw [List.forall_mem_append, List.forall_mem_singleton]
  constructor
  · intro l hl
    obtain ⟨old, hold, hclassifier⟩ := h.classifiers l hl
    refine ⟨old, hold, ?_⟩
    have hne := h.ne_enter ref blank l hl
    rw [fst_enter] at hne
    rw [model_enter, Model.classifier_createClassifier_of_ne hne, hclassifier]
  · exact ⟨blank, hblank, h.attributesOf_fresh fresh ▸ hself⟩

/-- A declaration that is met first gets a classifier without attributes behind all others. -/
theorem Holds.enter {blank : Classifier} (h : Holds r listed done s)
    (fresh : ref ∉ listed.map Prod.fst) (hblank : r.blank? ref = some blank) :
    Holds r (listed ++ [(ref, (s.enter r ref blank).1)]) done (s.enter r ref blank).2 := by
  refine ⟨nodup_map_concat h.distinct fresh, ?_, ?_, ?_, nodup_map_concat h.apart ?_, ?_,
    h.classifiers_enter fresh hblank, ?_⟩
  · cases hr : r.isRecordClass ref <;> simp [Conversion.enter, hr, h.classes]
  · cases hr : r.isRecordClass ref <;> simp [Conversion.enter, hr, h.enumerations]
  · rw [List.map_append, ← h.packaged, model_enter, Model.packagedClassifiers_createClassifier]
    rfl
  · intro hc
    obtain ⟨l, hl, e⟩ := List.mem_map.mp hc
    exact h.ne_enter ref blank l hl e
  · have hlength : (s.enter r ref blank).2.model.classifiers.length =
        s.model.classifiers.length + 1 := by
      simp [Conversion.enter, Model.createClassifier]
    rw [hlength, List.forall_mem_append]
    exact ⟨fun l hl => Nat.lt_succ_of_lt (h.bounded l hl),
      by simp [Conversion.enter, Model.createClassifier]⟩
  · refine h.properties.imp ?_
    rintro d p ⟨owner, howner, becomes⟩
    exact ⟨owner, List.mem_append_left _ howner, becomes.mono (List.subset_append_left _ _)⟩

theorem Holds.declare (h : Holds r listed done s) (hd : declare? r s ref = some (c, s')) :
    ∃ more, listed <+: more ∧ (ref, c) ∈ more ∧ Holds r more done s' ∧ more.map Prod.fst =
        if ref ∈ listed.map Prod.fst then listed.map Prod.fst
          else listed.map Prod.fst ++ [ref] := by
  obtain ⟨blank, hblank, ⟨known, rfl⟩ | ⟨unknown, entered⟩⟩ := declare?_eq_some hd
  · have hmem : (ref, c) ∈ listed := by
      obtain ⟨l₁, l₂, hl, _⟩ := List.lookup_eq_some_iff.mp known
      exact ((h.mem_entries ref _).mp (hl ▸ by simp)).1
    refine ⟨listed, List.prefix_refl _, hmem, h, (if_pos ?_).symm⟩
    exact List.mem_map.mpr ⟨_, hmem, rfl⟩
  · have fresh : ref ∉ listed.map Prod.fst := by
      intro hmem
      obtain ⟨l, hl, rfl⟩ := List.mem_map.mp hmem
      have := List.lookup_eq_none_iff.mp unknown l ((h.mem_entries l.1 l).mpr ⟨hl, rfl⟩)
      simp at this
    obtain rfl : c = (s.enter r ref blank).1 := congrArg Prod.fst entered
    obtain rfl : s' = (s.enter r ref blank).2 := congrArg Prod.snd entered
    refine ⟨_, List.prefix_append _ _, by simp, h.enter fresh hblank, ?_⟩
    rw [if_neg fresh, List.map_append]
    rfl

theorem Holds.addAttribute {new : Property} (h : Holds r listed done s) (hl : (ref, owner) ∈ listed)
    (becomes : ∀ id,
      field.Becomes listed owner { new with id, owner := some (.classifier owner) }) :
    Holds r listed (done ++ [(ref, field)])
      { s with model := (s.model.addAttribute owner new none).2 } := by
  have hlength : s.model.properties.length = done.length := h.properties.length_eq.symm
  refine ⟨h.distinct, h.classes, h.enumerations, h.packaged, h.apart, ?_, ?_, ?_⟩
  · intro l hl
    have hsize := (Model.keeps_addAttribute s.model owner new none).size
    exact hsize ▸ h.bounded l hl
  · intro l hl'
    obtain ⟨blank, hblank, hclassifier⟩ := h.classifiers l hl'
    refine ⟨blank, hblank, ?_⟩
    rw [Model.classifier_addAttribute, attributesOf_concat]
    by_cases hsame : ref = l.1
    · -- a declaration has one classifier, so this is the owner
      have howner : owner = l.2 := by
        have := List.inj_on_of_nodup_map h.distinct hl hl' hsame
        rw [← this]
      rw [if_pos ⟨howner, h.bounded _ hl⟩, if_pos hsame, hclassifier, ← hlength]
      rfl
    · have hother : owner ≠ l.2 := by
        intro e
        have := List.inj_on_of_nodup_map h.apart hl hl' e
        exact hsame (congrArg Prod.fst this)
      rw [if_neg fun e => hother e.1, if_neg hsame, hclassifier]
  · exact List.rel_append h.properties (.cons ⟨owner, hl, becomes _⟩ .nil)

/-- A field is converted: its declaration is listed, and its class gets an attribute. -/
theorem Holds.addField (h : Holds r listed done s) (hl : (ref, owner) ∈ listed)
    (met : listed.map Prod.fst = metDeclarations roots done)
    (hf : addField r className owner s field = .ok s') :
    ∃ more, listed <+: more ∧ Holds r more (done ++ [(ref, field)]) s' ∧
      more.map Prod.fst = metDeclarations roots (done ++ [(ref, field)]) := by
  obtain ⟨shape, type, t, hshape, htarget, rfl⟩ := addField_eq_ok hf
  have hdeclaration := FieldType.declaration?_of_shape? hshape
  have htyped :
      ∀ {listed : List (DeclarationRef × ClassifierRef)}, shape.target.Denotes listed type →
      ∀ id, field.Becomes listed owner
        { field.attribute shape type with id, owner := some (.classifier owner) } :=
    fun denotes _ => ⟨rfl, rfl, rfl, shape, hshape, rfl, rfl, rfl, type, rfl, denotes⟩
  rw [metDeclarations_concat, hdeclaration]
  cases hs : shape.target with
  | primitive p =>
    rw [hs] at htarget
    obtain ⟨rfl, rfl⟩ := Prod.mk.inj (Option.some.inj htarget)
    exact ⟨listed, List.prefix_refl _, h.addAttribute hl (htyped (by rw [hs]; rfl)), met⟩
  | declared ref' =>
    rw [hs] at htarget
    obtain ⟨more, hfront, hmem, hmore, hkeys⟩ := h.declare htarget
    rw [met] at hkeys
    exact ⟨more, hfront, hmore.addAttribute (hfront.subset hl) (htyped (by rw [hs]; exact hmem)),
      hkeys⟩
  | unsupported =>
    rw [hs] at htarget
    cases htarget

theorem Holds.addFields {fields : List Field} (h : Holds r listed done s)
    (hl : (ref, owner) ∈ listed) (met : listed.map Prod.fst = metDeclarations roots done)
    (hf : fields.foldlM (Conversion.addField r className owner) s = .ok s') :
    ∃ more, listed <+: more ∧ Holds r more (done ++ fields.map fun field => (ref, field)) s' ∧
      more.map Prod.fst = metDeclarations roots (done ++ fields.map fun field => (ref, field)) := by
  induction fields generalizing listed done s with
  | nil =>
    cases hf
    exact ⟨listed, List.prefix_refl _, by simpa using h, by simpa using met⟩
  | cons field rest ih =>
    rw [List.foldlM_cons] at hf
    obtain ⟨t, ht, hfields⟩ := bind_eq_ok.mp hf
    obtain ⟨next, hnext, hholds, hmet⟩ := h.addField hl met ht
    obtain ⟨more, hmore, hrest⟩ := ih hholds (hnext.subset hl) hmet hfields
    rw [List.append_assoc] at hrest
    exact ⟨more, hnext.trans hmore, hrest⟩

/-- Roots are record classes, and each is listed where it is mentioned first. -/
theorem Holds.declareRoots {given : List (Option DeclarationRef)} (h : Holds r listed [] s)
    (met : listed.map Prod.fst = metDeclarations roots [])
    (hr : given.foldlM (Conversion.declareRoot r) s = .ok s') :
    ∃ declared, given = declared.map some ∧ (∀ ref ∈ declared, r.isRecordClass ref = true) ∧
      ∃ more, Holds r more [] s' ∧ more.map Prod.fst = metDeclarations (roots ++ declared) [] := by
  induction given generalizing listed roots s with
  | nil =>
    cases hr
    exact ⟨[], rfl, by simp, listed, h, by simpa using met⟩
  | cons root rest ih =>
    rw [List.foldlM_cons] at hr
    obtain ⟨t, ht, hroots⟩ := bind_eq_ok.mp hr
    obtain ⟨ref, c, rfl, record, hd⟩ := declareRoot_eq_ok ht
    obtain ⟨next, _, _, hholds, hkeys⟩ := h.declare hd
    have hmet : next.map Prod.fst = metDeclarations (roots ++ [ref]) [] := by
      rw [hkeys, met]
      simpa [metDeclarations] using (eraseDups_concat roots ref).symm
    obtain ⟨declared, rfl, records, hmore⟩ := ih hholds hmet hroots
    rw [List.append_assoc] at hmore
    exact ⟨ref :: declared, rfl, List.forall_mem_cons.mpr ⟨record, records⟩, hmore⟩

end Conversion

end Schemata
