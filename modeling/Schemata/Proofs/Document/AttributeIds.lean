import Schemata.Proofs.Document.Associations
import Schemata.Proofs.Document.Written

/-!
# Identifiers of attributes

The attributes of all classifiers are found by their identifiers, and of several with one identifier
the last is found. No two classifiers can have one identifier, but attributes can.
-/
namespace Schemata

namespace Model

variable {m : Model} {document : ModelDocument}

def packagedAttributes (m : Model) : List PropertyRef :=
  m.packagedClassifiers.flatMap fun c => (m.classifier c).attributes

def attributeIds (m : Model) : List String := m.packagedAttributes.map fun p => (m.property p).id

def lastAttribute? (m : Model) (id : String) : Option PropertyRef :=
  m.packagedAttributes.reverse.find? fun p => (m.property p).id == id

theorem nodup_packagedAttributes (wf : m.WellFormed) (linked : m.Linked) :
    m.packagedAttributes.Nodup := by
  rw [packagedAttributes, List.nodup_flatMap]
  refine ⟨fun c _ => linked.attributes c,
    wf.distinct.of_map.imp fun {c d} apart p hp hq => apart ?_⟩
  have howner := (wf.owned c p hp).symm.trans (wf.owned d p hq)
  exact Owner.classifier.inj (Option.some.inj howner)

theorem Mirrors.attributeIds_eq (h : m.Mirrors document) :
    m.attributeIds = document.attributeIds := by
  have hids : m.packagedClassifiers.map
    (fun c => (m.classifier c).attributes.map fun p => (m.property p).id) =
      document.classifiers.map ClassifierDocument.attributeIds :=
    (map_eq_of_forall₂ (fun d c mirrors => map_eq_of_forall₂ (fun x p realizes => realizes.id.symm)
      mirrors.attributes) h.classifiers).symm
  rw [attributeIds, packagedAttributes, List.map_flatMap, List.flatMap_def, hids,
    ModelDocument.attributeIds, List.flatMap_def]

end Model

variable {document : ModelDocument} {declared : List Declared} {m : Model} {d : Declared}
  {r r' before : Resolution}

/-! ## Attributes in order -/

namespace Resolution

def find? (r : Resolution) (id : String) : Option PropertyRef := r.attributes.lookup id

theorem find?_congr (h : r.attributes = before.attributes) : r.find? = before.find? := by
  unfold find?
  rw [h]

theorem addAttribute_eq_ok {a : AttributeDocument} (ok : r.addAttribute declared d a = .ok r') :
    ∃ new : Property, r'.model = (r.model.addAttribute d.ref new a.id).2 ∧
      r'.attributes.map (·.2) = (r.model.addAttribute d.ref new a.id).1 ::
        r.attributes.map (·.2) := by
  obtain ⟨type, _, ok⟩ := bind_eq_ok.mp ok
  obtain ⟨upper, _, ok⟩ := bind_eq_ok.mp ok
  cases ok
  exact ⟨_, rfl, rfl⟩

/-- The attributes of one classifier are found before those that were there, the latest first. -/
structure Gains (before : Resolution) (c : ClassifierRef) (r : Resolution) : Prop where
  bound : c.place < r.model.classifiers.length
  others : ∀ b, b ≠ c → r.model.classifier b = before.model.classifier b
  attributes : r.attributes.map (·.2) =
    (r.model.classifier c).attributes.reverse ++ before.attributes.map (·.2)

theorem Gains.addAttribute {a : AttributeDocument} (h : before.Gains d.ref r)
    (ok : r.addAttribute declared d a = .ok r') : before.Gains d.ref r' := by
  obtain ⟨new, hmodel, hattributes⟩ := addAttribute_eq_ok ok
  have hclassifier (c : ClassifierRef) := Model.classifier_addAttribute r.model d.ref c new a.id
  refine ⟨?_, fun b hb => ?_, ?_⟩
  · rw [hmodel, (Model.keeps_addAttribute r.model d.ref new a.id).size]
    exact h.bound
  · rw [hmodel, hclassifier, if_neg fun e => hb e.1.symm, h.others b hb]
  · rw [hattributes, hmodel, hclassifier, if_pos ⟨rfl, h.bound⟩, h.attributes]
    simp

theorem gains_addClassifier (bound : d.ref.place < r.model.classifiers.length)
    (blank : (r.model.classifier d.ref).attributes = [])
    (ok : r.addClassifier declared d = .ok r') :
    r.Gains d.ref r' := by
  obtain ⟨base, _, ok⟩ := bind_eq_ok.mp ok
  have hclassifier (c : ClassifierRef) :=
    Model.classifier_updateClassifier r.model d.ref c fun classifier => { classifier with base }
  refine foldlM_induction ok ⟨?_, fun b hb => ?_, ?_⟩ fun s a s' _ h ok => h.addAttribute ok
  · rwa [(Model.fills_base r.model d.ref base).size]
  · rw [hclassifier, if_neg fun e => hb e.1.symm]
  · rw [hclassifier, if_pos ⟨rfl, bound⟩, blank]
    rfl

end Resolution

structure Finding (declared : List Declared) (m : Model) (done : List Declared) (r : Resolution) :
    Prop extends Filling declared m done r where
  found : r.attributes.map (·.2) =
    (done.flatMap fun d => (r.model.classifier d.ref).attributes).reverse

theorem Finding.addClassifier {done : List Declared} (h : Finding declared m done r)
    (declaration : Declaration m declared) (hd : d ∈ declared) (fresh : ∀ e ∈ done, e.ref ≠ d.ref)
    (ok : r.addClassifier declared d = .ok r') (filling : Filling declared m (done ++ [d]) r') :
    Finding declared m (done ++ [d]) r' := by
  have hblank : (r.model.classifier d.ref).attributes = [] := by
    rw [h.rest d.ref fresh, declaration.blank d hd]
  have gains := Resolution.gains_addClassifier
    (h.indexed.built.wellFormed.bounded d.ref (h.indexed.declares.mem hd)) hblank ok
  -- The classifiers in front got their attributes before, and keep them.
  have hsame : (done.flatMap fun e => (r'.model.classifier e.ref).attributes) =
      done.flatMap fun e => (r.model.classifier e.ref).attributes :=
    List.flatMap_congr fun e he => by rw [gains.others e.ref (fresh e he)]
  refine ⟨filling, ?_⟩
  rw [gains.attributes, h.found, List.flatMap_append, List.reverse_append, hsame]
  simp

theorem resolves_findClassifiers (documents : declared.map (·.document) = document.classifiers)
    (declaration : Declaration m declared) :
    Resolves (∃ d ∈ document.classifiers, d.Flawed document) (Finding declared m declared)
      (declared.foldlM (Resolution.addClassifier declared) { model := m }) := by
  have hall : Resolves (∃ d ∈ declared, d.document.Flawed document) (Finding declared m declared)
      (declared.foldlM (Resolution.addClassifier declared) { model := m }) := by
    refine Resolves.foldlM ⟨declaration.filling, rfl⟩ fun done d r hfront hr => ?_
    have hd : d ∈ declared := hfront.subset (by simp)
    have fresh := declaration.fresh hfront
    exact (resolves_addClassifier documents declaration hd fresh hr.toFilling).of_ok
        fun r' ok filling =>
      hr.addClassifier declaration hd fresh ok filling
  exact hall.imp (by simp [← documents]) fun _ => id

/-! ## Ends -/

def EndDocument.Found (e : EndDocument) (find? : String → Option PropertyRef) (p : PropertyRef) :
    Prop :=
  ∀ reference ∈ e.realizedBy, find? reference = some p

theorem Resolution.addEnd_eq_ok {association : String} {a : AssociationRef} {e : EndDocument}
    (bound : a.place < r.model.associations.length)
    (ok : r.addEnd declared association a e = .ok r') :
    ∃ p, (r'.model.association a).ends = (r.model.association a).ends ++ [p] ∧
      e.Found r.find? p := by
  have hadded (m : Model) (hm : m.associations = r.model.associations) (p : PropertyRef) :
      ((m.addEnd a p).association a).ends = (r.model.association a).ends ++ [p] := by
    rw [Model.association_addEnd (hm ▸ bound), if_pos rfl, Model.association, hm]
    rfl
  rw [Resolution.addEnd] at ok
  split at ok
  case h_1 reference _ hrealized =>
    split at ok
    case h_1 p hp =>
      cases ok
      refine ⟨p, hadded r.model rfl p, ?_⟩
      rintro _ hreference
      rwa [← Option.some.inj (hrealized.symm.trans hreference)]
    case h_2 => cases ok
  case h_2 hrealized _ =>
    obtain ⟨type, _, ok⟩ := bind_eq_ok.mp ok
    obtain ⟨upper, _, ok⟩ := bind_eq_ok.mp ok
    cases ok
    refine ⟨_, hadded (r.model.addProperty _).2 rfl _, ?_⟩
    rintro _ hreference
    rw [hrealized] at hreference
    cases hreference
  case h_3 => cases ok

structure FindingEnds (declared : List Declared) (before : Resolution) (a : AssociationRef)
    (s : AssociationDocument) (done : List EndDocument) (r : Resolution) : Prop
    extends Ending declared before a s done r where
  found : List.Forall₂ (EndDocument.Found · before.find?) done (r.model.association a).ends

structure FindingAssociations (declared : List Declared) (before : Resolution)
    (done : List AssociationDocument) (r : Resolution) :
    Prop extends Associating declared before done r where
  found : List.Forall₂
    (fun s a => List.Forall₂ (EndDocument.Found · before.find?) s.ends (r.model.association a).ends)
    done r.model.packagedAssociations

theorem FindingEnds.addEnd {a : AssociationRef} {s : AssociationDocument} {done : List EndDocument}
    {e : EndDocument} (h : FindingEnds declared before a s done r)
    (ok : r.addEnd declared s.id a e = .ok r')
    (ending : Ending declared before a s (done ++ [e]) r') :
    FindingEnds declared before a s (done ++ [e]) r' := by
  obtain ⟨p, hends, hp⟩ := Resolution.addEnd_eq_ok h.ended.bound ok
  refine ⟨ending, ?_⟩
  rw [hends]
  exact List.rel_append h.found (.cons (Resolution.find?_congr h.attributes ▸ hp) .nil)

theorem FindingAssociations.addAssociation {done : List AssociationDocument}
    (h : FindingAssociations declared before done r) {s : AssociationDocument}
    (he : FindingEnds declared { r with model := (r.model.createAssociation s.name (some s.id)).2 }
      (r.model.createAssociation s.name (some s.id)).1 s s.ends r') :
    FindingAssociations declared before (done ++ [s]) r' := by
  refine ⟨Associating.addAssociation he.toEnding h.toAssociating, ?_⟩
  refine he.toEnding.forall₂_append h.indexed.built.linked h.found
    (fun x b same found => same ▸ found) ?_
  exact Resolution.find?_congr (r := r) h.attributes ▸ he.found

theorem resolves_findAssociation (documents : declared.map (·.document) = document.classifiers)
    (keys : before.attributes.map (·.1) = document.attributeIds.reverse)
    {done : List AssociationDocument} (h : FindingAssociations declared before done r)
    (s : AssociationDocument) :
    Resolves (s.Flawed document) (FindingAssociations declared before (done ++ [s]))
      (r.addAssociation declared s) := by
  have first :
      FindingEnds declared { r with model := (r.model.createAssociation s.name (some s.id)).2 }
      (r.model.createAssociation s.name (some s.id)).1 s []
      { r with model := (r.model.createAssociation s.name (some s.id)).2 } :=
    ⟨h.ending s, by rw [Model.ends_new]; exact .nil⟩
  refine (Resolves.foldlM first fun done e _ _ he => ?_).imp .rfl fun r' he => h.addAssociation he
  exact (resolves_addEnd documents (h.attributes ▸ keys)
    (Model.packagedAssociations_createAssociation r.model s.name (some s.id)) he.toEnding e).of_ok
      fun r' ok ending => he.addEnd ok ending

/-! ## Documents -/

theorem Indexed.find?_eq (h : Indexed declared r)
    (found : r.attributes.map (·.2) = r.model.packagedAttributes.reverse) :
    r.find? = r.model.lastAttribute? := by
  have hattributes : r.attributes =
      r.model.packagedAttributes.reverse.map fun p => ((r.model.property p).id, p) := by
    rw [← found, List.map_map]
    refine (List.map_id _).symm.trans (List.map_congr_left fun entry hentry => ?_)
    exact Prod.ext (h.entries entry hentry).2.symm rfl
  funext id
  rw [Resolution.find?, hattributes, lookup_map_self]
  rfl

/-- Each end that names an attribute is the last one of that identifier. -/
def Model.EndsLast (m : Model) (document : ModelDocument) : Prop :=
  List.Forall₂
    (fun s a => List.Forall₂ (EndDocument.Found · m.lastAttribute?) s.ends (m.association a).ends)
    document.associations m.packagedAssociations

theorem FindingAssociations.endsLast
    (h : FindingAssociations declared before document.associations r)
    (finding : Finding declared m declared before) : r.model.EndsLast document := by
  have hfound : r.attributes.map (·.2) = r.model.packagedAttributes.reverse := by
    rw [h.attributes, finding.found, Model.packagedAttributes, h.indexed.declares.refs,
      List.flatMap_map]
    simp only [Model.classifier, h.classifiers]
  rw [Model.EndsLast, ← h.indexed.find?_eq hfound, Resolution.find?_congr h.attributes]
  exact h.found

theorem ModelDocument.resolves_last (document : ModelDocument) :
    Resolves document.Flawed (fun m => m.Mirrors document ∧ m.EndsLast document)
      document.resolve := by
  have hdeclared :=
    (resolves_declareClassifiers (declaration_empty document.name) document.classifiers).imp
    (show _ ↔ ¬ (document.classifiers.map (·.id)).Nodup by simp) fun _ => id
  refine hdeclared.bind fun ⟨declared, m⟩ ⟨declaration, name, documents⟩ => ?_
  refine (resolves_findClassifiers documents declaration).bind fun before finding => ?_
  have associating := finding.toFilling.associating declaration
  have first : FindingAssociations declared before [] before :=
    ⟨associating, by rw [List.forall₂_nil_left_iff.mp associating.associations]; exact .nil⟩
  refine (Resolves.foldlM first fun done s r _ hr => ?_).bind_pure fun r hr =>
    ⟨hr.mirrors finding.toFilling declaration documents name, hr.endsLast finding⟩
  exact resolves_findAssociation documents (finding.keys_eq documents) hr s

/-- The attributes of a model have the identifiers that its document gives them, in order. An end of
an association that names an attribute is the last one of that identifier, and the only one exactly
if the document gives the identifier once. -/
theorem ModelDocument.resolve_attributes (document : ModelDocument) (m : Model)
    (ok : document.resolve = .ok m) :
    m.attributeIds = document.attributeIds ∧ m.packagedAttributes.Nodup ∧
      List.Forall₂ (fun s a => List.Forall₂ (fun e p => ∀ reference ∈ e.realizedBy,
          m.lastAttribute? reference = some p ∧
          ((∀ q ∈ m.packagedAttributes, (m.property q).id = reference → q = p) ↔
            document.attributeIds.count reference = 1)) s.ends (m.association a).ends)
        document.associations m.packagedAssociations := by
  have h := document.resolves_last
  rw [ok] at h
  cases h with
  | ok _ result =>
    obtain ⟨mirrors, ends⟩ := result
    have hids := mirrors.attributeIds_eq
    have distinct := Model.nodup_packagedAttributes mirrors.wellFormed mirrors.linked
    refine ⟨hids, distinct, ends.imp fun s a hends =>
      hends.imp fun e p found reference hreference => ?_⟩
    have hlast := found reference hreference
    have hp : p ∈ m.packagedAttributes := List.mem_reverse.mp (List.mem_of_find?_eq_some hlast)
    obtain rfl : (m.property p).id = reference := by simpa using List.find?_some hlast
    refine ⟨hlast, ?_⟩
    rw [← hids]
    exact alone_iff_count distinct hp

/-- A book refers to its author by an attribute that an association names. No other attribute has
its identifier. -/
theorem ModelDocument.resolve_attributes_author :
    let document : ModelDocument :=
      { name := "m"
        classifiers := [
          { id := "a", name := "Author", attributes := [.identity "Id" "integer"] },
          { id := "b", name := "Book", attributes := [.identity "Id" "integer", .of "author" "a"] }]
        associations := [{ id := "s", ends := [
          { realizedBy := some "b.author" },
          { name := "books", type := some "b", upper := -1 }] }] }
    ∃ m, document.resolve = .ok m ∧ m.attributeIds = ["a.Id", "b.Id", "b.author"] ∧
      List.Forall₂ (fun s a => List.Forall₂ (fun e p => ∀ reference ∈ e.realizedBy,
          m.lastAttribute? reference = some p ∧
          ∀ q ∈ m.packagedAttributes, (m.property q).id = reference → q = p) s.ends
            (m.association a).ends)
        document.associations m.packagedAssociations := by
  intro document
  have hrun : (do
      let m ← document.resolve
      return m.attributeIds) = .ok ["a.Id", "b.Id", "b.author"] := by
    decide +kernel
  obtain ⟨m, hm, hids⟩ := bind_eq_ok.mp hrun
  have hids := Except.ok.inj hids
  obtain ⟨e, distinct, ends⟩ := ModelDocument.resolve_attributes document m hm
  have nodup : m.attributeIds.Nodup := hids ▸ by decide
  refine ⟨m, hm, hids, ends.imp fun s a hends => hends.imp fun x p h reference hreference => ?_⟩
  obtain ⟨hlast, alone⟩ := h reference hreference
  refine ⟨hlast, alone.mpr ?_⟩
  have hp : p ∈ m.packagedAttributes := List.mem_reverse.mp (List.mem_of_find?_eq_some hlast)
  have hid : (m.property p).id = reference := by simpa using List.find?_some hlast
  rw [← e]
  exact List.count_eq_one_of_mem nodup (hid ▸ List.mem_map_of_mem hp)

/-- Two classes have an attribute of one identifier each, and an association names it. -/
theorem ModelDocument.not_distinct_attributeIds :
    let reference : AttributeDocument := { name := "a", type := some "a", id := some "r" }
    let document : ModelDocument :=
      { name := "m"
        classifiers := [
          { id := "a", name := "A", attributes := [.identity "Id" "integer"] },
          { id := "b", name := "B", attributes := [.identity "Id" "integer", reference] },
          { id := "c", name := "C", attributes := [.identity "Id" "integer", reference] }]
        associations := [{ id := "s", ends := [
          { realizedBy := some "r" }, { name := "bs", type := some "b", upper := -1 }] }] }
    ∃ m, document.resolve = .ok m ∧ m.attributeIds = ["a.Id", "b.Id", "r", "c.Id", "r"] ∧
      ¬ m.attributeIds.Nodup ∧ ∃ a ∈ m.packagedAssociations, ∃ p ∈ (m.association a).ends,
        ∃ q ∈ m.packagedAttributes, (m.property q).id = (m.property p).id ∧ q ≠ p := by
  intro reference document
  have hrun : (do
      let m ← document.resolve
      return (m.attributeIds, decide (∃ a ∈ m.packagedAssociations, ∃ p ∈ (m.association a).ends,
        ∃ q ∈ m.packagedAttributes, (m.property q).id = (m.property p).id ∧ q ≠ p))) =
        .ok (["a.Id", "b.Id", "r", "c.Id", "r"], true) := by
    decide +kernel
  obtain ⟨m, hm, hrun⟩ := bind_eq_ok.mp hrun
  obtain ⟨hids, shared⟩ := Prod.mk.inj (Except.ok.inj hrun)
  exact ⟨m, hm, hids, by rw [hids]; decide, of_decide_eq_true shared⟩

end Schemata
