import Schemata.Proofs.RecordClass.Discovery

/-!
# The models of record classes

The model of record classes has a classifier for each declaration that the roots reach through the
types of fields, in the order in which the declarations are met, and each class has an attribute for
each of its fields.
-/
namespace Schemata
open Relation

variable {r : Registry} {ref : DeclarationRef} {roots : List DeclarationRef}
  {listed : List (DeclarationRef × ClassifierRef)} {done : List (DeclarationRef × Field)}

namespace Registry

/-- A root leads to the declaration by way of fields. -/
def Reachable (r : Registry) (roots : List DeclarationRef) (ref : DeclarationRef) : Prop :=
  ∃ root ∈ roots, ReflTransGen (fun a b => b ∈ r.mentions a) root ref

theorem mem_fieldsOf {d : DeclarationRef × Field} (h : d ∈ r.fieldsOf ref) :
    d.1 = ref ∧ r.isRecordClass ref = true := by
  obtain ⟨field, hfield, rfl⟩ := List.mem_map.mp h
  refine ⟨rfl, ?_⟩
  rw [isRecordClass]
  cases hf : r.fields? ref with
  | none => simp [hf] at hfield
  | some fields => rfl

def conversionOf (r : Registry) (ref : DeclarationRef) : Notice :=
  let name := (r.class? ref).elim "" (·.name)
  .recordClassConverted name name

inductive Represents (r : Registry) (m : Model) (listed : List (DeclarationRef × ClassifierRef))
    (ref : DeclarationRef) (s : ClassifierRef) : Prop
  | recordClass {c : RecordClass} {fields : List Field} (declared : r.class? ref = some c)
    (record : r.fields? ref = some fields)
    (classifier : m.classifier s =
      { id := c.id, name := c.name, kind := .entity, attributes := (m.classifier s).attributes })
    (distinct : (m.classifier s).attributes.Nodup)
    (attributes : List.Forall₂ (fun field p => field.Becomes listed s (m.property p)) fields
      (m.classifier s).attributes)
  | enumeration {e : EnumerationClass} (declared : r.enumeration? ref = some e)
    (record : r.fields? ref = none) (classifier : m.classifier s =
      { id := e.id, name := e.name, kind := .enumeration, base := some e.primitive.ref })

/-- The classifiers of a model are those of the declarations that the roots reach: first the roots,
then what the fields of the classes mention, class by class in the same order, each where it is
mentioned first. -/
structure Models (r : Registry) (roots : List DeclarationRef)
    (listed : List (DeclarationRef × ClassifierRef)) (m : Model) : Prop where
  records : ∀ root ∈ roots, r.isRecordClass root = true
  reachable : ∀ ref, ref ∈ listed.map Prod.fst ↔ r.Reachable roots ref
  order : listed.map Prod.fst =
    (roots ++ ((listed.map Prod.fst).filter r.isRecordClass).flatMap r.mentions).eraseDups
  once : (listed.map Prod.fst).Nodup
  packaged : m.packagedClassifiers = listed.map Prod.snd
  distinct : m.packagedClassifiers.Nodup
  classifiers : ∀ l ∈ listed, r.Represents m listed l.1 l.2

end Registry

namespace Conversion

variable {s s' : Conversion} {c : ClassifierRef} {position : Nat}

theorem Holds.map_classes (h : Holds r listed done s) :
    s.classes.map Prod.fst = (listed.map Prod.fst).filter r.isRecordClass := by
  rw [h.classes, List.filter_map]
  rfl

/-- The loop stands at a position: the fields of the classes in front of it are done, and all that
was met is reachable. -/
structure Stands (r : Registry) (roots : List DeclarationRef) (position : Nat) (s : Conversion)
    (listed : List (DeclarationRef × ClassifierRef)) (done : List (DeclarationRef × Field)) :
    Prop where
  holds : Holds r listed done s
  met : listed.map Prod.fst = metDeclarations roots done
  done : done = ((s.classes.map Prod.fst).take position).flatMap r.fieldsOf
  reachable : ∀ ref ∈ listed.map Prod.fst, r.Reachable roots ref

theorem mem_metDeclarations : ref ∈ metDeclarations roots done ↔
    ref ∈ roots ∨ ∃ d ∈ done, d.2.type.declaration? = some ref := by
  simp [metDeclarations, List.mem_filterMap]

theorem stands_first (h : Holds r listed [] s)
    (met : listed.map Prod.fst = metDeclarations roots []) :
    Stands r roots 0 s listed [] := by
  refine ⟨h, met, rfl, fun ref href => ?_⟩
  rw [met, mem_metDeclarations] at href
  exact ⟨ref, by simpa using href, .refl⟩

theorem Stands.turn {declared : DeclarationRef × ClassifierRef}
    (h : Stands r roots position s listed done) (here : s.classes[position]? = some declared)
    (hc : (convertClass r s declared).value = .ok s') :
    ∃ more done', Stands r roots (position + 1) s' more done' ∧ s.classes <+: s'.classes := by
  have hdeclared := List.mem_of_getElem? here
  rw [h.holds.classes, List.mem_filter] at hdeclared
  obtain ⟨more, hfront, hholds, hmet⟩ := h.holds.addFields hdeclared.1 h.met (convertClass_eq_ok hc)
  have hclasses : s.classes <+: s'.classes := by
    rw [h.holds.classes, hholds.classes]
    exact hfront.filter _
  refine ⟨more, _, ⟨hholds, hmet, ?_, ?_⟩, hclasses⟩
  · -- the class at the position stays there, and so do those in front of it
    obtain ⟨behind, hbehind⟩ := hclasses
    have hlt : position + 1 ≤ (s.classes.map Prod.fst).length := by
      rw [List.length_map]
      exact (List.getElem?_eq_some_iff.mp here).1
    have hkey : (s.classes.map Prod.fst)[position]? = some declared.1 := by simp [here]
    rw [← hbehind, List.map_append, List.take_append_of_le_length hlt, List.take_add_one, hkey,
      List.flatMap_append, ← h.done]
    simp [Registry.fieldsOf]
  · intro ref href
    rw [hmet, mem_metDeclarations] at href
    rcases href with hroot | ⟨d, hd, hmention⟩
    · exact ⟨ref, hroot, .refl⟩
    · rcases List.mem_append.mp hd with hold | hnew
      · refine h.reachable ref ?_
        rw [h.met, mem_metDeclarations]
        exact .inr ⟨d, hold, hmention⟩
      · obtain ⟨root, hroot, path⟩ := h.reachable declared.1 (List.mem_map_of_mem hdeclared.1)
        exact ⟨root, hroot, path.tail (List.mem_filterMap.mpr ⟨d, hnew, hmention⟩)⟩

theorem Holds.log_convertClass {declared : DeclarationRef × ClassifierRef}
    (h : Holds r listed done s) (hd : declared ∈ s.classes) :
    (convertClass r s declared).log = [r.conversionOf declared.1] := by
  rw [h.classes, List.mem_filter] at hd
  obtain ⟨blank, hblank, hclassifier⟩ := h.classifiers declared hd.1
  rw [Registry.blank?, if_pos hd.2] at hblank
  obtain ⟨c, hc, rfl⟩ := Option.map_eq_some_iff.mp hblank
  have hname : (s.model.classifier declared.2).name = (r.class? declared.1).elim "" (·.name) := by
    rw [hclassifier, hc]
    rfl
  rw [convertClass, Logged.log_bind_ok (Logged.value_note _), hname]
  rfl

/-- All classes behind a position are converted, in the order in which they are met. -/
theorem Stands.ends {outcome : Logged Conversion} (ends : Ends r position s outcome)
    (h : Stands r roots position s listed done) (ok : outcome.value = .ok s') :
    ∃ last more done', Stands r roots last s' more done' ∧ s'.classes.length ≤ last ∧
      s.classes <+: s'.classes ∧
      outcome.log = (s'.classes.drop position).map fun l => r.conversionOf l.1 := by
  induction ends generalizing listed done with
  | @past position s past =>
    cases ok
    refine ⟨position, listed, done, h, past, List.prefix_refl _, ?_⟩
    rw [List.drop_of_length_le past]
    rfl
  | fault => cases ok
  | @turn position s t declared outcome here converted _ ih =>
    obtain ⟨more, done', hturn, hfront⟩ := h.turn here converted
    obtain ⟨last, rest, done'', hends, hlast, hfront', hrest⟩ := ih hturn ok
    have hall := hfront.trans hfront'
    have hlt : position < s.classes.length := (List.getElem?_eq_some_iff.mp here).1
    have hdrop : s'.classes.drop position = declared :: s'.classes.drop (position + 1) := by
      rw [List.drop_eq_getElem_cons (Nat.lt_of_lt_of_le hlt hall.length_le), ← hall.getElem hlt]
      simpa using (List.getElem?_eq_some_iff.mp here).2
    refine ⟨last, rest, done'', hends, hlast, hall, ?_⟩
    rw [hdrop, List.map_cons, hrest, h.holds.log_convertClass (List.mem_of_getElem? here)]
    rfl

/-! ## What the loop leaves -/

theorem filter_fieldsOf (other : DeclarationRef) :
    (r.fieldsOf other).filter (fun d => d.1 = ref) = if other = ref then r.fieldsOf ref
      else [] := by
  by_cases h : other = ref <;> simp [Registry.fieldsOf, List.filter_map, Function.comp_def, h]

theorem filter_flatMap_fieldsOf {refs : List DeclarationRef} (distinct : refs.Nodup)
    (href : ref ∈ refs) :
    (refs.flatMap r.fieldsOf).filter (fun d => d.1 = ref) = r.fieldsOf ref := by
  induction refs with
  | nil => cases href
  | cons other rest ih =>
    obtain ⟨fresh, distinct⟩ := List.nodup_cons.mp distinct
    rw [List.flatMap_cons, List.filter_append, filter_fieldsOf]
    by_cases h : other = ref
    · have hrest : (rest.flatMap r.fieldsOf).filter (fun d => d.1 = ref) = [] := by
        rw [List.filter_eq_nil_iff]
        intro d hd hsame
        obtain ⟨other', hother, hd⟩ := List.mem_flatMap.mp hd
        obtain rfl : other' = ref :=
          (Registry.mem_fieldsOf hd).1.symm.trans (of_decide_eq_true hsame)
        exact fresh (h ▸ hother)
      rw [if_pos h, hrest, List.append_nil]
    · rw [if_neg h, List.nil_append,
        ih distinct ((List.mem_cons.mp href).resolve_left fun e => h e.symm)]

theorem Holds.attributes {fields : List Field} (h : Holds r listed done s) (hl : (ref, c) ∈ listed)
    (hfields : done.filter (fun d => d.1 = ref) = fields.map fun field => (ref, field)) :
    (attributesOf done ref).Nodup ∧
      List.Forall₂ (fun field p => field.Becomes listed c (s.model.property p)) fields
        (attributesOf done ref) := by
  constructor
  · have hplaces : ((done.zipIdx.filter fun d => d.1.1 = ref).map Prod.snd).Nodup := by
      refine List.Nodup.sublist (List.filter_sublist.map _) ?_
      rw [List.zipIdx_map_snd]
      exact List.nodup_range'
    have hmap : attributesOf done ref =
        ((done.zipIdx.filter fun d => d.1.1 = ref).map Prod.snd).map PropertyRef.mk := by
      rw [attributesOf, List.map_map]
      rfl
    rw [hmap]
    exact hplaces.map fun _ _ e => PropertyRef.mk.inj e
  · have hdone : fields = (done.zipIdx.filter fun d => d.1.1 = ref).map fun d => d.1.2 := by
      have hfirst : (done.zipIdx.filter fun d => d.1.1 = ref).map Prod.fst =
          fields.map fun field => (ref, field) := by
        rw [← hfields, ← List.zipIdx_map_fst 0 done, List.filter_map]
        rw [List.zipIdx_map_fst]
        rfl
      have := congrArg (List.map Prod.snd) hfirst
      simpa [Function.comp_def] using this.symm
    rw [hdone, attributesOf, List.forall₂_map_left_iff, List.forall₂_map_right_iff,
      List.forall₂_same]
    rintro ⟨d, i⟩ hd
    obtain ⟨hd, hsame⟩ := List.mem_filter.mp hd
    have hi : done[i]? = some d := List.mk_mem_zipIdx_iff_getElem?.mp hd
    obtain ⟨p, hp, owner, howner, becomes⟩ := exists_getElem?_of_forall₂ h.properties.flip hi
    have hkey : (d.1, owner) = (ref, c) :=
      List.inj_on_of_nodup_map h.distinct howner hl (by simpa using hsame)
    obtain rfl : owner = c := congrArg Prod.snd hkey
    have hproperty : s.model.property ⟨i⟩ = p := by simp [Model.property, hp]
    simpa [hproperty] using becomes

section
variable (h : Stands r roots position s listed done) (past : s.classes.length ≤ position)
include h past

theorem Stands.all_done : done = (s.classes.map Prod.fst).flatMap r.fieldsOf := by
  rw [h.done, List.take_of_length_le (by simpa using past)]

theorem Stands.order : listed.map Prod.fst =
    (roots ++ ((listed.map Prod.fst).filter r.isRecordClass).flatMap r.mentions).eraseDups := by
  have hmentions : done.filterMap (fun d => d.2.type.declaration?) =
      ((listed.map Prod.fst).filter r.isRecordClass).flatMap r.mentions := by
    rw [h.all_done past, h.holds.map_classes, List.filterMap_flatMap]
    rfl
  rw [← hmentions]
  exact h.met

/-- What is listed contains the roots and is closed under the mentions of fields. -/
theorem Stands.mem_of_reachable (reachable : r.Reachable roots ref) :
    ref ∈ listed.map Prod.fst := by
  obtain ⟨root, hroot, path⟩ := reachable
  induction path with
  | refl =>
    rw [h.order past, List.mem_eraseDups]
    exact List.mem_append_left _ hroot
  | @tail a b _ edge ih =>
    obtain ⟨d, hd, _⟩ := List.mem_filterMap.mp edge
    have hclass := (Registry.mem_fieldsOf hd).2
    rw [h.order past, List.mem_eraseDups]
    exact List.mem_append_right _ (List.mem_flatMap.mpr ⟨a, List.mem_filter.mpr ⟨ih, hclass⟩, edge⟩)

theorem Stands.represents_recordClass {l : DeclarationRef × ClassifierRef} (hl : l ∈ listed)
    (record : r.isRecordClass l.1 = true) : r.Represents s.model listed l.1 l.2 := by
  obtain ⟨blank, hblank, hclassifier⟩ := h.holds.classifiers l hl
  rw [Registry.blank?, if_pos record] at hblank
  obtain ⟨c, hc, rfl⟩ := Option.map_eq_some_iff.mp hblank
  obtain ⟨fields, hfields⟩ := Option.isSome_iff_exists.mp record
  have hkeys := h.holds.map_classes
  have hkey : l.1 ∈ s.classes.map Prod.fst := by
    rw [hkeys, List.mem_filter]
    exact ⟨List.mem_map_of_mem hl, record⟩
  have hfilter := filter_flatMap_fieldsOf (r := r) (hkeys ▸ h.holds.distinct.filter _) hkey
  rw [← h.all_done past, Registry.fieldsOf, hfields] at hfilter
  obtain ⟨hdistinct, hattributes⟩ := h.holds.attributes hl hfilter
  have hown : (s.model.classifier l.2).attributes = attributesOf done l.1 := by rw [hclassifier]
  exact .recordClass hc hfields (by rw [hclassifier]) (hown ▸ hdistinct) (hown ▸ hattributes)

theorem Stands.represents_enumeration {l : DeclarationRef × ClassifierRef} (hl : l ∈ listed)
    (plain : r.isRecordClass l.1 = false) : r.Represents s.model listed l.1 l.2 := by
  obtain ⟨blank, hblank, hclassifier⟩ := h.holds.classifiers l hl
  rw [Registry.blank?, if_neg (by simp [plain])] at hblank
  obtain ⟨e, he, rfl⟩ := Option.map_eq_some_iff.mp hblank
  have hnone : r.fields? l.1 = none := by simpa [Registry.isRecordClass] using plain
  have hempty : attributesOf done l.1 = [] := by
    refine attributesOf_eq_nil fun d hd e => ?_
    rw [h.all_done past] at hd
    obtain ⟨ref, _, hd⟩ := List.mem_flatMap.mp hd
    obtain ⟨rfl, hclass⟩ := Registry.mem_fieldsOf hd
    rw [e, plain] at hclass
    cases hclass
  exact .enumeration he hnone (by rw [hclassifier, hempty])

theorem Stands.models (records : ∀ root ∈ roots, r.isRecordClass root = true) :
    r.Models roots listed s.model where
  records := records
  reachable := fun ref => ⟨h.reachable ref, h.mem_of_reachable past⟩
  order := h.order past
  once := h.holds.distinct
  packaged := h.holds.packaged
  distinct := h.holds.packaged ▸ h.holds.apart
  classifiers := by
    intro l hl
    cases hr : r.isRecordClass l.1 with
    | true => exact h.represents_recordClass past hl hr
    | false => exact h.represents_enumeration past hl hr

end

end Conversion

namespace Registry

variable {name : String} {given : List (Option DeclarationRef)} {m : Model}

/-- A conversion that no fault stops gives a model of what its roots reach, and notes each class
once. -/
theorem Runs.models {outcome : Logged Model} (h : r.Runs name given outcome)
    (ok : outcome.value = .ok m) :
    ∃ roots listed, given = roots.map some ∧ r.Models roots listed m ∧
      outcome.log = ((listed.map Prod.fst).filter r.isRecordClass).map r.conversionOf := by
  cases h with
  | refused => cases ok
  | @converted s outcome hroots ends =>
    have hempty :
        ([] : List (DeclarationRef × ClassifierRef)).map Prod.fst = metDeclarations [] [] := rfl
    obtain ⟨roots, rfl, records, first, hfirst, met⟩ :=
      (Conversion.holds_empty r name).declareRoots hempty hroots
    rw [← bind_pure_comp] at ok ⊢
    obtain ⟨s', hs', hm⟩ := Logged.bind_eq_ok.mp ok
    cases hm
    obtain ⟨last, listed, done, hlast, past, _, hlog⟩ :=
      (Conversion.stands_first hfirst met).ends ends hs'
    refine ⟨roots, listed, rfl, hlast.models past records, ?_⟩
    rw [Logged.log_bind_ok hs', hlog, List.drop_zero, ← hlast.holds.map_classes, List.map_map]
    simp

/-- The conversion of record classes ends. Unless a fault stops it, the model has one classifier for
each record class and each enumeration that the roots reach, in the order in which they are
mentioned first, and the classes, converted in that order, have one attribute for each field. -/
theorem toModel_models (r : Registry) (name : String) (given : List (Option DeclarationRef)) :
    r.Runs name given (r.toModel name given) ∧
      ∀ m, (r.toModel name given).value = .ok m →
        ∃ roots listed, given = roots.map some ∧ r.Models roots listed m ∧
          (r.toModel name given).log =
            ((listed.map Prod.fst).filter r.isRecordClass).map r.conversionOf :=
  ⟨runs_toModel r name given, fun _ => (runs_toModel r name given).models⟩

/-- Two classes refer to each other and one of them to itself; a third class and an enumeration are
mentioned twice. -/
theorem toModel_models_mutual :
    let field (name : String) (type : FieldType) : Field := { name, type }
    let record (name : String) (fields : List Field) : DeclarationRef × RecordClass :=
      (⟨"m", name⟩, { name, id := "m." ++ name, fields })
    let declared (name : String) : FieldType := .declared ⟨"m", name⟩
    let r : Registry := {
      classes := [
        record "D" [field "id" (.annotated (.scalar .integer) [.primaryKey])],
        record "C" [field "ds" (.collection .set (declared "D")), field "color" (declared "Color")],
        record "B" [field "a" (declared "A"), field "d" (.optional (declared "D"))],
        record "A" [field "parent" (.optional (declared "A")),
          field "bs" (.collection .list (declared "B")),
          field "c" (.annotated (declared "C") [.other "x"]), field "color" (declared "Color")]]
      enumerations := [(⟨"m", "Color"⟩, { name := "Color", id := "m.Color" })] }
    let given : List (Option DeclarationRef) := [some ⟨"m", "A"⟩, some ⟨"m", "C"⟩, some ⟨"m", "A"⟩]
    ∃ m, (r.toModel "model" given).value = .ok m ∧
      (m.packagedClassifiers.map fun s =>
        ((m.classifier s).name, (m.classifier s).attributes.length)) =
        [("A", 4), ("C", 2), ("B", 2), ("Color", 0), ("D", 1)] ∧
      r.Runs "model" given (r.toModel "model" given) ∧
      ∃ roots listed, given = roots.map some ∧ r.Models roots listed m ∧
        (r.toModel "model" given).log =
          ((listed.map Prod.fst).filter r.isRecordClass).map r.conversionOf := by
  intro field record declared r given
  have hrun : (do
      let m ← (r.toModel "model" given).value
      return m.packagedClassifiers.map fun s =>
        ((m.classifier s).name, (m.classifier s).attributes.length)) =
        .ok [("A", 4), ("C", 2), ("B", 2), ("Color", 0), ("D", 1)] := by
    decide +kernel
  obtain ⟨m, hm, hrun⟩ := bind_eq_ok.mp hrun
  obtain ⟨runs, models⟩ := toModel_models r "model" given
  exact ⟨m, hm, Except.ok.inj hrun, runs, models m hm⟩

end Registry

end Schemata
