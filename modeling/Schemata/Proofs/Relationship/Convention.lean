import Schemata.Proofs.Database
import Schemata.Proofs.Document.Written
import Schemata.Proofs.Model.Ends
import Schemata.Proofs.Relationship.Found
import Schemata.Proofs.Schema.Alike

/-!
# Conventions for the ends of associations

A model whose ends have the types that they lead to can be written with the types that they start
from. With the convention that fits, the same relationships are found in the associations of both.
Columns are made from the types of attributes, though, and know no convention: the tables are the
same if no column and no identity depends on a type that was exchanged.
-/
namespace Schemata
namespace Model

variable {m m' : Model} {a : AssociationRef} {p q : PropertyRef} {c : ClassifierRef}

def otherType? (m : Model) (p : PropertyRef) (a : AssociationRef) : Option ClassifierRef :=
  match (m.association a).ends with
  | [q, r] =>
    match (m.property q).type, (m.property r).type with
    | some s, some t => if p = q then some t else if p = r then some s else none
    | _, _ => none
  | _ => none

def exchangedType (m : Model) (p : PropertyRef) : Option ClassifierRef :=
  (m.packagedAssociations.findSome? (m.otherType? p)).or (m.property p).type

/-- The model in which both ends of each binary association have exchanged their types. -/
def exchanged (m : Model) : Model :=
  { m with properties := m.properties.mapIdx fun i property =>
      { property with type := m.exchangedType ⟨i⟩ } }

theorem otherType?_eq_some {type : ClassifierRef} (h : m.otherType? p a = some type) :
    ∃ q r s t, (m.association a).ends = [q, r] ∧ (m.property q).type = some s ∧
      (m.property r).type = some t ∧ ((p = q ∧ type = t) ∨ (p = r ∧ type = s)) := by
  rw [otherType?] at h
  split at h
  case h_2 => cases h
  case h_1 q r hends =>
    split at h
    case h_2 => cases h
    case h_1 s t hs ht =>
      refine ⟨q, r, s, t, hends, hs, ht, ?_⟩
      split at h
      case isTrue hp => exact .inl ⟨hp, (Option.some.inj h).symm⟩
      case isFalse =>
        split at h
        case isTrue hp => exact .inr ⟨hp, (Option.some.inj h).symm⟩
        case isFalse => cases h

theorem property_exchanged (m : Model) (p : PropertyRef) :
    m.exchanged.property p = { m.property p with type := m.exchangedType p } := by
  obtain ⟨place⟩ := p
  simp only [exchanged, property, List.getD_eq_getElem?_getD, List.getElem?_mapIdx]
  rcases Nat.lt_or_ge place m.properties.length with h | h
  · simp [h]
  · -- A place without a property is the end of no association that has types.
    have hnone : m.exchangedType ⟨place⟩ = none := by
      have hdefault : m.property ⟨place⟩ = {} := property_of_length_le h
      rw [exchangedType, hdefault, Option.or_none, List.findSome?_eq_none_iff]
      intro a _
      by_contra hne
      obtain ⟨type, ht⟩ := Option.ne_none_iff_exists'.mp hne
      obtain ⟨q, r, s, t, _, hs, ht, ⟨rfl, _⟩ | ⟨rfl, _⟩⟩ := otherType?_eq_some ht
      · rw [hdefault] at hs
        cases hs
      · rw [hdefault] at ht
        cases ht
    rw [List.getElem?_eq_none h, hnone]
    rfl

theorem exchangedType_of_mem (once : m.EndsOnce) (ha : a ∈ m.packagedAssociations)
    (hp : p ∈ (m.association a).ends) :
    m.exchangedType p = (m.otherType? p a).or (m.property p).type := by
  have hsome : ∀ b ∈ m.packagedAssociations, ∀ type, m.otherType? p b = some type → b = a := by
    intro b hb type ht
    obtain ⟨q, r, s, t, hends, _, _, h⟩ := otherType?_eq_some ht
    refine once b hb a ha p ?_ hp
    rw [hends]
    rcases h with ⟨rfl, _⟩ | ⟨rfl, _⟩ <;> simp
  rw [exchangedType]
  congr 1
  cases h : m.packagedAssociations.findSome? (m.otherType? p) with
  | none => exact (List.findSome?_eq_none_iff.mp h a ha).symm
  | some type =>
    obtain ⟨b, hb, ht⟩ := List.exists_of_findSome?_eq_some h
    rw [← hsome b hb type ht, ht]

theorem bothEnds?_exchanged (once : m.EndsOnce) (ha : a ∈ m.packagedAssociations) :
    m.exchanged.bothEnds? .declared a = m.bothEnds? .opposite a := by
  have hassociation : m.exchanged.association a = m.association a := rfl
  rw [bothEnds?, bothEnds?, hassociation]
  split
  case h_2 => rfl
  case h_1 p q hends =>
    have hp := exchangedType_of_mem (p := p) once ha (by simp [hends])
    have hq := exchangedType_of_mem (p := q) once ha (by simp [hends])
    rw [property_exchanged, property_exchanged, hp, hq, otherType?, otherType?, hends]
    cases hs : (m.property p).type with
    | none => simp [hs]
    | some s =>
      cases ht : (m.property q).type with
      | none => simp [hs, ht]
      | some t =>
        by_cases hpq : q = p
        · subst hpq
          obtain rfl := Option.some.inj (hs.symm.trans ht)
          simp [hs, EndConvention.ends]
        · simp [hs, ht, hpq, EndConvention.ends]

theorem relationshipsAt_exchanged (once : m.EndsOnce) (ha : a ∈ m.packagedAssociations) :
    m.exchanged.relationshipsAt .declared a = m.relationshipsAt .opposite a := by
  have hof : ∀ near far, m.exchanged.relationshipOf near far = m.relationshipOf near far := by
    intro near far
    simp only [relationshipOf, property_exchanged]
  rw [relationshipsAt, relationshipsAt, bothEnds?_exchanged once ha]
  simp only [hof]

/-- The relationships of associations are the same in either convention. -/
theorem associationRelationships_exchanged (once : m.EndsOnce) :
    (m.exchanged.associationRelationships .declared).value =
      (m.associationRelationships .opposite).value := by
  have helements : m.exchanged.packagedAssociations = m.packagedAssociations := rfl
  rw [associationRelationships_value, associationRelationships_value, helements]
  exact congrArg Except.ok (List.flatMap_congr fun a ha => relationshipsAt_exchanged once ha)

theorem alike_exchanged (indifferent : ∀ c, ∀ p ∈ (m.classifier c).attributes,
    m.Indifferent m.exchanged c p) : m.Alike m.exchanged :=
  ⟨⟨rfl, fun p => ⟨m.exchangedType p, property_exchanged m p⟩, indifferent⟩, rfl⟩

/-- Where no attribute depends on its type, so are all relationships. -/
theorem relationshipMap_exchanged (once : m.EndsOnce) (alike : m.Alike m.exchanged) :
    (m.exchanged.relationshipMap .declared).value = (m.relationshipMap .opposite).value := by
  refine Logged.value_bind_congr ?_ fun rs _ => ?_
  · refine Logged.value_bind_congr (associationRelationships_exchanged once) fun _ _ => ?_
    rw [alike.attributeRelationships]
  · have hinsert : ∀ map, RelationshipMap.insertAll map m.exchanged rs = map.insertAll m rs :=
      fun _ => rfl
    rw [hinsert]

end Model

namespace Options

section
variable (o : Options) (convention : EndConvention) (m : Model) (map : RelationshipMap)

theorem attributeColumns_convention (table : String) (c : ClassifierRef) (identity : Option String)
    (ps : List PropertyRef) : { o with convention }.attributeColumns m table c identity ps =
      o.attributeColumns m table c identity ps := by
  induction ps generalizing identity with
  | nil => rfl
  | cons p rest ih =>
    rw [attributeColumns, attributeColumns]
    simp only [ih]
    rfl

/-- Once the relationships are found, the convention does not matter. -/
theorem deriveTables_convention (c : Catalog) :
    { o with convention }.deriveTables m map c = o.deriveTables m map c := by
  have hdefinition :
      ∀ s, { o with convention }.tableDefinition? m map s = o.tableDefinition? m map s := by
    intro s
    rw [tableDefinition?, tableDefinition?]
    simp only [attributeColumns_convention]
    rfl
  have hpackaged : { o with convention }.packagedTable? m map = o.packagedTable? m map := by
    funext s
    rw [packagedTable?, packagedTable?, hdefinition]
    rfl
  rw [deriveTables, deriveTables, tableDefinitions, tableDefinitions, hpackaged]

theorem buildWith_of_ansi (c : Catalog) (ansi : o.dialect = .ansi) :
    o.buildWith m map c = o.buildTables m map c := by
  rw [buildWith]
  simp only [ansi]
  exact bind_pure _

theorem build_eq_ok_of_ansi {o : Options} {m : Model} (ansi : o.dialect = .ansi) {c c' : Catalog}
    {db : Database} : (o.build m c).value = .ok (db, c') ↔ ∃ map tables,
      (m.relationshipMap o.convention).value = .ok map ∧
      (o.deriveTables m map c).value = .ok (tables, c') ∧
      db = { dialect := o.factory.database, tables } := by
  rw [build_eq, Logged.bind_eq_ok]
  simp only [buildWith_of_ansi _ _ _ _ ansi, buildTables, Logged.bind_eq_ok]
  constructor
  · rintro ⟨map, hmap, ⟨tables, _⟩, ht, h⟩
    cases h
    exact ⟨map, tables, hmap, ht, rfl⟩
  · rintro ⟨map, tables, hmap, ht, rfl⟩
    exact ⟨map, hmap, _, ht, rfl⟩

end

/-- The tables of a model do not depend on the convention for the ends of its associations, if each
attribute either has the same type in both, or has no column and is no identity. -/
theorem build_exchanged (o : Options) (ansi : o.dialect = .ansi) (m : Model) (once : m.EndsOnce)
    (filters : ∀ s, o.becomesTable m.exchanged s = o.becomesTable m s)
    (indifferent : ∀ c, ∀ p ∈ (m.classifier c).attributes, m.Indifferent m.exchanged c p)
    (c : Catalog) :
    ({ o with convention := .declared }.build m.exchanged c).value =
      ({ o with convention := .opposite }.build m c).value := by
  have alike := Model.alike_exchanged indifferent
  rw [build_eq, build_eq]
  refine Logged.value_bind_congr (Model.relationshipMap_exchanged once alike) fun map _ => ?_
  have hdeclared := buildWith_of_ansi { o with convention := .declared } m.exchanged map c ansi
  have hopposite := buildWith_of_ansi { o with convention := .opposite } m map c ansi
  rw [hdeclared, hopposite, buildTables, buildTables,
    deriveTables_convention o .declared m.exchanged,
    deriveTables_convention o .opposite m]
  exact Logged.value_bind_congr (alike.deriveTables_value o filters map c) fun _ _ => rfl

/-- Staff is the end of departments, and the other end belongs to the association. -/
theorem build_exchanged_owned :
    let o := of .ansi
    let document : ModelDocument := {
      name := "m"
      classifiers := [
        { id := "d", name := "Department", attributes := [
          .identity "Id" "integer", .many "staff" "e"] },
        { id := "e", name := "Employee", attributes := [.identity "Id" "integer"] }]
      associations := [
        { id := "s", ends := [
          { realizedBy := some "d.staff" }, { name := "department", type := some "d" }] }] }
    ∃ m db c', Model.ofDatum document.write = .ok m ∧ m.exchanged ≠ m ∧
      ({ o with convention := .opposite }.build m {}).value = .ok (db, c') ∧
      (db.tables.map fun t => ((c'.table t).name, (c'.table t).columns.map (·.name))) =
        [("Department", ["Id"]), ("Employee", ["Id", "Id_staff"])] ∧
      ({ o with convention := .declared }.build m.exchanged {}).value =
        ({ o with convention := .opposite }.build m {}).value := by
  intro o document
  have hrun : ({ o with convention := .opposite } : Options).observe document (fun m db c' =>
      .ok (decide (m.exchanged ≠ m ∧ m.EndsOnce ∧ ∀ s ∈ m.packagedClassifiers,
          ∀ p ∈ (m.classifier s).attributes, m.Indifferent m.exchanged s p),
        db.tables.map fun t => ((c'.table t).name, (c'.table t).columns.map Column.name))) =
      .ok (true, [("Department", ["Id"]), ("Employee", ["Id", "Id_staff"])]) := by
    decide +kernel
  obtain ⟨m, db, c', hm, hb, hrun⟩ := observe_eq_ok.mp hrun
  obtain ⟨h, hcolumns⟩ := Prod.mk.inj (Except.ok.inj hrun)
  obtain ⟨different, once, indifferent⟩ := of_decide_eq_true h
  refine ⟨m, db, c', hm, different, hb, hcolumns,
    build_exchanged o rfl m once (fun _ => rfl) (fun s p hp => ?_) {}⟩
  have packaged := (Model.Loaded.document hm).wellFormed.packaged s (List.ne_nil_of_mem hp)
  exact indifferent s packaged p hp

/-- An employee owns the single end: its column refers to the type of the attribute, which is the
employee once the types are exchanged. -/
theorem not_build_exchanged_single :
    let o := of .ansi
    let document (s t : String) : ModelDocument := {
      name := "m"
      classifiers := [
        { id := "d", name := "D", attributes := [.identity "Id" "uuid", .many "es" s] },
        { id := "e", name := "E", attributes := [.identity "Id" "integer", .of "d" t] }]
      associations := [
        { id := "s", ends := [{ realizedBy := some "d.es" }, { realizedBy := some "e.d" }] }] }
    ∃ m db c db' c', Model.ofDatum (document "e" "d").write = .ok m ∧
      Model.ofDatum (document "d" "e").write = .ok m.exchanged ∧ m.EndsOnce ∧
      ({ o with convention := .opposite }.build m {}).value = .ok (db, c) ∧
      ({ o with convention := .declared }.build m.exchanged {}).value = .ok (db', c') ∧
      (db.tables.map fun t => ((c.table t).columns.map (·.text), (c.table t).dependents.length)) =
        [(["[Id] uuid NOT NULL"], 1), (["[Id] integer NOT NULL", "[dId] uuid NOT NULL"], 0)] ∧
      (db'.tables.map fun t =>
        ((c'.table t).columns.map (·.text), (c'.table t).dependents.length)) =
        [(["[Id] uuid NOT NULL"], 0),
          (["[Id] integer NOT NULL", "[dId] integer NOT NULL"], 1)] := by
  intro o document
  have hrun : ({ o with convention := .opposite } : Options).observe (document "e" "d")
      (fun m db c => do
        let built' ← ({ o with convention := .declared }.build m.exchanged {}).value
        return decide (Model.ofDatum (document "d" "e").write = Except.ok m.exchanged ∧ m.EndsOnce ∧
          (db.tables.map fun t =>
            ((c.table t).columns.map Column.text, (c.table t).dependents.length)) =
            [(["[Id] uuid NOT NULL"], 1), (["[Id] integer NOT NULL", "[dId] uuid NOT NULL"], 0)] ∧
          (built'.1.tables.map fun t =>
            ((built'.2.table t).columns.map Column.text, (built'.2.table t).dependents.length)) =
            [(["[Id] uuid NOT NULL"], 0),
              (["[Id] integer NOT NULL", "[dId] integer NOT NULL"], 1)])) = .ok true := by
    decide +kernel
  obtain ⟨m, db, c, hm, hb, hrun⟩ := observe_eq_ok.mp hrun
  obtain ⟨⟨db', c'⟩, hb', hrun⟩ := bind_eq_ok.mp hrun
  obtain ⟨hm', once, htables⟩ := of_decide_eq_true (Except.ok.inj hrun)
  exact ⟨m, db, c, db', c', hm, hm', once, hb, hb', htables⟩

end Options

end Schemata
