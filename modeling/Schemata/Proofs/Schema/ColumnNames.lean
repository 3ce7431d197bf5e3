import Schemata.Proofs.Database
import Schemata.Proofs.Document.Written
import Schemata.Proofs.Model.Loaded
import Schemata.Proofs.Relationship.Found
import Schemata.Proofs.Schema.Identity
import Schemata.Proofs.Schema.Purposes

/-!
# Names of columns

Value columns, references and the foreign keys of relationships take their names from three schemes,
and no scheme looks at the names that another has given. The names of a table's columns are apart
exactly if the schemes do not meet.
-/
namespace Schemata

theorem Naming.affixed_inj (n : Naming) (kind : NameKind) {x y : String} :
    n.affixed kind x = n.affixed kind y ↔ x = y := by
  rw [affixed, affixed]
  split
  · rw [String.append_left_inj, String.append_right_inj]
  · rfl

structure Model.AttributesNamed (m : Model) : Prop where
  distinct : ∀ c ∈ m.packagedClassifiers,
    ((m.classifier c).attributes.map fun p => (m.property p).name).Nodup
  named : ∀ c ∈ m.packagedClassifiers, ∀ p ∈ (m.classifier c).attributes, (m.property p).name ≠ ""

instance (m : Model) : Decidable m.AttributesNamed :=
  decidable_of_iff (∀ c ∈ m.packagedClassifiers,
    ((m.classifier c).attributes.map fun p => (m.property p).name).Nodup ∧
      ∀ p ∈ (m.classifier c).attributes, (m.property p).name ≠ "")
    ⟨fun h => ⟨fun c hc => (h c hc).1, fun c hc => (h c hc).2⟩,
      fun h c hc => ⟨h.distinct c hc, h.named c hc⟩⟩

namespace Options

variable {o : Options} {m : Model} {map : RelationshipMap} {c : ClassifierRef} {p q : PropertyRef}
  {r r' : Relationship} {name : String}

def attributeName? (o : Options) (m : Model) (c : ClassifierRef) (p : PropertyRef) :
    Option String :=
  (o.attributePurpose? m c p).map (·.name)

def neededName? (o : Options) (m : Model) (r : Relationship) : Option String :=
  (o.neededPurpose? m r).map (·.name)

/-- The names that the three schemes give the columns of a classifier do not meet. -/
structure NamesApart (o : Options) (m : Model) (map : RelationshipMap) (c : ClassifierRef) :
    Prop where
  /-- No value column is named like a reference. -/
  references : ∀ p ∈ (m.classifier c).attributes, ∀ q ∈ (m.classifier c).attributes,
    m.attributePrincipal? c p = none → (m.attributePrincipal? c q).isSome = true →
    (m.property q).multiplicity.isMany = false →
      o.naming.columnName (m.property p) ≠ o.naming.foreignKeyColumnName (m.property q)
  /-- No relationship's column is named like that of an attribute. -/
  needed : ∀ r ∈ map.needed m c, ∀ p ∈ (m.classifier c).attributes, ∀ name,
    o.attributeName? m c p = some name → o.neededName? m r ≠ some name
  /-- Two relationships have columns of one name at most if they come from attributes of one
  principal. -/
  relationships : (map.needed m c).Pairwise fun r r' =>
    r.principal ≠ r'.principal ∨ r.opposite.isSome ∨ r'.opposite.isSome →
      o.neededName? m r ≠ o.neededName? m r'

theorem attributeName?_cases (h : o.attributeName? m c p = some name) :
    (m.attributePrincipal? c p = none ∧ name = o.naming.columnName (m.property p)) ∨
      (m.attributePrincipal? c p).isSome = true ∧ (m.property p).multiplicity.isMany = false ∧
        name = o.naming.foreignKeyColumnName (m.property p) := by
  rw [attributeName?, Option.map_eq_some_iff] at h
  obtain ⟨purpose, h, rfl⟩ := h
  rw [attributePurpose?] at h
  split at h
  case isTrue => cases h
  case isFalse =>
    split at h
    case h_1 type hp =>
      split at h
      case isTrue => cases h
      case isFalse single =>
        obtain ⟨referenced, _, rfl⟩ := Option.map_eq_some_iff.mp h
        exact .inr ⟨by rw [hp]; rfl, Bool.eq_false_iff.mpr single, rfl⟩
    case h_2 hp =>
      obtain rfl := Option.some.inj h
      exact .inl ⟨hp, rfl⟩

theorem attributeName?_of_value (principal : m.attributePrincipal? c p = none)
    (named : (m.property p).name ≠ "") :
    o.attributeName? m c p = some (o.naming.columnName (m.property p)) := by
  simp [attributeName?, attributePurpose?, principal, named, valuePurpose]

/-- The columns of attributes with different names can only meet if one of them is a reference. -/
theorem attributeName?_ne (apart : (m.property p).name ≠ (m.property q).name)
    (references : ∀ p' q', (p' = p ∧ q' = q ∨ p' = q ∧ q' = p) → m.attributePrincipal? c p' = none →
      (m.attributePrincipal? c q').isSome = true → (m.property q').multiplicity.isMany = false →
        o.naming.columnName (m.property p') ≠ o.naming.foreignKeyColumnName (m.property q'))
    {name' : String} (hp : o.attributeName? m c p = some name)
    (hq : o.attributeName? m c q = some name') : name ≠ name' := by
  rcases attributeName?_cases hp with ⟨value, rfl⟩ | ⟨reference, single, rfl⟩ <;>
    rcases attributeName?_cases hq with ⟨value', rfl⟩ | ⟨reference', single', rfl⟩
  · exact fun e => apart ((o.naming.affixed_inj .column).mp e)
  · exact references p q (.inl ⟨rfl, rfl⟩) value reference' single'
  · exact (references q p (.inr ⟨rfl, rfl⟩) value' reference single).symm
  · intro e
    have e := (o.naming.affixed_inj .foreignKeyColumn).mp e
    exact apart (String.append_left_inj "Id" |>.mp e)

theorem synthesizedName_of_named (identity : Property) {path : Property} (named : path.name ≠ "") :
    (o.synthesizedName identity path).1 =
      s!"{o.naming.columnName identity}_{o.naming.columnName path}" := by
  have hrole : o.naming.columnName path ≠ "" := affixed_ne_empty o.naming .column named
  rw [synthesizedName]
  simp only [if_neg hrole]

/-- With one identity, the names of two relationships tell their roles apart. -/
theorem synthesizedName_inj {identity path path' : Property} (named : path.name ≠ "")
    (named' : path'.name ≠ "")
    (e : (o.synthesizedName identity path).1 = (o.synthesizedName identity path').1) :
    path.name = path'.name := by
  rw [synthesizedName_of_named identity named, synthesizedName_of_named identity named'] at e
  exact (o.naming.affixed_inj .column).mp ((String.append_right_inj _).mp e)

theorem mem_found_attribute {convention : EndConvention} (hr : r ∈ m.found convention)
    (plain : r.opposite = none) :
    r.principal ∈ m.packagedClassifiers ∧ r.path ∈ (m.classifier r.principal).attributes := by
  rcases List.mem_append.mp hr with hr | hr
  · obtain ⟨a, _, hr⟩ := List.mem_flatMap.mp hr
    exact absurd plain (Model.opposite_ne_none hr)
  · obtain ⟨c, hc, _, p, hp, hr⟩ := Model.mem_attributeRelationships.mp hr
    obtain ⟨_, _, _, _, rfl⟩ := Model.relationshipOfAttribute?_eq_some.mp hr
    exact ⟨hc, hp⟩

theorem pairwise_attributeRelationships (distinct : m.packagedClassifiers.Nodup)
    (attributes : m.AttributesNamed) : m.attributeRelationships.Pairwise fun r r' =>
      r.principal = r'.principal → (m.property r.path).name ≠ (m.property r'.path).name := by
  rw [Model.attributeRelationships, List.pairwise_flatMap]
  constructor
  · intro c hc
    have hnames := attributes.distinct c (List.mem_of_mem_filter hc)
    rw [List.Nodup, List.pairwise_map] at hnames
    refine hnames.filterMap _ fun p q apart r hr r' hr' _ => ?_
    obtain ⟨_, _, _, _, rfl⟩ := Model.relationshipOfAttribute?_eq_some.mp hr
    obtain ⟨_, _, _, _, rfl⟩ := Model.relationshipOfAttribute?_eq_some.mp hr'
    exact apart
  · refine (distinct.filter _).imp fun {c d} apart r hr r' hr' e => absurd e ?_
    obtain ⟨p, _, hr⟩ := List.mem_filterMap.mp hr
    obtain ⟨q, _, hr'⟩ := List.mem_filterMap.mp hr'
    obtain ⟨_, _, _, _, rfl⟩ := Model.relationshipOfAttribute?_eq_some.mp hr
    obtain ⟨_, _, _, _, rfl⟩ := Model.relationshipOfAttribute?_eq_some.mp hr'
    exact apart

theorem pairwise_found (distinct : m.packagedClassifiers.Nodup) (attributes : m.AttributesNamed)
    (convention : EndConvention) : (m.found convention).Pairwise fun r r' =>
      r.opposite = none → r'.opposite = none → r.principal = r'.principal →
        (m.property r.path).name ≠ (m.property r'.path).name := by
  have hends : ∀ r ∈ m.packagedAssociations.flatMap (m.relationshipsAt convention),
      r.opposite ≠ none := by
    intro r hr
    obtain ⟨a, _, hr⟩ := List.mem_flatMap.mp hr
    exact Model.opposite_ne_none hr
  refine List.pairwise_append.mpr ⟨?_, ?_, fun r hr _ _ plain => absurd plain (hends r hr)⟩
  · exact List.pairwise_of_forall_mem_list fun r hr _ _ plain => absurd plain (hends r hr)
  · exact (pairwise_attributeRelationships distinct attributes).imp fun h _ _ => h

theorem neededName?_ne (named : (m.property r.path).name ≠ "")
    (named' : (m.property r'.path).name ≠ "") (principal : r.principal = r'.principal)
    (apart : (m.property r.path).name ≠ (m.property r'.path).name)
    (hn : o.neededName? m r = some name) :
    o.neededName? m r' ≠ some name := by
  rw [neededName?, neededPurpose?] at hn ⊢
  rw [← principal]
  cases hi : m.identityProperty? r.principal with
  | none =>
    rw [hi] at hn
    cases hn
  | some referenced =>
    rw [hi] at hn
    intro hn'
    exact apart (synthesizedName_inj named named'
      ((Option.some.inj hn).trans (Option.some.inj hn').symm))

section
variable {definition : TableDefinition} {table : Table} {own further : List DerivedColumn}
  (made : o.Made m map definition table c own further)
include made

theorem Made.names : table.columns.map (·.name) =
    (m.classifier c).attributes.filterMap (o.attributeName? m c) ++
      (map.needed m c).filterMap (o.neededName? m) := by
  rw [made.map_columns fun _ _ h => h.name, purposes, List.map_append,
    List.map_filterMap, List.map_filterMap]
  rfl

theorem Made.attributeName?_of_reference (hp : p ∈ (m.classifier c).attributes)
    (named : (m.property p).name ≠ "") (reference : (m.attributePrincipal? c p).isSome = true)
    (single : (m.property p).multiplicity.isMany = false) :
    o.attributeName? m c p = some (o.naming.foreignKeyColumnName (m.property p)) := by
  obtain ⟨type, principal⟩ := Option.isSome_iff_exists.mp reference
  obtain ⟨referenced, hp⟩ := made.attributePurpose?_of_reference hp named principal single
  rw [attributeName?, hp]
  rfl

theorem Made.neededName?_isSome (hr : r ∈ map.needed m c) :
    ∃ name, o.neededName? m r = some name := by
  obtain ⟨referenced, hr⟩ := made.neededPurpose?_eq_some hr
  exact ⟨_, by rw [neededName?, hr]; rfl⟩

theorem Made.nodup_attributeNames
    (distinct : ((m.classifier c).attributes.map fun p => (m.property p).name).Nodup)
    (named : ∀ p ∈ (m.classifier c).attributes, (m.property p).name ≠ "") :
    ((m.classifier c).attributes.filterMap (o.attributeName? m c)).Nodup ↔
      ∀ p ∈ (m.classifier c).attributes, ∀ q ∈ (m.classifier c).attributes,
        m.attributePrincipal? c p = none → (m.attributePrincipal? c q).isSome = true →
        (m.property q).multiplicity.isMany = false →
          o.naming.columnName (m.property p) ≠ o.naming.foreignKeyColumnName (m.property q) := by
  constructor
  · intro nodup p hp q hq value reference single
    have hne : p ≠ q := by
      rintro rfl
      rw [value] at reference
      cases reference
    intro e
    have hname := attributeName?_of_value (o := o) value (named p hp)
    rw [e] at hname
    exact hne (eq_of_nodup_filterMap nodup hp hq hname
      (made.attributeName?_of_reference hq (named q hq) reference single))
  · intro references
    rw [List.Nodup, List.pairwise_map] at distinct
    rw [List.Nodup, List.pairwise_filterMap]
    refine distinct.imp_of_mem fun {p q} hp hq apart name hn name' hn' => ?_
    refine attributeName?_ne apart ?_ hn hn'
    rintro p' q' (⟨rfl, rfl⟩ | ⟨rfl, rfl⟩)
    · exact references p' hp q' hq
    · exact references p' hq q' hp

/-- The columns of relationships have different names exactly if those of associations and of
different principals have. -/
theorem Made.nodup_neededNames {convention : EndConvention}
    (hmap : (m.relationshipMap convention).value = .ok map) (distinct : m.packagedClassifiers.Nodup)
    (attributes : m.AttributesNamed) :
    ((map.needed m c).filterMap (o.neededName? m)).Nodup ↔ (map.needed m c).Pairwise fun r r' =>
      r.principal ≠ r'.principal ∨ r.opposite.isSome ∨ r'.opposite.isSome →
        o.neededName? m r ≠ o.neededName? m r' := by
  have hsub : (map.needed m c).Sublist (m.found convention) := by
    rw [RelationshipMap.needed, Model.get_of_relationshipMap hmap]
    exact List.filter_sublist.trans List.filter_sublist
  have hplain := (pairwise_found distinct attributes convention).sublist hsub
  rw [List.Nodup, List.pairwise_filterMap]
  constructor
  · refine fun h => h.imp_of_mem fun {r r'} hr hr' apart _ e => ?_
    obtain ⟨name, hn⟩ := made.neededName?_isSome hr
    exact apart name hn name (e ▸ hn) rfl
  · refine fun h => (h.and hplain).imp_of_mem
      fun {r r'} hr hr' ⟨apart, hplain⟩ name hn name' hn' e => ?_
    obtain rfl := e
    by_cases hcond : r.principal ≠ r'.principal ∨ r.opposite.isSome = true ∨
      r'.opposite.isSome = true
    · exact apart hcond (hn.trans hn'.symm)
    · simp only [not_or, ne_eq, not_not, Bool.not_eq_true, Option.isSome_eq_false_iff,
        Option.isNone_iff_eq_none] at hcond
      obtain ⟨principal, plain, plain'⟩ := hcond
      obtain ⟨hc, hp⟩ := mem_found_attribute (hsub.subset hr) plain
      obtain ⟨hc', hp'⟩ := mem_found_attribute (hsub.subset hr') plain'
      exact neededName?_ne (attributes.named _ hc _ hp) (attributes.named _ hc' _ hp') principal
        (hplain plain plain' principal) hn hn'

theorem Made.nodup_names_iff {convention : EndConvention}
    (hmap : (m.relationshipMap convention).value = .ok map) (distinct : m.packagedClassifiers.Nodup)
    (attributes : m.AttributesNamed) :
    (table.columns.map (·.name)).Nodup ↔ o.NamesApart m map c := by
  rw [made.names, List.nodup_append, made.nodup_attributeNames (attributes.distinct c made.packaged)
    (attributes.named c made.packaged), made.nodup_neededNames hmap distinct attributes]
  constructor
  · rintro ⟨references, relationships, disjoint⟩
    refine ⟨references, fun r hr p hp name hn hn' => ?_, relationships⟩
    exact disjoint name (List.mem_filterMap.mpr ⟨p, hp, hn⟩) name
      (List.mem_filterMap.mpr ⟨r, hr, hn'⟩) rfl
  · refine fun h => ⟨h.references, h.relationships, ?_⟩
    rintro name hname _ hname' rfl
    obtain ⟨p, hp, hn⟩ := List.mem_filterMap.mp hname
    obtain ⟨r, hr, hn'⟩ := List.mem_filterMap.mp hname'
    exact h.needed r hr p hp name hn hn'

end

/-- Where the names of classifiers and those of each classifier's attributes are different, the
names of a table's columns are different exactly if no value column is named like a reference, no
relationship's column like that of an attribute, and no two relationships have columns of one name
that come from different principals or from associations. -/
theorem build_nodup_names_iff (o : Options) (m : Model)
    (names : (m.packagedClassifiers.map fun s => (m.classifier s).name).Nodup)
    (attributes : m.AttributesNamed) (c : Catalog) (db : Database) (c' : Catalog)
    (h : (o.build m c).value = .ok (db, c')) :
    ∃ map, (m.relationshipMap o.convention).value = .ok map ∧ ∀ t ∈ db.tables, ∃ s,
      (c'.table t).source = some s ∧
        (((c'.table t).columns.map (·.name)).Nodup ↔ o.NamesApart m map s) := by
  obtain ⟨map, hmap, definition, made⟩ := build_made h
  refine ⟨map, hmap, fun t ht => ?_⟩
  obtain ⟨s, own, further, made⟩ := made t ht
  exact ⟨s, made.source, made.nodup_names_iff hmap (List.Nodup.of_map _ names) attributes⟩

/-- An employee refers to another by an attribute and to a department by a relationship. -/
theorem build_nodup_names_roles :
    let o := of .ansi
    let document : ModelDocument := { name := "m", classifiers := [
      { id := "d", name := "Department", attributes := [
        .identity "Id" "integer", .many "staff" "e"] },
      { id := "e", name := "Employee", attributes := [
        .identity "Id" "integer", { name := "superior", type := some "e", lower := 0 }] }] }
    ∃ m db c', Model.ofDatum document.write = .ok m ∧ (o.build m {}).value = .ok (db, c') ∧
      (db.tables.map fun t => (c'.table t).columns.map (·.name)) =
        [["Id"], ["Id", "superiorId", "Id_staff"]] ∧
      ∃ map, (m.relationshipMap o.convention).value = .ok map ∧ ∀ t ∈ db.tables, ∃ s,
        (c'.table t).source = some s ∧
          (((c'.table t).columns.map (·.name)).Nodup ↔ o.NamesApart m map s) := by
  intro o document
  have hrun : o.observe document (fun m db c' =>
      .ok (decide ((m.packagedClassifiers.map fun s => (m.classifier s).name).Nodup ∧
          m.AttributesNamed),
        db.tables.map fun t => (c'.table t).columns.map Column.name)) =
      .ok (true, [["Id"], ["Id", "superiorId", "Id_staff"]]) := by
    decide +kernel
  obtain ⟨m, db, c', hm, hb, hrun⟩ := observe_eq_ok.mp hrun
  obtain ⟨hnames, hcolumns⟩ := Prod.mk.inj (Except.ok.inj hrun)
  obtain ⟨names, attributes⟩ := of_decide_eq_true hnames
  exact ⟨m, db, c', hm, hb, hcolumns, build_nodup_names_iff o m names attributes {} db c' hb⟩

/-- Of two tables the columns meet: in the first a reference and a value column, in the second the
identity and a relationship of an end without a name, and two relationships with one role. -/
theorem not_nodup_names_met :
    let o := of .ansi
    let document : ModelDocument := {
      name := "m"
      classifiers := [
        { id := "a", name := "A", attributes := [
          .identity "Id" "integer", .of "b" "b", .of "bId" "integer", .many "cs" "c"] },
        { id := "b", name := "B", attributes := [.identity "Id" "integer", .many "cs" "c"] },
        { id := "c", name := "C", attributes := [.identity "Id" "integer"] }]
      associations := [
        { id := "s", ends := [{ type := some "c", upper := unbounded }, { type := some "a" }] }] }
    ∃ m db c', m.Loaded ∧ Model.ofDatum document.write = .ok m ∧
      (m.packagedClassifiers.map fun s => (m.classifier s).name).Nodup ∧ m.AttributesNamed ∧
      (o.build m {}).value = .ok (db, c') ∧
      (db.tables.map fun t => ((c'.table t).name, (c'.table t).columns.map (·.name))) =
        [("B", ["Id"]), ("A", ["Id", "bId", "bId"]), ("C", ["Id", "Id", "Id_cs", "Id_cs"])] ∧
      ∃ t ∈ db.tables, ¬ ((c'.table t).columns.map (·.name)).Nodup := by
  intro o document
  have hrun : o.observe document (fun m db c' =>
      .ok (decide ((m.packagedClassifiers.map fun s => (m.classifier s).name).Nodup ∧
          m.AttributesNamed),
        (db.tables.map fun t => ((c'.table t).name, (c'.table t).columns.map Column.name)),
        db.tables.any fun t => ¬ ((c'.table t).columns.map Column.name).Nodup)) =
      .ok (true,
        [("B", ["Id"]), ("A", ["Id", "bId", "bId"]), ("C", ["Id", "Id", "Id_cs", "Id_cs"])],
          true) := by
    decide +kernel
  obtain ⟨m, db, c', hm, hb, hrun⟩ := observe_eq_ok.mp hrun
  obtain ⟨hnames, h⟩ := Prod.mk.inj (Except.ok.inj hrun)
  obtain ⟨hcolumns, hmet⟩ := Prod.mk.inj h
  obtain ⟨names, attributes⟩ := of_decide_eq_true hnames
  obtain ⟨t, ht, hmet⟩ := List.any_eq_true.mp hmet
  exact ⟨m, db, c', .document hm, hm, names, attributes, hb, hcolumns, t, ht,
    of_decide_eq_true hmet⟩

end Options

end Schemata
