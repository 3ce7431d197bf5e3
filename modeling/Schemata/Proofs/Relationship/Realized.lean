import Schemata.Proofs.Document.Written
import Schemata.Proofs.Model.Ends
import Schemata.Proofs.Relationship.Found
import Schemata.Proofs.Schema.ForeignKeys
import Schemata.Proofs.Schema.Purposes

/-!
# Columns that realize relationships

A one-to-many relationship is realized by one foreign key of its dependent's table: that of the
attribute which the dependent owns, or else one of its own. An attribute without a name has no
column, and then nothing realizes the relationship.
-/
namespace Schemata

/-- The column is the foreign key of the relationship itself, or that of its opposite end. -/
def Relationship.realizedBy (r : Relationship) (column : Column) : Bool :=
  column.isForeignKey && (column.isMany && column.source == some r.path ||
    column.isNavigable && column.source == r.opposite)

/-- The dependent owns the opposite end, but the end has no name. -/
def Relationship.isHidden (r : Relationship) (m : Model) : Bool :=
  r.isOwned && r.opposite.any fun p => (m.property p).name == ""

namespace Model

variable {m : Model} {convention : EndConvention} {a : AssociationRef} {r r' : Relationship}

/-- At most one direction of an association is one-to-many. -/
theorem pairwise_relationshipsAt : (m.relationshipsAt convention a).Pairwise fun r r' =>
    ¬ (r.isOneToMany = true ∧ r'.isOneToMany = true) := by
  rw [relationshipsAt]
  split
  · rw [List.pairwise_pair]
    simp only [relationshipOf, Bool.and_eq_true, Bool.not_eq_true']
    rintro ⟨⟨near, _⟩, _, far⟩
    rw [near] at far
    cases far
  · exact .nil

theorem path_mem_ends (hr : r ∈ m.relationshipsAt convention a) :
    r.path ∈ (m.association a).ends := by
  obtain ⟨first, second, hends, h⟩ := mem_relationshipsAt.mp hr
  obtain ⟨p, q, s, t, hpq, _, _, e⟩ := bothEnds?_eq_some.mp hends
  rw [hpq]
  cases convention <;> obtain ⟨rfl, rfl⟩ := Prod.mk.inj e <;> rcases h with rfl | rfl <;>
    simp [relationshipOf]

theorem pairwise_path_attributes (wf : m.WellFormed) (linked : m.Linked) :
    m.attributeRelationships.Pairwise fun r r' => r.path ≠ r'.path := by
  have packaged : m.packagedClassifiers.Nodup := List.Nodup.of_map _ wf.distinct
  rw [attributeRelationships, List.pairwise_flatMap]
  constructor
  · intro c _
    have hattributes : (m.classifier c).attributes.Pairwise (· ≠ ·) := linked.attributes c
    refine hattributes.filterMap _ fun p q apart r hr r' hr' => ?_
    obtain ⟨_, _, _, _, rfl⟩ := relationshipOfAttribute?_eq_some.mp hr
    obtain ⟨_, _, _, _, rfl⟩ := relationshipOfAttribute?_eq_some.mp hr'
    exact apart
  · -- An attribute has one owner, so different classifiers have none in common.
    refine (packaged.filter _).imp fun {c d} apart r hr r' hr' e => apart ?_
    obtain ⟨p, hp, hr⟩ := List.mem_filterMap.mp hr
    obtain ⟨q, hq, hr'⟩ := List.mem_filterMap.mp hr'
    obtain ⟨_, _, _, _, rfl⟩ := relationshipOfAttribute?_eq_some.mp hr
    obtain ⟨_, _, _, _, rfl⟩ := relationshipOfAttribute?_eq_some.mp hr'
    have hc := wf.owned c p hp
    rw [show p = q from e, wf.owned d q hq] at hc
    cases hc
    rfl

/-- Different one-to-many relationships have different paths. -/
theorem pairwise_path_found (wf : m.WellFormed) (linked : m.Linked) (once : m.EndsOnce)
    (convention : EndConvention) : (m.found convention).Pairwise fun r r' =>
      r.isOneToMany = true → r'.isOneToMany = true → r.path ≠ r'.path := by
  refine List.pairwise_append.mpr ⟨?_, ?_, ?_⟩
  · rw [List.pairwise_flatMap]
    refine ⟨fun a _ => pairwise_relationshipsAt.imp fun h many many' => absurd ⟨many, many'⟩ h, ?_⟩
    refine linked.associations.imp_of_mem fun {a b} ha hb apart r hr r' hr' _ _ e => apart ?_
    exact once a ha b hb r.path (path_mem_ends hr) (e ▸ path_mem_ends hr')
  · exact (pairwise_path_attributes wf linked).imp fun h _ _ => h
  · -- The path of an association's relationship is an end, and that of an attribute's is none.
    intro r hr r' hr' _ _ e
    obtain ⟨a, _, hr⟩ := List.mem_flatMap.mp hr
    obtain ⟨c, _, _, p, _, hr'⟩ := mem_attributeRelationships.mp hr'
    obtain ⟨_, _, _, plain, rfl⟩ := relationshipOfAttribute?_eq_some.mp hr'
    have hend := linked.ends a r.path (path_mem_ends hr)
    rw [e, plain] at hend
    cases hend

theorem nodup_paths (wf : m.WellFormed) (linked : m.Linked) (once : m.EndsOnce)
    (convention : EndConvention) :
    (((m.found convention).filter (·.isOneToMany)).map (·.path)).Nodup := by
  rw [List.Nodup, List.pairwise_map, List.pairwise_filter]
  exact pairwise_path_found wf linked once convention

theorem opposite_of_mem_found (hr : r ∈ m.found .opposite) (many : r.isOneToMany = true) :
    (r.opposite = none ∧ r.isOwned = false) ∨ ∃ q, r.opposite = some q ∧
      (m.property q).type = some r.principal ∧ (m.property q).multiplicity.isMany = false ∧
      r.isOwned = ((m.property q).owner == some (.classifier r.dependent)) := by
  rcases List.mem_append.mp hr with hr | hr
  · obtain ⟨a, _, hr⟩ := List.mem_flatMap.mp hr
    obtain ⟨first, second, hends, h⟩ := mem_relationshipsAt.mp hr
    obtain ⟨p, q, s, t, _, hs, ht, e⟩ := bothEnds?_eq_some.mp hends
    obtain ⟨rfl, rfl⟩ := Prod.mk.inj e
    rcases h with rfl | rfl <;> simp only [relationshipOf, Bool.and_eq_true,
      Bool.not_eq_true'] at many
    · exact .inr ⟨p, rfl, hs, many.1, rfl⟩
    · exact .inr ⟨q, rfl, ht, many.1, rfl⟩
  · obtain ⟨c, _, _, p, _, hr⟩ := mem_attributeRelationships.mp hr
    obtain ⟨_, _, _, _, rfl⟩ := relationshipOfAttribute?_eq_some.mp hr
    exact .inl ⟨rfl, rfl⟩

end Model

namespace Options

variable {o : Options} {m : Model} {map : RelationshipMap} {c : Catalog} {db : Database}
  {definition : TableRef → TableDefinition} {t p : TableRef} {r : Relationship}

/-- As `Relationship.realizedBy`, of what a column is made for. -/
def realizedFor (r : Relationship) (purpose : ColumnPurpose) : Bool :=
  purpose.isForeignKey && (purpose.isMany && some purpose.source == some r.path ||
    purpose.isNavigable && some purpose.source == r.opposite)

theorem needed_sublist {convention : EndConvention}
    (hmap : (m.relationshipMap convention).value = .ok map) (s : ClassifierRef) :
    (map.needed m s).Sublist ((m.found convention).filter (·.isOneToMany)) := by
  rw [RelationshipMap.needed, Model.get_of_relationshipMap hmap]
  refine (List.monotone_filter_right _ fun r hr => ?_).trans (List.filter_sublist.filter _)
  exact (Bool.and_eq_true_iff.mp hr).2

theorem eq_of_path (wf : m.WellFormed) (linked : m.Linked) (once : m.EndsOnce)
    {convention : EndConvention} {r r' : Relationship} (hr : r ∈ m.found convention)
    (many : r.isOneToMany = true) (hr' : r' ∈ m.found convention) (many' : r'.isOneToMany = true)
    (e : r.path = r'.path) : r = r' :=
  List.inj_on_of_nodup_map (Model.nodup_paths wf linked once convention)
    (List.mem_filter.mpr ⟨hr, many⟩) (List.mem_filter.mpr ⟨hr', many'⟩) e

theorem realizedFor_attribute {s : ClassifierRef} {p : PropertyRef} :
    (o.attributePurpose? m s p).any (realizedFor r) = true ↔ r.opposite = some p ∧
      ∃ referenced, o.attributePurpose? m s p = some (o.referencePurpose m p referenced) := by
  rw [attributePurpose?]
  split
  · simp
  · split
    · split
      · simp
      · rename_i type _ _
        cases m.identityProperty? type with
        | none => simp
        | some referenced => simpa [realizedFor, referencePurpose] using eq_comm
    · simp [realizedFor, valuePurpose, referencePurpose]

section
variable {definition : TableDefinition} {table : Table} {s : ClassifierRef}
  {own further : List DerivedColumn} (made : o.Made m map definition table s own further)
include made

theorem Made.countP_realizedBy (r : Relationship) : table.columns.countP r.realizedBy =
    (m.classifier s).attributes.countP (fun p => (o.attributePurpose? m s p).any (realizedFor r)) +
      (map.needed m s).countP fun r' => (o.neededPurpose? m r').any (realizedFor r) := by
  have hmap := made.map_columns (f := r.realizedBy) (g := realizedFor r) fun column purpose h => by
    rw [Relationship.realizedBy, realizedFor, h.isForeignKey, h.isMany, h.isNavigable, h.source]
  have hany :
      ∀ x : Option ColumnPurpose, (x.map (realizedFor r)).getD false = x.any (realizedFor r) :=
    fun x => by cases x <;> rfl
  have hcount := congrArg (List.countP id) hmap
  simpa only [List.countP_map, purposes, List.countP_append, List.countP_filterMap,
    Function.id_comp, hany] using hcount

/-- The relationship has a column of its own unless the dependent owns its opposite end. -/
theorem Made.countP_needed (wf : m.WellFormed) (linked : m.Linked) (once : m.EndsOnce)
    {convention : EndConvention} (hmap : (m.relationshipMap convention).value = .ok map)
    (hr : r ∈ m.found convention) (many : r.isOneToMany = true) (dependent : r.dependent = s) :
    (map.needed m s).countP (fun r' => (o.neededPurpose? m r').any (realizedFor r)) =
      if r.isOwned = true then 0 else 1 := by
  have hsub := needed_sublist hmap s
  have hpath : ∀ r' ∈ map.needed m s,
      (o.neededPurpose? m r').any (realizedFor r) = true ↔ r'.path = r.path := by
    intro r' hr'
    obtain ⟨referenced, e⟩ := made.neededPurpose?_eq_some hr'
    simp [e, realizedFor, relationshipPurpose]
  have hmem : r ∈ map.needed m s ↔ r.isOwned = false := by
    rw [RelationshipMap.needed, Model.get_of_relationshipMap hmap, List.mem_filter, List.mem_filter]
    simp [hr, dependent, needsColumn, many]
  have nodup : (map.needed m s).Nodup :=
    (List.Nodup.of_map _ (Model.nodup_paths wf linked once convention)).sublist hsub
  rw [countP_eq_ite (x := r) nodup fun r' hr' h => ?only]
  case only =>
    obtain ⟨hfound, many'⟩ := List.mem_filter.mp (hsub.subset hr')
    exact eq_of_path wf linked once hfound many' hr many ((hpath r' hr').mp h)
  cases hown : r.isOwned with
  | true => simp [hmem, hown]
  | false =>
    have hneeded := hmem.mpr hown
    simp [hneeded, (hpath r hneeded).mpr rfl]

/-- The opposite end has a column if the dependent owns it and it has a name. -/
theorem Made.countP_attributes (wf : m.WellFormed) (linked : m.Linked) (hr : r ∈ m.found .opposite)
    (many : r.isOneToMany = true) (dependent : r.dependent = s)
    (entity : (m.classifier r.principal).kind.isValue = false) :
    (m.classifier s).attributes.countP (fun p => (o.attributePurpose? m s p).any (realizedFor r)) =
      if r.isOwned = true ∧ r.isHidden m = false then 1 else 0 := by
  rcases Model.opposite_of_mem_found hr many with ⟨none, unowned⟩ | ⟨q, hq, type, single, owner⟩
  · rw [unowned, if_neg fun h => Bool.false_ne_true h.1, List.countP_eq_zero]
    intro p _ h
    rw [realizedFor_attribute, none] at h
    exact absurd h.1 nofun
  · rw [countP_eq_ite (x := q) (linked.attributes s) fun p _ h => ?only]
    case only =>
      rw [realizedFor_attribute, hq] at h
      exact (Option.some.inj h.1).symm
    have howner : r.isOwned = true ↔ q ∈ (m.classifier s).attributes := by
      rw [owner, dependent, beq_iff_eq]
      exact ⟨linked.listed q s, wf.owned s q⟩
    have hhidden : r.isOwned = true → (r.isHidden m = false ↔ (m.property q).name ≠ "") := by
      intro hown
      simp [Relationship.isHidden, hown, hq]
    refine if_congr ?_ rfl rfl
    constructor
    · rintro ⟨hmem, h⟩
      refine ⟨howner.mpr hmem, (hhidden (howner.mpr hmem)).mpr fun e => ?_⟩
      rw [attributePurpose?, if_pos e] at h
      cases h
    · rintro ⟨hown, visible⟩
      have hmem := howner.mp hown
      have named := (hhidden hown).mp visible
      have principal : m.attributePrincipal? s q = some r.principal := by
        simp [Model.attributePrincipal?, wf.owned s q hmem, Model.isRelationship, type, entity]
      obtain ⟨referenced, e⟩ := made.attributePurpose?_of_reference hmem named principal single
      exact ⟨hmem, realizedFor_attribute.mpr ⟨hq, referenced, e⟩⟩

theorem Made.countP_columns (wf : m.WellFormed) (linked : m.Linked) (once : m.EndsOnce)
    (hmap : (m.relationshipMap .opposite).value = .ok map) (hr : r ∈ m.found .opposite)
    (many : r.isOneToMany = true) (dependent : r.dependent = s)
    (entity : (m.classifier r.principal).kind.isValue = false) :
    table.columns.countP r.realizedBy = if r.isHidden m = true then 0 else 1 := by
  rw [made.countP_realizedBy, made.countP_attributes wf linked hr many dependent entity,
    made.countP_needed wf linked once hmap hr many dependent]
  cases hown : r.isOwned <;> cases hhidden : r.isHidden m <;> simp_all [Relationship.isHidden]

theorem Made.principal_of_realizedBy (wf : m.WellFormed) (linked : m.Linked) (once : m.EndsOnce)
    (hmap : (m.relationshipMap .opposite).value = .ok map) (hr : r ∈ m.found .opposite)
    (many : r.isOneToMany = true) {d : DerivedColumn} (hd : d ∈ own ++ further)
    (h : r.realizedBy d.column = true) : d.principal = some r.principal := by
  have foreign := (Bool.and_eq_true_iff.mp h).1
  rw [(made.defines.refers hd).foreign] at foreign
  obtain ⟨principal, hp⟩ := Option.isSome_iff_exists.mp foreign
  rcases List.mem_append.mp hd with hd | hd
  · obtain ⟨p, _, d₀, hbears, isIdentity, rfl, _⟩ := made.defines.mem_own hd
    obtain ⟨hsource, single, htype⟩ := hbears.type
    have hopposite : r.opposite = some p := by
      have hmany : (d₀.identified isIdentity).column.isMany = false := single
      have hsource : (d₀.identified isIdentity).column.source = some p := hsource
      rw [Relationship.realizedBy, hmany, hsource] at h
      simp only [Bool.false_and, Bool.false_or, Bool.and_eq_true, beq_iff_eq] at h
      exact h.2.2.symm
    rcases Model.opposite_of_mem_found hr many with ⟨none, _⟩ | ⟨q, hq, type, _⟩
    · rw [none] at hopposite
      cases hopposite
    · obtain rfl := Option.some.inj (hq.symm.trans hopposite)
      rw [hp, ← htype principal hp, type]
  · obtain ⟨r', hr', referenced, sqlType, _, rfl⟩ := made.defines.mem_further hd
    obtain ⟨hfound, many'⟩ := List.mem_filter.mp ((needed_sublist hmap s).subset hr')
    have hpath : r.path = r'.path := by
      simp only [Relationship.realizedBy, columnOf, relationshipPurpose, Bool.false_and,
        Bool.or_false, Bool.true_and, beq_iff_eq, Option.some.injEq] at h
      exact h.symm
    rw [eq_of_path wf linked once hr many hfound many' hpath]

end

theorem Derived.entity (h : o.Derived m map db.tables c definition) (hp : p ∈ db.tables)
    {s : ClassifierRef} (hs : (c.table p).source = some s) :
    (m.classifier s).kind.isValue = false := by
  obtain ⟨s', _, hsource, hd⟩ := h.defined p hp
  rw [h.source hp, hsource] at hs
  obtain rfl := Option.some.inj hs
  exact (packagedTable?_eq_ok hd).2.1

/-- Where a property is an end of one association at most and both classifiers have tables, a
one-to-many relationship is realized by exactly one foreign key, which is listed with the dependents
of the principal's table, unless the dependent owns the opposite end and the end has no name. Then
nothing realizes it. -/
theorem build_countP_realizedBy (o : Options) (opposite : o.convention = .opposite) (m : Model)
    (loaded : m.Loaded) (once : m.EndsOnce) (c : Catalog) (db : Database) (c' : Catalog)
    (h : (o.build m c).value = .ok (db, c')) :
    ∃ map, (m.relationshipMap o.convention).value = .ok map ∧
      ∀ id, ∀ r ∈ map.get id, r.isOneToMany = true →
        ∀ t ∈ db.tables, (c'.table t).source = some r.dependent →
        ∀ p ∈ db.tables, (c'.table p).source = some r.principal →
          ((c'.table t).columns.countP r.realizedBy = if r.isHidden m = true then 0 else 1) ∧
          ∀ position column, (c'.table t).columns[position]? = some column →
            r.realizedBy column = true → ⟨t, position⟩ ∈ (c'.table p).dependents := by
  have wf := loaded.wellFormed
  have linked := loaded.linked
  obtain ⟨map, hmap, definition, derived⟩ := build_derived wf.distinct h
  refine ⟨map, hmap, fun id r hr many t ht hs p hp hprincipal => ?_⟩
  rw [opposite] at hmap
  rw [Model.get_of_relationshipMap hmap] at hr
  have hr := (List.mem_filter.mp hr).1
  obtain ⟨s, own, further, made⟩ := derived.made ht
  have dependent : r.dependent = s := Option.some.inj (hs.symm.trans made.source)
  refine ⟨made.countP_columns wf linked once hmap hr many dependent (derived.entity hp hprincipal),
    ?_⟩
  intro position column hc realized
  obtain ⟨d, hd, rfl⟩ := made.column hc
  have refers :=
    made.principal_of_realizedBy wf linked once hmap hr many (List.mem_of_getElem? hd) realized
  exact (derived.mem_dependents_iff wf ht hp made hd refers).mpr hprincipal

/-- Employees own the attribute that refers to their department, and have no attribute for their
office. -/
theorem build_countP_realizedBy_both :
    let o := of .ansi
    let document : ModelDocument := {
      name := "m"
      classifiers := [
        { id := "d", name := "Department", attributes := [
          .identity "Id" "integer", .many "staff" "e"] },
        { id := "o", name := "Office", attributes := [
          .identity "Id" "integer", .many "occupants" "e"] },
        { id := "e", name := "Employee", attributes := [
          .identity "Id" "integer", .of "department" "d"] }]
      associations := [
        { id := "s", ends := [
          { realizedBy := some "d.staff" }, { realizedBy := some "e.department" }] }] }
    ∃ m db c', Model.ofDatum document.write = .ok m ∧ (o.build m {}).value = .ok (db, c') ∧
      (db.tables.map fun t => ((c'.table t).name, (c'.table t).columns.map (·.name))) =
        [("Department", ["Id"]), ("Office", ["Id"]),
          ("Employee", ["Id", "departmentId", "Id_occupants"])] ∧
      ∃ map, (m.relationshipMap o.convention).value = .ok map ∧
        ∀ id, ∀ r ∈ map.get id, r.isOneToMany = true →
          ∀ t ∈ db.tables, (c'.table t).source = some r.dependent →
          ∀ p ∈ db.tables, (c'.table p).source = some r.principal →
            ((c'.table t).columns.countP r.realizedBy = if r.isHidden m = true then 0 else 1) ∧
            ∀ position column, (c'.table t).columns[position]? = some column →
              r.realizedBy column = true → ⟨t, position⟩ ∈ (c'.table p).dependents := by
  intro o document
  have hrun : o.observe document (fun m db c' =>
      .ok (decide m.EndsOnce,
        db.tables.map fun t => ((c'.table t).name, (c'.table t).columns.map Column.name))) =
      .ok (true, [("Department", ["Id"]), ("Office", ["Id"]),
          ("Employee", ["Id", "departmentId", "Id_occupants"])]) := by
    decide +kernel
  obtain ⟨m, db, c', hm, hb, hrun⟩ := observe_eq_ok.mp hrun
  obtain ⟨honce, hcolumns⟩ := Prod.mk.inj (Except.ok.inj hrun)
  exact ⟨m, db, c', hm, hb, hcolumns,
    build_countP_realizedBy o rfl m (.document hm) (of_decide_eq_true honce) {} db c' hb⟩

/-- The dependent owns an end without a name: no column realizes the relationship, and the
principal's table has no dependents. -/
theorem not_realizedBy_hidden :
    let o := of .ansi
    let document : ModelDocument := {
      name := "m"
      classifiers := [
        { id := "a", name := "A", attributes := [.identity "Id" "integer"] },
        { id := "b", name := "B", attributes := [
          .identity "Id" "integer", { name := "", type := some "a", id := some "r" }] }]
      associations := [
        { id := "s", ends := [
          { realizedBy := some "r" }, { name := "bs", type := some "b", upper := unbounded }] }] }
    ∃ m db c' map r, m.Loaded ∧ Model.ofDatum document.write = .ok m ∧ m.EndsOnce ∧
      (o.build m {}).value = .ok (db, c') ∧ (m.relationshipMap o.convention).value = .ok map ∧
      r ∈ map.get "b" ∧ r.isOneToMany = true ∧
      ∃ t ∈ db.tables, (c'.table t).source = some r.dependent ∧
      ∃ p ∈ db.tables, (c'.table p).source = some r.principal ∧
        (c'.table t).columns.countP r.realizedBy = 0 ∧ (c'.table p).dependents = [] := by
  intro o document
  have hrun : o.observe document (fun m db c' => do
      let map ← (m.relationshipMap o.convention).value
      return decide m.EndsOnce && (map.get "b").any fun r => r.isOneToMany &&
        db.tables.any fun t => (c'.table t).source = some r.dependent &&
          db.tables.any fun p => (c'.table p).source = some r.principal &&
            (c'.table t).columns.countP r.realizedBy = 0 &&
            (c'.table p).dependents.isEmpty) =
      .ok true := by
    decide +kernel
  obtain ⟨m, db, c', hm, hb, hrun⟩ := observe_eq_ok.mp hrun
  obtain ⟨map, hmap, hrun⟩ := bind_eq_ok.mp hrun
  have hrun := Except.ok.inj hrun
  simp only [Bool.and_eq_true, decide_eq_true_eq, List.any_eq_true, List.isEmpty_iff] at hrun
  obtain ⟨once, r, hr, many, t, ht, hs, p, hp, ⟨hprincipal, hcount⟩, hdependents⟩ := hrun
  exact ⟨m, db, c', map, r, .document hm, hm, once, hb, hmap, hr, many, t, ht, hs, p,
    hp, hprincipal, hcount, hdependents⟩

end Options

end Schemata
