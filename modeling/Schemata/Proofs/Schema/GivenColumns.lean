import Schemata.Proofs.Document.Written
import Schemata.Proofs.Model.GivenIdentities
import Schemata.Proofs.Schema.ColumnNames

/-!
# Columns of given identities

An attribute in front of all others that identifies has the first column of its table. The identity
that a classifier is given is such an attribute if it holds a value and has a name. Neither its name
nor its identifier is chosen with regard to the attributes there are.
-/
namespace Schemata

structure Model.AttributesApart (m : Model) : Prop where
  names : ∀ c ∈ m.packagedClassifiers,
    ((m.classifier c).attributes.map fun p => (m.property p).name).Nodup
  ids : ∀ c ∈ m.packagedClassifiers,
    ((m.classifier c).attributes.map fun p => (m.property p).id).Nodup

instance (m : Model) : Decidable m.AttributesApart :=
  decidable_of_iff (∀ c ∈ m.packagedClassifiers,
    ((m.classifier c).attributes.map fun p => (m.property p).name).Nodup ∧
      ((m.classifier c).attributes.map fun p => (m.property p).id).Nodup)
    ⟨fun h => ⟨fun c hc => (h c hc).1, fun c hc => (h c hc).2⟩,
      fun h c hc => ⟨h.names c hc, h.ids c hc⟩⟩

variable {m m' : Model} {rule : IdentityRule} {cs : List ClassifierRef} {c : ClassifierRef}
  {p : PropertyRef}

namespace Model

theorem Gives.map_attributes {α : Type} (h : m.Gives rule cs m') (placed : m.Placed) (hc : c ∈ cs)
    (f : Property → α) :
    ((m'.classifier c).attributes.map fun p => f (m'.property p)) =
      (if m.lacksIdentity c then [f (rule.property m c)] else []) ++
        (m.classifier c).attributes.map fun p => f (m.property p) := by
  have hkept : ((m.classifier c).attributes.map fun p => f (m'.property p)) =
      (m.classifier c).attributes.map fun p => f (m.property p) :=
    List.map_congr_left fun p hp => by rw [h.property p (placed.attributes c p hp)]
  cases hl : m.lacksIdentity c with
  | false =>
    rw [h.others c (.inr hl), hkept]
    rfl
  | true =>
    obtain ⟨p, _, _, hp, e⟩ := h.given c hc hl
    rw [e, List.map_cons, hp, hkept]
    rfl

/-- The attributes are still told apart unless what was given is called like one of them. -/
theorem Gives.nodup_map_attributes {α : Type} (h : m.Gives rule cs m') (placed : m.Placed)
    (hc : c ∈ cs) (f : Property → α)
    (apart : ((m.classifier c).attributes.map fun p => f (m.property p)).Nodup) :
    ((m'.classifier c).attributes.map fun p => f (m'.property p)).Nodup ↔
      (m.lacksIdentity c = true →
        ∀ p ∈ (m.classifier c).attributes, f (m.property p) ≠ f (rule.property m c)) := by
  rw [h.map_attributes placed hc]
  cases m.lacksIdentity c with
  | false => simpa using apart
  | true => simp [apart]

theorem Gives.attributePrincipal?_eq_none (h : m.Gives rule cs m')
    (value : (m.classifier rule.type).kind.isValue = true)
    (hp : m'.property p = rule.property m c) :
    m'.attributePrincipal? c p = none := by
  have hrelationship : m'.isRelationship (rule.property m c) = false := by
    simp [isRelationship, IdentityRule.property, h.kind, value]
  rw [attributePrincipal?, hp, hrelationship]
  simp

theorem Gives.identifies (h : m.Gives rule cs m')
    (value : (m.classifier rule.type).kind.isValue = true)
    (named : rule.nameOf (m.classifier c) ≠ "") (hp : m'.property p = rule.property m c) :
    m'.identifies c p = true := by
  rw [Model.identifies, h.attributePrincipal?_eq_none value hp, hp]
  simp [IdentityRule.property, named]

end Model

namespace Options

variable {o : Options} {map : RelationshipMap} {definition : TableDefinition} {table : Table}
  {own further : List DerivedColumn}

/-- If the first attribute identifies, it has the first column, which is the identity column. -/
theorem Made.columns_of_identifies (made : o.Made m map definition table c own further)
    {rest : List PropertyRef} (hp : (m.classifier c).attributes = p :: rest)
    (identifies : m.identifies c p = true) :
    ∃ column columns, table.columns = column :: columns ∧ o.Identifies m c p column ∧
      table.identityColumn? = some column := by
  obtain ⟨found, hf, rfl⟩ := made.defines.ofAttributes
  rw [Model.members, if_pos made.membered, hp] at hf
  cases hf with
  | @cons _ d? _ found hd hf =>
    have hany := isIdentity_attributeColumn? hd
    rw [identifies] at hany
    rcases attributeColumn?_eq_ok hd with ⟨rfl, _⟩ | ⟨d, rfl, bears⟩
    · cases hany
    · have hidentity : d.column.isIdentity = true := hany
      have hcolumns : table.columns =
          d.column :: (keepFirstIdentity true (found.filterMap id) ++ further).map (·.column) := by
        rw [made.columns]
        simp [keepFirstIdentity, hidentity, identified_of_eq]
      refine ⟨d.column, _, hcolumns, bears.identifies identifies, ?_⟩
      rw [Table.identityColumn?, hcolumns]
      exact List.find?_cons_of_pos hidentity

/-- The names of the columns that attributes have, and those of relationships behind them. -/
def namesOf (o : Options) (m : Model) (map : RelationshipMap) (c : ClassifierRef)
    (ps : List PropertyRef) :
    List String :=
  ps.filterMap (o.attributeName? m c) ++ (map.needed m c).filterMap (o.neededName? m)

/-- The columns of a table are told apart by their names exactly if they are without the first
attribute, which is not called like one of them. -/
theorem Made.nodup_names_cons (made : o.Made m map definition table c own further)
    {rest : List PropertyRef} (hp : (m.classifier c).attributes = p :: rest) :
    (table.columns.map (·.name)).Nodup ↔ (o.namesOf m map c rest).Nodup ∧
      ∀ name ∈ o.attributeName? m c p, name ∉ o.namesOf m map c rest := by
  have hnames : table.columns.map (·.name) =
      (o.attributeName? m c p).toList ++ o.namesOf m map c rest := by
    rw [made.names, hp, List.filterMap_cons, namesOf]
    cases o.attributeName? m c p <;> rfl
  rw [hnames]
  cases o.attributeName? m c p with
  | none => simp
  | some name => simp [and_comm]

/-- Every classifier that can own attributes and has no identity is given one, in front of its
attributes, and nothing else changes; what is given is not given again. If it holds a value and has
a name, it has the first column of every table of the classifier, and the column is the identity
column. The rule is any rule for the model, so that the names it gives may depend on all of it. -/
theorem withIdentities_first_column (m : Model) (placed : m.Placed) (rule : IdentityRule) :
    ∃ m', (m.withIdentities rule).value = .ok m' ∧ m.Gives rule m.packagedClassifiers m' ∧
      (∀ c ∈ m'.packagedClassifiers, (m'.classifier c).kind.isMembered = true →
        (m'.identityProperty? c).isSome) ∧
      (∀ rule' : IdentityRule, (m'.withIdentities rule').value = .ok m') ∧
      ((m.classifier rule.type).kind.isValue = true → ∀ (o : Options) (c : Catalog) (db : Database)
        (c' : Catalog), (o.build m' c).value = .ok (db, c') →
        ∀ t ∈ db.tables, ∃ s ∈ m.packagedClassifiers,
          (c'.table t).source = some s ∧
          (m.lacksIdentity s = true → rule.nameOf (m.classifier s) ≠ "" → ∃ p column columns,
            (m'.classifier s).attributes = p :: (m.classifier s).attributes ∧
            m'.property p = rule.property m s ∧ (c'.table t).columns = column :: columns ∧
            o.Identifies m' s p column ∧ (c'.table t).identityColumn? = some column)) := by
  obtain ⟨m', ok, gives⟩ := Model.withIdentities_gives placed rule
  refine ⟨m', ok, gives, gives.identified placed, fun rule' => ?_,
    fun value o c db c' hb t ht => ?_⟩
  · exact Model.withIdentities_of_identified rule' (gives.lacksIdentity_eq_false placed)
  · obtain ⟨map, _, definition, made⟩ := build_made hb
    obtain ⟨s, own, further, made⟩ := made t ht
    have hs : s ∈ m.packagedClassifiers := gives.packagedClassifiers ▸ made.packaged
    refine ⟨s, hs, made.source, fun lacks named => ?_⟩
    obtain ⟨p, _, _, hp, e⟩ := gives.given s hs lacks
    have hattributes : (m'.classifier s).attributes = p :: (m.classifier s).attributes := by rw [e]
    obtain ⟨column, columns, hcolumns, identifies, hidentity⟩ :=
      made.columns_of_identifies hattributes (gives.identifies value named hp)
    exact ⟨p, column, columns, hattributes, hp, hcolumns, identifies, hidentity⟩

/-- One class has an identity. The other has an attribute without a name, one with many values and a
reference, and is given its identity in front of them. -/
theorem withIdentities_first_column_entry :
    let o := of .ansi
    let rule : IdentityRule := { type := Primitive.integer.ref }
    let document : ModelDocument := { name := "m", classifiers := [
      { id := "b", name := "Book", attributes := [.identity "Key" "integer"] },
      { id := "e", name := "Entry", attributes := [
        .of "" "string", .many "tags" "string", .of "book" "b"] }] }
    ∃ m m' db c', Model.ofDatum document.write = .ok m ∧ m.Placed ∧
      (m.withIdentities rule).value = .ok m' ∧ (o.build m' {}).value = .ok (db, c') ∧
      (db.tables.map fun t => (c'.table t).columns.map (·.name)) =
        [["Key"], ["Id", "tags", "bookId"]] ∧
      (∀ rule' : IdentityRule, (m'.withIdentities rule').value = .ok m') ∧
      ∀ t ∈ db.tables, ∃ s ∈ m.packagedClassifiers, (c'.table t).source = some s ∧
        (m.lacksIdentity s = true → ∃ p column columns,
          (m'.classifier s).attributes = p :: (m.classifier s).attributes ∧
          (c'.table t).columns = column :: columns ∧ o.Identifies m' s p column ∧
          (c'.table t).identityColumn? = some column) := by
  intro o rule document
  have hrun : o.observeIdentified rule document (fun m _ db c' =>
      .ok ((m.classifier rule.type).kind.isValue,
        db.tables.map fun t => (c'.table t).columns.map Column.name)) =
      .ok (true, [["Key"], ["Id", "tags", "bookId"]]) := by
    decide +kernel
  obtain ⟨m, m', db, c', hm, hm', hb, hrun⟩ := observeIdentified_eq_ok.mp hrun
  obtain ⟨value, hcolumns⟩ := Prod.mk.inj (Except.ok.inj hrun)
  have placed := (Model.Loaded.document hm).placed
  obtain ⟨_, ok, _, _, further, columns⟩ := withIdentities_first_column m placed rule
  obtain rfl := Except.ok.inj (hm'.symm.trans ok)
  refine ⟨m, m', db, c', hm, placed, hm', hb, hcolumns, further, fun t ht => ?_⟩
  obtain ⟨s, hs, source, first⟩ := columns value o {} db c' hb t ht
  refine ⟨s, hs, source, fun lacks => ?_⟩
  have named : rule.nameOf (m.classifier s) ≠ "" := show "Id" ≠ "" by decide
  obtain ⟨p, column, rest, hattributes, _, hcolumn, identifies, hidentity⟩ := first lacks named
  exact ⟨p, column, rest, hattributes, hcolumn, identifies, hidentity⟩

/-- Where the attributes of each classifier are told apart by their names and by their identifiers,
they still are exactly if none of them is called like the identity that the classifier was given.
The columns of a table whose classifier was given an identity are told apart by their names exactly
if its other columns are, and none of them is called like the column of the identity, which has the
name of the identity if it holds a value. -/
theorem withIdentities_apart_iff (m : Model) (placed : m.Placed) (apart : m.AttributesApart)
    (rule : IdentityRule) :
    ∃ m', (m.withIdentities rule).value = .ok m' ∧
      (∀ s ∈ m.packagedClassifiers,
        (((m'.classifier s).attributes.map fun p => (m'.property p).name).Nodup ↔
          (m.lacksIdentity s = true → ∀ p ∈ (m.classifier s).attributes,
            (m.property p).name ≠ rule.nameOf (m.classifier s))) ∧
        (((m'.classifier s).attributes.map fun p => (m'.property p).id).Nodup ↔
          (m.lacksIdentity s = true → ∀ p ∈ (m.classifier s).attributes,
            (m.property p).id ≠ s!"{(m.classifier s).id}.{rule.nameOf (m.classifier s)}"))) ∧
      ∀ (o : Options) (c : Catalog) (db : Database) (c' : Catalog),
        (o.build m' c).value = .ok (db, c') →
        ∃ map, (m'.relationshipMap o.convention).value = .ok map ∧ ∀ t ∈ db.tables,
          ∃ s ∈ m.packagedClassifiers, (c'.table t).source = some s ∧
            (m.lacksIdentity s = true →
              ∃ p, (m'.classifier s).attributes = p :: (m.classifier s).attributes ∧
              ((m.classifier rule.type).kind.isValue = true → rule.nameOf (m.classifier s) ≠ "" →
                o.attributeName? m' s p = some (o.naming.columnName (rule.property m s))) ∧
              (((c'.table t).columns.map (·.name)).Nodup ↔
                (o.namesOf m' map s (m.classifier s).attributes).Nodup ∧
                  ∀ name ∈ o.attributeName? m' s p,
                    name ∉ o.namesOf m' map s (m.classifier s).attributes)) := by
  obtain ⟨m', ok, gives⟩ := Model.withIdentities_gives placed rule
  refine ⟨m', ok, fun s hs => ⟨?_, ?_⟩, fun o c db c' hb => ?_⟩
  · exact gives.nodup_map_attributes placed hs Property.name (apart.names s hs)
  · exact gives.nodup_map_attributes placed hs Property.id (apart.ids s hs)
  · obtain ⟨map, hmap, definition, made⟩ := build_made hb
    refine ⟨map, hmap, fun t ht => ?_⟩
    obtain ⟨s, own, further, made⟩ := made t ht
    have hs : s ∈ m.packagedClassifiers := gives.packagedClassifiers ▸ made.packaged
    refine ⟨s, hs, made.source, fun lacks => ?_⟩
    obtain ⟨p, _, _, hp, e⟩ := gives.given s hs lacks
    have hattributes : (m'.classifier s).attributes = p :: (m.classifier s).attributes := by rw [e]
    refine ⟨p, hattributes, fun value named => ?_, made.nodup_names_cons hattributes⟩
    have hname : (m'.property p).name = rule.nameOf (m.classifier s) := congrArg Property.name hp
    rw [← hp]
    exact attributeName?_of_value (gives.attributePrincipal?_eq_none value hp) (hname ▸ named)

/-- A class whose attributes are not called like the identity that it is given. -/
theorem withIdentities_apart_entry :
    let o := of .ansi
    let rule : IdentityRule := { type := Primitive.integer.ref, nameOf := fun c => c.name ++ "Id" }
    let document : ModelDocument := { name := "m", classifiers := [
      { id := "e", name := "Entry", attributes := [
        .of "Id" "string", { name := "next", type := some "e", lower := 0 }] }] }
    ∃ m m' db c', Model.ofDatum document.write = .ok m ∧ m.Placed ∧ m.AttributesApart ∧
      (m.withIdentities rule).value = .ok m' ∧ (o.build m' {}).value = .ok (db, c') ∧
      (db.tables.map fun t => (c'.table t).columns.map (·.name)) = [["EntryId", "Id", "nextId"]] ∧
      ∀ s ∈ m.packagedClassifiers,
        ((m'.classifier s).attributes.map fun p => (m'.property p).name).Nodup ∧
        ((m'.classifier s).attributes.map fun p => (m'.property p).id).Nodup := by
  intro o rule document
  have hrun : o.observeIdentified rule document (fun m _ db c' =>
      .ok (decide (m.AttributesApart ∧
          ∀ s ∈ m.packagedClassifiers, ∀ p ∈ (m.classifier s).attributes,
            (m.property p).name ≠ rule.nameOf (m.classifier s) ∧
              (m.property p).id ≠ s!"{(m.classifier s).id}.{rule.nameOf (m.classifier s)}"),
        db.tables.map fun t => (c'.table t).columns.map Column.name)) =
      .ok (true, [["EntryId", "Id", "nextId"]]) := by
    decide +kernel
  obtain ⟨m, m', db, c', hm, hm', hb, hrun⟩ := observeIdentified_eq_ok.mp hrun
  obtain ⟨happart, hcolumns⟩ := Prod.mk.inj (Except.ok.inj hrun)
  obtain ⟨apart, new⟩ := of_decide_eq_true happart
  have placed := (Model.Loaded.document hm).placed
  obtain ⟨_, ok, attributes, _⟩ := withIdentities_apart_iff m placed apart rule
  obtain rfl := Except.ok.inj (hm'.symm.trans ok)
  refine ⟨m, m', db, c', hm, placed, apart, hm', hb, hcolumns, fun s hs => ?_⟩
  obtain ⟨names, ids⟩ := attributes s hs
  exact ⟨names.mpr fun _ p hp => (new s hs p hp).1, ids.mpr fun _ p hp => (new s hs p hp).2⟩

/-- A class has an attribute that is called like the identity that it is given. Both have
columns. -/
theorem not_withIdentities_apart_called :
    let o := of .sqlServer
    let rule : IdentityRule := { type := Primitive.integer.ref }
    let document : ModelDocument := { name := "m", classifiers := [
      { id := "a", name := "A", attributes := [.of "Id" "string"] }] }
    ∃ m m' db c', m.Loaded ∧ Model.ofDatum document.write = .ok m ∧ m.AttributesApart ∧
      (m.withIdentities rule).value = .ok m' ∧ (o.build m' {}).value = .ok (db, c') ∧
      (m'.packagedClassifiers.map fun s => (m'.classifier s).attributes.map fun p =>
        ((m'.property p).name, (m'.property p).id)) = [[("Id", "a.Id"), ("Id", "a.Id")]] ∧
      (db.tables.map fun t => (c'.table t).columns.map (·.name)) = [["Id", "Id"]] ∧
      ¬ m'.AttributesApart := by
  intro o rule document
  have hrun : o.observeIdentified rule document (fun m m' db c' =>
      .ok (decide (m.AttributesApart ∧ ¬ m'.AttributesApart),
        (m'.packagedClassifiers.map fun s => (m'.classifier s).attributes.map fun p =>
          ((m'.property p).name, (m'.property p).id)),
        db.tables.map fun t => (c'.table t).columns.map Column.name)) =
      .ok (true, [[("Id", "a.Id"), ("Id", "a.Id")]], [["Id", "Id"]]) := by
    decide +kernel
  obtain ⟨m, m', db, c', hm, hm', hb, hrun⟩ := observeIdentified_eq_ok.mp hrun
  obtain ⟨happart, h⟩ := Prod.mk.inj (Except.ok.inj hrun)
  obtain ⟨hattributes, hcolumns⟩ := Prod.mk.inj h
  obtain ⟨apart, met⟩ := of_decide_eq_true happart
  exact ⟨m, m', db, c', .document hm, hm, apart, hm', hb, hattributes, hcolumns, met⟩

end Options

end Schemata
