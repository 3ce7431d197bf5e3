import Schemata.Proofs.Document.Written
import Schemata.Proofs.Schema.ForeignKeys

/-!
# The types of columns

A foreign key column takes its SQL type, with its length and digits, from the identity property that
it refers to. The identity column of a table takes them from that property too, so both have one
type, whatever gives properties theirs.
-/
namespace Schemata

/-- The property that a column has its type from. -/
def Column.typing? (column : Column) : Option PropertyRef :=
  if column.isForeignKey then column.referenced else column.source

/-- What gives columns their types: the SQL type of a property, and the facets that a column of this
type has for the property. -/
structure TypeProvider where
  sqlType : Property → Except Fault String
  facets : String → Property → SqlFacets

structure TypeProvider.Types (provider : TypeProvider) (p : Property) (column : Column) : Prop where
  sqlType : provider.sqlType p = .ok column.sqlType
  facets : column.facets = provider.facets column.sqlType p

theorem TypeProvider.Types.alike {provider : TypeProvider} {p : Property} {a b : Column}
    (ha : provider.Types p a) (hb : provider.Types p b) :
    a.sqlType = b.sqlType ∧ a.facets = b.facets := by
  have htype : a.sqlType = b.sqlType := Except.ok.inj (ha.sqlType.symm.trans hb.sqlType)
  exact ⟨htype, by rw [ha.facets, hb.facets, htype]⟩

/-- Every column of a table has the type that the provider gives it for the property it has its type
from. -/
def Database.TypedBy (db : Database) (m : Model) (c : Catalog) (provider : TypeProvider) : Prop :=
  ∀ t ∈ db.tables, ∀ column ∈ (c.table t).columns, ∃ p,
    column.typing? = some p ∧ provider.Types (m.property p) column

/-- Under any provider, two columns that have their types from one property have the same type. -/
theorem Database.TypedBy.alike {db : Database} {m : Model} {c : Catalog} {provider : TypeProvider}
    (typed : db.TypedBy m c provider) {t u : TableRef} (ht : t ∈ db.tables) (hu : u ∈ db.tables)
    {a b : Column} (ha : a ∈ (c.table t).columns) (hb : b ∈ (c.table u).columns)
    (same : a.typing? = b.typing?) : a.sqlType = b.sqlType ∧ a.facets = b.facets := by
  obtain ⟨p, hp, typed_a⟩ := typed t ht a ha
  obtain ⟨q, hq, typed_b⟩ := typed u hu b hb
  obtain rfl : p = q := Option.some.inj (hp.symm.trans (same.trans hq))
  exact typed_a.alike typed_b

namespace Options

variable {o : Options} {m : Model} {map : RelationshipMap} {s : ClassifierRef} {p : PropertyRef}
  {definition : TableDefinition} {table : Table} {own further : List DerivedColumn}
  {d : DerivedColumn}

def typeProvider (o : Options) (m : Model) : TypeProvider where
  sqlType := o.typeNames.ofProperty m
  facets sqlType property := o.facets.facets sqlType (some property)

theorem columnType_eq_ok {table sqlType : String} {property : Property}
    (h : o.columnType m table property = .ok sqlType) :
    o.typeNames.ofProperty m property = .ok sqlType := by
  obtain ⟨found, hfound, h⟩ := bind_eq_ok.mp h
  split at h
  case isTrue => cases h
  case isFalse =>
    cases h
    exact hfound

theorem types_columnOf {table sqlType : String} {purpose : ColumnPurpose}
    (typed : m.typed purpose = m.property p)
    (h : o.columnType m table (m.property p) = .ok sqlType) :
    (o.typeProvider m).Types (m.property p) (o.columnOf m purpose sqlType) :=
  ⟨columnType_eq_ok h, by simp only [columnOf, typed, typeProvider]⟩

/-- A column that refers to an entity has the type of the entity's identity property, and an
identity column that of an attribute of its own classifier that is marked as identity. -/
structure TypesOf (o : Options) (m : Model) (s : ClassifierRef) (d : DerivedColumn)
    (p : PropertyRef) : Prop where
  typing : d.column.typing? = some p
  types : (o.typeProvider m).Types (m.property p) d.column
  principal : ∀ principal, d.principal = some principal → m.identityProperty? principal = some p
  identity : d.column.isIdentity = true → p ∈ m.members s ∧ (m.property p).isId = true

theorem Bears.typesOf {table : String} (h : o.Bears m table s p d) (hp : p ∈ m.members s) :
    ∃ q, o.TypesOf m s d q := by
  cases h with
  | @reference type referenced _ _ _ _ identity typed =>
    refine ⟨referenced, rfl, types_columnOf rfl typed, fun principal hprincipal => ?_, fun hi => ?_⟩
    · exact Option.some.inj hprincipal ▸ identity
    · cases hi
  | value _ _ typed =>
    refine ⟨p, rfl, types_columnOf rfl typed, fun principal hprincipal => ?_, fun hi => ⟨hp, ?_⟩⟩
    · cases hprincipal
    · simpa [columnOf, valuePurpose] using hi

/-- A column that loses its identity keeps its type. -/
theorem TypesOf.identified {isIdentity : Bool} (h : o.TypesOf m s d p)
    (kept : isIdentity = true → d.column.isIdentity = true) :
    o.TypesOf m s (d.identified isIdentity) p :=
  ⟨h.typing, ⟨h.types.sqlType, h.types.facets⟩, h.principal, fun hi => h.identity (kept hi)⟩

theorem Defines.typesOf (h : o.Defines m map s definition own further) (hd : d ∈ own ++ further) :
    ∃ p, o.TypesOf m s d p := by
  rcases List.mem_append.mp hd with hd | hd
  · obtain ⟨p, hp, d₀, bears, isIdentity, rfl, kept⟩ := h.mem_own hd
    obtain ⟨q, hq⟩ := bears.typesOf hp
    exact ⟨q, hq.identified kept⟩
  · obtain ⟨r, _, hcolumn⟩ := exists_mem_of_forall₂ h.ofRelationships hd
    obtain ⟨referenced, sqlType, identity, typed, rfl⟩ := relationshipColumn_eq_ok hcolumn
    refine ⟨referenced, rfl, types_columnOf rfl typed, fun principal hprincipal => ?_, fun hi => ?_⟩
    · exact Option.some.inj hprincipal ▸ identity
    · cases hi

theorem Made.typing? (made : o.Made m map definition table s own further) {column : Column}
    (hc : column ∈ table.columns) :
    ∃ p, column.typing? = some p ∧ (o.typeProvider m).Types (m.property p) column := by
  rw [made.columns] at hc
  obtain ⟨d, hd, rfl⟩ := List.mem_map.mp hc
  obtain ⟨p, h⟩ := made.defines.typesOf hd
  exact ⟨p, h.typing, h.types⟩

theorem build_typedBy {c c' : Catalog} {db : Database} (h : (o.build m c).value = .ok (db, c')) :
    db.TypedBy m c' (o.typeProvider m) := by
  obtain ⟨map, _, definition, made⟩ := build_made h
  intro t ht column hc
  obtain ⟨s, own, further, made⟩ := made t ht
  exact made.typing? hc

/-- If no classifier has two attributes that are marked as identity, a foreign key column and the
identity column of the table it refers to have their types from one property. So every provider that
types the columns gives them one SQL type, length and number of digits, and that of the options is
one. -/
theorem build_typedAlike (o : Options) (m : Model)
    (single : ∀ s ∈ m.packagedClassifiers, ∀ p ∈ (m.classifier s).attributes,
      ∀ q ∈ (m.classifier s).attributes, (m.property p).isId = true →
        (m.property q).isId = true → p = q)
    (c : Catalog) (db : Database) (c' : Catalog) (h : (o.build m c).value = .ok (db, c')) :
    ∃ map, (m.relationshipMap o.convention).value = .ok map ∧
      ∀ t ∈ db.tables, ∀ position column, (c'.table t).columns[position]? = some column →
        column.isForeignKey = true → ∃ principal,
          (c'.table t).principalAt? m map position = some principal ∧
          ∀ p ∈ db.tables, (c'.table p).source = some principal →
            ∀ identity ∈ (c'.table p).columns, identity.isIdentity = true →
              column.typing? = identity.typing? ∧
                column.sqlType = identity.sqlType ∧ column.facets = identity.facets := by
  obtain ⟨map, hmap, definition, made⟩ := build_made h
  refine ⟨map, hmap, fun t ht position column hcolumn foreign => ?_⟩
  obtain ⟨s, own, further, made_t⟩ := made t ht
  have hmember := List.mem_of_getElem? hcolumn
  obtain ⟨d, hd, rfl⟩ := made_t.column hcolumn
  obtain ⟨principal, hprincipal, hat⟩ := made_t.principalAt? hd foreign
  refine ⟨principal, hat, fun p hp hsource identity hidentity isIdentity => ?_⟩
  obtain ⟨s', own', further', made_p⟩ := made p hp
  obtain rfl : s' = principal := Option.some.inj (made_p.source.symm.trans hsource)
  obtain ⟨i, hi⟩ := List.mem_iff_getElem?.mp hidentity
  obtain ⟨d', hd', rfl⟩ := made_p.column hi
  -- Both columns have the type of the classifier's one attribute that is marked as identity.
  obtain ⟨q, hq⟩ := made_t.defines.typesOf (List.mem_of_getElem? hd)
  obtain ⟨q', hq'⟩ := made_p.defines.typesOf (List.mem_of_getElem? hd')
  obtain ⟨hmem', hid'⟩ := hq'.identity isIdentity
  rw [Model.members, if_pos made_p.membered] at hmem'
  have hfound := hq.principal s' hprincipal
  have hmem : q ∈ (m.classifier s').attributes := List.mem_of_find?_eq_some hfound
  have hid : (m.property q).isId = true :=
    List.find?_some (p := fun p => (m.property p).isId) hfound
  obtain rfl : q = q' := single s' made_p.packaged q hmem q' hmem' hid hid'
  have same := hq.typing.trans hq'.typing.symm
  exact ⟨same, (build_typedBy h).alike ht hp hmember hidentity same⟩

/-- An entry refers to an account by an attribute and by a relationship, each with the digits of its
number. -/
theorem build_typedAlike_account :
    let o := of .sqlServer
    let document : ModelDocument := { name := "m", classifiers := [
      { id := "a", name := "Account", attributes := [
        { name := "Number", type := some "decimal", isId := true
          facets := { precision := some 12, scale := some 3 } },
        .many "entries" "e"] },
      { id := "e", name := "Entry", attributes := [
        { name := "Number", type := some "decimal", isId := true
          facets := { precision := some 7, scale := some 3 } },
        .of "account" "a"] }] }
    ∃ m db c', Model.ofDatum document.write = .ok m ∧
      (∀ s ∈ m.packagedClassifiers, ∀ p ∈ (m.classifier s).attributes,
        ∀ q ∈ (m.classifier s).attributes, (m.property p).isId = true →
          (m.property q).isId = true → p = q) ∧
      (o.build m {}).value = .ok (db, c') ∧
      (db.tables.map fun t => (c'.table t).columns.map fun column =>
        (column.name, column.facets.precision)) =
        [[("Number", some 12)],
          [("Number", some 7), ("accountId", some 12), ("Number_entries", some 12)]] ∧
      ∃ map, (m.relationshipMap o.convention).value = .ok map ∧
        ∀ t ∈ db.tables, ∀ position column, (c'.table t).columns[position]? = some column →
          column.isForeignKey = true → ∃ principal,
            (c'.table t).principalAt? m map position = some principal ∧
            ∀ p ∈ db.tables, (c'.table p).source = some principal →
              ∀ identity ∈ (c'.table p).columns, identity.isIdentity = true →
                column.typing? = identity.typing? ∧
                  column.sqlType = identity.sqlType ∧ column.facets = identity.facets := by
  intro o document
  have hrun : o.observe document (fun m db c' =>
      .ok (decide (∀ s ∈ m.packagedClassifiers, ∀ p ∈ (m.classifier s).attributes,
          ∀ q ∈ (m.classifier s).attributes, (m.property p).isId = true →
            (m.property q).isId = true → p = q),
        db.tables.map fun t =>
          (c'.table t).columns.map fun column : Column => (column.name, column.facets.precision))) =
      .ok (true,
          [[("Number", some 12)],
            [("Number", some 7), ("accountId", some 12), ("Number_entries", some 12)]]) := by
    decide +kernel
  obtain ⟨m, db, c', hm, hb, hrun⟩ := observe_eq_ok.mp hrun
  obtain ⟨hsingle, hcolumns⟩ := Prod.mk.inj (Except.ok.inj hrun)
  have single := of_decide_eq_true hsingle
  exact ⟨m, db, c', hm, single, hb, hcolumns, build_typedAlike o m single {} db c' hb⟩

end Options

end Schemata
