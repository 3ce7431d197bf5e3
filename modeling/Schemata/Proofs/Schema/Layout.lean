import Schemata.Proofs.Document.Written
import Schemata.Proofs.Schema.ForeignKeys
import Schemata.Proofs.Schema.Identity
import Schemata.Proofs.Schema.Purposes

/-!
# The columns of a table

A table has a column for each attribute of its classifier that has a name and does not refer to many
entities, and behind them a column for each relationship of a map that needs one. What the columns
are marked as follows from that.
-/
namespace Schemata

/-- The attribute has a name and does not refer to many entities. -/
def Model.hasColumn (m : Model) (p : PropertyRef) : Bool :=
  (m.property p).name != "" &&
    !(m.isRelationship (m.property p) && (m.property p).multiplicity.isMany)

/-- The attribute is marked as identity and does not refer to an entity. -/
def Model.marksIdentity (m : Model) (p : PropertyRef) : Bool :=
  (m.property p).isId && !m.isRelationship (m.property p)

structure Column.OfAttribute (m : Model) (p : PropertyRef) (column : Column) : Prop where
  source : column.source = some p
  foreign : column.isForeignKey = m.isRelationship (m.property p)
  referenced : column.referenced.isSome = column.isForeignKey
  required : (m.property p).isId = true → column.isRequired = true
  single : column.isMany = false
  navigable : column.isNavigable = true

structure Column.OfRelationship (m : Model) (r : Relationship) (column : Column) : Prop where
  source : column.source = some r.path
  foreign : column.isForeignKey = true
  referenced : column.referenced = m.identityProperty? r.principal
  identified : column.referenced.isSome
  plain : column.isIdentity = false
  many : column.isMany = true
  hidden : column.isNavigable = false

/-- A table has the columns of attributes, and behind them those of relationships. Of the attributes
that are marked as identity the first has the identity column, and the references are those of the
foreign keys. -/
structure TableDefinition.LaidOut (definition : TableDefinition) (m : Model) (map : RelationshipMap)
    (s : ClassifierRef) (own further : List Column) : Prop where
  source : definition.table.source = some s
  columns : definition.table.columns = own ++ further
  attributes :
      List.Forall₂ (Column.OfAttribute m) ((m.classifier s).attributes.filter m.hasColumn) own
  relationships : List.Forall₂ (Column.OfRelationship m)
    ((map.get (m.classifier s).id).filter fun r => r.isOneToMany && !r.isOwned) further
  identity : definition.table.columns.filter (·.isIdentity) =
    (own.find? fun column => column.source.any m.marksIdentity).toList
  plain : ∀ column ∈ definition.table.columns, column.isIdentity = true →
    column.isRequired = true ∧ column.isForeignKey = false
  foreign : ∀ column ∈ definition.table.columns, column.isForeignKey = column.referenced.isSome
  belongs : ∀ c : Catalog, let (t, c) := c.add definition.table
    (c.columnRefs t).map c.column = definition.table.columns ∧ ∀ ref ∈ c.columnRefs t, ref.table = t
  references : definition.references.map Prod.fst =
    (definition.table.columns.zipIdx.filter (·.1.isForeignKey)).map Prod.snd
  principals : ∀ position principal, (position, principal) ∈ definition.references →
    definition.table.principalAt? m map position = some principal

theorem Catalog.map_column_columnRefs (c : Catalog) (t : TableRef) :
    (c.columnRefs t).map c.column = (c.table t).columns := by
  refine List.ext_getElem (by simp [columnRefs]) fun i h _ => ?_
  have hi : i < (c.table t).columns.length := by simpa [columnRefs] using h
  simp [columnRefs, Catalog.column, hi]

theorem find?_keepFirstIdentity {columns : List DerivedColumn} {f : DerivedColumn → Bool}
    (hf : ∀ d ∈ columns, f d = d.column.isIdentity) :
    (keepFirstIdentity false columns).find? f = columns.find? (·.column.isIdentity) := by
  induction columns with
  | nil => rfl
  | cons d rest ih =>
    have hd : d.identified (!false && d.column.isIdentity) = d := identified_of_eq rfl
    have hrest := ih fun d hd => hf d (List.mem_cons_of_mem _ hd)
    rw [keepFirstIdentity, hd]
    cases hi : d.column.isIdentity <;> simp [hf, hi, hrest]

namespace Options

variable {o : Options} {m : Model} {map : RelationshipMap} {s : ClassifierRef} {p : PropertyRef}
  {name : String} {definition : TableDefinition} {own further : List DerivedColumn}
  {d : DerivedColumn}

theorem map_fst_referencesOf {columns : List DerivedColumn}
    (foreign : ∀ d ∈ columns, d.column.isForeignKey = d.principal.isSome) :
    (referencesOf columns).map Prod.fst =
      ((columns.map (·.column)).zipIdx.filter (·.1.isForeignKey)).map Prod.snd := by
  rw [referencesOf, List.map_filterMap, List.zipIdx_map, List.filter_map, List.map_map,
    ← List.filterMap_eq_map, List.filterMap_filter]
  refine List.filterMap_congr ?_
  rintro ⟨d, i⟩ hd
  have hd := foreign d (List.fst_mem_of_mem_zipIdx hd)
  cases hp : d.principal <;> simp [hp, hd]

theorem isSome_attributePrincipal? (owned : (m.property p).owner = some (.classifier s)) :
    (m.attributePrincipal? s p).isSome = m.isRelationship (m.property p) := by
  cases ht : (m.property p).type with
  | none => simp [Model.attributePrincipal?, Model.isRelationship, ht]
  | some type =>
    cases hv : (m.classifier type).kind.isValue <;>
      simp [Model.attributePrincipal?, Model.isRelationship, owned, ht, hv]

theorem Bears.ofAttribute (h : o.Bears m name s p d)
    (owned : (m.property p).owner = some (.classifier s)) :
    d.column.OfAttribute m p ∧ d.column.isIdentity = m.marksIdentity p := by
  have hprincipal := isSome_attributePrincipal? owned
  cases h with
  | reference principal =>
    rw [principal] at hprincipal
    refine ⟨⟨rfl, hprincipal, rfl, fun hid => ?_, rfl, rfl⟩, ?_⟩
    · simp [columnOf, referencePurpose, hid]
    · simp [Model.marksIdentity, columnOf, referencePurpose, ← hprincipal]
  | value principal =>
    rw [principal] at hprincipal
    refine ⟨⟨rfl, hprincipal, rfl, fun hid => ?_, rfl, rfl⟩, ?_⟩
    · simp [columnOf, valuePurpose, hid]
    · simp [Model.marksIdentity, columnOf, valuePurpose, ← hprincipal]

theorem attributeColumn?_ofAttribute {d? : Option DerivedColumn}
    (owned : (m.property p).owner = some (.classifier s))
    (h : (o.attributeColumn? m name s p).value = .ok d?) :
    m.hasColumn p = d?.isSome ∧
      ∀ d ∈ d?, d.column.OfAttribute m p ∧ d.column.isIdentity = m.marksIdentity p := by
  have hprincipal := isSome_attributePrincipal? owned
  rcases attributeColumn?_eq_ok h with ⟨rfl, hnone⟩ | ⟨d, rfl, bears⟩
  · rw [hprincipal] at hnone
    refine ⟨?_, by simp⟩
    rcases hnone with hname | ⟨hr, hmany⟩
    · simp [Model.hasColumn, hname]
    · simp [Model.hasColumn, hr, hmany]
  · refine ⟨?_, fun d' hd => Option.some.inj hd ▸ bears.ofAttribute owned⟩
    cases bears with
    | reference _ single named => simp [Model.hasColumn, single, named]
    | value principal named =>
      rw [principal] at hprincipal
      simp [Model.hasColumn, named, ← hprincipal]

theorem relationshipColumn_ofRelationship {r : Relationship}
    (h : (o.relationshipColumn m name s r).value = .ok d) : d.column.OfRelationship m r := by
  obtain ⟨referenced, sqlType, identity, _, rfl⟩ := relationshipColumn_eq_ok h
  exact ⟨rfl, rfl, identity.symm, rfl, rfl, rfl, rfl⟩

section
variable (h : o.Defines m map s definition own further)
include h

theorem Defines.ofRelationship : List.Forall₂ (Column.OfRelationship m)
    ((map.get (m.classifier s).id).filter fun r => r.isOneToMany && !r.isOwned)
      (further.map (·.column)) := by
  have hneeded :
      map.needed m s = (map.get (m.classifier s).id).filter fun r => r.isOneToMany && !r.isOwned :=
    List.filter_congr fun r _ => Bool.and_comm _ _
  rw [List.forall₂_map_right_iff, ← hneeded]
  exact h.ofRelationships.imp fun _ _ => relationshipColumn_ofRelationship

variable (membered : (m.classifier s).kind.isMembered = true)
  (owned : ∀ p ∈ (m.classifier s).attributes, (m.property p).owner = some (.classifier s))
include membered owned

theorem Defines.ofAttribute :
    List.Forall₂ (Column.OfAttribute m) ((m.classifier s).attributes.filter m.hasColumn)
      (own.map (·.column)) ∧ (own.map (·.column)).filter (·.isIdentity) =
        ((own.map (·.column)).find? fun column => column.source.any m.marksIdentity).toList := by
  obtain ⟨found, hfound, rfl⟩ := h.ofAttributes
  rw [show m.members s = (m.classifier s).attributes from if_pos membered] at hfound
  have hcolumns :
      List.Forall₂ (fun p d => d.column.OfAttribute m p ∧ d.column.isIdentity = m.marksIdentity p)
      ((m.classifier s).attributes.filter m.hasColumn) (found.filterMap id) := by
    have hboth := (List.forall₂_and_left _ _).mpr ⟨owned, hfound⟩
    exact forall₂_filter_filterMap (hboth.imp fun p d? hp => attributeColumn?_ofAttribute hp.1 hp.2)
  constructor
  · have hkept : ∀ (d : DerivedColumn) (isIdentity : Bool) (p : PropertyRef),
      d.column.OfAttribute m p →
        (d.identified isIdentity).column.OfAttribute m p :=
      fun _ _ _ h => ⟨h.source, h.foreign, h.referenced, h.required, h.single, h.navigable⟩
    rw [List.forall₂_map_right_iff]
    exact (forall₂_keepFirstIdentity_left hkept (hcolumns.imp fun _ _ h => h.1).flip false).flip
  · have hmarked : ∀ d ∈ found.filterMap id, (d.column.source.any m.marksIdentity) =
        d.column.isIdentity := by
      intro d hd
      obtain ⟨p, _, hp, hi⟩ := exists_mem_of_forall₂ hcolumns hd
      rw [hp.source, hi]
      rfl
    have hfind := find?_keepFirstIdentity hmarked
    have hfilter := filter_keepFirstIdentity false (found.filterMap id)
    rw [if_neg Bool.false_ne_true, ← hfind] at hfilter
    rw [List.filter_map, List.find?_map, Option.toList_map]
    exact congrArg (List.map (·.column)) hfilter

/-- The identity column is the first one of an attribute that is marked as identity. -/
theorem Defines.identity : ((own ++ further).map (·.column)).filter (·.isIdentity) =
    ((own.map (·.column)).find? fun column => column.source.any m.marksIdentity).toList := by
  rw [h.filter_isIdentity, ← (h.ofAttribute membered owned).2, List.filter_map]
  rfl

theorem Defines.plain {column : Column} (hc : column ∈ (own ++ further).map (·.column))
    (hi : column.isIdentity = true) : column.isRequired = true ∧ column.isForeignKey = false := by
  have hfirst : column ∈ ((own ++ further).map (·.column)).filter (·.isIdentity) :=
    List.mem_filter.mpr ⟨hc, hi⟩
  rw [h.identity membered owned, Option.mem_toList] at hfirst
  have hmarks := List.find?_some hfirst
  obtain ⟨p, _, hp⟩ :=
    exists_mem_of_forall₂ (h.ofAttribute membered owned).1 (List.mem_of_find?_eq_some hfirst)
  rw [hp.source, Option.any_some, Model.marksIdentity, Bool.and_eq_true,
    Bool.not_eq_true'] at hmarks
  exact ⟨hp.required hmarks.1, hp.foreign.trans hmarks.2⟩

theorem Defines.foreign {column : Column} (hc : column ∈ (own ++ further).map (·.column)) :
    column.isForeignKey = column.referenced.isSome := by
  rw [List.map_append, List.mem_append] at hc
  rcases hc with hc | hc
  · obtain ⟨p, _, hp⟩ := exists_mem_of_forall₂ (h.ofAttribute membered owned).1 hc
    exact hp.referenced.symm
  · obtain ⟨r, _, hr⟩ := exists_mem_of_forall₂ h.ofRelationship hc
    exact hr.foreign.trans hr.identified.symm

theorem Defines.laidOut :
    definition.LaidOut m map s (own.map (·.column)) (further.map (·.column)) := by
  have hcolumns : definition.table.columns = (own ++ further).map (·.column) := by rw [h.table]
  have hsource : definition.table.source = some s := by rw [h.table]
  refine ⟨hsource, hcolumns.trans List.map_append, (h.ofAttribute membered owned).1,
    h.ofRelationship, ?_, ?_, ?_, ?_, ?_, ?_⟩
  · rw [hcolumns, h.identity membered owned]
  · rw [hcolumns]
    exact fun _ => h.plain membered owned
  · rw [hcolumns]
    exact fun _ => h.foreign membered owned
  · intro c
    constructor
    · rw [Catalog.map_column_columnRefs]
      exact congrArg Table.columns (Catalog.table_add_self c definition.table)
    · simp [Catalog.columnRefs]
  · rw [h.references, hcolumns, map_fst_referencesOf fun d hd => (h.refers hd).foreign]
  · intro position principal href
    rw [h.references] at href
    obtain ⟨d, hd, hp⟩ := mem_referencesOf.mp href
    exact h.principalAt? hsource hcolumns hd hp

end

/-- Whatever the map is, the table of a classifier that owns its attributes is laid out by both. -/
theorem tableDefinition?_laidOut (o : Options) (m : Model) (map : RelationshipMap)
    (s : ClassifierRef) (definition : TableDefinition)
    (membered : (m.classifier s).kind.isMembered = true)
    (owned : ∀ p ∈ (m.classifier s).attributes, (m.property p).owner = some (.classifier s))
    (h : (o.tableDefinition? m map s).value = .ok (some definition)) :
    ∃ own further, definition.LaidOut m map s own further := by
  obtain ⟨own, further, h⟩ := tableDefinition?_eq_ok h
  exact ⟨_, _, h.laidOut membered owned⟩

/-- An employee is marked as identity twice and refers to others; an attribute without a name has no
column. -/
theorem tableDefinition?_laidOut_employee :
    let o := of .ansi
    let document : ModelDocument := { name := "m", classifiers := [
      { id := "d", name := "Department", attributes := [
        .identity "Id" "integer", .many "staff" "e"] },
      { id := "e", name := "Employee", attributes := [
        .identity "Id" "integer", .identity "Badge" "integer", .of "" "integer",
        { name := "superior", type := some "e", lower := 0 }, .many "friends" "e"] }] }
    ∃ m map s definition, Model.ofDatum document.write = .ok m ∧
      (m.relationshipMap o.convention).value = .ok map ∧ (m.classifier s).name = "Employee" ∧
      (m.classifier s).kind.isMembered = true ∧
      (∀ p ∈ (m.classifier s).attributes, (m.property p).owner = some (.classifier s)) ∧
      (o.tableDefinition? m map s).value = .ok (some definition) ∧
      (definition.table.columns.map fun column => (column.name, column.isIdentity)) =
        [("Id", true), ("Badge", false), ("superiorId", false), ("Id_staff", false),
          ("Id_friends", false)] ∧
      definition.references.map Prod.fst = [2, 3, 4] ∧
      ∃ own further, definition.LaidOut m map s own further := by
  intro o document
  have hrun : o.observe document (fun m _ _ => do
      let map ← (m.relationshipMap o.convention).value
      let s := m.packagedClassifiers.getLastD ⟨0⟩
      let definition? ← (o.tableDefinition? m map s).value
      let definition : TableDefinition := definition?.getD { table := {} }
      return (decide ((m.classifier s).name = "Employee" ∧ (m.classifier s).kind.isMembered = true ∧
          (∀ p ∈ (m.classifier s).attributes, (m.property p).owner = some (Owner.classifier s)) ∧
          definition?.isSome),
        definition.table.columns.map fun column : Column => (column.name, column.isIdentity),
        definition.references.map Prod.fst)) =
        .ok (true, [("Id", true), ("Badge", false), ("superiorId", false), ("Id_staff", false),
          ("Id_friends", false)], [2, 3, 4]) := by
    decide +kernel
  obtain ⟨m, _, _, hm, _, hrun⟩ := observe_eq_ok.mp hrun
  obtain ⟨map, hmap, hrun⟩ := bind_eq_ok.mp hrun
  obtain ⟨definition?, hd, hrun⟩ := bind_eq_ok.mp hrun
  obtain ⟨hholds, hshape⟩ := Prod.mk.inj (Except.ok.inj hrun)
  obtain ⟨hcolumns, hreferences⟩ := Prod.mk.inj hshape
  obtain ⟨hname, membered, owned, hsome⟩ := of_decide_eq_true hholds
  obtain ⟨definition, rfl⟩ := Option.isSome_iff_exists.mp hsome
  exact ⟨m, map, _, definition, hm, hmap, hname, membered, owned, hd, hcolumns, hreferences,
    tableDefinition?_laidOut o m map _ definition membered owned hd⟩

end Options

end Schemata
