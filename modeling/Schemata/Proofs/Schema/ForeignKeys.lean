import Schemata.Proofs.Database
import Schemata.Proofs.Document.Written
import Schemata.Proofs.Model.Loaded

/-!
# Foreign keys, dependents and the order of tables

A foreign key column is listed with the dependents of a table exactly if it has a foreign key that
names this table, and then the table stands before its own unless they are the same.
-/
namespace Schemata

/-- The classifier that a foreign key column refers to: the principal of the relationship it was
made for, or else the type of the attribute it realizes. Relationships have their columns in
order. -/
def Table.principalAt? (t : Table) (m : Model) (map : RelationshipMap) (position : Nat) :
    Option ClassifierRef :=
  match t.columns[position]?, t.source with
  | some column, some s =>
    if column.isMany then
      ((map.needed m s)[(t.columns.take position).countP (·.isMany)]?).map (·.principal)
    else column.source.bind fun p => (m.property p).type
  | _, _ => none

namespace Database

/-- What a foreign key column is to the table of the classifier it refers to. -/
structure Realizes (db : Database) (c : Catalog) (column : ColumnRef) (keys : List Key)
    (p : TableRef) :
    Prop where
  once : (c.table p).dependents.count column = 1
  alone : ∀ q ∈ db.tables, q ≠ p → column ∉ (c.table q).dependents
  key : ∃ k, keys = [k] ∧ k.kind = .foreign ∧ k.column = (c.column column).name ∧
    k.principalTable = some (c.table p).name
  behind : p = column.table ∨ db.tables.idxOf p < db.tables.idxOf column.table

structure Drops (db : Database) (c : Catalog) (column : ColumnRef) (keys : List Key) : Prop where
  unlisted : ∀ q ∈ db.tables, column ∉ (c.table q).dependents
  keyless : keys = []

/-- The keys of a table are those of its columns, in order. -/
structure KeysOf (o : Options) (m : Model) (db : Database) (c : Catalog) (t : TableRef)
    (parts : List (List Key)) : Prop where
  derived : List.Forall₂
    (fun column keys =>
      (o.columnKeys m (Options.presentIds m c db.tables) (c.table t) column).value = .ok keys)
    (c.table t).columns parts
  complete : (c.table t).keys = parts.flatten

/-- Foreign keys, dependents and the order of tables tell the same about a column. -/
structure ReferencesAgree (o : Options) (m : Model) (map : RelationshipMap) (db : Database)
    (c : Catalog) : Prop where
  columns : ∀ t ∈ db.tables, ∃ parts, db.KeysOf o m c t parts ∧
    ∀ position column keys, (c.table t).columns[position]? = some column →
      parts[position]? = some keys →
      (column.isForeignKey = true → ∃ principal,
        (c.table t).principalAt? m map position = some principal ∧
        (∀ p ∈ db.tables, (c.table p).source = some principal →
          db.Realizes c ⟨t, position⟩ keys p) ∧
        ((∀ p ∈ db.tables, (c.table p).source ≠ some principal) →
          db.Drops c ⟨t, position⟩ keys)) ∧
      (column.isForeignKey = false → ∀ k ∈ keys, k.kind = .primary)
  dependents : ∀ p ∈ db.tables, ∀ ref ∈ (c.table p).dependents, ref.table ∈ db.tables ∧
    ∃ column, (c.table ref.table).columns[ref.position]? = some column ∧
      column.isForeignKey = true ∧
      (c.table ref.table).principalAt? m map ref.position = (c.table p).source

end Database

namespace Options

variable {o : Options} {m : Model} {map : RelationshipMap} {c : Catalog} {db : Database}
  {tables : List TableRef} {definition : TableRef → TableDefinition} {t p : TableRef}

variable {s : ClassifierRef} {own further : List DerivedColumn} {table : Table} {d : DerivedColumn}

/-- As many columns of relationships stand before one of them as there are relationships before its
own. -/
theorem Defines.countP_isMany {definition : TableDefinition}
    (h : o.Defines m map s definition own further) {i : Nat} (hi : i ≤ further.length) :
    (((own ++ further).map (·.column)).take (own.length + i)).countP (·.isMany) = i := by
  have hown : (own.map (·.column)).countP (·.isMany) = 0 := by
    rw [List.countP_eq_zero]
    intro column hc
    obtain ⟨d, hd, rfl⟩ := List.mem_map.mp hc
    rw [h.isMany_own hd]
    exact Bool.false_ne_true
  have hfurther : ((further.take i).map (·.column)).countP (·.isMany) = i := by
    rw [List.countP_eq_length.mpr, List.length_map, List.length_take_of_le hi]
    intro column hc
    obtain ⟨d, hd, rfl⟩ := List.mem_map.mp hc
    exact h.isMany_further (List.mem_of_mem_take hd)
  rw [← List.map_take, List.take_length_add_append, List.map_append, List.countP_append,
    hown, hfurther, Nat.zero_add]

theorem Defines.principalAt? {definition : TableDefinition}
    (h : o.Defines m map s definition own further) (source : table.source = some s)
    (columns : table.columns = (own ++ further).map (·.column)) {position : Nat}
    {principal : ClassifierRef} (hd : (own ++ further)[position]? = some d)
    (hp : d.principal = some principal) :
    table.principalAt? m map position = some principal := by
  have hcolumn : table.columns[position]? = some d.column := by
    rw [columns, List.getElem?_map, hd]
    rfl
  simp only [Table.principalAt?, hcolumn, source]
  -- The columns of attributes stand before those of relationships.
  rcases Nat.lt_or_ge position own.length with hlt | hge
  · rw [List.getElem?_append_left hlt] at hd
    obtain ⟨p, _, d₀, hbears, isIdentity, rfl, _⟩ := h.mem_own (List.mem_of_getElem? hd)
    obtain ⟨hsource, hmany, htype⟩ := hbears.type
    have hmany' : (d₀.identified isIdentity).column.isMany = false := hmany
    have hsource' : (d₀.identified isIdentity).column.source = some p := hsource
    rw [hmany', hsource']
    exact htype principal hp
  · obtain ⟨i, rfl⟩ := Nat.exists_eq_add_of_le hge
    rw [List.getElem?_append_right hge, Nat.add_sub_cancel_left] at hd
    rw [h.isMany_further (List.mem_of_getElem? hd), if_pos rfl, columns,
      h.countP_isMany (List.getElem?_eq_some_iff.mp hd).1.le]
    obtain ⟨r, hr, hcolumn⟩ := exists_getElem?_of_forall₂ h.ofRelationships hd
    obtain ⟨referenced, sqlType, _, _, rfl⟩ := relationshipColumn_eq_ok hcolumn
    rw [hr, ← hp]
    rfl

theorem Made.principalAt? {definition : TableDefinition}
    (h : o.Made m map definition table s own further) {position : Nat}
    (hd : (own ++ further)[position]? = some d) (foreign : d.column.isForeignKey = true) :
    ∃ principal, d.principal = some principal ∧
      table.principalAt? m map position = some principal := by
  obtain ⟨principal, hp⟩ := Option.isSome_iff_exists.mp
    ((h.defines.refers (List.mem_of_getElem? hd)).foreign.symm.trans foreign)
  exact ⟨principal, hp, h.defines.principalAt? h.source h.columns hd hp⟩

theorem Derived.source (h : o.Derived m map tables c definition) (ht : t ∈ tables) :
    (c.table t).source = (definition t).table.source := by
  obtain ⟨dependents, keys, hc⟩ := h.table t ht
  rw [hc]

theorem Derived.eq_of_source (h : o.Derived m map tables c definition) (ht : t ∈ tables)
    (hp : p ∈ tables) (e : (c.table t).source = (c.table p).source) : t = p :=
  h.injective t ht p hp (by rw [← h.source ht, ← h.source hp, e])

theorem Derived.source_of_id (h : o.Derived m map tables c definition) (wf : m.WellFormed)
    (hp : p ∈ tables) {principal s : ClassifierRef} (packaged : principal ∈ m.packagedClassifiers)
    (hs : (c.table p).source = some s) (hid : (m.classifier s).id = (m.classifier principal).id) :
    (c.table p).source = some principal := by
  obtain ⟨s', hs', hsource, _⟩ := h.defined p hp
  rw [h.source hp, hsource] at hs
  obtain rfl := Option.some.inj hs
  rw [h.source hp, hsource, wf.eq_of_id hs' packaged hid]

theorem Derived.mem_presentIds (h : o.Derived m map tables c definition) (wf : m.WellFormed)
    {principal : ClassifierRef} (packaged : principal ∈ m.packagedClassifiers) :
    (m.classifier principal).id ∈ presentIds m c tables ↔
      ∃ p ∈ tables, (c.table p).source = some principal := by
  simp only [presentIds, List.mem_filterMap, Option.map_eq_some_iff]
  constructor
  · rintro ⟨p, hp, s, hs, hid⟩
    exact ⟨p, hp, h.source_of_id wf hp packaged hs hid⟩
  · rintro ⟨p, hp, hs⟩
    exact ⟨p, hp, principal, hs, rfl⟩

section
variable {position : Nat} {principal : ClassifierRef}

/-- A column is listed with the table of the classifier that it refers to and with no other. -/
theorem Derived.mem_dependents_iff (h : o.Derived m map tables c definition) (wf : m.WellFormed)
    (ht : t ∈ tables) (hp : p ∈ tables)
    (made : o.Made m map (definition t) (c.table t) s own further)
    (hd : (own ++ further)[position]? = some d) (hr : d.principal = some principal) :
    ⟨t, position⟩ ∈ (c.table p).dependents ↔ (c.table p).source = some principal := by
  obtain ⟨referenced, hi, _⟩ :=
    (made.defines.refers (List.mem_of_getElem? hd)).referenced principal hr
  have packaged := (wf.of_identityProperty? hi).1
  rw [h.mem_dependents p hp]
  simp only [made.defines.references, mem_referencesOf, hd, Option.some.injEq, exists_eq_left', hr]
  constructor
  · rintro ⟨_, s', hs', hid⟩
    exact h.source_of_id wf hp packaged ((h.source hp).trans hs') hid
  · intro hs
    exact ⟨ht, principal, (h.source hp).symm.trans hs, rfl⟩

/-- A column has a foreign key exactly if the classifier that it refers to has a table. -/
theorem Derived.keys_of_foreign (h : o.Derived m map tables c definition) (wf : m.WellFormed)
    (made : o.Made m map (definition t) table s own further)
    (hd : (own ++ further)[position]? = some d) (hr : d.principal = some principal)
    {keys : List Key}
    (hk : (o.columnKeys m (presentIds m c tables) table d.column).value = .ok keys) :
    ((∃ p ∈ tables, (c.table p).source = some principal) → ∃ name identity,
        m.identityProperty? principal = some identity ∧ keys =
          [{ name
             kind := .foreign
             column := d.column.name
             principalTable := some (o.naming.tableName (m.classifier principal))
             principalColumn := some (o.naming.columnName (m.property identity)) }]) ∧
      ((∀ p ∈ tables, (c.table p).source ≠ some principal) → keys = []) := by
  have refers := made.defines.refers (List.mem_of_getElem? hd)
  obtain ⟨referenced, hi, hreferenced⟩ := refers.referenced principal hr
  obtain ⟨packaged, owner⟩ := wf.of_identityProperty? hi
  obtain ⟨source, hsource⟩ := refers.sourced
  have foreign : d.column.isForeignKey = true := by rw [refers.foreign, hr]; rfl
  obtain ⟨key?, hkey, rfl⟩ := columnKeys_of_foreign foreign (refers.plain foreign) hk
  have hif := foreignKey?_eq_ok hsource hreferenced owner hkey
  constructor
  · intro hp
    rw [if_pos ((h.mem_presentIds wf packaged).mpr hp)] at hif
    obtain ⟨name, identity, hidentity, rfl⟩ := hif
    exact ⟨name, identity, identityProperty_eq_ok.mp hidentity, rfl⟩
  · intro hp
    have habsent : ¬ ∃ p ∈ tables, (c.table p).source = some principal :=
      fun ⟨p, hp', hs⟩ => hp p hp' hs
    rw [if_neg (mt (h.mem_presentIds wf packaged).mp habsent)] at hif
    rw [hif]
    rfl

theorem Completed.realizes (h : o.Completed m map db c definition) (wf : m.WellFormed)
    (ht : t ∈ db.tables) (hp : p ∈ db.tables)
    (made : o.Made m map (definition t) (c.table t) s own further)
    (hd : (own ++ further)[position]? = some d) (hr : d.principal = some principal)
    (hs : (c.table p).source = some principal) {keys : List Key}
    (hk : (o.columnKeys m (presentIds m c db.tables) (c.table t) d.column).value = .ok keys) :
    db.Realizes c ⟨t, position⟩ keys p := by
  have derived := h.derived
  have hmem : ∀ q ∈ db.tables,
      ⟨t, position⟩ ∈ (c.table q).dependents ↔ (c.table q).source = some principal :=
    fun q hq => derived.mem_dependents_iff wf ht hq made hd hr
  have listed := (hmem p hp).mpr hs
  refine ⟨List.count_eq_one_of_mem (derived.nodup_dependents p hp) listed, ?_, ?_, ?_⟩
  · intro q hq hne hl
    exact hne (derived.eq_of_source hq hp (((hmem q hq).mp hl).trans hs.symm))
  · obtain ⟨name, identity, _, rfl⟩ := (derived.keys_of_foreign wf made hd hr hk).1 ⟨p, hp, hs⟩
    obtain ⟨s', _, _, made'⟩ := derived.made hp
    obtain rfl := Option.some.inj (made'.source.symm.trans hs)
    refine ⟨_, rfl, rfl, ?_, congrArg some made'.name.symm⟩
    rw [Catalog.column, made.columns, List.getD_eq_getElem?_getD, List.getElem?_map, hd]
    rfl
  · by_cases e : p = t
    · exact .inl e
    · exact .inr (derived.behind t p ⟨ht, hp, fun e' => e e'.symm, _, listed, rfl⟩)

theorem Completed.drops (h : o.Completed m map db c definition) (wf : m.WellFormed)
    (ht : t ∈ db.tables) (made : o.Made m map (definition t) (c.table t) s own further)
    (hd : (own ++ further)[position]? = some d) (hr : d.principal = some principal)
    (absent : ∀ p ∈ db.tables, (c.table p).source ≠ some principal) {keys : List Key}
    (hk : (o.columnKeys m (presentIds m c db.tables) (c.table t) d.column).value = .ok keys) :
    db.Drops c ⟨t, position⟩ keys := by
  refine ⟨fun q hq hl => absent q hq ?_, (h.derived.keys_of_foreign wf made hd hr hk).2 absent⟩
  exact (h.derived.mem_dependents_iff wf ht hq made hd hr).mp hl

theorem Completed.keysOf (h : o.Completed m map db c definition) (ht : t ∈ db.tables) :
    ∃ parts, db.KeysOf o m c t parts := by
  obtain ⟨parts, hparts, hkeys⟩ := tableKeys_eq_ok.mp (h.keys t ht)
  exact ⟨parts, hparts, hkeys⟩

theorem Completed.referencesAgree (h : o.Completed m map db c definition) (wf : m.WellFormed) :
    db.ReferencesAgree o m map c := by
  constructor
  · intro t ht
    obtain ⟨parts, hparts⟩ := h.keysOf ht
    obtain ⟨s, own, further, made⟩ := h.derived.made ht
    refine ⟨parts, hparts, fun position column keys hc hk => ?_⟩
    obtain ⟨d, hd, rfl⟩ := made.column hc
    obtain ⟨_, hc', hkeys⟩ := exists_getElem?_of_forall₂ hparts.derived hk
    obtain rfl := Option.some.inj (hc.symm.trans hc')
    constructor
    · intro foreign
      obtain ⟨principal, hr, hat⟩ := made.principalAt? hd foreign
      exact ⟨principal, hat, fun p hp hs => h.realizes wf ht hp made hd hr hs hkeys,
        fun absent => h.drops wf ht made hd hr absent hkeys⟩
    · intro plain k hk
      rw [columnKeys_of_not_foreign plain made.source] at hkeys
      obtain rfl := Except.ok.inj hkeys
      split at hk
      · rw [List.mem_singleton.mp hk]
        rfl
      · cases hk
  · intro p hp ref hl
    obtain ⟨ht, r, hr, hsource⟩ := (h.derived.mem_dependents p hp ref).mp hl
    obtain ⟨s, own, further, made⟩ := h.derived.made ht
    rw [made.defines.references, mem_referencesOf] at hr
    obtain ⟨d, hd, hr⟩ := hr
    have refers := made.defines.refers (List.mem_of_getElem? hd)
    have foreign : d.column.isForeignKey = true := by rw [refers.foreign, hr]; rfl
    refine ⟨ht, d.column, ?_, foreign, ?_⟩
    · rw [made.columns, List.getElem?_map, hd]
      rfl
    · obtain ⟨principal, hr', hat⟩ := made.principalAt? hd foreign
      rw [hat, (h.derived.mem_dependents_iff wf ht hp made hd hr').mp hl]

end

/-- Foreign keys, dependents and the order of tables agree in every database for SQL Server,
whichever way the relationships of the model were found. -/
theorem build_referencesAgree (o : Options) (sqlServer : o.dialect = .sqlServer) (m : Model)
    (loaded : m.Loaded) (c : Catalog) :
    (∀ db c', (o.build m c).value = .ok (db, c') → ∃ map,
        (m.relationshipMap o.convention).value = .ok map ∧ db.ReferencesAgree o m map c') ∧
      ∀ map db c', (o.buildWith m map c).value = .ok (db, c') → db.ReferencesAgree o m map c' := by
  have wf := loaded.wellFormed
  have hwith : ∀ map db c', (o.buildWith m map c).value = .ok (db, c') →
      db.ReferencesAgree o m map c' := by
    intro map db c' h
    obtain ⟨definition, completed⟩ := buildWith_eq_ok sqlServer wf.distinct h
    exact completed.referencesAgree wf
  refine ⟨fun db c' h => ?_, hwith⟩
  rw [build_eq] at h
  obtain ⟨map, hmap, h⟩ := Logged.bind_eq_ok.mp h
  exact ⟨map, hmap, hwith map db c' h⟩

/-- The second classifier is referred to by the first, which has many of the third; the third refers
to itself. -/
theorem build_referencesAgree_three :
    let o := of .sqlServer
    let document : ModelDocument := { name := "m", classifiers := [
      { id := "b", name := "B", attributes := [
        .identity "id" "integer", .of "a" "a", .many "cs" "c"] },
      { id := "a", name := "A", attributes := [.identity "id" "integer"] },
      { id := "c", name := "C", attributes := [.identity "id" "integer", .of "next" "c"] }] }
    ∃ m db c', Model.ofDatum document.write = .ok m ∧ (o.build m {}).value = .ok (db, c') ∧
      (db.tables.map fun t => (t, (c'.table t).dependents)) =
        [(⟨1⟩, [⟨⟨0⟩, 1⟩]), (⟨0⟩, [⟨⟨2⟩, 2⟩]), (⟨2⟩, [⟨⟨2⟩, 1⟩])] ∧
      ∃ map, (m.relationshipMap o.convention).value = .ok map ∧ db.ReferencesAgree o m map c' := by
  intro o document
  have hrun : o.observe document (fun _ db c' =>
      .ok (db.tables.map fun t => (t, (c'.table t).dependents))) =
      .ok [(⟨1⟩, [⟨⟨0⟩, 1⟩]), (⟨0⟩, [⟨⟨2⟩, 2⟩]), (⟨2⟩, [⟨⟨2⟩, 1⟩])] := by
    decide +kernel
  obtain ⟨m, db, c', hm, hb, hrun⟩ := observe_eq_ok.mp hrun
  exact ⟨m, db, c', hm, hb, Except.ok.inj hrun,
    (build_referencesAgree o rfl m (.document hm) {}).1 db c' hb⟩

end Options

end Schemata
