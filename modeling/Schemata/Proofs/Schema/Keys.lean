import Schemata.Proofs.Outcome
import Schemata.Schema.Definition
import Schemata.Schema.Key

/-!
# Derived keys

Which keys a column gives its table, and that giving tables their keys changes nothing else.
-/
namespace Schemata

def Key.IsComplete (k : Key) : Prop :=
  k.kind = .primary ∨ k.principalTable.isSome ∧ k.principalColumn.isSome

theorem Key.IsComplete.exists_text {k : Key} (h : k.IsComplete) : ∃ text, k.text = .ok text := by
  have hrule : ∃ rule, k.rule = .ok rule := by
    rw [Key.rule]
    rcases h with h | ⟨ht, hc⟩
    · rw [h]
      exact ⟨_, rfl⟩
    · obtain ⟨table, ht⟩ := Option.isSome_iff_exists.mp ht
      obtain ⟨column, hc⟩ := Option.isSome_iff_exists.mp hc
      rw [ht, hc]
      cases k.kind <;> exact ⟨_, rfl⟩
  obtain ⟨rule, hrule⟩ := hrule
  exact ⟨_, bind_eq_ok.mpr ⟨rule, hrule, rfl⟩⟩

/-- A key that is derived for a column, which is the identity or refers to another table. -/
inductive Key.On (column : Column) : Key → Prop
  | primary {name : String} : column.isIdentity = true →
    On column { name, kind := .primary, column := column.name }
  | foreign {name table principal : String} : column.isForeignKey = true →
    On column { name, kind := .foreign, column := column.name, principalTable := some table
                principalColumn := some principal }

theorem Key.On.isComplete {column : Column} {k : Key} (h : k.On column) : k.IsComplete := by
  cases h with
  | primary => exact .inl rfl
  | foreign => exact .inr ⟨rfl, rfl⟩

namespace Options

variable {o : Options} {m : Model} {present : List String} {c c' : Catalog} {t : TableRef}
  {tables : List TableRef}

theorem foreignKey?_eq_ok {table : String} {column : Column} {source referenced : PropertyRef}
    {principal : ClassifierRef} {key? : Option Key} (hs : column.source = some source)
    (hr : column.referenced = some referenced)
    (owner : (m.property referenced).owner = some (.classifier principal))
    (h : (o.foreignKey? m present table column).value = .ok key?) :
    if (m.classifier principal).id ∈ present then
      ∃ name identity, m.identityProperty principal = .ok identity ∧ key? = some
        { name
          kind := .foreign
          column := column.name
          principalTable := some (o.naming.tableName (m.classifier principal))
          principalColumn := some (o.naming.columnName (m.property identity)) }
    else key? = none := by
  rw [foreignKey?] at h
  simp only [hs, hr, owner, List.contains_eq_mem, Bool.not_eq_true', decide_eq_false_iff_not] at h
  by_cases hp : (m.classifier principal).id ∈ present
  · rw [if_neg (not_not.mpr hp)] at h
    obtain ⟨name, _, h⟩ := Logged.bind_eq_ok.mp h
    obtain ⟨identity, hi, h⟩ := Logged.bind_eq_ok.mp h
    cases h
    rw [if_pos hp]
    exact ⟨name, identity, Logged.lift_eq_ok.mp hi, rfl⟩
  · rw [if_pos hp] at h
    cases h
    rw [if_neg hp]

theorem foreignKey?_on {table : String} {column : Column} {key : Key}
    (foreign : column.isForeignKey = true)
    (h : (o.foreignKey? m present table column).value = .ok (some key)) : key.On column := by
  rw [foreignKey?] at h
  cases hs : column.source with
  | none =>
    simp only [hs] at h
    cases h
  | some source =>
    cases hr : column.referenced with
    | none =>
      simp only [hs, hr] at h
      cases h
    | some referenced =>
      simp only [hs, hr] at h
      split at h
      case h_2 => cases h
      case h_1 =>
        split at h
        · cases h
        · obtain ⟨name, _, h⟩ := Logged.bind_eq_ok.mp h
          obtain ⟨identity, _, h⟩ := Logged.bind_eq_ok.mp h
          cases h
          exact .foreign foreign

theorem columnKeys_of_foreign {table : Table} {column : Column} {part : List Key}
    (foreign : column.isForeignKey = true) (plain : column.isIdentity = false)
    (h : (o.columnKeys m present table column).value = .ok part) :
    ∃ key?, (o.foreignKey? m present table.name column).value = .ok key? ∧ part = key?.toList := by
  rw [columnKeys] at h
  simp only [foreign, if_true, plain] at h
  obtain ⟨key?, hk, h⟩ := Logged.bind_eq_ok.mp h
  refine ⟨key?, hk, ?_⟩
  cases hs : table.source <;> simp [hs] at h <;> exact h.symm

theorem columnKeys_of_not_foreign {table : Table} {column : Column} {s : ClassifierRef}
    (plain : column.isForeignKey = false) (hs : table.source = some s) :
    (o.columnKeys m present table column).value =
      .ok (if column.isIdentity then [o.primaryKey column (m.classifier s)] else []) := by
  cases hi : column.isIdentity <;> simp [columnKeys, plain, hs, hi]

/-- The primary key on a column, if it identifies the rows of a classifier's table. -/
def primaryKey? (o : Options) (m : Model) (table : Table) (column : Column) : Option Key :=
  if column.isIdentity then table.source.map fun s => o.primaryKey column (m.classifier s) else none

/-- Behind the foreign key of a column, if it has one, comes its primary key. -/
theorem columnKeys_eq (table : Table) (column : Column) : o.columnKeys m present table column =
    (if column.isForeignKey then o.foreignKey? m present table.name column else pure none) >>=
      fun foreign =>
      pure (foreign.toList ++ (o.primaryKey? m table column).toList) := by
  rw [columnKeys, primaryKey?]
  cases table.source <;> cases column.isIdentity <;> cases column.isForeignKey <;> rfl

theorem primaryKey?_on {table : Table} {column : Column} {key : Key}
    (h : o.primaryKey? m table column = some key) : key.On column := by
  rw [primaryKey?] at h
  split at h
  case isTrue identity =>
    obtain ⟨s, _, rfl⟩ := Option.map_eq_some_iff.mp h
    exact .primary identity
  case isFalse => cases h

theorem columnKeys_on {table : Table} {column : Column} {part : List Key}
    (h : (o.columnKeys m present table column).value = .ok part) : ∀ key ∈ part, key.On column := by
  rw [columnKeys_eq] at h
  obtain ⟨foreign?, hf, h⟩ := Logged.bind_eq_ok.mp h
  obtain rfl := Except.ok.inj h
  intro key hk
  rcases List.mem_append.mp hk with hk | hk
  · have hk := Option.mem_toList.mp hk
    split at hf
    case isTrue foreign => exact foreignKey?_on foreign (hk ▸ hf)
    case isFalse =>
      cases hf
      cases hk
  · exact primaryKey?_on (Option.mem_toList.mp hk)

/-- Only the name and the classifier of the table matter. -/
theorem columnKeys_congr {table table' : Table} (name : table'.name = table.name)
    (source : table'.source = table.source) (column : Column) :
    o.columnKeys m present table' column = o.columnKeys m present table column := by
  simp only [columnKeys, name, source]

theorem tableKeys_eq_ok {table : Table} {keys : List Key} :
    (o.tableKeys m present table).value = .ok keys ↔
      ∃ parts,
        List.Forall₂ (fun column part => (o.columnKeys m present table column).value = .ok part)
        table.columns parts ∧ keys = parts.flatten := by
  rw [tableKeys, Logged.bind_eq_ok]
  constructor
  · rintro ⟨parts, hp, h⟩
    cases h
    exact ⟨parts, Logged.mapM_eq_ok.mp hp, rfl⟩
  · rintro ⟨parts, hp, rfl⟩
    exact ⟨parts, Logged.mapM_eq_ok.mpr hp, rfl⟩

theorem tableKeys_on {table : Table} {keys : List Key}
    (h : (o.tableKeys m present table).value = .ok keys) {key : Key} (hk : key ∈ keys) :
    ∃ column ∈ table.columns, key.On column := by
  obtain ⟨parts, hparts, rfl⟩ := tableKeys_eq_ok.mp h
  obtain ⟨part, hpart, hk⟩ := List.mem_flatten.mp hk
  obtain ⟨column, hc, hcolumn⟩ := exists_mem_of_forall₂ hparts hpart
  exact ⟨column, hc, columnKeys_on hcolumn key hk⟩

theorem exists_create {table : Table} (h : (o.tableKeys m present table).value = .ok table.keys) :
    ∃ text, table.create = .ok text := by
  have htexts : ∃ texts, table.keys.mapM Key.text = pure texts := by
    refine exists_mapM_eq_pure fun key hk => ?_
    obtain ⟨column, _, on⟩ := tableKeys_on h hk
    exact on.isComplete.exists_text
  obtain ⟨texts, htexts⟩ := htexts
  exact ⟨_, bind_eq_ok.mpr ⟨texts, htexts, rfl⟩⟩

theorem addKeys_eq_ok (bounded : t.place < c.tables.length)
    (h : (o.addKeys m present c t).value = .ok c') :
    c'.tables.length = c.tables.length ∧
      (∃ keys, (o.tableKeys m present (c.table t)).value = .ok keys ∧
        c'.table t = { c.table t with keys }) ∧ ∀ u, u ≠ t → c'.table u = c.table u := by
  rw [addKeys] at h
  by_cases hd : (c.table t).dialect = .sqlServer
  · simp only [hd, ne_eq, not_true_eq_false, if_false] at h
    obtain ⟨keys, hk, h⟩ := Logged.bind_eq_ok.mp h
    cases h
    exact ⟨Catalog.length_update _ _ _, ⟨keys, hk, Catalog.table_update_self bounded _⟩,
      fun u hu => Catalog.table_update_of_ne hu _⟩
  · simp only [ne_eq, hd, not_false_eq_true, if_true] at h
    cases h

theorem foldlM_addKeys (distinct : tables.Nodup) (bounded : ∀ t ∈ tables, t.place < c.tables.length)
    (h : (tables.foldlM (o.addKeys m present) c).value = .ok c') :
    c'.tables.length = c.tables.length ∧
      (∀ t ∈ tables, ∃ keys, (o.tableKeys m present (c.table t)).value = .ok keys ∧
        c'.table t = { c.table t with keys }) ∧ ∀ t, t ∉ tables → c'.table t = c.table t := by
  induction tables generalizing c with
  | nil =>
    cases h
    exact ⟨rfl, by simp, fun _ _ => rfl⟩
  | cons t rest ih =>
    rw [List.foldlM_cons] at h
    obtain ⟨d, hd, h⟩ := Logged.bind_eq_ok.mp h
    obtain ⟨size, hself, hother⟩ := addKeys_eq_ok (bounded t (by simp)) hd
    obtain ⟨fresh, distinct⟩ := List.nodup_cons.mp distinct
    obtain ⟨size', hlisted, hrest⟩ :=
      ih distinct (fun u hu => size ▸ bounded u (List.mem_cons_of_mem t hu)) h
    refine ⟨size'.trans size, ?_, ?_⟩
    · intro u hu
      rcases List.mem_cons.mp hu with rfl | hu
      · rw [hrest u fresh]
        exact hself
      · have hne : u ≠ t := fun e => fresh (e ▸ hu)
        rw [← hother u hne]
        exact hlisted u hu
    · intro u hu
      rw [List.mem_cons, not_or] at hu
      rw [hrest u hu.2, hother u hu.1]

end Options

end Schemata
