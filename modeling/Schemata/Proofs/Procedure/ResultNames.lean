import Mathlib.Data.List.Nodup
import Mathlib.Data.List.Pairwise
import Schemata.Proofs.Document.Written
import Schemata.Proofs.Model.Loaded
import Schemata.Proofs.Procedure.ById
import Schemata.Proofs.Schema.Layout

/-!
# Names in result sets

A column of a joined table is named after the role of the relationship and the column, with a
separator between them that may also occur in either. So the names of a result set are apart exactly
if no alias is the name of a column of the table itself, and no role continues another one by what a
joined column is named with.
-/
namespace Schemata

def Catalog.role (c : Catalog) (key : ColumnRef) : String := (c.column key).role.getD ""

/-- The columns that are shown of a joined table: all that pass the filter, but for the key. -/
def Catalog.shown (c : Catalog) (filter : Column → Bool) (key : ColumnRef) : List ColumnRef :=
  (c.columnRefs key.table).filter fun ref => filter (c.column ref) && ref != key

/-- An alias can be read in two ways: the longer role continues the shorter one by the separator and
what the column of the shorter one begins with. -/
theorem alias_eq_iff {r r' x x' : String} (apart : r ≠ r') : r ++ "_" ++ x = r' ++ "_" ++ x' ↔
    (∃ middle, r' = r ++ "_" ++ middle ∧ x = middle ++ "_" ++ x') ∨
      ∃ middle, r = r' ++ "_" ++ middle ∧ x' = middle ++ "_" ++ x := by
  have split : ∀ {r r' x x' : String}, r ≠ r' → ∀ as, r'.toList = r.toList ++ as →
      '_' :: x.toList = as ++ '_' :: x'.toList →
      ∃ middle, r' = r ++ "_" ++ middle ∧ x = middle ++ "_" ++ x' := by
    intro r r' x x' apart as hr hx
    cases as with
    | nil => exact absurd (String.toList_inj.mp (by simpa using hr.symm)) apart
    | cons a as =>
      obtain ⟨rfl, hx⟩ := List.cons_eq_cons.mp hx
      exact ⟨String.ofList as, String.toList_inj.mp (by simpa using hr),
        String.toList_inj.mp (by simpa using hx)⟩
  constructor
  · intro e
    have e : r.toList ++ '_' :: x.toList = r'.toList ++ '_' :: x'.toList := by
      simpa using congrArg String.toList e
    rcases List.append_eq_append_iff.mp e with ⟨as, hr, hx⟩ | ⟨as, hr, hx⟩
    · exact .inl (split apart as hr hx)
    · exact .inr (split apart.symm as hr hx)
  · rintro (⟨middle, rfl, rfl⟩ | ⟨middle, rfl, rfl⟩) <;> simp only [String.append_assoc]

namespace ResultSet

variable {n : Naming} {m : Model} {c : Catalog} {table : Table} {filter : Column → Bool}
  {key : ColumnRef}

def ownNames (table : Table) (filter : Column → Bool) : List String :=
  (table.columns.filter fun column => filter column && column.isNavigable).map (·.name)

/-- The names of the columns that are shown of a joined table. -/
def aliases (c : Catalog) (filter : Column → Bool) (key : ColumnRef) : List String :=
  (c.shown filter key).map fun ref => c.role key ++ "_" ++ (c.column ref).name

theorem label_of_role (named : c.role key ≠ "") (fallback : String) :
    given (c.column key).role fallback = c.role key := by
  rw [Catalog.role] at named ⊢
  cases hr : (c.column key).role with
  | none => exact absurd (by rw [hr]; rfl) named
  | some role =>
    rw [hr, Option.getD_some] at named
    rw [given_some, if_neg named, Option.getD_some]

theorem map_name_joinedColumns (plain : n.affixes = []) (named : c.role key ≠ "") :
    (joinedColumns n m c filter key).map (·.name) = aliases c filter key := by
  simp only [joinedColumns, label_of_role named, List.map_map, aliases]
  refine List.map_congr_left fun ref _ => ?_
  simp only [Function.comp_apply, column, Option.isSome_some, if_true, Naming.columnAlias,
    Naming.affixed, plain, List.lookup_nil]
  rfl

theorem map_name_ofTable (plain : n.affixes = [])
    (named : ∀ key ∈ relationshipKeys c table, c.role key ≠ "") :
    (ofTable n m c table filter).map (·.name) =
      ownNames table filter ++ (relationshipKeys c table).flatMap (aliases c filter) := by
  have hjoined : (relationshipKeys c table).flatMap (aliases c filter) =
      ((relationshipKeys c table).flatMap (joinedColumns n m c filter)).map (·.name) := by
    rw [List.map_flatMap]
    exact List.flatMap_congr fun key hkey => (map_name_joinedColumns plain (named key hkey)).symm
  have hown : ownNames table filter = (ownColumns n m table filter).map (·.name) := by
    rw [ownColumns, List.map_map]
    rfl
  rw [hjoined, hown, ← List.map_append, ofTable, List.map_map]
  conv => rhs; rw [← List.zipIdx_map_fst 0 (_ ++ _), List.map_map]
  rfl

theorem nodup_aliases (distinct : ((c.table key.table).columns.map (·.name)).Nodup) :
    (aliases c filter key).Nodup := by
  have hshown : ((c.shown filter key).map fun ref => (c.column ref).name).Nodup := by
    refine (distinct.sublist ?_)
    rw [← Catalog.map_column_columnRefs, List.map_map]
    exact List.filter_sublist.map _
  rw [List.Nodup, List.pairwise_map] at hshown
  rw [aliases, List.Nodup, List.pairwise_map]
  exact hshown.imp fun hne e => hne ((String.append_right_inj _).mp e)

/-- The aliases of two relationships meet if one role continues the other. -/
structure Continues (c : Catalog) (filter : Column → Bool) (key key' : ColumnRef)
    (middle : String) : Prop where
  role : c.role key' = c.role key ++ "_" ++ middle
  column : ∃ ref ∈ c.shown filter key, ∃ ref' ∈ c.shown filter key',
    (c.column ref).name = middle ++ "_" ++ (c.column ref').name

theorem disjoint_aliases_iff {key' : ColumnRef} (apart : c.role key ≠ c.role key') :
    List.Disjoint (aliases c filter key) (aliases c filter key') ↔
      (∀ middle, ¬ Continues c filter key key' middle) ∧
      ∀ middle, ¬ Continues c filter key' key middle := by
  simp only [List.disjoint_left, aliases, List.mem_map]
  constructor
  · intro h
    constructor
    · rintro middle ⟨hrole, ref, hr, ref', hr', hname⟩
      exact h ⟨ref, hr, rfl⟩ ⟨ref', hr',
        ((alias_eq_iff apart).mpr (.inl ⟨middle, hrole, hname⟩)).symm⟩
    · rintro middle ⟨hrole, ref', hr', ref, hr, hname⟩
      exact h ⟨ref, hr, rfl⟩ ⟨ref', hr',
        ((alias_eq_iff apart).mpr (.inr ⟨middle, hrole, hname⟩)).symm⟩
  · rintro ⟨h, h'⟩ name ⟨ref, hr, rfl⟩ ⟨ref', hr', e⟩
    rcases (alias_eq_iff apart).mp e.symm with ⟨middle, hrole, hname⟩ | ⟨middle, hrole, hname⟩
    · exact h middle ⟨hrole, ref, hr, ref', hr', hname⟩
    · exact h' middle ⟨hrole, ref', hr', ref, hr, hname⟩

theorem not_continues_self (middle : String) : ¬ Continues c filter key key middle := by
  rintro ⟨hrole, -⟩
  have hlength := congrArg (fun s => s.toList.length) hrole
  simp at hlength

theorem nodup_flatMap_aliases_iff {keys : List ColumnRef} (roles : (keys.map c.role).Nodup)
    (distinct : ∀ key ∈ keys, ((c.table key.table).columns.map (·.name)).Nodup) :
    (keys.flatMap (aliases c filter)).Nodup ↔
      ∀ key ∈ keys, ∀ key' ∈ keys, ∀ middle, ¬ Continues c filter key key' middle := by
  have apart : ∀ key ∈ keys, ∀ key' ∈ keys, key ≠ key' → c.role key ≠ c.role key' :=
    fun key hkey key' hkey' hne e => hne (List.inj_on_of_nodup_map roles hkey hkey' e)
  rw [List.nodup_flatMap, and_iff_right fun key hkey => nodup_aliases (distinct key hkey)]
  constructor
  · intro h key hkey key' hkey' middle
    by_cases hne : key = key'
    · rw [hne]
      exact not_continues_self middle
    · have : Std.Symm (Function.onFun List.Disjoint (aliases c filter)) :=
        ⟨fun _ _ h _ ha hb => h hb ha⟩
      exact ((disjoint_aliases_iff (apart key hkey key' hkey' hne)).mp (h.forall hkey hkey' hne)).1
        middle
  · intro h
    refine (List.Nodup.of_map _ roles).pairwise_of_forall_ne fun key hkey key' hkey' hne => ?_
    exact (disjoint_aliases_iff (apart key hkey key' hkey' hne)).mpr
      ⟨h key hkey key' hkey', h key' hkey' key hkey⟩

/-- Names are distinct within the table and within each table that is joined to it, and the
relationships by which they are joined have distinct roles. -/
structure Distinguished (c : Catalog) (table : Table) : Prop where
  own : (table.columns.map (·.name)).Nodup
  joined : ∀ key ∈ relationshipKeys c table, ((c.table key.table).columns.map (·.name)).Nodup
  roles : ((relationshipKeys c table).map c.role).Nodup
  named : ∀ key ∈ relationshipKeys c table, c.role key ≠ ""

instance (c : Catalog) (table : Table) : Decidable (Distinguished c table) :=
  decidable_of_iff ((table.columns.map (·.name)).Nodup ∧
      (∀ key ∈ relationshipKeys c table, ((c.table key.table).columns.map (·.name)).Nodup) ∧
      ((relationshipKeys c table).map c.role).Nodup ∧
      ∀ key ∈ relationshipKeys c table, c.role key ≠ "")
    ⟨fun h => ⟨h.1, h.2.1, h.2.2.1, h.2.2.2⟩, fun h => ⟨h.own, h.joined, h.roles, h.named⟩⟩

/-- No alias is the name of a column that is shown of the table itself, and those of two
relationships do not meet. -/
structure AliasesApart (c : Catalog) (table : Table) (filter : Column → Bool) : Prop where
  own : ∀ column ∈ table.columns, filter column = true → column.isNavigable = true →
    ∀ key ∈ relationshipKeys c table, ∀ ref ∈ c.shown filter key,
      column.name ≠ c.role key ++ "_" ++ (c.column ref).name
  joined : ∀ key ∈ relationshipKeys c table, ∀ key' ∈ relationshipKeys c table, ∀ middle,
    ¬ Continues c filter key key' middle

/-- With plain names, the names of a result set are distinct exactly if the aliases are apart, given
that names are distinct within each table and roles are distinct. -/
theorem ofTable_nodup_names_iff (n : Naming) (plain : n.affixes = []) (m : Model) (c : Catalog)
    (table : Table) (distinguished : Distinguished c table) (filter : Column → Bool) :
    ((ofTable n m c table filter).map (·.name)).Nodup ↔ AliasesApart c table filter := by
  have hown : (ownNames table filter).Nodup := distinguished.own.sublist (List.filter_sublist.map _)
  rw [map_name_ofTable plain distinguished.named, List.nodup_append, and_iff_right hown,
    nodup_flatMap_aliases_iff distinguished.roles distinguished.joined]
  constructor
  · rintro ⟨joined, own⟩
    refine ⟨fun column hcolumn passes navigable key hkey ref hr => ?_, joined⟩
    have hname : column.name ∈ ownNames table filter :=
      List.mem_map_of_mem (List.mem_filter.mpr ⟨hcolumn, by simp [passes, navigable]⟩)
    exact own _ hname _ (List.mem_flatMap.mpr ⟨key, hkey, List.mem_map_of_mem hr⟩)
  · rintro ⟨own, joined⟩
    refine ⟨joined, fun name hname other hother => ?_⟩
    obtain ⟨column, hcolumn, rfl⟩ := List.mem_map.mp hname
    obtain ⟨hcolumn, shown⟩ := List.mem_filter.mp hcolumn
    obtain ⟨passes, navigable⟩ := Bool.and_eq_true_iff.mp shown
    obtain ⟨key, hkey, hother⟩ := List.mem_flatMap.mp hother
    obtain ⟨ref, hr, rfl⟩ := List.mem_map.mp hother
    exact own column hcolumn passes navigable key hkey ref hr

/-- A classifier has two relationships to one other. -/
theorem ofTable_nodup_names_roles :
    let o := Options.of .sqlServer
    let document : ModelDocument := { name := "m", classifiers := [
      { id := "a", name := "A", attributes := [
        .identity "Id" "integer", .many "bs" "b", .many "cs" "b"] },
      { id := "b", name := "B", attributes := [.identity "Id" "integer"] }] }
    ∃ m db c' t, Model.ofDatum document.write = .ok m ∧ (o.build m {}).value = .ok (db, c') ∧
      t ∈ db.tables ∧ Distinguished c' (c'.table t) ∧
      (ofTable o.naming m c' (c'.table t) fun _ => true).map (·.name) =
        ["Id", "bs_Id", "bs_Id_cs", "cs_Id", "cs_Id_bs"] ∧
      (((ofTable o.naming m c' (c'.table t) fun _ => true).map (·.name)).Nodup ↔
        AliasesApart c' (c'.table t) fun _ => true) := by
  intro o document
  have hrun : o.observe document (fun m db c' =>
      .ok (db.tables.map fun t => (decide (Distinguished c' (c'.table t)),
        (ofTable o.naming m c' (c'.table t) fun _ => true).map ResultColumn.name))) =
      .ok [(true, ["Id", "bs_Id", "bs_Id_cs", "cs_Id", "cs_Id_bs"]), (true, ["Id"])] := by
    decide +kernel
  obtain ⟨m, db, c', hm, hb, hrun⟩ := Options.observe_eq_ok.mp hrun
  obtain ⟨t, rest, htables, e, -⟩ := List.map_eq_cons_iff.mp (Except.ok.inj hrun)
  obtain ⟨distinguished, names⟩ := Prod.mk.inj e
  have ht : t ∈ db.tables := by
    rw [show db.tables = t :: rest from htables]
    exact List.mem_cons_self
  have distinguished := of_decide_eq_true distinguished
  exact ⟨m, db, c', t, hm, hb, ht, distinguished, names,
    ofTable_nodup_names_iff o.naming rfl m c' (c'.table t) distinguished fun _ => true⟩

/-- An attribute is named like the alias of a joined identity. -/
theorem not_nodup_names_alias :
    let o := Options.of .sqlServer
    let document : ModelDocument := { name := "m", classifiers := [
      { id := "a", name := "A", attributes := [
        .identity "Id" "integer", .of "bs_Id" "string", .many "bs" "b"] },
      { id := "b", name := "B", attributes := [.identity "Id" "integer"] }] }
    ∃ m db c' t, Model.ofDatum document.write = .ok m ∧ (o.build m {}).value = .ok (db, c') ∧
      t ∈ db.tables ∧ Distinguished c' (c'.table t) ∧
      (ofTable o.naming m c' (c'.table t) fun _ => true).map (·.name) = ["Id", "bs_Id", "bs_Id"] ∧
      ¬ ((ofTable o.naming m c' (c'.table t) fun _ => true).map (·.name)).Nodup := by
  intro o document
  have hrun : o.observe document (fun m db c' =>
      .ok (db.tables.map fun t => (decide (Distinguished c' (c'.table t)),
        (ofTable o.naming m c' (c'.table t) fun _ => true).map ResultColumn.name))) =
      .ok [(true, ["Id", "bs_Id", "bs_Id"]), (true, ["Id"])] := by
    decide +kernel
  obtain ⟨m, db, c', hm, hb, hrun⟩ := Options.observe_eq_ok.mp hrun
  obtain ⟨t, rest, htables, e, -⟩ := List.map_eq_cons_iff.mp (Except.ok.inj hrun)
  obtain ⟨distinguished, names⟩ := Prod.mk.inj e
  have ht : t ∈ db.tables := by
    rw [show db.tables = t :: rest from htables]
    exact List.mem_cons_self
  refine ⟨m, db, c', t, hm, hb, ht, of_decide_eq_true distinguished, names, ?_⟩
  rw [names]
  decide

end ResultSet

end Schemata
