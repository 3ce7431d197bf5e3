import Schemata.Proofs.Database
import Schemata.Proofs.Procedure.ListTypes

/-!
# All table types of a database

The table types of a database are those of classifiers, the one for identities, and those that were
added for the lists of procedures. What holds of every table type that can be made thus holds of all
that a database has.
-/
namespace Schemata

def Catalog.Each (c : Catalog) (tables : List TableRef) (P : Table → Prop) : Prop :=
  ∀ t ∈ tables, t.place < c.tables.length ∧ P (c.table t)

theorem Catalog.Each.add {c : Catalog} {tables : List TableRef} {P : Table → Prop} {table : Table}
    (h : c.Each tables P) (new : P table) :
    (c.add table).2.Each (tables ++ [(c.add table).1]) P := by
  intro t ht
  rcases List.mem_append.mp ht with ht | ht
  · obtain ⟨bounded, has⟩ := h t ht
    rw [table_add_of_lt bounded]
    exact ⟨(c.grows_add table).lt_length bounded, has⟩
  · rw [List.mem_singleton.mp ht, table_add_self]
    exact ⟨by simp [Catalog.add], new⟩

namespace ProcedureDraft

variable {rules : ProcedureRules} {m : Model} {Q : ProcedureDraft → Prop} {d d' : ProcedureDraft}
  {t identityType : TableRef} {model : ClassifierRef} {p : Procedure}

/-- What is kept by the two steps that change a draft: a procedure is added, or a table type is
looked up. -/
structure Keeps (rules : ProcedureRules) (m : Model) (Q : ProcedureDraft → Prop) : Prop where
  add : ∀ d p added d', Q d → (d.add p).value = .ok (added, d') → Q d'
  listType : ∀ d identity u d', Q d → (rules.listType m d identity).value = .ok (u, d') → Q d'

theorem Keeps.addRelationshipUpdate {key : ColumnRef} (keeps : Keeps rules m Q) (h : Q d)
    (ok : (d.addRelationshipUpdate rules m t model key).value = .ok d') : Q d' := by
  rw [ProcedureDraft.addRelationshipUpdate] at ok
  split at ok
  case h_1 =>
    cases ok
    exact h
  case h_2 =>
    cases ok
    exact h
  case h_3 =>
    obtain ⟨⟨values, d₁⟩, hv, ok⟩ := Logged.bind_eq_ok.mp ok
    obtain ⟨q, hq, ok⟩ := Logged.bind_eq_ok.mp ok
    obtain ⟨u, hu, _⟩ := listParameter_eq_ok hv
    have h₁ := keeps.listType d _ u d₁ h hu
    split at ok
    · cases ok
      exact h₁
    · obtain ⟨⟨added, d₂⟩, ha, ok⟩ := Logged.bind_eq_ok.mp ok
      cases ok
      exact keeps.add d₁ q added d₂ h₁ ha

theorem Keeps.addWriter (keeps : Keeps rules m Q) (h : Q d)
    (ok : (d.addWriter rules m p t model).value = .ok d') : Q d' := by
  obtain ⟨⟨added, d₁⟩, ha, ok⟩ := Logged.bind_eq_ok.mp ok
  have h₁ := keeps.add d p added d₁ h ha
  cases added with
  | false =>
    cases ok
    exact h₁
  | true =>
    exact Logged.foldlM_induction (P := Q) ok h₁ fun d key d' _ h ok =>
      keeps.addRelationshipUpdate h ok

theorem Keeps.addKind {kind : ProcedureKind} (keeps : Keeps rules m Q) (h : Q d)
    (ok : (d.addKind rules m t model kind).value = .ok d') : Q d' := by
  rcases addKind_cases ok with rfl | ⟨p, _, _, ⟨_, ok⟩ | ⟨added, ok⟩⟩
  · exact h
  · exact keeps.addWriter h ok
  · exact keeps.add d p added d' h ok

theorem Keeps.addTable {selection : ProcedureSelection} (keeps : Keeps rules m Q) (h : Q d)
    (ok : (d.addTable rules m selection t).value = .ok d') : Q d' := by
  rw [ProcedureDraft.addTable] at ok
  split at ok
  · cases ok
    exact h
  · split at ok
    · cases ok
    · exact Logged.foldlM_induction (P := Q) ok h fun d kind d' _ h ok => keeps.addKind h ok

theorem Keeps.createProcedures {o : Options} {tables : List TableRef}
    (keeps : Keeps (o.rules identityType) m Q) (h : Q d)
    (ok : (o.createProcedures m identityType tables d).completed.value = .ok d') : Q d' := by
  rw [Options.createProcedures, Progress.completed_walk] at ok
  exact Logged.foldlM_induction (P := Q) ok h fun d t d' _ h ok => keeps.addTable h ok

def AllTypes (P : Table → Prop) (d : ProcedureDraft) : Prop := d.catalog.Each d.tableTypes P

theorem keeps_allTypes {o : Options} {P : Table → Prop}
    (values : ∀ s sqlType table, o.simpleTableType s sqlType = .ok table → P table) :
    Keeps (o.rules identityType) m (AllTypes P) where
  add d p added d' h ok := by
    rcases add_eq_ok ok with ⟨_, rfl⟩ | ⟨_, rfl⟩ <;> exact h
  listType d identity u d' h ok := by
    rw [ProcedureRules.listType] at ok
    split at ok
    · cases ok
      exact h
    · obtain ⟨table, ht, ok⟩ := Logged.bind_eq_ok.mp ok
      split at ok
      · cases ok
        exact h
      · cases ok
        exact Catalog.Each.add h (values _ _ table (Logged.lift_eq_ok.mp ht))

end ProcedureDraft

namespace Options

variable {o : Options} {m : Model} {map : RelationshipMap} {c c' : Catalog} {db : Database}
  {P : Table → Prop}

theorem TableTypes.forall_add {types : TableTypes} {table : Table} {holds : Bool}
    (all : ∀ t ∈ types.tables, P t) (new : P table) :
    ∀ t ∈ (types.add table holds).tables, P t := by
  rcases types.tables_add table holds with e | ⟨_, e⟩ <;> rw [e]
  · exact all
  · exact List.forall_mem_append.mpr ⟨all, List.forall_mem_singleton.mpr new⟩

section
variable (values : ∀ s sqlType table, o.simpleTableType s sqlType = .ok table → P table)
  (rows : ∀ s table, (o.complexTableType? m map s).value = .ok (some table) → P table)
include values rows

theorem of_tableTypeOf? {identityType : String} {s : ClassifierRef} {table : Table} {holds : Bool}
    (h : (o.tableTypeOf? m map identityType s).value = .ok (some (table, holds))) : P table := by
  rw [tableTypeOf?] at h
  split at h
  · obtain ⟨sqlType?, _, h⟩ := Logged.bind_eq_ok.mp h
    cases sqlType? with
    | none => cases h
    | some sqlType =>
      obtain ⟨table, ht, h⟩ := Logged.bind_eq_ok.mp h
      cases h
      exact values s sqlType table (Logged.lift_eq_ok.mp ht)
  · obtain ⟨table?, ht, h⟩ := Logged.bind_eq_ok.mp h
    cases table? with
    | none => cases h
    | some table =>
      cases h
      exact rows s table ht

theorem forall_tableTypesOf {types : TableTypes} (h : (o.tableTypesOf m map).value = .ok types) :
    ∀ t ∈ types.tables, P t := by
  obtain ⟨identityType, _, h⟩ := Logged.bind_eq_ok.mp h
  obtain ⟨selected, hs, h⟩ := Logged.bind_eq_ok.mp h
  have all : ∀ t ∈ selected.tables, P t := by
    refine Logged.foldlM_induction (P := fun types : TableTypes => ∀ t ∈ types.tables, P t) hs
      (by simp) fun types s types' _ all ok => ?_
    rcases addTableType_eq_ok ok with rfl | ⟨table, holds, _, ht, rfl⟩
    · exact all
    · exact TableTypes.forall_add all (of_tableTypeOf? values rows ht)
  split at h
  · cases h
    exact all
  · obtain ⟨table, ht, h⟩ := Logged.bind_eq_ok.mp h
    cases h
    exact TableTypes.forall_add all (values _ _ table (Logged.lift_eq_ok.mp ht))

theorem createTableTypes_each {identityType : TableRef} {tableTypes : List TableRef}
    (h : (o.createTableTypes m map c).value = .ok (identityType, tableTypes, c')) :
    c'.Each tableTypes P := by
  obtain ⟨types, ht, rfl, rfl, rfl⟩ := createTableTypes_cases h
  intro u hu
  have mem := List.mem_map_of_mem (f := (c.addAll types.tables).2.table) hu
  rw [c.map_table_addAll] at mem
  exact ⟨c.place_addAll hu, forall_tableTypesOf values rows ht _ mem⟩

end

theorem build_each (values : ∀ s sqlType table, o.simpleTableType s sqlType = .ok table → P table)
    (rows : ∀ map s table, (o.complexTableType? m map s).value = .ok (some table) → P table)
    (h : (o.build m c).value = .ok (db, c')) : c'.Each db.tableTypes P := by
  rw [build_eq] at h
  obtain ⟨map, _, h⟩ := Logged.bind_eq_ok.mp h
  obtain ⟨⟨plain, linked⟩, hp, h⟩ := Logged.bind_eq_ok.mp h
  obtain ⟨⟨tables, _⟩, _, hp⟩ := Logged.bind_eq_ok.mp hp
  cases hp
  cases hdialect : o.dialect with
  | ansi =>
    -- There are no table types.
    simp only [hdialect] at h
    cases h
    exact fun u hu => absurd hu (by simp)
  | sqlServer =>
    simp only [hdialect] at h
    obtain ⟨keyed, identityType, tableTypes, typed, d, _, htt, hd, rfl, rfl⟩ := complete_eq_ok h
    exact (ProcedureDraft.keeps_allTypes values).createProcedures
      (createTableTypes_each values (rows map) htt) hd

end Options
end Schemata
