import Schemata.Procedure.Derivation
import Schemata.Proofs.Outcome

/-!
# The origin of procedures

Every derived procedure was made for one of the tables, from the columns the table had at first:
while procedures are derived, a catalog only grows.
-/
namespace Schemata
namespace Catalog

variable {c c' c'' : Catalog}

def Grows (c c' : Catalog) : Prop := ∃ more, c'.tables = c.tables ++ more

theorem Grows.refl (c : Catalog) : c.Grows c := ⟨[], (List.append_nil _).symm⟩

theorem Grows.trans (h : c.Grows c') (h' : c'.Grows c'') : c.Grows c'' := by
  obtain ⟨more, h⟩ := h
  obtain ⟨more', h'⟩ := h'
  exact ⟨more ++ more', by rw [h', h, List.append_assoc]⟩

theorem grows_add (c : Catalog) (table : Table) : c.Grows (c.add table).2 := ⟨[table], rfl⟩

theorem grows_addAll (c : Catalog) (tables : List Table) : c.Grows (c.addAll tables).2 :=
  ⟨tables, rfl⟩

theorem Grows.lt_length (h : c.Grows c') {place : Nat} (bounded : place < c.tables.length) :
    place < c'.tables.length := by
  obtain ⟨more, h⟩ := h
  rw [h, List.length_append]
  omega

theorem Grows.table (h : c.Grows c') {t : TableRef} (bounded : t.place < c.tables.length) :
    c'.table t = c.table t := by
  obtain ⟨more, h⟩ := h
  rw [Catalog.table, Catalog.table, h, List.getD_eq_getElem?_getD, List.getD_eq_getElem?_getD,
    List.getElem?_append_left bounded]

end Catalog

variable {rules : ProcedureRules} {m : Model} {c : Catalog} {tables : List TableRef} {t : TableRef}
  {model : ClassifierRef} {d d' : ProcedureDraft} {p : Procedure}

/-- What the procedures of a table are made from. -/
inductive Procedure.Origin (n : Naming) (m : Model) (c : Catalog) (t : TableRef) : Procedure → Prop
  | insert {model : ClassifierRef} {name : String} {parameters : List Parameter}
    (columns : (ParameterOptions.parameters { identityAsOutput := true } n m (c.table t)
      fun _ => true).value = .ok parameters) :
    Origin n m c t { name, query := .insert, model := some model, table := t, parameters }
  | update {model : ClassifierRef} {name : String} {parameters : List Parameter}
    (identity : (c.table t).identityColumn?.isSome)
    (columns : (ParameterOptions.parameters { identityAsFilter := true } n m (c.table t)
      fun _ => true).value = .ok parameters) :
    Origin n m c t { name, query := .update, model := some model, table := t, parameters }
  | delete {model : ClassifierRef} {name : String} {parameters : List Parameter}
    (identity : (c.table t).identityColumn?.isSome)
    (columns : (ParameterOptions.parameters { includeOther := false, identityAsFilter := true }
      n m (c.table t) fun _ => true).value = .ok parameters) :
    Origin n m c t { name, query := .delete, model := some model, table := t, parameters }
  | select {model : ClassifierRef} {name : String} {parameters : List Parameter} {rows : ResultSet}
    (identity : (c.table t).identityColumn?.isSome)
    (columns : (ParameterOptions.parameters { includeOther := false, identityAsFilter := true }
      n m (c.table t) fun _ => true).value = .ok parameters) :
    Origin n m c t
      { name, query := .selectSingle, model := some model, table := t, parameters,
        resultSets := [rows] }
  | relationship {model : ClassifierRef} {name : String} {principal values : Parameter}
    {key : ColumnRef} (identity : identityParameter? n m (c.table t) 0 = some principal) :
    Origin n m c t
      { name, query := .updateRelationship, model := some model, table := t,
        parameters := [principal, values], dependent := some key }

theorem Procedure.Origin.table {n : Naming} (origin : p.Origin n m c t) : p.table = t := by
  cases origin <;> rfl

theorem Procedure.Origin.congr {n : Naming} {c' : Catalog} (h : c'.table t = c.table t)
    (origin : p.Origin n m c t) : p.Origin n m c' t := by
  cases origin with
  | insert columns => exact .insert (h ▸ columns)
  | update identity columns => exact .update (h ▸ identity) (h ▸ columns)
  | delete identity columns => exact .delete (h ▸ identity) (h ▸ columns)
  | select identity columns => exact .select (h ▸ identity) (h ▸ columns)
  | relationship identity => exact .relationship (h ▸ identity)

def Procedure.isWriter (p : Procedure) : Bool := p.query == .insert || p.query == .update

namespace ProcedureDraft

/-- The tables are as they were at first, and each procedure was made for one of them. -/
structure Sound (rules : ProcedureRules) (m : Model) (c : Catalog) (tables : List TableRef)
    (d : ProcedureDraft) : Prop where
  grows : c.Grows d.catalog
  origin : ∀ p ∈ d.procedures, ∃ t ∈ tables, p.Origin rules.naming m c t

theorem procedure_eq_ok {query : QueryKind} {parameters : List Parameter}
    {dependent : Option ColumnRef}
    (h : rules.procedure m c query t model parameters dependent = .ok p) :
    ∃ name, p = { name, query, model := some model, table := t, parameters, dependent } := by
  obtain ⟨name, _, h⟩ := bind_eq_ok.mp h
  cases h
  exact ⟨name, rfl⟩

theorem Sound.add {added : Bool} (h : d.Sound rules m c tables)
    (origin : ∃ t ∈ tables, p.Origin rules.naming m c t) (ok : (d.add p).value = .ok (added, d')) :
    d'.Sound rules m c tables := by
  rw [ProcedureDraft.add] at ok
  split at ok
  · cases ok
    exact h
  · cases ok
    refine ⟨h.grows, fun q hq => ?_⟩
    rcases List.mem_append.mp hq with hq | hq
    · exact h.origin q hq
    · rw [List.mem_singleton.mp hq]
      exact origin

/-- Looking up a table type for a list may add one, and does nothing else. -/
theorem listType_eq_ok {identity : ColumnRef} {u : TableRef}
    (ok : (rules.listType m d identity).value = .ok (u, d')) :
    d.catalog.Grows d'.catalog ∧ d'.procedures = d.procedures := by
  have same : d.catalog.Grows d.catalog ∧ d.procedures = d.procedures := ⟨.refl _, rfl⟩
  rw [ProcedureRules.listType] at ok
  split at ok
  · cases ok
    exact same
  · split at ok
    · cases ok
      exact same
    · obtain ⟨table, _, ok⟩ := Logged.bind_eq_ok.mp ok
      split at ok
      · cases ok
        exact same
      · cases ok
        exact ⟨Catalog.grows_add _ _, rfl⟩
    · cases ok
      exact same

theorem Sound.listParameter {identity : ColumnRef} {index : Int} {q : Parameter}
    (h : d.Sound rules m c tables)
    (ok : (rules.listParameter m d identity index).value = .ok (q, d')) :
    d'.Sound rules m c tables := by
  obtain ⟨⟨u, d₁⟩, hu, ok⟩ := Logged.bind_eq_ok.mp ok
  cases ok
  obtain ⟨grows, procedures⟩ := listType_eq_ok hu
  exact ⟨h.grows.trans grows, procedures ▸ h.origin⟩

theorem requireIdentity_value {query : QueryKind} :
    (d.requireIdentity t query).value = .ok (d.catalog.table t).identityColumn?.isSome := by
  rw [requireIdentity]
  split
  case isTrue found =>
    rw [found]
    rfl
  case isFalse missing =>
    rw [Bool.eq_false_iff.mpr missing]
    rfl

theorem eq_or_identity {query : QueryKind} {make : Logged ProcedureDraft}
    (ok : (do if ← d.requireIdentity t query then make else return d : Logged _).value = .ok d') :
    ¬ (d.catalog.table t).identityColumn?.isSome ∧ d' = d ∨
      (d.catalog.table t).identityColumn?.isSome ∧ make.value = .ok d' := by
  obtain ⟨found, hf, ok⟩ := Logged.bind_eq_ok.mp ok
  obtain rfl := Except.ok.inj (requireIdentity_value.symm.trans hf)
  split at ok
  case isTrue identity => exact .inr ⟨identity, ok⟩
  case isFalse missing =>
    cases ok
    exact .inl ⟨missing, rfl⟩

/-- What is added for a kind of procedures: nothing, a procedure, or one that writes rows and those
for the relationships of the table. -/
theorem addKind_cases {kind : ProcedureKind}
    (ok : (d.addKind rules m t model kind).value = .ok d') :
    d' = d ∨ ∃ p, p.Origin rules.naming m d.catalog t ∧ p.query ≠ .updateRelationship ∧
      ((p.isWriter = true ∧ (d.addWriter rules m p t model).value = .ok d') ∨
        ∃ added, (d.add p).value = .ok (added, d')) := by
  cases kind with
  | insert =>
    obtain ⟨parameters, hc, ok⟩ := Logged.bind_eq_ok.mp ok
    obtain ⟨p, hp, ok⟩ := Logged.bind_eq_ok.mp ok
    obtain ⟨name, rfl⟩ := procedure_eq_ok (Logged.lift_eq_ok.mp hp)
    exact .inr ⟨_, .insert hc, by simp, .inl ⟨rfl, ok⟩⟩
  | updateById =>
    rcases eq_or_identity ok with ⟨_, rfl⟩ | ⟨identity, ok⟩
    · exact .inl rfl
    obtain ⟨parameters, hc, ok⟩ := Logged.bind_eq_ok.mp ok
    obtain ⟨p, hp, ok⟩ := Logged.bind_eq_ok.mp ok
    obtain ⟨name, rfl⟩ := procedure_eq_ok (Logged.lift_eq_ok.mp hp)
    exact .inr ⟨_, .update identity hc, by simp, .inl ⟨rfl, ok⟩⟩
  | selectById =>
    rcases eq_or_identity ok with ⟨_, rfl⟩ | ⟨identity, ok⟩
    · exact .inl rfl
    obtain ⟨parameters, hc, ok⟩ := Logged.bind_eq_ok.mp ok
    obtain ⟨p, hp, ok⟩ := Logged.bind_eq_ok.mp ok
    obtain ⟨⟨added, d₁⟩, ha, ok⟩ := Logged.bind_eq_ok.mp ok
    cases ok
    obtain ⟨name, rfl⟩ := procedure_eq_ok (Logged.lift_eq_ok.mp hp)
    exact .inr ⟨_, .select identity hc, by simp, .inr ⟨added, ha⟩⟩
  | deleteById =>
    rcases eq_or_identity ok with ⟨_, rfl⟩ | ⟨identity, ok⟩
    · exact .inl rfl
    obtain ⟨parameters, hc, ok⟩ := Logged.bind_eq_ok.mp ok
    obtain ⟨p, hp, ok⟩ := Logged.bind_eq_ok.mp ok
    obtain ⟨⟨added, d₁⟩, ha, ok⟩ := Logged.bind_eq_ok.mp ok
    cases ok
    obtain ⟨name, rfl⟩ := procedure_eq_ok (Logged.lift_eq_ok.mp hp)
    exact .inr ⟨_, .delete identity hc, by simp, .inr ⟨added, ha⟩⟩

section
variable (h : d.Sound rules m c tables) (ht : t ∈ tables) (bounded : t.place < c.tables.length)
include h ht bounded

theorem Sound.addRelationshipUpdate {key : ColumnRef}
    (ok : (d.addRelationshipUpdate rules m t model key).value = .ok d') :
    d'.Sound rules m c tables := by
  rw [ProcedureDraft.addRelationshipUpdate] at ok
  split at ok
  case h_1 =>
    cases ok
    exact h
  case h_2 =>
    cases ok
    exact h
  case h_3 principal identity hp _ =>
    obtain ⟨⟨values, d₁⟩, hv, ok⟩ := Logged.bind_eq_ok.mp ok
    obtain ⟨q, hq, ok⟩ := Logged.bind_eq_ok.mp ok
    have h₁ := h.listParameter hv
    split at ok
    · cases ok
      exact h₁
    · obtain ⟨⟨added, d₂⟩, ha, ok⟩ := Logged.bind_eq_ok.mp ok
      cases ok
      obtain ⟨name, rfl⟩ := procedure_eq_ok (Logged.lift_eq_ok.mp hq)
      rw [h.grows.table bounded] at hp
      exact h₁.add ⟨t, ht, .relationship hp⟩ ha

theorem Sound.addWriter (origin : p.Origin rules.naming m c t)
    (ok : (d.addWriter rules m p t model).value = .ok d') : d'.Sound rules m c tables := by
  obtain ⟨⟨added, d₁⟩, ha, ok⟩ := Logged.bind_eq_ok.mp ok
  have h₁ := h.add ⟨t, ht, origin⟩ ha
  cases added with
  | false =>
    cases ok
    exact h₁
  | true =>
    exact Logged.foldlM_induction (P := Sound rules m c tables) ok h₁
      fun d key d' _ h ok => h.addRelationshipUpdate ht bounded ok

theorem Sound.addKind {kind : ProcedureKind}
    (ok : (d.addKind rules m t model kind).value = .ok d') : d'.Sound rules m c tables := by
  have same := (h.grows.table bounded).symm
  rcases addKind_cases ok with rfl | ⟨p, origin, _, ⟨_, ok⟩ | ⟨added, ok⟩⟩
  · exact h
  · exact h.addWriter ht bounded (origin.congr same) ok
  · exact h.add ⟨t, ht, origin.congr same⟩ ok

theorem Sound.addTable {selection : ProcedureSelection}
    (ok : (d.addTable rules m selection t).value = .ok d') : d'.Sound rules m c tables := by
  rw [ProcedureDraft.addTable] at ok
  split at ok
  · cases ok
    exact h
  · split at ok
    · cases ok
    · exact Logged.foldlM_induction (P := Sound rules m c tables) ok h
        fun d kind d' _ h ok => h.addKind ht bounded ok

end

end ProcedureDraft

theorem Options.createProcedures_sound {o : Options} {identityType : TableRef}
    (bounded : ∀ t ∈ tables, t.place < d.catalog.tables.length) (none : d.procedures = [])
    (ok : (o.createProcedures m identityType tables d).completed.value = .ok d') :
    d'.Sound { naming := o.naming, identityType, source := .database o } m d.catalog tables := by
  rw [createProcedures, Progress.completed_walk] at ok
  refine Logged.foldlM_induction
    (P := ProcedureDraft.Sound { naming := o.naming, identityType, source := .database o }
      m d.catalog tables) ok ⟨.refl _, by simp [none]⟩ ?_
  exact fun d t d' ht h ok => h.addTable ht (bounded t ht) ok

end Schemata
