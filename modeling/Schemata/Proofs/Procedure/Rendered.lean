import Schemata.Proofs.Document.Written
import Schemata.Proofs.Procedure.Insertion
import Schemata.Proofs.Procedure.Listed
import Schemata.Proofs.Script

/-!
# Rendered procedures

What is looked up when a procedure is rendered was there when it was derived. So every script of a
database can be generated, no procedure is left without its body, and what a body mentions is there:
the parameters are declared, and the columns are those of the table that it is applied to.
-/
namespace Schemata

namespace Statement

/-- The table whose rows a statement adds, changes, removes or selects. -/
def target? : Statement → Option String
  | .insert table _ | .update table _ _ | .delete table _ | .select table _ _ _ => some table
  | .storeIdentity _ => none
  | .detach u | .attach u => some u.table

def parameters : Statement → List String
  | .insert _ cells => cells.map (·.parameter)
  | .storeIdentity parameter => [parameter]
  | .update _ cells conditions => cells.map (·.parameter) ++ conditions.map (·.parameter)
  | .delete _ conditions | .select _ _ _ conditions => conditions.map (·.parameter)
  | .detach u | .attach u => [u.principalParameter, u.valuesParameter]

def columns : Statement → List QualifiedColumn
  | .insert table cells => cells.map fun a => ⟨table, a.column⟩
  | .storeIdentity _ => []
  | .update table cells conditions =>
    cells.map (fun a => ⟨table, a.column⟩) ++ conditions.map (·.column)
  | .delete _ conditions => conditions.map (·.column)
  | .select _ columns joins conditions =>
    columns.map (fun r => ⟨r.sourceTable, r.sourceColumn⟩) ++
      joins.flatMap (fun j => [⟨j.label, j.key⟩, j.principal]) ++ conditions.map (·.column)
  | .detach u | .attach u => [⟨u.table, u.key⟩, ⟨u.table, u.identity⟩]

/-- The statement is applied to a table: it only mentions columns of the table and declared
parameters. -/
structure AppliesTo (s : Statement) (table : Table) (declared : List Parameter) : Prop where
  target : ∀ name ∈ s.target?, name = table.name
  parameters : ∀ name ∈ s.parameters, ∃ q ∈ declared, q.name = name
  columns : ∀ place ∈ s.columns, place.table = table.name ∧
    ∃ column ∈ table.columns, column.name = place.column

end Statement

namespace Procedure

def target (p : Procedure) : TableRef :=
  match p.query, p.dependent with
  | .updateRelationship, some key => key.table
  | _, _ => p.table

/-- The statements by which the listed rows, told apart by an identity column, and no others refer
to a row. -/
def replacement (c : Catalog) (key : ColumnRef) (identity : Column) (principal values : Parameter)
    (value : Column) : List Statement :=
  let update : RelationshipUpdate :=
    { table := (c.table key.table).name
      key := (c.column key).name
      identity := identity.name
      principalParameter := principal.name
      valueColumn := value.name
      valuesParameter := values.name }
  [.detach update, .attach update]

/-- The rows of the dependent's table are found by its identity column, and their identities are the
values of the first column of the table type that the list has. -/
def Replaces (p : Procedure) (c : Catalog) (statements : List Statement) : Prop :=
  ∃ key identity principal values u value, p.dependent = some key ∧
    (c.table key.table).identityColumn? = some identity ∧ p.parameters = [principal, values] ∧
    values.tableType = some u ∧ (c.table u).columns.head? = some value ∧
    statements = replacement c key identity principal values value

/-- The procedure has a body without a report. Only an update that has nothing to write does
nothing. -/
structure Rendered (p : Procedure) (db : Database) (c : Catalog) (statements : List Statement) :
    Prop where
  body : p.body c = pure statements
  empty : statements = [] ↔ p.query = .update ∧ ∀ q ∈ p.parameters, q.isFilter = true
  target : p.target ∈ db.tables
  applies : p.query ≠ .selectSingle → ∀ s ∈ statements, s.AppliesTo (c.table p.target) p.parameters
  relationship : p.query = .updateRelationship → p.Replaces c statements

def StandFor (parameters : List Parameter) (table : Table) : Prop :=
  ∀ q ∈ parameters, ∃ column ∈ table.columns, column.name ≠ "" ∧ q.StandsFor table.name column

variable {p : Procedure} {c : Catalog} {table : Table} {parameters inputs : List Parameter}
  {q : Parameter} {db : Database}

theorem assignment?_eq_some {a : Assignment} (h : assignment? q = some a) :
    q.column = some a.column ∧ q.name = a.parameter := by
  rw [assignment?] at h
  split at h
  · cases h
  · cases h
  · rename_i hc
    cases h
    exact ⟨hc, rfl⟩

theorem inputs_subset : p.inputs ⊆ p.parameters := List.filter_subset_self _

theorem filters_subset : p.filters ⊆ p.parameters :=
  List.Subset.trans (List.filter_subset_self _) inputs_subset

theorem StandFor.cell (stand : StandFor parameters table) (subset : inputs ⊆ parameters)
    {a : Assignment} (ha : a ∈ inputs.filterMap assignment?) :
    (∃ q ∈ parameters, q.name = a.parameter) ∧
    ∃ column ∈ table.columns, column.name = a.column := by
  obtain ⟨q, hq, ha⟩ := List.mem_filterMap.mp ha
  obtain ⟨hcolumn, name⟩ := assignment?_eq_some ha
  obtain ⟨column, hc, _, stands⟩ := stand q (subset hq)
  exact ⟨⟨q, subset hq, name⟩, column, hc, Option.some.inj (stands.2.1.symm.trans hcolumn)⟩

theorem StandFor.condition (stand : StandFor parameters table) (subset : inputs ⊆ parameters)
    {x : Condition} (hx : x ∈ inputs.map (condition table.name)) :
    (∃ q ∈ parameters, q.name = x.parameter) ∧ x.column.table = table.name ∧
      ∃ column ∈ table.columns, column.name = x.column.column := by
  obtain ⟨q, hq, rfl⟩ := List.mem_map.mp hx
  obtain ⟨column, hc, named, stands⟩ := stand q (subset hq)
  refine ⟨⟨q, subset hq, rfl⟩, ?_, column, hc, ?_⟩
  · rw [Procedure.condition, stands.1, given_some, ite_self]
  · rw [Procedure.condition, stands.2.1, given_some, if_neg named]

theorem StandFor.appliesTo (stand : StandFor parameters table) {written filters : List Parameter}
    (hw : written ⊆ parameters) (hf : filters ⊆ parameters) {s : Statement}
    (target : s.target? = some table.name)
    (hp : s.parameters = (written.filterMap assignment?).map (·.parameter) ++
      (filters.map (Procedure.condition table.name)).map (·.parameter))
    (hc : s.columns = (written.filterMap assignment?).map (fun a => ⟨table.name, a.column⟩) ++
      (filters.map (Procedure.condition table.name)).map (·.column)) :
    s.AppliesTo table parameters := by
  refine ⟨fun name hn => ?_, fun name hn => ?_, fun place hplace => ?_⟩
  · exact Option.some.inj ((Option.mem_def.mp hn).symm.trans target)
  · rw [hp] at hn
    rcases List.mem_append.mp hn with hn | hn
    · obtain ⟨a, ha, rfl⟩ := List.mem_map.mp hn
      exact (stand.cell hw ha).1
    · obtain ⟨x, hx, rfl⟩ := List.mem_map.mp hn
      exact (stand.condition hf hx).1
  · rw [hc] at hplace
    rcases List.mem_append.mp hplace with hplace | hplace
    · obtain ⟨a, ha, rfl⟩ := List.mem_map.mp hplace
      exact ⟨rfl, (stand.cell hw ha).2⟩
    · obtain ⟨x, hx, rfl⟩ := List.mem_map.mp hplace
      exact (stand.condition hf hx).2

theorem insertBody_appliesTo (stand : StandFor p.parameters (c.table p.table)) :
    ∀ s ∈ p.insertBody c, s.AppliesTo (c.table p.table) p.parameters := by
  intro s hs
  rcases List.mem_cons.mp hs with rfl | hs
  · exact stand.appliesTo inputs_subset (List.nil_subset _) rfl (List.append_nil _).symm
      (List.append_nil _).symm
  · obtain ⟨q, hq, rfl⟩ := List.mem_map.mp hs
    refine ⟨fun name hn => (nomatch hn), fun name hn => ?_, fun place hp => (nomatch hp)⟩
    exact ⟨q, (List.mem_filter.mp hq).1, (List.mem_singleton.mp hn).symm⟩

theorem updateBody_appliesTo (stand : StandFor p.parameters (c.table p.table)) :
    ∀ s ∈ p.updateBody c, s.AppliesTo (c.table p.table) p.parameters := by
  have written : (p.inputs.filter fun q => !q.isFilter) ⊆ p.parameters :=
    List.Subset.trans (List.filter_subset_self _) inputs_subset
  intro s hs
  simp only [updateBody] at hs
  split at hs
  · cases hs
  · obtain rfl := List.mem_singleton.mp hs
    exact stand.appliesTo written filters_subset rfl rfl rfl

theorem deleteBody_appliesTo (stand : StandFor p.parameters (c.table p.table)) :
    ∀ s ∈ p.deleteBody c, s.AppliesTo (c.table p.table) p.parameters := by
  intro s hs
  obtain rfl := List.mem_singleton.mp hs
  exact stand.appliesTo (List.nil_subset _) filters_subset rfl rfl rfl

theorem updateBody_eq_nil_iff (stand : StandFor p.parameters (c.table p.table))
    (inputs : ∀ q ∈ p.parameters, q.direction = .input) :
    p.updateBody c = [] ↔ ∀ q ∈ p.parameters, q.isFilter = true := by
  have hcells : p.updateBody c = [] ↔
      (p.inputs.filter fun q => !q.isFilter).filterMap assignment? = [] := by
    simp only [updateBody]
    split
    case isTrue h => simp [List.isEmpty_iff.mp h]
    case isFalse h => simpa using h
  rw [hcells, List.filterMap_eq_nil_iff]
  constructor
  · intro none q hq
    by_contra written
    obtain ⟨column, _, named, stands⟩ := stand q hq
    have hinput : q ∈ p.inputs := List.mem_filter.mpr ⟨hq, by simp [Parameter.isInput, inputs q hq]⟩
    have hnone := none q (List.mem_filter.mpr ⟨hinput, by simpa using written⟩)
    rw [assignment?_of_column stands.2.1 named] at hnone
    cases hnone
  · intro filters q hq
    obtain ⟨hq, written⟩ := List.mem_filter.mp hq
    rw [filters q (List.mem_filter.mp hq).1] at written
    cases written

theorem Origin.own {n : Naming} {m : Model} {t : TableRef} (origin : p.Origin n m c t)
    (own : p.query ≠ .updateRelationship) : p.table = t ∧
      (p.query = .selectSingle → p.resultSets ≠ []) ∧
      ∃ options : ParameterOptions, (p.query = .update → options.ByIdentity) ∧
        (options.parameters n m (c.table t) fun _ => true).value = .ok p.parameters := by
  cases origin with
  | insert columns => exact ⟨rfl, by simp, _, by simp, columns⟩
  | update _ columns => exact ⟨rfl, by simp, _, fun _ => ⟨rfl, rfl, rfl⟩, columns⟩
  | delete _ columns => exact ⟨rfl, by simp, _, by simp, columns⟩
  | select _ columns => exact ⟨rfl, by simp, _, by simp, columns⟩
  | relationship => exact absurd rfl own

theorem target_of_own (own : p.query ≠ .updateRelationship) : p.target = p.table := by
  rw [target]
  split
  case h_1 hq _ => exact absurd hq own
  case h_2 => rfl

theorem relationshipBody_eq {key : ColumnRef} {identity value : Column}
    {principal values : Parameter} {u : TableRef} (dependent : p.dependent = some key)
    (identified : (c.table key.table).identityColumn? = some identity)
    (parameters : p.parameters = [principal, values]) (identifies : principal.isIdentity = true)
    (plain : principal.isTableValued = false) (tableValued : values.isTableValued = true)
    (tableType : values.tableType = some u) (hvalue : (c.table u).columns.head? = some value) :
    p.relationshipBody c = pure (replacement c key identity principal values value) := by
  have hprincipal :
      p.parameters.find? (·.isIdentity) = some principal := by simp [parameters, identifies]
  have hvalues : p.parameters.find? (·.isTableValued) = some values := by
    simp [parameters, plain, tableValued]
  have htype : valueColumn? c values = some value := by
    rw [valueColumn?, tableType]
    exact hvalue
  simp only [relationshipBody, dependent, identified, hprincipal, hvalues, htype]
  rfl

theorem replacement_appliesTo {key : ColumnRef} {identity value : Column}
    {principal values : Parameter} (hkey : c.column key ∈ (c.table key.table).columns)
    (hidentity : identity ∈ (c.table key.table).columns) :
    ∀ s ∈ replacement c key identity principal values value,
      s.AppliesTo (c.table key.table) [principal, values] := by
  have both : ∀ s ∈ replacement c key identity principal values value,
      s.target? = some (c.table key.table).name ∧ s.parameters = [principal.name, values.name] ∧
        s.columns = [⟨(c.table key.table).name, (c.column key).name⟩,
          ⟨(c.table key.table).name, identity.name⟩] := by
    simp [Statement.target?, Statement.parameters, Statement.columns, replacement]
  intro s hs
  obtain ⟨target, parameters, columns⟩ := both s hs
  refine ⟨fun name hn => ?_, fun name hn => ?_, fun place hp => ?_⟩
  · rw [target] at hn
    exact (Option.some.inj hn).symm
  · rw [parameters] at hn
    simpa [eq_comm] using hn
  · rw [columns] at hp
    rcases List.mem_pair.mp hp with rfl | rfl
    · exact ⟨rfl, _, hkey, rfl⟩
    · exact ⟨rfl, _, hidentity, rfl⟩

end Procedure

/-- A column that is marked as that of a one-to-many relationship is not beyond the columns of its
table. -/
theorem Catalog.column_mem {c : Catalog} {key : ColumnRef} (many : (c.column key).isMany = true) :
    c.column key ∈ (c.table key.table).columns := by
  rw [Catalog.column, List.getD_eq_getElem?_getD] at many ⊢
  cases hc : (c.table key.table).columns[key.position]? with
  | none =>
    rw [hc] at many
    cases many
  | some column => exact List.mem_of_getElem? hc

namespace Options

variable {o : Options} {m : Model} {map : RelationshipMap} {c : Catalog} {db : Database}
  {identityType : TableRef} {p : Procedure}

theorem Assembled.own (h : o.Assembled m map db c identityType) (hp : p ∈ db.procedures)
    (own : p.query ≠ .updateRelationship) : p.table ∈ db.tables ∧
      (p.query = .selectSingle → p.resultSets ≠ []) ∧
      (p.query = .update → ∀ q ∈ p.parameters, q.direction = .input) ∧
      Procedure.StandFor p.parameters (c.table p.table) := by
  obtain ⟨t, ht, origin⟩ := h.procedures p hp
  obtain ⟨rfl, rows, options, byId, ok⟩ := origin.own own
  obtain ⟨definition, s, own, further, made⟩ := h.made _ ht
  refine ⟨ht, rows, fun update => ((byId update).parameters ok).1, fun q hq => ?_⟩
  obtain ⟨column, hc, single, stands⟩ := ParameterOptions.standsFor_of_mem ok hq
  exact ⟨column, hc, made.named hc single, stands⟩

/-- The bodies of these procedures only depend on their parameters; a selection also has its
rows. -/
theorem Assembled.rendered_own (h : o.Assembled m map db c identityType) (hp : p ∈ db.procedures)
    (own : p.query ≠ .updateRelationship) : ∃ statements, p.Rendered db c statements := by
  obtain ⟨ht, rows, inputs, stand⟩ := h.own hp own
  have target := Procedure.target_of_own own
  cases hq : p.query with
  | insert =>
    refine ⟨p.insertBody c, ?_, by simp [Procedure.insertBody, hq], target ▸ ht, fun _ => ?_,
      by simp [hq]⟩
    · rw [Procedure.body, hq]
    · rw [target]
      exact Procedure.insertBody_appliesTo stand
  | update =>
    refine ⟨p.updateBody c, ?_, ?_, target ▸ ht, fun _ => ?_, by simp [hq]⟩
    · rw [Procedure.body, hq]
    · rw [Procedure.updateBody_eq_nil_iff stand (inputs hq), hq]
      simp
    · rw [target]
      exact Procedure.updateBody_appliesTo stand
  | delete =>
    refine ⟨p.deleteBody c, ?_, by simp [Procedure.deleteBody, hq], target ▸ ht, fun _ => ?_,
      by simp [hq]⟩
    · rw [Procedure.body, hq]
    · rw [target]
      exact Procedure.deleteBody_appliesTo stand
  | selectSingle =>
    obtain ⟨columns, further, hr⟩ := List.exists_cons_of_ne_nil (rows hq)
    have hbody : ∃ s, p.body c = pure [s] := by
      rw [Procedure.body, hq]
      simp only [Procedure.selectBody, hr]
      exact ⟨_, rfl⟩
    obtain ⟨s, hbody⟩ := hbody
    exact ⟨[s], hbody, by simp [hq], target ▸ ht, by simp [hq], by simp [hq]⟩
  | updateRelationship => exact absurd hq own

/-- The list of an update of a relationship is of a table type that has a column. -/
theorem Assembled.rendered_relationship (h : o.Assembled m map db c identityType)
    (separate : Separate (o.consideredShapes m c db.procedures)) (hp : p ∈ db.procedures)
    (update : p.query = .updateRelationship) : ∃ statements, p.Rendered db c statements := by
  obtain ⟨key, identity, principal, values, u, lists⟩ := h.lists p hp update
  obtain ⟨t, ht, origin⟩ := h.procedures p hp
  obtain rfl := origin.table
  have hkey := h.closed.owner ht lists.mem_keys
  have hidentity := Catalog.identityColumn?_of_identity? lists.identified
  obtain ⟨plain, identifies⟩ := isTableValued_identityParameter? lists.principal
  -- A table type that was found by name has a single column; the one for identities was compared by
  -- its first.
  have hvalue : ∃ value, (c.table u).columns.head? = some value := by
    rcases lists.holds with name | ⟨rfl, fits⟩
    · obtain ⟨value, hv⟩ := h.types.single separate lists.mem_tableTypes lists.mem_shapes rfl name
      exact ⟨value, by rw [hv, List.head?_cons]⟩
    · refine Option.ne_none_iff_exists'.mp fun none => ?_
      rw [none] at fits
      cases fits
  obtain ⟨value, hvalue⟩ := hvalue
  have htarget : p.target = key.table := by rw [Procedure.target, update, lists.dependent]
  have hbody :
      p.body c = pure (Procedure.replacement c key (c.column identity) principal values value) := by
    rw [Procedure.body, update]
    exact Procedure.relationshipBody_eq lists.dependent hidentity lists.parameters identifies plain
      lists.tableValued lists.tableType hvalue
  refine ⟨_, hbody, by simp [update, Procedure.replacement], htarget ▸ hkey, fun _ => ?_,
    fun _ => ?_⟩
  · rw [htarget, lists.parameters]
    have hcolumn := Catalog.column_mem (List.mem_filter.mp lists.mem_keys).2
    exact Procedure.replacement_appliesTo hcolumn (List.mem_of_find?_eq_some hidentity)
  · exact ⟨key, _, principal, values, u, value, lists.dependent, hidentity, lists.parameters,
      lists.tableType, hvalue, rfl⟩

/-- Every script of a database can be generated. Every procedure declares its parameters in its
signature and has its body behind it, without a report; what a body other than a selection mentions
is there, and an update of a relationship finds the rows by their identity column. -/
theorem build_rendered (o : Options) (sqlServer : o.dialect = .sqlServer) (m : Model) (c : Catalog)
    (db : Database) (c' : Catalog) (h : (o.build m c).value = .ok (db, c'))
    (separate : Separate (o.consideredShapes m c' db.procedures)) :
    (∀ options, db.Scripted c' options) ∧
      ∀ p ∈ db.procedures, (∀ q ∈ p.parameters, p.InSignature q) ∧
        ∃ statements, p.Rendered db c' statements ∧ p.create c' = pure (p.script statements) := by
  obtain ⟨map, identityType, _, assembled⟩ := build_assembled sqlServer h
  have rendered : ∀ p ∈ db.procedures, ∃ statements, p.Rendered db c' statements := by
    intro p hp
    by_cases hq : p.query = .updateRelationship
    · exact assembled.rendered_relationship separate hp hq
    · exact assembled.rendered_own hp hq
  refine ⟨fun options => Database.scripted (fun t ht => exists_create (assembled.keys t ht))
    fun p hp => ?_, fun p hp => ⟨fun q _ => p.inSignature q, ?_⟩⟩
  · obtain ⟨statements, hp⟩ := rendered p hp
    exact ⟨statements, hp.body⟩
  · obtain ⟨statements, hp⟩ := rendered p hp
    exact ⟨statements, hp, Procedure.create_eq hp.body⟩

/-- There is a procedure for every query. The table with the identity alone has nothing to update,
and the list of dependents is of a table type that is only added for it. -/
theorem build_rendered_replaced :
    let o := of .sqlServer |>.addProcedures .insert none |>.addProcedures .updateById none
      |>.addProcedures .selectById none |>.addProcedures .deleteById none
      |>.addTableTypes fun _ _ => true
    let document : ModelDocument := { name := "m", classifiers := [
      { id := "a", name := "A", attributes := [.identity "Id" "integer", .many "bs" "b"] },
      { id := "b", name := "B", attributes := [.identity "Key" "uuid", .of "title" "string"] }] }
    let texts : List (String × Option (List String)) := [
      ("InsertA", some ["INSERT INTO [A] DEFAULT VALUES;", "SET @Id = SCOPE_IDENTITY();"]),
      ("UpdateAbs", some [
        "DELETE [B] WHERE [Id_bs] = @Id AND [Key] NOT IN (SELECT [Value] FROM @KeyTable);",
        "UPDATE [B] SET [Id_bs] = @Id WHERE [Key] IN (SELECT [Value] FROM @KeyTable);"]),
      ("UpdateA", some []),
      ("SelectAById", some [
        "SELECT\n[A].[Id],\n[bs].[Key] AS [bs_Key],\n[bs].[title] AS [bs_title]\nFROM [A]\n" ++
          "LEFT JOIN [B] AS [bs] ON [bs].[Id_bs] = [A].[Id]\nWHERE [A].[Id] = @Id;"]),
      ("DeleteAById", some ["DELETE FROM [A]\nWHERE [A].[Id] = @Id;"]),
      ("InsertB", some ["INSERT INTO [B] ([Key], [title])\nVALUES (@Key, @title);"]),
      ("UpdateB", some ["UPDATE [B] SET\n[title] = @title\nWHERE [B].[Key] = @Key;"]),
      ("SelectBById", some ["SELECT\n[B].[Key],\n[B].[title]\nFROM [B]\nWHERE [B].[Key] = @Key;"]),
      ("DeleteBById", some ["DELETE FROM [B]\nWHERE [B].[Key] = @Key;"])]
    ∃ m db c', Model.ofDatum document.write = .ok m ∧ (o.build m {}).value = .ok (db, c') ∧
      Separate (o.consideredShapes m c' db.procedures) ∧
      (db.procedures.map fun p => (p.name, p.texts c')) = texts ∧
      (∀ options, db.Scripted c' options) ∧
      ∀ p ∈ db.procedures, (∀ q ∈ p.parameters, p.InSignature q) ∧
        ∃ statements, p.Rendered db c' statements ∧ p.create c' = pure (p.script statements) := by
  intro o document texts
  have hrun : o.observe document (fun m db c' =>
      .ok (decide (Separate (o.consideredShapes m c' db.procedures) ∧
        (db.procedures.map fun p : Procedure => (p.name, p.texts c')) = texts))) =
      .ok true := by
    decide +kernel
  obtain ⟨m, db, c', hm, hb, hrun⟩ := observe_eq_ok.mp hrun
  obtain ⟨separate, rendered⟩ := of_decide_eq_true (Except.ok.inj hrun)
  exact ⟨m, db, c', hm, hb, separate, rendered, build_rendered o rfl m {} db c' hb separate⟩

end Options

end Schemata
