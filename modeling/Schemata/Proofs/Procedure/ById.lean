import Schemata.Proofs.Database
import Schemata.Proofs.Document.Written
import Schemata.Proofs.Model.Loaded
import Schemata.Proofs.Procedure.Parameters
import Schemata.Proofs.Schema.Identity

/-!
# Procedures by identity

A procedure that updates, deletes or selects by identity is restricted to one row exactly if the
attribute of the identity column has a type. Without a type the column has no parameter, and the
procedure concerns all rows.
-/
namespace Schemata
open Text

def Statement.conditions : Statement → List Condition
  | .update _ _ conditions | .delete _ conditions | .select _ _ _ conditions => conditions
  | .insert .. | .storeIdentity _ | .detach _ | .attach _ => []

/-- The statement only concerns the rows in which a column has the value of a parameter. -/
structure Statement.Restricts (s : Statement) (column : QualifiedColumn) (parameter : String) :
    Prop where
  conditions : s.conditions = [{ column, parameter }]
  text : ∃ before, s.text = before ++ s!"\nWHERE {column.text} = {parameterName parameter};"

def QueryKind.isById : QueryKind → Bool
  | .update | .delete | .selectSingle => true
  | .insert | .updateRelationship => false

def Parameter.StandsFor (q : Parameter) (table : String) (column : Column) : Prop :=
  q.table = some table ∧ q.column = some column.name ∧ q.property = column.source ∧
    q.isIdentity = column.isIdentity

/-- The only filter is the identity, and every statement is restricted by it. -/
def Procedure.RestrictedById (p : Procedure) (c : Catalog) (identity : Column) : Prop :=
  ∃ q statements, p.parameters.filter (·.isFilter) = [q] ∧
    q.StandsFor (c.table p.table).name identity ∧
    (p.body c).value = .ok statements ∧
    ∀ s ∈ statements, s.Restricts ⟨(c.table p.table).name, identity.name⟩ q.name

/-- There is no filter, and every statement concerns all rows. -/
def Procedure.Unrestricted (p : Procedure) (c : Catalog) : Prop :=
  ∃ statements, p.parameters.filter (·.isFilter) = [] ∧ (p.body c).value = .ok statements ∧
    ∀ s ∈ statements, s.conditions = []

def Procedure.texts (p : Procedure) (c : Catalog) : Option (List String) :=
  (p.body c).value.toOption.map fun statements => statements.map Statement.text

theorem restricts_of_text {s : Statement} {column : QualifiedColumn} {parameter before : String}
    (conditions : s.conditions = [{ column, parameter }])
    (text : s.text = before ++ whereText s.conditions ++ ";") : s.Restricts column parameter := by
  refine ⟨conditions, before, ?_⟩
  rw [text, conditions]
  simp only [whereText, Condition.text, List.isEmpty_cons, Bool.false_eq_true, if_false,
    List.map_cons, List.map_nil, String.intercalate_singleton, String.append_assoc]
  rfl

theorem given_some (text fallback : String) :
    given (some text) fallback = if text = "" then fallback else text := by
  unfold given
  split <;> simp_all

namespace Procedure

variable {p : Procedure} {c : Catalog} {q : Parameter} {identity : Column} {table : String}

theorem condition_of_standsFor (h : q.StandsFor table identity) (named : identity.name ≠ "")
    (required : q.isNullable = false) :
    condition table q = { column := ⟨table, identity.name⟩, parameter := q.name } := by
  rw [condition, h.1, h.2.1, given_some, given_some, ite_self, if_neg named, required]

theorem filters_of_input (inputs : ∀ q ∈ p.parameters, q.direction = .input) :
    p.filters = p.parameters.filter (·.isFilter) := by
  have hinputs : p.inputs = p.parameters := by
    refine List.filter_eq_self.mpr fun q hq => ?_
    simp [Parameter.isInput, inputs q hq]
  rw [filters, hinputs]

/-- Every statement of a query by identity has the filters as its conditions, and ends in them. -/
theorem conditions_of_mem_body (byId : p.query.isById = true)
    (rows : p.query = .selectSingle → p.resultSets ≠ [])
    (inputs : ∀ q ∈ p.parameters, q.direction = .input) :
    ∃ statements, (p.body c).value = .ok statements ∧ ∀ s ∈ statements,
      s.conditions = (p.parameters.filter (·.isFilter)).map (condition (c.table p.table).name) ∧
        ∃ before, s.text = before ++ whereText s.conditions ++ ";" := by
  rw [body]
  cases hq : p.query with
  | insert =>
    rw [hq] at byId
    cases byId
  | updateRelationship =>
    rw [hq] at byId
    cases byId
  | update =>
    refine ⟨_, rfl, fun s hs => ?_⟩
    simp only [updateBody, filters_of_input inputs] at hs
    split at hs
    · cases hs
    · rw [List.mem_singleton.mp hs]
      exact ⟨rfl, _, rfl⟩
  | delete =>
    refine ⟨_, rfl, fun s hs => ?_⟩
    simp only [deleteBody, filters_of_input inputs] at hs
    rw [List.mem_singleton.mp hs]
    exact ⟨rfl, _, rfl⟩
  | selectSingle =>
    cases hr : p.resultSets with
    | nil => exact absurd hr (rows hq)
    | cons columns further =>
      simp only [selectBody, hr]
      refine ⟨_, rfl, fun s hs => ?_⟩
      rw [List.mem_singleton.mp hs]
      exact ⟨rfl, _, rfl⟩

theorem Origin.byId {n : Naming} {m : Model} {t : TableRef} (origin : p.Origin n m c t)
    (byId : p.query.isById = true) : p.table = t ∧ (c.table t).identityColumn?.isSome ∧
      (p.query = .selectSingle → p.resultSets ≠ []) ∧
      ∃ options : ParameterOptions, options.ByIdentity ∧
        (options.parameters n m (c.table t) fun _ => true).value = .ok p.parameters := by
  cases origin with
  | insert => cases byId
  | relationship => cases byId
  | update identity columns => exact ⟨rfl, identity, by simp, _, ⟨rfl, rfl, rfl⟩, columns⟩
  | delete identity columns => exact ⟨rfl, identity, by simp, _, ⟨rfl, rfl, rfl⟩, columns⟩
  | select identity columns => exact ⟨rfl, identity, by simp, _, ⟨rfl, rfl, rfl⟩, columns⟩

theorem parameterOf?_of_identifies {o : Options} {m : Model} {s : ClassifierRef}
    {source : PropertyRef} (identifies : o.Identifies m s source identity)
    (options : ParameterOptions) (table : String) :
    options.parameterOf? o.naming m table identity =
      if (m.property source).type.isSome then
        some (options.parameter o.naming m table identity source) else none := by
  rw [ParameterOptions.parameterOf?, identifies.single, identifies.source]
  rfl

section
variable {options : ParameterOptions} {n : Naming} {m : Model} {source : PropertyRef}
  {column : Column}

theorem standsFor_of_unnumbered (hs : column.source = some source)
    (e : q.unnumbered = (options.parameter n m table column source).unnumbered) :
    q.StandsFor table column :=
  ⟨congrArg Parameter.table e, congrArg Parameter.column e,
    (congrArg Parameter.property e).trans hs.symm, congrArg Parameter.isIdentity e⟩

theorem required_of_unnumbered (hi : column.isIdentity = true)
    (e : q.unnumbered = (options.parameter n m table column source).unnumbered) :
    q.isNullable = false := by
  refine (congrArg Parameter.isNullable e).trans ?_
  simp [ParameterOptions.parameter, Parameter.unnumbered, hi]

end

/-- A query by identity is restricted to a row if the identity has a type, and not at all
otherwise. -/
theorem Origin.restricted {o : Options} {m : Model} {t : TableRef} {s : ClassifierRef}
    {source : PropertyRef} (origin : p.Origin o.naming m c t) (byId : p.query.isById = true)
    (only : (c.table t).columns.filter (·.isIdentity) = [identity])
    (identifies : o.Identifies m s source identity) :
    ((m.property source).type.isSome = true → p.RestrictedById c identity) ∧
      ((m.property source).type.isSome = false → p.Unrestricted c) := by
  obtain ⟨rfl, _, rows, options, hoptions, hparameters⟩ := origin.byId byId
  obtain ⟨inputs, hfilters⟩ := hoptions.parameters hparameters
  obtain ⟨statements, hbody, hstatements⟩ := conditions_of_mem_body (c := c) byId rows inputs
  have hidentity : identity.isIdentity = true :=
    (List.mem_filter.mp (only ▸ List.mem_singleton_self identity)).2
  have hparameter := parameterOf?_of_identifies identifies options (c.table p.table).name
  rw [only] at hfilters
  constructor
  · intro typed
    rw [if_pos typed] at hparameter
    rw [List.filterMap_cons_some hparameter, List.filterMap_nil, List.map_singleton,
      List.map_eq_singleton_iff] at hfilters
    obtain ⟨q, hq, e⟩ := hfilters
    have stands := standsFor_of_unnumbered identifies.source e
    have required := required_of_unnumbered hidentity e
    refine ⟨q, statements, hq, stands, hbody, fun s hs => ?_⟩
    obtain ⟨conditions, _, text⟩ := hstatements s hs
    rw [hq, List.map_singleton,
      condition_of_standsFor stands identifies.named required] at conditions
    exact restricts_of_text conditions text
  · intro untyped
    rw [untyped, if_neg Bool.false_ne_true] at hparameter
    rw [List.filterMap_cons_none hparameter, List.filterMap_nil, List.map_nil,
      List.map_eq_nil_iff] at hfilters
    refine ⟨statements, hfilters, hbody, fun s hs => ?_⟩
    rw [(hstatements s hs).1, hfilters, List.map_nil]

theorem Origin.identified {o : Options} {m : Model} {map : RelationshipMap}
    {definition : TableDefinition} {t : TableRef} {s : ClassifierRef}
    {own further : List DerivedColumn} (origin : p.Origin o.naming m c t)
    (made : o.Made m map definition (c.table t) s own further) (byId : p.query.isById = true) :
    p.table = t ∧ ∃ identity source,
      (c.table t).identityColumn? = some identity ∧
      (c.table t).columns.filter (·.isIdentity) = [identity] ∧ o.Identifies m s source identity ∧
      ((m.property source).type.isSome = true → p.RestrictedById c identity) ∧
      ((m.property source).type.isSome = false → p.Unrestricted c) := by
  obtain ⟨htable, some, _⟩ := origin.byId byId
  obtain ⟨hfilter, hfirst⟩ := made.identityColumn?
  obtain ⟨identity, hidentity⟩ := Option.isSome_iff_exists.mp some
  rw [hidentity] at hfilter hfirst
  cases hfind : (m.classifier s).attributes.find? (m.identifies s) with
  | none =>
    rw [hfind] at hfirst
    cases hfirst
  | some source =>
    rw [hfind] at hfirst
    obtain ⟨_, e, identifies⟩ := hfirst
    obtain rfl := Option.some.inj e
    exact ⟨htable, identity, source, hidentity, hfilter, identifies,
      origin.restricted byId hfilter identifies⟩

theorem Unrestricted.not_restrictedById (h : p.Unrestricted c) : ¬ p.RestrictedById c identity := by
  rintro ⟨q, _, hq, _⟩
  obtain ⟨_, hfilters, _⟩ := h
  rw [hfilters] at hq
  cases hq

end Procedure

namespace Options

variable {o : Options} {m : Model} {map : RelationshipMap} {c c' : Catalog} {db : Database}
  {definition : TableRef → TableDefinition} {p : Procedure}

theorem Completed.restricted (h : o.Completed m map db c definition) (hp : p ∈ db.procedures)
    (byId : p.query.isById = true) :
    p.table ∈ db.tables ∧ ∃ identity source,
      (c.table p.table).identityColumn? = some identity ∧ identity.source = some source ∧
      ((m.property source).type.isSome = true → p.RestrictedById c identity) ∧
      ((m.property source).type.isSome = false → p.Unrestricted c) := by
  obtain ⟨t, ht, origin⟩ := h.procedures p hp
  obtain ⟨s, own, further, made⟩ := h.derived.made ht
  obtain ⟨rfl, identity, source, hidentity, _, identifies, restricted⟩ :=
    origin.identified made byId
  exact ⟨ht, identity, source, hidentity, identifies.source, restricted⟩

/-- A derived procedure that updates, deletes or selects by identity is restricted to the rows of an
identity exactly if the attribute of the identity column has a type. Otherwise it concerns all
rows. -/
theorem build_restrictedById_iff (o : Options) (sqlServer : o.dialect = .sqlServer) (m : Model)
    (loaded : m.Loaded) (c : Catalog) (db : Database) (c' : Catalog)
    (h : (o.build m c).value = .ok (db, c')) (p : Procedure) (hp : p ∈ db.procedures)
    (byId : p.query.isById = true) :
    p.table ∈ db.tables ∧ ∃ identity source,
      (c'.table p.table).identityColumn? = some identity ∧ identity.source = some source ∧
      (p.RestrictedById c' identity ↔ (m.property source).type.isSome = true) ∧
      ((m.property source).type.isSome = false → p.Unrestricted c') := by
  rw [build_eq] at h
  obtain ⟨map, _, h⟩ := Logged.bind_eq_ok.mp h
  obtain ⟨definition, completed⟩ := buildWith_eq_ok sqlServer loaded.wellFormed.distinct h
  obtain ⟨ht, identity, source, hi, hs, typed, untyped⟩ := completed.restricted hp byId
  refine ⟨ht, identity, source, hi, hs, ⟨fun restricted => ?_, typed⟩, untyped⟩
  by_contra none
  exact (untyped (Bool.eq_false_iff.mpr none)).not_restrictedById restricted

/-- The identity of the classifier has a type. -/
theorem build_restrictedById_typed :
    let o := (of .sqlServer).addProcedures .deleteById none
    let document : ModelDocument := { name := "m", classifiers := [
      { id := "a", name := "A", attributes := [.identity "Id" "integer"] }] }
    ∃ m db c' p, Model.ofDatum document.write = .ok m ∧ (o.build m {}).value = .ok (db, c') ∧
      db.procedures = [p] ∧ p.query.isById = true ∧
      p.texts c' = some ["DELETE FROM [A]\nWHERE [A].[Id] = @Id;"] ∧
      p.table ∈ db.tables ∧ ∃ identity source,
        (c'.table p.table).identityColumn? = some identity ∧ identity.source = some source ∧
        (p.RestrictedById c' identity ↔ (m.property source).type.isSome = true) ∧
        ((m.property source).type.isSome = false → p.Unrestricted c') := by
  intro o document
  have hrun : o.observe document (fun _ db c' =>
      .ok (db.procedures.map fun p : Procedure => (p.query, p.texts c'))) =
      .ok [(QueryKind.delete, some ["DELETE FROM [A]\nWHERE [A].[Id] = @Id;"])] := by
    decide +kernel
  obtain ⟨m, db, c', hm, hb, hrun⟩ := observe_eq_ok.mp hrun
  obtain ⟨p, hp, e⟩ := List.map_eq_singleton_iff.mp (Except.ok.inj hrun)
  have hp : db.procedures = [p] := hp
  obtain ⟨hq, hbody⟩ := Prod.mk.inj e
  have byId : p.query.isById = true := by rw [hq]; rfl
  exact ⟨m, db, c', p, hm, hb, hp, byId, hbody,
    build_restrictedById_iff o rfl m (.document hm) {} db c' hb p (by simp [hp]) byId⟩

/-- The identity of the classifier has no type: the procedure that deletes a row by its identity has
no parameter and deletes all rows. -/
theorem not_restrictedById_untyped :
    let o := (of .sqlServer).addProcedures .deleteById none
    let document : ModelDocument := { name := "m", classifiers := [
      { id := "a", name := "A", attributes := [{ name := "Id", isId := true }] }] }
    ∃ m db c' p identity, m.Loaded ∧ Model.ofDatum document.write = .ok m ∧
      (o.build m {}).value = .ok (db, c') ∧ p ∈ db.procedures ∧ p.query.isById = true ∧
      (c'.table p.table).identityColumn? = some identity ∧ ¬ p.RestrictedById c' identity ∧
      p.parameters = [] ∧ p.texts c' = some ["DELETE FROM [A];"] := by
  intro o document
  have hrun : o.observe document (fun _ db c' =>
      .ok (db.procedures.map fun p : Procedure => (p.query.isById && p.parameters.isEmpty &&
        (c'.table p.table).identityColumn?.isSome, p.texts c'))) =
      .ok [(true, some ["DELETE FROM [A];"])] := by
    decide +kernel
  obtain ⟨m, db, c', hm, hb, hrun⟩ := observe_eq_ok.mp hrun
  obtain ⟨p, hp, e⟩ := List.map_eq_singleton_iff.mp (Except.ok.inj hrun)
  have hp : db.procedures = [p] := hp
  simp only [Prod.mk.injEq, Bool.and_eq_true] at e
  obtain ⟨⟨⟨hq, hparameters⟩, hi⟩, hbody⟩ := e
  obtain ⟨identity, hidentity⟩ := Option.isSome_iff_exists.mp hi
  refine ⟨m, db, c', p, identity, .document hm, hm, hb, by simp [hp], hq, hidentity, ?_,
    List.isEmpty_iff.mp hparameters, hbody⟩
  rintro ⟨q, _, hfilters, _⟩
  rw [List.isEmpty_iff.mp hparameters] at hfilters
  cases hfilters

end Options

end Schemata
