import Schemata.Procedure.Derivation
import Schemata.Proofs.Procedure.Origin

/-!
# Faults of procedures

The derivation of procedures looks up no types and no identities. Where it stops, a classifier has
no name, or a table does not suit SQL Server.
-/
namespace Schemata

def procedureFamilies : List Family := [.mapping, .unsuited]

variable {families : List Family} {o : Options} {m : Model} {rules : ProcedureRules} {n : Naming}
  {c : Catalog} {t : TableRef} {model : ClassifierRef} {d : ProcedureDraft}

/-! ## Names and parameters -/

abbrev Model.Names (m : Model) (model : ClassifierRef) (families : List Family) : Prop :=
  (m.classifier model).name = "" → .mapping ∈ families

abbrev ProcedureRules.Suit (rules : ProcedureRules) (families : List Family) : Prop :=
  ∀ o, rules.source = .database o → o.factory.table ≠ .sqlServer → .unsuited ∈ families

theorem failsOnly_procedureName {query : QueryKind} {dependent : Option ColumnRef}
    (named : m.Names model families) (related : query = .updateRelationship → dependent.isSome) :
    FailsOnly families (n.procedureName m c query model dependent) := by
  rw [Naming.procedureName]
  split
  case isTrue nameless => exact .error (named nameless)
  case isFalse =>
    cases query
    case updateRelationship =>
      obtain ⟨key, rfl⟩ := Option.isSome_iff_exists.mp (related rfl)
      exact .ok _
    all_goals exact .ok _

theorem failsOnly_procedure {query : QueryKind} {parameters : List Parameter}
    {dependent : Option ColumnRef} (named : m.Names model families)
    (related : query = .updateRelationship → dependent.isSome) :
    FailsOnly families (rules.procedure m c query t model parameters dependent) :=
  (failsOnly_procedureName named related).bind fun _ _ => .ok _

theorem failsOnly_parameters {options : ParameterOptions} {table : Table} {filter : ColumnFilter} :
    FailsOnly families (options.parameters n m table filter).value := by
  refine Logged.failsOnly_bind (Logged.failsOnly_mapM fun column _ => ?_) fun _ _ => .ok _
  rw [ParameterOptions.parameter?]
  split
  · exact .ok _
  · split
    · split
      · exact .ok _
      · exact .ok _
    · exact .ok _

theorem failsOnly_simpleTableType {s : ClassifierRef} {sqlType : String}
    (suited : o.factory.table ≠ .sqlServer → .unsuited ∈ families) :
    FailsOnly families (o.simpleTableType s sqlType) := by
  rw [Options.simpleTableType]
  split
  case isTrue unsuited => exact .error (suited unsuited)
  case isFalse => exact .ok _

theorem failsOnly_listParameter {identity : ColumnRef} {index : Int}
    (suited : rules.Suit families) :
    FailsOnly families (rules.listParameter m d identity index).value := by
  refine Logged.failsOnly_bind ?_ fun _ _ => .ok _
  rw [ProcedureRules.listType]
  split
  · exact .ok _
  · split
    · exact .ok _
    · rename_i o source
      refine Logged.failsOnly_bind (failsOnly_simpleTableType (suited o source)) fun _ _ => ?_
      split <;> exact .ok _
    · exact .ok _

namespace ProcedureDraft

/-! ## Procedures of a table -/

theorem failsOnly_add (p : Procedure) : FailsOnly families (d.add p).value := by
  rw [add]
  split <;> exact .ok _

theorem failsOnly_requireIdentity {query : QueryKind} {x : Logged ProcedureDraft}
    (h : FailsOnly families x.value) :
    FailsOnly families (d.requireIdentity t query >>= fun identity => if identity then x
      else pure d).value := by
  refine Logged.failsOnly_bind ?_ fun identity _ => ?_
  · rw [requireIdentity]
    split <;> exact .ok _
  · split
    · exact h
    · exact .ok _

section
variable (named : m.Names model families) (suited : rules.Suit families)
include named suited

theorem failsOnly_addRelationshipUpdate {key : ColumnRef} :
    FailsOnly families (addRelationshipUpdate rules m t model d key).value := by
  rw [addRelationshipUpdate]
  split
  · exact .ok _
  · exact .ok _
  · refine Logged.failsOnly_bind (failsOnly_listParameter suited) fun listed _ => ?_
    refine Logged.failsOnly_bind (failsOnly_procedure named fun _ => rfl) fun p _ => ?_
    split
    · exact .ok _
    · exact Logged.failsOnly_bind (failsOnly_add p) fun _ _ => .ok _

theorem failsOnly_addWriter {p : Procedure} :
    FailsOnly families (d.addWriter rules m p t model).value := by
  refine Logged.failsOnly_bind (failsOnly_add p) fun ⟨added, d⟩ _ => ?_
  dsimp only
  split
  · exact Logged.failsOnly_foldlM fun _ _ _ => failsOnly_addRelationshipUpdate named suited
  · exact .ok _

theorem failsOnly_addKind {kind : ProcedureKind} :
    FailsOnly families (addKind rules m t model d kind).value := by
  cases kind with
  | insert =>
    exact Logged.failsOnly_bind failsOnly_parameters fun _ _ =>
      Logged.failsOnly_bind (failsOnly_procedure named nofun) fun _ _ =>
        failsOnly_addWriter named suited
  | updateById =>
    refine failsOnly_requireIdentity (Logged.failsOnly_bind failsOnly_parameters fun _ _ => ?_)
    exact Logged.failsOnly_bind (failsOnly_procedure named nofun) fun _ _ =>
      failsOnly_addWriter named suited
  | selectById =>
    refine failsOnly_requireIdentity (Logged.failsOnly_bind failsOnly_parameters fun _ _ => ?_)
    exact Logged.failsOnly_bind (failsOnly_procedure named nofun) fun _ _ =>
      Logged.failsOnly_bind (failsOnly_add _) fun _ _ => .ok _
  | deleteById =>
    refine failsOnly_requireIdentity (Logged.failsOnly_bind failsOnly_parameters fun _ _ => ?_)
    exact Logged.failsOnly_bind (failsOnly_procedure named nofun) fun _ _ =>
      Logged.failsOnly_bind (failsOnly_add _) fun _ _ => .ok _

end

theorem failsOnly_addTable {selection : ProcedureSelection}
    (named : ∀ model, (d.catalog.table t).source = some model → m.Names model families)
    (dialect : (d.catalog.table t).dialect ≠ .sqlServer → .unsuited ∈ families)
    (suited : rules.Suit families) :
    FailsOnly families (addTable rules m selection d t).value := by
  rw [addTable]
  split
  · exact .ok _
  · rename_i model source
    split
    case isTrue unsuited => exact .error (dialect unsuited)
    case isFalse => exact Logged.failsOnly_foldlM fun _ _ _ =>
      failsOnly_addKind (named model source) suited

end ProcedureDraft

theorem failsOnly_createProcedures (o : Options) (m : Model) (identityType : TableRef)
    (tables : List TableRef) (d : ProcedureDraft) :
    FailsOnly procedureFamilies (o.createProcedures m identityType tables d).completed.value := by
  have mapping : Family.mapping ∈ procedureFamilies := by decide
  have unsuited : Family.unsuited ∈ procedureFamilies := by decide
  rw [Options.createProcedures, Progress.completed_walk]
  exact Logged.failsOnly_foldlM fun _ _ _ =>
    ProcedureDraft.failsOnly_addTable (fun _ _ _ => mapping) (fun _ => unsuited) fun _ _ _ =>
      unsuited

/-- Procedures of tables that suit SQL Server, and whose classifiers have names, can always be
derived. -/
theorem exists_createProcedures (o : Options) (m : Model) (identityType : TableRef)
    {tables : List TableRef} (suited : o.factory.table = .sqlServer) (none : d.procedures = [])
    (bounded : ∀ t ∈ tables, t.place < d.catalog.tables.length)
    (named : ∀ t ∈ tables, ∀ model, (d.catalog.table t).source = some model →
      (m.classifier model).name ≠ "")
    (dialect : ∀ t ∈ tables, (d.catalog.table t).dialect = .sqlServer) :
    ∃ d', (o.createProcedures m identityType tables d).completed.value = .ok d' := by
  have never : FailsOnly [] (o.createProcedures m identityType tables d).completed.value := by
    rw [Options.createProcedures, Progress.completed_walk]
    refine Logged.failsOnly_foldlM_of_invariant
      (ProcedureDraft.Sound { naming := o.naming, identityType, source := .database o } m
        d.catalog tables)
      ⟨.refl _, by simp [none]⟩ (fun d t d' ht h ok => h.addTable ht (bounded t ht) ok)
        fun d' t ht h => ?_
    have same := h.grows.table (bounded t ht)
    refine ProcedureDraft.failsOnly_addTable (fun model source nameless => ?_)
      (fun unsuited => ?_) ?_
    · exact absurd nameless (named t ht model (same ▸ source))
    · exact absurd (same ▸ dialect t ht) unsuited
    · intro o' source unsuited
      obtain rfl := TableTypeSource.database.inj source
      exact absurd suited unsuited
  cases h : (o.createProcedures m identityType tables d).completed.value with
  | ok d' => exact ⟨d', rfl⟩
  | error e => exact absurd (never e h) List.not_mem_nil

end Schemata
