import Schemata.Procedure.Parameter
import Schemata.Proofs.Outcome

/-!
# Derived parameters

The parameters of a table always exist. Apart from their numbers they are those of its columns.
Inputs come first, in the order of the columns, and outputs last.
-/
namespace Schemata

def Parameter.unnumbered (p : Parameter) : Parameter := { p with index := 0 }

theorem map_unnumbered_zipIdx (parameters : List Parameter) (k : Nat) :
    ((parameters.zipIdx k).map fun (p, i) => { p with index := i : Parameter }).map
      Parameter.unnumbered = parameters.map Parameter.unnumbered := by
  induction parameters generalizing k with
  | nil => rfl
  | cons p rest ih =>
    rw [List.zipIdx_cons, List.map_cons, List.map_cons, ih, List.map_cons]
    rfl

theorem filter_isFilter_unnumbered (parameters : List Parameter) :
    (parameters.filter (·.isFilter)).map Parameter.unnumbered =
      (parameters.map Parameter.unnumbered).filter (·.isFilter) := by
  rw [List.filter_map]
  rfl

section
variable {parameters : List Parameter}

/-- Sorting only numbers parameters anew. -/
theorem unnumbered_sortParameters :
    (sortParameters parameters).map Parameter.unnumbered =
      (Direction.all.flatMap fun d => parameters.filter fun p => p.direction = d).map
        Parameter.unnumbered :=
  map_unnumbered_zipIdx _ 0

theorem mem_sortParameters {x : Parameter} :
    x ∈ (sortParameters parameters).map Parameter.unnumbered ↔
      x ∈ parameters.map Parameter.unnumbered := by
  have hall : ∀ p, p ∈ Direction.all.flatMap (fun d => parameters.filter fun p => p.direction = d) ↔
      p ∈ parameters := by
    intro p
    simp only [List.mem_flatMap, List.mem_filter, decide_eq_true_eq]
    refine ⟨fun ⟨_, _, hp, _⟩ => hp, fun hp => ⟨p.direction, ?_, hp, rfl⟩⟩
    cases p.direction <;> decide
  rw [unnumbered_sortParameters, List.mem_map, List.mem_map]
  simp only [hall]

theorem index_sortParameters {i : Nat} {p : Parameter}
    (h : (sortParameters parameters)[i]? = some p) :
    p.index = i := by
  rw [sortParameters, List.getElem?_map, List.getElem?_zipIdx, Option.map_map] at h
  obtain ⟨q, _, rfl⟩ := Option.map_eq_some_iff.mp h
  simp

theorem pairwise_sortParameters :
    (sortParameters parameters).Pairwise fun p q => p.direction.code ≤ q.direction.code := by
  -- Numbering changes no direction, so the order can be told of the parameters without their
  -- numbers.
  have hunnumbered (ps : List Parameter) :
      ps.Pairwise (fun p q => p.direction.code ≤ q.direction.code) ↔
        (ps.map Parameter.unnumbered).Pairwise fun p q => p.direction.code ≤ q.direction.code := by
    rw [List.pairwise_map]
    rfl
  have hcodes : Direction.all.Pairwise fun d d' => d.code ≤ d'.code := by decide
  rw [hunnumbered, unnumbered_sortParameters, ← hunnumbered, List.pairwise_flatMap]
  refine ⟨fun d _ => ?_, hcodes.imp fun hd p hp q hq => ?_⟩
  · refine List.pairwise_of_forall_mem_list fun p hp q hq => ?_
    simp only [List.mem_filter, decide_eq_true_eq] at hp hq
    exact Nat.le_of_eq (congrArg Direction.code (hp.2.trans hq.2.symm))
  · simp only [List.mem_filter, decide_eq_true_eq] at hp hq
    rwa [hp.2, hq.2]

/-- Inputs keep their order, and so do the outputs behind them. -/
theorem sortParameters_of_input_output
    (directions : ∀ p ∈ parameters, p.direction = .input ∨ p.direction = .output) :
    (sortParameters parameters).map Parameter.unnumbered =
      (parameters.filter (fun p => p.direction = .input) ++
        parameters.filter fun p => p.direction = .output).map Parameter.unnumbered := by
  have hother :
      ∀ d, d ≠ .input → d ≠ .output → parameters.filter (fun p => p.direction = d) = [] := by
    intro d hinput houtput
    rw [List.filter_eq_nil_iff]
    intro p hp hd
    obtain rfl := of_decide_eq_true hd
    exact (directions p hp).elim hinput houtput
  rw [unnumbered_sortParameters]
  simp [Direction.all, hother]

theorem sortParameters_of_input (inputs : ∀ p ∈ parameters, p.direction = .input) :
    (sortParameters parameters).map Parameter.unnumbered = parameters.map Parameter.unnumbered := by
  have hinput : parameters.filter (fun p => p.direction = .input) = parameters :=
    List.filter_eq_self.mpr fun p hp => decide_eq_true (inputs p hp)
  have houtput : parameters.filter (fun p => p.direction = .output) = [] :=
    List.filter_eq_nil_iff.mpr fun p hp => by simp [inputs p hp]
  rw [sortParameters_of_input_output fun p hp => .inl (inputs p hp), hinput, houtput,
    List.append_nil]

end

namespace ParameterOptions

variable {options : ParameterOptions} {n : Naming} {m : Model}

def parameterOf? (options : ParameterOptions) (n : Naming) (m : Model) (table : String)
    (column : Column) : Option Parameter :=
  if column.isMany then none
  else column.source.bind fun source =>
    if (m.property source).type.isSome then some (options.parameter n m table column source)
      else none

theorem parameter?_value (table : String) (column : Column) :
    (options.parameter? n m table column).value = .ok (options.parameterOf? n m table column) := by
  rw [parameter?, parameterOf?]
  by_cases hm : column.isMany
  · rw [if_pos hm, if_pos hm]
    rfl
  rw [if_neg hm, if_neg hm]
  cases hs : column.source with
  | none => rfl
  | some source =>
    simp only [Option.bind_some]
    split <;> rfl

theorem parameters_value (table : Table) (filter : ColumnFilter) :
    (options.parameters n m table filter).value = .ok (sortParameters
      ((options.select filter table.columns).filterMap (options.parameterOf? n m table.name))) := by
  refine Logged.bind_eq_ok.mpr
    ⟨(options.select filter table.columns).map (options.parameterOf? n m table.name), ?_, ?_⟩
  · rw [Logged.mapM_eq_ok, List.forall₂_map_right_iff, List.forall₂_same]
    exact fun column _ => parameter?_value table.name column
  · rw [List.filterMap_map]
    rfl

theorem parameterOf?_eq_some {table : String} {column : Column} {q : Parameter}
    (h : options.parameterOf? n m table column = some q) :
    column.isMany = false ∧ ∃ source, column.source = some source ∧
      q = options.parameter n m table column source := by
  rw [parameterOf?] at h
  split at h
  case isTrue => cases h
  case isFalse single =>
    obtain ⟨source, hs, h⟩ := Option.bind_eq_some_iff.mp h
    split at h
    · exact ⟨Bool.eq_false_iff.mpr single, source, hs, (Option.some.inj h).symm⟩
    · cases h

/-- The options of queries by identity: there are no outputs, and the identity restricts the
rows. -/
structure ByIdentity (options : ParameterOptions) : Prop where
  includeIdentity : options.includeIdentity = true
  identityAsOutput : options.identityAsOutput = false
  identityAsFilter : options.identityAsFilter = true

theorem ByIdentity.filter_select (h : options.ByIdentity) (columns : List Column) :
    (options.select (fun _ => true) columns).filter (·.isIdentity) =
      columns.filter (·.isIdentity) := by
  rw [select, List.filter_filter]
  refine List.filter_congr fun column _ => ?_
  cases hi : column.isIdentity with
  | false => simp
  | true => simp [includes, hi, h.includeIdentity]

theorem ByIdentity.direction (h : options.ByIdentity) {table : String} {column : Column}
    {q : Parameter} (hq : options.parameterOf? n m table column = some q) :
    q.direction = .input := by
  obtain ⟨_, source, _, rfl⟩ := parameterOf?_eq_some hq
  simp [parameter, h.identityAsOutput]

theorem ByIdentity.isFilter (h : options.ByIdentity) {table : String} {column : Column}
    {q : Parameter} (hq : options.parameterOf? n m table column = some q) :
    q.isFilter = column.isIdentity := by
  obtain ⟨_, source, _, rfl⟩ := parameterOf?_eq_some hq
  simp [parameter, h.identityAsFilter]

/-- Every parameter is an input, and those of the identity columns are the filters. -/
theorem ByIdentity.parameters (h : options.ByIdentity) {table : Table} {parameters : List Parameter}
    (ok : (options.parameters n m table fun _ => true).value = .ok parameters) :
    (∀ q ∈ parameters, q.direction = .input) ∧
      (parameters.filter (·.isFilter)).map Parameter.unnumbered =
        ((table.columns.filter (·.isIdentity)).filterMap
          (options.parameterOf? n m table.name)).map Parameter.unnumbered := by
  have hinput : ∀ q ∈ (options.select (fun _ => true) table.columns).filterMap
      (options.parameterOf? n m table.name), q.direction = .input := by
    intro q hq
    obtain ⟨column, _, hq⟩ := List.mem_filterMap.mp hq
    exact h.direction hq
  rw [parameters_value] at ok
  obtain rfl := Except.ok.inj ok
  have hsort := sortParameters_of_input hinput
  constructor
  · intro q hq
    have hm := List.mem_map_of_mem (f := Parameter.unnumbered) hq
    rw [hsort] at hm
    obtain ⟨q', hq', e⟩ := List.mem_map.mp hm
    exact (congrArg Parameter.direction e).symm.trans (hinput q' hq')
  · rw [filter_isFilter_unnumbered, hsort, ← filter_isFilter_unnumbered, ← h.filter_select]
    exact congrArg _ (filter_filterMap_of_eq (fun column q hq => h.isFilter hq) _)

end ParameterOptions

end Schemata
