import Schemata.Proofs.Procedure.ListTypes
import Schemata.Proofs.Procedure.Parameters
import Schemata.Proofs.Schema.Selection

/-!
# Proposed procedures

Which procedures the tables are to be given can be told from the tables and the table types alone.
Of the procedures with one name only the first is kept, and a procedure that is left out does not
bring those for the relationships of its table.
-/
namespace Schemata

def ParameterOptions.ofTable (options : ParameterOptions) (n : Naming) (m : Model) (table : Table) :
    List Parameter :=
  sortParameters
    ((options.select (fun _ => true) table.columns).filterMap (options.parameterOf? n m table.name))

namespace ProcedureKind

def query : ProcedureKind → QueryKind
  | .insert => .insert
  | .updateById => .update
  | .selectById => .selectSingle
  | .deleteById => .delete

def parameterOptions : ProcedureKind → ParameterOptions
  | .insert => { identityAsOutput := true }
  | .updateById => { identityAsFilter := true }
  | .selectById | .deleteById => { includeOther := false, identityAsFilter := true }

abbrev Suits (kind : ProcedureKind) (table : Table) : Prop :=
  kind = .insert ∨ table.identityColumn?.isSome

end ProcedureKind

/-- A procedure that a table is to be given, and those for the relationships of the table that come
with it. -/
structure Proposal where
  procedure : Procedure
  updates : List Procedure
  deriving DecidableEq, Repr

namespace ProcedureRules

variable (rules : ProcedureRules) (m : Model) (d : ProcedureDraft)

/-- The table type for lists of values: the one for identities if it holds them, and otherwise the
first that is named for their SQL type. -/
def listTypeOf (sqlType : String) : TableRef :=
  if (d.catalog.table rules.identityType).columns.head?.any fun column =>
    column.sqlType == sqlType then rules.identityType
  else
    (d.tableTypes.find? fun u => (d.catalog.table u).name ==
      rules.naming.simpleTableTypeName sqlType).getD
      rules.identityType

def valuesParameter (u : TableRef) (identity : ColumnRef) : Parameter :=
  let column := (d.catalog.column identity).name
  { name := rules.naming.parameterName column true
    index := 1
    sqlType := (d.catalog.table u).name
    column := some column
    modelType := (d.catalog.table u).source.map fun source => (m.classifier source).name
    isReadOnly := true
    isTableValued := true
    isMany := true
    tableType := some u }

/-- The procedure that replaces the rows that refer to a row by a foreign key. Rows of both tables
are told apart by their identities, so there is none without these. -/
def relationshipUpdate? (t : TableRef) (model : ClassifierRef) (key : ColumnRef) :
    Option Procedure := do
  let principal ← identityParameter? rules.naming m (d.catalog.table t) 0
  let identity ← d.catalog.identity? key.table
  let u := rules.listTypeOf d (d.catalog.column identity).sqlType
  (rules.procedure m d.catalog .updateRelationship t model
    [principal, rules.valuesParameter m d u identity] (some key)).toOption

def relationshipUpdates (t : TableRef) (model : ClassifierRef) : List Procedure :=
  (ResultSet.relationshipKeys d.catalog (d.catalog.table t)).filterMap
    (rules.relationshipUpdate? m d t model)

def resultSets (t : TableRef) (kind : ProcedureKind) : List ResultSet :=
  if kind = .selectById then
    [ResultSet.ofTable rules.naming m d.catalog (d.catalog.table t) fun _ => true] else []

/-- The procedure of a kind for a table that suits it. One that writes rows comes with those for the
relationships of the table. -/
def proposal? (t : TableRef) (model : ClassifierRef) (kind : ProcedureKind) : Option Proposal :=
  let table := d.catalog.table t
  if kind.Suits table then do
    let p ← (rules.procedure m d.catalog kind.query t model
      (kind.parameterOptions.ofTable rules.naming m table)
      none).toOption
    some {
      procedure := { p with resultSets := rules.resultSets m d t kind }
      updates := if p.isWriter then rules.relationshipUpdates m d t model else [] }
  else none

/-- What a table is to be given, in the order of the selected kinds; a table without a classifier
gets nothing. -/
def proposalsOf (selection : ProcedureSelection) (t : TableRef) : List Proposal :=
  match (d.catalog.table t).source with
  | none => []
  | some model =>
    (selection.kindsFor m model (d.catalog.table t)).filterMap (rules.proposal? m d t model)

def proposals (selection : ProcedureSelection) (tables : List TableRef) : List Proposal :=
  tables.flatMap (rules.proposalsOf m d selection)

end ProcedureRules

namespace Procedure

variable {p q : Procedure} {procedures : List Procedure} {name : String}

abbrev Taken (procedures : List Procedure) (name : String) : Prop := ∃ p ∈ procedures, p.name = name

def offer (procedures : List Procedure) (p : Procedure) : List Procedure :=
  if Taken procedures p.name then procedures else procedures ++ [p]

def firstOfEachName (procedures : List Procedure) : List Procedure :=
  procedures.eraseDupsBy fun p q => p.name == q.name

theorem taken_concat : Taken (procedures ++ [p]) name ↔ Taken procedures name ∨ p.name = name := by
  simp [Taken, or_and_right, exists_or]

theorem foldl_offer_loop (procedures accepted : List Procedure) :
    procedures.foldl offer accepted.reverse =
      List.eraseDupsBy.loop (fun p q => p.name == q.name) procedures accepted := by
  induction procedures generalizing accepted with
  | nil => rfl
  | cons p rest ih =>
    have taken :
        (accepted.any fun q => p.name == q.name) = true ↔ Taken accepted.reverse p.name := by
      simp only [Taken, List.any_eq_true, List.mem_reverse, beq_iff_eq]
      exact exists_congr fun q => and_congr_right fun _ => eq_comm
    rw [List.foldl_cons, List.eraseDupsBy.loop, offer]
    split
    case isTrue h =>
      rw [taken.mpr h]
      exact ih accepted
    case isFalse h =>
      rw [Bool.eq_false_iff.mpr (mt taken.mp h), ← List.reverse_cons]
      exact ih (p :: accepted)

theorem foldl_offer : procedures.foldl offer [] = firstOfEachName procedures :=
  foldl_offer_loop procedures []

theorem firstOfEachName_append {more : List Procedure} :
    firstOfEachName (procedures ++ more) = more.foldl offer (firstOfEachName procedures) := by
  rw [← foldl_offer, List.foldl_append, foldl_offer]

theorem firstOfEachName_concat :
    firstOfEachName (procedures ++ [p]) = offer (firstOfEachName procedures) p :=
  firstOfEachName_append

theorem taken_firstOfEachName :
    Taken (firstOfEachName procedures) name ↔ Taken procedures name := by
  induction procedures using List.reverseRecOn with
  | nil => rfl
  | append_singleton procedures p ih =>
    rw [firstOfEachName_concat, offer, taken_concat, ← ih]
    split
    case isTrue taken =>
      refine ⟨.inl, fun either => either.elim id ?_⟩
      rintro rfl
      exact taken
    case isFalse => exact taken_concat

theorem mem_firstOfEachName :
    p ∈ firstOfEachName procedures ↔ procedures.find? (fun q => q.name == p.name) = some p := by
  induction procedures using List.reverseRecOn with
  | nil => simp [firstOfEachName]
  | append_singleton procedures q ih =>
    rw [firstOfEachName_concat, offer, List.find?_append]
    have found : (procedures.find? fun r => r.name == p.name).isSome ↔ Taken procedures p.name := by
      simp [Taken, List.find?_isSome]
    split
    case isTrue taken =>
      rw [ih]
      cases hf : procedures.find? fun r => r.name == p.name with
      | some r => rfl
      | none =>
        have differ : q.name ≠ p.name := by
          intro e
          rw [taken_firstOfEachName, e, ← found, hf] at taken
          cases taken
        simp [differ]
    case isFalse new =>
      rw [List.mem_append, ih, List.mem_singleton]
      cases hf : procedures.find? fun r => r.name == p.name with
      | some r =>
        have differ : p ≠ q := by
          rintro rfl
          exact new (taken_firstOfEachName.mpr (found.mp (by rw [hf]; rfl)))
        simp [differ]
      | none =>
        simp only [Option.none_or, List.find?_singleton, reduceCtorEq, false_or,
          Option.ite_none_right_eq_some, beq_iff_eq, Option.some.injEq]
        exact ⟨fun e => ⟨by rw [e], e.symm⟩, fun same => same.2.symm⟩

theorem exists_mem_firstOfEachName {before after : List Procedure}
    (h : procedures = before ++ p :: after) :
    p ∈ firstOfEachName procedures ∨ ∃ q ∈ firstOfEachName procedures, q ∈ before ∧
      q.name = p.name := by
  cases hf : before.find? fun q => q.name == p.name with
  | none =>
    refine .inl (mem_firstOfEachName.mpr ?_)
    simp [h, List.find?_append, hf]
  | some q =>
    have same : q.name = p.name := by simpa using List.find?_some hf
    refine .inr ⟨q, mem_firstOfEachName.mpr ?_, List.mem_of_find?_eq_some hf, same⟩
    rw [h, same, List.find?_append, hf]
    rfl

theorem nodup_firstOfEachName : ((firstOfEachName procedures).map (·.name)).Nodup := by
  induction procedures using List.reverseRecOn with
  | nil => exact List.nodup_nil
  | append_singleton procedures p ih =>
    rw [firstOfEachName_concat, offer]
    split
    case isTrue => exact ih
    case isFalse new =>
      rw [List.map_append, List.map_singleton, ← List.concat_eq_append]
      exact ih.concat fun hm => new (List.mem_map.mp hm)

end Procedure

namespace Proposal

variable {x : Proposal} {proposals : List Proposal} {before : List Procedure} {p : Procedure}

/-- Adds a procedure and then those that come with it, unless its name is taken. -/
def enter (procedures : List Procedure) (x : Proposal) : List Procedure :=
  if Procedure.Taken procedures x.procedure.name then procedures
  else x.updates.foldl Procedure.offer (procedures ++ [x.procedure])

/-- What a proposal adds to the candidates before it: its procedure, and if the name is new, those
that come with it. -/
def candidates (before : List Procedure) (x : Proposal) : List Procedure :=
  x.procedure :: if Procedure.Taken before x.procedure.name then [] else x.updates

def allCandidates (before : List Procedure) : List Proposal → List Procedure
  | [] => []
  | x :: rest => x.candidates before ++ allCandidates (before ++ x.candidates before) rest

theorem enter_firstOfEachName : enter (Procedure.firstOfEachName before) x =
    Procedure.firstOfEachName (before ++ x.candidates before) := by
  rw [enter, candidates, Procedure.firstOfEachName_append, List.foldl_cons, Procedure.offer]
  simp only [Procedure.taken_firstOfEachName]
  split <;> rfl

/-- Entering proposals one after the other keeps the first candidate of each name. -/
theorem foldl_enter (before : List Procedure) :
    proposals.foldl enter (Procedure.firstOfEachName before) =
    Procedure.firstOfEachName (before ++ allCandidates before proposals) := by
  induction proposals generalizing before with
  | nil => simp [allCandidates]
  | cons x rest ih =>
    rw [List.foldl_cons, enter_firstOfEachName, ih, allCandidates, List.append_assoc]

/-- A procedure that writes rows and is the first candidate of its name is followed by those that
come with it. -/
theorem exists_followed {front back : List Procedure}
    (plain : ∀ x ∈ proposals, ∀ u ∈ x.updates, u.isWriter = false)
    (h : allCandidates before proposals = front ++ p :: back) (writes : p.isWriter = true)
    (new : ¬ Procedure.Taken (before ++ front) p.name) :
    ∃ x ∈ proposals, x.procedure = p ∧ ∃ further, back = x.updates ++ further := by
  induction proposals generalizing before front with
  | nil => simp [allCandidates] at h
  | cons x rest ih =>
    rw [allCandidates] at h
    have later (front' : List Procedure) (hfront : front = x.candidates before ++ front')
        (hrest : allCandidates (before ++ x.candidates before) rest = front' ++ p :: back) :
        ∃ y ∈ x :: rest, y.procedure = p ∧ ∃ further, back = y.updates ++ further := by
      rw [hfront, ← List.append_assoc] at new
      obtain ⟨y, hy, found⟩ := ih (fun y hy => plain y (by simp [hy])) hrest new
      exact ⟨y, by simp [hy], found⟩
    rcases List.append_eq_append_iff.mp h with ⟨between, hfront, hrest⟩ | ⟨between, hown, hback⟩
    · exact later between hfront hrest
    rcases List.cons_eq_append_iff.mp hback with ⟨rfl, hrest⟩ | ⟨updates, rfl, hupdates⟩
    · exact later [] (by simpa using hown.symm) hrest
    rw [candidates] at hown
    rcases List.cons_eq_append_iff.mp hown with ⟨rfl, hp⟩ | ⟨front, rfl, hp⟩
    · obtain ⟨rfl, rfl⟩ := List.cons.inj hp
      rw [List.append_nil] at new
      rw [if_neg new] at hupdates
      exact ⟨x, by simp, rfl, _, hupdates⟩
    · -- What comes with a proposal does not write rows.
      have mem : p ∈ x.updates := by
        split at hp
        · simp at hp
        · simp [hp]
      rw [plain x (by simp) p mem] at writes
      cases writes

end Proposal

end Schemata
