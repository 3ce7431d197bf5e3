import Mathlib.Data.List.Induction
import Mathlib.Data.List.Nodup
import Schemata.Database
import Schemata.Document.Resolve
import Schemata.Proofs.Document.Written
import Schemata.Proofs.Outcome

/-!
# Selections that grow

The selectors of a kind of procedures form a union, and a call without a selector selects all
tables. As a kind without selectors is derived for all tables too, the first selector after such a
call restricts the kind to its own tables. No other call takes a table away.
-/
namespace Schemata

/-- A call that widens the selection of a kind of procedures, by a selector or to all tables. -/
abbrev SelectionCall := ProcedureKind × Option TableSelector

namespace ProcedureSelection

variable {s : ProcedureSelection} {kind other : ProcedureKind} {m : Model} {c : ClassifierRef}
  {table : Table} {f : List TableSelector → List TableSelector}
  {kinds : List (ProcedureKind × List TableSelector)} {selectors : List TableSelector}
  {selector : Option TableSelector} {calls : List SelectionCall}

def kindsFor (s : ProcedureSelection) (m : Model) (c : ClassifierRef) (table : Table) :
    List ProcedureKind :=
  (s.kinds.filter fun k => selects k.2 m c table).map Prod.fst

def Distinct (s : ProcedureSelection) : Prop := (s.kinds.map Prod.fst).Nodup

theorem lookup_update : (update kind f kinds).lookup other =
    if other = kind then some (f ((kinds.lookup kind).getD [])) else kinds.lookup other := by
  induction kinds with
  | nil => by_cases h : other = kind <;> simp [update, h]
  | cons k rest ih =>
    obtain ⟨k, selectors⟩ := k
    rw [update]
    split
    case isTrue same =>
      subst same
      by_cases h : other = k
      · simp [h]
      · simp [List.lookup_cons, h, beq_false_of_ne h]
    case isFalse differ =>
      rw [List.lookup_cons, List.lookup_cons, List.lookup_cons, ih]
      have apart : (kind == k) = false := beq_false_of_ne (Ne.symm differ)
      by_cases h : other = k
      · subst h
        simp [differ]
      · simp [beq_false_of_ne h, apart]

theorem map_fst_update : (update kind f kinds).map Prod.fst =
    if kind ∈ kinds.map Prod.fst then kinds.map Prod.fst else kinds.map Prod.fst ++ [kind] := by
  induction kinds with
  | nil => simp [update]
  | cons k rest ih =>
    obtain ⟨k, selectors⟩ := k
    rw [update]
    split
    case isTrue same => simp [same]
    case isFalse differ =>
      rw [List.map_cons, ih, List.map_cons]
      by_cases h : kind ∈ rest.map Prod.fst <;> simp [h, Ne.symm differ]

theorem Distinct.add (h : s.Distinct) : (s.add kind selector).Distinct := by
  rw [Distinct, ProcedureSelection.add, map_fst_update]
  split
  · exact h
  case isFalse fresh =>
    rw [← List.concat_eq_append]
    exact List.Nodup.concat fresh h

theorem Distinct.mem_iff (h : s.Distinct) :
    (kind, selectors) ∈ s.kinds ↔ s.kinds.lookup kind = some selectors := by
  rw [List.lookup_eq_some_iff]
  constructor
  · intro mem
    obtain ⟨front, behind, split⟩ := List.append_of_mem mem
    refine ⟨front, behind, split, fun k hk => ?_⟩
    rw [Distinct, split, List.map_append, List.map_cons, List.nodup_append] at h
    have apart := h.2.2 k.1 (List.mem_map_of_mem hk) kind (by simp)
    exact bne_iff_ne.mpr apart.symm
  · rintro ⟨front, behind, split, _⟩
    simp [split]

theorem Distinct.mem_kindsFor (h : s.Distinct) : kind ∈ s.kindsFor m c table ↔
    ∃ selectors, s.kinds.lookup kind = some selectors ∧ selects selectors m c table = true := by
  simp only [kindsFor, List.mem_map, List.mem_filter, Prod.exists, h.mem_iff]
  constructor
  · rintro ⟨k, selectors, ⟨hk, hs⟩, rfl⟩
    exact ⟨selectors, hk, hs⟩
  · rintro ⟨selectors, hk, hs⟩
    exact ⟨kind, selectors, ⟨hk, hs⟩, rfl⟩

theorem lookup_add : (s.add kind selector).kinds.lookup other =
    if other = kind then some (match selector with
      | some selector => (s.kinds.lookup kind).getD [] ++ [selector]
      | none => [])
    else s.kinds.lookup other :=
  lookup_update

theorem Distinct.mem_kindsFor_add_some (h : s.Distinct) {selector : TableSelector} :
    kind ∈ (s.add kind (some selector)).kindsFor m c table ↔
      selector m c table = true ∨ s.kinds.lookup kind ≠ some [] ∧ kind ∈ s.kindsFor m c table := by
  rw [h.add.mem_kindsFor, h.mem_kindsFor, lookup_add, if_pos rfl]
  cases hk : s.kinds.lookup kind with
  | none => simp [selects]
  | some selectors =>
    cases selectors with
    | nil => simp [selects]
    | cons first rest => simp [selects, ← or_assoc, or_comm (a := selector m c table = true)]

theorem Distinct.mem_kindsFor_add_none (h : s.Distinct) :
    kind ∈ (s.add kind none).kindsFor m c table := by
  rw [h.add.mem_kindsFor, lookup_add, if_pos rfl]
  exact ⟨[], rfl, rfl⟩

theorem Distinct.mem_kindsFor_add_of_ne (h : s.Distinct) (differ : other ≠ kind) :
    other ∈ (s.add kind selector).kindsFor m c table ↔ other ∈ s.kindsFor m c table := by
  rw [h.add.mem_kindsFor, h.mem_kindsFor, lookup_add, if_neg differ]

/-- After calls a kind is derived for all tables: its last call was without a selector, or there was
no call and it was mentioned without selectors at first. -/
def LeftOpen (s : ProcedureSelection) (calls : List SelectionCall) (kind : ProcedureKind) : Prop :=
  match (calls.filter fun call => call.1 = kind).getLast? with
  | some call => call.2.isNone = true
  | none => s.kinds.lookup kind = some []

def after (s : ProcedureSelection) (calls : List SelectionCall) : ProcedureSelection :=
  calls.foldl (fun s call => s.add call.1 call.2) s

theorem after_concat (call : SelectionCall) :
    s.after (calls ++ [call]) = (s.after calls).add call.1 call.2 := by
  simp [after]

theorem Distinct.after (h : s.Distinct) (calls : List SelectionCall) :
    (s.after calls).Distinct := by
  induction calls using List.reverseRecOn with
  | nil => exact h
  | append_singleton calls call ih =>
    rw [after_concat]
    exact ih.add

/-- A kind has no selectors after calls exactly if the calls leave it open. -/
theorem lookup_after_eq_nil_iff :
    (s.after calls).kinds.lookup kind = some [] ↔ s.LeftOpen calls kind := by
  induction calls using List.reverseRecOn with
  | nil => rfl
  | append_singleton calls call ih =>
    obtain ⟨called, selector⟩ := call
    rw [after_concat, lookup_add, LeftOpen, List.filter_append]
    by_cases same : kind = called
    · subst same
      cases selector <;> simp
    · rw [if_neg same, ih, LeftOpen]
      simp [Ne.symm same]

end ProcedureSelection

namespace Options

def after (o : Options) (calls : List SelectionCall) : Options :=
  calls.foldl (fun o call => o.addProcedures call.1 call.2) o

theorem procedures_after (o : Options) (calls : List SelectionCall) :
    (o.after calls).procedures = o.procedures.after calls := by
  induction calls generalizing o with
  | nil => rfl
  | cons call rest ih => exact ih (o.addProcedures call.1 call.2)

/-- A call keeps a table among those that a kind is derived for, except if it gives a selector that
does not select the table to a kind that calls or the configuration left open. Without a selector it
selects all tables. With a selector it adds the tables of the selector; if the kind was left open,
these are then the only ones. -/
theorem kindsFor_addProcedures (o : Options) (distinct : o.procedures.Distinct)
    (calls : List SelectionCall) (kind : ProcedureKind) (selector : Option TableSelector)
    (m : Model) (c : ClassifierRef) (table : Table) :
    let before := (o.after calls).procedures
    let after := ((o.after calls).addProcedures kind selector).procedures
    (∀ other, (other ∈ before.kindsFor m c table → other ∈ after.kindsFor m c table) ↔
      ¬ (other = kind ∧ o.procedures.LeftOpen calls kind ∧ ∃ f, selector = some f ∧
        f m c table = false)) ∧
    (selector = none → kind ∈ after.kindsFor m c table) ∧
    ∀ f, selector = some f → (kind ∈ after.kindsFor m c table ↔
      f m c table = true ∨ ¬ o.procedures.LeftOpen calls kind ∧
      kind ∈ before.kindsFor m c table) := by
  intro before after
  have once : before.Distinct := by
    simp only [before, procedures_after]
    exact distinct.after calls
  have isOpen : before.kinds.lookup kind = some [] ↔ o.procedures.LeftOpen calls kind := by
    simp only [before, procedures_after]
    exact ProcedureSelection.lookup_after_eq_nil_iff
  have widened : after = before.add kind selector := rfl
  have added (f : TableSelector) (hf : selector = some f) : kind ∈ after.kindsFor m c table ↔
      f m c table = true ∨ ¬ o.procedures.LeftOpen calls kind ∧
      kind ∈ before.kindsFor m c table := by
    rw [widened, hf, once.mem_kindsFor_add_some, ← isOpen]
  have cleared (hf : selector = none) : kind ∈ after.kindsFor m c table := by
    rw [widened, hf]
    exact once.mem_kindsFor_add_none
  refine ⟨fun other => ?_, cleared, added⟩
  by_cases same : other = kind
  swap
  · rw [widened, once.mem_kindsFor_add_of_ne same]
    exact iff_of_true id fun h => same h.1
  subst same
  cases selector with
  | none => exact iff_of_true (fun _ => cleared rfl) (by simp)
  | some f =>
    have derived (opened : o.procedures.LeftOpen calls other) : other ∈ before.kindsFor m c table :=
      once.mem_kindsFor.mpr ⟨[], isOpen.mpr opened, rfl⟩
    rw [added f rfl]
    by_cases opened : o.procedures.LeftOpen calls other
    · simp [opened, derived opened]
    · simpa [opened] using Or.inr

/-- A second selector leaves the tables of the first. -/
theorem kindsFor_addProcedures_union :
    let o := of .sqlServer
    let wide := (TableTest.minColumns 1).selector
    let keyed := (TableTest.hasIdentity true).selector
    let m := Model.empty "m"
    let table : Table := { columns := [{ name := "Name", sqlType := "nvarchar" }] }
    o.procedures.Distinct ∧ keyed m ⟨0⟩ table = false ∧
      .insert ∈ (o.after [(.insert, none), (.insert, some wide)]).procedures.kindsFor m ⟨0⟩ table ∧
      .insert ∈ ((o.after [(.insert, none), (.insert, some wide)]).addProcedures .insert
        (some keyed)).procedures.kindsFor m ⟨0⟩ table := by
  intro o wide keyed m table
  have distinct : o.procedures.Distinct := List.nodup_nil
  have before : .insert ∈ (o.after [(.insert, none), (.insert, some wide)]).procedures.kindsFor m
      ⟨0⟩ table := by
    decide +kernel
  refine ⟨distinct, rfl, before, ?_⟩
  have kept :=
    (kindsFor_addProcedures o distinct [(.insert, none), (.insert, some wide)] .insert
      (some keyed) m ⟨0⟩
    table).1 .insert
  refine kept.mpr ?_ before
  rintro ⟨_, opened, _⟩
  cases opened

/-- A selector after a call without one takes away the tables that it does not select. -/
theorem not_kindsFor_narrowed :
    let document : ModelDocument := { name := "m", classifiers := [
      { id := "a", name := "A", attributes := [.identity "Id" "integer"] },
      { id := "b", name := "B", attributes := [.identity "Id" "integer"] }] }
    let o := (of .sqlServer).addProcedures .insert none
    let onlyA := (TableTest.classifier (.named ["A"])).selector
    ∃ m db c db' c' t model, Model.ofDatum document.write = .ok m ∧
      (o.build m {}).value = .ok (db, c) ∧
      ((o.addProcedures .insert (some onlyA)).build m {}).value = .ok (db', c') ∧
      db.procedures.map (·.name) = ["InsertA", "InsertB"] ∧
      db'.procedures.map (·.name) = ["InsertA"] ∧
      t ∈ db.tables ∧ (c.table t).source = some model ∧
      .insert ∈ o.procedures.kindsFor m model (c.table t) ∧
      t ∈ db'.tables ∧ c'.table t = c.table t ∧
      .insert ∉ (o.addProcedures .insert (some onlyA)).procedures.kindsFor m model
        (c'.table t) := by
  intro document o onlyA
  let narrowed := o.addProcedures .insert (some onlyA)
  let t : TableRef := ⟨1⟩
  let model : ClassifierRef := ⟨16⟩
  let lost (m : Model) (db db' : Database) (c c' : Catalog) : Prop :=
    db.procedures.map (·.name) = ["InsertA", "InsertB"] ∧
      db'.procedures.map (·.name) = ["InsertA"] ∧
      t ∈ db.tables ∧ (c.table t).source = some model ∧
      .insert ∈ o.procedures.kindsFor m model (c.table t) ∧
      t ∈ db'.tables ∧ c'.table t = c.table t ∧
      .insert ∉ narrowed.procedures.kindsFor m model (c'.table t)
  have hrun : o.observe document (fun m db c => do
      let built ← (narrowed.build m {}).value
      return decide (lost m db built.1 c built.2)) = .ok true := by
    decide +kernel
  obtain ⟨m, db, c, hm, hb, hrun⟩ := observe_eq_ok.mp hrun
  obtain ⟨⟨db', c'⟩, hb', hrun⟩ := bind_eq_ok.mp hrun
  exact ⟨m, db, c, db', c', t, model, hm, hb, hb', of_decide_eq_true (Except.ok.inj hrun)⟩

end Options

end Schemata
