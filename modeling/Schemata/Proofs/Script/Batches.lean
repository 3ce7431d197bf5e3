import Schemata.Proofs.Document.Written
import Schemata.Proofs.Script.Procedures

/-!
# Batches of scripts

A script can be cut into the batches that it was made of, if every name, type, length and role stays
on one line. So a procedure, which must be alone in its batch, is found there as it was rendered.
-/
namespace Schemata
open Text

namespace Database

def strings (db : Database) (c : Catalog) : List String :=
  (db.tables ++ db.tableTypes).flatMap (fun t => (c.table t).strings) ++
    db.procedures.flatMap fun p => p.strings c

def written (db : Database) (options : ScriptOptions) : List Procedure :=
  if options.includeProcedures then db.procedures else []

/-- The batch of all table types that a script is asked for and of all tables, if there are any. -/
def definitions (db : Database) (c : Catalog) (options : ScriptOptions) (tables : List String) :
    Option String :=
  let tableTypes := if options.includeTableTypes then db.tableTypes else []
  let statements := tableTypes.map (fun t => (c.table t).createType) ++ tables
  if statements.isEmpty then none else some ("\n".intercalate statements)

end Database

variable {db : Database} {c : Catalog} {options : ScriptOptions}

namespace Database

theorem createBatches_eq_ok {batches : List String}
    (h : (db.createBatches c options).value = .ok batches) :
    ∃ tables procedures,
      List.Forall₂ (fun t text => (c.table t).create = .ok text) db.tables tables ∧
      List.Forall₂ (fun p text => (p.create c).value = .ok text) (db.written options) procedures ∧
      batches = (db.definitions c options tables).toList ++ procedures := by
  obtain ⟨tables, htables, h⟩ := Logged.bind_eq_ok.mp h
  obtain ⟨procedures, hprocedures, h⟩ := Logged.bind_eq_ok.mp h
  cases h
  refine ⟨tables, procedures, mapM_eq_ok.mp htables, Logged.mapM_eq_ok.mp hprocedures, ?_⟩
  rw [definitions]
  generalize List.map _ _ ++ tables = statements
  cases statements <;> rfl

theorem schemaScript_eq_some {script : String}
    (h : (db.schemaScript c options).value = .ok (some script)) :
    ∃ batches, (db.createBatches c options).value = .ok batches ∧
      db.batchesOf c options batches ≠ [] ∧
      script = joinBatches (db.batchesOf c options batches) := by
  obtain ⟨batches, hbatches, h⟩ := Logged.bind_eq_ok.mp h
  refine ⟨batches, hbatches, ?_⟩
  rw [← batchesOf] at h
  generalize db.batchesOf c options batches = all at h ⊢
  cases all with
  | nil => cases h
  | cons batch rest =>
    cases h
    exact ⟨by simp, rfl⟩

section
variable (h : AllUnbroken (db.strings c))
include h

theorem unbroken_tables : ∀ t ∈ db.tables ++ db.tableTypes, AllUnbroken (c.table t).strings :=
  allUnbroken_flatMap.mp (allUnbroken_append.mp h).1

theorem unbroken_procedures : ∀ p ∈ db.procedures, AllUnbroken (p.strings c) :=
  allUnbroken_flatMap.mp (allUnbroken_append.mp h).2

theorem opened_dropScript : ∀ text ∈ db.dropScript c options, Opened text := by
  have hname : ∀ t ∈ db.tables ++ db.tableTypes, Unbroken (c.table t).name :=
    fun t ht => unbroken_tables h t ht _ (by simp [Table.strings])
  have hstatements : ∀ text ∈ db.dropStatements c options, Opened text := by
    simp only [dropStatements, List.forall_mem_append, List.forall_mem_map]
    refine ⟨⟨fun p hp => ?_, fun t ht => ?_⟩, fun t ht => ?_⟩
    · have hp : p ∈ db.procedures := by
        split at hp
        · exact List.mem_reverse.mp hp
        · cases hp
      exact Procedure.opened_dropIfExists (Procedure.unbroken_name (unbroken_procedures h p hp))
    · exact Table.opened_dropIfExists (hname t (by simp_all))
    · have ht : t ∈ db.tableTypes := by
        split at ht
        · exact List.mem_reverse.mp ht
        · cases ht
      exact Table.opened_dropTypeIfExists (hname t (by simp [ht]))
  intro text htext
  simp only [dropScript] at htext
  split at htext
  · cases htext
  · cases htext
    exact opened_intercalate (opened_ofList (by decide)) hstatements

theorem opened_definitions {tables : List String}
    (ht : List.Forall₂ (fun t text => (c.table t).create = .ok text) db.tables tables) :
    ∀ text ∈ db.definitions c options tables, Opened text := by
  have htables : ∀ text ∈ tables, Opened text := by
    intro text htext
    obtain ⟨t, hmem, hcreate⟩ := exists_mem_of_forall₂ ht htext
    exact Table.opened_create (unbroken_tables h t (by simp [hmem])) hcreate
  have htypes : ∀ text ∈ (if options.includeTableTypes then db.tableTypes else []).map
      fun t => (c.table t).createType, Opened text := by
    refine List.forall_mem_map.mpr fun t ht => Table.opened_createType (unbroken_tables h t ?_)
    split at ht
    · simp [ht]
    · cases ht
  have hstatements := List.forall_mem_append.mpr ⟨htypes, htables⟩
  intro text htext
  rw [definitions] at htext
  generalize List.map _ _ ++ tables = statements at hstatements htext
  cases statements with
  | nil => cases htext
  | cons statement rest =>
    cases htext
    exact opened_intercalate (opened_ofList (by decide)) hstatements

theorem opened_procedures {procedures : List String}
    (hp : List.Forall₂ (fun p text => (p.create c).value = .ok text)
      (db.written options) procedures) :
    ∀ text ∈ procedures, Opened text := by
  intro text htext
  obtain ⟨p, hmem, hcreate⟩ := exists_mem_of_forall₂ hp htext
  have hmem : p ∈ db.procedures := by
    rw [written] at hmem
    split at hmem
    · exact hmem
    · cases hmem
  exact Procedure.opened_create (unbroken_procedures h p hmem) hcreate

end

/-- Cutting a script gives back the batch that drops everything, unless existing objects are kept or
there are none, the batch of all definitions, if there are any, and each procedure that the script
was asked for as it is rendered on its own. Nothing is left behind the last of them. -/
theorem batchesIn_schemaScript (db : Database) (c : Catalog) (unbroken : AllUnbroken (db.strings c))
    (options : ScriptOptions) (script : String)
    (h : (db.schemaScript c options).value = .ok (some script)) :
    ∃ tables procedures,
      List.Forall₂ (fun t text => (c.table t).create = .ok text) db.tables tables ∧
      List.Forall₂ (fun p text => (p.create c).value = .ok text) (db.written options) procedures ∧
      batchesIn script =
        (if options.keepExisting then none else db.dropScript c options).toList ++
          (db.definitions c options tables).toList ++ procedures ++ [""] := by
  obtain ⟨batches, hbatches, ne, rfl⟩ := schemaScript_eq_some h
  obtain ⟨tables, procedures, htables, hprocedures, rfl⟩ := createBatches_eq_ok hbatches
  have hdrop :
      ∀ text ∈ if options.keepExisting then none else db.dropScript c options, Opened text := by
    split
    · simp
    · exact opened_dropScript unbroken
  have opened :
      ∀ batch ∈ db.batchesOf c options ((db.definitions c options tables).toList ++ procedures),
      separator ∉ linesOf batch := by
    intro batch hbatch
    obtain hbatch | hbatch | hbatch :=
      by simpa only [batchesOf, List.mem_append, Option.mem_toList] using hbatch
    · exact (hdrop batch hbatch).separator_not_mem
    · exact (opened_definitions unbroken htables batch hbatch).separator_not_mem
    · exact (opened_procedures unbroken hprocedures batch hbatch).separator_not_mem
  refine ⟨tables, procedures, htables, hprocedures, ?_⟩
  rw [batchesIn_joinBatches ne opened, batchesOf, List.append_assoc _ _ procedures]

/-- A table, its identity and a parameter may be called like the separator. -/
theorem batchesIn_schemaScript_separator :
    let o := ((Options.of .sqlServer).addProcedures .insert none).addProcedures .deleteById none
    let document : ModelDocument := { name := "m", classifiers := [
      { id := "a", name := "GO", attributes := [.identity "GO" "uuid"] }] }
    let options : ScriptOptions := { includeTableTypes := false }
    let script :=
      "IF OBJECT_ID('DeleteGOById', 'P') IS NOT NULL DROP PROCEDURE [DeleteGOById];\n" ++
      "IF OBJECT_ID('InsertGO', 'P') IS NOT NULL DROP PROCEDURE [InsertGO];\n" ++
      "IF OBJECT_ID('GO', 'U') IS NOT NULL DROP TABLE [GO];\nGO\n" ++
      "CREATE TABLE [GO] (\n[GO] [uniqueidentifier] NOT NULL,\n" ++
      "CONSTRAINT [PK_GO] PRIMARY KEY CLUSTERED ([GO])\n);\nGO\n" ++
      "CREATE PROCEDURE [InsertGO] (\n@GO uniqueidentifier\n)\nAS\nBEGIN\nSET NOCOUNT ON;\n" ++
      "INSERT INTO [GO] ([GO])\nVALUES (@GO);\nEND;\nGO\n" ++
      "CREATE PROCEDURE [DeleteGOById] (\n@GO uniqueidentifier\n)\nAS\nBEGIN\nSET NOCOUNT ON;\n" ++
      "DELETE FROM [GO]\nWHERE [GO].[GO] = @GO;\nEND;\nGO\n"
    ∃ m db c, Model.ofDatum document.write = .ok m ∧ (o.build m {}).value = .ok (db, c) ∧
      AllUnbroken (db.strings c) ∧ (db.schemaScript c options).value = .ok (some script) ∧
      ∃ tables procedures,
        List.Forall₂ (fun t text => (c.table t).create = .ok text) db.tables tables ∧
        List.Forall₂ (fun p text => (p.create c).value = .ok text) db.procedures procedures ∧
        batchesIn script =
          (db.dropScript c options).toList ++ (db.definitions c options tables).toList ++
            procedures ++ [""] := by
  intro o document options script
  have hrun : o.observe document (fun _ db c => do
      let written ← (db.schemaScript c options).value
      return (decide (AllUnbroken (db.strings c)), written)) =
      .ok (true, some script) := by
    decide +kernel
  obtain ⟨m, db, c, hm, hb, hrun⟩ := Options.observe_eq_ok.mp hrun
  obtain ⟨_, hs, hrun⟩ := bind_eq_ok.mp hrun
  obtain ⟨hunbroken, rfl⟩ := Prod.mk.inj (Except.ok.inj hrun)
  have unbroken := of_decide_eq_true hunbroken
  exact ⟨m, db, c, hm, hb, unbroken, hs, batchesIn_schemaScript db c unbroken options script hs⟩

/-- A script without procedures has no batch for the procedure that the database has. -/
theorem not_batchesIn_schemaScript_excluded :
    let o := (Options.of .sqlServer).addProcedures .insert none
    let document : ModelDocument := { name := "m", classifiers := [
      { id := "a", name := "A", attributes := [.identity "Id" "uuid"] }] }
    let options : ScriptOptions := { keepExisting := true, includeProcedures := false }
    ∃ m db c script, Model.ofDatum document.write = .ok m ∧ (o.build m {}).value = .ok (db, c) ∧
      AllUnbroken (db.strings c) ∧ (db.schemaScript c options).value = .ok (some script) ∧
      db.procedures.map (·.name) = ["InsertA"] ∧
      ¬ ∃ tables procedures,
        List.Forall₂ (fun t text => (c.table t).create = .ok text) db.tables tables ∧
        List.Forall₂ (fun p text => (p.create c).value = .ok text) db.procedures procedures ∧
        batchesIn script = (db.definitions c options tables).toList ++ procedures ++ [""] := by
  intro o document options
  have hrun : o.observe document (fun _ db c => do
      let written ← (db.schemaScript c options).value
      let texts ← db.procedures.mapM fun p : Procedure => (p.create c).value
      return (decide (AllUnbroken (db.strings c)), db.procedures.map Procedure.name,
        written.map fun script => texts.map (batchesIn script).contains)) =
      .ok (true, ["InsertA"], some [false]) := by
    decide +kernel
  obtain ⟨m, db, c, hm, hb, hrun⟩ := Options.observe_eq_ok.mp hrun
  obtain ⟨written, hs, hrun⟩ := bind_eq_ok.mp hrun
  obtain ⟨texts, htexts, hrun⟩ := bind_eq_ok.mp hrun
  obtain ⟨hunbroken, hrun⟩ := Prod.mk.inj (Except.ok.inj hrun)
  obtain ⟨hnames, hrun⟩ := Prod.mk.inj hrun
  obtain ⟨script, rfl, hcontains⟩ := Option.map_eq_some_iff.mp hrun
  refine ⟨m, db, c, script, hm, hb, of_decide_eq_true hunbroken, hs, hnames, ?_⟩
  rintro ⟨tables, procedures, -, hprocedures, hbatches⟩
  obtain rfl : texts = procedures := Except.ok.inj (htexts.symm.trans (mapM_eq_ok.mpr hprocedures))
  obtain ⟨text, rfl, hmissing⟩ : ∃ text, texts = [text] ∧
      (batchesIn script).contains text = false := by
    simpa [List.map_eq_singleton_iff] using hcontains
  rw [hbatches] at hmissing
  simp at hmissing

end Database

end Schemata
