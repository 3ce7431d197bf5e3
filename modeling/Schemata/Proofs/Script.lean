import Schemata.Proofs.Outcome
import Schemata.Proofs.Procedure.Header
import Schemata.Script.Schema

/-!
# Generated scripts

A script can be generated if every table can be created and every procedure has a body. Nothing else
can stop it, and a script that drops everything always exists.
-/
namespace Schemata

variable {db : Database} {c : Catalog} {p : Procedure} {options : ScriptOptions}

/-- The batches of a script: behind the one that drops everything, unless existing objects are to be
kept. -/
def Database.batchesOf (db : Database) (c : Catalog) (options : ScriptOptions)
    (batches : List String) :
    List String :=
  (if options.keepExisting then none else db.dropScript c options).toList ++ batches

/-- The batches are generated without a report, and the script is made of them if there are any. -/
def Database.Scripted (db : Database) (c : Catalog) (options : ScriptOptions) : Prop :=
  ∃ batches, db.createBatches c options = pure batches ∧
    (db.schemaScript c options).value = .ok (
      if (db.batchesOf c options batches).isEmpty then none
      else some (joinBatches (db.batchesOf c options batches)))

theorem Procedure.exists_create (h : ∃ statements, p.body c = pure statements) :
    ∃ text, p.create c = pure text := by
  obtain ⟨statements, h⟩ := h
  exact ⟨_, create_eq h⟩

namespace Database

theorem schemaScript_value {batches : List String} (h : db.createBatches c options = pure batches) :
    (db.schemaScript c options).value = .ok (
      if (db.batchesOf c options batches).isEmpty then none
      else some (joinBatches (db.batchesOf c options batches))) := by
  rw [schemaScript, h, pure_bind, batchesOf]
  dsimp only
  generalize (if options.keepExisting then none else db.dropScript c options).toList ++
    batches = all
  cases all <;> rfl

theorem scripted (tables : ∀ t ∈ db.tables, ∃ text, (c.table t).create = .ok text)
    (procedures : ∀ p ∈ db.procedures, ∃ statements, p.body c = pure statements) :
    db.Scripted c options := by
  have hprocedures : ∀ p ∈ (if options.includeProcedures then db.procedures else []),
      ∃ text, p.create c = pure text := by
    intro p hp
    split at hp
    · exact Procedure.exists_create (procedures p hp)
    · cases hp
  obtain ⟨created, htables⟩ := exists_mapM_eq_pure tables
  obtain ⟨texts, htexts⟩ := exists_mapM_eq_pure hprocedures
  have hbatches : ∃ batches, db.createBatches c options = pure batches := by
    rw [createBatches, htables, htexts]
    exact ⟨_, rfl⟩
  obtain ⟨batches, hbatches⟩ := hbatches
  exact ⟨batches, hbatches, schemaScript_value hbatches⟩

end Database

end Schemata
