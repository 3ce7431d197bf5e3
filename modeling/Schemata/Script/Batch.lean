import Schemata.Text.Quoted

/-!
# Batches

A script is a sequence of batches, each ended by a line that holds the separator alone. Statements
that must come first in a batch get a batch of their own.
-/
namespace Schemata
open Text

/-- The line that ends a batch. -/
def separator : String := "GO"

/-- Ends every batch with the separator on a line of its own. -/
def joinBatches (batches : List String) : String :=
  s!"\n{separator}\n".intercalate batches ++ s!"\n{separator}\n"

structure ScriptOptions where
  /-- Leaves existing objects in place instead of dropping them first. -/
  keepExisting : Bool := false
  includeProcedures : Bool := true
  includeTableTypes : Bool := true
  deriving DecidableEq, Repr

/-- A script that creates an empty database, after it has dropped one of that name if it may. -/
def databaseScript (options : ScriptOptions) (name : String) : String :=
  let found := s!"EXISTS (SELECT * FROM sys.databases WHERE name = {literal name})"
  let create := s!"CREATE DATABASE {bracketed name};"
  let creation :=
    if options.keepExisting then [s!"IF NOT {found} {create}"]
    else [s!"IF {found} DROP DATABASE {bracketed name};", create]
  joinBatches ("USE master;" :: creation ++ [s!"USE {bracketed name};"])

end Schemata
