import Schemata.Procedure.Basic
import Schemata.Proofs.Text.Lines

/-!
# The text of a procedure

The signature declares the parameters one behind the other, so it can be split at each of them. The
text of a procedure is its signature, and behind it the statements of its body.
-/
namespace Schemata
open Text

theorem intercalate_concat (s last : String) (texts : List String) :
    s.intercalate (texts ++ [last]) = String.join (texts.map (· ++ s)) ++ last := by
  induction texts with
  | nil => simp
  | cons text rest ih =>
    rw [List.cons_append, String.intercalate_cons_of_ne_nil (by simp), ih]
    simp [String.append_assoc]

/-- The declarations of the parameters of a procedure up to the bracket that closes them. -/
def declarations (parameters : List Parameter) : String :=
  ",\n".intercalate (parameters.map Parameter.text) ++ "\n)"

def continuation : List Parameter → String
  | [] => "\n)"
  | q :: after => ",\n" ++ declarations (q :: after)

theorem declarations_cons (q : Parameter) (after : List Parameter) :
    declarations (q :: after) = q.text ++ continuation after := by
  cases after with
  | nil => simp [declarations, continuation]
  | cons r after => simp [declarations, continuation, String.append_assoc]

theorem declarations_append (before : List Parameter) (q : Parameter) (after : List Parameter) :
    declarations (before ++ q :: after) =
      String.join (before.map fun q => q.text ++ ",\n") ++ declarations (q :: after) := by
  induction before with
  | nil => simp
  | cons r before ih =>
    have hne : before ++ q :: after ≠ [] := by simp
    obtain ⟨s, rest, hs⟩ := List.exists_cons_of_ne_nil hne
    rw [List.cons_append, declarations_cons, hs, continuation, ← hs, ih]
    simp [String.append_assoc]

namespace Procedure

/-- What stands in a signature before the declaration that comes behind some parameters. -/
def opening (p : Procedure) (before : List Parameter) : String :=
  "CREATE PROCEDURE " ++ (bracketed p.name ++
    (" (\n" ++ String.join (before.map fun q => q.text ++ ",\n")))

/-- The list of parameters behind the name of a procedure, if there are any. -/
def parameterList (p : Procedure) : String :=
  if p.parameters.isEmpty then "" else " (\n" ++ declarations p.parameters

/-- Wherever the parameter stands in the list of parameters, its declaration stands in the
signature. -/
def InSignature (p : Procedure) (q : Parameter) : Prop :=
  ∀ before after, p.parameters = before ++ q :: after →
    p.header = p.opening before ++ (q.text ++ continuation after)

def script (p : Procedure) (statements : List Statement) : String :=
  p.header ++ "\nAS\nBEGIN\nSET NOCOUNT ON;\n" ++
    String.join (statements.map fun s => s.text ++ "\n") ++ "END;"

variable {p : Procedure} {before after : List Parameter} {q : Parameter} {c : Catalog}
  {statements : List Statement}

theorem header_eq (p : Procedure) :
    p.header = "CREATE PROCEDURE " ++ (bracketed p.name ++ p.parameterList) := by
  delta header parameterList declarations
  simp only [toString_text, String.append_assoc]

theorem header_split (h : p.parameters = before ++ q :: after) :
    p.header = p.opening before ++ declarations (q :: after) := by
  have hne : p.parameters.isEmpty = false := by simp [h]
  rw [header_eq, parameterList, hne, h, declarations_append]
  delta opening
  simp [String.append_assoc]

theorem inSignature (p : Procedure) (q : Parameter) : p.InSignature q :=
  fun _ _ h => by rw [header_split h, declarations_cons]

theorem create_eq (h : p.body c = pure statements) : p.create c = pure (p.script statements) := by
  have hframe : "\nAS\nBEGIN\nSET NOCOUNT ON;\n" =
      "\n" ++ ("AS\n" ++ ("BEGIN\n" ++ "SET NOCOUNT ON;\n")) := by decide
  rw [create, h, pure_bind, intercalate_concat, script, hframe]
  simp only [List.cons_append, List.nil_append, List.map_cons, List.map_map, String.join_cons,
    String.append_assoc, Function.comp_def]
  rfl

end Procedure

end Schemata
