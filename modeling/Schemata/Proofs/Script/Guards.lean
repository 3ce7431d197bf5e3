import Mathlib.Data.List.TakeWhile
import Schemata.Proofs.Document.Written
import Schemata.Proofs.Procedure.Signature

/-!
# Guards of the statements that drop objects

A table or a procedure is dropped if there is an object of its name. The guard hands the name over
as a text, which the server reads as the name of an object: parts that are separated by dots, each
of which may stand in brackets. So the guard asks for the object that is dropped if its name has no
dot and does not begin with a bracket, and for another one, or none, if it does.
-/
namespace Schemata
open Text

/-! ## Names of objects -/

def readPart (text : List Char) : Option (List Char × List Char) :=
  if text.head? = some '[' then readTo ']' text.tail
  else some (text.takeWhile (· ≠ '.'), text.dropWhile (· ≠ '.'))

section
variable {text part rest : List Char}

theorem readPart_bracket (text : List Char) : readPart ('[' :: text) = readTo ']' text := by
  simp [readPart]

theorem readPart_of_ne (h : text.head? ≠ some '[') :
    readPart text = some (text.takeWhile (· ≠ '.'), text.dropWhile (· ≠ '.')) := by
  rw [readPart, if_neg h]

theorem length_of_readPart (h : readPart text = some (part, rest)) : rest.length ≤ text.length := by
  by_cases hb : text.head? = some '['
  · obtain ⟨text, rfl⟩ := List.head?_eq_some_iff.mp hb
    rw [readPart_bracket] at h
    obtain ⟨rfl, -⟩ := of_readTo h
    simp
    omega
  · rw [readPart_of_ne hb] at h
    cases h
    exact (List.dropWhile_suffix _).length_le

end

def readParts (text : List Char) : Option (List (List Char)) :=
  match _h : readPart text with
  | some (part, []) => some [part]
  | some (part, '.' :: rest) => (readParts rest).map (part :: ·)
  | _ => none
termination_by text.length
decreasing_by exact length_of_readPart _h

/-- The parts of the name of an object as the server reads them. -/
def readObjectName (name : String) : Option (List String) :=
  (readParts name.toList).map (·.map String.ofList)

def Plain (name : String) : Prop := '.' ∉ name.toList ∧ name.toList.head? ≠ some '['

instance (name : String) : Decidable (Plain name) :=
  inferInstanceAs (Decidable (_ ∧ _))

section
variable {text part : List Char} {name s : String}

theorem readParts_ne_nil (text : List Char) : readParts text ≠ some [] := by
  rw [readParts]
  split <;> simp

theorem readParts_eq_singleton :
    readParts text = some [part] ↔ readPart text = some (part, []) := by
  rw [readParts]
  split
  · rename_i h
    simp [h]
  · rename_i h
    simp [h, readParts_ne_nil]
  · rename_i alone _
    simpa using alone part

/-- A part in brackets ends with its bracket, and any other one ends before a dot. -/
theorem readPart_eq_alone : readPart text = some (part, []) ↔
    text = '[' :: doubled ']' part ++ [']'] ∨ text = part ∧ '.' ∉ text ∧ text.head? ≠ some '[' := by
  by_cases hb : text.head? = some '['
  · obtain ⟨text, rfl⟩ := List.head?_eq_some_iff.mp hb
    simp [readPart_bracket, readTo_eq_some_iff]
  · have hne : text ≠ '[' :: doubled ']' part ++ [']'] := fun e => hb (by simp [e])
    have hdot : text.dropWhile (· ≠ '.') = [] ↔ '.' ∉ text := by
      simp [List.dropWhile_eq_nil_iff, List.forall_mem_ne']
    rw [readPart_of_ne hb, Option.some_inj, Prod.mk.injEq, hdot]
    simp only [hne, hb, false_or, ne_eq, not_false_eq_true, and_true]
    refine and_congr_left fun h => ?_
    rw [List.takeWhile_eq_self_iff.mpr (by simpa [List.forall_mem_ne'] using h)]

theorem readObjectName_eq_singleton :
    readObjectName s = some [name] ↔ s = bracketed name ∨ s = name ∧ Plain s := by
  have hparts : readObjectName s = some [name] ↔ readParts s.toList = some [name.toList] := by
    rw [readObjectName, Option.map_eq_some_iff]
    constructor
    · rintro ⟨parts, hparts, e⟩
      obtain ⟨part, rfl, rfl⟩ := List.map_eq_singleton_iff.mp e
      simpa using hparts
    · exact fun h => ⟨_, h, by simp⟩
  rw [hparts, readParts_eq_singleton, readPart_eq_alone, ← String.toList_inj, ← String.toList_inj,
    toList_bracketed, Plain]

example : readObjectName "[a]]b].c" = some ["a]b", "c"] := by decide +kernel

/-- A name reads as itself unless it has several parts or stands in brackets. -/
theorem readObjectName_self_iff : readObjectName name = some [name] ↔ Plain name := by
  simp [readObjectName_eq_singleton, ne_bracketed]

end

/-! ## Statements -/

/-- How statements name a kind of object: by a code, and by a word. -/
structure ObjectKind where
  code : String
  word : String

namespace ObjectKind

def table : ObjectKind := ⟨"U", "TABLE"⟩

def procedure : ObjectKind := ⟨"P", "PROCEDURE"⟩

/-- What stands between the text that is looked up and the name of what is dropped. -/
def drop (kind : ObjectKind) : String :=
  ", '" ++ kind.code ++ "') IS NOT NULL DROP " ++ kind.word ++ " "

def create (kind : ObjectKind) : String := "CREATE " ++ kind.word ++ " "

end ObjectKind

/-- The text that the guard of a statement looks up, and the name of what the statement drops. -/
def readDrop (kind : ObjectKind) (text : String) : Option (String × String) := do
  let text ← after? "IF OBJECT_ID(" text
  let (guard, text) ← readLiteral text
  let text ← after? kind.drop text
  let (name, text) ← readName text
  if text = ";" then some (guard, name) else none

def readCreated (kind : ObjectKind) (text : String) : Option String := do
  let (name, _) ← readName (← after? kind.create text)
  return name

/-- The guard asks for the one object that is dropped and, if there is a statement for it,
created. -/
structure Agree (kind : ObjectKind) (drop : String) (create : Except Fault String) (name : String) :
    Prop where
  guard : ∃ guard, readDrop kind drop = some (guard, name) ∧ readObjectName guard = some [name]
  created : ∀ text, create = .ok text → readCreated kind text = some name

variable {kind : ObjectKind} {name drop text rest : String} {create : Except Fault String}

theorem readDrop_eq
    (h : drop = "IF OBJECT_ID(" ++ (literal name ++ (kind.drop ++ (bracketed name ++ ";")))) :
    readDrop kind drop = some (name, name) := by
  have comma : (kind.drop ++ (bracketed name ++ ";")).toList.head? ≠ some '\x27' := by
    simp [ObjectKind.drop]
  have semicolon : ";".toList.head? ≠ some ']' := by decide
  simp [h, readDrop, readLiteral_eq_some_iff.mpr ⟨rfl, comma⟩,
    readName_eq_some_iff.mpr ⟨rfl, semicolon⟩]

theorem readCreated_eq (h : text = kind.create ++ (bracketed name ++ rest))
    (follows : rest.toList.head? ≠ some ']') : readCreated kind text = some name := by
  simp [h, readCreated, readName_eq_some_iff.mpr ⟨rfl, follows⟩]

theorem agree_iff (hdrop : readDrop kind drop = some (name, name))
    (hcreate : ∀ text, create = .ok text → readCreated kind text = some name) :
    Agree kind drop create name ↔ Plain name := by
  constructor
  · rintro ⟨⟨guard, hguard, halone⟩, -⟩
    rw [hdrop] at hguard
    cases hguard
    exact readObjectName_self_iff.mp halone
  · exact fun h => ⟨⟨name, hdrop, readObjectName_self_iff.mpr h⟩, hcreate⟩

namespace Table

theorem readDrop_dropIfExists (t : Table) :
    readDrop .table t.dropIfExists = some (t.name, t.name) := by
  refine readDrop_eq ?_
  rw [show ObjectKind.table.drop = ", 'U') IS NOT NULL DROP TABLE " by rfl]
  delta dropIfExists
  simp [Table.text, String.append_assoc]

theorem readCreated_create {t : Table} {text : String} (h : t.create = .ok text) :
    readCreated .table text = some t.name := by
  obtain ⟨keys, -, h⟩ := bind_eq_ok.mp h
  cases h
  have htext : s!"CREATE TABLE {t.text} {definition (t.columns.map Column.text ++ keys)};" =
      ObjectKind.table.create ++
        (bracketed t.name ++ (" " ++ (definition (t.columns.map Column.text ++ keys) ++ ";"))) := by
    rw [show ObjectKind.table.create = "CREATE TABLE " by rfl]
    simp [Table.text, String.append_assoc]
  exact readCreated_eq htext (by simp)

end Table

namespace Procedure

theorem readDrop_dropIfExists (p : Procedure) :
    readDrop .procedure p.dropIfExists = some (p.name, p.name) := by
  refine readDrop_eq ?_
  rw [show ObjectKind.procedure.drop = ", 'P') IS NOT NULL DROP PROCEDURE " by rfl]
  delta dropIfExists
  simp [String.append_assoc]

theorem readCreated_create {p : Procedure} {c : Catalog} {text : String}
    (h : (p.create c).value = .ok text) : readCreated .procedure text = some p.name := by
  obtain ⟨body, -, h⟩ := Logged.bind_eq_ok.mp h
  cases h
  have follows : p.parameterList = "" ∨ p.parameterList.toList.head? ≠ some ']' := by
    rw [parameterList]
    split
    · exact .inl rfl
    · exact .inr (by simp)
  simp only [List.cons_append, String.intercalate_cons_cons, header_eq, String.append_assoc]
  refine readCreated_eq rfl ?_
  rcases follows with none | follows
  · simp [none]
  · cases hl : p.parameterList.toList with
    | nil => simp [hl]
    | cons c cs => simpa [hl] using follows

end Procedure

/-- What is looked up, dropped and created is the same object if the name has no dot and does not
begin with a bracket, for tables and procedures alike. -/
theorem agree_iff_plain (t : Table) (p : Procedure) (c : Catalog) :
    (Agree .table t.dropIfExists t.create t.name ↔ Plain t.name) ∧
      (Agree .procedure p.dropIfExists (p.create c).value p.name ↔ Plain p.name) :=
  ⟨agree_iff t.readDrop_dropIfExists fun _ => Table.readCreated_create,
    agree_iff p.readDrop_dropIfExists fun _ => Procedure.readCreated_create⟩

/-- A table that is called by two parts is looked up in another schema, and so is its procedure. -/
theorem not_agree_dotted :
    let o := (Options.of .sqlServer).addProcedures .insert none
    let document : ModelDocument := { name := "m", classifiers := [
      { id := "a", name := "a.b", attributes := [.identity "Id" "uuid"] }] }
    ∃ m db c, Model.ofDatum document.write = .ok m ∧ (o.build m {}).value = .ok (db, c) ∧
      (∃ t ∈ db.tables, readDrop .table (c.table t).dropIfExists = some ("a.b", "a.b") ∧
        readObjectName "a.b" = some ["a", "b"] ∧
        ¬ Agree .table (c.table t).dropIfExists (c.table t).create (c.table t).name) ∧
      ∃ p ∈ db.procedures, readDrop .procedure p.dropIfExists = some ("Inserta.b", "Inserta.b") ∧
        readObjectName "Inserta.b" = some ["Inserta", "b"] ∧
        ¬ Agree .procedure p.dropIfExists (p.create c).value p.name := by
  intro o document
  have hrun : o.observe document (fun _ db c =>
      .ok (db.tables.map fun t => (c.table t).name, db.procedures.map Procedure.name)) =
      .ok (["a.b"], ["Inserta.b"]) := by
    decide +kernel
  obtain ⟨m, db, c, hm, hb, hrun⟩ := Options.observe_eq_ok.mp hrun
  obtain ⟨htables, hprocedures⟩ := Prod.mk.inj (Except.ok.inj hrun)
  obtain ⟨t, ht, table⟩ : ∃ t, db.tables = [t] ∧ (c.table t).name = "a.b" :=
    List.map_eq_singleton_iff.mp htables
  obtain ⟨p, hp, procedure⟩ : ∃ p, db.procedures = [p] ∧ p.name = "Inserta.b" :=
    List.map_eq_singleton_iff.mp hprocedures
  have hdrop := (c.table t).readDrop_dropIfExists
  have hdrop' := p.readDrop_dropIfExists
  refine ⟨m, db, c, hm, hb, ⟨t, by simp [ht], table ▸ hdrop, by decide +kernel, ?_⟩,
    p, by simp [hp], procedure ▸ hdrop', by decide +kernel, ?_⟩
  · rw [agree_iff hdrop fun _ => Table.readCreated_create, table]
    decide
  · rw [agree_iff hdrop' fun _ => Procedure.readCreated_create, procedure]
    decide

end Schemata
