import Schemata.Proofs.Document.Written
import Schemata.Proofs.Procedure.Kept
import Schemata.Proofs.Procedure.Rendered
import Schemata.Proofs.Text.Lines
import Schemata.Proofs.Text.Words

/-!
# Signatures of procedures

A parameter is declared by its name behind a sign and by its type. There is no way to quote the name
of a parameter, so a reader takes the longest word. It is the name if the column that the parameter
is named for is called by a word; a table type may have any name, since it stands in brackets.
-/
namespace Schemata
open Text

namespace Parameter

def typeSpec (q : Parameter) : String := if q.isTableValued then bracketed q.sqlType else q.sqlType

def modifiers (q : Parameter) : String :=
  (if q.isTableValued then "" else q.facets.suffix) ++
    ((if q.isNullable then " = NULL" else "") ++
      ((if q.direction = .inputOutput ∨ q.direction = .output then " OUTPUT" else "") ++
        if q.isReadOnly then " READONLY" else ""))

theorem text_eq (q : Parameter) :
    q.text = "@" ++ (q.name ++ (" " ++ (q.typeSpec ++ q.modifiers))) := by
  simp only [text, typeText, typeSpec, modifiers, parameterName, toString_text]
  cases q.isTableValued <;> simp [String.append_assoc]

end Parameter

/-- The declaration of a parameter is found in the signature, and reads as the name and the type of
the parameter and what else is declared of it. -/
def Procedure.Declares (a : Alphabet) (p : Procedure) (q : Parameter) : Prop :=
  ∀ before after, p.parameters = before ++ q :: after →
    p.header = p.opening before ++ declarations (q :: after) ∧
      a.readDeclaration (declarations (q :: after)) =
        some (q.name, q.sqlType, q.modifiers ++ continuation after)

/-! ## Declarations that are read -/

section
variable {a : Alphabet} {s t : String}

def delimiters : List Char := [' ', '(', ',', '\n']

def Delimited (text : String) : Prop := ∃ c ∈ delimiters, text.toList.head? = some c

theorem Delimited.ends (h : Delimited t) : a.Ends t := by
  obtain ⟨c, hc, ht⟩ := h
  intro d hd
  obtain rfl : c = d := Option.some.inj (ht.symm.trans hd)
  have hall : ∀ c ∈ delimiters, c.toNat < 128 ∧
      (c.isAlphanum || c ∈ ['_', '@', '#', '$']) = false := by simp [delimiters]
  rw [a.isWordChar_ascii (hall c hc).1]
  exact (hall c hc).2

theorem Delimited.head?_ne (h : Delimited t) : t.toList.head? ≠ some ']' := by
  obtain ⟨c, hc, ht⟩ := h
  have hall : ∀ c ∈ delimiters, c ≠ ']' := by simp [delimiters]
  simpa [ht] using hall c hc

theorem Delimited.append (h : s = "" ∨ Delimited s) (ht : Delimited t) : Delimited (s ++ t) := by
  rcases h with rfl | ⟨c, hc, hs⟩
  · simpa using ht
  · exact ⟨c, hc, by simp [hs]⟩

theorem delimited_continuation (after : List Parameter) : Delimited (continuation after) := by
  cases after with
  | nil => exact ⟨'\n', by decide, by simp [continuation]⟩
  | cons q after => exact ⟨',', by decide, by simp [continuation]⟩

theorem SqlFacets.delimited_suffix (f : SqlFacets) : f.suffix = "" ∨ Delimited f.suffix := by
  have bracket (text : String) : Delimited ("(" ++ text) := ⟨'(', by decide, by simp⟩
  simp only [suffix]
  split
  · split
    · exact .inl rfl
    · exact .inr (String.append_assoc ▸ bracket _)
  · split
    · exact .inl rfl
    · exact .inr (String.append_assoc ▸ bracket _)
  · exact .inr (by simpa only [toString_text, String.append_assoc] using bracket _)

theorem Parameter.delimited_modifiers (q : Parameter) (h : Delimited t) :
    Delimited (q.modifiers ++ t) := by
  have blank (b : Prop) [Decidable b] (text : String) : (if b then " " ++ text else "") = "" ∨
      Delimited (if b then " " ++ text else "") := by
    split
    · exact .inr ⟨' ', by decide, by simp⟩
    · exact .inl rfl
  have facets : (if q.isTableValued then "" else q.facets.suffix) = "" ∨
      Delimited (if q.isTableValued then "" else q.facets.suffix) := by
    split
    · exact .inl rfl
    · exact q.facets.delimited_suffix
  rw [modifiers, String.append_assoc, String.append_assoc, String.append_assoc]
  exact .append facets
    (.append (blank _ "= NULL") (.append (blank _ "OUTPUT") (.append (blank _ "READONLY") h)))

/-- A declaration is read if the name of the parameter is a word, and the name of its type is one or
in brackets. -/
theorem readDeclaration_declarations (q : Parameter) (after : List Parameter) :
    a.readDeclaration (declarations (q :: after)) =
        some (q.name, q.sqlType, q.modifiers ++ continuation after) ↔
      a.IsWord q.name ∧ (q.isTableValued = true ∨ a.IsWord q.sqlType) := by
  have follows := q.delimited_modifiers (delimited_continuation after)
  have htype : a.readType (q.typeSpec ++ (q.modifiers ++ continuation after)) =
      some (q.sqlType, q.modifiers ++ continuation after) ↔
      q.isTableValued = true ∨ a.IsWord q.sqlType := by
    rw [Parameter.typeSpec]
    split
    case isTrue listed => simp [listed, Alphabet.readType_bracketed follows.head?_ne]
    case isFalse scalar => simp [scalar, Alphabet.readType_append_iff follows.ends]
  rw [declarations_cons, Parameter.text_eq, ← htype]
  simp only [String.append_assoc, Alphabet.readDeclaration_iff]

theorem Procedure.declares_iff {p : Procedure} {q : Parameter} (hq : q ∈ p.parameters) :
    p.Declares a q ↔ a.IsWord q.name ∧ (q.isTableValued = true ∨ a.IsWord q.sqlType) := by
  constructor
  · intro h
    obtain ⟨before, after, split⟩ := List.append_of_mem hq
    exact (readDeclaration_declarations q after).mp (h before after split).2
  · exact fun h before after split =>
      ⟨Procedure.header_split split, (readDeclaration_declarations q after).mpr h⟩

end

/-! ## What parameters are named for -/

/-- The parameter is named for a column, or for a list of its values. -/
def Parameter.NamedFor (n : Naming) (column : Column) (q : Parameter) : Prop :=
  q.name = n.parameterName column.name q.isTableValued

section
variable {n : Naming} {m : Model} {table : Table} {q : Parameter} {column : Column}
  {rules : ProcedureRules} {d : ProcedureDraft} {t : TableRef} {model : ClassifierRef}
  {kind : ProcedureKind} {x : Proposal} {p : Procedure} {key : ColumnRef}

theorem ParameterOptions.namedFor_of_mem {options : ParameterOptions}
    (hq : q ∈ options.ofTable n m table) :
    ∃ column ∈ table.columns, column.isMany = false ∧ q.NamedFor n column := by
  obtain ⟨column, hc, _, h⟩ :=
    (mem_parameters (options.parameters_value table fun _ => true)).mp (List.mem_map_of_mem hq)
  obtain ⟨q', hq', e⟩ := Option.map_eq_some_iff.mp h
  obtain ⟨single, source, _, rfl⟩ := parameterOf?_eq_some hq'
  have name : q.name = n.parameterName column.name false := (congrArg Parameter.name e).symm
  have scalar : q.isTableValued = false := (congrArg Parameter.isTableValued e).symm
  exact ⟨column, hc, single, by rw [Parameter.NamedFor, scalar, name]⟩

theorem namedFor_of_identityParameter? {index : Int}
    (h : identityParameter? n m table index = some q) :
    ∃ column, table.identityColumn? = some column ∧ q.NamedFor n column := by
  rw [identityParameter?] at h
  split at h
  · rename_i column hc
    obtain ⟨source, _, rfl⟩ := Option.map_eq_some_iff.mp h
    exact ⟨column, hc, rfl⟩
  · cases h

namespace ProcedureRules

theorem parameters_of_proposal? (h : rules.proposal? m d t model kind = some x) :
    x.procedure.parameters = kind.parameterOptions.ofTable rules.naming m (d.catalog.table t) := by
  rw [proposal?] at h
  split at h
  case isTrue =>
    obtain ⟨p, hp, h⟩ := Option.bind_eq_some_iff.mp h
    obtain ⟨name, rfl⟩ := ProcedureDraft.procedure_eq_ok (toOption_eq_some.mp hp)
    obtain rfl := Option.some.inj h
    rfl
  case isFalse => cases h

theorem parameters_of_relationshipUpdate? (h : rules.relationshipUpdate? m d t model key = some p) :
    ∃ principal identity u, identityParameter? rules.naming m (d.catalog.table t) 0 =
      some principal ∧ d.catalog.identity? key.table = some identity ∧
      p.parameters = [principal, rules.valuesParameter m d u identity] := by
  obtain ⟨principal, hp, h⟩ := Option.bind_eq_some_iff.mp h
  obtain ⟨identity, hi, h⟩ := Option.bind_eq_some_iff.mp h
  obtain ⟨name, rfl⟩ := ProcedureDraft.procedure_eq_ok (toOption_eq_some.mp h)
  exact ⟨principal, identity, _, hp, hi, rfl⟩

end ProcedureRules

end

namespace Options

variable {o : Options} {m : Model} {map : RelationshipMap} {c c' : Catalog} {db : Database}
  {identityType t : TableRef} {column : Column} {p : Procedure} {q : Parameter}

theorem Assembled.identityColumn?_named (h : o.Assembled m map db c identityType)
    (ht : t ∈ db.tables) (hc : (c.table t).identityColumn? = some column) :
    column ∈ (c.table t).columns ∧ column.name ≠ "" := by
  obtain ⟨_, _, _, _, made⟩ := h.made t ht
  have mem := List.mem_of_find?_eq_some hc
  have identity := made.identityColumn?.2
  split at identity
  · rw [identity] at hc
    cases hc
  · obtain ⟨found, hfound, identifies⟩ := identity
    obtain rfl := Option.some.inj (hfound.symm.trans hc)
    exact ⟨mem, made.named mem identifies.single⟩

theorem build_namedFor (sqlServer : o.dialect = .sqlServer) (h : (o.build m c).value = .ok (db, c'))
    (hp : p ∈ db.procedures) (hq : q ∈ p.parameters) :
    ∃ t ∈ db.tables, ∃ column ∈ (c'.table t).columns, column.name ≠ "" ∧
      q.NamedFor o.naming column := by
  obtain ⟨identityType, _, _, kept, _⟩ := build_firstOfEachName sqlServer h
  obtain ⟨_, _, _, assembled⟩ := build_assembled sqlServer h
  have candidate : p ∈ db.candidates c' m (o.rules identityType) o.procedures :=
    List.mem_of_find?_eq_some (Procedure.mem_firstOfEachName.mp (kept ▸ hp))
  obtain ⟨x, hx, rfl | hp⟩ := Proposal.mem_allCandidates candidate
  · obtain ⟨t, ht, model, _, kind, _, hx⟩ := ProcedureRules.mem_proposals.mp hx
    rw [ProcedureRules.parameters_of_proposal? hx] at hq
    obtain ⟨column, hc, single, named⟩ := ParameterOptions.namedFor_of_mem hq
    obtain ⟨_, _, _, _, made⟩ := assembled.made t ht
    exact ⟨t, ht, column, hc, made.named hc single, named⟩
  · obtain ⟨t, ht, model, _, key, hkey, hp⟩ := ProcedureRules.exists_relationshipUpdate hx hp
    obtain ⟨principal, identity, u, hprincipal, hidentity, parameters⟩ :=
      ProcedureRules.parameters_of_relationshipUpdate? hp
    rw [parameters] at hq
    rcases List.mem_pair.mp hq with rfl | rfl
    · obtain ⟨column, hc, named⟩ := namedFor_of_identityParameter? hprincipal
      obtain ⟨mem, ne⟩ := assembled.identityColumn?_named ht hc
      exact ⟨t, ht, column, mem, ne, named⟩
    · have hu := assembled.closed.owner ht hkey
      obtain ⟨mem, ne⟩ :=
        assembled.identityColumn?_named hu (Catalog.identityColumn?_of_identity? hidentity)
      exact ⟨key.table, hu, _, mem, ne, rfl⟩

/-- With default names, a parameter is called by a word if its column is. -/
theorem isWord_iff_of_namedFor {n : Naming} {a : Alphabet} (plain : n.affixes = [])
    (ne : column.name ≠ "") (named : q.NamedFor n column) :
    a.IsWord q.name ↔ ∀ ch ∈ column.name.toList, a.isWordChar ch = true := by
  have suffix : a.IsWord "Table" := Alphabet.isWord_of_ascii (by decide)
  obtain ⟨tail, name, htail⟩ : ∃ tail, q.name = column.name ++ tail ∧
      ∀ ch ∈ tail.toList, a.isWordChar ch = true := by
    rw [named]
    simp only [Naming.parameterName, Naming.affixed, plain, List.lookup_nil]
    split
    · exact ⟨"Table", rfl, suffix.chars⟩
    · exact ⟨"", by simp, by simp⟩
  have hchars : (∀ ch ∈ q.name.toList, a.isWordChar ch = true) ↔
      ∀ ch ∈ column.name.toList, a.isWordChar ch = true := by
    rw [name, String.toList_append, List.forall_mem_append, and_iff_left htail]
  rw [← hchars]
  exact ⟨Alphabet.IsWord.chars, fun chars => ⟨by simp [name, ne], chars⟩⟩

/-- The declaration of each parameter stands in the signature of a procedure where it is expected.
It reads as the name and the type of the parameter if and only if the column that the parameter is
named for is called by a word. A table type may have any name; that of another type is taken to be a
word. -/
theorem build_declares_iff (o : Options) (sqlServer : o.dialect = .sqlServer)
    (plain : o.naming.affixes = []) (m : Model) (c : Catalog) (db : Database) (c' : Catalog)
    (h : (o.build m c).value = .ok (db, c')) (a : Alphabet) :
    ∀ p ∈ db.procedures, ∀ q ∈ p.parameters, ∃ t ∈ db.tables, ∃ column ∈ (c'.table t).columns,
      column.name ≠ "" ∧ q.NamedFor o.naming column ∧ p.InSignature q ∧
      (q.isTableValued = true ∨ a.IsWord q.sqlType →
        (p.Declares a q ↔ ∀ ch ∈ column.name.toList, a.isWordChar ch = true)) := by
  intro p hp q hq
  obtain ⟨t, ht, column, hc, ne, named⟩ := build_namedFor sqlServer h hp hq
  refine ⟨t, ht, column, hc, ne, named, p.inSignature q, fun readable => ?_⟩
  rw [Procedure.declares_iff hq, and_iff_left readable, isWord_iff_of_namedFor plain ne named]

/-- Every parameter of `A`, the list of the rows of `B` among them, reads as it was written; of `B`,
the title does not. -/
theorem build_declares_listed :
    let o := (of .sqlServer).addProcedures .insert none
    let document : ModelDocument := { name := "m", classifiers := [
      { id := "a", name := "A", attributes := [
        .identity "Id" "integer", .of "title" "string", .many "bs" "b"] },
      { id := "b", name := "B", attributes := [
        .identity "Key" "uuid", .of "sub title" "string"] }] }
    ∃ m db c', Model.ofDatum document.write = .ok m ∧ (o.build m {}).value = .ok (db, c') ∧
      (db.procedures.map fun p => (p.name, p.parameters.map fun q => (q.name, q.sqlType))) = [
        ("InsertA", [("title", "nvarchar"), ("Id", "int")]),
        ("UpdateAbs", [("Id", "int"), ("KeyTable", "UniqueidentifierTable")]),
        ("InsertB", [("Key", "uniqueidentifier"), ("sub title", "nvarchar")])] ∧
      ∀ a : Alphabet, ∀ p ∈ db.procedures, ∀ q ∈ p.parameters, p.Declares a q ↔
        q.name ≠ "sub title" := by
  intro o document
  have hrun : o.observe document (fun _ db c' => do
      let readable : Bool := ∀ p ∈ db.procedures, ∀ q ∈ p.parameters,
        IsAscii q.sqlType ∧ (q.name ≠ "sub title" → IsAscii q.name)
      return (readable, db.procedures.map fun p : Procedure =>
        (p.name, p.parameters.map fun q : Parameter => (q.name, q.sqlType)))) =
      .ok (true, [
        ("InsertA", [("title", "nvarchar"), ("Id", "int")]),
        ("UpdateAbs", [("Id", "int"), ("KeyTable", "UniqueidentifierTable")]),
        ("InsertB", [("Key", "uniqueidentifier"), ("sub title", "nvarchar")])]) := by
    decide +kernel
  obtain ⟨m, db, c', hm, hb, hrun⟩ := observe_eq_ok.mp hrun
  obtain ⟨hreadable, hparameters⟩ := Prod.mk.inj (Except.ok.inj hrun)
  have readable := of_decide_eq_true hreadable
  refine ⟨m, db, c', hm, hb, hparameters, fun a p hp q hq => ?_⟩
  obtain ⟨t, ht, column, hc, ne, named, _, declares⟩ :=
    build_declares_iff o rfl rfl m {} db c' hb a p hp q hq
  obtain ⟨type, name⟩ := readable p hp q hq
  rw [declares (.inr (Alphabet.isWord_of_ascii type)), ← isWord_iff_of_namedFor rfl ne named]
  constructor
  · intro isWord e
    exact Alphabet.not_isWord_of_blank (by simp [e]) isWord
  · exact fun other => Alphabet.isWord_of_ascii (name other)

/-- A parameter whose column is called by two words is not read as it was written, and neither is
one whose type is. -/
theorem not_declares_blank :
    let o := (of .sqlServer).addProcedures .insert none
    let document : ModelDocument := { name := "m", classifiers := [
      { id := "s", name := "shoe size", kind := .dataType },
      { id := "a", name := "A", attributes := [
        .identity "Id" "uuid", .of "First Name" "string", .of "size" "s"] }] }
    ∃ m db c' p, Model.ofDatum document.write = .ok m ∧ (o.build m {}).value = .ok (db, c') ∧
      db.procedures = [p] ∧ p.header =
        "CREATE PROCEDURE [InsertA] (\n@Id uniqueidentifier,\n@First Name nvarchar(max),\n@size shoe size\n)" ∧
      ∀ a : Alphabet, ∀ q ∈ p.parameters, p.Declares a q ↔ q.name = "Id" := by
  intro o document
  have hrun : o.observe document (fun _ db c' =>
      .ok (db.procedures.map fun p : Procedure =>
        (p.header, p.parameters.map fun q : Parameter => (q.name, q.sqlType, q.isTableValued)))) =
      .ok [
        ("CREATE PROCEDURE [InsertA] (\n@Id uniqueidentifier,\n@First Name nvarchar(max),\n@size shoe size\n)", [
          ("Id", "uniqueidentifier", false), ("First Name", "nvarchar", false),
          ("size", "shoe size", false)])] := by
    decide +kernel
  obtain ⟨m, db, c', hm, hb, hrun⟩ := observe_eq_ok.mp hrun
  obtain ⟨p, hp, hpair⟩ := List.map_eq_singleton_iff.mp (Except.ok.inj hrun)
  obtain ⟨header, parameters⟩ := Prod.mk.inj hpair
  refine ⟨m, db, c', p, hm, hb, hp, header, fun a q hq => ?_⟩
  have facts :=
    List.mem_map_of_mem (f := fun q : Parameter => (q.name, q.sqlType, q.isTableValued)) hq
  rw [parameters] at facts
  simp only [List.mem_cons, Prod.mk.injEq, List.not_mem_nil, or_false] at facts
  rw [Procedure.declares_iff hq]
  obtain ⟨name, type, scalar⟩ | ⟨name, type, scalar⟩ | ⟨name, type, scalar⟩ := facts
  · exact iff_of_true ⟨Alphabet.isWord_of_ascii (by rw [name]; decide),
      .inr (Alphabet.isWord_of_ascii (by rw [type]; decide))⟩ name
  · refine iff_of_false (fun h => ?_) (by simp [name])
    exact Alphabet.not_isWord_of_blank (by simp [name]) h.1
  · refine iff_of_false (fun h => ?_) (by simp [name])
    exact Alphabet.not_isWord_of_blank (by simp [type]) (h.2.resolve_left (by simp [scalar]))

end Options

end Schemata
