import Schemata.Proofs.Document.Written
import Schemata.Proofs.Schema.ColumnTypes
import Schemata.Proofs.Schema.PrincipalKeys

/-!
# Columns of primary keys

The length and the digits of a column follow from its SQL type and the property that it has its type
from. That the column is under a primary key, or that the database counts its values up, makes no
difference.
-/
namespace Schemata

/-- The values of the column are whole numbers; without a scale, a number has no digits after the
point. -/
def Column.IsWhole (column : Column) : Prop :=
  column.sqlType ∈ ["tinyint", "smallint", "int", "bigint"] ∨
    column.sqlType ∈ ["decimal", "numeric"] ∧ column.facets.scale.getD 0 = 0

instance (column : Column) : Decidable column.IsWhole :=
  inferInstanceAs (Decidable (_ ∨ _))

theorem toString_ne_max (i : Int) : toString i ≠ "max" := by
  intro h
  cases i with
  | ofNat n =>
    have h : toString n = "max" := h
    have hm : 'm' ∈ Nat.toDigits 10 n := by
      have : 'm' ∈ (toString n).toList := h ▸ by decide
      simpa [Nat.toString_eq_repr, Nat.repr] using this
    exact absurd (Nat.isDigit_of_mem_toDigits (by decide) (by decide) hm) (by decide)
  | negSucc n =>
    have h : "-" ++ toString (n + 1) = "max" := h
    have hhead := congrArg (fun s : String => s.toList.head?) h
    simp at hhead

namespace Dialect

variable {sqlType : String} {p : Property}

/-- Only a property that sets no length gives a column as much as its type allows. -/
theorem length_eq_max_iff : Dialect.sqlServer.length sqlType (some p) = some "max" ↔
    sqlType ∈ lengthTypes ∧ p.facets.maxLength = none ∧
      (p.multiplicity.isMany = true ∨ sqlType ∉ fixedLengthTypes) := by
  by_cases takes : sqlType ∈ lengthTypes
  · cases hlength : p.facets.maxLength with
    | some n => simpa [length, takes, hlength] using toString_ne_max n
    | none => cases hmany : p.multiplicity.isMany <;> simp [length, takes, hlength, hmany]
  · simp [length, takes]

end Dialect

namespace Options

variable {o : Options} {m : Model} {p : PropertyRef}

/-- The digits after the point are those of the property, or two if it does not set them. -/
theorem isWhole_iff {column : Column} (h : (o.typeProvider m).Types (m.property p) column)
    (facets : o.facets = .sqlServer) (counted : column.isAutoIncrement = true) :
    column.IsWhole ↔ (column.sqlType = "decimal" → (m.property p).facets.scale = some 0) := by
  have hscale : column.facets.scale =
      if column.sqlType = "decimal" then some ((m.property p).facets.scale.getD 2) else none := by
    rw [h.facets, typeProvider, facets]
    simp [Dialect.facets]
  have htype : column.sqlType ∈ countingTypes := by
    simp only [Column.isAutoIncrement, Bool.and_eq_true, List.contains_iff_mem] at counted
    exact counted.2
  by_cases hdecimal : column.sqlType = "decimal"
  · cases hset : (m.property p).facets.scale <;> simp [Column.IsWhole, hscale, hdecimal, hset]
  · simp only [countingTypes, List.mem_cons, List.not_mem_nil, hdecimal, false_or,
      or_false] at htype
    refine iff_of_true ?_ fun h => absurd h hdecimal
    rw [Column.IsWhole, hscale, if_neg hdecimal]
    simp
    tauto

/-- Primary keys are on identity columns. A column has as much length as its type allows exactly if
the property that it has its type from sets none, unless it is a single value of a fixed-length
type. A column whose values the database counts up has whole numbers, and a decimal one exactly if
the property sets a scale of zero. -/
theorem build_primaryColumns (o : Options) (sqlServer : o.dialect = .sqlServer)
    (facets : o.facets = .sqlServer) (m : Model) (loaded : m.Loaded) (c : Catalog) (db : Database)
    (c' : Catalog) (h : (o.build m c).value = .ok (db, c')) (t : TableRef) (ht : t ∈ db.tables) :
    (∀ k ∈ (c'.table t).keys, k.kind = .primary →
      ∃ identity, (c'.table t).identityColumn? = some identity ∧ k.column = identity.name) ∧
    ∀ column ∈ (c'.table t).columns, ∃ p, column.typing? = some p ∧
      (column.facets.length = some "max" ↔ column.sqlType ∈ lengthTypes ∧
        (m.property p).facets.maxLength = none ∧
        ((m.property p).multiplicity.isMany = true ∨ column.sqlType ∉ fixedLengthTypes)) ∧
      (column.isAutoIncrement = true → (column.IsWhole ↔
        (column.sqlType = "decimal" → (m.property p).facets.scale = some 0))) := by
  rw [build_eq] at h
  obtain ⟨map, _, h⟩ := Logged.bind_eq_ok.mp h
  obtain ⟨definition, completed⟩ := buildWith_eq_ok sqlServer loaded.wellFormed.distinct h
  constructor
  · intro k hk primary
    rcases completed.key_cases loaded.wellFormed ht hk with ⟨foreign, _⟩ | ⟨_, onIdentity⟩
    · rw [foreign] at primary
      cases primary
    · exact onIdentity
  · intro column hc
    obtain ⟨s, own, further, made⟩ := completed.derived.made ht
    obtain ⟨p, hp, types⟩ := made.typing? hc
    refine ⟨p, hp, ?_, isWhole_iff types facets⟩
    rw [types.facets, typeProvider, facets]
    exact Dialect.length_eq_max_iff

/-- An account is told apart by a text of some length, its entries by numbers without digits after
the point. -/
theorem build_primaryColumns_account :
    let o := of .sqlServer
    let document : ModelDocument := { name := "m", classifiers := [
      { id := "a", name := "Account", attributes := [
        { name := "Code", type := some "string", isId := true,
          facets := { maxLength := some 20 } }] },
      { id := "e", name := "Entry", attributes := [
        { name := "Number", type := some "decimal", isId := true, facets := { scale := some 0 } },
        .of "account" "a"] }] }
    ∃ m db c', m.Loaded ∧ Model.ofDatum document.write = .ok m ∧
      (o.build m {}).value = .ok (db, c') ∧
      (db.tables.map fun t => (c'.table t).columns.map Column.text) =
        [["[Code] [nvarchar](20) NOT NULL"],
          ["[Number] [decimal](18) IDENTITY(1,1) NOT NULL",
            "[accountId] [nvarchar](20) NOT NULL"]] ∧
      ∀ t ∈ db.tables,
        (∀ k ∈ (c'.table t).keys, k.kind = .primary →
          ∃ identity, (c'.table t).identityColumn? = some identity ∧ k.column = identity.name) ∧
        ∀ column ∈ (c'.table t).columns,
          column.facets.length ≠ some "max" ∧ (column.isAutoIncrement = true → column.IsWhole) := by
  intro o document
  have hrun : o.observe document (fun m db c' =>
      .ok (decide (∀ t ∈ db.tables, ∀ column ∈ (c'.table t).columns, ∀ p ∈ column.typing?,
          (column.sqlType ∈ lengthTypes → (m.property p).facets.maxLength ≠ none) ∧
            (column.sqlType = "decimal" → (m.property p).facets.scale = some 0)),
        db.tables.map fun t => (c'.table t).columns.map Column.text)) =
      .ok (true, [["[Code] [nvarchar](20) NOT NULL"],
          ["[Number] [decimal](18) IDENTITY(1,1) NOT NULL",
            "[accountId] [nvarchar](20) NOT NULL"]]) := by
    decide +kernel
  obtain ⟨m, db, c', hm, hb, hrun⟩ := observe_eq_ok.mp hrun
  obtain ⟨hset, htexts⟩ := Prod.mk.inj (Except.ok.inj hrun)
  have set := of_decide_eq_true hset
  refine ⟨m, db, c', .document hm, hm, hb, htexts, fun t ht => ?_⟩
  obtain ⟨keys, columns⟩ := build_primaryColumns o rfl rfl m (.document hm) {} db c' hb t ht
  refine ⟨keys, fun column hc => ?_⟩
  obtain ⟨p, hp, length, whole⟩ := columns column hc
  obtain ⟨hlength, hscale⟩ := set t ht column hc p hp
  exact ⟨fun e => hlength (length.mp e).1 (length.mp e).2.1,
    fun counted => (whole counted).mpr hscale⟩

/-- A class is told apart by a text of any length. -/
theorem not_bounded_primaryColumn :
    let o := of .sqlServer
    let document : ModelDocument := { name := "m", classifiers := [
      { id := "a", name := "A", attributes := [.identity "Code" "string"] }] }
    ∃ m db c', m.Loaded ∧ Model.ofDatum document.write = .ok m ∧
      (o.build m {}).value = .ok (db, c') ∧
      (db.tables.map fun t => (c'.table t).columns.map Column.text) =
        [["[Code] [nvarchar](max) NOT NULL"]] ∧
      ∃ t ∈ db.tables, ∃ k ∈ (c'.table t).keys, k.kind = .primary ∧
        ∃ column ∈ (c'.table t).columns, column.name = k.column ∧
          column.facets.length = some "max" := by
  intro o document
  have hrun : o.observe document (fun _ db c' =>
      .ok (db.tables.map fun t => (c'.table t).columns.map Column.text,
        decide (∃ t ∈ db.tables, ∃ k ∈ (c'.table t).keys, k.kind = KeyKind.primary ∧
          ∃ column ∈ (c'.table t).columns, column.name = k.column ∧
            column.facets.length = some "max"))) =
      .ok ([["[Code] [nvarchar](max) NOT NULL"]], true) := by
    decide +kernel
  obtain ⟨m, db, c', hm, hb, hrun⟩ := observe_eq_ok.mp hrun
  obtain ⟨htexts, hkey⟩ := Prod.mk.inj (Except.ok.inj hrun)
  exact ⟨m, db, c', .document hm, hm, hb, htexts, of_decide_eq_true hkey⟩

end Options

end Schemata
