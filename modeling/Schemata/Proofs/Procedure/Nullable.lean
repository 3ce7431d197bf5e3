import Schemata.Proofs.Document.Written
import Schemata.Proofs.Procedure.Rendered
import Schemata.Proofs.Procedure.Rows
import Schemata.Proofs.Procedure.Selected
import Schemata.Proofs.Schema.PrincipalKeys

/-!
# Nullable columns of result sets

A column of a result set is nullable if the column that it shows is. For the table that is selected
from this is right. The columns of a joined table are NULL wherever no row refers to the one that is
selected, whatever they declare.
-/
namespace Schemata

/-- The procedure returns NULL in the column for some rows that keep to the constraints. -/
def Procedure.CanBeNull (p : Procedure) (db : Database) (c : Catalog) (r : ResultColumn) : Prop :=
  ∃ contents arguments, Contents.Obeys contents c db.tables ∧
    ∃ cells ∈ p.rows c contents arguments, (r, none) ∈ cells

/-- The result column shows a required column of the table, which is not joined. -/
structure ResultColumn.ShowsRequired (r : ResultColumn) (table : Table) : Prop where
  isJoined : r.isJoined = false
  sourceTable : r.sourceTable = table.name
  column : ∃ column ∈ table.columns, column.isNavigable = true ∧ column.isNullable = false ∧
    r.sourceColumn = column.name

/-- The database can be created, and the procedure can be called: names are distinct, and no joined
table is selected from under the name of the table itself. -/
structure Procedure.Distinct (p : Procedure) (db : Database) (c : Catalog) : Prop where
  tables : (db.tables.map fun t => (c.table t).name).Nodup
  columns : ((c.table p.table).columns.map (·.name)).Nodup
  labels : ∀ key ∈ ResultSet.relationshipKeys c (c.table p.table),
    c.label key ≠ (c.table p.table).name

instance (p : Procedure) (db : Database) (c : Catalog) : Decidable (p.Distinct db c) :=
  decidable_of_iff ((db.tables.map fun t => (c.table t).name).Nodup ∧
      ((c.table p.table).columns.map (·.name)).Nodup ∧
      ∀ key ∈ ResultSet.relationshipKeys c (c.table p.table), c.label key ≠ (c.table p.table).name)
    ⟨fun h => ⟨h.1, h.2.1, h.2.2⟩, fun h => ⟨h.tables, h.columns, h.labels⟩⟩

/-! ## Rows to which no other refers -/

def commonRow : Row := fun _ => some "1"

def loneRow (identity : String) : Row := fun column => some (if column = identity then "2" else "1")

/-- Each table has the common row, and one table has another one besides. -/
def loneContents (table identity : String) : Contents := fun name =>
  if name = table then [commonRow, loneRow identity] else [commonRow]

section
variable {table identity name column : String} {row : Row}

theorem commonRow_mem : commonRow ∈ loneContents table identity name := by
  rw [loneContents]
  split <;> simp

theorem mem_loneContents (h : row ∈ loneContents table identity name) :
    row = commonRow ∨ name = table ∧ row = loneRow identity := by
  rw [loneContents] at h
  split at h
  case isTrue e => simpa [e] using h
  case isFalse => exact .inl (List.mem_singleton.mp h)

theorem ne_none_of_mem (h : row ∈ loneContents table identity name) : row column ≠ none := by
  rcases mem_loneContents h with rfl | ⟨_, rfl⟩ <;> exact Option.some_ne_none _

/-- Only the identity of the row that is alone has another value. -/
theorem eq_common_of_mem (h : row ∈ loneContents table identity name)
    (other : name = table → column ≠ identity) : row column = some "1" := by
  rcases mem_loneContents h with rfl | ⟨e, rfl⟩
  · rfl
  · rw [loneRow, if_neg (other e)]

theorem loneContents_holds {k : Key} {on : Column} (h : k.On on)
    (primary : name = table → on.isIdentity = true → on.name = identity)
    (foreign : name = table → on.isForeignKey = true → on.name ≠ identity) :
    k.Holds (loneContents table identity) (loneContents table identity name) := by
  cases h with
  | primary hidentity =>
    refine ⟨?_, fun row hrow => ne_none_of_mem hrow⟩
    rw [loneContents]
    split
    case isTrue e => simp [commonRow, loneRow, primary e hidentity]
    case isFalse => simp
  | @foreign _ principalTable _ hforeign =>
    intro row hrow value hvalue
    rw [eq_common_of_mem hrow fun e => foreign e hforeign] at hvalue
    exact ⟨_, rfl, _, rfl, commonRow, commonRow_mem, hvalue⟩

end

/-! ## Columns of the table itself and of joined tables -/

namespace Procedure

variable {p : Procedure} {db : Database} {n : Naming} {c : Catalog} {identity : Column}
  {own : ResultSet} {attached : List (Join × ResultSet)} {conditions : List Condition}
  {r : ResultColumn}

theorem Selection.mem_own (h : p.Selection n c identity own attached conditions) (hr : r ∈ own) :
    ∃ column ∈ (c.table p.table).columns, column.isNavigable = true ∧
      r.Shows n (c.table p.table).name none column := by
  obtain ⟨column, hc, shows⟩ := exists_mem_of_forall₂ h.unjoined.flip hr
  exact ⟨column, (List.mem_filter.mp hc).1, (List.mem_filter.mp hc).2, shows⟩

theorem Selection.mem_attached (h : p.Selection n c identity own attached conditions)
    (hr : r ∈ attached.flatMap (·.2)) :
    ∃ key ∈ ResultSet.relationshipKeys c (c.table p.table),
      ∃ ref ∈ c.columnRefs key.table, ref ≠ key ∧
      r.Shows n (c.label key) (some (c.column key)) (c.column ref) := by
  obtain ⟨part, hpart, hr⟩ := List.mem_flatMap.mp hr
  obtain ⟨key, hkey, attaches⟩ := exists_mem_of_forall₂ h.joined hpart
  obtain ⟨ref, href, shows⟩ := exists_mem_of_forall₂ attaches.columns.flip hr
  obtain ⟨href, hne⟩ := List.mem_filter.mp href
  exact ⟨key, hkey, ref, href, by simpa using hne, shows⟩

theorem Selection.mem_resultSet (h : p.Selection n c identity own attached conditions)
    (hr : r ∈ own ++ attached.flatMap (·.2)) :
    r ∈ own ∧ r.isJoined = false ∨ r ∈ attached.flatMap (·.2) ∧ r.isJoined = true := by
  refine (List.mem_append.mp hr).imp (fun hr => ⟨hr, ?_⟩) fun hr => ⟨hr, ?_⟩
  · obtain ⟨column, _, _, shows⟩ := h.mem_own hr
    exact shows.isJoined
  · obtain ⟨key, _, ref, _, _, shows⟩ := h.mem_attached hr
    exact shows.isJoined

theorem Selection.exists_shown (h : p.Selection n c identity own attached conditions)
    {key ref : ColumnRef} (hkey : key ∈ ResultSet.relationshipKeys c (c.table p.table))
    (href : ref ∈ c.columnRefs key.table) (hne : ref ≠ key) : ∃ r ∈ attached.flatMap (·.2),
      r.Shows n (c.label key) (some (c.column key)) (c.column ref) := by
  obtain ⟨part, hpart, attaches⟩ := exists_mem_of_forall₂ h.joined.flip hkey
  have href : ref ∈ (c.columnRefs key.table).filter (· != key) :=
    List.mem_filter.mpr ⟨href, by simpa using hne⟩
  obtain ⟨r, hr, shows⟩ := exists_mem_of_forall₂ attaches.columns href
  exact ⟨r, List.mem_flatMap.mpr ⟨part, hpart, hr⟩, shows⟩

/-- Each join keeps the row that is selected, so its required columns are never NULL. -/
theorem Selection.showsRequired (h : p.Selection n c identity own attached conditions)
    (ht : p.table ∈ db.tables) (hr : r ∈ own) (required : r.isNullable = false) :
    r.ShowsRequired (c.table p.table) ∧ ¬ p.CanBeNull db c r := by
  obtain ⟨column, hc, navigable, shows⟩ := h.mem_own hr
  rw [shows.isNullable] at required
  refine ⟨⟨shows.isJoined, shows.sourceTable, column, hc, navigable, required, shows.sourceColumn⟩,
    ?_⟩
  rintro ⟨contents, arguments, obeys, cells, hcells, hnull⟩
  rw [rows_of_body h.body, mem_rows_select] at hcells
  obtain ⟨s, hs, _, rfl⟩ := hcells
  -- The row that is selected stands in front of those that are joined to it, so it is found under
  -- its name.
  obtain ⟨first, hfirst, more, rfl⟩ := exists_of_mem_joined hs
  obtain ⟨row, hrow, rfl⟩ := List.mem_map.mp hfirst
  obtain ⟨r', _, e⟩ := List.mem_map.mp hnull
  obtain ⟨rfl, hvalue⟩ := Prod.mk.inj e
  rw [shows.sourceTable, shows.sourceColumn, List.singleton_append, Scope.value_cons] at hvalue
  exact obeys.required p.table ht row hrow column hc required hvalue

end Procedure

namespace Options

variable {o : Options} {m : Model} {map : RelationshipMap} {c : Catalog} {db : Database}
  {identityType : TableRef} {p : Procedure} {identity : Column} {own : ResultSet}
  {attached : List (Join × ResultSet)} {conditions : List Condition}

structure SelectsBy (c : Catalog) (p : Procedure) (identity : Column)
    (conditions : List Condition) :
    Prop where
  mem : identity ∈ (c.table p.table).columns
  only : ∀ column ∈ (c.table p.table).columns, column.isIdentity = true → column = identity
  single : identity.isMany = false
  plain : identity.isForeignKey = false
  conditions : ∀ condition ∈ conditions, ∃ parameter,
    condition = { column := ⟨(c.table p.table).name, identity.name⟩, parameter }

theorem Assembled.selectsBy (h : o.Assembled m map db c identityType) (hp : p ∈ db.procedures)
    (hq : p.query = .selectSingle)
    (selection : p.Selection o.naming c identity own attached conditions) :
    SelectsBy c p identity conditions := by
  obtain ⟨t, ht, origin⟩ := h.procedures p hp
  obtain ⟨definition, s, own, further, made⟩ := h.made t ht
  obtain ⟨rfl, column, source, hi, hfilter, identifies, typed, untyped⟩ :=
    origin.identified made (by rw [hq]; rfl)
  obtain rfl := Option.some.inj (selection.identified.symm.trans hi)
  refine ⟨List.mem_of_find?_eq_some hi, fun column hc hidentity => ?_, identifies.single,
    identifies.plain, fun condition hcondition => ?_⟩
  · have hmem := List.mem_filter.mpr ⟨hc, hidentity⟩
    rw [hfilter] at hmem
    exact List.mem_singleton.mp hmem
  · cases htyped : (m.property source).type.isSome with
    | true =>
      obtain ⟨q, statements, _, _, hbody, restricts⟩ := typed htyped
      rw [selection.body] at hbody
      obtain rfl := Except.ok.inj hbody
      have hconditions := (restricts _ (List.mem_singleton_self _)).conditions
      simp only [Statement.conditions] at hconditions
      rw [hconditions, List.mem_singleton] at hcondition
      exact ⟨q.name, hcondition⟩
    | false =>
      obtain ⟨statements, _, hbody, none⟩ := untyped htyped
      rw [selection.body] at hbody
      obtain rfl := Except.ok.inj hbody
      have hconditions := none _ (List.mem_singleton_self _)
      simp only [Statement.conditions] at hconditions
      rw [hconditions] at hcondition
      cases hcondition

theorem Assembled.obeys_loneContents (h : o.Assembled m map db c identityType)
    (ht : p.table ∈ db.tables) (selects : SelectsBy c p identity conditions)
    (distinct : p.Distinct db c) :
    (loneContents (c.table p.table).name identity.name).Obeys c db.tables := by
  refine ⟨fun t _ row hrow column _ _ => ne_none_of_mem hrow, fun t htable k hk => ?_⟩
  have same : (c.table t).name = (c.table p.table).name → t = p.table :=
    List.inj_on_of_nodup_map distinct.tables htable ht
  obtain ⟨column, hc, on⟩ := tableKeys_on (h.keys t htable) hk
  refine loneContents_holds on (fun e hidentity => ?_) fun e hforeign hname => ?_
  · obtain rfl := same e
    rw [selects.only column hc hidentity]
  · obtain rfl := same e
    obtain rfl := List.inj_on_of_nodup_map distinct.columns hc selects.mem hname
    rw [selects.plain] at hforeign
    cases hforeign

/-- No row refers to the one that is alone, as a key is not the identity of its own table. -/
theorem Assembled.ne_of_mem_loneContents (h : o.Assembled m map db c identityType)
    (ht : p.table ∈ db.tables) (selects : SelectsBy c p identity conditions)
    (distinct : p.Distinct db c) {key : ColumnRef}
    (hkey : key ∈ ResultSet.relationshipKeys c (c.table p.table)) {row : Row}
    (hrow : row ∈ loneContents (c.table p.table).name identity.name (c.table key.table).name) :
    row (c.column key).name ≠ loneRow identity.name identity.name := by
  have other :
      (c.table key.table).name = (c.table p.table).name → (c.column key).name ≠ identity.name := by
    intro e hname
    have many := (List.mem_filter.mp hkey).2
    have hcolumn := Catalog.column_mem many
    rw [List.inj_on_of_nodup_map distinct.tables (h.closed.owner ht hkey) ht e] at hcolumn
    rw [List.inj_on_of_nodup_map distinct.columns hcolumn selects.mem hname, selects.single] at many
    cases many
  rw [eq_common_of_mem hrow other]
  simp [loneRow]

/-- For a row to which no other refers, all columns of the joined tables are NULL. -/
theorem Assembled.canBeNull (h : o.Assembled m map db c identityType) (ht : p.table ∈ db.tables)
    (selection : p.Selection o.naming c identity own attached conditions)
    (selects : SelectsBy c p identity conditions) (distinct : p.Distinct db c)
    {r : ResultColumn} (hr : r ∈ attached.flatMap (·.2)) : p.CanBeNull db c r := by
  -- All joins compare a key with the identity of the row that is alone, and no key has its value.
  have attaches : ∀ j ∈ attached.map (·.1), j.principal = ⟨(c.table p.table).name, identity.name⟩ ∧
      ∀ other ∈ loneContents (c.table p.table).name identity.name j.table,
        other j.key ≠ loneRow identity.name identity.name := by
    intro j hj
    obtain ⟨part, hpart, rfl⟩ := List.mem_map.mp hj
    obtain ⟨key, hkey, attaches⟩ := exists_mem_of_forall₂ selection.joined hpart
    rw [attaches.join]
    exact ⟨rfl, fun other hother => h.ne_of_mem_loneContents ht selects distinct hkey hother⟩
  have hmem : [((c.table p.table).name, loneRow identity.name)] ∈
      (loneContents (c.table p.table).name identity.name (c.table p.table).name).map
        fun row => [((c.table p.table).name, row)] :=
    List.mem_map_of_mem (by simp [loneContents])
  have hjoined :=
    nulls_mem_joined hmem (fun j hj => (attaches j hj).1) fun j hj => (attaches j hj).2
  rw [List.nil_append] at hjoined
  have hcells : (own ++ attached.flatMap (·.2)).map (fun r => (r, Scope.value
      (((c.table p.table).name, loneRow identity.name) ::
        (attached.map (·.1)).map fun j => (j.label, nullRow)) ⟨r.sourceTable, r.sourceColumn⟩)) ∈
      p.rows c (loneContents (c.table p.table).name identity.name) fun _ => some "2" := by
    rw [Procedure.rows_of_body selection.body, mem_rows_select]
    refine ⟨_, hjoined, fun condition hcondition => ?_, rfl⟩
    obtain ⟨parameter, rfl⟩ := selects.conditions condition hcondition
    simp [Condition.holds, Scope.value_cons, loneRow, equals]
  refine ⟨_, _, h.obeys_loneContents ht selects distinct, _, hcells,
    List.mem_map.mpr ⟨r, List.mem_append_right _ hr, ?_⟩⟩
  obtain ⟨key, hkey, ref, _, _, shows⟩ := selection.mem_attached hr
  rw [shows.sourceTable, Scope.value_nulls (distinct.labels key hkey)]

theorem build_selectsBy (sqlServer : o.dialect = .sqlServer) {c' : Catalog}
    (h : (o.build m c).value = .ok (db, c')) (hp : p ∈ db.procedures)
    (hq : p.query = .selectSingle) :
    p.table ∈ db.tables ∧ ∃ map identityType identity own attached conditions,
      o.Assembled m map db c' identityType ∧
      p.Selection o.naming c' identity own attached conditions ∧
        SelectsBy c' p identity conditions := by
  obtain ⟨map, identityType, _, assembled⟩ := build_assembled sqlServer h
  obtain ⟨ht, rows⟩ := build_returnsTable sqlServer h hp hq
  obtain ⟨identity, own, attached, conditions, selection⟩ := assembled.exists_selection hp hq rows
  exact ⟨ht, map, identityType, identity, own, attached, conditions, assembled, selection,
    assembled.selectsBy hp hq selection⟩

theorem build_canBeNull (sqlServer : o.dialect = .sqlServer) {c' : Catalog}
    (h : (o.build m c).value = .ok (db, c')) (hp : p ∈ db.procedures) (hq : p.query = .selectSingle)
    (distinct : p.Distinct db c') {rows : ResultSet} (hrows : p.resultSets = [rows])
    {r : ResultColumn} (hr : r ∈ rows) (joined : r.isJoined = true) : p.CanBeNull db c' r := by
  obtain ⟨ht, map, identityType, identity, own, attached, conditions, assembled,
    selection, selects⟩ :=
    build_selectsBy sqlServer h hp hq
  obtain rfl := List.singleton_inj.mp (hrows.symm.trans selection.resultSets)
  rcases selection.mem_resultSet hr with ⟨_, plain⟩ | ⟨hr, _⟩
  · rw [joined] at plain
    cases plain
  · exact assembled.canBeNull ht selection selects distinct hr

/-- The columns of a result set that are not nullable are right exactly if the tables that are
joined have no required column besides the key: the others are NULL for a row to which no other
refers. -/
theorem build_showsRequired_iff (o : Options) (sqlServer : o.dialect = .sqlServer) (m : Model)
    (c : Catalog) (db : Database) (c' : Catalog) (h : (o.build m c).value = .ok (db, c'))
    (p : Procedure) (hp : p ∈ db.procedures) (hq : p.query = .selectSingle) :
    p.table ∈ db.tables ∧ ∃ rows, p.resultSets = [rows] ∧
      (∀ r ∈ rows, r.isJoined = false → r.isNullable = false →
        r.ShowsRequired (c'.table p.table) ∧ ¬ p.CanBeNull db c' r) ∧
      (p.Distinct db c' → ∀ r ∈ rows, r.isJoined = true → p.CanBeNull db c' r) ∧
      ((∀ r ∈ rows, r.isNullable = false →
          r.ShowsRequired (c'.table p.table) ∧ ¬ p.CanBeNull db c' r) ↔
        ∀ key ∈ (c'.table p.table).dependents, (c'.column key).isMany = true →
          ∀ ref ∈ c'.columnRefs key.table, ref ≠ key → (c'.column ref).isNullable = true) := by
  obtain ⟨ht, _, _, identity, own, attached, conditions, _, selection, _⟩ :=
    build_selectsBy sqlServer h hp hq
  have plain : ∀ r ∈ own ++ attached.flatMap (·.2), r.isJoined = false → r.isNullable = false →
      r.ShowsRequired (c'.table p.table) ∧ ¬ p.CanBeNull db c' r := by
    intro r hr plain required
    rcases selection.mem_resultSet hr with ⟨hr, _⟩ | ⟨_, joined⟩
    · exact selection.showsRequired ht hr required
    · rw [joined] at plain
      cases plain
  refine ⟨ht, _, selection.resultSets, plain, fun distinct r hr joined =>
    build_canBeNull sqlServer h hp hq distinct selection.resultSets hr joined, ?_⟩
  constructor
  · intro right key hkey many ref href hne
    by_contra required
    obtain ⟨r, hr, shows⟩ := selection.exists_shown (List.mem_filter.mpr ⟨hkey, many⟩) href hne
    have hrequired :
        r.isNullable = false := by rw [shows.isNullable, Bool.eq_false_iff.mpr required]
    have unjoined := (right r (List.mem_append_right _ hr) hrequired).1.isJoined
    rw [shows.isJoined] at unjoined
    cases unjoined
  · intro nullable r hr required
    rcases selection.mem_resultSet hr with ⟨_, unjoined⟩ | ⟨hjoined, _⟩
    · exact plain r hr unjoined required
    · obtain ⟨key, hkey, ref, href, hne, shows⟩ := selection.mem_attached hjoined
      obtain ⟨hkey, many⟩ := List.mem_filter.mp hkey
      rw [shows.isNullable, nullable key hkey many ref href hne] at required
      cases required

/-- What the notes of a document say may be left open. -/
theorem build_showsRequired_open :
    let o := (of .sqlServer).addProcedures .selectById none
    let document : ModelDocument := { name := "m", classifiers := [
      { id := "d", name := "Document", attributes := [
        .identity "Id" "integer", .many "notes" "n"] },
      { id := "n", name := "Note", attributes := [
        { name := "text", type := some "string", lower := 0 }] }] }
    ∃ m db c' p rows, Model.ofDatum document.write = .ok m ∧ (o.build m {}).value = .ok (db, c') ∧
      p ∈ db.procedures ∧ p.query = .selectSingle ∧ p.resultSets = [rows] ∧
      rows.map (fun r => (r.name, r.isNullable)) = [("Id", false), ("notes_text", true)] ∧
      ∀ r ∈ rows, r.isNullable = false → r.ShowsRequired (c'.table p.table) ∧
        ¬ p.CanBeNull db c' r := by
  intro o document
  have hrun : o.observe document (fun _ db c' =>
      .ok (db.procedures.map fun p : Procedure => decide (p.query = QueryKind.selectSingle ∧
        p.resultSets.map (List.map fun r : ResultColumn => (r.name, r.isNullable)) =
          [[("Id", false), ("notes_text", true)]] ∧
        ∀ key ∈ (c'.table p.table).dependents, (c'.column key).isMany = true →
          ∀ ref ∈ c'.columnRefs key.table, ref ≠ key → (c'.column ref).isNullable = true))) =
      .ok [true] := by
    decide +kernel
  obtain ⟨m, db, c', hm, hb, hrun⟩ := observe_eq_ok.mp hrun
  obtain ⟨p, hps, e⟩ := List.map_eq_singleton_iff.mp (Except.ok.inj hrun)
  obtain ⟨hq, hshown, nullable⟩ := of_decide_eq_true e
  have hp : p ∈ db.procedures := by
    rw [show db.procedures = [p] from hps]
    exact List.mem_singleton_self p
  obtain ⟨_, rows, hrows, _, _, right⟩ := build_showsRequired_iff o rfl m {} db c' hb p hp hq
  rw [hrows] at hshown
  exact ⟨m, db, c', p, rows, hm, hb, hp, hq, hrows, List.singleton_inj.mp hshown,
    right.mpr nullable⟩

/-- Each employee has a name, but a department may be without employees. -/
theorem not_showsRequired_joined :
    let o := (of .sqlServer).addProcedures .selectById none
    let document : ModelDocument := { name := "m", classifiers := [
      { id := "d", name := "Department", attributes := [
        .identity "Id" "integer", .of "Name" "string", .many "Employees" "e"] },
      { id := "e", name := "Employee", attributes := [
        .identity "Id" "integer", .of "Name" "string"] }] }
    ∃ m db c' p rows, Model.ofDatum document.write = .ok m ∧ (o.build m {}).value = .ok (db, c') ∧
      p ∈ db.procedures ∧ p.query = .selectSingle ∧ p.resultSets = [rows] ∧
      ∃ r ∈ rows, r.name = "Employees_Name" ∧ r.isJoined = true ∧ r.isNullable = false ∧
        p.CanBeNull db c' r ∧ ¬ r.ShowsRequired (c'.table p.table) := by
  intro o document
  have hrun : o.observe document (fun _ db c' =>
      .ok (db.procedures.map fun p : Procedure => decide (p.query = QueryKind.selectSingle ∧
        p.Distinct db c' ∧
        p.resultSets.map (List.map fun r : ResultColumn => (r.name, r.isJoined, r.isNullable)) =
          [[("Id", false, false), ("Name", false, false), ("Employees_Id", true, false),
            ("Employees_Name", true, false)]]))) =
      .ok [true, false] := by
    decide +kernel
  obtain ⟨m, db, c', hm, hb, hrun⟩ := observe_eq_ok.mp hrun
  obtain ⟨p, rest, hps, e, -⟩ := List.map_eq_cons_iff.mp (Except.ok.inj hrun)
  obtain ⟨hq, distinct, hshown⟩ := of_decide_eq_true e
  have hp : p ∈ db.procedures := by
    rw [show db.procedures = p :: rest from hps]
    exact List.mem_cons_self
  obtain ⟨rows, hrows, hshown⟩ := List.map_eq_singleton_iff.mp hshown
  obtain ⟨r, hr, e⟩ : ∃ r ∈ rows, (r.name, r.isJoined, r.isNullable) =
    ("Employees_Name", true, false) :=
    List.mem_map.mp (by rw [hshown]; decide)
  simp only [Prod.mk.injEq] at e
  obtain ⟨hname, joined, required⟩ := e
  refine ⟨m, db, c', p, rows, hm, hb, hp, hq, hrows, r, hr, hname, joined, required,
    build_canBeNull rfl hb hp hq distinct hrows hr joined, fun shows => ?_⟩
  rw [shows.isJoined] at joined
  cases joined

end Options

end Schemata
