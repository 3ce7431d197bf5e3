import Schemata.Proofs.Assembled
import Schemata.Proofs.Document.Written
import Schemata.Proofs.Procedure.ById

/-!
# Selections by identity

What a selection returns is laid out when the procedure is derived, and what it joins is read off
the table again when its body is written. Both take the same relationships in the same order and
give each of them the same label.
-/
namespace Schemata
open Text

variable {n : Naming} {m : Model} {c c' : Catalog} {tables : List TableRef} {t : TableRef}
  {key : ColumnRef} {filter : Column → Bool}

/-! ## Rows while the catalog grows -/

namespace ResultSet

theorem joinedColumns_grows (grows : c.Grows c') (bounded : key.table.place < c.tables.length) :
    joinedColumns n m c' filter key = joinedColumns n m c filter key := by
  have hcolumn : ∀ ref ∈ c.columnRefs key.table, c'.column ref = c.column ref := by
    intro ref hr
    obtain ⟨i, _, rfl⟩ := List.mem_map.mp hr
    exact grows.column bounded
  have hrefs : c'.columnRefs key.table = c.columnRefs key.table := by
    rw [Catalog.columnRefs, Catalog.columnRefs, grows.table bounded]
  simp only [joinedColumns, hrefs, grows.column bounded, grows.table bounded]
  rw [List.filter_congr fun ref hr => by rw [hcolumn ref hr]]
  exact List.map_congr_left fun ref hr => by rw [hcolumn ref (List.mem_filter.mp hr).1]

/-- Only the table and those that refer to it are read. -/
theorem ofTable_grows (closed : c.Closed tables) (grows : c.Grows c') (ht : t ∈ tables) :
    ofTable n m c' (c'.table t) filter = ofTable n m c (c.table t) filter := by
  have hjoined : (relationshipKeys c (c.table t)).flatMap (joinedColumns n m c' filter) =
      (relationshipKeys c (c.table t)).flatMap (joinedColumns n m c filter) :=
    List.flatMap_congr fun key hkey =>
      joinedColumns_grows grows (closed.bounded _ (closed.owner ht hkey))
  simp only [ofTable]
  rw [closed.relationshipKeys grows ht, hjoined, grows.table (closed.bounded t ht)]

end ResultSet

def Procedure.ReturnsTable (p : Procedure) (n : Naming) (m : Model) (c : Catalog) : Prop :=
  p.resultSets = [ResultSet.ofTable n m c (c.table p.table) fun _ => true]

namespace ProcedureDraft

/-- The tables only know one another, and each selection was made for one of them and returns its
rows. -/
structure Selecting (n : Naming) (m : Model) (tables : List TableRef) (d : ProcedureDraft) :
    Prop where
  closed : d.catalog.Closed tables
  rows : ∀ p ∈ d.procedures, p.query = .selectSingle →
    p.table ∈ tables ∧ p.ReturnsTable n m d.catalog

variable {rules : ProcedureRules} {d d' : ProcedureDraft} {p : Procedure} {model : ClassifierRef}

theorem Selecting.extend (h : d.Selecting n m tables) (grows : d.catalog.Grows d'.catalog)
    (new : ∀ p ∈ d'.procedures, p ∈ d.procedures ∨
      (p.query = .selectSingle → p.table ∈ tables ∧ p.ReturnsTable n m d'.catalog)) :
    d'.Selecting n m tables := by
  refine ⟨h.closed.grows grows, fun p hp hq => ?_⟩
  rcases new p hp with hp | hrows
  · obtain ⟨ht, hrows⟩ := h.rows p hp hq
    refine ⟨ht, ?_⟩
    rw [Procedure.ReturnsTable, ResultSet.ofTable_grows h.closed grows ht]
    exact hrows
  · exact hrows hq

theorem Selecting.add {added : Bool} (h : d.Selecting n m tables)
    (ok : (d.add p).value = .ok (added, d'))
    (rows : p.query = .selectSingle → p.table ∈ tables ∧ p.ReturnsTable n m d.catalog) :
    d'.Selecting n m tables := by
  rcases add_eq_ok ok with ⟨_, rfl⟩ | ⟨_, rfl⟩
  · exact h
  · refine h.extend (.refl _) fun q hq => ?_
    rcases List.mem_append.mp hq with hq | hq
    · exact .inl hq
    · rw [List.mem_singleton.mp hq]
      exact .inr rows

theorem query_of_addRelationshipUpdate
    (ok : (d.addRelationshipUpdate rules m t model key).value = .ok d') :
    ∀ p ∈ d'.procedures, p ∈ d.procedures ∨ p.query = .updateRelationship := by
  rw [ProcedureDraft.addRelationshipUpdate] at ok
  split at ok
  case h_1 =>
    cases ok
    exact fun p => .inl
  case h_2 =>
    cases ok
    exact fun p => .inl
  case h_3 =>
    obtain ⟨⟨values, d₁⟩, hv, ok⟩ := Logged.bind_eq_ok.mp ok
    obtain ⟨q, hq, ok⟩ := Logged.bind_eq_ok.mp ok
    obtain ⟨u, hu, _⟩ := listParameter_eq_ok hv
    obtain ⟨_, procedures⟩ := listType_eq_ok hu
    obtain ⟨name, rfl⟩ := procedure_eq_ok (Logged.lift_eq_ok.mp hq)
    split at ok
    · cases ok
      rw [procedures]
      exact fun p => .inl
    · obtain ⟨⟨added, d₂⟩, ha, ok⟩ := Logged.bind_eq_ok.mp ok
      cases ok
      rcases add_eq_ok ha with ⟨_, rfl⟩ | ⟨_, rfl⟩
      · rw [procedures]
        exact fun p => .inl
      · rw [procedures]
        intro p hp
        rcases List.mem_append.mp hp with hp | hp
        · exact .inl hp
        · rw [List.mem_singleton.mp hp]
          exact .inr rfl

theorem Selecting.addWriter (h : d.Selecting n m tables) (writes : p.isWriter = true)
    (ok : (d.addWriter rules m p t model).value = .ok d') : d'.Selecting n m tables := by
  obtain ⟨⟨added, d₁⟩, ha, ok⟩ := Logged.bind_eq_ok.mp ok
  have hp : p.query ≠ .selectSingle := by
    intro e
    rw [Procedure.isWriter, e] at writes
    cases writes
  have h₁ := h.add ha fun e => absurd e hp
  cases added with
  | false =>
    cases ok
    exact h₁
  | true =>
    refine Logged.foldlM_induction (P := Selecting n m tables) ok h₁ fun d₂ key d₃ _ h₂ ok => ?_
    refine h₂.extend (addRelationshipUpdate_eq_ok ok).1 fun p hp => ?_
    rcases query_of_addRelationshipUpdate ok p hp with hp | hq
    · exact .inl hp
    · exact .inr fun e => by rw [hq] at e; cases e

theorem Selecting.addKind {kind : ProcedureKind} (h : d.Selecting rules.naming m tables)
    (ht : t ∈ tables) (ok : (d.addKind rules m t model kind).value = .ok d') :
    d'.Selecting rules.naming m tables := by
  cases kind with
  | insert =>
    obtain ⟨parameters, _, ok⟩ := Logged.bind_eq_ok.mp ok
    obtain ⟨p, hp, ok⟩ := Logged.bind_eq_ok.mp ok
    obtain ⟨name, rfl⟩ := procedure_eq_ok (Logged.lift_eq_ok.mp hp)
    exact h.addWriter rfl ok
  | updateById =>
    rcases eq_or_identity ok with ⟨_, rfl⟩ | ⟨_, ok⟩
    · exact h
    obtain ⟨parameters, _, ok⟩ := Logged.bind_eq_ok.mp ok
    obtain ⟨p, hp, ok⟩ := Logged.bind_eq_ok.mp ok
    obtain ⟨name, rfl⟩ := procedure_eq_ok (Logged.lift_eq_ok.mp hp)
    exact h.addWriter rfl ok
  | selectById =>
    rcases eq_or_identity ok with ⟨_, rfl⟩ | ⟨_, ok⟩
    · exact h
    obtain ⟨parameters, _, ok⟩ := Logged.bind_eq_ok.mp ok
    obtain ⟨p, hp, ok⟩ := Logged.bind_eq_ok.mp ok
    obtain ⟨⟨added, d₁⟩, ha, ok⟩ := Logged.bind_eq_ok.mp ok
    cases ok
    obtain ⟨name, rfl⟩ := procedure_eq_ok (Logged.lift_eq_ok.mp hp)
    exact h.add ha fun _ => ⟨ht, rfl⟩
  | deleteById =>
    rcases eq_or_identity ok with ⟨_, rfl⟩ | ⟨_, ok⟩
    · exact h
    obtain ⟨parameters, _, ok⟩ := Logged.bind_eq_ok.mp ok
    obtain ⟨p, hp, ok⟩ := Logged.bind_eq_ok.mp ok
    obtain ⟨⟨added, d₁⟩, ha, ok⟩ := Logged.bind_eq_ok.mp ok
    cases ok
    obtain ⟨name, rfl⟩ := procedure_eq_ok (Logged.lift_eq_ok.mp hp)
    exact h.add ha (by simp)

theorem Selecting.addTable {selection : ProcedureSelection} (h : d.Selecting rules.naming m tables)
    (ht : t ∈ tables) (ok : (d.addTable rules m selection t).value = .ok d') :
    d'.Selecting rules.naming m tables := by
  rw [ProcedureDraft.addTable] at ok
  split at ok
  · cases ok
    exact h
  · split at ok
    · cases ok
    · exact Logged.foldlM_induction (P := Selecting rules.naming m tables) ok h
        fun d kind d' _ h ok => h.addKind ht ok

end ProcedureDraft

namespace Options

variable {o : Options} {map : RelationshipMap} {db : Database} {identityType : TableRef}
  {d d' : ProcedureDraft} {p : Procedure}

theorem createProcedures_selecting (closed : d.catalog.Closed tables) (none : d.procedures = [])
    (ok : (o.createProcedures m identityType tables d).completed.value = .ok d') :
    d'.Selecting o.naming m tables := by
  rw [createProcedures, Progress.completed_walk] at ok
  refine Logged.foldlM_induction (P := ProcedureDraft.Selecting o.naming m tables) ok
    ⟨closed, by simp [none]⟩ fun d t d' ht h ok => ?_
  have h : d.Selecting (o.rules identityType).naming m tables := h
  exact h.addTable ht ok

/-- A derived selection is from one of the tables, and returns its rows as they are laid out in the
end. -/
theorem build_returnsTable (sqlServer : o.dialect = .sqlServer)
    (h : (o.build m c).value = .ok (db, c')) (hp : p ∈ db.procedures)
    (hq : p.query = .selectSingle) :
    p.table ∈ db.tables ∧ p.ReturnsTable o.naming m c' := by
  rw [build_eq] at h
  obtain ⟨map, _, h⟩ := Logged.bind_eq_ok.mp h
  obtain ⟨⟨plain, linked⟩, hl, h⟩ := Logged.bind_eq_ok.mp h
  obtain ⟨⟨tables, _⟩, ht, hl⟩ := Logged.bind_eq_ok.mp hl
  cases hl
  simp only [sqlServer] at h
  obtain ⟨keyed, identityType, tableTypes, typed, d, hk, htt, hd, rfl, rfl⟩ := complete_eq_ok h
  have closed := createKeys_closed ht hk (grows_createTableTypes htt)
  exact (createProcedures_selecting closed rfl hd).rows p hp hq

end Options

/-! ## Rows and joins -/

/-- The result column shows a column under the label of its table, which is joined by a foreign key
or not at all. -/
structure ResultColumn.Shows (r : ResultColumn) (n : Naming) (label : String)
    (parent : Option Column) (column : Column) : Prop where
  sourceTable : r.sourceTable = label
  sourceColumn : r.sourceColumn = column.name
  parentColumn : r.parentColumn = parent.map (·.name)
  isJoined : r.isJoined = parent.isSome
  isNullable : r.isNullable = column.isNullable
  name : r.name = if parent.isSome then n.columnAlias label column.name else column.name

/-- A foreign key is joined by its role, or by the name of its table. -/
def Catalog.label (c : Catalog) (key : ColumnRef) : String :=
  given (c.column key).role (c.table key.table).name

theorem Join.text_eq (j : Join) : j.text =
    let role := if j.role.getD "" = "" then "" else s!" AS {bracketed j.label}"
    let key := QualifiedColumn.mk j.label j.key
    s!"LEFT JOIN {bracketed j.table}{role} ON {key.text} = {j.principal.text}" := by
  obtain ⟨table, role, key, principal⟩ := j
  unfold Join.text
  cases role with
  | none => rfl
  | some role =>
    by_cases hr : role = ""
    · rw [hr]
      rfl
    · have hlabel : Join.label { table, role := some role, key, principal } = role := by
        rw [Join.label, given_some, if_neg hr]
      rw [hlabel, Option.getD_some, if_neg hr]
      split
      case h_1 e => exact absurd (Option.some.inj e) hr
      case h_2 e => cases e
      case h_3 e => rw [Option.some.inj e]

/-- The join attaches the table of a foreign key under its label, by the condition that the key is
the identity of the principal. From the same label, all columns of the table are shown but the
key. -/
structure Attaches (n : Naming) (c : Catalog) (principal : QualifiedColumn) (key : ColumnRef)
    (part : Join × ResultSet) : Prop where
  join : part.1 = { table := (c.table key.table).name, role := (c.column key).role
                    key := (c.column key).name, principal }
  text : part.1.text =
    let role := if (c.column key).role.getD "" = "" then "" else s!" AS {bracketed (c.label key)}"
    let column := QualifiedColumn.mk (c.label key) (c.column key).name
    s!"LEFT JOIN {bracketed (c.table key.table).name}{role} ON {column.text} = {principal.text}"
  columns : List.Forall₂ (fun r ref => r.Shows n (c.label key) (some (c.column key)) (c.column ref))
    part.2 ((c.columnRefs key.table).filter (· != key))

namespace ResultSet

variable {table : Table} {principal : QualifiedColumn} {rows : ResultSet}

def Renumbers (r r₀ : ResultColumn) : Prop := r = { r₀ with ordinal := r.ordinal }

theorem shows_of_renumbers {r : ResultColumn} {label : String} {parent : Option Column}
    {col : Column} (h : Renumbers r (column n m label parent col)) :
    r.Shows n label parent col := by
  rw [Renumbers] at h
  constructor <;> rw [h] <;> rfl

theorem ofTable_ordinals (n : Naming) (m : Model) (c : Catalog) (table : Table)
    (filter : Column → Bool) :
    (ofTable n m c table filter).map (·.ordinal) =
      List.range (ofTable n m c table filter).length := by
  simp only [ofTable, List.map_map, List.length_map, List.length_zipIdx, List.range_eq_range']
  exact List.zipIdx_map_snd _ _

theorem ofTable_renumbers (n : Naming) (m : Model) (c : Catalog) (table : Table)
    (filter : Column → Bool) : List.Forall₂ Renumbers (ofTable n m c table filter)
      (ownColumns n m table filter ::
        (relationshipKeys c table).map (joinedColumns n m c filter)).flatten := by
  rw [List.flatten_cons, ← List.flatMap_def, ofTable, List.forall₂_map_left_iff]
  generalize ownColumns n m table filter ++ _ = unnumbered
  conv => rhs; rw [← List.zipIdx_map_fst 0 unnumbered]
  rw [List.forall₂_map_right_iff, List.forall₂_same]
  exact fun _ _ => rfl

def joinOf (c : Catalog) (principal : QualifiedColumn) (key : ColumnRef) : Join :=
  { table := (c.table key.table).name, role := (c.column key).role,
    key := (c.column key).name, principal }

theorem attaches_joinOf {part : ResultSet}
    (h : List.Forall₂ Renumbers part (joinedColumns n m c (fun _ => true) key)) :
    Attaches n c principal key (joinOf c principal key, part) where
  join := rfl
  text := Join.text_eq (joinOf c principal key)
  columns := by
    rw [joinedColumns, List.forall₂_map_right_iff] at h
    exact h.imp fun _ _ => shows_of_renumbers

theorem exists_attached (principal : QualifiedColumn) {keys : List ColumnRef}
    {parts : List ResultSet}
    (h : List.Forall₂ (List.Forall₂ Renumbers) parts
      (keys.map (joinedColumns n m c fun _ => true))) :
    ∃ attached : List (Join × ResultSet), attached.map (·.1) = keys.map (joinOf c principal) ∧
      attached.map (·.2) = parts ∧ List.Forall₂ (Attaches n c principal) keys attached := by
  rw [List.forall₂_map_right_iff] at h
  induction h with
  | nil => exact ⟨[], rfl, rfl, .nil⟩
  | @cons part key parts keys hpart _ ih =>
    obtain ⟨attached, hjoins, hparts, hattached⟩ := ih
    refine ⟨(joinOf c principal key, part) :: attached, ?_, ?_,
      .cons (attaches_joinOf hpart) hattached⟩
    · rw [List.map_cons, List.map_cons, hjoins]
    · rw [List.map_cons, hparts]

end ResultSet

/-- The result set and the body of a selection: the navigable columns of the table, and for each of
its relationships one join with the columns that are shown of it. -/
structure Procedure.Selection (p : Procedure) (n : Naming) (c : Catalog) (identity : Column)
    (own : ResultSet) (attached : List (Join × ResultSet)) (conditions : List Condition) :
    Prop where
  identified : (c.table p.table).identityColumn? = some identity
  resultSets : p.resultSets = [own ++ attached.flatMap (·.2)]
  ordinals : ∀ rows ∈ p.resultSets, rows.map (·.ordinal) = List.range rows.length
  unjoined : List.Forall₂ (fun r column => r.Shows n (c.table p.table).name none column) own
    ((c.table p.table).columns.filter (·.isNavigable))
  joined : List.Forall₂ (Attaches n c ⟨(c.table p.table).name, identity.name⟩)
    ((c.table p.table).dependents.filter fun key => (c.column key).isMany) attached
  body : p.body c = pure
    [.select (c.table p.table).name (own ++ attached.flatMap (·.2)) (attached.map (·.1)) conditions]
  texts : p.texts c = some ["SELECT\n" ++
    ",\n".intercalate ((own ++ attached.flatMap (·.2)).map ResultColumn.selection) ++
    "\nFROM " ++ bracketed (c.table p.table).name ++
    String.join (attached.map fun part => "\n" ++ part.1.text) ++ whereText conditions ++ ";"]

theorem Procedure.ReturnsTable.exists_selection {p : Procedure} {identity : Column}
    (rows : p.ReturnsTable n m c) (hq : p.query = .selectSingle)
    (hi : (c.table p.table).identityColumn? = some identity) :
    ∃ own attached, p.Selection n c identity own attached
      ((p.parameters.filter (·.isFilter)).map (condition (c.table p.table).name)) := by
  obtain ⟨parts, hrows, hparts⟩ :=
    exists_flatten (ResultSet.ofTable_renumbers n m c (c.table p.table) fun _ => true)
  cases hparts with
  | @cons own _ parts _ hown hparts =>
    obtain ⟨attached, hjoins, rfl, hattached⟩ :=
      ResultSet.exists_attached ⟨(c.table p.table).name, identity.name⟩ hparts
    rw [List.flatten_cons, ← List.flatMap_def] at hrows
    have hrows : p.resultSets = [own ++ attached.flatMap (·.2)] := by rw [rows, hrows]
    have hbody : p.body c = pure [.select (c.table p.table).name (own ++ attached.flatMap (·.2))
        (attached.map (·.1)) ((p.parameters.filter (·.isFilter)).map
          (condition (c.table p.table).name))] := by
      rw [body, hq, hjoins]
      simp only [selectBody, hrows, joins, hi]
      rfl
    refine ⟨own, attached, hi, hrows, ?_, ?_, hattached, hbody, ?_⟩
    · rw [rows]
      simpa using ResultSet.ofTable_ordinals n m c (c.table p.table) fun _ => true
    · rw [ResultSet.ownColumns, List.forall₂_map_right_iff] at hown
      exact hown.imp fun _ _ => ResultSet.shows_of_renumbers
    · have hjoins : attached.map (fun part => "\n" ++ part.1.text) =
          (attached.map (·.1)).map fun j => "\n" ++ j.text := by
        rw [List.map_map]
        rfl
      rw [texts, hbody, hjoins]
      rfl

namespace Options

theorem Assembled.exists_selection {o : Options} {m : Model} {map : RelationshipMap} {db : Database}
    {c : Catalog} {identityType : TableRef} {p : Procedure}
    (h : o.Assembled m map db c identityType) (hp : p ∈ db.procedures)
    (hq : p.query = .selectSingle) (rows : p.ReturnsTable o.naming m c) :
    ∃ identity own attached conditions,
      p.Selection o.naming c identity own attached conditions := by
  obtain ⟨t, _, origin⟩ := h.procedures p hp
  obtain ⟨rfl, some, _⟩ := origin.byId (by rw [hq]; rfl)
  obtain ⟨identity, hi⟩ := Option.isSome_iff_exists.mp some
  obtain ⟨own, attached, selection⟩ := rows.exists_selection hq hi
  exact ⟨identity, own, attached, _, selection⟩

/-- The result set and the body of each derived selection have the same parts. -/
theorem build_selection (o : Options) (sqlServer : o.dialect = .sqlServer) (m : Model) (c : Catalog)
    (db : Database) (c' : Catalog) (h : (o.build m c).value = .ok (db, c')) (p : Procedure)
    (hp : p ∈ db.procedures) (hq : p.query = .selectSingle) :
    p.table ∈ db.tables ∧ ∃ identity own attached conditions,
      p.Selection o.naming c' identity own attached conditions := by
  obtain ⟨ht, rows⟩ := build_returnsTable sqlServer h hp hq
  obtain ⟨map, identityType, _, assembled⟩ := build_assembled sqlServer h
  exact ⟨ht, assembled.exists_selection hp hq rows⟩

/-- One relationship of the table leads back to it, and the other one has no name. -/
theorem build_selection_selfReferring :
    let o := (of .sqlServer).addProcedures .selectById none
    let document : ModelDocument := { name := "m", classifiers := [
      { id := "a", name := "A", attributes := [
        .identity "Id" "integer", .many "parts" "a", .many "" "b"] },
      { id := "b", name := "B", attributes := [.of "title" "string"] }] }
    ∃ m db c' p, Model.ofDatum document.write = .ok m ∧ (o.build m {}).value = .ok (db, c') ∧
      p ∈ db.procedures ∧ p.query = .selectSingle ∧
      p.texts c' =
        some ["SELECT\n[A].[Id],\n[parts].[Id] AS [parts_Id],\n[B].[title] AS [B_title]\n" ++
        "FROM [A]\nLEFT JOIN [A] AS [parts] ON [parts].[Id_parts] = [A].[Id]\n" ++
        "LEFT JOIN [B] ON [B].[Id] = [A].[Id]\nWHERE [A].[Id] = @Id;"] ∧
      p.table ∈ db.tables ∧ ∃ identity own attached conditions,
        p.Selection o.naming c' identity own attached conditions := by
  intro o document
  have hrun : o.observe document (fun _ db c' =>
      .ok (db.procedures.map fun p : Procedure => (p.query, p.texts c'))) =
      .ok [(QueryKind.selectSingle, some ["SELECT\n[A].[Id],\n[parts].[Id] AS [parts_Id],\n" ++
          "[B].[title] AS [B_title]\nFROM [A]\n" ++
          "LEFT JOIN [A] AS [parts] ON [parts].[Id_parts] = [A].[Id]\n" ++
          "LEFT JOIN [B] ON [B].[Id] = [A].[Id]\nWHERE [A].[Id] = @Id;"])] := by
    decide +kernel
  obtain ⟨m, db, c', hm, hb, hrun⟩ := observe_eq_ok.mp hrun
  obtain ⟨p, hps, e⟩ := List.map_eq_singleton_iff.mp (Except.ok.inj hrun)
  obtain ⟨hq, text⟩ := Prod.mk.inj e
  have hp : p ∈ db.procedures := by
    rw [show db.procedures = [p] from hps]
    exact List.mem_singleton_self p
  exact ⟨m, db, c', p, hm, hb, hp, hq, text, build_selection o rfl m {} db c' hb p hp hq⟩

end Options

end Schemata
