import Schemata.Procedure.Basic

/-!
# Rows that selections return

What a selection returns from the rows that the tables hold. NULL is the absence of a value, and no
comparison with it holds. A left join keeps each row: where a table has no row for it, every column
of the table is NULL.
-/
namespace Schemata

/-- Values are only compared, so the text of a value stands for it. -/
abbrev Value := String

/-- The value of each column, and of each parameter; what has no value is NULL. -/
abbrev Row := String → Option Value

def nullRow : Row := fun _ => none

abbrev Contents := String → List Row

def equals (x y : Option Value) : Bool := x.isSome && x == y

/-- Rows that are joined, by the names under which their columns are selected. -/
abbrev Scope := List (String × Row)

def Scope.value (s : Scope) (place : QualifiedColumn) : Option Value :=
  (s.lookup place.table).bind fun row => row place.column

/-- Each row that refers to the principal is joined, or NULLs if there is none. -/
def Join.extend (contents : Contents) (j : Join) (s : Scope) : List Scope :=
  let found := (contents j.table).filter fun row => equals (row j.key) (s.value j.principal)
  (if found.isEmpty then [nullRow] else found).map fun row => s ++ [(j.label, row)]

def joined (contents : Contents) (joins : List Join) (scopes : List Scope) : List Scope :=
  joins.foldl (fun scopes j => scopes.flatMap (j.extend contents)) scopes

/-- Without a value, an optional parameter compares the column with itself. -/
def Condition.holds (arguments : Row) (s : Scope) (condition : Condition) : Bool :=
  let value := s.value condition.column
  let argument := arguments condition.parameter
  equals value (if condition.isOptional then argument.or value else argument)

/-- The rows that a statement returns: the value in each column of the result. -/
def Statement.rows (contents : Contents) (arguments : Row) :
    Statement → List (List (ResultColumn × Option Value))
  | .select table columns joins conditions =>
    let scopes := joined contents joins ((contents table).map fun row => [(table, row)])
    (scopes.filter fun s => conditions.all (Condition.holds arguments s)).map fun s =>
      columns.map fun r => (r, s.value ⟨r.sourceTable, r.sourceColumn⟩)
  | .insert .. | .storeIdentity _ | .update .. | .delete .. | .detach _ | .attach _ => []

def Procedure.rows (p : Procedure) (c : Catalog) (contents : Contents) (arguments : Row) :
    List (List (ResultColumn × Option Value)) :=
  ((p.body c).value.toOption.getD []).flatMap (Statement.rows contents arguments)

/-! ## Constraints -/

def Key.Holds (k : Key) (contents : Contents) (rows : List Row) : Prop :=
  match k.kind with
  | .primary => (rows.map (· k.column)).Nodup ∧ ∀ row ∈ rows, row k.column ≠ none
  | .foreign => ∀ row ∈ rows, ∀ value, row k.column = some value →
    ∃ table ∈ k.principalTable, ∃ column ∈ k.principalColumn,
      ∃ principal ∈ contents table, principal column = some value

structure Contents.Obeys (contents : Contents) (c : Catalog) (tables : List TableRef) : Prop where
  required : ∀ t ∈ tables, ∀ row ∈ contents (c.table t).name, ∀ column ∈ (c.table t).columns,
    column.isNullable = false → row column.name ≠ none
  keys : ∀ t ∈ tables, ∀ k ∈ (c.table t).keys, k.Holds contents (contents (c.table t).name)

/-! ## Joined rows -/

section
variable {contents : Contents} {joins : List Join} {scopes : List Scope} {s : Scope}
  {table : String} {row : Row} {column : String}

theorem equals_of_ne {x y : Option Value} (h : x ≠ y) : equals x y = false := by
  simp [equals, h]

theorem Scope.value_cons (more : Scope) :
    Scope.value ((table, row) :: more) ⟨table, column⟩ = row column := by
  simp [Scope.value]

theorem Scope.value_nulls {label : String} (apart : label ≠ table) (joins : List Join) :
    Scope.value ((table, row) :: joins.map fun j => (j.label, nullRow)) ⟨label, column⟩ = none := by
  have hlookup : ∀ found, List.lookup label (joins.map fun j => (j.label, nullRow)) = some found →
      found = nullRow := by
    intro found h
    induction joins with
    | nil => cases h
    | cons j joins ih =>
      rw [List.map_cons, List.lookup_cons] at h
      split at h
      · exact (Option.some.inj h).symm
      · exact ih h
  rw [Scope.value, List.lookup_cons, beq_false_of_ne apart, Option.bind_eq_none_iff]
  intro found h
  rw [hlookup found h]
  rfl

theorem exists_of_mem_joined (h : s ∈ joined contents joins scopes) :
    ∃ first ∈ scopes, ∃ more, s = first ++ more := by
  induction joins generalizing scopes with
  | nil => exact ⟨s, h, [], (List.append_nil s).symm⟩
  | cons j joins ih =>
    obtain ⟨first, hfirst, more, rfl⟩ := ih h
    obtain ⟨start, hstart, hextend⟩ := List.mem_flatMap.mp hfirst
    obtain ⟨row, _, rfl⟩ := List.mem_map.mp hextend
    exact ⟨start, hstart, (j.label, row) :: more, by simp⟩

/-- A row to which no other refers is kept, and joined to NULLs. -/
theorem nulls_mem_joined {more : Scope} (h : (table, row) :: more ∈ scopes)
    (principals : ∀ j ∈ joins, j.principal = ⟨table, column⟩)
    (alone : ∀ j ∈ joins, ∀ other ∈ contents j.table, other j.key ≠ row column) :
    (table, row) :: (more ++ joins.map fun j => (j.label, nullRow)) ∈
      joined contents joins scopes := by
  induction joins generalizing scopes more with
  | nil => simpa [joined] using h
  | cons j joins ih =>
    rw [List.forall_mem_cons] at principals alone
    have hextend : (table, row) :: (more ++ [(j.label, nullRow)]) ∈
        scopes.flatMap (j.extend contents) := by
      refine List.mem_flatMap.mpr ⟨_, h, ?_⟩
      have hnone : ((contents j.table).filter fun other =>
          equals (other j.key) (Scope.value ((table, row) :: more) j.principal)) = [] := by
        rw [List.filter_eq_nil_iff, principals.1, Scope.value_cons]
        exact fun other ho => by simp [equals_of_ne (alone.1 other ho)]
      simp [Join.extend, hnone]
    simpa [joined] using ih hextend principals.2 alone.2

/-- Each row of a selection is read off joined rows that its conditions allow. -/
theorem mem_rows_select {columns : ResultSet} {conditions : List Condition} {arguments : Row}
    {cells : List (ResultColumn × Option Value)} :
    cells ∈ (Statement.select table columns joins conditions).rows contents arguments ↔
      ∃ s ∈ joined contents joins ((contents table).map fun row => [(table, row)]),
        (∀ condition ∈ conditions, condition.holds arguments s = true) ∧
          cells = columns.map fun r => (r, s.value ⟨r.sourceTable, r.sourceColumn⟩) := by
  simp only [Statement.rows, List.mem_map, List.mem_filter, List.all_eq_true, and_assoc,
    @eq_comm _ cells]

theorem Procedure.rows_of_body {p : Procedure} {c : Catalog} {statement : Statement}
    {arguments : Row} (body : p.body c = pure [statement]) :
    p.rows c contents arguments = statement.rows contents arguments := by
  rw [rows, body]
  exact List.append_nil _

end

end Schemata
