import Schemata.Model.Basic

/-!
# Tables

Tables live in a catalog and refer to columns by table and position, so that a column keeps its
identity when its table changes. Columns are only ever added to a table, and tables to a catalog.
-/
namespace Schemata

inductive Dialect where
  | ansi
  | sqlServer
  deriving DecidableEq, Repr

structure TableRef where
  place : Nat
  deriving DecidableEq, Repr

structure ColumnRef where
  table : TableRef
  position : Nat
  deriving DecidableEq, Repr

structure SqlFacets where
  length : Option String := none
  precision : Option Int := none
  scale : Option Int := none
  deriving DecidableEq, Repr

structure Column where
  dialect : Dialect := .sqlServer
  name : String
  sqlType : String
  facets : SqlFacets := {}
  /-- The column tells the rows of its table apart. -/
  isIdentity : Bool := false
  isRequired : Bool := false
  isForeignKey : Bool := false
  /-- The property the column was made from; it may belong to another classifier than the table. -/
  source : Option PropertyRef := none
  /-- The identity property that a foreign key refers to. -/
  referenced : Option PropertyRef := none
  /-- Tells foreign keys to one table apart. -/
  role : Option String := none
  /-- The column realizes an attribute of the table's own classifier. -/
  isNavigable : Bool := false
  /-- The column only realizes a one-to-many relationship that another classifier declares. -/
  isMany : Bool := false
  deriving DecidableEq, Repr

def Column.isNullable (c : Column) : Bool := !c.isRequired

/-- Types whose values the database can count up. -/
def countingTypes : List String := ["tinyint", "smallint", "int", "bigint", "decimal", "numeric"]

/-- The database generates the values of the column. -/
def Column.isAutoIncrement (c : Column) : Bool :=
  c.dialect == .sqlServer && c.isIdentity && countingTypes.contains c.sqlType

inductive KeyKind where
  | primary
  | foreign
  deriving DecidableEq, Repr

def KeyKind.word : KeyKind → String
  | .primary => "primary"
  | .foreign => "foreign"

def KeyKind.all : List KeyKind := [.primary, .foreign]

def KeyKind.ofWord? (word : String) : Option KeyKind := all.find? fun kind => kind.word == word

theorem KeyKind.ofWord?_word (kind : KeyKind) : ofWord? kind.word = some kind := by
  cases kind <;> decide

/-- A constraint on one column; a foreign key names the table and the column it refers to. -/
structure Key where
  name : String
  kind : KeyKind
  column : String
  principalTable : Option String := none
  principalColumn : Option String := none
  cascades : Bool := false
  deriving DecidableEq, Repr

structure Table where
  dialect : Dialect := .sqlServer
  name : String := ""
  /-- The classifier the table was made from. -/
  source : Option ClassifierRef := none
  isJunction : Bool := false
  columns : List Column := []
  /-- Foreign key columns that refer to this table. -/
  dependents : List ColumnRef := []
  keys : List Key := []
  deriving DecidableEq, Repr

def Table.identityPosition? (t : Table) : Option Nat := t.columns.findIdx? (·.isIdentity)

def Table.identityColumn? (t : Table) : Option Column := t.columns.find? (·.isIdentity)

/-- A place among so many things; below zero it is counted from the end. -/
def placeAmong? (count : Nat) (place : Int) : Option Nat :=
  let place := if place < 0 then place + count else place
  if 0 ≤ place ∧ place < count then some place.toNat else none

theorem placeAmong?_of_lt {count place : Nat} (h : place < count) :
    placeAmong? count place = some place := by
  have h₀ : ¬ (place : Int) < 0 := by omega
  simp [placeAmong?, h₀, h]

theorem placeAmong?_sub {count place : Nat} (h : place < count) :
    placeAmong? count (place - count) = some place := by
  have h₀ : (place : Int) - count < 0 := by omega
  simp [placeAmong?, h₀, h]

structure Catalog where
  tables : List Table := []
  deriving DecidableEq, Repr

namespace Catalog

def table (c : Catalog) (t : TableRef) : Table := c.tables.getD t.place {}

def column (c : Catalog) (ref : ColumnRef) : Column :=
  (c.table ref.table).columns.getD ref.position { name := "", sqlType := "" }

def columnRefs (c : Catalog) (t : TableRef) : List ColumnRef :=
  (List.range (c.table t).columns.length).map (ColumnRef.mk t)

def tableAt? (c : Catalog) (place : Int) : Option TableRef :=
  (placeAmong? c.tables.length place).map TableRef.mk

def columnAt? (c : Catalog) (t : TableRef) (place : Int) : Option ColumnRef :=
  (placeAmong? (c.table t).columns.length place).map (ColumnRef.mk t)

def identity? (c : Catalog) (t : TableRef) : Option ColumnRef :=
  (c.table t).identityPosition?.map (ColumnRef.mk t)

def add (c : Catalog) (table : Table) : TableRef × Catalog :=
  (⟨c.tables.length⟩, { tables := c.tables ++ [table] })

def update (c : Catalog) (t : TableRef) (f : Table → Table) : Catalog :=
  { tables := c.tables.modify t.place f }

def addDependent (c : Catalog) (t : TableRef) (column : ColumnRef) : Catalog :=
  c.update t fun table => { table with dependents := table.dependents ++ [column] }

/-- Adds a foreign key column to a table, which a principal table then lists with its dependents. -/
def addReference (c : Catalog) (dependent principal : TableRef) (column : Column) : Catalog :=
  let place := ⟨dependent, (c.table dependent).columns.length⟩
  let c := c.update dependent fun t => { t with columns := t.columns ++ [column] }
  c.addDependent principal place

@[simp] theorem table_add_self (c : Catalog) (table : Table) :
    (c.add table).2.table (c.add table).1 = table := by
  simp [Catalog.table, add]

theorem table_add_of_lt {c : Catalog} {t : TableRef} (h : t.place < c.tables.length)
    (table : Table) : (c.add table).2.table t = c.table t := by
  simp [Catalog.table, add, List.getElem?_append_left h]

@[simp] theorem length_update (c : Catalog) (t : TableRef) (f : Table → Table) :
    (c.update t f).tables.length = c.tables.length := by
  simp [update]

theorem table_update_of_ne {c : Catalog} {t u : TableRef} (h : u ≠ t) (f : Table → Table) :
    (c.update t f).table u = c.table u := by
  have hp : t.place ≠ u.place := fun e => h (by cases t; cases u; simp_all)
  simp [Catalog.table, update, hp]

theorem table_update_self {c : Catalog} {t : TableRef} (h : t.place < c.tables.length)
    (f : Table → Table) : (c.update t f).table t = f (c.table t) := by
  simp [Catalog.table, update, h]

end Catalog

end Schemata
