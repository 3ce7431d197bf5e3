import Schemata.Schema.Table

/-!
# Selections

Predicates choose the classifiers that become tables and table types, and the tables that get
procedures.
-/
namespace Schemata

abbrev ClassifierFilter := Model → ClassifierRef → Bool

abbrev TableSelector := Model → ClassifierRef → Table → Bool

inductive ClassifierTest where
  | always (holds : Bool)
  | named (names : List String)
  | notNamed (names : List String)
  | ofKind (kinds : List ClassifierKind)
  | isValue
  | isEnumeration
  | isPrimitive
  | isMembered
  deriving DecidableEq, Repr

def ClassifierTest.filter (test : ClassifierTest) : ClassifierFilter := fun m c =>
  let classifier := m.classifier c
  match test with
  | .always holds => holds
  | .named names => names.contains classifier.name
  | .notNamed names => !names.contains classifier.name
  | .ofKind kinds => kinds.contains classifier.kind
  | .isValue => classifier.kind.isValue
  | .isEnumeration => classifier.kind == .enumeration
  | .isPrimitive => classifier.kind == .primitive
  | .isMembered => classifier.kind.isMembered

inductive TableTest where
  | classifier (test : ClassifierTest)
  | minColumns (n : Int)
  | hasIdentity (holds : Bool)
  deriving DecidableEq, Repr

def TableTest.selector (test : TableTest) : TableSelector := fun m c table =>
  match test with
  | .classifier test => test.filter m c
  | .minColumns n => n ≤ table.columns.length
  | .hasIdentity holds => table.identityColumn?.isSome == holds

/-- The operations for which a procedure can be derived from a table. -/
inductive ProcedureKind where
  | insert
  | updateById
  | selectById
  | deleteById
  deriving DecidableEq, Repr

def ProcedureKind.word : ProcedureKind → String
  | .insert => "Insert"
  | .updateById => "UpdateById"
  | .selectById => "SelectById"
  | .deleteById => "DeleteById"

def ProcedureKind.all : List ProcedureKind := [.insert, .updateById, .selectById, .deleteById]

def ProcedureKind.ofWord? (word : String) : Option ProcedureKind :=
  all.find? fun kind => kind.word == word

theorem ProcedureKind.ofWord?_word (kind : ProcedureKind) : ofWord? kind.word = some kind := by
  cases kind <;> decide

/-- The procedures to derive, in the order in which their kinds were first mentioned. A kind without
selectors is derived for all tables. -/
structure ProcedureSelection where
  kinds : List (ProcedureKind × List TableSelector) := []

namespace ProcedureSelection

/-- Changes the selectors of a kind; a kind that was not mentioned starts without any. -/
def update (kind : ProcedureKind) (f : List TableSelector → List TableSelector) :
    List (ProcedureKind × List TableSelector) → List (ProcedureKind × List TableSelector)
  | [] => [(kind, f [])]
  | (k, selectors) :: rest =>
    if k = kind then (k, f selectors) :: rest else (k, selectors) :: update kind f rest

def put (s : ProcedureSelection) (kind : ProcedureKind) (selectors : List TableSelector) :
    ProcedureSelection :=
  ⟨update kind (fun _ => selectors) s.kinds⟩

/-- Widens the selection of a kind by one selector, or to all tables. -/
def add (s : ProcedureSelection) (kind : ProcedureKind) (selector : Option TableSelector) :
    ProcedureSelection :=
  ⟨update kind (fun selectors =>
    match selector with
    | some selector => selectors ++ [selector]
    | none => []) s.kinds⟩

/-- A table is selected if there are no selectors or one of them holds. -/
def selects (selectors : List TableSelector) (m : Model) (c : ClassifierRef) (table : Table) :
    Bool :=
  selectors.isEmpty || selectors.any fun selector => selector m c table

end ProcedureSelection

end Schemata
