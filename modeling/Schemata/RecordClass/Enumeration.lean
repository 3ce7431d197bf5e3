import Schemata.Fault
import Schemata.Decimal.Shortest
import Schemata.Model.Primitive
import Schemata.Text.Words

/-!
# Enumerations

An enumeration is given by entries, each a literal under a name. Some names are taken: an entry
under such a name is a setting, or says nothing, and gives no literal. A literal that equals an
earlier one only gives that one another name.
-/
namespace Schemata
open Text

inductive Literal where
  | text (value : String)
  | flag (value : Bool)
  | integer (value : Int)
  | decimal (value : Decimal)
  deriving DecidableEq, Repr

namespace Literal

/-- The digits and places of a number; a flag is one or zero. -/
def number? : Literal → Option (Int × Nat)
  | .text _ => none
  | .flag b => some (b.toInt, 0)
  | .integer n => some (n, 0)
  | .decimal d => some (d.numerator, d.places)

def same (a b : Literal) : Bool :=
  match a.number?, b.number? with
  | some (d, p), some (e, q) => d * Int.pow 10 q == e * Int.pow 10 p
  | _, _ => a == b

def isInteger : Literal → Bool
  | .flag _ | .integer _ => true
  | .text _ | .decimal _ => false

/-- Numbers that are zero and the empty text. -/
def isEmpty (l : Literal) : Bool := l.same (.integer 0) || l == .text ""

def kindWord : Literal → String
  | .text _ => "str"
  | .flag _ => "bool"
  | .integer _ => "int"
  | .decimal _ => "float"

def describe : Literal → String
  | .text value => shown value
  | .flag value => if value then "True" else "False"
  | .integer value => toString value
  | .decimal d => d.text

/-- The names that a literal lists, between blanks or commas; a number lists none. -/
def names? : Literal → Option (List String)
  | .text value => some (wordsOf (fun c => c == ',' || isBlank c) value)
  | _ => none

def names (l : Literal) : Except Fault (List String) :=
  match l.names? with
  | some names => .ok names
  | none => .error (.notListed l.kindWord)

end Literal

structure EnumerationClass where
  name : String
  id : String
  literals : List (String × Literal) := []
  deriving DecidableEq, Repr

/-- The entries without those that only give an earlier literal another name. -/
def distinctLiterals (literals : List (String × Literal)) : List (String × Literal) :=
  literals.foldl (fun kept l => if kept.any (·.2.same l.2) then kept else kept ++ [l]) []

/-- The name stands between exactly so many underscores on either side. -/
def isEnclosed (count : Nat) (name : String) : Bool :=
  let leading (text : List Char) : Nat := (text.takeWhile (· == '_')).length
  2 * count < name.length && leading name.toList == count && leading name.toList.reverse == count

/-- The name is private to an enumeration: it goes on after the enumeration's own name in
underscores. -/
def isPrivateTo (enumeration name : String) : Bool :=
  let mark := s!"_{enumeration}__"
  mark.isPrefixOf name && name != mark && !name.endsWith "__"

inductive EntryKind where
  | literal
  /-- It lists names that give no literal in the entries that follow. -/
  | exclusion
  /-- It says something about the enumeration, or nothing. -/
  | setting
  | reserved
  deriving DecidableEq, Repr

/-- The setting that lists the names of the literals in their order. -/
def orderName : String := "_order_"

/-- Settings that can be told from reserved names only one by one. -/
def settingNames : List String :=
  [orderName, "_generate_next_value_", "_numeric_repr_", "_missing_", "_iter_member_",
    "_iter_member_by_value_", "_iter_member_by_def_"]

def EntryKind.of (enumeration name : String) : EntryKind :=
  if isPrivateTo enumeration name then .setting
  else if name == "_ignore_" then .exclusion
  else if isEnclosed 2 name || settingNames.contains name then .setting
  else if isEnclosed 1 name then .reserved
  else .literal

/-- The hooks, in the order in which the making of a literal calls them. -/
def hookNames : List String :=
  ["__new__", "__getattribute__", "__getattr__", "__setattr__", "__init__"]

/-- The setting that names a slot, which every literal has beside its value. -/
def slotSetting : String := "__slots__"

/-- Slots that every enumeration has, and why none of these names can be given to another one. -/
def takenSlots : List (String × String) :=
  [("__dict__", "we already got one"),
    ("__weakref__", "either we already got one, or __itemsize__ != 0")]

/-- Settings under whose names a slot may stand all the same. -/
def transientNames : List String := [orderName, "__qualname__", "__classcell__"]

/-- The name is made of letters, digits and underscores, with no digit in front. -/
def isIdentifier (name : String) : Bool :=
  !name.isEmpty && !(name.toList.take 1).any Char.isDigit &&
    name.toList.all fun c => c.isAlphanum || c == '_' || 128 ≤ c.toNat

/-- A slot's name as it counts: one that begins, but does not end, with two underscores is made
private. -/
def slotName (enumeration name : String) : String :=
  let bare := String.ofList (enumeration.toList.dropWhile (· == '_'))
  if name.startsWith "__" && !name.endsWith "__" && !bare.isEmpty then s!"_{bare}{name}" else name

/-- What the entries read so far say. -/
structure EntryReading where
  literals : List (String × Literal) := []
  excluded : List String := []
  /-- All that was given under a name, the latest first. -/
  given : List (String × Literal) := []
  deriving DecidableEq, Repr

namespace EntryReading

/-- A name that has a literal gets no other and cannot be excluded any more. -/
def add (enumeration : String) (s : EntryReading) (entry : String × Literal) :
    Except Fault EntryReading :=
  match EntryKind.of enumeration entry.1 with
  | .reserved => .error .unknownWord
  | .setting =>
    let name := if entry.1 == "__order__" then orderName else entry.1
    .ok { s with given := (name, entry.2) :: s.given }
  | .exclusion => do
    let excluded ← entry.2.names
    if s.literals.any fun (name, _) => excluded.contains name then .error .unknownWord
    else .ok { s with excluded }
  | .literal =>
    let given := entry :: s.given
    if s.excluded.contains entry.1 then .ok { s with given }
    else
      match s.given.lookup entry.1 with
      | some earlier => .error (.repeatedLiteral entry.1 earlier.describe)
      | none => .ok { s with given, literals := s.literals ++ [entry] }

def find? (s : EntryReading) (name : String) : Option Literal :=
  if s.excluded.contains name then none else s.given.lookup name

/-- The names in an order without those that only give a literal another name. -/
def ordered (s : EntryReading) (order : List String) : List String :=
  let first := (distinctLiterals s.literals).map (·.1)
  order.filter fun name => (s.literals.lookup name).isNone || first.contains name

/-- An order that lists any names has to list those of the literals. -/
def checkOrder (s : EntryReading) : Except Fault Unit :=
  match s.find? orderName with
  | none => .ok ()
  | some order =>
    if order.isEmpty then .ok ()
    else do
      let names ← order.names
      let first := (distinctLiterals s.literals).map (·.1)
      if names = [] ∨ s.ordered names = first then .ok ()
      else .error (.literalOrder first (s.ordered names))

/-- No literal can be made if a hook is a literal itself. -/
def checkHooks (s : EntryReading) : Except Fault Unit :=
  match hookNames.findSome? s.find? with
  | some hook => if s.literals.isEmpty then .ok () else .error (.notCallable hook.kindWord)
  | none => .ok ()

/-- A slot needs a name that nothing else has. -/
def checkSlot (enumeration : String) (s : EntryReading) : Except Fault Unit :=
  match s.find? slotSetting with
  | none => .ok ()
  | some (.text name) =>
    let name := slotName enumeration name
    if !isIdentifier name then .error (.notIdentifier slotSetting)
    else
      match takenSlots.lookup name with
      | some reason => .error (.takenSlot name reason)
      | none =>
        if (s.find? name).isNone || transientNames.contains name then .ok ()
          else .error .unknownWord
  | some slots => .error (.notListed slots.kindWord)

/-- No literal is a cell. -/
def checkCell (s : EntryReading) : Except Fault Unit :=
  match s.find? "__classcell__" with
  | some cell => .error (.notCell cell.kindWord)
  | none => .ok ()

def check (enumeration : String) (s : EntryReading) : Except Fault Unit :=
  if s.literals.any fun (name, _) => name == "" || name == "mro" then .error .unknownWord
  else do
    s.checkSlot enumeration
    s.checkCell
    s.checkHooks
    s.checkOrder

end EntryReading

namespace EnumerationClass

def ofEntries (name id : String) (entries : List (String × Literal)) :
    Except Fault EnumerationClass := do
  let reading ← entries.foldlM (EntryReading.add name) {}
  reading.check name
  return { name, id, literals := reading.literals }

/-- Integers if all literals are, and texts otherwise. -/
def primitive (e : EnumerationClass) : Primitive :=
  if (distinctLiterals e.literals).all (·.2.isInteger) then .integer else .string

end EnumerationClass

end Schemata
