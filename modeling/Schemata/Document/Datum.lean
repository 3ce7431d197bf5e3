import Schemata.Fault
import Schemata.Decimal.Basic

/-!
# Data, and how they are read and written

A datum is a value of a data format. Readers turn a datum into a value of its own type, or say what
they expected; the members of a record are read by name. Writers cannot fail.
-/
namespace Schemata

inductive Datum where
  | null
  | flag (value : Bool)
  | integer (value : Int)
  /-- A number that is written with a fraction. -/
  | decimal (value : Decimal)
  | text (value : String)
  | list (items : List Datum)
  | record (members : List (String × Datum))
  deriving Inhabited, Repr

namespace Datum

def asFlag : Datum → Except Fault Bool
  | .flag b => .ok b
  | _ => .error .expectedBoolean

/-- A flag counts as one or zero. -/
def asInteger : Datum → Except Fault Int
  | .integer i => .ok i
  | .flag b => .ok (if b then 1 else 0)
  | _ => .error .expectedInteger

def asText : Datum → Except Fault String
  | .text s => .ok s
  | _ => .error .expectedText

def asList {α : Type} (document : String) (read : Datum → Except Fault α) :
    Datum → Except Fault (List α)
  | .list items => items.mapM read
  | _ => .error (.expectedList document)

def asRecord (document : String) : Datum → Except Fault (List (String × Datum))
  | .record members => .ok members
  | _ => .error (.expectedRecord document)

def asTexts : Datum → Except Fault (List String) := asList "str" asText

/-- A word of a fixed vocabulary. -/
def asWord {α : Type} (ofWord? : String → Option α) : Datum → Except Fault α
  | .text word =>
    match ofWord? word with
    | some value => .ok value
    | none => .error .unknownWord
  | _ => .error .unknownWord

/-- The number of a datum that is one: an integer, a flag, or a decimal without a rest. -/
def whole? : Datum → Option Int
  | .decimal d => d.whole?
  | datum => datum.asInteger.toOption

/-- A number that stands for a value of a fixed list. -/
def asCode {α : Type} (ofCode? : Int → Option α) (datum : Datum) : Except Fault α :=
  match datum.whole?.bind ofCode? with
  | some value => .ok value
  | none => .error .unknownWord

def ofOption {α : Type} (write : α → Datum) : Option α → Datum
  | some value => write value
  | none => .null

def ofList {α : Type} (write : α → Datum) (items : List α) : Datum := .list (items.map write)

def ofTexts (texts : List String) : Datum := ofList .text texts

end Datum

abbrev Members := List (String × Datum)

namespace Members
variable {α : Type}

/-- A member that must be there and hold a value. -/
def required (members : Members) (name : String) (read : Datum → Except Fault α) : Except Fault α :=
  match members.lookup name with
  | none => .error (.missingMember name)
  | some .null => .error (.nullMember name)
  | some datum => read datum

/-- A member that is left out, or holds nothing, takes its default. -/
def optional (members : Members) (name : String) (fallback : α) (read : Datum → Except Fault α) :
    Except Fault α :=
  match members.lookup name with
  | none | some .null => .ok fallback
  | some datum => read datum

/-- A member that is left out takes its default; one that holds nothing is read as it is. -/
def orElse (members : Members) (name : String) (fallback : α) (read : Datum → Except Fault α) :
    Except Fault α :=
  (members.lookup name).elim (.ok fallback) read

def text (members : Members) (name : String) : Except Fault String :=
  members.required name Datum.asText

def text? (members : Members) (name : String) : Except Fault (Option String) :=
  members.optional name none fun datum => some <$> datum.asText

def integer? (members : Members) (name : String) : Except Fault (Option Int) :=
  members.optional name none fun datum => some <$> datum.asInteger

def flag (members : Members) (name : String) (fallback : Bool) : Except Fault Bool :=
  members.optional name fallback Datum.asFlag

def items (members : Members) (name : String) (read : Datum → Except Fault α) :
    Except Fault (List α) :=
  members.optional name [] (Datum.asList name read)

/-- Nothing but the named members may be there. -/
def only (members : Members) (names : List String) : Except Fault Unit :=
  if members.all fun member => names.contains member.1 then .ok () else .error .unknownMember

end Members

end Schemata
