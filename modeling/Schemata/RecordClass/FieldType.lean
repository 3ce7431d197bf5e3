import Schemata.Fault
import Schemata.Model.Primitive

/-!
# Field types of record classes

A field type is a value type or a declaration under layers that say whether a value may be absent,
whether there are many, and which marks it carries. Layers are put on by `annotate` and `union`,
which keep types in one form: no annotation directly under another, and no union inside a union. The
order of the types in a union does not matter, so that `same` is coarser than equality.
-/
namespace Schemata

inductive Scalar where
  | boolean
  | integer
  | float
  | text
  | decimal
  | dateTime
  | date
  | time
  | uuid
  | bytes
  deriving DecidableEq, Repr

def Scalar.primitive : Scalar → Primitive
  | .boolean => .boolean
  | .integer => .integer
  | .float => .double
  | .text => .string
  | .decimal => .decimal
  | .dateTime => .dateTime
  | .date => .date
  | .time => .time
  | .uuid => .uuid
  | .bytes => .binary

inductive SizedNumber where
  | int8
  | int16
  | int32
  | int64
  | uint8
  | uint16
  | uint32
  | uint64
  | float32
  | float64
  deriving DecidableEq, Repr

/-- The value type that a fixed width narrows. -/
def SizedNumber.scalar : SizedNumber → Scalar
  | .float32 | .float64 => .float
  | _ => .integer

/-- Widths without a sign have no primitive of their own. -/
def SizedNumber.primitive : SizedNumber → Primitive
  | .int8 => .byte
  | .int16 => .short
  | .int32 => .integer
  | .int64 => .long
  | .float32 => .real
  | .float64 => .double
  | .uint8 | .uint16 | .uint32 | .uint64 => .integer

inductive Mark where
  | primaryKey
  | identity
  /-- A key mark that belongs to one annotation alone and is the same as no other mark. -/
  | ownKey
  | maxLength (n : Int)
  | minLength (n : Int)
  | precision (digits scale : Int)
  | size (n : SizedNumber)
  | other (label : String)
  deriving DecidableEq, Repr

def Mark.isKey : Mark → Bool
  | .primaryKey | .identity | .ownKey => true
  | _ => false

def Mark.same : Mark → Mark → Bool
  | .ownKey, _ => false
  | a, b => a == b

/-- The facets that marks ask for; of two marks of one kind the last counts. -/
def Facets.ofMarks (marks : List Mark) : Facets :=
  marks.foldl (fun facets mark =>
    match mark with
    | .maxLength n => { facets with maxLength := some n }
    | .precision digits scale => { facets with precision := some digits, scale := some scale }
    | _ => facets) {}

/-- A collection type. Either kind has a second name, and types under different names are not the
same. -/
inductive Collection where
  | list
  | set
  | listAlias
  | setAlias
  deriving DecidableEq, Repr

/-- A record class or an enumeration, by the module that declares it. -/
structure DeclarationRef where
  module : String
  name : String
  deriving DecidableEq, Repr

inductive FieldType where
  | scalar (s : Scalar)
  | sized (n : SizedNumber)
  | declared (ref : DeclarationRef)
  | annotated (inner : FieldType) (marks : List Mark)
  | optional (inner : FieldType)
  | collection (kind : Collection) (inner : FieldType)
  /-- One of several types. -/
  | choice (first rest : FieldType)
  /-- The type of the absent value alone. -/
  | nothing
  /-- A type, or a constructor of types, that no field can have. -/
  | unsupported (label : String)
  /-- A constructor of types with one more argument. -/
  | applied (head argument : FieldType)
  /-- What is written cannot be read as a type at all. -/
  | invalid (cause : Fault)
  deriving DecidableEq, Repr

namespace FieldType

def words : List (String × FieldType) := [
  ("bool", .scalar .boolean), ("int", .scalar .integer), ("float", .scalar .float),
  ("str", .scalar .text), ("Decimal", .scalar .decimal), ("datetime", .scalar .dateTime),
  ("date", .scalar .date), ("time", .scalar .time), ("UUID", .scalar .uuid),
  ("bytes", .scalar .bytes), ("int8", .sized .int8), ("int16", .sized .int16),
  ("int32", .sized .int32), ("int64", .sized .int64), ("uint8", .sized .uint8),
  ("uint16", .sized .uint16), ("uint32", .sized .uint32), ("uint64", .sized .uint64),
  ("float32", .sized .float32), ("float64", .sized .float64), ("None", .nothing)]

/-- Names that keep their own meaning in field types, whatever is declared under them, and the kinds
of the values they stand for. -/
def takenKinds : List (String × String) :=
  [("typ", "str"), ("module", "module"), ("None", "NoneType"), ("True", "bool"), ("False", "bool")]

def ofWord (word : String) : FieldType := (words.lookup word).getD (.unsupported word)

/-- Adds marks; a sized number that is annotated becomes an annotated number and loses its width. -/
def annotate (marks : List Mark) : FieldType → FieldType
  | .annotated inner inherited => .annotated inner (inherited ++ marks)
  | .sized n => .annotated (.scalar n.scalar) (.size n :: marks)
  | t => .annotated t marks

/-- The types that a value may have, the absent value among them. -/
def alternatives : FieldType → List FieldType
  | .optional inner => inner.alternatives ++ [.nothing]
  | .choice first rest => first.alternatives ++ rest.alternatives
  | t => [t]

/-- Each alternative of the type is the same as one of the given types. -/
def isAmong : FieldType → List FieldType → Bool
  | .optional inner, types => inner.isAmong types && types.contains .nothing
  | .choice first rest, types => first.isAmong types && rest.isAmong types
  | .annotated inner marks, types => types.any fun
    | .annotated other others =>
      marks.length == others.length && (marks.zip others).all (fun (a, b) => a.same b)
        && inner.alternatives.length == other.alternatives.length
        && inner.isAmong other.alternatives
    | _ => false
  | .collection kind inner, types => types.any fun
    | .collection otherKind other =>
      kind == otherKind && inner.alternatives.length == other.alternatives.length
        && inner.isAmong other.alternatives
    | _ => false
  | .applied head argument, types => types.any fun
    | .applied otherHead other =>
      head.isAmong [otherHead] && argument.alternatives.length == other.alternatives.length
        && argument.isAmong other.alternatives
    | _ => false
  | t, types => types.contains t

/-- The types allow the same values under the same marks: they have as many alternatives, and those
of the one are among those of the other. -/
def same (t u : FieldType) : Bool :=
  t.alternatives.length == u.alternatives.length && t.isAmong u.alternatives

/-- The types without those that are the same as an earlier one. -/
def distinct (types : List FieldType) : List FieldType :=
  types.foldl (fun kept t => if kept.any (·.same t) then kept else kept ++ [t]) []

def choiceOf : List FieldType → FieldType
  | [] => .nothing
  | [t] => t
  | t :: rest => .choice t (choiceOf rest)

/-- The union of types: alternatives that occur twice count once, and a union with the absent value
is optional. -/
def union (types : List FieldType) : FieldType :=
  let all := distinct (types.flatMap alternatives)
  let present := all.filter (· ≠ .nothing)
  if all.contains .nothing ∧ present ≠ [] then .optional (choiceOf present) else choiceOf all

/-- A type that allows the absent value. -/
def orNothing (t : FieldType) : FieldType := union [t, .nothing]

/-- A taken name stands for no type, so that it cannot be joined with the absent value by a bar. -/
def checkBar (name : String) : Except Fault Unit :=
  match takenKinds.lookup name with
  | some kind => .error (.unjoinable kind)
  | none => .ok ()

/-- A value that is no type cannot carry marks; only a text becomes a type under them. -/
def annotateIn (module : String) (marks : List Mark) (t : FieldType) : Except Fault FieldType :=
  match t with
  | .unsupported name =>
    match takenKinds.lookup name with
    | some "bool" => .error (.unmarkable "'bool' object")
    | some "module" => .error (.unmarkable s!"module '{module}'")
    | _ => .ok (t.annotate marks)
  | t => .ok (t.annotate marks)

/-- A union of one alternative is that alternative, and no type either if a taken name stands for
it; only a text becomes a type there. -/
def checkBarAfter : FieldType → Except Fault Unit
  | .unsupported name => if name = "typ" then .ok () else checkBar name
  | _ => .ok ()

/-- The cause for which a type cannot be read. -/
def cause? : FieldType → Option Fault
  | .invalid cause => some cause
  | _ => none

end FieldType

/-- What a field holds at the end of its layers. -/
inductive FieldTarget where
  | primitive (p : Primitive)
  | declared (ref : DeclarationRef)
  | unsupported
  deriving DecidableEq, Repr

/-- A field type with its layers read: how many values, under which marks, of which target. -/
structure FieldShape where
  multiplicity : Multiplicity := {}
  marks : List Mark := []
  target : FieldTarget := .unsupported
  deriving DecidableEq, Repr

/-- Reads the layers from the outside in. There is no shape with a collection inside a
collection. -/
def FieldType.shape? (seen : FieldShape) : FieldType → Option FieldShape
  | .scalar s => some { seen with target := .primitive s.primitive }
  | .sized n => some { seen with target := .primitive n.primitive }
  | .declared ref => some { seen with target := .declared ref }
  | .annotated inner marks => inner.shape? { seen with marks := seen.marks ++ marks }
  | .optional inner =>
    inner.shape? { seen with multiplicity := { seen.multiplicity with lower := 0 } }
  | .collection _ inner =>
    if seen.multiplicity.upper = none then none
    else inner.shape? { seen with multiplicity := ⟨0, none⟩ }
  | .choice _ _ | .nothing | .unsupported _ | .applied _ _ | .invalid _ =>
    some { seen with target := .unsupported }

end Schemata
