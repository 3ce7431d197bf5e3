import Schemata.RecordClass.Enumeration
import Schemata.RecordClass.FieldType

/-!
# Record classes and enumerations

Declarations live in modules and are visible under names, which an import may change: a module sees
at most one declaration under a name, the one that it was given last. A record class has the fields
of its base before its own.
-/
namespace Schemata

structure Field where
  name : String
  type : FieldType
  deriving DecidableEq, Repr

structure RecordClass where
  name : String
  id : String
  base : Option DeclarationRef := none
  /-- A plain class declares no fields of its own. -/
  plain : Bool := false
  fields : List Field := []
  deriving DecidableEq, Repr

structure VisibleName where
  module : String
  name : String
  ref : DeclarationRef
  deriving DecidableEq, Repr

def VisibleName.isAt (v : VisibleName) (module name : String) : Bool :=
  v.module == module && v.name == name

/-- All declarations, the latest first. -/
structure Registry where
  classes : List (DeclarationRef × RecordClass) := []
  enumerations : List (DeclarationRef × EnumerationClass) := []
  names : List VisibleName := []
  deriving DecidableEq, Repr

/-- A field that is declared again keeps its place and takes the new type. -/
def overrideField (fields : List Field) (field : Field) : List Field :=
  if fields.any (·.name == field.name) then
    fields.map fun f => if f.name == field.name then field else f
  else fields ++ [field]

/-- The fields of a record class, those of its base first. A class is a record class if it is not
plain, or if its base is one; a base is declared before the classes that extend it. -/
def fieldsAmong : List (DeclarationRef × RecordClass) → DeclarationRef → Option (List Field)
  | [], _ => none
  | (ref, c) :: earlier, sought =>
    if ref = sought then
      let inherited := c.base.bind (fieldsAmong earlier)
      if c.plain then inherited else some (c.fields.foldl overrideField (inherited.getD []))
    else fieldsAmong earlier sought

namespace Registry

def fields? (r : Registry) (ref : DeclarationRef) : Option (List Field) := fieldsAmong r.classes ref

def class? (r : Registry) (ref : DeclarationRef) : Option RecordClass := r.classes.lookup ref

/-- A class takes the place of an enumeration of its name. -/
def enumeration? (r : Registry) (ref : DeclarationRef) : Option EnumerationClass :=
  if (r.class? ref).isSome then none else r.enumerations.lookup ref

def find? (r : Registry) (module name : String) : Option DeclarationRef :=
  (r.names.find? (·.isAt module name)).map (·.ref)

/-- Leaves a module without names, as one that is declared anew. -/
def clear (r : Registry) (module : String) : Registry :=
  { r with names := r.names.filter fun v => v.module != module }

theorem find?_clear (r : Registry) (module name : String) :
    (r.clear module).find? module name = none := by
  simp +contextual [find?, clear, VisibleName.isAt]

/-- The type that a name stands for in the field types of a module: a declaration that the module
sees, or else a type of its own. -/
def typeNamed (r : Registry) (module name : String) : FieldType :=
  if (FieldType.takenKinds.lookup name).isSome then .ofWord name
  else ((r.find? module name).map .declared).getD (.ofWord name)

/-- Makes a declaration visible in a module, in place of what the module saw under the name. -/
def expose (r : Registry) (module name : String) (ref : DeclarationRef) : Registry :=
  { r with names := ⟨module, name, ref⟩ :: r.names.filter fun v => !v.isAt module name }

theorem find?_expose_self (r : Registry) (module name : String) (ref : DeclarationRef) :
    (r.expose module name ref).find? module name = some ref := by
  simp [find?, expose, VisibleName.isAt]

theorem find?_expose_of_ne (r : Registry) {module name module' name' : String}
    (ref : DeclarationRef) (h : ¬(module' = module ∧ name' = name)) :
    (r.expose module name ref).find? module' name' = r.find? module' name' := by
  have hne : VisibleName.isAt ⟨module, name, ref⟩ module' name' = false := by
    grind [VisibleName.isAt]
  have hkept (v : VisibleName) :
      (!v.isAt module name && v.isAt module' name') = v.isAt module' name' := by
    grind [VisibleName.isAt]
  simp [find?, expose, hne, hkept, List.find?_filter]

end Registry

/-- Puts a name into an ascending list of names. -/
def insertName (v : VisibleName) : List VisibleName → List VisibleName
  | [] => [v]
  | w :: rest => if w.name < v.name then w :: insertName v rest else v :: w :: rest

/-- The record classes that a module sees and one of the given modules declares, by visible name. -/
def Registry.members (r : Registry) (modules : List String) (module : String) :
    List DeclarationRef :=
  let visible := r.names.filter fun v =>
    v.module == module && (r.fields? v.ref).isSome && modules.contains v.ref.module
  (visible.foldr insertName []).map (·.ref)

end Schemata
