import Schemata.Logged
import Schemata.Model.Basic

/-!
# Ends of binary associations

Models differ in what the type of an association end means: the classifier the end leads to, or the
one it starts from. A convention decides this, and is the only place that does.
-/
namespace Schemata

inductive EndConvention where
  /-- The type of an end is the classifier it leads to. -/
  | opposite
  /-- The type of an end is the classifier it starts from. -/
  | declared
  deriving DecidableEq, Repr

/-- A member end with the classifier it starts from and the one it leads to. -/
structure AssociationEnd where
  property : PropertyRef
  host : ClassifierRef
  target : ClassifierRef
  deriving DecidableEq, Repr

def EndConvention.ends (convention : EndConvention) (p q : PropertyRef) (s t : ClassifierRef) :
    AssociationEnd × AssociationEnd :=
  match convention with
  | .opposite => (⟨p, t, s⟩, ⟨q, s, t⟩)
  | .declared => (⟨p, s, t⟩, ⟨q, t, s⟩)

/-- The ends of an association that is binary and whose ends have types. -/
def Model.ends? (m : Model) (convention : EndConvention) (a : AssociationRef) :
    Logged (Option (AssociationEnd × AssociationEnd)) :=
  match (m.association a).ends with
  | [p, q] =>
    match (m.property p).type, (m.property q).type with
    | some s, some t => return some (convention.ends p q s t)
    | _, _ => do
      Logged.note (.untypedEnd (m.association a).label)
      return none
  | _ => return none

end Schemata
