import Schemata.Text.Diagnostic
import Schemata.Model.Basic

/-!
# Descriptions of model elements

One line that tells an element apart from the others, with every text shown between quotes.
-/
namespace Schemata
open Text

def Classifier.describe (c : Classifier) : String :=
  s!"Type({shown c.id}, {shown c.name}, {c.kind.label})"

def Association.describe (a : Association) : String :=
  s!"Association({shown a.id}, {shown a.name})"

def Model.ownerName? (m : Model) (p : Property) : Option String :=
  p.owner.map fun
    | .classifier c => (m.classifier c).name
    | .association a => (m.association a).name

def Model.describeProperty (m : Model) (p : Property) : String :=
  let owner := match m.ownerName? p with
    | some name => shown name
    | none => "None"
  s!"Property({shown p.id}, {owner}.{shown p.name}: {shown (m.typeName p)})"

end Schemata
