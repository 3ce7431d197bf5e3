import Schemata.Relationship.End

/-!
# Relationships

A relationship leads from a principal to a dependent, whose table holds the matching foreign key.
Relationships come from binary associations and from attributes that are the end of none. They are
grouped by dependent, in the order in which they are found.
-/
namespace Schemata

structure Relationship where
  /-- The classifier whose identity is referred to. -/
  principal : ClassifierRef
  /-- The property that leads away from the principal. -/
  path : PropertyRef
  /-- The classifier whose table holds the foreign key. -/
  dependent : ClassifierRef
  /-- The opposite end, if the relationship comes from an association. -/
  opposite : Option PropertyRef
  /-- The dependent owns a navigable attribute, so that its table needs no further column. -/
  isOwned : Bool
  /-- One instance of the principal has many of the dependent. -/
  isOneToMany : Bool
  deriving DecidableEq, Repr

namespace Model

def relationshipOf (m : Model) (near far : AssociationEnd) : Relationship :=
  { principal := near.target
    path := far.property
    dependent := near.host
    opposite := some near.property
    isOwned := (m.property near.property).owner == some (.classifier near.host)
    isOneToMany := !(m.property near.property).multiplicity.isMany &&
      (m.property far.property).multiplicity.isMany }

/-- Both directions of an association, in the order of its ends. -/
def relationshipsOfAssociation (m : Model) (convention : EndConvention) (a : AssociationRef) :
    Logged (List Relationship) := do
  match ← m.ends? convention a with
  | some (first, second) => return [m.relationshipOf first second, m.relationshipOf second first]
  | none => return []

/-- An attribute that refers to an entity and is the end of no association. -/
def relationshipOfAttribute? (m : Model) (owner : ClassifierRef) (p : PropertyRef) :
    Option Relationship :=
  let property := m.property p
  match property.type with
  | some type =>
    if m.isRelationship property ∧ property.association = none then
      some
        { principal := owner
          path := p
          dependent := type
          opposite := none
          isOwned := false
          isOneToMany := property.multiplicity.isMany }
    else none
  | none => none

def associationRelationships (m : Model) (convention : EndConvention) :
    Logged (List Relationship) :=
  List.flatten <$> m.packagedAssociations.mapM (m.relationshipsOfAssociation convention)

def attributeRelationships (m : Model) : List Relationship :=
  (m.packagedClassifiers.filter fun c => (m.classifier c).kind.isMembered).flatMap fun c =>
    (m.classifier c).attributes.filterMap (m.relationshipOfAttribute? c)

/-- All relationships in the order in which they are found: associations first. -/
def relationships (m : Model) (convention : EndConvention) : Logged (List Relationship) := do
  return (← m.associationRelationships convention) ++ m.attributeRelationships

end Model

/-- Relationships by the identifier of their dependent. -/
structure RelationshipMap where
  groups : List (String × List Relationship) := []
  deriving DecidableEq, Repr

namespace RelationshipMap

/-- Adds a value to the group of its key, which is appended if it is new. -/
def insertGroup (key : String) (r : Relationship) :
    List (String × List Relationship) → List (String × List Relationship)
  | [] => [(key, [r])]
  | (k, rs) :: rest => if k = key then (k, rs ++ [r]) :: rest else (k, rs) :: insertGroup key r rest

def insert (m : Model) (map : RelationshipMap) (r : Relationship) : RelationshipMap :=
  ⟨insertGroup (m.classifier r.dependent).id r map.groups⟩

def insertAll (map : RelationshipMap) (m : Model) (rs : List Relationship) : RelationshipMap :=
  rs.foldl (insert m) map

/-- The relationships with a dependent of the given identifier. -/
def get (map : RelationshipMap) (id : String) : List Relationship := (map.groups.lookup id).getD []

theorem lookup_insertGroup (key k : String) (r : Relationship)
    (groups : List (String × List Relationship)) :
    ((insertGroup key r groups).lookup k).getD [] =
      (groups.lookup k).getD [] ++ if k = key then [r] else [] := by
  induction groups with
  | nil =>
    by_cases h : k = key
    · simp [insertGroup, h]
    · simp [insertGroup, List.lookup_cons, h, beq_false_of_ne h]
  | cons g rest ih =>
    obtain ⟨k', rs⟩ := g
    by_cases hk : k' = key
    · by_cases h : k = k'
      · subst hk; subst h; simp [insertGroup]
      · subst hk; simp [insertGroup, List.lookup_cons, h, beq_false_of_ne h]
    · by_cases h : k = k'
      · subst h; simp [insertGroup, hk]
      · simp [insertGroup, hk, List.lookup_cons, beq_false_of_ne h, ih]

/-- A group holds the relationships of its key in the order in which they were added. -/
theorem get_insertAll (map : RelationshipMap) (m : Model) (rs : List Relationship) (k : String) :
    (map.insertAll m rs).get k =
      map.get k ++ rs.filter fun r => (m.classifier r.dependent).id == k := by
  induction rs generalizing map with
  | nil => simp [insertAll]
  | cons r rest ih =>
    have h : (insert m map r).get k =
        map.get k ++ if k = (m.classifier r.dependent).id then [r] else [] :=
      lookup_insertGroup _ _ _ _
    show ((insert m map r).insertAll m rest).get k = _
    rw [ih, h]
    by_cases hk : k = (m.classifier r.dependent).id
    · simp [hk]
    · simp [hk, Ne.symm hk]

end RelationshipMap

def Model.relationshipMap (m : Model) (convention : EndConvention) : Logged RelationshipMap := do
  return RelationshipMap.insertAll {} m (← m.relationships convention)

end Schemata
