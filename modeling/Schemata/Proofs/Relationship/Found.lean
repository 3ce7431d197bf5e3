import Schemata.Proofs.Outcome
import Schemata.Relationship.Basic

/-!
# The relationships that are found

Relationships are always found: those of the binary associations, and behind them those of the
attributes that are the end of none. The map has them by dependent, in the same order.
-/
namespace Schemata
namespace Model

variable {m : Model} {convention : EndConvention} {a : AssociationRef} {r : Relationship}
  {c : ClassifierRef} {p : PropertyRef}

def bothEnds? (m : Model) (convention : EndConvention) (a : AssociationRef) :
    Option (AssociationEnd × AssociationEnd) :=
  match (m.association a).ends with
  | [p, q] =>
    match (m.property p).type, (m.property q).type with
    | some s, some t => some (convention.ends p q s t)
    | _, _ => none
  | _ => none

def relationshipsAt (m : Model) (convention : EndConvention) (a : AssociationRef) :
    List Relationship :=
  match m.bothEnds? convention a with
  | some (first, second) => [m.relationshipOf first second, m.relationshipOf second first]
  | none => []

def found (m : Model) (convention : EndConvention) : List Relationship :=
  m.packagedAssociations.flatMap (m.relationshipsAt convention) ++ m.attributeRelationships

theorem ends?_value : (m.ends? convention a).value = .ok (m.bothEnds? convention a) := by
  rw [ends?, bothEnds?]
  rcases (m.association a).ends with _ | ⟨p, _ | ⟨q, _ | ⟨_, _⟩⟩⟩
  case cons.cons.nil =>
    cases hs : (m.property p).type <;> cases ht : (m.property q).type <;> simp only [hs, ht] <;> rfl
  all_goals rfl

theorem relationshipsOfAssociation_value :
    (m.relationshipsOfAssociation convention a).value = .ok (m.relationshipsAt convention a) := by
  refine Logged.bind_eq_ok.mpr ⟨_, ends?_value, ?_⟩
  rw [relationshipsAt]
  cases m.bothEnds? convention a <;> rfl

theorem associationRelationships_value : (m.associationRelationships convention).value =
    .ok (m.packagedAssociations.flatMap (m.relationshipsAt convention)) := by
  refine Logged.bind_eq_ok.mpr ⟨m.packagedAssociations.map (m.relationshipsAt convention), ?_, ?_⟩
  · rw [Logged.mapM_eq_ok, List.forall₂_map_right_iff, List.forall₂_same]
    exact fun a _ => relationshipsOfAssociation_value
  · rw [List.flatMap_def]
    rfl

theorem relationshipMap_value : (m.relationshipMap convention).value =
    .ok (RelationshipMap.insertAll {} m (m.found convention)) := by
  refine Logged.bind_eq_ok.mpr ⟨m.found convention, ?_, rfl⟩
  exact Logged.bind_eq_ok.mpr ⟨_, associationRelationships_value, rfl⟩

theorem get_of_relationshipMap {map : RelationshipMap}
    (h : (m.relationshipMap convention).value = .ok map) (id : String) :
    map.get id = (m.found convention).filter fun r => (m.classifier r.dependent).id == id := by
  obtain rfl := Except.ok.inj (relationshipMap_value.symm.trans h)
  rw [RelationshipMap.get_insertAll]
  rfl

theorem bothEnds?_eq_some {first second : AssociationEnd} :
    m.bothEnds? convention a = some (first, second) ↔ ∃ p q s t, (m.association a).ends = [p, q] ∧
      (m.property p).type = some s ∧ (m.property q).type = some t ∧
      convention.ends p q s t = (first, second) := by
  rw [bothEnds?]
  constructor
  · intro h
    split at h
    case h_2 => cases h
    case h_1 p q hends =>
      split at h
      case h_2 => cases h
      case h_1 s t hs ht => exact ⟨p, q, s, t, hends, hs, ht, Option.some.inj h⟩
  · rintro ⟨p, q, s, t, hends, hs, ht, h⟩
    simp only [hends, hs, ht, h]

theorem mem_relationshipsAt : r ∈ m.relationshipsAt convention a ↔ ∃ first second,
    m.bothEnds? convention a = some (first, second) ∧
      (r = m.relationshipOf first second ∨ r = m.relationshipOf second first) := by
  rw [relationshipsAt]
  cases h : m.bothEnds? convention a with
  | none => simp
  | some ends =>
    obtain ⟨first, second⟩ := ends
    simp

theorem opposite_ne_none (hr : r ∈ m.relationshipsAt convention a) : r.opposite ≠ none := by
  obtain ⟨first, second, _, rfl | rfl⟩ := mem_relationshipsAt.mp hr <;> exact Option.some_ne_none _

theorem relationshipOfAttribute?_eq_some : m.relationshipOfAttribute? c p = some r ↔
    ∃ type, (m.property p).type = some type ∧ m.isRelationship (m.property p) = true ∧
      (m.property p).association = none ∧ r =
        { principal := c
          path := p
          dependent := type
          opposite := none
          isOwned := false
          isOneToMany := (m.property p).multiplicity.isMany } := by
  rw [relationshipOfAttribute?]
  cases (m.property p).type with
  | none => simp
  | some type =>
    by_cases h : m.isRelationship (m.property p) ∧ (m.property p).association = none
    · simp [h, eq_comm]
    · simp only [if_neg h, reduceCtorEq, Option.some.injEq, exists_eq_left', false_iff]
      exact fun ⟨hr, ha, _⟩ => h ⟨hr, ha⟩

theorem mem_attributeRelationships : r ∈ m.attributeRelationships ↔
    ∃ c ∈ m.packagedClassifiers, (m.classifier c).kind.isMembered = true ∧
      ∃ p ∈ (m.classifier c).attributes, m.relationshipOfAttribute? c p = some r := by
  simp only [attributeRelationships, List.mem_flatMap, List.mem_filter,
    List.mem_filterMap, and_assoc]

end Model

end Schemata
