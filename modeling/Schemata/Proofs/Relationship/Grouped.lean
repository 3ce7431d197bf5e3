import Schemata.Proofs.Document.Mirror
import Schemata.Proofs.Relationship.Found

/-!
# Groups of relationships

The relationship map holds one sequence of relationships, grouped by the identifier of the
dependent: both directions of each association that has exactly two typed ends, and then one
relationship for each attribute that refers to an entity and is the end of no association. The
directions of an association mirror one another.
-/
namespace Schemata

/-- Elements by key: the keys in the order in which they occur first, and the elements of each in
theirs. -/
def groupedBy {α : Type} (key : α → String) (xs : List α) : List (String × List α) :=
  (xs.map key).eraseDups.map fun k => (k, xs.filter fun x => key x == k)

section Groups
variable {α : Type} {key : α → String}

theorem groupedBy_cons (x : α) (xs : List α) : groupedBy key (x :: xs) =
    (key x, x :: xs.filter fun y => key y == key x) ::
      groupedBy key (xs.filter fun y => !key y == key x) := by
  have hkeys : (xs.filter fun y => !key y == key x).map key =
      (xs.map key).filter fun k => !k == key x := by
    rw [List.filter_map]
    rfl
  rw [groupedBy, List.map_cons, List.eraseDups_cons, List.map_cons,
    List.filter_cons_of_pos (by simp), groupedBy, hkeys]
  congr 1
  refine List.map_congr_left fun k hk => ?_
  have hne : k ≠ key x := by simpa using (List.mem_filter.mp (List.mem_eraseDups.mp hk)).2
  rw [List.filter_cons_of_neg (by simpa using Ne.symm hne), List.filter_filter]
  congr 1
  refine List.filter_congr fun y _ => ?_
  by_cases hy : key y = k
  · simp [hy, hne]
  · simp [hy]

theorem flatMap_groupedBy_perm (xs : List α) : ((groupedBy key xs).flatMap Prod.snd).Perm xs := by
  match xs with
  | [] => exact .refl _
  | x :: xs =>
    rw [groupedBy_cons, List.flatMap_cons]
    refine .cons x ?_
    refine (List.Perm.append_left _ (flatMap_groupedBy_perm _)).trans ?_
    exact List.filter_append_perm _ xs
termination_by xs.length
decreasing_by exact Nat.lt_succ_of_le (List.length_filter_le _ _)

end Groups

namespace RelationshipMap

variable {m : Model}

/-- The group in front takes the relationships of its key, and those behind it the others. -/
theorem insertAll_cons (k : String) (rs : List Relationship)
    (groups : List (String × List Relationship)) (new : List Relationship) :
    (insertAll ⟨(k, rs) :: groups⟩ m new).groups =
      (k, rs ++ new.filter fun r => (m.classifier r.dependent).id == k) ::
        (insertAll ⟨groups⟩ m (new.filter fun r => !(m.classifier r.dependent).id ==
          k)).groups := by
  induction new generalizing rs groups with
  | nil => simp [insertAll]
  | cons r new ih =>
    by_cases hk : k = (m.classifier r.dependent).id
    · have hinsert : insert m ⟨(k, rs) :: groups⟩ r = ⟨(k, rs ++ [r]) :: groups⟩ := by
        rw [insert, insertGroup, if_pos hk]
      rw [insertAll, List.foldl_cons, hinsert, List.filter_cons_of_pos (by simp [hk]),
        List.filter_cons_of_neg (by simp [hk])]
      exact (ih _ _).trans (by simp)
    · have hinsert : insert m ⟨(k, rs) :: groups⟩ r =
          ⟨(k, rs) :: (insert m ⟨groups⟩ r).groups⟩ := by
        rw [insert, insertGroup, if_neg hk]
        rfl
      rw [insertAll, List.foldl_cons, hinsert, List.filter_cons_of_neg (by simpa using Ne.symm hk),
        List.filter_cons_of_pos (by simpa using Ne.symm hk)]
      exact ih _ _

theorem groups_insertAll (rs : List Relationship) :
    (insertAll {} m rs).groups = groupedBy (fun r => (m.classifier r.dependent).id) rs := by
  match rs with
  | [] => rfl
  | r :: rs =>
    rw [groupedBy_cons, ← groups_insertAll]
    exact insertAll_cons _ [r] [] rs
termination_by rs.length
decreasing_by exact Nat.lt_succ_of_le (List.length_filter_le _ _)

end RelationshipMap

/-- Two directions of one association: each leads back along the other, and not both are
one-to-many. -/
structure Relationship.Mirrors (r r' : Relationship) : Prop where
  principal : r'.principal = r.dependent
  dependent : r'.dependent = r.principal
  path : r.opposite = some r'.path
  opposite : r'.opposite = some r.path
  single : ¬ (r.isOneToMany = true ∧ r'.isOneToMany = true)

namespace Model

variable {m : Model} {convention : EndConvention} {a : AssociationRef}

def isTypedBinary (m : Model) (a : AssociationRef) : Bool :=
  (m.association a).ends.length == 2 && (m.association a).ends.all fun p =>
    (m.property p).type.isSome

/-- The attributes of all classes, interfaces and data types, each with its owner. -/
def memberedAttributes (m : Model) : List (ClassifierRef × PropertyRef) :=
  (m.packagedClassifiers.filter fun c => (m.classifier c).kind.isMembered).flatMap fun c =>
    (m.classifier c).attributes.map (c, ·)

/-- The attribute refers to an entity and is the end of no association. -/
def isPlain (m : Model) (x : ClassifierRef × PropertyRef) : Bool :=
  m.isRelationship (m.property x.2) && (m.property x.2).association.isNone

/-- The relationship that leads from the target of the near end to its host, along the far end. -/
structure Direction (m : Model) (near far : PropertyRef) (host target : ClassifierRef)
    (r : Relationship) :
    Prop where
  principal : r.principal = target
  path : r.path = far
  dependent : r.dependent = host
  opposite : r.opposite = some near
  isOwned : r.isOwned = true ↔ (m.property near).owner = some (.classifier host)
  isOneToMany : r.isOneToMany = true ↔
    (m.property near).multiplicity.isMany = false ∧ (m.property far).multiplicity.isMany = true

/-- Both directions of an association, in the order of its ends. The host of an end is the type of
the other one, or its own type where that is the classifier at which it starts. -/
def BothDirections (m : Model) (convention : EndConvention) (a : AssociationRef)
    (rs : Relationship × Relationship) : Prop :=
  ∃ p q s t, (m.association a).ends = [p, q] ∧ (m.property p).type = some s ∧
    (m.property q).type = some t ∧
    match convention with
    | .opposite => m.Direction p q t s rs.1 ∧ m.Direction q p s t rs.2
    | .declared => m.Direction p q s t rs.1 ∧ m.Direction q p t s rs.2

structure AlongAttribute (m : Model) (x : ClassifierRef × PropertyRef) (r : Relationship) :
    Prop where
  principal : r.principal = x.1
  path : r.path = x.2
  dependent : (m.property x.2).type = some r.dependent
  opposite : r.opposite = none
  isOwned : r.isOwned = false
  isOneToMany : r.isOneToMany = (m.property x.2).multiplicity.isMany

theorem direction_relationshipOf (m : Model) (near far : AssociationEnd) :
    m.Direction near.property far.property near.host near.target (m.relationshipOf near far) where
  principal := rfl
  path := rfl
  dependent := rfl
  opposite := rfl
  isOwned := by simp [relationshipOf]
  isOneToMany := by simp [relationshipOf]

theorem BothDirections.mirrors {rs : Relationship × Relationship}
    (h : m.BothDirections convention a rs) :
    rs.1.Mirrors rs.2 := by
  have hmirrors : ∀ {p q s t}, m.Direction p q t s rs.1 → m.Direction q p s t rs.2 →
      rs.1.Mirrors rs.2 := by
    intro p q s t h h'
    refine ⟨h'.principal.trans h.dependent.symm, h'.dependent.trans h.principal.symm, ?_, ?_, ?_⟩
    · rw [h.opposite, h'.path]
    · rw [h'.opposite, h.path]
    · rintro ⟨many, many'⟩
      have near := (h.isOneToMany.mp many).1
      rw [(h'.isOneToMany.mp many').2] at near
      cases near
  obtain ⟨p, q, s, t, -, -, -, h⟩ := h
  cases convention with
  | opposite => exact hmirrors h.1 h.2
  | declared => exact hmirrors h.1 h.2

theorem relationshipsAt_cases (m : Model) (convention : EndConvention) (a : AssociationRef) :
    (m.isTypedBinary a = false ∧ m.relationshipsAt convention a = []) ∨
      ∃ rs, m.isTypedBinary a = true ∧ m.BothDirections convention a rs ∧
        m.relationshipsAt convention a = [rs.1, rs.2] := by
  cases h : m.bothEnds? convention a with
  | none =>
    refine .inl ⟨?_, by rw [relationshipsAt, h]⟩
    by_contra hboth
    rw [Bool.not_eq_false, isTypedBinary, Bool.and_eq_true, beq_iff_eq, List.length_eq_two] at hboth
    obtain ⟨⟨p, q, hends⟩, htyped⟩ := hboth
    simp only [hends, List.all_cons, List.all_nil, Bool.and_true, Bool.and_eq_true] at htyped
    obtain ⟨s, hs⟩ := Option.isSome_iff_exists.mp htyped.1
    obtain ⟨t, ht⟩ := Option.isSome_iff_exists.mp htyped.2
    have hsome : m.bothEnds? convention a = some (convention.ends p q s t) :=
      bothEnds?_eq_some.mpr ⟨p, q, s, t, hends, hs, ht, rfl⟩
    rw [h] at hsome
    cases hsome
  | some ends =>
    obtain ⟨first, second⟩ := ends
    refine .inr ⟨(m.relationshipOf first second, m.relationshipOf second first), ?_, ?_, ?_⟩
    · obtain ⟨p, q, s, t, hends, hs, ht, -⟩ := bothEnds?_eq_some.mp h
      simp [isTypedBinary, hends, hs, ht]
    · obtain ⟨p, q, s, t, hends, hs, ht, e⟩ := bothEnds?_eq_some.mp h
      refine ⟨p, q, s, t, hends, hs, ht, ?_⟩
      have hfirst := m.direction_relationshipOf first second
      have hsecond := m.direction_relationshipOf second first
      cases convention <;> obtain ⟨rfl, rfl⟩ := Prod.mk.inj e <;> exact ⟨hfirst, hsecond⟩
    · rw [relationshipsAt, h]

/-- The relationships of associations are the directions of those that are binary. -/
theorem exists_pairs (m : Model) (convention : EndConvention) (associations : List AssociationRef) :
    ∃ pairs, List.Forall₂ (m.BothDirections convention)
      (associations.filter m.isTypedBinary) pairs ∧
      associations.flatMap (m.relationshipsAt convention) = pairs.flatMap fun rs =>
        [rs.1, rs.2] := by
  induction associations with
  | nil => exact ⟨[], .nil, rfl⟩
  | cons a associations ih =>
    obtain ⟨pairs, hpairs, e⟩ := ih
    rcases relationshipsAt_cases m convention a with ⟨hnot, hnone⟩ | ⟨rs, hboth, hrs, hsome⟩
    · refine ⟨pairs, ?_, ?_⟩
      · rwa [List.filter_cons_of_neg (Bool.eq_false_iff.mp hnot)]
      · rw [List.flatMap_cons, hnone, List.nil_append, e]
    · refine ⟨rs :: pairs, ?_, ?_⟩
      · rw [List.filter_cons_of_pos hboth]
        exact .cons hrs hpairs
      · rw [List.flatMap_cons, hsome, e, List.flatMap_cons]

theorem relationshipOfAttribute?_cases (m : Model) (x : ClassifierRef × PropertyRef) :
    (m.isPlain x = false ∧ m.relationshipOfAttribute? x.1 x.2 = none) ∨
      ∃ r, m.isPlain x = true ∧ m.AlongAttribute x r ∧
        m.relationshipOfAttribute? x.1 x.2 = some r := by
  cases h : m.relationshipOfAttribute? x.1 x.2 with
  | some r =>
    obtain ⟨type, htype, hrelationship, hplain, rfl⟩ := relationshipOfAttribute?_eq_some.mp h
    exact .inr ⟨_, by simp [isPlain, hrelationship, hplain], ⟨rfl, rfl, htype, rfl, rfl, rfl⟩, rfl⟩
  | none =>
    refine .inl ⟨?_, rfl⟩
    by_contra hplain
    rw [Bool.not_eq_false, isPlain, Bool.and_eq_true, Option.isNone_iff_eq_none] at hplain
    have htype : (m.property x.2).type ≠ none := fun e => by simp [isRelationship, e] at hplain
    obtain ⟨type, htype⟩ := Option.ne_none_iff_exists'.mp htype
    have hsome := (relationshipOfAttribute?_eq_some (c := x.1)).mpr
      ⟨type, htype, hplain.1, hplain.2, rfl⟩
    rw [h] at hsome
    cases hsome

theorem forall₂_alongAttribute (m : Model) (xs : List (ClassifierRef × PropertyRef)) :
    List.Forall₂ m.AlongAttribute (xs.filter m.isPlain)
      (xs.filterMap fun x => m.relationshipOfAttribute? x.1 x.2) := by
  induction xs with
  | nil => exact .nil
  | cons x xs ih =>
    rcases relationshipOfAttribute?_cases m x with ⟨hnot, hnone⟩ | ⟨r, hplain, hr, hsome⟩
    · rw [List.filter_cons_of_neg (Bool.eq_false_iff.mp hnot)]
      simpa only [List.filterMap_cons, hnone] using ih
    · rw [List.filter_cons_of_pos hplain]
      simpa only [List.filterMap_cons, hsome] using .cons hr ih

theorem attributeRelationships_eq (m : Model) : m.attributeRelationships =
    m.memberedAttributes.filterMap fun x => m.relationshipOfAttribute? x.1 x.2 := by
  rw [attributeRelationships, memberedAttributes, List.filterMap_flatMap]
  refine List.flatMap_congr fun c _ => ?_
  rw [List.filterMap_map]
  rfl

theorem LastListed.association_eq_none_iff (h : m.LastListed) (p : PropertyRef) :
    (m.property p).association = none ↔
    ∀ a ∈ m.packagedAssociations, p ∉ (m.association a).ends := by
  rw [h p, List.find?_eq_none]
  simp

/-- The map is the grouping of one sequence by the identifier of the dependent: both directions of
each association with exactly two typed ends, and behind them a relationship for each plain
attribute, in the order of the model. -/
theorem relationshipMap_groupedBy (m : Model) (convention : EndConvention) : ∃ map pairs singles,
    (m.relationshipMap convention).value = .ok map ∧
      List.Forall₂ (m.BothDirections convention)
        (m.packagedAssociations.filter m.isTypedBinary) pairs ∧
      List.Forall₂ m.AlongAttribute (m.memberedAttributes.filter m.isPlain) singles ∧
      map.groups = groupedBy (fun r => (m.classifier r.dependent).id)
        (pairs.flatMap (fun rs => [rs.1, rs.2]) ++ singles) ∧
      (map.groups.flatMap Prod.snd).Perm (pairs.flatMap (fun rs => [rs.1, rs.2]) ++ singles) ∧
      (∀ rs ∈ pairs, rs.1.Mirrors rs.2) ∧
      (m.LastListed → ∀ p, (m.property p).association = none ↔
        ∀ a ∈ m.packagedAssociations, p ∉ (m.association a).ends) := by
  obtain ⟨pairs, hpairs, hfound⟩ := exists_pairs m convention m.packagedAssociations
  have hgroups := RelationshipMap.groups_insertAll (m := m) (m.found convention)
  rw [found, hfound] at hgroups
  refine ⟨_, pairs, m.attributeRelationships, relationshipMap_value, hpairs, ?_, ?_, ?_, ?_,
    LastListed.association_eq_none_iff⟩
  · rw [attributeRelationships_eq]
    exact forall₂_alongAttribute m _
  · rw [found, hfound, hgroups]
  · rw [found, hfound, hgroups]
    exact flatMap_groupedBy_perm _
  · intro rs hrs
    obtain ⟨a, _, both⟩ := exists_mem_of_forall₂ hpairs hrs
    exact both.mirrors

end Model

end Schemata
