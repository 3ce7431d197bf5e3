import Schemata.Proofs.Schema.References

/-!
# What columns are made for

Apart from its SQL type and its identity, a column of a derived table is what it was made for: an
attribute of the table's classifier, or a relationship that needs a column.
-/
namespace Schemata

structure Column.Serves (column : Column) (purpose : ColumnPurpose) : Prop where
  name : column.name = purpose.name
  source : column.source = some purpose.source
  referenced : column.referenced = purpose.referenced
  role : column.role = purpose.role
  isForeignKey : column.isForeignKey = purpose.isForeignKey
  isNavigable : column.isNavigable = purpose.isNavigable
  isMany : column.isMany = purpose.isMany

theorem forall₂_keepFirstIdentity_left {β : Type} {R : DerivedColumn → β → Prop}
    (hR : ∀ d isIdentity x, R d x → R (d.identified isIdentity) x) {ds : List DerivedColumn}
    {xs : List β} (h : List.Forall₂ R ds xs) (taken : Bool) :
    List.Forall₂ R (keepFirstIdentity taken ds) xs := by
  induction h generalizing taken with
  | nil => exact .nil
  | cons hd _ ih => exact .cons (hR _ _ _ hd) (ih _)

namespace Options

variable {o : Options} {m : Model} {map : RelationshipMap} {table : String} {c : ClassifierRef}
  {p : PropertyRef} {purpose : ColumnPurpose} {sqlType : String}

def attributePurpose? (o : Options) (m : Model) (c : ClassifierRef) (p : PropertyRef) :
    Option ColumnPurpose :=
  if (m.property p).name = "" then none
  else
    match m.attributePrincipal? c p with
    | some type =>
      if (m.property p).multiplicity.isMany then none
      else (m.identityProperty? type).map (o.referencePurpose m p)
    | none => some (o.valuePurpose m p)

def neededPurpose? (o : Options) (m : Model) (r : Relationship) : Option ColumnPurpose :=
  (m.identityProperty? r.principal).map (o.relationshipPurpose m r)

def purposes (o : Options) (m : Model) (map : RelationshipMap) (c : ClassifierRef) :
    List ColumnPurpose :=
  (m.classifier c).attributes.filterMap (o.attributePurpose? m c) ++
    (map.needed m c).filterMap (o.neededPurpose? m)

theorem serves_columnOf (purpose : ColumnPurpose) (sqlType : String) :
    (o.columnOf m purpose sqlType).Serves purpose := ⟨rfl, rfl, rfl, rfl, rfl, rfl, rfl⟩

theorem attributeColumn?_serves {d? : Option DerivedColumn}
    (h : (o.attributeColumn? m table c p).value = .ok d?) :
    Option.Rel (fun d purpose => d.column.Serves purpose) d? (o.attributePurpose? m c p) := by
  rcases attributeColumn?_eq_ok h with ⟨rfl, hn⟩ | ⟨d, rfl, hd⟩
  · have hnone : o.attributePurpose? m c p = none := by
      rcases hn with hn | ⟨hp, hm⟩
      · simp [attributePurpose?, hn]
      · obtain ⟨type, hp⟩ := Option.isSome_iff_exists.mp hp
        simp [attributePurpose?, hp, hm]
    rw [hnone]
    exact .none
  · cases hd with
    | @reference type referenced _ principal single named identity =>
      have hsome : o.attributePurpose? m c p = some (o.referencePurpose m p referenced) := by
        simp [attributePurpose?, principal, single, named, identity]
      rw [hsome]
      exact .some (serves_columnOf _ _)
    | value principal named =>
      have hsome : o.attributePurpose? m c p = some (o.valuePurpose m p) := by
        simp [attributePurpose?, principal, named]
      rw [hsome]
      exact .some (serves_columnOf _ _)

theorem relationshipColumns_serve {rs : List Relationship} {further : List DerivedColumn}
    (h : List.Forall₂ (fun r d => (o.relationshipColumn m table c r).value = .ok d) rs further) :
    List.Forall₂ (fun d purpose => d.column.Serves purpose) further
      (rs.filterMap (o.neededPurpose? m)) := by
  induction h with
  | nil => exact .nil
  | cons hd _ ih =>
    obtain ⟨referenced, sqlType, identity, _, rfl⟩ := relationshipColumn_eq_ok hd
    rw [List.filterMap_cons_some (by rw [neededPurpose?, identity]; rfl)]
    exact .cons (serves_columnOf _ _) ih

variable {definition : TableDefinition} {own further : List DerivedColumn}

theorem Defines.own_serves (h : o.Defines m map c definition own further) :
    List.Forall₂ (fun d purpose => d.column.Serves purpose) own
      ((m.members c).filterMap (o.attributePurpose? m c)) := by
  obtain ⟨found, hf, rfl⟩ := h.ofAttributes
  refine forall₂_keepFirstIdentity_left (fun d _ purpose h => ?_) ?_ false
  · exact ⟨h.name, h.source, h.referenced, h.role, h.isForeignKey, h.isNavigable, h.isMany⟩
  · refine List.rel_filterMap (R := fun d? p =>
      (o.attributeColumn? m (o.naming.tableName (m.classifier c)) c p).value = .ok d?) ?_ hf.flip
    exact fun _ _ h => attributeColumn?_serves h

section
variable {table : Table} (made : o.Made m map definition table c own further)
include made

/-- The columns of a table serve the purposes of its classifier in order. -/
theorem Made.serves : List.Forall₂ Column.Serves table.columns (o.purposes m map c) := by
  have hown := made.defines.own_serves
  rw [show m.members c = (m.classifier c).attributes from if_pos made.membered] at hown
  rw [made.columns, List.forall₂_map_left_iff]
  exact List.rel_append hown (relationshipColumns_serve made.defines.ofRelationships)

theorem Made.map_columns {γ : Type} {f : Column → γ} {g : ColumnPurpose → γ}
    (hf : ∀ column purpose, column.Serves purpose → f column = g purpose) :
    table.columns.map f = (o.purposes m map c).map g :=
  map_eq_of_forall₂ hf made.serves

theorem Made.attributePurpose?_of_reference {type : ClassifierRef}
    (hp : p ∈ (m.classifier c).attributes) (named : (m.property p).name ≠ "")
    (principal : m.attributePrincipal? c p = some type)
    (single : (m.property p).multiplicity.isMany = false) :
    ∃ referenced, o.attributePurpose? m c p = some (o.referencePurpose m p referenced) := by
  obtain ⟨found, hf, _⟩ := made.defines.ofAttributes
  rw [show m.members c = (m.classifier c).attributes from if_pos made.membered] at hf
  obtain ⟨i, hi⟩ := List.mem_iff_getElem?.mp hp
  obtain ⟨d?, _, ok⟩ := exists_getElem?_of_forall₂ hf.flip hi
  rcases attributeColumn?_eq_ok ok with ⟨_, hn | ⟨_, hm⟩⟩ | ⟨d, _, hd⟩
  · exact absurd hn named
  · rw [single] at hm
    cases hm
  · cases hd with
    | @reference _ referenced _ principal' _ _ identity =>
      obtain rfl := Option.some.inj (principal.symm.trans principal')
      exact ⟨referenced, by simp [attributePurpose?, named, principal, single, identity]⟩
    | value principal' =>
      rw [principal] at principal'
      cases principal'

theorem Made.neededPurpose?_eq_some {r : Relationship} (hr : r ∈ map.needed m c) :
    ∃ referenced, o.neededPurpose? m r = some (o.relationshipPurpose m r referenced) := by
  obtain ⟨i, hi⟩ := List.mem_iff_getElem?.mp hr
  obtain ⟨d, _, ok⟩ := exists_getElem?_of_forall₂ made.defines.ofRelationships.flip hi
  obtain ⟨referenced, _, identity, _⟩ := relationshipColumn_eq_ok ok
  exact ⟨referenced, by rw [neededPurpose?, identity]; rfl⟩

end

end Options

end Schemata
