import Schemata.Proofs.Database
import Schemata.Proofs.Model.Grounded
import Schemata.Proofs.Procedure.Faults
import Schemata.Proofs.Relationship.Found
import Schemata.Proofs.Schema.Derivable

/-!
# Faults of derivations

An identity is looked up for the SQL type of a reference, and for the column of a reference or of a
relationship. In an identified model it is there each time, so that the derivation of tables stops
for other reasons only.
-/
namespace Schemata

def derivationFamilies : List Family := [.mapping, .endless, .table, .cycle, .unsuited]

variable {o : Options} {m : Model} {names : SqlTypeNames} {c : ClassifierRef} {p : PropertyRef}
  {r : Relationship} {map : RelationshipMap} {table : String}

theorem ClassifierKind.isMembered_of_not_isValue {kind : ClassifierKind}
    (h : kind.isValue = false) :
    kind.isMembered = true := by
  cases kind <;> first | rfl | cases h

/-! ## SQL types -/

theorem failsOnly_ofUntyped (property : Property) :
    FailsOnly derivationFamilies (names.ofUntyped property) := by
  rw [SqlTypeNames.ofUntyped]
  split
  · exact .error (show Family.mapping ∈ derivationFamilies by decide)
  · exact .ok _

namespace Model.Identified

theorem failsOnly_within (h : m.Identified) (steps : Nat) (known : m.Known c) :
    FailsOnly derivationFamilies (names.within m steps c) := by
  induction steps generalizing c with
  | zero => exact .error (show Family.endless ∈ derivationFamilies by decide)
  | succ steps ih =>
    rw [SqlTypeNames.within]
    cases hkind : (m.classifier c).kind
    case entity | interface =>
      have membered : (m.classifier c).kind.isMembered = true := by rw [hkind]; rfl
      obtain ⟨p, hp⟩ := Option.isSome_iff_exists.mp (h.identityProperty?_isSome known membered)
      simp only [hp]
      split
      · rename_i type htype
        exact ih (h.types c p (List.mem_of_find?_eq_some hp) type htype)
      · exact failsOnly_ofUntyped _
    case dataType | primitive => exact .ok _
    case enumeration =>
      cases hbase : (m.classifier c).base with
      | none => exact .ok _
      | some base =>
        have hc : c ∈ m.packagedClassifiers := known.resolve_right (by simp [hkind])
        exact ih (h.bases c hc base hbase)

theorem failsOnly_ofClassifier (h : m.Identified) (known : m.Known c) :
    FailsOnly derivationFamilies (names.ofClassifier m c) :=
  h.failsOnly_within _ known

theorem failsOnly_ofProperty (h : m.Identified) (hp : p ∈ (m.classifier c).attributes) :
    FailsOnly derivationFamilies (names.ofProperty m (m.property p)) := by
  rw [SqlTypeNames.ofProperty]
  split
  · rename_i type htype
    exact h.failsOnly_ofClassifier (h.types c p hp type htype)
  · exact failsOnly_ofUntyped _

/-! ## Columns -/

theorem failsOnly_columnType (h : m.Identified) (hp : p ∈ (m.classifier c).attributes) :
    FailsOnly derivationFamilies (o.columnType m table (m.property p)) := by
  refine (h.failsOnly_ofProperty hp).bind fun sqlType _ => ?_
  split
  · exact .error (show Family.table ∈ derivationFamilies by decide)
  · exact .ok _

theorem failsOnly_column (h : m.Identified) (purpose : ColumnPurpose)
    (hp : p ∈ (m.classifier c).attributes) (typed : m.typed purpose = m.property p) :
    FailsOnly derivationFamilies (o.column m table purpose) := by
  have htype : FailsOnly derivationFamilies (o.columnType m table (m.typed purpose)) :=
    typed ▸ h.failsOnly_columnType hp
  exact htype.bind fun _ _ => .ok _

theorem identityProperty?_attributePrincipal (h : m.Identified)
    (hp : p ∈ (m.classifier c).attributes) {type : ClassifierRef}
    (principal : m.attributePrincipal? c p = some type) :
    (m.identityProperty? type).isSome := by
  rw [Model.attributePrincipal?] at principal
  split at principal
  case isFalse => cases principal
  case isTrue reference =>
    have hvalue := reference.2
    simp only [Model.isRelationship, principal, Bool.not_eq_true'] at hvalue
    have membered := ClassifierKind.isMembered_of_not_isValue hvalue
    exact h.identityProperty?_isSome (h.types c p hp type principal) membered

theorem failsOnly_attributeColumn? (h : m.Identified) (hp : p ∈ (m.classifier c).attributes) :
    FailsOnly derivationFamilies (o.attributeColumn? m table c p).value := by
  rw [Options.attributeColumn?_eq]
  split
  · exact .ok _
  split
  · exact .ok _
  cases hprincipal : m.attributePrincipal? c p with
  | none =>
    exact Logged.failsOnly_bind (h.failsOnly_column (o.valuePurpose m p) hp rfl) fun _ _ => .ok _
  | some type =>
    have identity := h.identityProperty?_attributePrincipal hp hprincipal
    obtain ⟨referenced, hreferenced⟩ := Option.isSome_iff_exists.mp identity
    have hq := List.mem_of_find?_eq_some hreferenced
    simp only [Options.identityProperty_eq_ok.mpr hreferenced]
    refine Logged.failsOnly_bind (.ok _) fun q h' => Logged.failsOnly_bind ?_ fun _ _ => .ok _
    obtain rfl := Except.ok.inj h'
    exact h.failsOnly_column (o.referencePurpose m p referenced) hq rfl

theorem failsOnly_attributeColumns (h : m.Identified) (seen : Option String) {ps : List PropertyRef}
    (hps : ps ⊆ (m.classifier c).attributes) :
    FailsOnly derivationFamilies (o.attributeColumns m table c seen ps).value := by
  induction ps generalizing seen with
  | nil => exact .ok _
  | cons p rest ih =>
    have ih := fun seen => ih seen (List.subset_of_cons_subset hps)
    refine Logged.failsOnly_bind (h.failsOnly_attributeColumn? (hps List.mem_cons_self))
      fun d? _ => ?_
    cases d? with
    | none => exact ih seen
    | some d =>
      dsimp only
      split
      · exact Logged.failsOnly_bind (ih _) fun _ _ => .ok _
      · exact Logged.failsOnly_bind (ih _) fun _ _ => .ok _
      · exact Logged.failsOnly_bind (.ok _) fun _ _ => Logged.failsOnly_bind (ih _) fun _ _ => .ok _

end Model.Identified

/-- Each relationship for which a column is made leads from a classifier that has an identity. -/
def RelationshipMap.Identified (map : RelationshipMap) (m : Model) : Prop :=
  ∀ c, ∀ r ∈ map.needed m c, (m.identityProperty? r.principal).isSome

namespace Model.Identified

theorem identityProperty?_principal (h : m.Identified) {convention : EndConvention}
    (hr : r ∈ m.found convention) : (m.identityProperty? r.principal).isSome := by
  rcases List.mem_append.mp hr with hr | hr
  · obtain ⟨a, ha, hr⟩ := List.mem_flatMap.mp hr
    obtain ⟨first, second, hends, hr⟩ := Model.mem_relationshipsAt.mp hr
    obtain ⟨p, q, s, t, hpq, hs, ht, hends⟩ := Model.bothEnds?_eq_some.mp hends
    have identity :
        ∀ e ∈ [p, q], ∀ type ∈ (m.property e).type, (m.identityProperty? type).isSome := by
      intro e he type htype
      have he : e ∈ (m.association a).ends := hpq ▸ he
      exact h.identityProperty?_isSome (h.ends a ha e he type htype)
        (h.membered a ha e he type htype)
    have hs := identity p (by simp) s hs
    have ht := identity q (by simp) t ht
    cases convention <;> cases hends <;> rcases hr with rfl | rfl
    all_goals first | exact hs | exact ht
  · obtain ⟨c, hc, membered, p, _, hr⟩ := Model.mem_attributeRelationships.mp hr
    obtain ⟨type, _, _, _, rfl⟩ := Model.relationshipOfAttribute?_eq_some.mp hr
    exact h.identity c hc membered

theorem relationshipMap (h : m.Identified) {convention : EndConvention}
    (hmap : (m.relationshipMap convention).value = .ok map) : map.Identified m := by
  intro c r hr
  rw [RelationshipMap.needed, List.mem_filter, Model.get_of_relationshipMap hmap,
    List.mem_filter] at hr
  exact h.identityProperty?_principal hr.1.1

theorem failsOnly_relationshipColumn (h : m.Identified)
    (identity : (m.identityProperty? r.principal).isSome) :
    FailsOnly derivationFamilies (o.relationshipColumn m table c r).value := by
  obtain ⟨referenced, hreferenced⟩ := Option.isSome_iff_exists.mp identity
  rw [Options.relationshipColumn, hreferenced]
  refine Logged.failsOnly_bind (.ok _) fun _ _ => Logged.failsOnly_bind ?_ fun _ _ => .ok _
  exact h.failsOnly_column (o.relationshipPurpose m r referenced)
    (List.mem_of_find?_eq_some hreferenced) rfl

/-! ## Tables -/

theorem failsOnly_tableDefinition? (h : m.Identified) (identities : map.Identified m) :
    FailsOnly derivationFamilies (o.tableDefinition? m map c).value := by
  rw [Options.tableDefinition?]
  split
  · exact .ok _
  · refine Logged.failsOnly_bind (h.failsOnly_attributeColumns none ?_) fun own _ => ?_
    · split
      · exact List.Subset.refl _
      · exact List.nil_subset _
    · exact Logged.failsOnly_bind (Logged.failsOnly_mapM fun r hr =>
        h.failsOnly_relationshipColumn (identities c r hr)) fun _ _ => .ok _

theorem failsOnly_packagedTable? (h : m.Identified) (identities : map.Identified m) :
    FailsOnly derivationFamilies (o.packagedTable? m map c).value := by
  rw [Options.packagedTable?]
  split
  · exact .ok _
  split
  · exact .ok _
  · refine Logged.failsOnly_bind (h.failsOnly_tableDefinition? identities) fun definition? _ => ?_
    cases definition? <;> exact .ok _

theorem failsOnly_deriveTables (h : m.Identified) (identities : map.Identified m) (c : Catalog) :
    FailsOnly derivationFamilies (o.deriveTables m map c).value := by
  refine Logged.failsOnly_bind ?_ fun definitions _ => ?_
  · exact Logged.failsOnly_bind (Logged.failsOnly_mapM fun s _ =>
      h.failsOnly_packagedTable? identities)
      fun _ _ => .ok _
  · simp only [Catalog.addDefinitions_eq]
    obtain ⟨linked, hl⟩ := Catalog.exists_resolveReferences (c.extended definitions) m
      (c.added definitions.length) (c.addedReferences definitions)
    refine Logged.failsOnly_bind (hl ▸ .ok _) fun linked _ =>
      Logged.failsOnly_bind ?_ fun _ _ => .ok _
    show FailsOnly _ (linked.sortTables _)
    rw [Catalog.sortTables]
    split
    · exact .ok _
    · exact .error (show Family.cycle ∈ derivationFamilies by decide)

end Model.Identified
end Schemata
