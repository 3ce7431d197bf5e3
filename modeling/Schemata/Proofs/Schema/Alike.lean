import Schemata.Proofs.Schema.References

/-!
# Models with the same tables

Two models that differ in the types of attributes only have the same tables, if each such attribute
has no column in either of them and is no identity.
-/
namespace Schemata

/-- The attribute is the same in both models, or it has no column in either: because it has no name,
or because it is an end that refers to many entities. -/
def Model.Indifferent (m m' : Model) (c : ClassifierRef) (p : PropertyRef) : Prop :=
  m'.property p = m.property p ∨
    (m.property p).isId = false ∧ (m.property p).association.isSome = true ∧
      ((m.property p).name = "" ∨ (m.property p).multiplicity.isMany = true ∧
        (m.attributePrincipal? c p).isSome = true ∧ (m'.attributePrincipal? c p).isSome = true)

instance (m m' : Model) (c : ClassifierRef) (p : PropertyRef) : Decidable (m.Indifferent m' c p) :=
  inferInstanceAs (Decidable (_ ∨ _))

/-- The models only differ in the types of attributes, and in the order of their packaged
elements. -/
structure Model.SameMembers (m m' : Model) : Prop where
  classifiers : m'.classifiers = m.classifiers
  properties : ∀ p, ∃ type, m'.property p = { m.property p with type }
  attributes : ∀ c, ∀ p ∈ (m.classifier c).attributes, m.Indifferent m' c p

structure Model.Alike (m m' : Model) : Prop extends m.SameMembers m' where
  elements : m'.elements = m.elements

namespace Logged

theorem value_bind_congr {α β : Type} {x y : Logged α} {f g : α → Logged β} (h : x.value = y.value)
    (hf : ∀ a, y.value = .ok a → (f a).value = (g a).value) :
    (x >>= f).value = (y >>= g).value := by
  rw [value_bind, value_bind, h]
  cases hy : y.value with
  | error _ => rfl
  | ok a => exact hf a hy

theorem value_mapM_congr {α β : Type} {f g : α → Logged β} {xs : List α}
    (h : ∀ x ∈ xs, (f x).value = (g x).value) : (xs.mapM f).value = (xs.mapM g).value := by
  induction xs with
  | nil => rfl
  | cons x xs ih =>
    rw [List.mapM_cons, List.mapM_cons]
    refine value_bind_congr (h x List.mem_cons_self) fun y _ => value_bind_congr ?_ fun ys _ => rfl
    exact ih fun z hz => h z (List.mem_cons_of_mem _ hz)

theorem value_foldlM_congr {α σ : Type} {step step' : σ → α → Logged σ} {xs : List α}
    (h : ∀ x ∈ xs, ∀ s, (step s x).value = (step' s x).value) (s : σ) :
    (xs.foldlM step s).value = (xs.foldlM step' s).value := by
  induction xs generalizing s with
  | nil => rfl
  | cons x xs ih =>
    rw [List.foldlM_cons, List.foldlM_cons]
    exact value_bind_congr (h x List.mem_cons_self s) fun t _ =>
      ih (fun y hy => h y (List.mem_cons_of_mem x hy)) t

end Logged

theorem Model.exists_typed (purpose : ColumnPurpose) :
    ∃ q, ∀ m : Model, m.typed purpose = m.property q := by
  cases h : purpose.referenced with
  | none => exact ⟨purpose.source, fun m => by rw [Model.typed, h]⟩
  | some referenced =>
    by_cases hf : purpose.isForeignKey = true
    · exact ⟨referenced, fun m => by simp only [Model.typed, h, if_pos hf]⟩
    · exact ⟨purpose.source, fun m => by simp only [Model.typed, h, if_neg hf]⟩

namespace Model.SameMembers

variable {m m' : Model} (alike : m.SameMembers m') {c : ClassifierRef} {p : PropertyRef}
include alike

theorem classifier : m'.classifier = m.classifier := by
  funext c
  rw [Model.classifier, alike.classifiers]
  rfl

theorem isRelationship (property : Property) :
    m'.isRelationship property = m.isRelationship property := by
  rw [Model.isRelationship, alike.classifier]
  rfl

theorem identityProperty? (c : ClassifierRef) : m'.identityProperty? c = m.identityProperty? c := by
  rw [Model.identityProperty?, Model.identityProperty?, alike.classifier]
  congr 1
  funext p
  obtain ⟨type, h⟩ := alike.properties p
  rw [h]

theorem identityProperty (c : ClassifierRef) : m'.identityProperty c = m.identityProperty c := by
  rw [Model.identityProperty, Model.identityProperty, alike.identityProperty?, alike.classifier]

theorem property_of_identity (h : m.identityProperty? c = some p) :
    m'.property p = m.property p := by
  rcases alike.attributes c p (List.mem_of_find?_eq_some h) with same | ⟨other, _⟩
  · exact same
  · have identity := List.find?_some h
    rw [other] at identity
    cases identity

theorem within (names : SqlTypeNames) (steps : Nat) (c : ClassifierRef) :
    names.within m' steps c = names.within m steps c := by
  induction steps generalizing c with
  | zero => rw [SqlTypeNames.within, SqlTypeNames.within, alike.classifier]
  | succ steps ih =>
    simp only [SqlTypeNames.within, alike.classifier, ih, alike.identityProperty?]
    cases h : m.identityProperty? c with
    | none => rfl
    | some p => simp only [alike.property_of_identity h]

theorem columnType (o : Options) (table : String) (property : Property) :
    o.columnType m' table property = o.columnType m table property := by
  have hclassifier : ∀ type, o.typeNames.ofClassifier m' type = o.typeNames.ofClassifier m type :=
    fun type => by
      rw [SqlTypeNames.ofClassifier, SqlTypeNames.ofClassifier, alike.classifiers, alike.within]
  have hproperty : o.typeNames.ofProperty m' property = o.typeNames.ofProperty m property := by
    rw [SqlTypeNames.ofProperty, SqlTypeNames.ofProperty]
    cases property.type with
    | none => rfl
    | some type => exact hclassifier type
  rw [Options.columnType, Options.columnType, hproperty]

/-- Apart from its SQL type, a column does not depend on the types of properties. -/
theorem columnOf (o : Options) (purpose : ColumnPurpose) (sqlType : String) :
    o.columnOf m' purpose sqlType = o.columnOf m purpose sqlType := by
  obtain ⟨type, hsource⟩ := alike.properties purpose.source
  obtain ⟨q, typed⟩ := Model.exists_typed purpose
  obtain ⟨type', htyped⟩ := alike.properties q
  rw [Options.columnOf, Options.columnOf, typed, typed, hsource, htyped]
  rfl

theorem column (o : Options) (table : String) {purpose : ColumnPurpose}
    (typed : m'.typed purpose = m.typed purpose) :
    o.column m' table purpose = o.column m table purpose := by
  have hcolumn : ∀ n : Model, o.column n table purpose =
      o.columnType n table (n.typed purpose) >>= fun sqlType =>
        .ok (o.columnOf n purpose sqlType) :=
    fun _ => rfl
  rw [hcolumn, hcolumn, typed, alike.columnType]
  simp only [alike.columnOf]

theorem attributePrincipal? (same : m'.property p = m.property p) (c : ClassifierRef) :
    m'.attributePrincipal? c p = m.attributePrincipal? c p := by
  rw [Model.attributePrincipal?, Model.attributePrincipal?, same, alike.isRelationship]

theorem attributeColumn?_same (o : Options) (table : String) (c : ClassifierRef)
    (same : m'.property p = m.property p) :
    (o.attributeColumn? m' table c p).value = (o.attributeColumn? m table c p).value := by
  rw [Options.attributeColumn?_eq, Options.attributeColumn?_eq,
    alike.attributePrincipal? same, same, alike.classifier]
  split
  · rfl
  split
  · rfl
  cases hp : m.attributePrincipal? c p with
  | some type =>
    have hidentity : (liftM (m'.identityProperty type) : Logged PropertyRef).value =
        (liftM (m.identityProperty type) : Logged PropertyRef).value := alike.identityProperty type
    refine Logged.value_bind_congr hidentity fun referenced hr => ?_
    have hr := alike.property_of_identity (Options.identityProperty_eq_ok.mp hr)
    have hpurpose : o.referencePurpose m' p referenced = o.referencePurpose m p referenced := by
      rw [Options.referencePurpose, same]
      rfl
    have typed : m'.typed (o.referencePurpose m p referenced) =
        m.typed (o.referencePurpose m p referenced) := hr
    rw [hpurpose, alike.column o table typed]
  | none =>
    have hpurpose : o.valuePurpose m' p = o.valuePurpose m p := by
      rw [Options.valuePurpose, same]
      rfl
    have typed : m'.typed (o.valuePurpose m p) = m.typed (o.valuePurpose m p) := same
    rw [hpurpose, alike.column o table typed]

theorem attributeColumn?_value (o : Options) (table : String)
    (hp : p ∈ (m.classifier c).attributes) :
    (o.attributeColumn? m' table c p).value = (o.attributeColumn? m table c p).value := by
  rcases alike.attributes c p hp with same | ⟨_, _, columnless⟩
  · exact alike.attributeColumn?_same o table c same
  · obtain ⟨type, h⟩ := alike.properties p
    rw [Options.attributeColumn?_eq, Options.attributeColumn?_eq]
    rcases columnless with unnamed | ⟨many, principal, principal'⟩
    · have unnamed' : (m'.property p).name = "" := by rw [h]; exact unnamed
      rw [if_pos unnamed, if_pos unnamed']
      split <;> split <;> rfl
    · have many' : (m'.property p).multiplicity.isMany = true := by rw [h]; exact many
      rw [if_pos ⟨principal', many'⟩, if_pos ⟨principal, many⟩]

theorem attributeColumns_value (o : Options) (table : String) (identity : Option String)
    {ps : List PropertyRef} (hps : ∀ p ∈ ps, p ∈ (m.classifier c).attributes) :
    (o.attributeColumns m' table c identity ps).value =
      (o.attributeColumns m table c identity ps).value := by
  induction ps generalizing identity with
  | nil => rfl
  | cons p rest ih =>
    have ih := fun identity => ih identity fun q hq => hps q (List.mem_cons_of_mem _ hq)
    rw [Options.attributeColumns, Options.attributeColumns]
    refine Logged.value_bind_congr (alike.attributeColumn?_value o table (hps p List.mem_cons_self))
      fun d? _ => ?_
    cases d? with
    | none => exact ih identity
    | some d =>
      cases hi : d.column.isIdentity <;> cases identity <;> simp only [hi]
      case true.some =>
        exact Logged.value_bind_congr rfl fun _ _ => Logged.value_bind_congr (ih _) fun _ _ => rfl
      all_goals exact Logged.value_bind_congr (ih _) fun _ _ => rfl

theorem relationshipColumn_value (o : Options) (table : String) (c : ClassifierRef)
    (r : Relationship) :
    (o.relationshipColumn m' table c r).value = (o.relationshipColumn m table c r).value := by
  rw [Options.relationshipColumn, Options.relationshipColumn, alike.identityProperty?,
    alike.classifier]
  cases h : m.identityProperty? r.principal with
  | none => rfl
  | some referenced =>
    have same := alike.property_of_identity h
    obtain ⟨type, hpath⟩ := alike.properties r.path
    have hpurpose :
        o.relationshipPurpose m' r referenced = o.relationshipPurpose m r referenced := by
      rw [Options.relationshipPurpose, Options.relationshipPurpose, same, hpath]
      rfl
    have typed : m'.typed (o.relationshipPurpose m r referenced) =
        m.typed (o.relationshipPurpose m r referenced) := same
    have hcolumn : o.column m' table (o.relationshipPurpose m' r referenced) =
        o.column m table (o.relationshipPurpose m r referenced) := by
      rw [hpurpose, alike.column o table typed]
    refine Logged.value_bind_congr rfl fun _ _ => ?_
    exact congrArg (fun x : Except Fault Column =>
      (do return ⟨← x, some r.principal⟩ : Logged DerivedColumn).value) hcolumn

theorem tableDefinition?_value (o : Options) (map : RelationshipMap) (c : ClassifierRef) :
    (o.tableDefinition? m' map c).value = (o.tableDefinition? m map c).value := by
  rw [Options.tableDefinition?, Options.tableDefinition?, alike.classifier]
  split
  case isTrue => rfl
  case isFalse =>
    refine Logged.value_bind_congr (alike.attributeColumns_value o _ none fun p hp => ?_)
      fun own _ => ?_
    · split at hp
      · exact hp
      · cases hp
    · refine Logged.value_bind_congr (Logged.value_mapM_congr fun r _ => ?_) fun further _ => rfl
      exact alike.relationshipColumn_value o _ c r

theorem packagedTable?_value (o : Options) (filters : ∀ s, o.becomesTable m' s = o.becomesTable m s)
    (map : RelationshipMap) (c : ClassifierRef) :
    (o.packagedTable? m' map c).value = (o.packagedTable? m map c).value := by
  rw [Options.packagedTable?, Options.packagedTable?, alike.classifier, filters]
  split
  · rfl
  split
  · rfl
  refine Logged.value_bind_congr (alike.tableDefinition?_value o map c) fun definition? _ => ?_
  cases definition? <;> rfl

end Model.SameMembers

namespace Model.Alike

variable {m m' : Model} (alike : m.Alike m')
include alike

theorem packagedClassifiers : m'.packagedClassifiers = m.packagedClassifiers := by
  rw [Model.packagedClassifiers, alike.elements]
  rfl

theorem deriveTables_value (o : Options) (filters : ∀ s, o.becomesTable m' s = o.becomesTable m s)
    (map : RelationshipMap) (c : Catalog) :
    (o.deriveTables m' map c).value = (o.deriveTables m map c).value := by
  have hdefinitions : (o.tableDefinitions m' map).value = (o.tableDefinitions m map).value := by
    rw [Options.tableDefinitions, Options.tableDefinitions, alike.packagedClassifiers]
    refine Logged.value_bind_congr (Logged.value_mapM_congr fun s _ => ?_) fun _ _ => rfl
    exact alike.packagedTable?_value o filters map s
  refine Logged.value_bind_congr hdefinitions fun definitions _ => ?_
  have hresolve : ∀ (c : Catalog) tables references,
      c.resolveReferences m' tables references = c.resolveReferences m tables references := by
    intro c tables references
    have hstep : Catalog.resolveReference m' tables = Catalog.resolveReference m tables := by
      funext c r
      rw [Catalog.resolveReference, Catalog.resolveReference, Catalog.principalTable?,
        Catalog.principalTable?, alike.classifier]
    rw [Catalog.resolveReferences, Catalog.resolveReferences, hstep]
  exact Logged.value_bind_congr (congrArg Logged.value (hresolve _ _ _)) fun _ _ => rfl

theorem attributeRelationships : m'.attributeRelationships = m.attributeRelationships := by
  rw [Model.attributeRelationships, Model.attributeRelationships, alike.packagedClassifiers,
    alike.classifier]
  refine List.flatMap_congr fun c _ => List.filterMap_congr fun p hp => ?_
  rw [Model.relationshipOfAttribute?, Model.relationshipOfAttribute?]
  rcases alike.attributes c p hp with same | ⟨_, isEnd, _⟩
  · simp only [same, alike.isRelationship]
  · obtain ⟨type, h⟩ := alike.properties p
    have hend : ¬ (m.property p).association = none := Option.isSome_iff_ne_none.mp isEnd
    have hend' : ¬ (m'.property p).association = none := by
      rw [h]
      exact hend
    simp only [hend, hend', and_false, if_false]
    cases (m'.property p).type <;> cases (m.property p).type <;> rfl

end Model.Alike

end Schemata
