import Schemata.Proofs.Outcome
import Schemata.Schema.Derivation

/-!
# Derived columns

The columns of a classifier's attributes and of the relationships in which it is the dependent, each
as a function of its purpose and its SQL type. Of all identity columns only the first stays one.
-/
namespace Schemata

def Model.attributePrincipal? (m : Model) (c : ClassifierRef) (p : PropertyRef) :
    Option ClassifierRef :=
  if (m.property p).owner = some (.classifier c) ∧
    m.isRelationship (m.property p) then (m.property p).type
  else none

/-- The attribute has an identity column unless an attribute before it has one. -/
def Model.identifies (m : Model) (c : ClassifierRef) (p : PropertyRef) : Bool :=
  (m.property p).isId && (m.property p).name != "" && (m.attributePrincipal? c p).isNone

def Model.typed (m : Model) (purpose : ColumnPurpose) : Property :=
  match purpose.referenced with
  | some referenced => if purpose.isForeignKey then m.property referenced
    else m.property purpose.source
  | none => m.property purpose.source

/-- The attributes that can have columns. -/
def Model.members (m : Model) (c : ClassifierRef) : List PropertyRef :=
  if (m.classifier c).kind.isMembered then (m.classifier c).attributes else []

def RelationshipMap.needed (map : RelationshipMap) (m : Model) (c : ClassifierRef) :
    List Relationship :=
  (map.get (m.classifier c).id).filter Options.needsColumn

def DerivedColumn.identified (d : DerivedColumn) (isIdentity : Bool) : DerivedColumn :=
  { d with column := { d.column with isIdentity } }

@[simp] theorem isIdentity_identified (d : DerivedColumn) (isIdentity : Bool) :
    (d.identified isIdentity).column.isIdentity = isIdentity := rfl

theorem identified_of_eq {d : DerivedColumn} {isIdentity : Bool}
    (h : d.column.isIdentity = isIdentity) :
    d.identified isIdentity = d := by
  rw [← h]
  rfl

/-- Only the first identity column stays one, and none does if there is one already. -/
def keepFirstIdentity : Bool → List DerivedColumn → List DerivedColumn
  | _, [] => []
  | taken, d :: rest =>
    d.identified (!taken && d.column.isIdentity) ::
      keepFirstIdentity (taken || d.column.isIdentity) rest

theorem filter_keepFirstIdentity (taken : Bool) (columns : List DerivedColumn) :
    (keepFirstIdentity taken columns).filter (·.column.isIdentity) =
      if taken then [] else (columns.find? (·.column.isIdentity)).toList := by
  induction columns generalizing taken with
  | nil => simp [keepFirstIdentity]
  | cons d rest ih =>
    cases taken <;> cases h : d.column.isIdentity <;>
      simp [keepFirstIdentity, ih, h, identified_of_eq]

theorem forall₂_keepFirstIdentity (taken : Bool) (columns : List DerivedColumn) :
    List.Forall₂ (fun d d' => ∃ isIdentity, d' = d.identified isIdentity ∧
        (isIdentity = true → d.column.isIdentity = true))
      columns (keepFirstIdentity taken columns) := by
  induction columns generalizing taken with
  | nil => exact .nil
  | cons d rest ih =>
    refine .cons ⟨_, rfl, fun h => ?_⟩ (ih _)
    exact (Bool.and_eq_true_iff.mp h).2

namespace Options

variable {o : Options} {m : Model} {table : String} {c : ClassifierRef} {p : PropertyRef}

def columnOf (o : Options) (m : Model) (purpose : ColumnPurpose) (sqlType : String) : Column :=
  { dialect := o.factory.column
    name := purpose.name
    sqlType
    facets := o.facets.facets sqlType (some (m.typed purpose))
    isIdentity := !purpose.isForeignKey && (m.property purpose.source).isId
    isRequired :=
      !(m.property purpose.source).multiplicity.isOptional || (m.property purpose.source).isId
    isForeignKey := purpose.isForeignKey
    source := some purpose.source
    referenced := purpose.referenced
    role := purpose.role
    isNavigable := purpose.isNavigable
    isMany := purpose.isMany }

def referencePurpose (o : Options) (m : Model) (p referenced : PropertyRef) : ColumnPurpose :=
  { name := o.naming.foreignKeyColumnName (m.property p)
    source := p
    referenced := some referenced
    isForeignKey := true
    isNavigable := true }

/-- The purpose of the column of any other attribute. -/
def valuePurpose (o : Options) (m : Model) (p : PropertyRef) : ColumnPurpose :=
  { name := o.naming.columnName (m.property p)
    source := p
    isForeignKey := false
    isNavigable := true }

def relationshipPurpose (o : Options) (m : Model) (r : Relationship) (referenced : PropertyRef) :
    ColumnPurpose :=
  { name := (o.synthesizedName (m.property referenced) (m.property r.path)).1
    source := r.path
    referenced := some referenced
    role := (o.synthesizedName (m.property referenced) (m.property r.path)).2
    isForeignKey := true
    isNavigable := false
    isMany := true }

theorem column_eq_ok {purpose : ColumnPurpose} {column : Column} :
    o.column m table purpose = .ok column ↔
      ∃ sqlType, o.columnType m table (m.typed purpose) = .ok sqlType ∧
        column = o.columnOf m purpose sqlType := by
  rw [Options.column, bind_eq_ok]
  constructor
  · rintro ⟨sqlType, ht, h⟩
    cases h
    exact ⟨sqlType, ht, rfl⟩
  · rintro ⟨sqlType, ht, rfl⟩
    exact ⟨sqlType, ht, rfl⟩

/-- What the column of an attribute can be. -/
inductive Bears (o : Options) (m : Model) (table : String) (c : ClassifierRef) (p : PropertyRef) :
    DerivedColumn → Prop
  | reference {type : ClassifierRef} {referenced : PropertyRef} {sqlType : String}
    (principal : m.attributePrincipal? c p = some type)
    (single : (m.property p).multiplicity.isMany = false)
    (named : (m.property p).name ≠ "")
    (identity : m.identityProperty? type = some referenced)
    (typed : o.columnType m table (m.property referenced) = .ok sqlType) :
    Bears o m table c p ⟨o.columnOf m (o.referencePurpose m p referenced) sqlType, some type⟩
  | value {sqlType : String}
    (principal : m.attributePrincipal? c p = none)
    (named : (m.property p).name ≠ "")
    (typed : o.columnType m table (m.property p) = .ok sqlType) :
    Bears o m table c p ⟨o.columnOf m (o.valuePurpose m p) sqlType, none⟩

theorem identityProperty_eq_ok {type : ClassifierRef} {p : PropertyRef} :
    m.identityProperty type = .ok p ↔ m.identityProperty? type = some p := by
  rw [Model.identityProperty]
  cases m.identityProperty? type <;> simp

theorem attributeColumn?_eq : o.attributeColumn? m table c p =
    if (m.attributePrincipal? c p).isSome ∧ (m.property p).multiplicity.isMany then return none
    else if (m.property p).name = "" then do
      Logged.note (.namelessProperty (m.property p).id (m.classifier c).name table)
      return none
    else
      match m.attributePrincipal? c p with
      | some type => do
        let referenced ← m.identityProperty type
        return some ⟨← o.column m table (o.referencePurpose m p referenced), some type⟩
      | none => do
        return some ⟨← o.column m table (o.valuePurpose m p), none⟩ := rfl

theorem attributeColumn?_eq_ok {d? : Option DerivedColumn}
    (h : (o.attributeColumn? m table c p).value = .ok d?) :
    (d? = none ∧ ((m.property p).name = "" ∨
        (m.attributePrincipal? c p).isSome ∧ (m.property p).multiplicity.isMany = true)) ∨
      ∃ d, d? = some d ∧ o.Bears m table c p d := by
  rw [attributeColumn?_eq] at h
  by_cases hmany : (m.attributePrincipal? c p).isSome ∧ (m.property p).multiplicity.isMany
  · rw [if_pos hmany] at h
    cases h
    exact .inl ⟨rfl, .inr hmany⟩
  rw [if_neg hmany] at h
  by_cases hname : (m.property p).name = ""
  · rw [if_pos hname] at h
    cases h
    exact .inl ⟨rfl, .inl hname⟩
  rw [if_neg hname] at h
  refine .inr ?_
  cases hp : m.attributePrincipal? c p with
  | some type =>
    rw [hp] at h hmany
    obtain ⟨referenced, hr, h⟩ := Logged.bind_eq_ok.mp h
    obtain ⟨column, hc, h⟩ := Logged.bind_eq_ok.mp h
    obtain ⟨sqlType, ht, rfl⟩ := column_eq_ok.mp (Logged.lift_eq_ok.mp hc)
    cases h
    have hr := identityProperty_eq_ok.mp (Logged.lift_eq_ok.mp hr)
    exact ⟨_, rfl, .reference hp (by simpa using hmany) hname hr ht⟩
  | none =>
    rw [hp] at h
    obtain ⟨column, hc, h⟩ := Logged.bind_eq_ok.mp h
    obtain ⟨sqlType, ht, rfl⟩ := column_eq_ok.mp (Logged.lift_eq_ok.mp hc)
    cases h
    exact ⟨_, rfl, .value hp hname ht⟩

/-- Whatever column an attribute has, it is an identity column exactly if the attribute
identifies. -/
theorem isIdentity_attributeColumn? {d? : Option DerivedColumn}
    (h : (o.attributeColumn? m table c p).value = .ok d?) :
    d?.any (·.column.isIdentity) = m.identifies c p := by
  rcases attributeColumn?_eq_ok h with ⟨rfl, hn⟩ | ⟨d, rfl, hd⟩
  · rcases hn with hn | ⟨hn, _⟩
    · simp [Model.identifies, hn]
    · obtain ⟨type, hn⟩ := Option.isSome_iff_exists.mp hn
      simp [Model.identifies, hn]
  · cases hd with
    | reference principal => simp [Model.identifies, principal, columnOf, referencePurpose]
    | value principal named => simp [Model.identifies, principal, named, columnOf, valuePurpose]

/-- The column of an attribute stands before those of the attributes behind it, which are told
whether there is an identity column by then. -/
theorem attributeColumns_cons {identity : Option String} {rest : List PropertyRef}
    {d : DerivedColumn} {columns : List DerivedColumn}
    (hd : (o.attributeColumn? m table c p).value = .ok (some d))
    (h : (o.attributeColumns m table c identity (p :: rest)).value = .ok columns) :
    ∃ identity' columns', (o.attributeColumns m table c identity' rest).value = .ok columns' ∧
      identity'.isSome = (identity.isSome || d.column.isIdentity) ∧
      columns = d.identified (!identity.isSome && d.column.isIdentity) :: columns' := by
  rw [attributeColumns] at h
  obtain ⟨d?, hd', h⟩ := Logged.bind_eq_ok.mp h
  obtain rfl := Except.ok.inj (hd.symm.trans hd')
  cases hi : d.column.isIdentity with
  | false =>
    simp only [hi] at h
    obtain ⟨columns', hc, h⟩ := Logged.bind_eq_ok.mp h
    cases h
    refine ⟨identity, columns', hc, (Bool.or_false _).symm, ?_⟩
    rw [Bool.and_false, identified_of_eq hi]
  | true =>
    cases identity with
    | none =>
      simp only [hi] at h
      obtain ⟨columns', hc, h⟩ := Logged.bind_eq_ok.mp h
      cases h
      refine ⟨some d.column.name, columns', hc, rfl, ?_⟩
      exact congrArg (· :: columns') (identified_of_eq hi).symm
    | some first =>
      simp only [hi] at h
      obtain ⟨_, _, h⟩ := Logged.bind_eq_ok.mp h
      obtain ⟨columns', hc, h⟩ := Logged.bind_eq_ok.mp h
      cases h
      exact ⟨some first, columns', hc, rfl, rfl⟩

/-- The columns that attributes have are the columns of the table, but for identities after the
first. -/
theorem attributeColumns_eq_ok {identity : Option String} {ps : List PropertyRef}
    {columns : List DerivedColumn}
    (h : (o.attributeColumns m table c identity ps).value = .ok columns) :
    ∃ found, List.Forall₂ (fun p d? => (o.attributeColumn? m table c p).value = .ok d?) ps found ∧
      columns = keepFirstIdentity identity.isSome (found.filterMap id) := by
  -- The identity seen so far is any: it changes on the way, and only whether there is one matters.
  induction ps generalizing identity columns with
  | nil =>
    cases h
    exact ⟨[], .nil, rfl⟩
  | cons p rest ih =>
    have hfirst := h
    rw [attributeColumns] at hfirst
    obtain ⟨d?, hd, hfirst⟩ := Logged.bind_eq_ok.mp hfirst
    cases d? with
    | none =>
      obtain ⟨found, hf, rfl⟩ := ih hfirst
      exact ⟨none :: found, .cons hd hf, rfl⟩
    | some d =>
      obtain ⟨identity', columns', hc, hi, rfl⟩ := attributeColumns_cons hd h
      obtain ⟨found, hf, rfl⟩ := ih hc
      refine ⟨some d :: found, .cons hd hf, ?_⟩
      rw [hi]
      rfl

theorem relationshipColumn_eq_ok {r : Relationship} {d : DerivedColumn}
    (h : (o.relationshipColumn m table c r).value = .ok d) :
    ∃ referenced sqlType, m.identityProperty? r.principal = some referenced ∧
      o.columnType m table (m.property referenced) = .ok sqlType ∧
      d = ⟨o.columnOf m (o.relationshipPurpose m r referenced) sqlType, some r.principal⟩ := by
  rw [relationshipColumn] at h
  split at h
  case h_1 => cases h
  case h_2 referenced hr =>
    obtain ⟨_, _, h⟩ := Logged.bind_eq_ok.mp h
    obtain ⟨column, hc, h⟩ := Logged.bind_eq_ok.mp h
    obtain ⟨sqlType, ht, rfl⟩ := column_eq_ok.mp (Logged.lift_eq_ok.mp hc)
    cases h
    exact ⟨referenced, sqlType, hr, ht, rfl⟩

variable {map : RelationshipMap}

/-- A table has the columns of its classifier's attributes, and behind them those of
relationships. -/
structure Defines (o : Options) (m : Model) (map : RelationshipMap) (c : ClassifierRef)
    (definition : TableDefinition) (own further : List DerivedColumn) : Prop where
  named : (m.classifier c).name ≠ ""
  ofAttributes : ∃ found,
    List.Forall₂
      (fun p d? => (o.attributeColumn? m (o.naming.tableName (m.classifier c)) c p).value = .ok d?)
      (m.members c) found ∧
    own = keepFirstIdentity false (found.filterMap id)
  ofRelationships : List.Forall₂
    (fun r d => (o.relationshipColumn m (o.naming.tableName (m.classifier c)) c r).value = .ok d)
    (map.needed m c) further
  table : definition.table =
    { dialect := o.factory.table
      name := o.naming.tableName (m.classifier c)
      source := some c
      columns := (own ++ further).map (·.column) }
  references : definition.references = referencesOf (own ++ further)

theorem tableDefinition?_eq_ok {definition : TableDefinition}
    (h : (o.tableDefinition? m map c).value = .ok (some definition)) :
    ∃ own further, o.Defines m map c definition own further := by
  rw [tableDefinition?] at h
  by_cases hn : (m.classifier c).name = ""
  · simp only [if_pos hn] at h
    cases h
  simp only [if_neg hn] at h
  obtain ⟨own, ho, h⟩ := Logged.bind_eq_ok.mp h
  obtain ⟨further, hf, h⟩ := Logged.bind_eq_ok.mp h
  cases h
  exact ⟨own, further, hn, attributeColumns_eq_ok ho, Logged.mapM_eq_ok.mp hf, rfl, rfl⟩

/-- A column is a foreign key if it refers to a classifier, and then it keeps the classifier's
identity. -/
structure Refers (m : Model) (d : DerivedColumn) : Prop where
  foreign : d.column.isForeignKey = d.principal.isSome
  plain : d.column.isForeignKey = true → d.column.isIdentity = false
  sourced : ∃ p, d.column.source = some p
  referenced : ∀ type, d.principal = some type →
    ∃ p, m.identityProperty? type = some p ∧ d.column.referenced = some p

theorem Defines.mem_own {definition : TableDefinition} {own further : List DerivedColumn}
    (h : o.Defines m map c definition own further) {d : DerivedColumn} (hd : d ∈ own) :
    ∃ p ∈ m.members c, ∃ d₀, o.Bears m (o.naming.tableName (m.classifier c)) c p d₀ ∧
      ∃ isIdentity, d = d₀.identified isIdentity ∧
        (isIdentity = true → d₀.column.isIdentity = true) := by
  obtain ⟨found, hf, rfl⟩ := h.ofAttributes
  obtain ⟨zs, hz, hf⟩ := exists_sublist_of_forall₂ hf
  obtain ⟨i, hi⟩ := List.mem_iff_getElem?.mp hd
  obtain ⟨d₀, hd₀, hkept⟩ := exists_getElem?_of_forall₂ (forall₂_keepFirstIdentity false _) hi
  obtain ⟨p, hp, hcolumn⟩ := exists_getElem?_of_forall₂ hf hd₀
  rcases attributeColumn?_eq_ok hcolumn with ⟨hnone, _⟩ | ⟨_, hsome, hbears⟩
  · cases hnone
  · cases hsome
    exact ⟨p, hz.subset (List.mem_of_getElem? hp), d₀, hbears, hkept⟩

theorem Defines.mem_further {definition : TableDefinition} {own further : List DerivedColumn}
    (h : o.Defines m map c definition own further) {d : DerivedColumn} (hd : d ∈ further) :
    ∃ r ∈ map.needed m c, ∃ referenced sqlType, m.identityProperty? r.principal = some referenced ∧
      d = ⟨o.columnOf m (o.relationshipPurpose m r referenced) sqlType, some r.principal⟩ := by
  obtain ⟨i, hi⟩ := List.mem_iff_getElem?.mp hd
  obtain ⟨r, hr, hcolumn⟩ := exists_getElem?_of_forall₂ h.ofRelationships hi
  obtain ⟨referenced, sqlType, identity, _, rfl⟩ := relationshipColumn_eq_ok hcolumn
  exact ⟨r, List.mem_of_getElem? hr, referenced, sqlType, identity, rfl⟩

theorem Bears.refers {d : DerivedColumn} (h : o.Bears m table c p d) : Refers m d := by
  cases h with
  | reference _ _ _ identity =>
    refine ⟨rfl, fun _ => rfl, ⟨p, rfl⟩, fun type ht => ?_⟩
    cases ht
    exact ⟨_, identity, rfl⟩
  | value =>
    refine ⟨rfl, fun hf => ?_, ⟨p, rfl⟩, fun type ht => ?_⟩
    · cases hf
    · cases ht

theorem Bears.type {d : DerivedColumn} (h : o.Bears m table c p d) :
    d.column.source = some p ∧ d.column.isMany = false ∧
      ∀ type, d.principal = some type → (m.property p).type = some type := by
  cases h with
  | reference principal =>
    refine ⟨rfl, rfl, fun type ht => ?_⟩
    cases ht
    rw [Model.attributePrincipal?] at principal
    split at principal
    · exact principal
    · cases principal
  | value =>
    refine ⟨rfl, rfl, fun type ht => ?_⟩
    cases ht

theorem Refers.identified {d : DerivedColumn} (h : Refers m d) {isIdentity : Bool}
    (kept : isIdentity = true → d.column.isIdentity = true) :
    Refers m (d.identified isIdentity) := by
  refine ⟨h.foreign, fun hf => ?_, h.sourced, h.referenced⟩
  cases isIdentity with
  | false => rfl
  | true => exact (kept rfl).symm.trans (h.plain hf)

theorem Defines.isMany_own {definition : TableDefinition} {own further : List DerivedColumn}
    (h : o.Defines m map c definition own further) {d : DerivedColumn} (hd : d ∈ own) :
    d.column.isMany = false := by
  obtain ⟨p, _, d₀, hbears, isIdentity, rfl, _⟩ := h.mem_own hd
  exact hbears.type.2.1

theorem Defines.isMany_further {definition : TableDefinition} {own further : List DerivedColumn}
    (h : o.Defines m map c definition own further) {d : DerivedColumn} (hd : d ∈ further) :
    d.column.isMany = true := by
  obtain ⟨r, _, referenced, sqlType, _, rfl⟩ := h.mem_further hd
  rfl

theorem Defines.refers {definition : TableDefinition} {own further : List DerivedColumn}
    (h : o.Defines m map c definition own further) {d : DerivedColumn} (hd : d ∈ own ++ further) :
    Refers m d := by
  rcases List.mem_append.mp hd with hd | hd
  · obtain ⟨p, _, d₀, hbears, isIdentity, rfl, kept⟩ := h.mem_own hd
    exact hbears.refers.identified kept
  · obtain ⟨r, _, referenced, sqlType, identity, rfl⟩ := h.mem_further hd
    refine ⟨rfl, fun _ => rfl, ⟨r.path, rfl⟩, fun type ht => ?_⟩
    cases ht
    exact ⟨referenced, identity, rfl⟩

theorem packagedTable?_eq_ok {definition : TableDefinition}
    (h : (o.packagedTable? m map c).value = .ok (some definition)) :
    (m.classifier c).kind.isMembered = true ∧ (m.classifier c).kind.isValue = false ∧
      o.becomesTable m c = true ∧ (o.tableDefinition? m map c).value = .ok (some definition) := by
  rw [packagedTable?] at h
  by_cases hk : (!(m.classifier c).kind.isMembered) = true ∨ (m.classifier c).kind.isValue = true
  · simp only [if_pos hk] at h
    cases h
  simp only [if_neg hk] at h
  split at h
  case isTrue => cases h
  case isFalse hb =>
    obtain ⟨definition?, hd, h⟩ := Logged.bind_eq_ok.mp h
    cases definition? with
    | none => cases h
    | some definition' =>
      obtain ⟨_, _, h⟩ := Logged.bind_eq_ok.mp h
      cases h
      rw [not_or, Bool.not_eq_true, Bool.not_eq_true, Bool.not_eq_false'] at hk
      exact ⟨hk.1, hk.2, by simpa using hb, hd⟩

/-- The tables of a model are those of some of its packaged classifiers, in order. -/
theorem tableDefinitions_eq_ok {definitions : List TableDefinition}
    (h : (o.tableDefinitions m map).value = .ok definitions) :
    ∃ cs, cs.Sublist m.packagedClassifiers ∧
      List.Forall₂ (fun c d => (o.packagedTable? m map c).value = .ok (some d)) cs definitions := by
  obtain ⟨found, hf, h⟩ := Logged.bind_eq_ok.mp h
  cases h
  exact exists_sublist_of_forall₂ (Logged.mapM_eq_ok.mp hf)

end Options

end Schemata
