import Schemata.Proofs.Schema.References

/-!
# Identity columns

A derived table has one identity column at most, that of the first attribute that identifies: one
with a name that is marked as identity and does not refer to an entity.
-/
namespace Schemata
namespace Options

variable {o : Options} {m : Model} {map : RelationshipMap} {definition : TableDefinition}
  {table : Table} {s : ClassifierRef} {own further : List DerivedColumn}

/-- The first identity column among those of attributes is that of the first attribute that
identifies. -/
theorem find?_isIdentity {name : String} {c : ClassifierRef} {ps : List PropertyRef}
    {found : List (Option DerivedColumn)}
    (h : List.Forall₂ (fun p d? => (o.attributeColumn? m name c p).value = .ok d?) ps found) :
    match ps.find? (m.identifies c) with
    | none => (found.filterMap id).find? (·.column.isIdentity) = none
    | some p => ∃ d, (found.filterMap id).find? (·.column.isIdentity) = some d ∧
      o.Bears m name c p d := by
  induction h with
  | nil => rfl
  | @cons p d? ps found hp _ ih =>
    have hany := isIdentity_attributeColumn? hp
    cases hi : m.identifies c p with
    | true =>
      rw [List.find?_cons_of_pos hi]
      rcases attributeColumn?_eq_ok hp with ⟨rfl, _⟩ | ⟨d, rfl, hd⟩
      · rw [hi] at hany
        cases hany
      · exact ⟨d, List.find?_cons_of_pos (hany.trans hi), hd⟩
    | false =>
      rw [List.find?_cons_of_neg (by simp [hi])]
      cases d? with
      | none => exact ih
      | some d =>
        have hd : ¬ d.column.isIdentity = true := by
          intro hd
          exact Bool.false_ne_true (hi.symm.trans (hany.symm.trans hd))
        have hskip : ((some d :: found).filterMap id).find? (·.column.isIdentity) =
            (found.filterMap id).find? (·.column.isIdentity) := List.find?_cons_of_neg hd
        rw [hskip]
        exact ih

theorem Defines.filter_isIdentity (h : o.Defines m map s definition own further) :
    ((own ++ further).map (·.column)).filter (·.isIdentity) =
      (own.filter (·.column.isIdentity)).map (·.column) := by
  have hfurther : (further.map (·.column)).filter (·.isIdentity) = [] := by
    rw [List.filter_eq_nil_iff]
    intro column hc
    obtain ⟨d, hd, rfl⟩ := List.mem_map.mp hc
    obtain ⟨r, _, referenced, sqlType, _, rfl⟩ := h.mem_further hd
    exact Bool.false_ne_true
  rw [List.map_append, List.filter_append, hfurther, List.append_nil, List.filter_map]
  rfl

structure Identifies (o : Options) (m : Model) (s : ClassifierRef) (p : PropertyRef)
    (column : Column) :
    Prop where
  identifies : m.identifies s p = true
  source : column.source = some p
  name : column.name = o.naming.columnName (m.property p)
  single : column.isMany = false
  required : column.isRequired = true
  plain : column.isForeignKey = false

theorem Bears.identifies {name : String} {p : PropertyRef} {d : DerivedColumn}
    (h : o.Bears m name s p d) (identity : m.identifies s p = true) :
    o.Identifies m s p d.column := by
  rw [Model.identifies, Bool.and_eq_true, Bool.and_eq_true] at identity
  cases h with
  | reference principal =>
    rw [principal] at identity
    cases identity.2
  | value =>
    refine ⟨by simpa [Model.identifies] using identity, rfl, rfl, rfl, ?_, rfl⟩
    simp [columnOf, valuePurpose, identity.1.1]

theorem affixed_ne_empty (n : Naming) (kind : NameKind) {name : String} (h : name ≠ "") :
    n.affixed kind name ≠ "" := by
  rw [Naming.affixed]
  split
  · simp [String.append_eq_empty_iff, h]
  · exact h

theorem Identifies.named {p : PropertyRef} {column : Column} (h : o.Identifies m s p column) :
    column.name ≠ "" := by
  have hp := h.identifies
  simp only [Model.identifies, Bool.and_eq_true, bne_iff_ne] at hp
  rw [h.name]
  exact affixed_ne_empty o.naming .column hp.1.2

theorem Made.identityColumn? (h : o.Made m map definition table s own further) :
    table.columns.filter (·.isIdentity) = table.identityColumn?.toList ∧
      match (m.classifier s).attributes.find? (m.identifies s) with
      | none => table.identityColumn? = none
      | some p => ∃ column, table.identityColumn? = some column ∧ o.Identifies m s p column := by
  -- The column that keeps its identity is the first of all that an attribute could have given.
  obtain ⟨found, hf, rfl⟩ := h.defines.ofAttributes
  have hmembers : m.members s = (m.classifier s).attributes := if_pos h.membered
  have hfilter : table.columns.filter (·.isIdentity) =
      (((found.filterMap id).find? (·.column.isIdentity)).map (·.column)).toList := by
    rw [h.columns, h.defines.filter_isIdentity, filter_keepFirstIdentity, if_neg Bool.false_ne_true]
    cases (found.filterMap id).find? (·.column.isIdentity) <;> rfl
  have hfind : table.identityColumn? =
      ((found.filterMap id).find? (·.column.isIdentity)).map (·.column) :=
        find?_of_filter_eq hfilter
  refine ⟨by rw [hfilter, hfind], ?_⟩
  have hfirst := find?_isIdentity hf
  rw [hmembers] at hfirst
  cases hp : (m.classifier s).attributes.find? (m.identifies s) with
  | none =>
    rw [hp] at hfirst
    rw [hfind, hfirst]
    rfl
  | some p =>
    rw [hp] at hfirst
    obtain ⟨d, hd, hbears⟩ := hfirst
    refine ⟨d.column, by rw [hfind, hd]; rfl, hbears.identifies (List.find?_some hp)⟩

end Options

end Schemata
