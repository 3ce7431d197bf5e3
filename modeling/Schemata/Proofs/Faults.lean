import Schemata.Proofs.Document.Written
import Schemata.Proofs.Model.Ends
import Schemata.Proofs.Schema.Faults

/-!
# Databases without missing identities

Once each class, interface and data type of a loaded model has an identity property, no part of a
database lacks one: not the tables, not the keys, not the table types and not the procedures.
-/
namespace Schemata

variable {o : Options} {m : Model} {map : RelationshipMap} {s : ClassifierRef} {c : Catalog}
  {present : List String} {tables : List TableRef}

/-! ## Keys -/

theorem failsOnly_foreignKey? (wf : m.WellFormed) {table : String} {column : Column}
    (identity : ∀ p ∈ column.referenced, ∃ principal, m.identityProperty? principal = some p) :
    FailsOnly derivationFamilies (o.foreignKey? m present table column).value := by
  rw [Options.foreignKey?]
  split
  case h_2 => exact .ok _
  case h_1 source referenced _ hreferenced =>
    obtain ⟨principal, hp⟩ := identity referenced hreferenced
    have owner := (wf.of_identityProperty? hp).2
    simp only [owner]
    split
    · exact .ok _
    · have hname : ∃ name, o.naming.foreignKeyName m (m.property source) (m.property referenced) =
          .ok name := by
        rw [Naming.foreignKeyName, owner]
        exact ⟨_, rfl⟩
      obtain ⟨name, hname⟩ := hname
      rw [hname, Options.identityProperty_eq_ok.mpr hp]
      exact .ok _

theorem failsOnly_columnKeys (wf : m.WellFormed) {table : Table} {column : Column}
    (identity : column.isForeignKey = true → ∀ p ∈ column.referenced,
      ∃ principal, m.identityProperty? principal = some p) :
    FailsOnly derivationFamilies (o.columnKeys m present table column).value := by
  rw [Options.columnKeys_eq]
  refine Logged.failsOnly_bind ?_ fun _ _ => .ok _
  split
  case isTrue foreign => exact failsOnly_foreignKey? wf (identity foreign)
  case isFalse => exact .ok _

theorem failsOnly_tableKeys (wf : m.WellFormed) {definition : TableDefinition} {table : Table}
    {own further : List DerivedColumn} (made : o.Made m map definition table s own further) :
    FailsOnly derivationFamilies (o.tableKeys m present table).value := by
  refine Logged.failsOnly_bind (Logged.failsOnly_mapM fun column hc => ?_) fun _ _ => .ok _
  refine failsOnly_columnKeys wf fun foreign p hp => ?_
  rw [made.columns] at hc
  obtain ⟨d, hd, rfl⟩ := List.mem_map.mp hc
  have refers := made.defines.refers hd
  obtain ⟨principal, hprincipal⟩ := Option.isSome_iff_exists.mp (refers.foreign.symm.trans foreign)
  obtain ⟨referenced, hi, hr⟩ := refers.referenced principal hprincipal
  obtain rfl := Option.some.inj (hr.symm.trans hp)
  exact ⟨principal, hi⟩

theorem failsOnly_createKeys (wf : m.WellFormed) (bounded : ∀ t ∈ tables, t.place < c.tables.length)
    (made : ∀ t ∈ tables, ∃ definition s own further,
      o.Made m map definition (c.table t) s own further) :
    FailsOnly derivationFamilies (o.createKeys m tables c).completed.value := by
  rw [Options.createKeys, Progress.completed_walk]
  refine Logged.failsOnly_foldlM_of_invariant (fun c => (∀ t ∈ tables, t.place < c.tables.length) ∧
    ∀ t ∈ tables, ∃ definition s own further, o.Made m map definition (c.table t) s own further)
    ⟨bounded, made⟩ ?_ ?_
  · rintro c t c' ht ⟨bounded, made⟩ h
    obtain ⟨size, ⟨keys, _, hself⟩, hother⟩ := Options.addKeys_eq_ok (bounded t ht) h
    refine ⟨fun u hu => size ▸ bounded u hu, fun u hu => ?_⟩
    obtain ⟨definition, s, own, further, made⟩ := made u hu
    by_cases e : u = t
    · subst e
      exact ⟨definition, s, own, further, hself ▸ made.with_keys keys⟩
    · exact ⟨definition, s, own, further, hother u e ▸ made⟩
  · rintro c t ht ⟨_, made⟩
    obtain ⟨definition, s, own, further, made⟩ := made t ht
    rw [Options.addKeys]
    split
    · exact .error (show Family.unsuited ∈ derivationFamilies by decide)
    · exact Logged.failsOnly_bind (failsOnly_tableKeys wf made) fun _ _ => .ok _

/-! ## Table types -/

theorem procedureFamilies_subset : procedureFamilies ⊆ derivationFamilies := by decide

theorem unsuited_mem : Family.unsuited ∈ derivationFamilies := by decide

namespace Model.Identified

theorem failsOnly_valueType? (h : m.Identified) (known : m.Known s) :
    FailsOnly derivationFamilies (o.valueType? m s).value := by
  rw [Options.valueType?]
  split
  · exact .ok _
  · exact .ok _
  · rename_i e he
    split
    · exact .ok _
    · exact .error (h.failsOnly_ofClassifier known e he)

theorem failsOnly_tableTypeOf? (h : m.Identified) (identities : map.Identified m)
    (known : m.Known s) {identityType : String} :
    FailsOnly derivationFamilies (o.tableTypeOf? m map identityType s).value := by
  rw [Options.tableTypeOf?]
  split
  · refine Logged.failsOnly_bind (h.failsOnly_valueType? known) fun sqlType? _ => ?_
    cases sqlType? with
    | none => exact .ok _
    | some sqlType =>
      exact Logged.failsOnly_bind (failsOnly_simpleTableType fun _ => unsuited_mem) fun _ _ => .ok _
  · refine Logged.failsOnly_bind (Logged.failsOnly_bind (h.failsOnly_tableDefinition? identities)
      fun definition? _ => ?_) fun _ _ => .ok _
    cases definition? with
    | none => exact .ok _
    | some definition =>
      dsimp only
      split
      · exact .error unsuited_mem
      · exact .ok _

theorem failsOnly_createTableTypes (h : m.Identified) (identities : map.Identified m)
    (known : m.Known o.identityType) (c : Catalog) :
    FailsOnly derivationFamilies (o.createTableTypes m map c).value := by
  refine Logged.failsOnly_bind ?_ fun _ _ => .ok _
  refine Logged.failsOnly_bind ?_ fun identityType _ => Logged.failsOnly_bind ?_ fun types _ => ?_
  · refine (h.failsOnly_ofClassifier known).bind fun sqlType _ => ?_
    split
    · exact .error (show Family.mapping ∈ derivationFamilies by decide)
    · exact .ok _
  · refine Logged.failsOnly_foldlM fun types s hs => ?_
    rw [Options.addTableType]
    split
    · exact .ok _
    · refine Logged.failsOnly_bind (h.failsOnly_tableTypeOf? identities (.inl hs))
        fun found? _ => ?_
      cases found? with
      | none => exact .ok _
      | some found =>
        dsimp only
        split <;> exact .ok _
  · split
    · exact .ok _
    · exact Logged.failsOnly_bind (failsOnly_simpleTableType fun _ => unsuited_mem) fun _ _ => .ok _

/-! ## Databases -/

theorem failsOnly_build (h : m.Identified) (wf : m.WellFormed) (known : m.Known o.identityType)
    (c : Catalog) : FailsOnly derivationFamilies (o.build m c).value := by
  rw [Options.build_eq]
  refine Logged.failsOnly_bind (Model.relationshipMap_value ▸ .ok _) fun map hmap => ?_
  have identities := h.relationshipMap hmap
  refine Logged.failsOnly_bind (Logged.failsOnly_bind (h.failsOnly_deriveTables identities c)
    fun _ _ => .ok _) fun ⟨db, linked⟩ hdb => ?_
  obtain ⟨⟨tables, _⟩, hl, hdb⟩ := Logged.bind_eq_ok.mp hdb
  cases hdb
  dsimp only
  split
  · exact .ok _
  · obtain ⟨_, bounded, definition, made⟩ := Options.deriveTables_made hl
    rw [Options.complete]
    split
    · exact .error unsuited_mem
    · refine Logged.failsOnly_bind (failsOnly_createKeys wf bounded fun t ht => ⟨_, made t ht⟩)
        fun keyed _ => ?_
      refine Logged.failsOnly_bind (h.failsOnly_createTableTypes identities known keyed)
        fun _ _ => ?_
      exact Logged.failsOnly_bind
        ((failsOnly_createProcedures _ _ _ _ _).mono procedureFamilies_subset)
        fun _ _ => .ok _

end Model.Identified

namespace Options

/-- Once the classifiers of a loaded model were given identity properties of a primitive type, no
derivation lacks an identity, whatever it selects. The ends of associations are to lead to
classifiers that can have one, and the type of listed identities is to be a classifier of the model
or a primitive one. -/
theorem build_withIdentities {datum : Datum} {m : Model} (loaded : Model.ofDatum datum = .ok m)
    (membered : m.EndsMembered) (rule : IdentityRule)
    (primitive : (m.classifier rule.type).kind = .primitive) :
    ∃ m', (m.withIdentities rule).value = .ok m' ∧ ∀ (o : Options) (c : Catalog),
      (o.identityType ∈ m.packagedClassifiers ∨ ∃ p : Primitive, o.identityType = p.ref) →
        ∀ e, (o.build m' c).value = .error e → e.family ≠ .identity := by
  obtain ⟨m', ok, provides, identified⟩ := Model.exists_identified loaded membered primitive
  have wf : m'.WellFormed := (Model.Loaded.identities rule (.document loaded) ok).wellFormed
  refine ⟨m', ok, fun o c hidentity e he missing => ?_⟩
  have known : m.Known o.identityType := by
    rcases hidentity with packaged | ⟨p, hp⟩
    · exact .inl packaged
    · obtain ⟨document, mirrors⟩ := Model.mirrors_ofDatum loaded
      exact hp ▸ mirrors.known_ref p
  have hfamily := identified.failsOnly_build wf (provides.known known) c e he
  rw [missing] at hfamily
  revert hfamily
  decide

/-- One class refers to another and is associated with it. Neither has an identity property at
first. -/
theorem build_withIdentities_associated :
    let o := of .sqlServer
    let rule : IdentityRule := { type := Primitive.integer.ref }
    let document : ModelDocument := {
      name := "m"
      classifiers := [
        { id := "a", name := "A", attributes := [.of "last" "b"] },
        { id := "b", name := "B" }]
      associations := [
        { id := "s", ends := [{ type := some "a", upper := unbounded }, { type := some "b" }] }] }
    ∃ m m', Model.ofDatum document.write = .ok m ∧ (m.withIdentities rule).value = .ok m' ∧
      (∃ e, (o.build m {}).value = .error e ∧ e.family = .identity) ∧
      (∃ built, (o.build m' {}).value = .ok built) ∧
      ∀ (o : Options) (c : Catalog), o.identityType = Primitive.integer.ref →
        ∀ e, (o.build m' c).value = .error e → e.family ≠ .identity := by
  intro o rule document
  have hrun : o.observeIdentified rule document (fun m _ _ _ =>
      .ok (decide m.EndsMembered, (m.classifier rule.type).kind,
        decide (((o.build m {}).value.map fun _ => ()) =
          Except.error (Fault.noIdentity "B" .reference)))) = .ok (true, .primitive, true) := by
    decide +kernel
  obtain ⟨m, m', db, c', hm, hm', hb, hrun⟩ := observeIdentified_eq_ok.mp hrun
  obtain ⟨membered, h⟩ := Prod.mk.inj (Except.ok.inj hrun)
  obtain ⟨primitive, missing⟩ := Prod.mk.inj h
  have missing := of_decide_eq_true missing
  obtain ⟨m₁, hm₁, h⟩ := build_withIdentities hm (of_decide_eq_true membered) rule primitive
  obtain rfl := Except.ok.inj (hm'.symm.trans hm₁)
  refine ⟨m, m', hm, hm', ?_, ⟨_, hb⟩, fun o c hidentity => h o c (.inr ⟨.integer, hidentity⟩)⟩
  cases hbuild : (o.build m {}).value with
  | ok _ =>
    rw [hbuild] at missing
    cases missing
  | error e =>
    rw [hbuild] at missing
    obtain rfl := Except.error.inj missing
    exact ⟨_, rfl, rfl⟩

end Options

end Schemata
