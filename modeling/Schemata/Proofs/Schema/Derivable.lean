import Schemata.Proofs.Schema.References

/-!
# Models that have tables

Tables can be derived exactly if every packaged classifier can be defined and the classifiers with
tables do not refer to one another in a circle. Neither depends on the order in which the
classifiers are packaged.
-/
namespace Schemata

def TableDefinition.positionsOf (d : TableDefinition) (m : Model) (s : ClassifierRef) : List Nat :=
  (d.references.filter fun r => (m.classifier r.2).id == (m.classifier s).id).map Prod.fst

def TableDefinition.referring (d : TableDefinition) (m : Model) (s : ClassifierRef) : List Column :=
  (d.positionsOf m s).map fun i => d.table.columns.getD i { name := "", sqlType := "" }

namespace Catalog

/-- A column by the classifier of its table, which tells the tables of one model apart. -/
def placeOf (c : Catalog) (column : ColumnRef) : Option ClassifierRef × Nat :=
  ((c.table column.table).source, column.position)

def ownedColumn (c : Catalog) (column : ColumnRef) : Option ClassifierRef × Column :=
  ((c.table column.table).source, c.column column)

variable {c c' : Catalog} {m : Model} {tables : List TableRef} {t : TableRef}
  {definitions : List TableDefinition}

theorem exists_resolveReferences (c : Catalog) (m : Model) (tables : List TableRef)
    (references : List Reference) :
    ∃ c', (c.resolveReferences m tables references).value = .ok c' := by
  induction references generalizing c with
  | nil => exact ⟨c, rfl⟩
  | cons r rest ih =>
    have hstep : ∃ d, (resolveReference m tables c r).value = .ok d := by
      rw [resolveReference]
      split
      · exact ⟨_, rfl⟩
      · exact ⟨_, rfl⟩
    obtain ⟨d, hd⟩ := hstep
    obtain ⟨c', h⟩ := ih d
    exact ⟨c', Logged.bind_eq_ok.mpr ⟨d, hd, h⟩⟩

theorem map_definitionAt_added (c : Catalog) (definitions : List TableDefinition) :
    (c.added definitions.length).map (c.definitionAt definitions) = definitions := by
  refine List.ext_getElem (by simp [added]) fun i _ hi => ?_
  simp [added, definitionAt, hi]

theorem dependentsOf_added
    (distinct : ∀ t ∈ c.added definitions.length, ∀ u ∈ c.added definitions.length, ∀ s s',
      ((c.extended definitions).table t).source = some s →
      ((c.extended definitions).table u).source = some s' →
        (m.classifier s).id = (m.classifier s').id → t = u)
    (ht : t ∈ c.added definitions.length) {s : ClassifierRef}
    (hs : (c.definitionAt definitions t).table.source = some s) :
    (c.extended definitions).dependentsOf m (c.added definitions.length)
        (c.addedReferences definitions) t =
      (c.added definitions.length).flatMap fun u =>
        ((c.definitionAt definitions u).positionsOf m s).map (ColumnRef.mk u) := by
  have hprincipal : ∀ principal,
      ((c.extended definitions).principalTable? m (c.added definitions.length) principal ==
        some t) = ((m.classifier principal).id == (m.classifier s).id) := by
    intro principal
    rw [Bool.eq_iff_iff, beq_iff_eq, beq_iff_eq, principalTable?_eq_some distinct,
      table_added ht, hs]
    simp only [ht, Option.some.injEq, exists_eq_left', true_and, eq_comm]
  rw [dependentsOf, addedReferences, List.filter_flatMap, List.map_flatMap]
  refine List.flatMap_congr fun u _ => ?_
  rw [List.filter_map, List.map_map, TableDefinition.positionsOf, List.map_map]
  simp only [Function.comp_def, hprincipal]

end Catalog

namespace Options
open Relation

variable {o : Options} {m : Model} {map : RelationshipMap} {c : Catalog} {s s' : ClassifierRef}
  {definitions : List TableDefinition} {t p : TableRef}

def definitionOf? (o : Options) (m : Model) (map : RelationshipMap) (s : ClassifierRef) :
    Option TableDefinition :=
  match (o.packagedTable? m map s).value with
  | .ok definition? => definition?
  | .error _ => none

/-- Every packaged classifier either gets a table or needs none. -/
def Definable (o : Options) (m : Model) (map : RelationshipMap) : Prop :=
  ∀ s ∈ m.packagedClassifiers, ∃ definition?, (o.packagedTable? m map s).value = .ok definition?

/-- Two classifiers have tables, and a column of the first table refers to the second. -/
structure RefersTo (o : Options) (m : Model) (map : RelationshipMap) (s s' : ClassifierRef) :
    Prop where
  packaged : s ∈ m.packagedClassifiers
  principal : s' ∈ m.packagedClassifiers
  distinct : s ≠ s'
  refers : ∃ d, o.definitionOf? m map s = some d ∧ d.positionsOf m s' ≠ []
  tabled : (o.definitionOf? m map s').isSome

theorem definitionOf?_of_ok {definition? : Option TableDefinition}
    (h : (o.packagedTable? m map s).value = .ok definition?) :
    o.definitionOf? m map s = definition? := by
  rw [definitionOf?, h]

theorem definitionOf?_eq_some {d : TableDefinition} :
    o.definitionOf? m map s = some d ↔ (o.packagedTable? m map s).value = .ok (some d) := by
  rw [definitionOf?]
  cases (o.packagedTable? m map s).value <;> simp

theorem tableDefinitions_eq_ok_iff : (o.tableDefinitions m map).value = .ok definitions ↔
    o.Definable m map ∧ definitions = m.packagedClassifiers.filterMap (o.definitionOf? m map) := by
  have hfilterMap :
      ∀ ss found, List.Forall₂ (fun s d? => (o.packagedTable? m map s).value = .ok d?) ss found →
      found.filterMap id = ss.filterMap (o.definitionOf? m map) := by
    intro ss found h
    induction h with
    | nil => rfl
    | cons hs _ ih => rw [List.filterMap_cons, List.filterMap_cons, ih, definitionOf?_of_ok hs, id]
  rw [tableDefinitions, Logged.bind_eq_ok]
  constructor
  · rintro ⟨found, hf, h⟩
    cases h
    have hf := Logged.mapM_eq_ok.mp hf
    refine ⟨fun s hs => ?_, hfilterMap _ found hf⟩
    obtain ⟨i, hi⟩ := List.mem_iff_getElem?.mp hs
    obtain ⟨d?, _, hd⟩ := exists_getElem?_of_forall₂ hf.flip hi
    exact ⟨d?, hd⟩
  · rintro ⟨definable, rfl⟩
    refine ⟨m.packagedClassifiers.map (o.definitionOf? m map), ?_, ?_⟩
    · rw [Logged.mapM_eq_ok, List.forall₂_map_right_iff, List.forall₂_same]
      intro s hs
      obtain ⟨d?, hd⟩ := definable s hs
      rw [definitionOf?_of_ok hd, hd]
    · rw [List.filterMap_map]
      rfl

theorem definitionAt_cases (h : (o.tableDefinitions m map).value = .ok definitions)
    (ht : t ∈ c.added definitions.length) : ∃ s ∈ m.packagedClassifiers,
      (c.definitionAt definitions t).table.source = some s ∧
        o.definitionOf? m map s = some (c.definitionAt definitions t) := by
  obtain ⟨s, hs, hsource, hd⟩ := defined_added h ht
  exact ⟨s, hs, hsource, definitionOf?_of_ok hd⟩

theorem exists_added (h : (o.tableDefinitions m map).value = .ok definitions)
    (hs : s ∈ m.packagedClassifiers) {d : TableDefinition} (hd : o.definitionOf? m map s = some d) :
    ∃ t ∈ c.added definitions.length, c.definitionAt definitions t = d ∧
      d.table.source = some s := by
  obtain ⟨_, hdefinitions⟩ := tableDefinitions_eq_ok_iff.mp h
  have hmem : d ∈ (c.added definitions.length).map (c.definitionAt definitions) := by
    rw [c.map_definitionAt_added, hdefinitions]
    exact List.mem_filterMap.mpr ⟨s, hs, hd⟩
  obtain ⟨t, ht, e⟩ := List.mem_map.mp hmem
  exact ⟨t, ht, e, (table_of_packagedTable? (definitionOf?_eq_some.mp hd)).1⟩

structure Resolved (o : Options) (m : Model) (map : RelationshipMap) (c : Catalog)
    (definitions : List TableDefinition) (linked : Catalog) : Prop where
  derived : (o.deriveTables m map c).value =
    (linked.sortTables (c.added definitions.length)).map fun tables => (tables, linked)
  bounded : ∀ t ∈ c.added definitions.length, t.place < linked.tables.length
  table : ∀ t ∈ c.added definitions.length, ∀ s,
    (c.definitionAt definitions t).table.source = some s →
    linked.table t = { (c.definitionAt definitions t).table with
      dependents := (c.added definitions.length).flatMap fun u =>
        ((c.definitionAt definitions u).positionsOf m s).map (ColumnRef.mk u) }

theorem exists_resolved (distinct : (m.packagedClassifiers.map fun s => (m.classifier s).id).Nodup)
    (h : (o.tableDefinitions m map).value = .ok definitions) (c : Catalog) :
    ∃ linked, o.Resolved m map c definitions linked := by
  obtain ⟨linked, hl⟩ := Catalog.exists_resolveReferences (c.extended definitions) m
    (c.added definitions.length) (c.addedReferences definitions)
  have bounded :
      ∀ t ∈ c.added definitions.length, t.place < (c.extended definitions).tables.length := by
    intro t ht
    simpa [Catalog.extended] using (Catalog.mem_added.mp ht).2
  obtain ⟨size, table⟩ := Catalog.table_resolveReferences bounded hl
  refine ⟨linked, ?_, fun t ht => size ▸ bounded t ht, fun t ht s hs => ?_⟩
  · rw [deriveTables, Logged.value_bind, h]
    simp only [Except.bind, Catalog.addDefinitions_eq, Logged.value_bind, hl]
    cases linked.sortTables (c.added definitions.length) <;> rfl
  · obtain ⟨r, _, _, hr⟩ := defined_added h ht
    rw [table t, Catalog.table_added ht, (table_of_packagedTable? hr).2.1, List.nil_append,
      Catalog.dependentsOf_added (eq_of_id_added distinct h) ht hs]

variable {linked : Catalog}

theorem Resolved.source (h : o.Resolved m map c definitions linked)
    (hd : (o.tableDefinitions m map).value = .ok definitions)
    (ht : t ∈ c.added definitions.length) :
    ∃ s ∈ m.packagedClassifiers, (linked.table t).source = some s ∧
      o.definitionOf? m map s = some (c.definitionAt definitions t) ∧
      linked.table t = { (c.definitionAt definitions t).table with
        dependents := (c.added definitions.length).flatMap fun u =>
          ((c.definitionAt definitions u).positionsOf m s).map (ColumnRef.mk u) } := by
  obtain ⟨s, hs, hsource, hd⟩ := definitionAt_cases hd ht
  have htable := h.table t ht s hsource
  exact ⟨s, hs, by rw [htable, hsource], hd, htable⟩

theorem Resolved.references_iff (h : o.Resolved m map c definitions linked)
    (hd : (o.tableDefinitions m map).value = .ok definitions)
    (hs' : (linked.table p).source = some s') :
    linked.References (c.added definitions.length) t p ↔ t ∈ c.added definitions.length ∧
      p ∈ c.added definitions.length ∧ t ≠ p ∧
      (c.definitionAt definitions t).positionsOf m s' ≠ [] := by
  refine and_congr_right fun ht => and_congr_right fun hp => and_congr_right fun _ => ?_
  obtain ⟨r, _, hsource, _, htable⟩ := h.source hd hp
  obtain rfl := Option.some.inj (hs'.symm.trans hsource)
  rw [htable]
  simp only [List.mem_flatMap, List.mem_map]
  constructor
  · rintro ⟨_, ⟨u, _, i, hi, rfl⟩, rfl⟩
    exact List.ne_nil_of_mem hi
  · intro refers
    obtain ⟨i, hi⟩ := List.exists_mem_of_ne_nil _ refers
    exact ⟨⟨t, i⟩, ⟨t, ht, i, hi, rfl⟩, rfl⟩

/-- A circle of tables is a circle of their classifiers. -/
theorem Resolved.cyclic_iff (h : o.Resolved m map c definitions linked)
    (distinct : (m.packagedClassifiers.map fun s => (m.classifier s).id).Nodup)
    (hd : (o.tableDefinitions m map).value = .ok definitions) :
    (∃ t, TransGen (linked.References (c.added definitions.length)) t t) ↔
      ∃ s, TransGen (o.RefersTo m map) s s := by
  have injective := injective_added (c := c) (List.Nodup.of_map _ distinct) hd
  constructor
  · rintro ⟨t, path⟩
    have hlift : ∀ t p, linked.References (c.added definitions.length) t p →
        o.RefersTo m map ((linked.table t).source.getD ⟨0⟩) ((linked.table p).source.getD ⟨0⟩) := by
      intro t p edge
      obtain ⟨s, hs, hsource, hdefinition, htable⟩ := h.source hd edge.1
      obtain ⟨s', hs', hsource', hdefinition', htable'⟩ := h.source hd edge.2.1
      obtain ⟨ht, hp, hne, refers⟩ := (h.references_iff hd hsource').mp edge
      rw [hsource, hsource']
      refine ⟨hs, hs', fun e => hne ?_, ⟨_, hdefinition, refers⟩,
        Option.isSome_of_eq_some hdefinition'⟩
      rw [htable] at hsource
      rw [htable'] at hsource'
      exact injective t ht p hp (hsource.trans ((congrArg some e).trans hsource'.symm))
    exact ⟨_, TransGen.lift (fun t => (linked.table t).source.getD ⟨0⟩) hlift _ _ path⟩
  · rintro ⟨s, path⟩
    -- The table of a classifier is the one that was added for its definition.
    have htable : ∀ s, ∃ t, ∀ d, s ∈ m.packagedClassifiers → o.definitionOf? m map s = some d →
        t ∈ c.added definitions.length ∧ c.definitionAt definitions t = d ∧
          (linked.table t).source = some s := by
      intro s
      by_cases hs : s ∈ m.packagedClassifiers ∧ (o.definitionOf? m map s).isSome
      · obtain ⟨d, hsd⟩ := Option.isSome_iff_exists.mp hs.2
        obtain ⟨t, ht, rfl, hsource⟩ := exists_added (c := c) hd hs.1 hsd
        refine ⟨t, fun d' _ hd' => ⟨ht, Option.some.inj (hsd.symm.trans hd'), ?_⟩⟩
        rw [h.table t ht s hsource, hsource]
      · exact ⟨⟨0⟩, fun d hp hsd => absurd ⟨hp, by rw [hsd]; rfl⟩ hs⟩
    choose table htable using htable
    have hlift : ∀ s s', o.RefersTo m map s s' →
        linked.References (c.added definitions.length) (table s) (table s') := by
      rintro s s' ⟨hs, hs', hne, ⟨d, hsd, refers⟩, tabled⟩
      obtain ⟨d', hsd'⟩ := Option.isSome_iff_exists.mp tabled
      obtain ⟨ht, rfl, hsource⟩ := htable s d hs hsd
      obtain ⟨hp, _, hsource'⟩ := htable s' d' hs' hsd'
      refine (h.references_iff hd hsource').mpr ⟨ht, hp, fun e => hne ?_, refers⟩
      rw [e, hsource'] at hsource
      exact (Option.some.inj hsource).symm
    exact ⟨_, TransGen.lift table hlift _ _ path⟩

/-- Tables can be derived exactly if all classifiers can be defined and there is no circle of
references. -/
theorem exists_deriveTables_iff
    (distinct : (m.packagedClassifiers.map fun s => (m.classifier s).id).Nodup) (c : Catalog) :
    (∃ derived, (o.deriveTables m map c).value = .ok derived) ↔
      o.Definable m map ∧ ¬ ∃ s, TransGen (o.RefersTo m map) s s := by
  constructor
  · rintro ⟨⟨tables, c'⟩, h⟩
    obtain ⟨definitions, hd, _⟩ := Logged.bind_eq_ok.mp h
    obtain ⟨linked, hl⟩ := exists_resolved distinct hd c
    rw [hl.derived] at h
    cases hs : linked.sortTables (c.added definitions.length) with
    | error fault =>
      rw [hs] at h
      cases h
    | ok sorted =>
      have acyclic := (Catalog.sortTables_of_ok (c.nodup_added _) hs).1
      exact ⟨(tableDefinitions_eq_ok_iff.mp hd).1, (hl.cyclic_iff distinct hd).not.mp acyclic⟩
  · rintro ⟨definable, acyclic⟩
    have hd := tableDefinitions_eq_ok_iff.mpr ⟨definable, rfl⟩
    obtain ⟨linked, hl⟩ := exists_resolved distinct hd c
    cases hs : linked.sortTables (c.added _) with
    | error fault =>
      exact absurd
        ((hl.cyclic_iff distinct hd).mp (Catalog.sortTables_of_error (c.nodup_added _) hs).2)
        acyclic
    | ok sorted => exact ⟨(sorted, linked), by rw [hl.derived, hs]; rfl⟩

/-- The derived tables, each with its definition and the columns that refer to it. -/
structure Outcome (o : Options) (m : Model) (map : RelationshipMap) (tables : List TableRef)
    (c : Catalog) : Prop where
  /-- The classifiers that can be defined have one table each. -/
  sources : (tables.map fun t => (c.table t).source).Perm
    ((m.packagedClassifiers.filter fun s => (o.definitionOf? m map s).isSome).map some)
  table : ∀ t ∈ tables, ∃ s ∈ m.packagedClassifiers, ∃ d, (c.table t).source = some s ∧
    o.definitionOf? m map s = some d ∧
    c.table t = { d.table with dependents := (c.table t).dependents } ∧
    (c.table t).dependents.map c.placeOf =
      (m.packagedClassifiers.filterMap (o.definitionOf? m map)).flatMap fun d =>
        (d.positionsOf m s).map fun i => (d.table.source, i)
  /-- The columns that refer to the table, once more, as they are. -/
  columns : ∀ t ∈ tables, ∀ s, (c.table t).source = some s →
    (c.table t).dependents.map c.ownedColumn =
      (m.packagedClassifiers.filterMap (o.definitionOf? m map)).flatMap fun d =>
        (d.referring m s).map fun column => (d.table.source, column)
  owners : ∀ t ∈ tables, ∀ column ∈ (c.table t).dependents, column.table ∈ tables

theorem map_source_definitions (ss : List ClassifierRef) :
    (ss.filterMap (o.definitionOf? m map)).map (fun d => d.table.source) =
      (ss.filter fun s => (o.definitionOf? m map s).isSome).map some := by
  induction ss with
  | nil => rfl
  | cons s rest ih =>
    cases hsd : o.definitionOf? m map s with
    | none => rw [List.filterMap_cons_none hsd, ih, List.filter_cons_of_neg (by simp [hsd])]
    | some d =>
      rw [List.filterMap_cons_some hsd, List.filter_cons_of_pos (by simp [hsd]), List.map_cons,
        List.map_cons, ih, (table_of_packagedTable? (definitionOf?_eq_some.mp hsd)).1]

theorem Resolved.map_dependents (h : o.Resolved m map c definitions linked) {α : Type}
    (ht : t ∈ c.added definitions.length)
    (hs : (c.definitionAt definitions t).table.source = some s) {f : ColumnRef → α}
    {g : TableDefinition → Nat → α}
    (hf : ∀ u ∈ c.added definitions.length, ∀ i, f ⟨u, i⟩ = g (c.definitionAt definitions u) i) :
    (linked.table t).dependents.map f =
      definitions.flatMap fun d => (d.positionsOf m s).map (g d) := by
  rw [h.table t ht s hs]
  conv_rhs => rw [← c.map_definitionAt_added definitions, List.flatMap_map]
  rw [List.map_flatMap]
  refine List.flatMap_congr fun u hu => ?_
  rw [List.map_map]
  exact List.map_congr_left fun i _ => hf u hu i

theorem Resolved.outcome (h : o.Resolved m map c definitions linked)
    (hd : (o.tableDefinitions m map).value = .ok definitions) {tables : List TableRef}
    (perm : tables.Perm (c.added definitions.length)) : o.Outcome m map tables linked := by
  have hdefinitions := (tableDefinitions_eq_ok_iff.mp hd).2
  have hsource : ∀ t ∈ c.added definitions.length,
      (linked.table t).source = (c.definitionAt definitions t).table.source := by
    intro t ht
    obtain ⟨_, _, _, _, htable⟩ := h.source hd ht
    rw [htable]
  constructor
  · have hmap : (c.added definitions.length).map (fun t => (linked.table t).source) =
        definitions.map fun d => d.table.source := by
      conv_rhs => rw [← c.map_definitionAt_added definitions, List.map_map]
      exact List.map_congr_left hsource
    rw [← map_source_definitions, ← hdefinitions, ← hmap]
    exact perm.map _
  · intro t ht
    obtain ⟨s, hs, hs', hsd, htable⟩ := h.source hd (perm.mem_iff.mp ht)
    refine ⟨s, hs, _, hs', hsd, by rw [htable], ?_⟩
    have ht := perm.mem_iff.mp ht
    rw [h.map_dependents ht ((hsource t ht).symm.trans hs') (f := linked.placeOf)
      (g := fun d i => (d.table.source, i)) fun u hu i => by
        rw [Catalog.placeOf, hsource u hu], hdefinitions]
  · intro t ht s hs
    have ht := perm.mem_iff.mp ht
    have hcolumns : ∀ u ∈ c.added definitions.length, ∀ i, linked.ownedColumn ⟨u, i⟩ =
        ((c.definitionAt definitions u).table.source,
          (c.definitionAt definitions u).table.columns.getD i { name := "", sqlType := "" }) := by
      intro u hu i
      obtain ⟨_, _, _, _, htable⟩ := h.source hd hu
      rw [Catalog.ownedColumn, Catalog.column, htable]
    rw [h.map_dependents ht ((hsource t ht).symm.trans hs)
      (g := fun d i => (d.table.source, d.table.columns.getD i { name := "", sqlType := "" }))
        hcolumns,
      hdefinitions]
    refine List.flatMap_congr fun d _ => ?_
    rw [TableDefinition.referring, List.map_map]
    rfl
  · intro t ht column hc
    obtain ⟨_, _, _, _, htable⟩ := h.source hd (perm.mem_iff.mp ht)
    rw [htable] at hc
    obtain ⟨u, hu, hc⟩ := List.mem_flatMap.mp hc
    obtain ⟨i, _, rfl⟩ := List.mem_map.mp hc
    exact perm.mem_iff.mpr hu

theorem deriveTables_outcome
    (distinct : (m.packagedClassifiers.map fun s => (m.classifier s).id).Nodup)
    {tables : List TableRef} {c' : Catalog}
    (h : (o.deriveTables m map c).value = .ok (tables, c')) :
    o.Outcome m map tables c' := by
  obtain ⟨definitions, hd, _⟩ := Logged.bind_eq_ok.mp h
  obtain ⟨linked, hl⟩ := exists_resolved distinct hd c
  rw [hl.derived] at h
  cases hs : linked.sortTables (c.added definitions.length) with
  | error fault =>
    rw [hs] at h
    cases h
  | ok sorted =>
    rw [hs] at h
    cases h
    exact hl.outcome hd (Catalog.sortTables_of_ok (c.nodup_added _) hs).2.1

end Options

end Schemata
