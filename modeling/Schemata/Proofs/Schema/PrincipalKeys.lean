import Schemata.Proofs.Document.Written
import Schemata.Proofs.Schema.ForeignKeys
import Schemata.Proofs.Schema.Identity

/-!
# Primary keys that foreign keys refer to

A foreign key names the column of the first attribute that is marked as identity. The principal's
table has a primary key on the column of the first attribute that identifies, which need not be the
same.
-/
namespace Schemata

/-- The table has the column that a foreign key names, and a primary key on it. -/
def Key.HasPrimary (k : Key) (table : Table) : Prop :=
  ∃ column ∈ table.columns, k.principalColumn = some column.name ∧
    ∃ key ∈ table.keys, key.kind = .primary ∧ key.column = column.name

namespace Options

variable {o : Options} {m : Model} {map : RelationshipMap} {c : Catalog} {db : Database}
  {definition : TableRef → TableDefinition} {t p : TableRef} {k : Key}

theorem Completed.mem_keys (h : o.Completed m map db c definition) (ht : t ∈ db.tables) :
    k ∈ (c.table t).keys ↔ ∃ column ∈ (c.table t).columns, ∃ keys,
      (o.columnKeys m (presentIds m c db.tables) (c.table t) column).value = .ok keys ∧
      k ∈ keys := by
  obtain ⟨parts, hparts⟩ := h.keysOf ht
  rw [hparts.complete, List.mem_flatten]
  constructor
  · rintro ⟨keys, hkeys, hk⟩
    obtain ⟨i, hi⟩ := List.mem_iff_getElem?.mp hkeys
    obtain ⟨column, hc, ok⟩ := exists_getElem?_of_forall₂ hparts.derived hi
    exact ⟨column, List.mem_of_getElem? hc, keys, ok, hk⟩
  · rintro ⟨column, hc, keys, ok, hk⟩
    obtain ⟨i, hi⟩ := List.mem_iff_getElem?.mp hc
    obtain ⟨keys', hkeys', ok'⟩ := exists_getElem?_of_forall₂ hparts.derived.flip hi
    obtain rfl := Except.ok.inj (ok.symm.trans ok')
    exact ⟨keys, List.mem_of_getElem? hkeys', hk⟩

theorem Made.identityColumn?_iff {definition : TableDefinition} {table : Table} {s : ClassifierRef}
    {own further : List DerivedColumn} (made : o.Made m map definition table s own further)
    {column : Column} :
    column ∈ table.columns ∧ column.isIdentity = true ↔ table.identityColumn? = some column := by
  rw [← List.mem_filter, made.identityColumn?.1, Option.mem_toList]

/-- A foreign key names the table of a classifier and its identity property, and a primary key the
identity column. -/
theorem Completed.key_cases (h : o.Completed m map db c definition) (wf : m.WellFormed)
    (ht : t ∈ db.tables) (hk : k ∈ (c.table t).keys) :
    (k.kind = .foreign ∧ ∃ p ∈ db.tables, ∃ principal identity,
      (c.table p).source = some principal ∧ m.identityProperty? principal = some identity ∧
      k.principalTable = some (c.table p).name ∧
      k.principalColumn = some (o.naming.columnName (m.property identity))) ∨
    (k.kind = .primary ∧ ∃ column, (c.table t).identityColumn? = some column ∧
      k.column = column.name) := by
  obtain ⟨column, hc, keys, ok, hk⟩ := (h.mem_keys ht).mp hk
  obtain ⟨s, own, further, made⟩ := h.derived.made ht
  obtain ⟨i, hi⟩ := List.mem_iff_getElem?.mp hc
  obtain ⟨d, hd, rfl⟩ := made.column hi
  cases hf : d.column.isForeignKey with
  | false =>
    rw [columnKeys_of_not_foreign hf made.source] at ok
    obtain rfl := Except.ok.inj ok
    split at hk
    · rename_i hidentity
      rw [List.mem_singleton.mp hk]
      exact .inr ⟨rfl, d.column, made.identityColumn?_iff.mp ⟨hc, hidentity⟩, rfl⟩
    · cases hk
  | true =>
    obtain ⟨principal, hr, _⟩ := made.principalAt? hd hf
    obtain ⟨present, absent⟩ := h.derived.keys_of_foreign wf made hd hr ok
    by_cases hp : ∃ p ∈ db.tables, (c.table p).source = some principal
    · obtain ⟨name, identity, hi, rfl⟩ := present hp
      obtain ⟨p, hp, hs⟩ := hp
      obtain ⟨s', _, _, made'⟩ := h.derived.made hp
      obtain rfl := Option.some.inj (made'.source.symm.trans hs)
      rw [List.mem_singleton.mp hk]
      exact .inl ⟨rfl, p, hp, s', identity, hs, hi, congrArg some made'.name.symm, rfl⟩
    · rw [absent fun p hp' hs => hp ⟨p, hp', hs⟩] at hk
      cases hk

theorem Completed.primary_iff (h : o.Completed m map db c definition) (wf : m.WellFormed)
    (ht : t ∈ db.tables) {name : String} :
    (∃ key ∈ (c.table t).keys, key.kind = .primary ∧ key.column = name) ↔
      ∃ identity, (c.table t).identityColumn? = some identity ∧ identity.name = name := by
  constructor
  · rintro ⟨key, hk, primary, rfl⟩
    rcases h.key_cases wf ht hk with ⟨foreign, _⟩ | ⟨_, identity, hi, hn⟩
    · rw [foreign] at primary
      cases primary
    · exact ⟨identity, hi, hn.symm⟩
  · rintro ⟨identity, hi, rfl⟩
    obtain ⟨s, own, further, made⟩ := h.derived.made ht
    obtain ⟨hc, hidentity⟩ := made.identityColumn?_iff.mpr hi
    obtain ⟨j, hj⟩ := List.mem_iff_getElem?.mp hc
    obtain ⟨d, hd, rfl⟩ := made.column hj
    have plain : d.column.isForeignKey = false := by
      by_contra hf
      have := (made.defines.refers (List.mem_of_getElem? hd)).plain (by simpa using hf)
      rw [hidentity] at this
      cases this
    refine ⟨o.primaryKey d.column (m.classifier s), ?_, rfl, rfl⟩
    refine (h.mem_keys ht).mpr ⟨d.column, hc, _, columnKeys_of_not_foreign plain made.source, ?_⟩
    rw [if_pos hidentity]
    exact List.mem_singleton_self _

theorem Completed.hasPrimary_iff (h : o.Completed m map db c definition) (wf : m.WellFormed)
    (hp : p ∈ db.tables) :
    k.HasPrimary (c.table p) ↔
      ∃ identity, (c.table p).identityColumn? = some identity ∧
        k.principalColumn = some identity.name := by
  obtain ⟨s, own, further, made⟩ := h.derived.made hp
  constructor
  · rintro ⟨column, _, hn, hkey⟩
    obtain ⟨identity, hi, e⟩ := (h.primary_iff wf hp).mp hkey
    exact ⟨identity, hi, by rw [hn, e]⟩
  · rintro ⟨identity, hi, hn⟩
    exact ⟨identity, (made.identityColumn?_iff.mpr hi).1, hn,
      (h.primary_iff wf hp).mpr ⟨identity, hi, rfl⟩⟩

/-- The name of the first attribute that is marked as identity, and of the first that identifies. -/
theorem Made.principalColumn_iff {definition : TableDefinition} {table : Table} {s : ClassifierRef}
    {own further : List DerivedColumn} (made : o.Made m map definition table s own further)
    (plain : o.naming.affixes = []) {first : PropertyRef}
    (hfirst : m.identityProperty? s = some first)
    (hk : k.principalColumn = some (o.naming.columnName (m.property first))) :
    (∃ identity, table.identityColumn? = some identity ∧ k.principalColumn = some identity.name) ↔
      ((m.classifier s).attributes.find? (m.identifies s)).map (fun a => (m.property a).name) =
        (m.identityProperty? s).map fun a => (m.property a).name := by
  have hname : ∀ a, o.naming.columnName a = a.name := fun a => by
    rw [Naming.columnName, Naming.affixed, plain]
    rfl
  have hidentity := made.identityColumn?.2
  rw [hfirst, hk, hname]
  cases ha : (m.classifier s).attributes.find? (m.identifies s) with
  | none =>
    rw [ha] at hidentity
    simp [hidentity]
  | some a =>
    rw [ha] at hidentity
    obtain ⟨column, hc, identifies⟩ := hidentity
    simp only [hc, Option.some.injEq, exists_eq_left', identifies.name, hname, Option.map_some]
    exact eq_comm

/-- Each foreign key names one table of the database. The table has the column that it names, with a
primary key, exactly if the first attribute that is marked as identity has the name of the first
that identifies. -/
theorem build_hasPrimary_iff (o : Options) (sqlServer : o.dialect = .sqlServer)
    (plain : o.naming.affixes = []) (m : Model) (loaded : m.Loaded)
    (names : (m.packagedClassifiers.map fun s => (m.classifier s).name).Nodup) (c : Catalog)
    (db : Database) (c' : Catalog) (h : (o.build m c).value = .ok (db, c')) (t : TableRef)
    (ht : t ∈ db.tables) (k : Key) (hk : k ∈ (c'.table t).keys) (foreign : k.kind = .foreign) :
    ∃ p ∈ db.tables, ∃ s, (c'.table p).source = some s ∧ k.principalTable = some (c'.table p).name ∧
      (∀ q ∈ db.tables, k.principalTable = some (c'.table q).name → q = p) ∧
      (k.HasPrimary (c'.table p) ↔
        ((m.classifier s).attributes.find? (m.identifies s)).map (fun a => (m.property a).name) =
          (m.identityProperty? s).map fun a => (m.property a).name) := by
  have wf := loaded.wellFormed
  rw [build_eq] at h
  obtain ⟨map, _, h⟩ := Logged.bind_eq_ok.mp h
  obtain ⟨definition, completed⟩ := buildWith_eq_ok sqlServer wf.distinct h
  have hname : ∀ classifier, o.naming.tableName classifier = classifier.name := fun classifier => by
    rw [Naming.tableName, Naming.affixed, plain]
    rfl
  rcases completed.key_cases wf ht hk with ⟨_, p, hp, s, first, hs, hfirst, htable, hcolumn⟩ |
    ⟨primary, _⟩
  · obtain ⟨s', own, further, made⟩ := completed.derived.made hp
    obtain rfl := Option.some.inj (made.source.symm.trans hs)
    refine ⟨p, hp, s', hs, htable, fun q hq hn => ?_, ?_⟩
    · obtain ⟨r, _, _, made'⟩ := completed.derived.made hq
      rw [htable, Option.some.injEq, made.name, made'.name, hname, hname] at hn
      obtain rfl := List.inj_on_of_nodup_map names made.packaged made'.packaged hn
      exact completed.derived.eq_of_source hq hp (made'.source.trans hs.symm)
    · rw [completed.hasPrimary_iff wf hp]
      exact made.principalColumn_iff plain hfirst hcolumn
  · rw [foreign] at primary
    cases primary

/-- The first attribute that is marked as identity is named. -/
theorem build_hasPrimary_named :
    let o := of .sqlServer
    let document : ModelDocument := { name := "m", classifiers := [
      { id := "a", name := "A", attributes := [.identity "Id" "integer"] },
      { id := "c", name := "C", attributes := [.identity "Id" "integer", .of "a" "a"] }] }
    ∃ m db c', Model.ofDatum document.write = .ok m ∧ (o.build m {}).value = .ok (db, c') ∧
      ∃ t ∈ db.tables, ∃ k ∈ (c'.table t).keys, k.kind = .foreign ∧
        ∃ p ∈ db.tables, ∃ s, (c'.table p).source = some s ∧
          k.principalTable = some (c'.table p).name ∧
          (∀ q ∈ db.tables, k.principalTable = some (c'.table q).name → q = p) ∧
          (k.HasPrimary (c'.table p) ↔
            ((m.classifier s).attributes.find? (m.identifies s)).map
              (fun a => (m.property a).name) =
              (m.identityProperty? s).map fun a => (m.property a).name) := by
  intro o document
  have hrun : o.observe document (fun m db c' =>
      .ok (m.packagedClassifiers.map fun s => (m.classifier s).name,
        db.tables.any fun t => (c'.table t).keys.any fun k => k.kind = KeyKind.foreign)) =
      .ok (["A", "C"], true) := by
    decide +kernel
  obtain ⟨m, db, c', hm, hb, hrun⟩ := observe_eq_ok.mp hrun
  obtain ⟨hnames, hkeys⟩ := Prod.mk.inj (Except.ok.inj hrun)
  obtain ⟨t, ht, hkeys⟩ := List.any_eq_true.mp hkeys
  obtain ⟨k, hk, foreign⟩ := List.any_eq_true.mp hkeys
  have foreign := of_decide_eq_true foreign
  have names : (m.packagedClassifiers.map fun s => (m.classifier s).name).Nodup := by
    rw [hnames]
    decide
  exact ⟨m, db, c', hm, hb, t, ht, k, hk, foreign,
    build_hasPrimary_iff o rfl rfl m (.document hm) names {} db c' hb t ht k hk foreign⟩

/-- The first attribute that is marked as identity refers to a classifier and has a column of
another name: the foreign key names a column that no table has. -/
theorem not_hasPrimary_reference :
    let o := of .sqlServer
    let document : ModelDocument := { name := "m", classifiers := [
      { id := "b", name := "B", attributes := [.identity "Id" "integer"] },
      { id := "a", name := "A", attributes := [.identity "b" "b", .identity "Id" "integer"] },
      { id := "c", name := "C", attributes := [.identity "Id" "integer", .of "a" "a"] }] }
    ∃ m db c', m.Loaded ∧ Model.ofDatum document.write = .ok m ∧
      (o.build m {}).value = .ok (db, c') ∧
      (m.packagedClassifiers.map fun s => (m.classifier s).name) = ["B", "A", "C"] ∧
      ∃ t ∈ db.tables, ∃ k ∈ (c'.table t).keys, k.kind = .foreign ∧ k.principalTable = some "A" ∧
        k.principalColumn = some "b" ∧ ∀ p ∈ db.tables, ¬ k.HasPrimary (c'.table p) := by
  intro o document
  have hrun : o.observe document (fun m db c' =>
      .ok (m.packagedClassifiers.map fun s => (m.classifier s).name,
        (db.tables.any fun t => (c'.table t).keys.any fun k =>
          k.kind = KeyKind.foreign && k.principalTable = some "A" &&
            k.principalColumn = some "b") &&
        db.tables.all fun p => (c'.table p).columns.all fun column => column.name ≠ "b")) =
      .ok (["B", "A", "C"], true) := by
    decide +kernel
  obtain ⟨m, db, c', hm, hb, hrun⟩ := observe_eq_ok.mp hrun
  obtain ⟨hnames, h⟩ := Prod.mk.inj (Except.ok.inj hrun)
  simp only [Bool.and_eq_true, List.any_eq_true, List.all_eq_true, decide_eq_true_eq] at h
  obtain ⟨⟨t, ht, k, hk, ⟨foreign, htable⟩, hcolumn⟩, other⟩ := h
  refine ⟨m, db, c', .document hm, hm, hb, hnames, t, ht, k, hk, foreign, htable, hcolumn, ?_⟩
  rintro p hp ⟨column, hc, hn, _⟩
  exact other p hp column hc (Option.some.inj (hn.symm.trans hcolumn))

end Options

end Schemata
