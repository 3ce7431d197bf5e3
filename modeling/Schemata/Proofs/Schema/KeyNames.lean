import Schemata.Proofs.Assembled
import Schemata.Proofs.Document.Written
import Schemata.Proofs.Schema.ColumnNames
import Schemata.Proofs.Schema.Derivable

/-!
# Names of keys

A primary key is named after its classifier, and a foreign key after the classifier and the property
that refers to it, but not after the classifier whose table it belongs to. So the names of all keys
of a database are apart exactly if the foreign keys of different tables, and those of different
relationships, are labelled differently.
-/
namespace Schemata

/-- What a foreign key is named after: the owner of the identity that it refers to and the property
that refers. -/
structure KeyOrigin where
  principal : ClassifierRef
  source : PropertyRef
  deriving DecidableEq, Repr

/-- A property without a name is called by its type. -/
def KeyOrigin.label (x : KeyOrigin) (m : Model) : String :=
  let source := m.property x.source
  let dependent := if source.name = "" then m.typeName source else source.name
  (m.classifier x.principal).name ++ "_" ++ dependent

def KeyOrigin.keyName (x : KeyOrigin) (m : Model) : String := "FK_" ++ x.label m

namespace Model

def keyOrigin? (m : Model) (present : List String) (purpose : ColumnPurpose) : Option KeyOrigin :=
  purpose.referenced.bind fun referenced =>
    match (m.property referenced).owner with
    | some (.classifier principal) =>
      if (m.classifier principal).id ∈ present then some ⟨principal, purpose.source⟩ else none
    | _ => none

structure Siblings (m : Model) (p q : PropertyRef) : Prop where
  distinct : p ≠ q
  owner : ∃ c ∈ m.packagedClassifiers, p ∈ (m.classifier c).attributes ∧
    q ∈ (m.classifier c).attributes

end Model

def Options.keyOrigins (o : Options) (m : Model) (map : RelationshipMap)
    (sources : List ClassifierRef) :
    List KeyOrigin :=
  sources.flatMap fun s =>
    (o.purposes m map s).filterMap (m.keyOrigin? (sources.map fun s => (m.classifier s).id))

/-- Two foreign keys are labelled differently, unless they refer to one classifier by two attributes
of one classifier, whose labels differ anyway. -/
def Options.KeyNamesApart (o : Options) (m : Model) (map : RelationshipMap)
    (sources : List ClassifierRef) :
    Prop :=
  (o.keyOrigins m map sources).Pairwise fun x y =>
    (x.principal = y.principal → ¬ m.Siblings x.source y.source) → x.label m ≠ y.label m

namespace Database

def sources (db : Database) (c : Catalog) : List ClassifierRef :=
  db.tables.filterMap fun t => (c.table t).source

def keys (db : Database) (c : Catalog) : List Key := db.tables.flatMap fun t => (c.table t).keys

end Database

/-! ## Labels -/

/-- Two references from one classifier to another differ in the names of the attributes. -/
theorem KeyOrigin.label_ne {m : Model} {x y : KeyOrigin} (attributes : m.AttributesNamed)
    (principal : x.principal = y.principal) (siblings : m.Siblings x.source y.source) :
    x.label m ≠ y.label m := by
  obtain ⟨c, hc, hx, hy⟩ := siblings.owner
  have hne : (m.property x.source).name ≠ (m.property y.source).name := fun e =>
    siblings.distinct (List.inj_on_of_nodup_map (attributes.distinct c hc) hx hy e)
  have hnamed := attributes.named c hc
  simp only [label, hnamed _ hx, hnamed _ hy, if_false, principal]
  exact fun e => hne ((String.append_right_inj _).mp e)

theorem KeyOrigin.keyName_ne_primary (x : KeyOrigin) (m : Model) (name : String) :
    x.keyName m ≠ "PK_" ++ name := by
  intro e
  have h := congrArg String.toList e
  simp [keyName] at h

theorem KeyOrigin.keyName_eq_iff {x y : KeyOrigin} {m : Model} :
    x.keyName m = y.keyName m ↔ x.label m = y.label m :=
  String.append_right_inj _

/-! ## Names by kind -/

def foreignNames (keys : List Key) : List String := (keys.filter (·.kind = .foreign)).map (·.name)

def primaryNames (keys : List Key) : List String := (keys.filter (·.kind = .primary)).map (·.name)

@[simp] theorem foreignNames_append (keys keys' : List Key) :
    foreignNames (keys ++ keys') = foreignNames keys ++ foreignNames keys' := by
  simp [foreignNames]

@[simp] theorem primaryNames_append (keys keys' : List Key) :
    primaryNames (keys ++ keys') = primaryNames keys ++ primaryNames keys' := by
  simp [primaryNames]

theorem foreignNames_flatMap {α : Type} (xs : List α) (f : α → List Key) :
    foreignNames (xs.flatMap f) = xs.flatMap fun x => foreignNames (f x) := by
  simp [foreignNames, List.filter_flatMap, List.map_flatMap]

theorem primaryNames_flatMap {α : Type} (xs : List α) (f : α → List Key) :
    primaryNames (xs.flatMap f) = xs.flatMap fun x => primaryNames (f x) := by
  simp [primaryNames, List.filter_flatMap, List.map_flatMap]

/-- The names of all keys are apart if those of each kind are. -/
theorem nodup_keyNames_iff {keys : List Key}
    (disjoint : ∀ name ∈ primaryNames keys, name ∉ foreignNames keys) :
    (keys.map (·.name)).Nodup ↔ (primaryNames keys).Nodup ∧ (foreignNames keys).Nodup := by
  have hkind : ∀ k : Key, (!decide (k.kind = .primary)) = decide (k.kind = .foreign) := by
    intro k
    cases k.kind <;> rfl
  have hperm :=
    (List.filter_append_perm (fun k : Key => decide (k.kind = .primary)) keys).map (·.name)
  simp only [hkind, List.map_append] at hperm
  rw [← hperm.nodup_iff, List.nodup_append]
  constructor
  · exact fun h => ⟨h.1, h.2.1⟩
  · exact fun h => ⟨h.1, h.2, fun name hp _ hf e => disjoint name hp (e ▸ hf)⟩

namespace Options

variable {o : Options} {m : Model} {map : RelationshipMap} {c c' : Catalog} {db : Database}
  {present : List String} {s : ClassifierRef} {purpose : ColumnPurpose} {column : Column}
  {table : Table}

/-! ## Keys of one column -/

theorem affixed_of_plain (plain : o.naming.affixes = []) (kind : NameKind) (name : String) :
    o.naming.affixed kind name = name := by
  simp [Naming.affixed, plain]

theorem isForeignKey_purposes (hp : purpose ∈ o.purposes m map s) :
    purpose.isForeignKey = purpose.referenced.isSome := by
  simp only [purposes, List.mem_append, List.mem_filterMap] at hp
  rcases hp with ⟨p, _, hp⟩ | ⟨r, _, hr⟩
  · rw [attributePurpose?] at hp
    split at hp
    · cases hp
    · split at hp
      · split at hp
        · cases hp
        · obtain ⟨referenced, _, rfl⟩ := Option.map_eq_some_iff.mp hp
          rfl
      · obtain rfl := Option.some.inj hp
        rfl
  · obtain ⟨referenced, _, rfl⟩ := Option.map_eq_some_iff.mp hr
    rfl

theorem foreignKeyName_eq (plain : o.naming.affixes = []) (source : PropertyRef)
    {referenced : Property} {principal : ClassifierRef}
    (owner : referenced.owner = some (.classifier principal)) :
    o.naming.foreignKeyName m (m.property source) referenced =
      .ok ((⟨principal, source⟩ : KeyOrigin).keyName m) := by
  simp only [Naming.foreignKeyName, owner, affixed_of_plain plain, KeyOrigin.keyName,
    KeyOrigin.label, toString, String.append_assoc]

theorem foreignKey?_name (plain : o.naming.affixes = []) (serves : column.Serves purpose)
    {name : String} {key? : Option Key}
    (h : (o.foreignKey? m present name column).value = .ok key?) :
    key?.map (fun k => (k.kind, k.name)) =
      (m.keyOrigin? present purpose).map fun x => (.foreign, x.keyName m) := by
  rw [foreignKey?, serves.source, serves.referenced] at h
  cases hr : purpose.referenced with
  | none =>
    simp only [hr] at h
    cases h
    simp [Model.keyOrigin?, hr]
  | some referenced =>
    simp only [hr] at h
    split at h
    case h_2 => cases h
    case h_1 principal owner =>
      simp only [List.contains_eq_mem, Bool.not_eq_true', decide_eq_false_iff_not] at h
      by_cases hpresent : (m.classifier principal).id ∈ present
      · rw [if_neg (not_not_intro hpresent), foreignKeyName_eq plain purpose.source owner] at h
        obtain ⟨keyName, hname, h⟩ := Logged.bind_eq_ok.mp h
        obtain ⟨identity, _, h⟩ := Logged.bind_eq_ok.mp h
        cases h
        obtain rfl := Except.ok.inj (Logged.lift_eq_ok.mp hname)
        simp [Model.keyOrigin?, hr, owner, hpresent]
      · rw [if_pos hpresent] at h
        cases h
        simp [Model.keyOrigin?, hr, owner, hpresent]

theorem columnKeys_names (plain : o.naming.affixes = []) (serves : column.Serves purpose)
    (foreign : purpose.isForeignKey = purpose.referenced.isSome) {part : List Key}
    (h : (o.columnKeys m present table column).value = .ok part) :
    foreignNames part = ((m.keyOrigin? present purpose).map (·.keyName m)).toList ∧
      primaryNames part = ((o.primaryKey? m table column).map (·.name)).toList := by
  rw [columnKeys_eq] at h
  obtain ⟨key?, hkey, h⟩ := Logged.bind_eq_ok.mp h
  obtain rfl := Except.ok.inj h
  have hforeign : key?.map (fun k => (k.kind, k.name)) =
      (m.keyOrigin? present purpose).map fun x => (.foreign, x.keyName m) := by
    split at hkey
    case isTrue => exact foreignKey?_name plain serves hkey
    case isFalse hnot =>
      cases hkey
      have hnone : purpose.referenced = none := by
        simpa [serves.isForeignKey, foreign] using hnot
      simp [Model.keyOrigin?, hnone]
  have hprimary : ∀ k, o.primaryKey? m table column = some k → k.kind = .primary := by
    intro k hk
    rw [primaryKey?] at hk
    split at hk
    · obtain ⟨s, _, rfl⟩ := Option.map_eq_some_iff.mp hk
      rfl
    · cases hk
  cases hk : o.primaryKey? m table column <;> cases ho : m.keyOrigin? present purpose <;>
    cases key? <;> simp_all [foreignNames, primaryNames]

/-! ## Keys of one table -/

theorem parts_names (plain : o.naming.affixes = []) {columns : List Column}
    {purposes : List ColumnPurpose} {parts : List (List Key)}
    (serve : List.Forall₂ Column.Serves columns purposes) (derived : List.Forall₂
      (fun column part => (o.columnKeys m present table column).value = .ok part) columns parts)
    (foreign : ∀ purpose ∈ purposes, purpose.isForeignKey = purpose.referenced.isSome) :
    foreignNames parts.flatten = (purposes.filterMap (m.keyOrigin? present)).map (·.keyName m) ∧
      primaryNames parts.flatten = (columns.filterMap (o.primaryKey? m table)).map (·.name) := by
  induction serve generalizing parts with
  | nil =>
    cases derived
    exact ⟨rfl, rfl⟩
  | @cons column purpose columns purposes serves _ ih =>
    cases derived with
    | cons hpart derived =>
      have hfirst := columnKeys_names plain serves (foreign purpose (by simp)) hpart
      have hrest := ih derived fun purpose hp => foreign purpose (by simp [hp])
      rw [List.flatten_cons, foreignNames_append, primaryNames_append, hfirst.1, hfirst.2,
        hrest.1, hrest.2]
      constructor
      · cases ho : m.keyOrigin? present purpose <;> simp [ho]
      · cases hk : o.primaryKey? m table column <;> simp [hk]

/-- A table has the foreign keys of its columns' origins, and a primary key if it has an
identity. -/
theorem Made.keyNames {definition : TableDefinition} {own further : List DerivedColumn}
    (made : o.Made m map definition table s own further) (plain : o.naming.affixes = [])
    {keys : List Key} (h : (o.tableKeys m present table).value = .ok keys) :
    foreignNames keys =
        ((o.purposes m map s).filterMap (m.keyOrigin? present)).map (·.keyName m) ∧
      primaryNames keys = table.identityColumn?.toList.map fun _ =>
        "PK_" ++ (m.classifier s).name := by
  obtain ⟨parts, derived, rfl⟩ := tableKeys_eq_ok.mp h
  have names := parts_names plain made.serves derived fun _ => isForeignKey_purposes
  refine ⟨names.1, names.2.trans ?_⟩
  have hkey : ∀ column : Column, (o.primaryKey? m table column).map (·.name) =
      if column.isIdentity then some ("PK_" ++ (m.classifier s).name) else none := by
    intro column
    have hname : o.naming.primaryKeyName (m.classifier s) = "PK_" ++ (m.classifier s).name := by
      simp [Naming.primaryKeyName, affixed_of_plain plain, toString]
    cases hi : column.isIdentity <;> simp [primaryKey?, made.source, primaryKey, hname, hi]
  rw [← made.identityColumn?.1, List.map_filterMap, funext hkey]
  generalize table.columns = columns
  induction columns with
  | nil => rfl
  | cons column rest ih => cases hi : column.isIdentity <;> simp [hi, ih]

/-! ## Keys of a database -/

theorem presentIds_eq (m : Model) (db : Database) (c : Catalog) :
    presentIds m c db.tables = (db.sources c).map fun s => (m.classifier s).id := by
  simp [presentIds, Database.sources, List.map_filterMap]

theorem Assembled.foreignNames_keys {identityType : TableRef}
    (h : o.Assembled m map db c identityType) (plain : o.naming.affixes = []) :
    foreignNames (db.keys c) = (o.keyOrigins m map (db.sources c)).map (·.keyName m) := by
  rw [Database.keys, foreignNames_flatMap, keyOrigins, Database.sources, flatMap_filterMap,
    List.map_flatMap]
  refine List.flatMap_congr fun t ht => ?_
  obtain ⟨definition, s, own, further, made⟩ := h.made t ht
  have names := (made.keyNames plain (h.keys t ht)).1
  rw [presentIds_eq] at names
  rw [names, made.source]
  rfl

theorem Assembled.mem_primaryNames {identityType : TableRef}
    (h : o.Assembled m map db c identityType) (plain : o.naming.affixes = []) {t : TableRef}
    (ht : t ∈ db.tables) :
    ∃ s ∈ m.packagedClassifiers, (c.table t).source = some s ∧
      (primaryNames (c.table t).keys).Nodup ∧
      ∀ name ∈ primaryNames (c.table t).keys, name = "PK_" ++ (m.classifier s).name := by
  obtain ⟨definition, s, own, further, made⟩ := h.made t ht
  have names := (made.keyNames plain (h.keys t ht)).2
  refine ⟨s, made.packaged, made.source, ?_⟩
  rw [names]
  cases (c.table t).identityColumn? <;> simp

/-- Whatever the model is, its tables are made from different classifiers, if none is listed
twice. -/
theorem build_injective (distinct : m.packagedClassifiers.Nodup)
    (h : (o.build m c).value = .ok (db, c')) : db.tables.Nodup ∧
      ∀ t ∈ db.tables, ∀ u ∈ db.tables, (c'.table t).source = (c'.table u).source → t = u := by
  rw [build_eq] at h
  obtain ⟨map, _, h⟩ := Logged.bind_eq_ok.mp h
  obtain ⟨linked, hl, table⟩ := buildWith_tables h
  obtain ⟨definitions, hd, perm, _, dependents⟩ := deriveTables_cases hl
  have hsource : ∀ t ∈ db.tables,
      (c'.table t).source = (c.definitionAt definitions t).table.source := by
    intro t ht
    obtain ⟨_, keys, hk⟩ := table t ht
    rw [hk, (dependents t (perm.mem_iff.mp ht)).2]
  refine ⟨(deriveTables_made hl).1, fun t ht u hu e => ?_⟩
  rw [hsource t ht, hsource u hu] at e
  exact injective_added distinct hd t (perm.mem_iff.mp ht) u (perm.mem_iff.mp hu) e

/-- The names of primary keys are apart, since those of classifiers are. -/
theorem Assembled.nodup_primaryNames {identityType : TableRef}
    (h : o.Assembled m map db c identityType) (plain : o.naming.affixes = [])
    (names : (m.packagedClassifiers.map fun s => (m.classifier s).name).Nodup)
    (distinct : db.tables.Nodup)
    (injective : ∀ t ∈ db.tables, ∀ u ∈ db.tables, (c.table t).source = (c.table u).source →
      t = u) :
    (primaryNames (db.keys c)).Nodup := by
  rw [Database.keys, primaryNames_flatMap, List.nodup_flatMap]
  constructor
  · intro t ht
    obtain ⟨s, _, _, nodup, _⟩ := h.mem_primaryNames plain ht
    exact nodup
  · refine distinct.imp_of_mem fun {t u} ht hu hne => ?_
    obtain ⟨s, hs, hst, _, ofTable⟩ := h.mem_primaryNames plain ht
    obtain ⟨s', hs', hsu, _, ofTable'⟩ := h.mem_primaryNames plain hu
    intro name hname hname'
    have e : "PK_" ++ (m.classifier s).name = "PK_" ++ (m.classifier s').name :=
      (ofTable name hname).symm.trans (ofTable' name hname')
    have hname : (m.classifier s).name = (m.classifier s').name := (String.append_right_inj _).mp e
    obtain rfl := List.inj_on_of_nodup_map names hs hs' hname
    exact hne (injective t ht u hu (hst.trans hsu.symm))

/-- Only the labels that could be the same need to be compared. -/
theorem nodup_keyOrigins_iff (attributes : m.AttributesNamed) (sources : List ClassifierRef) :
    ((o.keyOrigins m map sources).map (·.keyName m)).Nodup ↔ o.KeyNamesApart m map sources := by
  rw [List.Nodup, List.pairwise_map, KeyNamesApart]
  refine List.Pairwise.iff fun {x y} => ?_
  rw [ne_eq, KeyOrigin.keyName_eq_iff]
  constructor
  · exact fun h _ => h
  · intro h
    by_cases hsame : x.principal = y.principal ∧ m.Siblings x.source y.source
    · exact KeyOrigin.label_ne attributes hsame.1 hsame.2
    · exact h fun principal siblings => hsame ⟨principal, siblings⟩

/-- Where the names of classifiers and those of each classifier's attributes are different, no two
primary keys of a database have one name, and no primary key has that of a foreign key. The names of
all keys are different exactly if those foreign keys are labelled differently that do not refer to
one classifier by two attributes of one classifier. -/
theorem build_nodup_keyNames_iff (o : Options) (sqlServer : o.dialect = .sqlServer)
    (plain : o.naming.affixes = []) (m : Model)
    (names : (m.packagedClassifiers.map fun s => (m.classifier s).name).Nodup)
    (attributes : m.AttributesNamed) (c : Catalog) (db : Database) (c' : Catalog)
    (h : (o.build m c).value = .ok (db, c')) :
    ∃ map, (m.relationshipMap o.convention).value = .ok map ∧
      (primaryNames (db.keys c')).Nodup ∧
      (∀ name ∈ primaryNames (db.keys c'), name ∉ foreignNames (db.keys c')) ∧
      (((db.keys c').map (·.name)).Nodup ↔ o.KeyNamesApart m map (db.sources c')) := by
  obtain ⟨map, identityType, hmap, assembled⟩ := build_assembled sqlServer h
  obtain ⟨distinct, injective⟩ := build_injective (List.Nodup.of_map _ names) h
  have primary := assembled.nodup_primaryNames plain names distinct injective
  have foreign := assembled.foreignNames_keys plain
  have disjoint : ∀ name ∈ primaryNames (db.keys c'), name ∉ foreignNames (db.keys c') := by
    intro name hname hname'
    rw [Database.keys, primaryNames_flatMap] at hname
    obtain ⟨t, ht, hname⟩ := List.mem_flatMap.mp hname
    obtain ⟨s, _, _, _, ofTable⟩ := assembled.mem_primaryNames plain ht
    rw [foreign] at hname'
    obtain ⟨x, _, hx⟩ := List.mem_map.mp hname'
    exact x.keyName_ne_primary m _ (hx.trans (ofTable name hname))
  refine ⟨map, hmap, primary, disjoint, ?_⟩
  rw [nodup_keyNames_iff disjoint, and_iff_right primary, foreign]
  exact nodup_keyOrigins_iff attributes _

/-- A person refers to two addresses, and a firm has many persons. -/
theorem build_nodup_keyNames_roles :
    let o := of .sqlServer
    let document : ModelDocument := { name := "m", classifiers := [
      { id := "a", name := "Address", attributes := [.identity "Id" "integer"] },
      { id := "p", name := "Person", attributes := [
        .identity "Id" "integer", .of "home" "a", .of "work" "a"] },
      { id := "f", name := "Firm", attributes := [.identity "Id" "integer", .many "staff" "p"] }] }
    ∃ m db c', Model.ofDatum document.write = .ok m ∧ (o.build m {}).value = .ok (db, c') ∧
      (db.keys c').map (·.name) =
        ["PK_Address", "PK_Firm", "PK_Person", "FK_Address_home", "FK_Address_work",
          "FK_Firm_staff"] ∧
      ∃ map, (m.relationshipMap o.convention).value = .ok map ∧
        (primaryNames (db.keys c')).Nodup ∧
        (∀ name ∈ primaryNames (db.keys c'), name ∉ foreignNames (db.keys c')) ∧
        (((db.keys c').map (·.name)).Nodup ↔ o.KeyNamesApart m map (db.sources c')) := by
  intro o document
  have hrun : o.observe document (fun m db c' =>
      .ok (decide ((m.packagedClassifiers.map fun s => (m.classifier s).name).Nodup ∧
          m.AttributesNamed), (db.keys c').map Key.name)) =
      .ok (true,
          ["PK_Address", "PK_Firm", "PK_Person", "FK_Address_home", "FK_Address_work",
            "FK_Firm_staff"]) := by
    decide +kernel
  obtain ⟨m, db, c', hm, hb, hrun⟩ := observe_eq_ok.mp hrun
  obtain ⟨hnames, hkeys⟩ := Prod.mk.inj (Except.ok.inj hrun)
  obtain ⟨names, attributes⟩ := of_decide_eq_true hnames
  exact ⟨m, db, c', hm, hb, hkeys,
    build_nodup_keyNames_iff o rfl rfl m names attributes {} db c' hb⟩

/-- Two classes refer to a third by attributes of one name. -/
theorem not_nodup_keyNames_alike :
    let o := of .sqlServer
    let document : ModelDocument := { name := "m", classifiers := [
      { id := "a", name := "A", attributes := [.identity "Id" "integer"] },
      { id := "b", name := "B", attributes := [.identity "Id" "integer", .of "a" "a"] },
      { id := "c", name := "C", attributes := [.identity "Id" "integer", .of "a" "a"] }] }
    ∃ m db c', m.Loaded ∧ Model.ofDatum document.write = .ok m ∧
      (m.packagedClassifiers.map fun s => (m.classifier s).name).Nodup ∧ m.AttributesNamed ∧
      (o.build m {}).value = .ok (db, c') ∧
      (db.keys c').map (·.name) = ["PK_A", "PK_B", "FK_A_a", "PK_C", "FK_A_a"] ∧
      ¬ ((db.keys c').map (·.name)).Nodup := by
  intro o document
  have hrun : o.observe document (fun m db c' =>
      .ok (decide ((m.packagedClassifiers.map fun s => (m.classifier s).name).Nodup ∧
          m.AttributesNamed), (db.keys c').map Key.name)) =
      .ok (true, ["PK_A", "PK_B", "FK_A_a", "PK_C", "FK_A_a"]) := by
    decide +kernel
  obtain ⟨m, db, c', hm, hb, hrun⟩ := observe_eq_ok.mp hrun
  obtain ⟨hnames, hkeys⟩ := Prod.mk.inj (Except.ok.inj hrun)
  obtain ⟨names, attributes⟩ := of_decide_eq_true hnames
  refine ⟨m, db, c', .document hm, hm, names, attributes, hb, hkeys, ?_⟩
  have hrepeated : ¬ ["PK_A", "PK_B", "FK_A_a", "PK_C", "FK_A_a"].Nodup := by decide
  exact hkeys ▸ hrepeated

end Options

end Schemata
