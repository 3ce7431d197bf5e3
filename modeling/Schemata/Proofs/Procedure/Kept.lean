import Schemata.Proofs.Document.Written
import Schemata.Proofs.Procedure.Proposed
import Schemata.Proofs.Schema.Identity

/-!
# Procedures that are kept

The procedures of a database for SQL Server are what its tables propose, of each name the first. A
relationship has one update at most, and a procedure that writes rows never goes without those for
the relationships of its table, unless their names were taken before.
-/
namespace Schemata

variable {o : Options} {m : Model} {map : RelationshipMap} {c c' : Catalog} {db : Database}
  {rules : ProcedureRules} {tables : List TableRef} {t u : TableRef} {d : ProcedureDraft}
  {p q : Procedure} {key : ColumnRef} {model : ClassifierRef} {x : Proposal} {kind : ProcedureKind}
  {selection : ProcedureSelection}

namespace Database

/-- The procedures that are derived for the tables of a database, whether their names are new or
not. -/
def candidates (db : Database) (c : Catalog) (m : Model) (rules : ProcedureRules)
    (selection : ProcedureSelection) :
    List Procedure :=
  Proposal.allCandidates [] (rules.proposals m (db.draft c) selection db.tables)

structure Proposed (db : Database) (c : Catalog) (m : Model) (rules : ProcedureRules)
    (selection : ProcedureSelection) : Prop where
  distinct : (db.procedures.map (·.name)).Nodup
  /-- What comes behind a procedure of the same name is left out, and nothing else. -/
  first : db.procedures = Procedure.firstOfEachName (db.candidates c m rules selection)
  /-- Each selected kind that suits a table has its procedure among the candidates. -/
  derived : ∀ t ∈ db.tables, ∀ model, (c.table t).source = some model →
    ∀ kind ∈ selection.kindsFor m model (c.table t), kind.Suits (c.table t) →
      ∃ p ∈ db.candidates c m rules selection, p.query = kind.query ∧ p.table = t ∧
        rules.naming.procedureName m c kind.query model none = .ok p.name
  /-- A foreign key has one update at most. -/
  single : ∀ p ∈ db.procedures, ∀ q ∈ db.procedures, p.query = .updateRelationship →
    q.query = .updateRelationship → p.dependent = q.dependent → p = q
  /-- Where rows are written, each foreign key of a one-to-many relationship between tables with
  identities has its own update, or one whose name was taken before. -/
  updated : ∀ p ∈ db.procedures, p.isWriter = true → (c.table p.table).identityColumn?.isSome →
    ∀ key ∈ ResultSet.relationshipKeys c (c.table p.table),
      (c.table key.table).identityColumn?.isSome →
      ∃ model own before after, (c.table p.table).source = some model ∧
        db.candidates c m rules selection = before ++ own :: after ∧
        own.query = .updateRelationship ∧ own.table = p.table ∧ own.dependent = some key ∧
        rules.naming.procedureName m c .updateRelationship model (some key) = .ok own.name ∧
        (own ∈ db.procedures ∨ ∃ q ∈ db.procedures, q ∈ before ∧ q.name = own.name)

end Database

namespace Options

theorem deriveTables_dependents (h : (o.deriveTables m map c).value = .ok (tables, c'))
    (ht : t ∈ tables) (hu : u ∈ tables) (hkey : key ∈ (c'.table t).dependents)
    (hkey' : key ∈ (c'.table u).dependents) : t = u := by
  obtain ⟨definitions, hd, perm, _, hdependents⟩ := deriveTables_cases h
  have once : ((c.addedReferences definitions).map (·.column)).Nodup := by
    refine Catalog.nodup_addedReferences fun t ht => ?_
    obtain ⟨s, _, _, hst⟩ := defined_added hd ht
    exact (table_of_packagedTable? hst).2.2
  rw [(hdependents t (perm.mem_iff.mp ht)).2] at hkey
  rw [(hdependents u (perm.mem_iff.mp hu)).2] at hkey'
  obtain ⟨r, hr, rfl⟩ := List.mem_map.mp hkey
  obtain ⟨r', hr', same⟩ := List.mem_map.mp hkey'
  obtain ⟨hr, refers⟩ := List.mem_filter.mp hr
  obtain ⟨hr', refers'⟩ := List.mem_filter.mp hr'
  obtain rfl := List.inj_on_of_nodup_map once hr' hr same
  exact Option.some.inj ((beq_iff_eq.mp refers).symm.trans (beq_iff_eq.mp refers'))

theorem build_dependents (h : (o.build m c).value = .ok (db, c')) (ht : t ∈ db.tables)
    (hu : u ∈ db.tables) (hkey : key ∈ (c'.table t).dependents)
    (hkey' : key ∈ (c'.table u).dependents) : t = u := by
  rw [build_eq] at h
  obtain ⟨map, _, h⟩ := Logged.bind_eq_ok.mp h
  obtain ⟨linked, hl, table⟩ := buildWith_tables h
  obtain ⟨_, keys, hk⟩ := table t ht
  obtain ⟨_, keys', hk'⟩ := table u hu
  rw [hk] at hkey
  rw [hk'] at hkey'
  exact deriveTables_dependents hl ht hu hkey hkey'

/-- The finished database tells which procedures were proposed for it, and the classifiers that name
them have names. -/
theorem build_firstOfEachName (sqlServer : o.dialect = .sqlServer)
    (h : (o.build m c).value = .ok (db, c')) :
    ∃ identityType ∈ db.tableTypes, (∃ sqlType, o.identitySqlType m = .ok sqlType ∧
      (c'.table identityType).name = o.naming.simpleTableTypeName sqlType) ∧
      db.procedures =
        Procedure.firstOfEachName (db.candidates c' m (o.rules identityType) o.procedures) ∧
      ∀ t ∈ db.tables, ∀ model, (c'.table t).source = some model →
        ∀ kind ∈ o.procedures.kindsFor m model (c'.table t), kind.Suits (c'.table t) →
          (m.classifier model).name ≠ "" := by
  rw [build_eq] at h
  obtain ⟨map, hmap, h⟩ := Logged.bind_eq_ok.mp h
  obtain ⟨⟨plain, linked⟩, hp, h⟩ := Logged.bind_eq_ok.mp h
  obtain ⟨⟨tables, _⟩, hl, hp⟩ := Logged.bind_eq_ok.mp hp
  cases hp
  simp only [sqlServer] at h
  obtain ⟨keyed, identityType, tableTypes, typed, d, hk, htt, hd, rfl, rfl⟩ := complete_eq_ok h
  obtain ⟨types, mem, sqlType, hs, name⟩ := createTableTypes_eq_ok htt
  have closed := createKeys_closed hl hk (grows_createTableTypes htt)
  obtain ⟨precedes, placed, told⟩ := createProcedures_proposed ⟨closed, types.bounded, mem⟩ rfl hd
  refine ⟨identityType, placed.mem_identityType, ⟨sqlType, hs, ?_⟩,
    told _ ⟨.refl _, List.prefix_rfl⟩,
    fun t ht => ?_⟩
  · rw [precedes.grows.table (types.bounded identityType mem)]
    exact name
  · have same : d.catalog.table t = typed.table t := precedes.grows.table (closed.bounded t ht)
    rw [same]
    exact fun model hs kind hkind suits =>
      createProcedures_named ⟨closed, types.bounded, mem⟩ hd ht hs hkind suits

end Options

namespace ProcedureRules

theorem mem_proposals : x ∈ rules.proposals m d selection tables ↔ ∃ t ∈ tables, ∃ model,
    (d.catalog.table t).source = some model ∧
    ∃ kind ∈ selection.kindsFor m model (d.catalog.table t),
      rules.proposal? m d t model kind = some x := by
  simp only [proposals, proposalsOf, List.mem_flatMap]
  refine exists_congr fun t => and_congr_right fun _ => ?_
  cases (d.catalog.table t).source with
  | none => simp
  | some model => simp [List.mem_filterMap]

theorem exists_procedure (rules : ProcedureRules) (c : Catalog) (query : QueryKind) (t : TableRef)
    (parameters : List Parameter) (dependent : Option ColumnRef)
    (named : (m.classifier model).name ≠ "")
    (related : query = .updateRelationship → dependent.isSome) :
    ∃ q, rules.procedure m c query t model parameters dependent = .ok q := by
  have hn : ∃ name, rules.naming.procedureName m c query model dependent = .ok name := by
    rw [Naming.procedureName, if_neg named]
    cases query with
    | updateRelationship =>
      obtain ⟨key, rfl⟩ := Option.isSome_iff_exists.mp (related rfl)
      exact ⟨_, rfl⟩
    | _ => exact ⟨_, rfl⟩
  obtain ⟨name, hn⟩ := hn
  exact ⟨_, bind_eq_ok.mpr ⟨name, hn, rfl⟩⟩

theorem proposal?_eq_some (h : rules.proposal? m d t model kind = some x) :
    x.procedure.query = kind.query ∧ x.procedure.table = t ∧
      rules.naming.procedureName m d.catalog kind.query model none = .ok x.procedure.name ∧
      x.updates = if x.procedure.isWriter then rules.relationshipUpdates m d t model else [] := by
  rw [proposal?] at h
  split at h
  case isTrue =>
    obtain ⟨p, hp, h⟩ := Option.bind_eq_some_iff.mp h
    have named := procedureName_eq_ok (toOption_eq_some.mp hp)
    obtain ⟨name, rfl⟩ := ProcedureDraft.procedure_eq_ok (toOption_eq_some.mp hp)
    obtain rfl := Option.some.inj h
    exact ⟨rfl, rfl, named, rfl⟩
  case isFalse => cases h

theorem exists_proposal? (rules : ProcedureRules) (d : ProcedureDraft)
    (named : (m.classifier model).name ≠ "") (suits : kind.Suits (d.catalog.table t)) :
    ∃ x, rules.proposal? m d t model kind = some x := by
  have own :
      kind.query = .updateRelationship → (none : Option ColumnRef).isSome := by
        cases kind <;> decide
  obtain ⟨p, hp⟩ := exists_procedure rules d.catalog kind.query t
    (kind.parameterOptions.ofTable rules.naming m (d.catalog.table t)) none named own
  rw [proposal?, if_pos suits, hp]
  exact ⟨_, rfl⟩

theorem relationshipUpdate?_eq_some (h : rules.relationshipUpdate? m d t model key = some q) :
    rules.naming.procedureName m d.catalog .updateRelationship model (some key) = .ok q.name ∧
      q.query = .updateRelationship ∧ q.table = t ∧ q.model = some model ∧
      q.dependent = some key := by
  obtain ⟨principal, _, h⟩ := Option.bind_eq_some_iff.mp h
  obtain ⟨identity, _, h⟩ := Option.bind_eq_some_iff.mp h
  have named := procedureName_eq_ok (toOption_eq_some.mp h)
  obtain ⟨name, rfl⟩ := ProcedureDraft.procedure_eq_ok (toOption_eq_some.mp h)
  exact ⟨named, rfl, rfl, rfl, rfl⟩

section
variable (h : x ∈ rules.proposals m d selection tables)
include h

theorem exists_relationshipUpdate (hq : q ∈ x.updates) :
    ∃ t ∈ tables, ∃ model, (d.catalog.table t).source = some model ∧
      ∃ key ∈ ResultSet.relationshipKeys d.catalog (d.catalog.table t),
        rules.relationshipUpdate? m d t model key = some q := by
  obtain ⟨t, ht, model, hs, kind, _, hx⟩ := mem_proposals.mp h
  obtain ⟨_, _, _, updates⟩ := proposal?_eq_some hx
  rw [updates] at hq
  split at hq
  · obtain ⟨key, hkey, hq⟩ := List.mem_filterMap.mp hq
    exact ⟨t, ht, model, hs, key, hkey, hq⟩
  · cases hq

theorem isWriter_of_mem_updates (hq : q ∈ x.updates) : q.isWriter = false := by
  obtain ⟨t, _, model, _, key, _, hq⟩ := exists_relationshipUpdate h hq
  obtain ⟨_, query, _⟩ := relationshipUpdate?_eq_some hq
  rw [Procedure.isWriter, query]
  rfl

theorem query_of_mem_proposals : x.procedure.query ≠ .updateRelationship := by
  obtain ⟨t, _, model, _, kind, _, hx⟩ := mem_proposals.mp h
  rw [(proposal?_eq_some hx).1]
  cases kind <;> decide

/-- A proposed procedure that writes rows comes with an update for each foreign key of a one-to-many
relationship, if both tables have identities. -/
theorem exists_mem_updates (writes : x.procedure.isWriter = true)
    (principal : (identityParameter? rules.naming m (d.catalog.table x.procedure.table) 0).isSome)
    (hkey : key ∈ ResultSet.relationshipKeys d.catalog (d.catalog.table x.procedure.table))
    (identified : (d.catalog.identity? key.table).isSome) :
    ∃ model own, (d.catalog.table x.procedure.table).source = some model ∧ own ∈ x.updates ∧
      rules.relationshipUpdate? m d x.procedure.table model key = some own := by
  obtain ⟨t, _, model, hs, kind, _, hx⟩ := mem_proposals.mp h
  obtain ⟨_, rfl, named, updates⟩ := proposal?_eq_some hx
  obtain ⟨principal, hp⟩ := Option.isSome_iff_exists.mp principal
  obtain ⟨identity, hi⟩ := Option.isSome_iff_exists.mp identified
  let values :=
    rules.valuesParameter m d (rules.listTypeOf d (d.catalog.column identity).sqlType) identity
  obtain ⟨own, made⟩ := exists_procedure rules d.catalog .updateRelationship x.procedure.table
    [principal, values] (some key) (name_ne_empty named) fun _ => rfl
  have ho : rules.relationshipUpdate? m d x.procedure.table model key = some own := by
    rw [relationshipUpdate?, hp, hi]
    exact toOption_eq_some.mpr made
  refine ⟨model, own, hs, ?_, ho⟩
  rw [updates, if_pos writes]
  exact List.mem_filterMap.mpr ⟨key, hkey, ho⟩

end

end ProcedureRules

theorem Proposal.mem_allCandidates {proposals : List Proposal} {before : List Procedure}
    (h : p ∈ allCandidates before proposals) :
    ∃ x ∈ proposals, p = x.procedure ∨ p ∈ x.updates := by
  induction proposals generalizing before with
  | nil => cases h
  | cons x rest ih =>
    rcases List.mem_append.mp h with h | h
    · refine ⟨x, by simp, ?_⟩
      rcases List.mem_cons.mp h with h | h
      · exact .inl h
      · split at h
        · cases h
        · exact .inr h
    · obtain ⟨y, hy, h⟩ := ih h
      exact ⟨y, by simp [hy], h⟩

theorem Proposal.procedure_mem_allCandidates {proposals : List Proposal} {before : List Procedure}
    (h : x ∈ proposals) : x.procedure ∈ allCandidates before proposals := by
  induction proposals generalizing before with
  | nil => cases h
  | cons y rest ih =>
    rw [allCandidates, List.mem_append]
    rcases List.mem_cons.mp h with rfl | h
    · exact .inl (List.mem_cons_self ..)
    · exact .inr (ih h)

namespace ProcedureRules

/-- If a foreign key is listed with one table only, there is one update for it. -/
theorem eq_of_dependent
    (alone : ∀ t ∈ tables, ∀ u ∈ tables, ∀ key, key ∈ (d.catalog.table t).dependents →
      key ∈ (d.catalog.table u).dependents → t = u)
    (hp : p ∈ Proposal.allCandidates [] (rules.proposals m d selection tables))
    (hq : q ∈ Proposal.allCandidates [] (rules.proposals m d selection tables))
    (update : p.query = .updateRelationship) (update' : q.query = .updateRelationship)
    (same : p.dependent = q.dependent) : p = q := by
  have made {p : Procedure}
    (hp : p ∈ Proposal.allCandidates [] (rules.proposals m d selection tables))
      (update : p.query = .updateRelationship) :
      ∃ t ∈ tables, ∃ model, (d.catalog.table t).source = some model ∧
        ∃ key ∈ ResultSet.relationshipKeys d.catalog (d.catalog.table t),
          rules.relationshipUpdate? m d t model key = some p := by
    obtain ⟨x, hx, rfl | hp⟩ := Proposal.mem_allCandidates hp
    · exact absurd update (query_of_mem_proposals hx)
    · exact exists_relationshipUpdate hx hp
  obtain ⟨t, ht, model, hs, key, hkey, hp⟩ := made hp update
  obtain ⟨u, hu, model', hs', key', hkey', hq⟩ := made hq update'
  obtain ⟨_, _, _, _, dependent⟩ := relationshipUpdate?_eq_some hp
  obtain ⟨_, _, _, _, dependent'⟩ := relationshipUpdate?_eq_some hq
  obtain rfl : key = key' := by rwa [dependent, dependent', Option.some.injEq] at same
  obtain rfl := alone t ht u hu key (List.mem_filter.mp hkey).1 (List.mem_filter.mp hkey').1
  obtain rfl := Option.some.inj (hs.symm.trans hs')
  exact Option.some.inj (hp.symm.trans hq)

/-- Behind a procedure that writes rows and is kept, each relationship has its update among the
candidates. -/
theorem exists_candidate
    (hp : p ∈
      Procedure.firstOfEachName (Proposal.allCandidates [] (rules.proposals m d selection tables)))
    (writes : p.isWriter = true)
    (principal : (identityParameter? rules.naming m (d.catalog.table p.table) 0).isSome)
    (hkey : key ∈ ResultSet.relationshipKeys d.catalog (d.catalog.table p.table))
    (identified : (d.catalog.identity? key.table).isSome) :
    ∃ model own before after, (d.catalog.table p.table).source = some model ∧
      Proposal.allCandidates [] (rules.proposals m d selection tables) = before ++ own :: after ∧
      rules.relationshipUpdate? m d p.table model key = some own := by
  obtain ⟨_, front, back, split, new⟩ :=
    List.find?_eq_some_iff_append.mp (Procedure.mem_firstOfEachName.mp hp)
  have first : ¬ Procedure.Taken ([] ++ front) p.name := by
    rintro ⟨q, hq, same⟩
    simpa [same] using new q hq
  obtain ⟨x, hx, rfl, further, rfl⟩ :=
    Proposal.exists_followed (fun x hx q hq => isWriter_of_mem_updates hx hq) split writes first
  obtain ⟨model, own, hs, ho, made⟩ := exists_mem_updates hx writes principal hkey identified
  obtain ⟨earlier, later, updates⟩ := List.append_of_mem ho
  refine ⟨model, own, front ++ x.procedure :: earlier, later ++ further, hs, ?_, made⟩
  rw [split, updates]
  simp

end ProcedureRules

theorem Catalog.isSome_identity? (h : (c.table t).identityColumn?.isSome) :
    (c.identity? t).isSome := by
  rw [Table.identityColumn?, List.find?_isSome] at h
  simpa [Catalog.identity?, Table.identityPosition?] using h

namespace Options

theorem Made.isSome_identityParameter? {definition : TableDefinition} {table : Table}
    {s : ClassifierRef} {own further : List DerivedColumn}
    (made : o.Made m map definition table s own further) (h : table.identityColumn?.isSome) :
    (identityParameter? o.naming m table 0).isSome := by
  have realized := made.identityColumn?.2
  split at realized
  · rw [realized] at h
    cases h
  · obtain ⟨column, hc, identifies⟩ := realized
    simp [identityParameter?, hc, identifies.source]

/-- The procedures of a database for SQL Server are those that its tables propose: they have
distinct names, there is one update for a foreign key at most, and a procedure that writes rows
comes with those for the relationships of its table. -/
theorem build_proposed (o : Options) (sqlServer : o.dialect = .sqlServer) (m : Model) (c : Catalog)
    (db : Database) (c' : Catalog) (h : (o.build m c).value = .ok (db, c')) :
    ∃ identityType ∈ db.tableTypes, (∃ sqlType, o.identitySqlType m = .ok sqlType ∧
      (c'.table identityType).name = o.naming.simpleTableTypeName sqlType) ∧
      db.Proposed c' m (o.rules identityType) o.procedures := by
  obtain ⟨identityType, mem, named, kept, nameable⟩ := build_firstOfEachName sqlServer h
  obtain ⟨_, _, _, assembled⟩ := build_assembled sqlServer h
  have candidate {p : Procedure} (hp : p ∈ db.procedures) :
      p ∈ db.candidates c' m (o.rules identityType) o.procedures :=
    List.mem_of_find?_eq_some (Procedure.mem_firstOfEachName.mp (kept ▸ hp))
  refine ⟨identityType, mem, named, kept ▸ Procedure.nodup_firstOfEachName, kept,
    fun t ht model hs kind hk suits => ?_,
    fun p hp q hq update update' same => ?_, fun p hp writes identity key hkey identity' => ?_⟩
  · obtain ⟨x, hx⟩ := ProcedureRules.exists_proposal? (o.rules identityType) (db.draft c')
      (nameable t ht model hs kind hk suits) suits
    obtain ⟨query, table, name, _⟩ := ProcedureRules.proposal?_eq_some hx
    have proposed := ProcedureRules.mem_proposals.mpr ⟨t, ht, model, hs, kind, hk, hx⟩
    exact ⟨x.procedure, Proposal.procedure_mem_allCandidates proposed, query, table, name⟩
  · exact ProcedureRules.eq_of_dependent (fun t ht u hu key => build_dependents h ht hu)
      (candidate hp) (candidate hq) update update' same
  · obtain ⟨t, ht, origin⟩ := assembled.procedures p hp
    obtain rfl := origin.table
    obtain ⟨_, _, _, _, made⟩ := assembled.made _ ht
    obtain ⟨model, own, before, after, hs, split, update⟩ :=
      ProcedureRules.exists_candidate (kept ▸ hp) writes
      (made.isSome_identityParameter? identity) hkey (Catalog.isSome_identity? identity')
    obtain ⟨name, query, table, _, dependent⟩ := ProcedureRules.relationshipUpdate?_eq_some update
    refine ⟨model, own, before, after, hs, split, query, table, dependent, name, ?_⟩
    rw [kept]
    exact Procedure.exists_mem_firstOfEachName split

/-- The update of the relationship from `A` to `B` has the name of the update of `Abs`, which comes
first. The one from `A` to itself is asked for by the insertion and by the update of `A`. -/
theorem build_proposed_taken :
    let o := ((of .sqlServer).addProcedures .insert none).addProcedures .updateById none
    let document : ModelDocument := { name := "m", classifiers := [
      { id := "c", name := "Abs", attributes := [.identity "Id" "integer"] },
      { id := "a", name := "A", attributes := [
        .identity "Id" "integer", .many "bs" "b", .many "as" "a"] },
      { id := "b", name := "B", attributes := [.identity "Id" "integer"] }] }
    ∃ m db c' identityType, Model.ofDatum document.write = .ok m ∧
      (o.build m {}).value = .ok (db, c') ∧ db.procedures.map (·.name) =
        ["InsertAbs", "UpdateAbs", "InsertA", "UpdateAas", "UpdateA", "InsertB", "UpdateB"] ∧
      (db.candidates c' m (o.rules identityType) o.procedures).map (·.name) =
        ["InsertAbs", "UpdateAbs", "InsertA", "UpdateAas", "UpdateAbs", "UpdateA", "UpdateAas",
          "UpdateAbs", "InsertB", "UpdateB"] ∧
      db.Proposed c' m (o.rules identityType) o.procedures := by
  intro o document
  have hrun : o.observe document (fun m db c' => do
      let candidates := db.candidates c' m (o.rules ⟨3⟩) o.procedures
      return (db.tableTypes, db.procedures.map Procedure.name, candidates.map Procedure.name)) =
      .ok ([⟨3⟩],
        ["InsertAbs", "UpdateAbs", "InsertA", "UpdateAas", "UpdateA", "InsertB", "UpdateB"],
          ["InsertAbs", "UpdateAbs", "InsertA", "UpdateAas", "UpdateAbs", "UpdateA", "UpdateAas",
            "UpdateAbs", "InsertB", "UpdateB"]) := by
    decide +kernel
  obtain ⟨m, db, c', hm, hb, hrun⟩ := observe_eq_ok.mp hrun
  obtain ⟨tableTypes, hrun⟩ := Prod.mk.inj (Except.ok.inj hrun)
  obtain ⟨procedures, candidates⟩ := Prod.mk.inj hrun
  obtain ⟨identityType, mem, _, proposed⟩ := build_proposed o rfl m {} db c' hb
  have mem : identityType ∈ [TableRef.mk 3] := tableTypes ▸ mem
  obtain rfl := List.mem_singleton.mp mem
  exact ⟨m, db, c', _, hm, hb, procedures, candidates, proposed⟩

end Options

end Schemata
