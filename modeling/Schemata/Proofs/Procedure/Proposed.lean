import Schemata.Proofs.Procedure.Proposal
import Schemata.Proofs.Procedure.Selected

/-!
# Derived procedures as proposed

A derivation that goes on only adds tables and table types behind those there are, so that what a
step proposes can be told from any later draft, and from the finished database too.
-/
namespace Schemata

variable {o : Options} {m : Model} {c c' : Catalog} {rules : ProcedureRules}
  {identityType t u : TableRef} {tables : List TableRef} {d d' d₁ last : ProcedureDraft}
  {p : Procedure} {key identity : ColumnRef} {model : ClassifierRef}

namespace ProcedureRules

variable {query : QueryKind} {parameters : List Parameter}

/-- The name for a relationship only depends on the table of the foreign key. -/
theorem procedure_grows (grows : c.Grows c') (bounded : key.table.place < c.tables.length) :
    rules.procedure m c' query t model parameters (some key) =
      rules.procedure m c query t model parameters (some key) := by
  have relation : c'.relationName m key = c.relationName m key := by
    simp only [Catalog.relationName, grows.table bounded, grows.column bounded]
  cases query with
  | updateRelationship => simp only [procedure, Naming.procedureName, relation]
  | _ => rfl

theorem procedureName_eq_ok {dependent : Option ColumnRef}
    (h : rules.procedure m c query t model parameters dependent = .ok p) :
    rules.naming.procedureName m c query model dependent = .ok p.name := by
  obtain ⟨name, hn, h⟩ := bind_eq_ok.mp h
  cases h
  exact hn

theorem name_ne_empty {n : Naming} {dependent : Option ColumnRef} {name : String}
    (h : n.procedureName m c query model dependent = .ok name) :
    (m.classifier model).name ≠ "" := by
  intro nameless
  rw [Naming.procedureName, if_pos nameless] at h
  cases h

theorem procedure_none (c c' : Catalog) :
    rules.procedure m c' query t model parameters none =
      rules.procedure m c query t model parameters none := by
  cases query <;> rfl

end ProcedureRules

namespace ProcedureDraft

structure Precedes (d d' : ProcedureDraft) : Prop where
  grows : d.catalog.Grows d'.catalog
  types : d.tableTypes <+: d'.tableTypes

theorem Precedes.refl (d : ProcedureDraft) : d.Precedes d := ⟨.refl _, List.prefix_rfl⟩

theorem Precedes.trans (h : d.Precedes d₁) (h' : d₁.Precedes d') : d.Precedes d' :=
  ⟨h.grows.trans h'.grows, h.types.trans h'.types⟩

structure Placed (identityType : TableRef) (tables : List TableRef) (d : ProcedureDraft) :
    Prop where
  closed : d.catalog.Closed tables
  types : ∀ u ∈ d.tableTypes, u.place < d.catalog.tables.length
  mem_identityType : identityType ∈ d.tableTypes

/-- The second draft comes behind the first. Whatever draft comes behind both tells which procedures
the second has got. -/
structure Reaches (identityType : TableRef) (tables : List TableRef) (d d' : ProcedureDraft)
    (effect : ProcedureDraft → List Procedure → List Procedure) : Prop where
  precedes : d.Precedes d'
  placed : d'.Placed identityType tables
  procedures : ∀ last, d'.Precedes last → d'.procedures = effect last d.procedures

section
variable {effect further : ProcedureDraft → List Procedure → List Procedure}

theorem Placed.reaches (h : d.Placed identityType tables) :
    d.Reaches identityType tables d fun _ procedures => procedures :=
  ⟨.refl d, h, fun _ _ => rfl⟩

theorem Reaches.trans (h : d.Reaches identityType tables d₁ effect)
    (h' : d₁.Reaches identityType tables d' further) :
    d.Reaches identityType tables d' fun last procedures =>
      further last (effect last procedures) := by
  refine ⟨h.precedes.trans h'.precedes, h'.placed, fun last later => ?_⟩
  rw [h'.procedures last later, h.procedures last (h'.precedes.trans later)]

/-- The effect only matters for what comes behind the second draft. -/
theorem Reaches.congr (h : d.Reaches identityType tables d' effect)
    (same : ∀ last, d'.Precedes last → further last d.procedures = effect last d.procedures) :
    d.Reaches identityType tables d' further :=
  ⟨h.precedes, h.placed, fun last later => (h.procedures last later).trans (same last later).symm⟩

end

theorem Placed.foldlM {α : Type} {step : ProcedureDraft → α → Logged ProcedureDraft} {xs : List α}
    {effect : ProcedureDraft → List Procedure → α → List Procedure}
    (h : d.Placed identityType tables)
    (reaches : ∀ d₁ x d₂, x ∈ xs → d₁.Placed identityType tables → (step d₁ x).value = .ok d₂ →
      d₁.Reaches identityType tables d₂ fun last procedures => effect last procedures x)
    (ok : (xs.foldlM step d).value = .ok d') :
    d.Reaches identityType tables d' fun last procedures => xs.foldl (effect last) procedures := by
  induction xs generalizing d with
  | nil =>
    cases ok
    exact h.reaches
  | cons x xs ih =>
    rw [List.foldlM_cons] at ok
    obtain ⟨d₁, hx, ok⟩ := Logged.bind_eq_ok.mp ok
    have first := reaches d x d₁ (by simp) h hx
    exact first.trans (ih first.placed (fun d₁ y d₂ hy => reaches d₁ y d₂ (by simp [hy])) ok)

theorem isSome_find? {name : String} :
    (d.find? name).isSome ↔ Procedure.Taken d.procedures name := by
  simp [find?, Procedure.Taken, List.find?_isSome]

theorem add_eq_offer {added : Bool} (ok : (d.add p).value = .ok (added, d')) :
    d' = { d with procedures := Procedure.offer d.procedures p } ∧
      (added = true ↔ ¬ Procedure.Taken d.procedures p.name) := by
  rw [ProcedureDraft.add] at ok
  rw [Procedure.offer]
  split at ok
  case isTrue taken =>
    cases ok
    rw [isSome_find?] at taken
    exact ⟨by rw [if_pos taken], by simpa using taken⟩
  case isFalse new =>
    cases ok
    rw [isSome_find?] at new
    exact ⟨by rw [if_neg new], by simpa using new⟩

theorem Placed.add {added : Bool} (h : d.Placed identityType tables)
    (ok : (d.add p).value = .ok (added, d')) :
    d.Reaches identityType tables d' fun _ procedures => Procedure.offer procedures p := by
  obtain ⟨rfl, _⟩ := add_eq_offer ok
  exact ⟨⟨.refl _, List.prefix_rfl⟩, ⟨h.closed, h.types, h.mem_identityType⟩, fun _ _ => rfl⟩

theorem Placed.find?_congr {name : String} (h : d.Placed identityType tables)
    (later : d.Precedes last) :
    (d.tableTypes.find? fun u => (last.catalog.table u).name == name) =
      d.tableTypes.find? fun u => (d.catalog.table u).name == name := by
  rw [← List.head?_filter, ← List.head?_filter]
  exact congrArg List.head? (List.filter_congr fun u hu => by rw [later.grows.table (h.types u hu)])

def withType (d : ProcedureDraft) (table : Table) : ProcedureDraft :=
  { d with
    catalog := (d.catalog.add table).2
    tableTypes := d.tableTypes ++ [(d.catalog.add table).1] }

theorem precedes_withType (d : ProcedureDraft) (table : Table) : d.Precedes (d.withType table) :=
  ⟨Catalog.grows_add _ _, List.prefix_append _ _⟩

theorem Placed.withType (h : d.Placed identityType tables) (table : Table) :
    (d.withType table).Placed identityType tables := by
  have grows := (d.precedes_withType table).grows
  refine ⟨h.closed.grows grows, fun u hu => ?_, List.mem_append_left _ h.mem_identityType⟩
  rcases List.mem_append.mp hu with hu | hu
  · exact grows.lt_length (h.types u hu)
  · rw [List.mem_singleton.mp hu]
    simp [ProcedureDraft.withType, Catalog.add]

theorem Placed.find?_withType {table : Table} (h : d.Placed identityType tables)
    (missing : (d.tableTypes.find? fun u => (d.catalog.table u).name == table.name) = none)
    (later : (d.withType table).Precedes last) :
    (last.tableTypes.find? fun u => (last.catalog.table u).name == table.name) =
      some (d.catalog.add table).1 := by
  have before := (h.find?_congr (d.precedes_withType table)).trans missing
  have self : (d.withType table).catalog.table (d.catalog.add table).1 = table :=
    Catalog.table_add_self _ _
  refine later.types.find?_eq_some ?_
  rw [(h.withType table).find?_congr later]
  rw [ProcedureDraft.withType] at before self ⊢
  rw [List.find?_append, before, Option.none_or, List.find?_singleton, self, beq_self_eq_true]
  rfl

theorem Placed.simpleTableTypeFor (h : d.Placed identityType tables)
    (ok : (o.simpleTableTypeFor m d identity).value = .ok (u, d')) :
    (d.Reaches identityType tables d' fun _ procedures => procedures) ∧
      ∀ last, d'.Precedes last → (last.tableTypes.find? fun u => (last.catalog.table u).name ==
        o.naming.simpleTableTypeName (d.catalog.column identity).sqlType) = some u := by
  obtain ⟨table, ht, ok⟩ := Logged.bind_eq_ok.mp ok
  have name : table.name = o.naming.simpleTableTypeName (d.catalog.column identity).sqlType :=
    (Options.hasShape_of_simpleTableType (Logged.lift_eq_ok.mp ht)).name
  rw [← name]
  split at ok
  case h_1 v found =>
    cases ok
    refine ⟨h.reaches, fun last later => later.types.find?_eq_some ?_⟩
    rw [h.find?_congr later]
    exact found
  case h_2 missing =>
    cases ok
    exact ⟨⟨d.precedes_withType table, h.withType table, fun _ _ => rfl⟩,
      fun last later => h.find?_withType missing later⟩

/-- The table type for a list is the one that any later draft tells. -/
theorem Placed.listType (h : d.Placed identityType tables)
    (ok : ((o.rules identityType).listType m d identity).value = .ok (u, d')) :
    (d.Reaches identityType tables d' fun _ procedures => procedures) ∧ u ∈ d'.tableTypes ∧
      ∀ last, d'.Precedes last →
        (o.rules identityType).listTypeOf last (d.catalog.column identity).sqlType = u := by
  have fitting (last : ProcedureDraft) (later : d.Precedes last) :
      last.catalog.table identityType = d.catalog.table identityType :=
    later.grows.table (h.types _ h.mem_identityType)
  rw [ProcedureRules.listType] at ok
  split at ok
  case isTrue fits =>
    cases ok
    refine ⟨h.reaches, h.mem_identityType, fun last later => ?_⟩
    simp only [ProcedureRules.listTypeOf, Options.rules, fitting last later]
    exact if_pos fits
  case isFalse misfits =>
    obtain ⟨reached, found⟩ := h.simpleTableTypeFor ok
    refine ⟨reached, List.mem_of_find?_eq_some (found d' (.refl d')), fun last later => ?_⟩
    simp only [ProcedureRules.listTypeOf, Options.rules,
      fitting last (reached.precedes.trans later), found last later]
    exact if_neg misfits

theorem Placed.listParameter {q : Parameter} (h : d.Placed identityType tables)
    (bounded : identity.table.place < d.catalog.tables.length)
    (ok : ((o.rules identityType).listParameter m d identity 1).value = .ok (q, d')) :
    (d.Reaches identityType tables d' fun _ procedures => procedures) ∧
      ∀ last, d'.Precedes last → (o.rules identityType).valuesParameter m last
        ((o.rules identityType).listTypeOf last (last.catalog.column identity).sqlType) identity =
          q := by
  obtain ⟨⟨u, d₁⟩, hu, ok⟩ := Logged.bind_eq_ok.mp ok
  cases ok
  obtain ⟨reached, mem, told⟩ := h.listType hu
  refine ⟨reached, fun last later => ?_⟩
  have same := reached.precedes.grows.column bounded
  have kept : last.catalog.column identity = d'.catalog.column identity :=
    later.grows.column (reached.precedes.grows.lt_length bounded)
  rw [kept, same, told last later]
  simp only [ProcedureRules.valuesParameter, kept, same,
    later.grows.table (reached.placed.types u mem)]

/-- An update of a relationship adds the procedure that any later draft tells, if there is one. -/
theorem Placed.addRelationshipUpdate (h : d.Placed identityType tables) (ht : t ∈ tables)
    (hkey : key.table ∈ tables)
    (ok : (d.addRelationshipUpdate (o.rules identityType) m t model key).value = .ok d') :
    d.Reaches identityType tables d' fun last procedures =>
      ((o.rules identityType).relationshipUpdate? m last t model key).toList.foldl Procedure.offer
        procedures := by
  have table (last : ProcedureDraft) (later : d.Precedes last) :
      last.catalog.table t = d.catalog.table t :=
    later.grows.table (h.closed.bounded t ht)
  have bounded := h.closed.bounded _ hkey
  rw [ProcedureDraft.addRelationshipUpdate] at ok
  split at ok
  case h_1 unnamed =>
    cases ok
    refine h.reaches.congr fun last later => ?_
    rw [ProcedureRules.relationshipUpdate?, table last later, unnamed]
    rfl
  case h_2 principal named unidentified =>
    cases ok
    refine h.reaches.congr fun last later => ?_
    rw [ProcedureRules.relationshipUpdate?, table last later, named, later.grows.identity? bounded,
      unidentified]
    rfl
  case h_3 principal identity named identified =>
    obtain ⟨⟨values, d₁⟩, hv, ok⟩ := Logged.bind_eq_ok.mp ok
    obtain ⟨p, hp, ok⟩ := Logged.bind_eq_ok.mp ok
    have hp := Logged.lift_eq_ok.mp hp
    have owner : identity.table = key.table := Catalog.table_of_identity? identified
    obtain ⟨listed, told⟩ := h.listParameter (owner ▸ bounded) hv
    have proposed (last : ProcedureDraft) (later : d₁.Precedes last) :
        (o.rules identityType).relationshipUpdate? m last t model key = some p := by
      have after := listed.precedes.trans later
      rw [ProcedureRules.relationshipUpdate?, table last after, named,
        after.grows.identity? bounded, identified]
      simp only [Option.bind_eq_bind, Option.bind_some, told last later]
      rw [ProcedureRules.procedure_grows later.grows (listed.precedes.grows.lt_length bounded), hp]
      rfl
    -- A procedure that is asked for again has its name already, so that offering it changes
    -- nothing.
    have offered :
        d₁.Reaches identityType tables d' fun _ procedures => Procedure.offer procedures p := by
      split at ok
      case isTrue repeated =>
        cases ok
        obtain ⟨existing, found, _⟩ := (Option.any_eq_true _ _).mp repeated
        have taken : Procedure.Taken d'.procedures p.name := isSome_find?.mp (by rw [found]; rfl)
        exact listed.placed.reaches.congr fun _ _ => if_pos taken
      case isFalse =>
        obtain ⟨⟨added, d₂⟩, ha, ok⟩ := Logged.bind_eq_ok.mp ok
        cases ok
        exact listed.placed.add ha
    refine (listed.trans offered).congr fun last later => ?_
    rw [proposed last (offered.precedes.trans later)]
    rfl

theorem Placed.addWriter (h : d.Placed identityType tables) (ht : t ∈ tables)
    (ok : (d.addWriter (o.rules identityType) m p t model).value = .ok d') :
    d.Reaches identityType tables d' fun last procedures =>
      Proposal.enter procedures ⟨p, (o.rules identityType).relationshipUpdates m last t model⟩ := by
  obtain ⟨⟨added, d₁⟩, ha, ok⟩ := Logged.bind_eq_ok.mp ok
  have offered := h.add ha
  obtain ⟨_, new⟩ := add_eq_offer ha
  cases added with
  | false =>
    cases ok
    have taken : Procedure.Taken d.procedures p.name := by simpa using new
    refine offered.congr fun last later => ?_
    rw [Proposal.enter, Procedure.offer, if_pos taken, if_pos taken]
  | true =>
    have new : ¬ Procedure.Taken d.procedures p.name := by simpa using new
    have followed := offered.placed.foldlM
      (fun d₁ key d₂ hkey h ok =>
        h.addRelationshipUpdate ht (offered.placed.closed.owner ht hkey) ok) ok
    refine (offered.trans followed).congr fun last later => ?_
    have keys := offered.placed.closed.relationshipKeys (followed.precedes.trans later).grows ht
    rw [Proposal.enter, if_neg new, Procedure.offer, if_neg new,
      ProcedureRules.relationshipUpdates, keys,
      List.filterMap_eq_flatMap_toList, List.foldl_flatMap]

def Named (rules : ProcedureRules) (m : Model) (d : ProcedureDraft) (t : TableRef)
    (model : ClassifierRef) (kind : ProcedureKind) (p : Procedure) : Prop :=
  rules.procedure m d.catalog kind.query t model
    (kind.parameterOptions.ofTable rules.naming m (d.catalog.table t)) none = .ok p

section
variable {kind : ProcedureKind}

theorem exists_named (kind : ProcedureKind) {make : Procedure → Logged ProcedureDraft}
    (ok : (do
      let parameters ← kind.parameterOptions.parameters rules.naming m (d.catalog.table t) fun _ =>
        true
      let p ← rules.procedure m d.catalog kind.query t model parameters none
      make p : Logged _).value = .ok d') :
    ∃ name, let p : Procedure :=
        { name, query := kind.query, model := some model, table := t
          parameters := kind.parameterOptions.ofTable rules.naming m (d.catalog.table t) }
      Named rules m d t model kind p ∧ (make p).value = .ok d' := by
  obtain ⟨parameters, hc, ok⟩ := Logged.bind_eq_ok.mp ok
  obtain ⟨p, hp, ok⟩ := Logged.bind_eq_ok.mp ok
  rw [ParameterOptions.parameters_value] at hc
  obtain rfl := Except.ok.inj hc
  have hp := Logged.lift_eq_ok.mp hp
  obtain ⟨name, rfl⟩ := procedure_eq_ok hp
  exact ⟨name, hp, ok⟩

theorem suits_of_identity (kind : ProcedureKind) {query : QueryKind} {make : Logged ProcedureDraft}
    (byId : kind ≠ .insert)
    (ok : (do if ← d.requireIdentity t query then make else return d : Logged _).value = .ok d') :
    ¬ kind.Suits (d.catalog.table t) ∧ d' = d ∨ kind.Suits (d.catalog.table t) ∧
    make.value = .ok d' := by
  have suits : kind.Suits (d.catalog.table t) ↔ (d.catalog.table t).identityColumn?.isSome :=
    or_iff_right byId
  rw [suits]
  exact eq_or_identity ok

theorem addKind_eq_ok (ok : (d.addKind rules m t model kind).value = .ok d') :
    ¬ kind.Suits (d.catalog.table t) ∧ d' = d ∨
      kind.Suits (d.catalog.table t) ∧ ∃ p, Named rules m d t model kind p ∧
        let added : Procedure := { p with resultSets := rules.resultSets m d t kind }
        if p.isWriter then (d.addWriter rules m added t model).value = .ok d'
        else ∃ new, (d.add added).value = .ok (new, d') := by
  cases kind with
  | insert =>
    obtain ⟨name, named, ok⟩ := exists_named .insert ok
    exact .inr ⟨.inl rfl, _, named, ok⟩
  | updateById =>
    rcases suits_of_identity .updateById (by decide) ok with missing | ⟨suits, ok⟩
    · exact .inl missing
    obtain ⟨name, named, ok⟩ := exists_named .updateById ok
    exact .inr ⟨suits, _, named, ok⟩
  | selectById =>
    rcases suits_of_identity .selectById (by decide) ok with missing | ⟨suits, ok⟩
    · exact .inl missing
    obtain ⟨name, named, ok⟩ := exists_named .selectById ok
    obtain ⟨⟨new, d₁⟩, ha, ok⟩ := Logged.bind_eq_ok.mp ok
    cases ok
    exact .inr ⟨suits, _, named, new, ha⟩
  | deleteById =>
    rcases suits_of_identity .deleteById (by decide) ok with missing | ⟨suits, ok⟩
    · exact .inl missing
    obtain ⟨name, named, ok⟩ := exists_named .deleteById ok
    obtain ⟨⟨new, d₁⟩, ha, ok⟩ := Logged.bind_eq_ok.mp ok
    cases ok
    exact .inr ⟨suits, _, named, new, ha⟩

theorem Placed.addKind (h : d.Placed identityType tables) (ht : t ∈ tables)
    (ok : (d.addKind (o.rules identityType) m t model kind).value = .ok d') :
    d.Reaches identityType tables d' fun last procedures =>
      ((o.rules identityType).proposal? m last t model kind).toList.foldl Proposal.enter
        procedures := by
  have table (last : ProcedureDraft) (later : d.Precedes last) :
      last.catalog.table t = d.catalog.table t :=
    later.grows.table (h.closed.bounded t ht)
  rcases addKind_eq_ok ok with ⟨unsuited, rfl⟩ | ⟨suits, p, named, ok⟩
  · refine h.reaches.congr fun last later => ?_
    rw [ProcedureRules.proposal?, table last later, if_neg unsuited]
    rfl
  have proposed (last : ProcedureDraft) (later : d.Precedes last) :
      (o.rules identityType).proposal? m last t model kind = some {
        procedure := { p with resultSets := (o.rules identityType).resultSets m d t kind }
        updates :=
          if p.isWriter then (o.rules identityType).relationshipUpdates m last t model
            else [] } := by
    have rows : (o.rules identityType).resultSets m last t kind =
        (o.rules identityType).resultSets m d t kind := by
      simp only [ProcedureRules.resultSets, ResultSet.ofTable_grows h.closed later.grows ht]
    rw [ProcedureRules.proposal?, rows, table last later, if_pos suits,
      ProcedureRules.procedure_none d.catalog, named]
    rfl
  by_cases writes : p.isWriter = true
  · rw [if_pos writes] at ok
    have reached := h.addWriter ht ok
    refine reached.congr fun last later => ?_
    rw [proposed last (reached.precedes.trans later), if_pos writes]
    rfl
  · rw [if_neg writes] at ok
    obtain ⟨new, ok⟩ := ok
    have reached := h.add ok
    refine reached.congr fun last later => ?_
    rw [proposed last (reached.precedes.trans later), if_neg writes]
    rfl

end

/-- The selected procedures of a table are added as any later draft proposes them. -/
theorem Placed.addTable {selection : ProcedureSelection} (h : d.Placed identityType tables)
    (ht : t ∈ tables) (ok : (d.addTable (o.rules identityType) m selection t).value = .ok d') :
    d.Reaches identityType tables d' fun last procedures =>
      ((o.rules identityType).proposalsOf m last selection t).foldl Proposal.enter procedures := by
  have table (last : ProcedureDraft) (later : d.Precedes last) :
      last.catalog.table t = d.catalog.table t :=
    later.grows.table (h.closed.bounded t ht)
  rw [ProcedureDraft.addTable] at ok
  split at ok
  case h_1 none =>
    cases ok
    refine h.reaches.congr fun last later => ?_
    rw [ProcedureRules.proposalsOf, table last later, none]
    rfl
  case h_2 model hs =>
    split at ok
    case isTrue => cases ok
    case isFalse =>
      have reached := h.foldlM (fun d₁ kind d₂ _ h ok => h.addKind ht ok) ok
      refine reached.congr fun last later => ?_
      rw [ProcedureRules.proposalsOf, table last (reached.precedes.trans later)]
      simp only [hs]
      rw [List.filterMap_eq_flatMap_toList, List.foldl_flatMap]
      rfl

theorem Placed.named_of_addTable {selection : ProcedureSelection} {kind : ProcedureKind}
    (h : d.Placed identityType tables) (ht : t ∈ tables)
    (ok : (d.addTable (o.rules identityType) m selection t).value = .ok d')
    (hs : (d.catalog.table t).source = some model)
    (hkind : kind ∈ selection.kindsFor m model (d.catalog.table t))
    (suits : kind.Suits (d.catalog.table t)) : (m.classifier model).name ≠ "" := by
  rw [ProcedureDraft.addTable] at ok
  simp only [hs] at ok
  split at ok
  case isTrue => cases ok
  case isFalse =>
    obtain ⟨d₁, d₂, ⟨placed, precedes⟩, ok⟩ := Logged.exists_step_of_foldlM
      (P := fun d₁ => d₁.Placed identityType tables ∧ d.Precedes d₁) ok ⟨h, .refl d⟩
      (fun d₁ kind d₂ _ kept ok =>
        have reached := kept.1.addKind ht ok
        ⟨reached.placed, kept.2.trans reached.precedes⟩) hkind
    rw [← precedes.grows.table (h.closed.bounded t ht)] at suits
    rcases addKind_eq_ok ok with ⟨unsuited, _⟩ | ⟨_, p, made, _⟩
    · exact absurd suits unsuited
    · exact ProcedureRules.name_ne_empty (ProcedureRules.procedureName_eq_ok made)

end ProcedureDraft

namespace Options

/-- The procedures of tables are those that the tables and the table types propose in the end, of
each name the first. -/
theorem createProcedures_proposed (h : d.Placed identityType tables) (none : d.procedures = [])
    (ok : (o.createProcedures m identityType tables d).completed.value = .ok d') :
    d.Precedes d' ∧ d'.Placed identityType tables ∧ ∀ last, d'.Precedes last → d'.procedures =
      Procedure.firstOfEachName (Proposal.allCandidates []
        ((o.rules identityType).proposals m last o.procedures tables)) := by
  rw [createProcedures, Progress.completed_walk] at ok
  have reached := h.foldlM (fun d₁ t d₂ ht h ok => h.addTable ht ok) ok
  refine ⟨reached.precedes, reached.placed, fun last later => ?_⟩
  rw [reached.procedures last later, none, ProcedureRules.proposals, ← List.foldl_flatMap]
  exact Proposal.foldl_enter []

theorem createProcedures_named {kind : ProcedureKind} (h : d.Placed identityType tables)
    (ok : (o.createProcedures m identityType tables d).completed.value = .ok d') (ht : t ∈ tables)
    (hs : (d.catalog.table t).source = some model)
    (hkind : kind ∈ o.procedures.kindsFor m model (d.catalog.table t))
    (suits : kind.Suits (d.catalog.table t)) :
    (m.classifier model).name ≠ "" := by
  rw [createProcedures, Progress.completed_walk] at ok
  obtain ⟨d₁, d₂, ⟨placed, precedes⟩, ok⟩ := Logged.exists_step_of_foldlM
    (P := fun d₁ => d₁.Placed identityType tables ∧ d.Precedes d₁) ok ⟨h, .refl d⟩
    (fun d₁ t d₂ ht kept ok =>
      have reached := kept.1.addTable ht ok
      ⟨reached.placed, kept.2.trans reached.precedes⟩) ht
  rw [← precedes.grows.table (h.closed.bounded t ht)] at hs hkind suits
  exact placed.named_of_addTable ht ok hs hkind suits

end Options

end Schemata
