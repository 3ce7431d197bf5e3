import Schemata.Proofs.RecordClass.Ending

/-!
# Layers of field types

What a field becomes depends on which layers its type has, and not on their order: any optional or
collection layer lets the value be absent, a collection layer allows many, a key mark on any layer
makes an identity, and two collection layers are too many. Only the width of a number depends on the
order, as it is lost in an annotation.
-/
namespace Schemata

inductive FieldLayer where
  | marked (marks : List Mark)
  | optional
  | collection (kind : Collection)
  deriving DecidableEq, Repr

namespace FieldLayer

def isMarked : FieldLayer → Bool
  | .marked _ => true
  | _ => false

def isCollection : FieldLayer → Bool
  | .collection _ => true
  | _ => false

def isVoidable : FieldLayer → Bool
  | .marked _ => false
  | .optional | .collection _ => true

def bearsKey : FieldLayer → Bool
  | .marked marks => marks.any Mark.isKey
  | _ => false

def on : FieldLayer → FieldType → FieldType
  | .marked marks, t => t.annotate marks
  | .optional, t => t.orNothing
  | .collection kind, t => .collection kind t

end FieldLayer

namespace FieldType

/-- A type under layers, of which the first is the outermost. -/
def under (layers : List FieldLayer) (base : FieldType) : FieldType :=
  layers.foldr FieldLayer.on base

variable {t base : FieldType} {seen shape : FieldShape} {layers : List FieldLayer}

/-! ## What the layers of a type say -/

def collections : FieldType → Nat
  | .annotated inner _ | .optional inner => inner.collections
  | .collection _ inner => inner.collections + 1
  | _ => 0

def isVoidable : FieldType → Bool
  | .annotated inner _ => inner.isVoidable
  | .optional _ | .collection _ _ => true
  | _ => false

def bearsKey : FieldType → Bool
  | .annotated inner marks => marks.any Mark.isKey || inner.bearsKey
  | .optional inner | .collection _ inner => inner.bearsKey
  | _ => false

def target : FieldType → FieldTarget
  | .scalar s => .primitive s.primitive
  | .sized n => .primitive n.primitive
  | .declared ref => .declared ref
  | .annotated inner _ | .optional inner | .collection _ inner => inner.target
  | _ => .unsupported

/-- A type has no shape exactly if it has more than one collection layer, those that were seen
before counted. -/
theorem shape?_eq_none_iff : t.shape? seen = none ↔
    1 < t.collections + if seen.multiplicity.upper = none then 1 else 0 := by
  induction t generalizing seen with
  | annotated inner marks ih => exact ih
  | optional inner ih => exact ih
  | collection kind inner ih =>
    rw [shape?, collections]
    by_cases h : seen.multiplicity.upper = none
    · simp [h]
    · rw [if_neg h, if_neg h, ih]
      simp
  | _ => simp only [shape?, collections]; split <;> simp

/-- The shape of a type says what its layers say, in whatever order they stand. -/
theorem shape_of_shape? (h : t.shape? seen = some shape) :
    shape.multiplicity.lower = (if t.isVoidable then 0 else seen.multiplicity.lower) ∧
      shape.multiplicity.upper = (if 0 < t.collections then none else seen.multiplicity.upper) ∧
      shape.marks.any Mark.isKey = (seen.marks.any Mark.isKey || t.bearsKey) ∧
      shape.target = t.target := by
  induction t generalizing seen with
  | annotated inner marks ih =>
    obtain ⟨lower, upper, key, target⟩ := ih h
    refine ⟨lower, upper, ?_, target⟩
    rw [key, List.any_append, bearsKey, Bool.or_assoc]
  | optional inner ih =>
    obtain ⟨lower, upper, key, target⟩ := ih h
    exact ⟨lower.trans (ite_self 0), upper, key, target⟩
  | collection kind inner ih =>
    rw [shape?] at h
    split at h
    · cases h
    · obtain ⟨lower, upper, key, target⟩ := ih h
      exact ⟨lower.trans (ite_self 0), upper.trans (ite_self none), key, target⟩
  | _ =>
    cases h
    simp [isVoidable, collections, bearsKey, target]

/-! ## Putting layers on -/

inductive Single : FieldType → Prop
  | scalar (s : Scalar) : Single (.scalar s)
  | sized (n : SizedNumber) : Single (.sized n)
  | declared (ref : DeclarationRef) : Single (.declared ref)
  | annotated (inner : FieldType) (marks : List Mark) : Single (.annotated inner marks)
  | collection (kind : Collection) (inner : FieldType) : Single (.collection kind inner)

/-- A type of one alternative, optional or not. -/
inductive Plain : FieldType → Prop
  | single {t : FieldType} (h : t.Single) : Plain t
  | optional {t : FieldType} (h : t.Single) : Plain (.optional t)

theorem Single.alternatives (h : t.Single) : t.alternatives = [t] := by cases h <;> rfl

theorem Single.ne_nothing (h : t.Single) : t ≠ .nothing := by
  rintro rfl
  cases h

theorem Single.same_nothing (h : t.Single) : t.same .nothing = false := by
  rw [same, h.alternatives]
  cases h <;> rfl

theorem Single.distinct (h : t.Single) : distinct [t, .nothing] = [t, .nothing] := by
  simp [FieldType.distinct, h.same_nothing]

theorem Single.union (h : t.Single) {types : List FieldType}
    (alternatives : FieldType.distinct (types.flatMap FieldType.alternatives) = [t, .nothing]) :
    union types = .optional t := by
  simp [FieldType.union, alternatives, h.ne_nothing, choiceOf]

theorem Single.orNothing (h : t.Single) : t.orNothing = .optional t := by
  refine h.union ?_
  rw [List.flatMap_cons, h.alternatives]
  exact h.distinct

theorem Single.orNothing_optional (h : t.Single) :
    (FieldType.optional t).orNothing = .optional t := by
  refine h.union ?_
  have types :
      [.optional t, .nothing].flatMap FieldType.alternatives = [t, .nothing] ++ [.nothing] := by
    simp [FieldType.alternatives, h.alternatives]
  rw [types, FieldType.distinct, List.foldl_append, ← FieldType.distinct, h.distinct]
  simp [show FieldType.nothing.same .nothing = true from rfl]

theorem single_annotate (h : t.Plain) (marks : List Mark) : (t.annotate marks).Single := by
  cases h with
  | single h => cases h <;> exact .annotated _ _
  | optional => exact .annotated _ _

theorem Plain.on (h : t.Plain) (layer : FieldLayer) : (layer.on t).Plain := by
  cases layer with
  | marked marks => exact .single (single_annotate h marks)
  | collection kind => exact .single (.collection kind t)
  | optional =>
    rw [FieldLayer.on]
    cases h with
    | single h => exact h.orNothing ▸ .optional h
    | optional h => exact h.orNothing_optional.symm ▸ .optional h

/-- A number loses its width in an annotation. -/
def withoutWidth : FieldType → FieldType
  | .sized n => .scalar n.scalar
  | t => t

theorem says_annotate (t : FieldType) (marks : List Mark) :
    (t.annotate marks).collections = t.collections ∧ (t.annotate marks).isVoidable = t.isVoidable ∧
      (t.annotate marks).bearsKey = (marks.any Mark.isKey || t.bearsKey) ∧
      (t.annotate marks).target = t.withoutWidth.target := by
  cases t with
  | annotated inner inherited =>
    refine ⟨rfl, rfl, ?_, rfl⟩
    simp only [FieldType.annotate, bearsKey, List.any_append]
    rw [Bool.or_comm (inherited.any _), Bool.or_assoc]
  | sized n => simp [FieldType.annotate, collections, isVoidable, bearsKey, target,
    withoutWidth, Mark.isKey]
  | _ => exact ⟨rfl, rfl, rfl, rfl⟩

theorem Plain.says_orNothing (h : t.Plain) :
    t.orNothing.collections = t.collections ∧ t.orNothing.isVoidable = true ∧
      t.orNothing.bearsKey = t.bearsKey ∧ t.orNothing.target = t.target := by
  cases h with
  | single h =>
    rw [h.orNothing]
    exact ⟨rfl, rfl, rfl, rfl⟩
  | optional h =>
    rw [h.orNothing_optional]
    exact ⟨rfl, rfl, rfl, rfl⟩

inductive Bare : FieldType → Prop
  | scalar (s : Scalar) : Bare (.scalar s)
  | sized (n : SizedNumber) : Bare (.sized n)
  | declared (ref : DeclarationRef) : Bare (.declared ref)

theorem Bare.plain_under (h : base.Bare) (layers : List FieldLayer) :
    (base.under layers).Plain := by
  induction layers with
  | nil => cases h <;> exact .single (by constructor)
  | cons layer rest ih => exact ih.on layer

theorem under_cons (base : FieldType) (layer : FieldLayer) (rest : List FieldLayer) :
    base.under (layer :: rest) = layer.on (base.under rest) := rfl

/-- What a type says is what its layers say together. -/
theorem Bare.says_under (h : base.Bare) (layers : List FieldLayer) :
    (base.under layers).collections = layers.countP FieldLayer.isCollection ∧
      (base.under layers).isVoidable = layers.any FieldLayer.isVoidable ∧
      (base.under layers).bearsKey = layers.any FieldLayer.bearsKey := by
  induction layers with
  | nil => cases h <;> exact ⟨rfl, rfl, rfl⟩
  | cons layer rest ih =>
    obtain ⟨collections, voidable, key⟩ := ih
    rw [under_cons, List.countP_cons, List.any_cons, List.any_cons, ← collections,
      ← voidable, ← key]
    cases layer with
    | marked marks =>
      obtain ⟨collections, voidable, key, _⟩ := says_annotate (base.under rest) marks
      exact ⟨collections, voidable, key⟩
    | optional =>
      obtain ⟨collections, voidable, key, _⟩ := (h.plain_under rest).says_orNothing
      exact ⟨collections, voidable, key⟩
    | collection kind => exact ⟨rfl, rfl, rfl⟩

theorem Plain.target_on (h : t.Plain) (layer : FieldLayer) :
    (layer.on t).target = if layer.isMarked then t.withoutWidth.target else t.target := by
  cases layer with
  | marked marks => exact (says_annotate t marks).2.2.2
  | optional => exact h.says_orNothing.2.2.2
  | collection kind => rfl

theorem Plain.withoutWidth_on (h : t.Plain) (layer : FieldLayer) :
    (layer.on t).withoutWidth = layer.on t := by
  cases layer with
  | marked marks => cases t <;> rfl
  | collection kind => rfl
  | optional =>
    rw [FieldLayer.on]
    cases h with
    | single h =>
      rw [h.orNothing]
      rfl
    | optional h =>
      rw [h.orNothing_optional]
      rfl

/-- A type keeps what it holds under all layers, but for a width, which an annotation directly
around it takes. -/
theorem Bare.target_under (h : base.Bare) (layers : List FieldLayer) : (base.under layers).target =
    if layers.getLast?.any FieldLayer.isMarked then base.withoutWidth.target else base.target := by
  induction layers with
  | nil => rfl
  | cons layer rest ih =>
    rw [under_cons, (h.plain_under rest).target_on]
    cases rest with
    | nil => rfl
    | cons next rest =>
      have kept : (base.under (next :: rest)).withoutWidth = base.under (next :: rest) :=
        (h.plain_under rest).withoutWidth_on next
      rw [kept, ite_self, ih, List.getLast?_cons_cons]

end FieldType

/-- Types without layers that a field can have: values, record classes and enumerations. -/
inductive Registry.Supports (r : Registry) : FieldType → Prop
  | scalar (s : Scalar) : Supports r (.scalar s)
  | sized (n : SizedNumber) : Supports r (.sized n)
  | recordClass {ref : DeclarationRef} (h : r.isRecordClass ref = true) : Supports r (.declared ref)
  | enumeration {ref : DeclarationRef} (h : (r.enumeration? ref).isSome = true) :
      Supports r (.declared ref)

namespace Registry.Supports

variable {r : Registry} {base : FieldType}

theorem bare (h : r.Supports base) : base.Bare := by
  cases h <;> constructor

theorem withoutWidth (h : r.Supports base) : r.Supports base.withoutWidth := by
  cases h with
  | scalar s => exact .scalar s
  | sized n => exact .scalar n.scalar
  | recordClass h => exact .recordClass h
  | enumeration h => exact .enumeration h

end Registry.Supports

namespace Conversion

variable {r : Registry} {s s' t : Conversion} {ref : DeclarationRef} {owner c type : ClassifierRef}
  {className name : String} {field : Field} {base : FieldType} {shape : FieldShape}

/-! ## What a field becomes -/

theorem properties_of_declare? (h : declare? r s ref = some (c, s')) :
    s'.model.properties = s.model.properties := by
  obtain ⟨blank, _, ⟨_, rfl⟩ | ⟨_, entered⟩⟩ := declare?_eq_some h
  · rfl
  · rw [(Prod.mk.inj entered).2]

theorem exists_declare? (h : r.isRecordClass ref = true ∨ (r.enumeration? ref).isSome = true) :
    ∃ c s', declare? r s ref = some (c, s') := by
  rw [declare?]
  cases hc : declareClass? r s ref with
  | some found => exact ⟨_, _, rfl⟩
  | none =>
    have plain : r.isRecordClass ref ≠ true := by
      intro record
      obtain ⟨declared, hd⟩ := Option.isSome_iff_exists.mp (Registry.isSome_class? record)
      obtain ⟨fields, hf⟩ := Option.isSome_iff_exists.mp record
      simp only [declareClass?, hd, hf] at hc
      split at hc <;> cases hc
    obtain ⟨e, he⟩ := Option.isSome_iff_exists.mp (h.resolve_left plain)
    simp only [Option.none_or, declareEnumeration?, he]
    split <;> exact ⟨_, _, rfl⟩

theorem exists_target? (h : r.Supports base) (s : Conversion) :
    ∃ type t, target? r s base.target = some (type, t) ∧
      t.model.properties = s.model.properties := by
  cases h with
  | scalar v => exact ⟨_, s, rfl, rfl⟩
  | sized n => exact ⟨_, s, rfl, rfl⟩
  | recordClass h =>
    obtain ⟨c, s', hd⟩ := exists_declare? (s := s) (.inl h)
    exact ⟨c, s', hd, properties_of_declare? hd⟩
  | enumeration h =>
    obtain ⟨c, s', hd⟩ := exists_declare? (s := s) (.inr h)
    exact ⟨c, s', hd, properties_of_declare? hd⟩

theorem addField_eq (readable : field.type.cause? = none) : addField r className owner s field =
    match field.type.shape? {} with
    | none => .error (.nestedCollection field.name className)
    | some shape =>
      match target? r s shape.target with
      | none => .error (.unsupportedField field.name className)
      | some (type, t) =>
        .ok { t with model :=
          (t.model.addAttribute owner (field.attribute shape type) none).2 } := by
  rw [addField, readable]
  cases field.type.shape? {} with
  | none => rfl
  | some shape => rfl

theorem cause?_of_plain {t : FieldType} (h : t.Plain) : t.cause? = none := by
  cases h with
  | single h => cases h <;> rfl
  | optional h => rfl

theorem exists_property_of_under (className : String) (owner : ClassifierRef) (s : Conversion)
    (name : String) (h : r.Supports base) (layers : List FieldLayer)
    (single : layers.countP FieldLayer.isCollection < 2) :
    ∃ s' p, addField r className owner s { name, type := base.under layers } = .ok s' ∧
      s'.model.properties = s.model.properties ++ [p] ∧ p.name = name ∧
      p.owner = some (.classifier owner) ∧
      p.multiplicity = { lower := if layers.any FieldLayer.isVoidable then 0 else 1
                         upper := if layers.any FieldLayer.isCollection then none else some 1 } ∧
      p.isId = layers.any FieldLayer.bearsKey ∧
      ∃ type t, target? r s (base.under layers).target = some (type, t) ∧ p.type = some type := by
  obtain ⟨collections, voidable, key⟩ := h.bare.says_under layers
  have readable := cause?_of_plain (h.bare.plain_under layers)
  have shaped : (base.under layers).shape? {} ≠ none := by
    rw [Ne, FieldType.shape?_eq_none_iff, collections]
    simpa using Nat.lt_succ_iff.mp single
  obtain ⟨shape, hshape⟩ := Option.ne_none_iff_exists'.mp shaped
  obtain ⟨lower, upper, marks, target⟩ := FieldType.shape_of_shape? hshape
  have supported : ∃ type t, target? r s (base.under layers).target = some (type, t) ∧
      t.model.properties = s.model.properties := by
    rw [h.bare.target_under]
    split
    · exact exists_target? h.withoutWidth s
    · exact exists_target? h s
  obtain ⟨type, t, ht, properties⟩ := supported
  let field : Field := { name, type := base.under layers }
  have added : addField r className owner s field =
      .ok { t with model := (t.model.addAttribute owner (field.attribute shape type) none).2 } := by
    rw [addField_eq readable, hshape]
    simp only [target, ht]
  refine ⟨_, { field.attribute shape type with
    id := t.model.attributeId owner name, owner := some (.classifier owner) },
    added, ?_, rfl, rfl, ?_, ?_, type, t, ht, rfl⟩
  · rw [← properties]
    rfl
  · have many : 0 < (base.under layers).collections ↔
        layers.any FieldLayer.isCollection = true := by
      rw [collections, List.countP_pos_iff, List.any_eq_true]
    rw [Field.attribute, ← voidable, ← lower]
    simp only [many] at upper
    exact congrArg (Multiplicity.mk shape.multiplicity.lower) upper
  · exact marks.trans (by rw [key]; rfl)

/-- A field of a supported type is refused for a second collection layer, and for nothing else. -/
theorem addField_eq_nested_iff (h : r.Supports base) (layers : List FieldLayer) :
    addField r className owner s { name, type := base.under layers } =
      .error (.nestedCollection name className) ↔ 2 ≤ layers.countP FieldLayer.isCollection := by
  constructor
  · intro refused
    by_contra single
    obtain ⟨s', p, added, _⟩ :=
      exists_property_of_under className owner s name h layers (Nat.lt_of_not_le single)
    rw [added] at refused
    cases refused
  · intro nested
    have unshaped : (base.under layers).shape? {} = none := by
      rw [FieldType.shape?_eq_none_iff, (h.bare.says_under layers).1]
      exact nested
    rw [addField_eq (cause?_of_plain (h.bare.plain_under layers)), unshaped]

/-- A field of a supported type under layers is refused exactly for a second collection layer.
Otherwise its property may be absent if a layer allows it, holds many values if there is a
collection layer, and is an identity if a layer bears a key mark, in whatever order the layers
stand. -/
theorem addField_under (r : Registry) (className : String) (owner : ClassifierRef) (s : Conversion)
    (name : String) (layers : List FieldLayer) (base : FieldType) (supported : r.Supports base) :
    (addField r className owner s { name, type := base.under layers } =
      .error (.nestedCollection name className) ↔ 2 ≤ layers.countP FieldLayer.isCollection) ∧
    (layers.countP FieldLayer.isCollection < 2 → ∃ s' p,
      addField r className owner s { name, type := base.under layers } = .ok s' ∧
      s'.model.properties = s.model.properties ++ [p] ∧ p.name = name ∧
      p.owner = some (.classifier owner) ∧
      p.multiplicity = { lower := if layers.any FieldLayer.isVoidable then 0 else 1
                         upper := if layers.any FieldLayer.isCollection then none else some 1 } ∧
      p.isId = layers.any FieldLayer.bearsKey) := by
  refine ⟨addField_eq_nested_iff supported layers, fun single => ?_⟩
  obtain ⟨s', p, added, properties, hname, howner, multiplicity, isId, _⟩ :=
    exists_property_of_under className owner s name supported layers single
  exact ⟨s', p, added, properties, hname, howner, multiplicity, isId⟩

/-- A set, marked inside and outside, that may be left out: the mark around the record class makes
an identity. -/
theorem addField_under_marked :
    let ref : DeclarationRef := ⟨"m", "A"⟩
    let r : Registry := { classes := [(ref, { name := "A", id := "m.A" })] }
    let layers : List FieldLayer :=
      [.marked [.maxLength 3], .optional, .optional, .collection .set,
        .marked [.other "x", .identity]]
    let s : Conversion := { model := Model.empty "m" }
    r.Supports (.declared ref) ∧ layers.countP FieldLayer.isCollection < 2 ∧ ∃ s' p,
      addField r "B" ⟨0⟩ s { name := "as", type := FieldType.under layers (.declared ref) } =
        .ok s' ∧
      s'.model.properties = s.model.properties ++ [p] ∧ p.multiplicity = ⟨0, none⟩ ∧
      p.isId = true := by
  intro ref r layers s
  have supported : r.Supports (.declared ref) := .recordClass rfl
  obtain ⟨s', p, added, properties, _, _, multiplicity, isId⟩ :=
    (addField_under r "B" ⟨0⟩ s "as" layers (.declared ref) supported).2 (by decide)
  exact ⟨supported, by decide, s', p, added, properties, multiplicity, isId⟩

/-! ## The width of a number -/

/-- The property of a number under layers has the primitive of its width, or of the number in
general if there is an annotation directly around it. -/
theorem property_of_sized {n : SizedNumber} (layers : List FieldLayer)
    (accepted : addField r className owner s { name, type := FieldType.under layers (.sized n) } =
      .ok s') :
    ∃ p, s'.model.properties = s.model.properties ++ [p] ∧ p.type =
      some (if layers.getLast?.any FieldLayer.isMarked then n.scalar.primitive
        else n.primitive).ref := by
  have supported : r.Supports (.sized n) := .sized n
  have single : layers.countP FieldLayer.isCollection < 2 := by
    by_contra nested
    have refused :
        addField r className owner s { name, type := FieldType.under layers (.sized n) } =
        .error (.nestedCollection name className) :=
      (addField_eq_nested_iff supported layers).mpr (Nat.le_of_not_lt nested)
    rw [refused] at accepted
    cases accepted
  obtain ⟨t, p, added, properties, _, _, _, _, type, u, target, typed⟩ :=
    exists_property_of_under className owner s name supported layers single
  obtain rfl := Except.ok.inj (added.symm.trans accepted)
  refine ⟨p, properties, typed.trans ?_⟩
  rw [supported.bare.target_under] at target
  split at target
  case isTrue marked =>
    rw [if_pos marked]
    exact congrArg (Option.map Prod.fst) target.symm
  case isFalse plain =>
    rw [if_neg plain]
    exact congrArg (Option.map Prod.fst) target.symm

/-- The property of a number under layers has the type that the number has alone exactly if its
width makes no difference, or no annotation is directly around it. -/
theorem addField_sized_iff (r : Registry) (className : String) (owner : ClassifierRef)
    (s s' : Conversion) (name : String) (layers : List FieldLayer) (n : SizedNumber)
    (accepted : addField r className owner s { name, type := FieldType.under layers (.sized n) } =
      .ok s') :
    ∃ plain p q, addField r className owner s { name, type := .sized n } = .ok plain ∧
      s'.model.properties = s.model.properties ++ [p] ∧
      plain.model.properties = s.model.properties ++ [q] ∧
      q.type = some n.primitive.ref ∧
      (p.type = q.type ↔ n ∉ [.int8, .int16, .int64, .float32] ∨
        layers.getLast?.any FieldLayer.isMarked = false) := by
  obtain ⟨p, hp, typed⟩ := property_of_sized layers accepted
  obtain ⟨plain, _, alone, _⟩ :=
    exists_property_of_under className owner s name (Registry.Supports.sized (r := r) n)
      [] (by decide)
  obtain ⟨q, hq, width⟩ := property_of_sized [] alone
  refine ⟨plain, p, q, alone, hp, hq, width, ?_⟩
  rw [typed, width]
  cases layers.getLast?.any FieldLayer.isMarked with
  | false => simp
  | true => cases n <;> decide

/-- The width stays in a list that is marked as the key. -/
theorem addField_sized_listed :
    let s : Conversion := { model := Model.empty "m" }
    let layers : List FieldLayer := [.marked [.primaryKey], .collection .list]
    let convert (type : FieldType) := addField {} "A" ⟨0⟩ s { name := "x", type }
    ∃ s' plain p q, convert (FieldType.under layers (.sized .int64)) = .ok s' ∧
      convert (.sized .int64) = .ok plain ∧
      s'.model.properties = s.model.properties ++ [p] ∧
      plain.model.properties = s.model.properties ++ [q] ∧
      q.type = some Primitive.long.ref ∧ p.type = q.type := by
  intro s layers convert
  obtain ⟨plain, p, q, alone, hp, hq, typed, same⟩ :=
    addField_sized_iff {} "A" ⟨0⟩ s _ "x" layers .int64 rfl
  exact ⟨_, plain, p, q, rfl, alone, hp, hq, typed, same.mpr (.inr rfl)⟩

/-- An integer of 64 bits that is marked as the key gets the type of an integer of 32 bits. -/
theorem not_sized_marked :
    let id : Field :=
      { name := "id", type := FieldType.under [.marked [.primaryKey]] (.sized .int64) }
    let r : Registry := { classes := [(⟨"m", "A"⟩, { name := "A", id := "m.A", fields := [id,
      { name := "plain", type := .sized .int64 }] })] }
    ∃ m p q, (r.toModel "m" [some ⟨"m", "A"⟩]).value = .ok m ∧ m.properties = [p, q] ∧
      p.name = "id" ∧ p.type = some Primitive.integer.ref ∧ q.name = "plain" ∧
      q.type = some Primitive.long.ref ∧ p.type ≠ q.type := by
  intro id r
  have hrun : (do
      let m ← (r.toModel "m" [some ⟨"m", "A"⟩]).value
      return m.properties.map fun p : Property => (p.name, p.type)) =
        .ok [("id", some Primitive.integer.ref), ("plain", some Primitive.long.ref)] := by
    decide +kernel
  obtain ⟨m, hm, hrun⟩ := bind_eq_ok.mp hrun
  obtain ⟨p, rest, hm', hp, hrest⟩ := List.map_eq_cons_iff.mp (Except.ok.inj hrun)
  obtain ⟨q, rfl, hq⟩ := List.map_eq_singleton_iff.mp hrest
  obtain ⟨hp, integer⟩ := Prod.mk.inj hp
  obtain ⟨hq, long⟩ := Prod.mk.inj hq
  exact ⟨m, p, q, hm, hm', hp, integer, hq, long, by rw [integer, long]; decide⟩

end Conversion

end Schemata
