import Mathlib.Data.List.Perm.Subperm
import Schemata.Proofs.Outcome
import Schemata.RecordClass.Convert

/-!
# The conversion of record classes ends

The loop over the declared classes adds to the list that it walks, and it has no bound of its own.
It ends because each class is declared once, so that a bound by the number of classes is never
reached.
-/
namespace Schemata

variable {r : Registry} {ref : DeclarationRef}

theorem isSome_lookup_of_fieldsAmong {classes : List (DeclarationRef × RecordClass)}
    (h : (fieldsAmong classes ref).isSome) : (classes.lookup ref).isSome := by
  induction classes with
  | nil => simp [fieldsAmong] at h
  | cons entry earlier ih =>
    obtain ⟨declared, c⟩ := entry
    rw [List.lookup_cons]
    by_cases hd : declared = ref
    · simp [hd]
    · rw [fieldsAmong, if_neg hd] at h
      rw [beq_false_of_ne (Ne.symm hd)]
      exact ih h

namespace Registry

def isRecordClass (r : Registry) (ref : DeclarationRef) : Bool := (r.fields? ref).isSome

theorem isSome_class? (h : r.isRecordClass ref = true) : (r.class? ref).isSome :=
  isSome_lookup_of_fieldsAmong h

/-- The classifier of a declaration before its fields are added. -/
def blank? (r : Registry) (ref : DeclarationRef) : Option Classifier :=
  if r.isRecordClass ref then (r.class? ref).map fun c => { id := c.id, name := c.name }
  else (r.enumeration? ref).map fun e =>
    { id := e.id, name := e.name, kind := .enumeration, base := some e.primitive.ref }

end Registry

def Field.attribute (field : Field) (shape : FieldShape) (type : ClassifierRef) : Property :=
  { name := field.name
    type := some type
    multiplicity := shape.multiplicity
    isId := shape.marks.any Mark.isKey
    facets := Facets.ofMarks shape.marks }

namespace Conversion

variable {s s' : Conversion} {c owner : ClassifierRef} {className : String} {field : Field}

/-! ## What the steps do -/

/-- The classifier of a declaration of either sort. -/
def declare? (r : Registry) (s : Conversion) (ref : DeclarationRef) :
    Option (ClassifierRef × Conversion) :=
  (declareClass? r s ref).or (declareEnumeration? r s ref)

/-- The declarations met so far that are of one sort with a given one. -/
def entries (r : Registry) (s : Conversion) (ref : DeclarationRef) :
    List (DeclarationRef × ClassifierRef) :=
  if r.isRecordClass ref then s.classes else s.enumerations

def enter (r : Registry) (s : Conversion) (ref : DeclarationRef) (blank : Classifier) :
    ClassifierRef × Conversion :=
  let (c, model) := s.model.createClassifier blank.name blank.kind blank.base (some blank.id)
  (c, { model
        classes := if r.isRecordClass ref then s.classes ++ [(ref, c)] else s.classes
        enumerations :=
          if r.isRecordClass ref then s.enumerations else s.enumerations ++ [(ref, c)] })

theorem fst_enter (blank : Classifier) : (s.enter r ref blank).1 =
    (s.model.createClassifier blank.name blank.kind blank.base (some blank.id)).1 := rfl

theorem model_enter (blank : Classifier) : (s.enter r ref blank).2.model =
    (s.model.createClassifier blank.name blank.kind blank.base (some blank.id)).2 := rfl

theorem declare?_eq_some (h : declare? r s ref = some (c, s')) :
    ∃ blank, r.blank? ref = some blank ∧ ((s.entries r ref).lookup ref = some c ∧ s' = s ∨
      (s.entries r ref).lookup ref = none ∧ (c, s') = s.enter r ref blank) := by
  cases hr : r.isRecordClass ref with
  | true =>
    obtain ⟨declared, hc⟩ := Option.isSome_iff_exists.mp (Registry.isSome_class? hr)
    obtain ⟨fields, hf⟩ := Option.isSome_iff_exists.mp hr
    simp only [declare?, declareClass?, hc, hf] at h
    have hblank : r.blank? ref = some { id := declared.id, name := declared.name } := by
      simp [Registry.blank?, hr, hc]
    refine ⟨_, hblank, ?_⟩
    simp only [entries, enter, hr, if_true]
    cases hl : s.classes.lookup ref with
    | some known =>
      rw [hl] at h
      obtain ⟨rfl, rfl⟩ := Prod.mk.inj (Option.some.inj h)
      exact .inl ⟨rfl, rfl⟩
    | none =>
      rw [hl] at h
      exact .inr ⟨rfl, (Option.some.inj h).symm⟩
  | false =>
    have hf : r.fields? ref = none :=
      Option.not_isSome_iff_eq_none.mp (by simpa [Registry.isRecordClass] using hr)
    have hclass : declareClass? r s ref = none := by
      simp only [declareClass?, hf]
      cases r.class? ref <;> rfl
    rw [declare?, hclass, Option.none_or, declareEnumeration?] at h
    cases he : r.enumeration? ref with
    | none => simp [he] at h
    | some e =>
      rw [he] at h
      have hblank : r.blank? ref = some
          { id := e.id, name := e.name, kind := .enumeration, base := some e.primitive.ref } := by
        simp [Registry.blank?, hr, he]
      refine ⟨_, hblank, ?_⟩
      simp only [entries, enter, hr, Bool.false_eq_true, if_false]
      cases hl : s.enumerations.lookup ref with
      | some known =>
        simp only [hl] at h
        obtain ⟨rfl, rfl⟩ := Prod.mk.inj (Option.some.inj h)
        exact .inl ⟨rfl, rfl⟩
      | none =>
        simp only [hl] at h
        exact .inr ⟨rfl, (Option.some.inj h).symm⟩

theorem declareClass?_eq_some (h : declareClass? r s ref = some (c, s')) :
    r.isRecordClass ref = true ∧ declare? r s ref = some (c, s') := by
  refine ⟨?_, by rw [declare?, h]; rfl⟩
  rw [declareClass?] at h
  split at h
  case h_1 hf => simp [Registry.isRecordClass, hf]
  case h_2 => cases h

theorem addField_eq_ok (h : addField r className owner s field = .ok s') :
    ∃ shape type t, field.type.shape? {} = some shape ∧ target? r s shape.target = some (type, t) ∧
      s' = { t with model :=
        (t.model.addAttribute owner (field.attribute shape type) none).2 } := by
  rw [addField] at h
  split at h
  case h_1 => cases h
  case h_2 => cases h
  case h_3 shape _ hshape =>
    split at h
    case h_1 => cases h
    case h_2 type t htarget =>
      cases h
      exact ⟨shape, type, t, hshape, htarget, rfl⟩

/-! ## The loop -/

/-- The loop from a position on, which ends with an outcome: it is past the last declared class, a
class cannot be converted, or it goes on behind a class that was converted. -/
inductive Ends (r : Registry) : Nat → Conversion → Logged Conversion → Prop
  | past {position : Nat} {s : Conversion} (h : s.classes.length ≤ position) :
    Ends r position s (return s)
  | fault {position : Nat} {s : Conversion} {declared : DeclarationRef × ClassifierRef} {e : Fault}
    (here : s.classes[position]? = some declared)
      (stopped : (convertClass r s declared).value = .error e) :
    Ends r position s ⟨(convertClass r s declared).log, .error e⟩
  | turn {position : Nat} {s s' : Conversion} {declared : DeclarationRef × ClassifierRef}
    {outcome : Logged Conversion} (here : s.classes[position]? = some declared)
    (converted : (convertClass r s declared).value = .ok s')
      (rest : Ends r (position + 1) s' outcome) :
    Ends r position s ⟨(convertClass r s declared).log ++ outcome.log, outcome.value⟩

structure Once (r : Registry) (s : Conversion) : Prop where
  distinct : (s.classes.map Prod.fst).Nodup
  record : ∀ ref ∈ s.classes.map Prod.fst, r.isRecordClass ref = true

theorem Once.length_le (h : Once r s) : s.classes.length ≤ r.classes.length := by
  have hsub : s.classes.map Prod.fst ⊆ r.classes.map Prod.fst := by
    intro ref href
    have hclass := Registry.isSome_class? (h.record ref href)
    rw [Registry.class?, List.lookup_isSome_iff] at hclass
    obtain ⟨entry, he, hentry⟩ := hclass
    exact List.mem_map.mpr ⟨entry, he, (beq_iff_eq.mp hentry).symm⟩
  simpa using (List.subperm_of_subset h.distinct hsub).length_le

theorem Once.declare? (h : Once r s) (hd : declare? r s ref = some (c, s')) : Once r s' := by
  obtain ⟨blank, _, ⟨_, rfl⟩ | ⟨fresh, entered⟩⟩ := declare?_eq_some hd
  · exact h
  · cases hr : r.isRecordClass ref with
    | false =>
      simp only [enter, hr, Bool.false_eq_true, if_false, Prod.mk.injEq] at entered
      rw [entered.2]
      exact ⟨h.distinct, h.record⟩
    | true =>
      simp only [enter, hr, if_true, Prod.mk.injEq] at entered
      simp only [entries, hr, if_true, List.lookup_eq_none_iff] at fresh
      rw [entered.2]
      constructor
      · refine nodup_map_concat h.distinct fun href => ?_
        obtain ⟨entry, he, hsame⟩ := List.mem_map.mp href
        exact absurd (fresh entry he) (by simp [hsame])
      · rw [List.map_append, List.forall_mem_append]
        exact ⟨h.record, by simpa using hr⟩

theorem Once.addField (h : Once r s) (hf : addField r className owner s field = .ok s') :
    Once r s' := by
  obtain ⟨shape, type, t, _, htarget, rfl⟩ := addField_eq_ok hf
  suffices ht : Once r t from ⟨ht.distinct, ht.record⟩
  cases hs : shape.target with
  | primitive p =>
    rw [hs] at htarget
    cases htarget
    exact h
  | declared ref =>
    rw [hs] at htarget
    exact h.declare? htarget
  | unsupported =>
    rw [hs] at htarget
    cases htarget

theorem convertClass_eq_ok {declared : DeclarationRef × ClassifierRef}
    (h : (convertClass r s declared).value = .ok s') :
    ((r.fields? declared.1).getD []).foldlM
      (Conversion.addField r ((r.class? declared.1).elim "" (·.name)) declared.2) s = .ok s' := by
  obtain ⟨_, _, h⟩ := Logged.bind_eq_ok.mp h
  exact Logged.lift_eq_ok.mp h

theorem Once.convertClass {declared : DeclarationRef × ClassifierRef} (h : Once r s)
    (hc : (convertClass r s declared).value = .ok s') : Once r s' :=
  foldlM_induction (convertClass_eq_ok hc) h fun _ _ _ _ hs hf => hs.addField hf

theorem declareRoot_eq_ok {root : Option DeclarationRef} (h : declareRoot r s root = .ok s') :
    ∃ ref c, root = some ref ∧ r.isRecordClass ref = true ∧ declare? r s ref = some (c, s') := by
  rw [declareRoot] at h
  split at h
  case h_1 c t hroot =>
    cases h
    obtain ⟨ref, rfl, hd⟩ := Option.bind_eq_some_iff.mp hroot
    exact ⟨ref, c, rfl, declareClass?_eq_some hd⟩
  case h_2 => cases h

theorem Once.declareRoot {root : Option DeclarationRef} (h : Once r s)
    (hd : Conversion.declareRoot r s root = .ok s') : Once r s' := by
  obtain ⟨ref, c, _, _, hd⟩ := declareRoot_eq_ok hd
  exact h.declare? hd

/-- The bound of the loop is never reached. -/
theorem ends_convertFrom {budget position : Nat} (h : Once r s)
    (enough : r.classes.length ≤ position + budget) :
    Ends r position s (convertFrom r budget position s) := by
  induction budget generalizing position s with
  | zero =>
    have hlength := h.length_le
    exact .past (by omega)
  | succ budget ih =>
    rw [convertFrom]
    cases here : s.classes[position]? with
    | none => exact .past (List.getElem?_eq_none_iff.mp here)
    | some declared =>
      cases hc : (Conversion.convertClass r s declared).value with
      | error e =>
        simp only [Logged.bind_error hc]
        exact .fault here hc
      | ok s' =>
        have hrest : r.classes.length ≤ position + 1 + budget := by omega
        have rest := ih (h.convertClass hc) hrest
        have hbind :
            (do convertFrom r budget (position + 1) (← Conversion.convertClass r s declared)) =
            ⟨(Conversion.convertClass r s declared).log ++
              (convertFrom r budget (position + 1) s').log,
              (convertFrom r budget (position + 1) s').value⟩ := by
          apply Logged.ext
          · exact Logged.log_bind_ok hc _
          · rw [Logged.value_bind, hc]
            rfl
        simp only [hbind]
        exact .turn here hc rest

end Conversion

namespace Registry

variable {name : String} {roots : List (Option DeclarationRef)}

/-- The conversion of roots, with a loop that has no bound. -/
inductive Runs (r : Registry) (name : String) (roots : List (Option DeclarationRef)) :
    Logged Model → Prop
  | refused {e : Fault}
    (h : roots.foldlM (Conversion.declareRoot r) { model := Model.empty name } = .error e) :
    Runs r name roots ⟨[], .error e⟩
  | converted {s : Conversion} {outcome : Logged Conversion}
    (h : roots.foldlM (Conversion.declareRoot r) { model := Model.empty name } = .ok s)
    (ends : Conversion.Ends r 0 s outcome) : Runs r name roots (Conversion.model <$> outcome)

theorem runs_toModel (r : Registry) (name : String) (roots : List (Option DeclarationRef)) :
    r.Runs name roots (r.toModel name roots) := by
  rw [toModel]
  cases h : roots.foldlM (Conversion.declareRoot r) { model := Model.empty name } with
  | error e => exact .refused h
  | ok s =>
    have once : Conversion.Once r s :=
      foldlM_induction h ⟨by simp, by simp⟩ fun _ _ _ _ hs hd => hs.declareRoot hd
    exact .converted h (Conversion.ends_convertFrom once (by omega))

end Registry

end Schemata
