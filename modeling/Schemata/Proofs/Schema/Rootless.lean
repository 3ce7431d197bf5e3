import Mathlib.Data.Finset.Card
import Mathlib.Order.SuccPred.Relation
import Mathlib.Data.Nat.SuccPred
import Mathlib.Data.Finset.Range
import Schemata.Schema.SqlType

/-!
# Classifiers without a root

The SQL type of a classifier may be that of another one: of the base of an enumeration, or of the
type of the identity of an entity. What is looked up this way ends at an entity without an identity,
or does not end, exactly if there is no SQL type for a reason that the creation of table types does
not recover from.
-/
namespace Schemata
open Relation

namespace Model

/-- The classifier whose SQL type a classifier takes. -/
def underlying? (m : Model) (c : ClassifierRef) : Option ClassifierRef :=
  match (m.classifier c).kind with
  | .enumeration => (m.classifier c).base
  | .dataType | .primitive => none
  | .entity | .interface => (m.identityProperty? c).bind fun p => (m.property p).type

def Takes (m : Model) (c d : ClassifierRef) : Prop := m.underlying? c = some d

/-- The classifier would take the SQL type of an identity that it does not have. -/
structure Unidentified (m : Model) (c : ClassifierRef) : Prop where
  entity : (m.classifier c).kind.isValue = false
  identity : m.identityProperty? c = none

/-- Where the SQL type of the classifier is taken from, there is an entity without an identity, or a
circle. -/
def Rootless (m : Model) (c : ClassifierRef) : Prop :=
  ∃ d, ReflTransGen m.Takes c d ∧ (m.Unidentified d ∨ TransGen m.Takes d d)

variable {m : Model} {c d : ClassifierRef}

/-- There is nothing to take from what is not part of the model. -/
theorem Takes.lt_length (h : m.Takes c d) : c.place < m.classifiers.length := by
  by_contra outside
  have hc : m.classifier c = {} := by
    rw [classifier, List.getD_eq_getElem?_getD, List.getElem?_eq_none (Nat.le_of_not_lt outside)]
    rfl
  rw [Takes, underlying?, identityProperty?, hc] at h
  cases h

theorem Rootless.of_takes (h : m.Takes c d) (rootless : m.Rootless d) : m.Rootless c := by
  obtain ⟨root, path, cause⟩ := rootless
  exact ⟨root, .head h path, cause⟩

end Model

namespace SqlTypeNames

/-- The SQL type of a classifier that takes it from no other. -/
def root (names : SqlTypeNames) (m : Model) (c : ClassifierRef) : Except Fault String :=
  match (m.classifier c).kind with
  | .enumeration => .ok names.integer
  | .dataType | .primitive => .ok ((names.lookup? (m.classifier c).name).getD (m.classifier c).name)
  | .entity | .interface =>
    match m.identityProperty? c with
    | none => .error (.noIdentity (m.classifier c).label .sqlType)
    | some p => names.ofUntyped (m.property p)

variable {names : SqlTypeNames} {m : Model} {c d : ClassifierRef}

theorem within_succ (names : SqlTypeNames) (m : Model) (steps : Nat) (c : ClassifierRef) :
    names.within m (steps + 1) c =
      match m.underlying? c with
      | some d => names.within m steps d
      | none => names.root m c := by
  rw [within, Model.underlying?, root]
  cases (m.classifier c).kind with
  | enumeration => cases (m.classifier c).base <;> rfl
  | dataType => rfl
  | primitive => rfl
  | entity | interface =>
    cases m.identityProperty? c with
    | none => rfl
    | some p => cases htype : (m.property p).type <;> simp [htype]

/-- What takes its type from no other has a SQL type, lacks an identity, or has a fault of the
mapping. -/
theorem unidentified_of_root {e : Fault} (h : names.root m c = .error e)
    (other : e.family ≠ .mapping) :
    m.Unidentified c := by
  rw [root] at h
  cases hkind : (m.classifier c).kind
  case entity | interface =>
    simp only [hkind] at h
    refine ⟨by rw [hkind]; rfl, ?_⟩
    split at h
    case h_1 none => exact none
    case h_2 =>
      rw [ofUntyped] at h
      split at h
      · cases h
        exact absurd rfl other
      · cases h
  all_goals
    simp only [hkind] at h
    cases h

theorem root_of_unidentified (names : SqlTypeNames) (h : m.Unidentified c) :
    m.underlying? c = none ∧
    names.root m c = .error (.noIdentity (m.classifier c).label .sqlType) := by
  obtain ⟨entity, identity⟩ := h
  cases hkind : (m.classifier c).kind
  case entity | interface => simp [Model.underlying?, root, hkind, identity]
  all_goals
    rw [hkind] at entity
    cases entity

/-- Without a root, no number of steps leads to a SQL type, or to a fault of the mapping. -/
def Stops (names : SqlTypeNames) (m : Model) (c : ClassifierRef) : Prop :=
  ∀ steps, ∃ e, names.within m steps c = .error e ∧ e.family ≠ .mapping

theorem stops_of_unidentified (h : m.Unidentified c) : names.Stops m c := by
  intro steps
  cases steps with
  | zero => exact ⟨_, rfl, nofun⟩
  | succ steps =>
    obtain ⟨last, root⟩ := root_of_unidentified names h
    rw [within_succ, last]
    exact ⟨_, root, nofun⟩

theorem stops_of_circle (h : TransGen m.Takes c c) : names.Stops m c := by
  intro steps
  induction steps generalizing c with
  | zero => exact ⟨_, rfl, nofun⟩
  | succ steps ih =>
    obtain ⟨d, takes, back⟩ := TransGen.head'_iff.mp h
    rw [within_succ, takes]
    exact ih (.tail' back takes)

theorem stops_of_rootless (h : m.Rootless c) : names.Stops m c := by
  obtain ⟨d, path, cause⟩ := h
  induction path using ReflTransGen.head_induction_on with
  | refl => exact cause.elim stops_of_unidentified stops_of_circle
  | head takes _ ih =>
    intro steps
    cases steps with
    | zero => exact ⟨_, rfl, nofun⟩
    | succ steps =>
      rw [within_succ, takes]
      exact ih steps

/-- Where the steps do not lead to a root, each of them leads to a further classifier. -/
theorem exists_chain_of_within {steps : Nat} {e : Fault} (h : names.within m steps c = .error e)
    (other : e.family ≠ .mapping) :
    m.Rootless c ∨ ∃ chain : Nat → ClassifierRef, chain 0 = c ∧
      ∀ i < steps, m.Takes (chain i) (chain (i + 1)) := by
  induction steps generalizing c with
  | zero => exact .inr ⟨fun _ => c, rfl, by simp⟩
  | succ steps ih =>
    rw [within_succ] at h
    split at h
    case h_1 d takes =>
      rcases ih h with rootless | ⟨chain, first, hchain⟩
      · exact .inl (.of_takes takes rootless)
      · refine .inr ⟨fun i => if i = 0 then c else chain (i - 1), rfl, fun i hi => ?_⟩
        cases i with
        | zero => simpa [first, Model.Takes] using takes
        | succ i => simpa using hchain i (Nat.lt_of_succ_lt_succ hi)
    case h_2 => exact .inl ⟨c, .refl, .inl (unidentified_of_root h other)⟩

/-- A chain with more steps than there are classifiers comes back to one of them. -/
theorem rootless_of_chain {chain : Nat → ClassifierRef}
    (hchain : ∀ i < m.classifiers.length + 1, m.Takes (chain i) (chain (i + 1))) :
    m.Rootless (chain 0) := by
  have step {i j : Nat} (hj : j ≤ m.classifiers.length + 1) :
      ∀ k ∈ Set.Ico i j, m.Takes (chain k) (chain (Order.succ k)) :=
    fun k hk => hchain k (lt_of_lt_of_le hk.2 hj)
  obtain ⟨i, hi, j, hj, hne, same⟩ := Finset.exists_ne_map_eq_of_card_lt_of_maps_to
    (s := Finset.range (m.classifiers.length + 1)) (t := Finset.range m.classifiers.length)
    (f := fun i => (chain i).place) (by simp) fun i hi => by
      simpa using (hchain i (by simpa using hi)).lt_length
  rw [Finset.mem_range] at hi hj
  wlog hij : i < j generalizing i j
  · exact this j hj i hi hne.symm same.symm (lt_of_le_of_ne (not_lt.mp hij) hne.symm)
  have same : chain j = chain i := (congrArg ClassifierRef.mk same).symm
  have circle : TransGen m.Takes (chain i) (chain j) :=
    .lift chain (fun _ _ h => h) _ _
      (transGen_of_succ_of_lt (fun i j => m.Takes (chain i) (chain j)) (step hj.le) hij)
  have path : ReflTransGen m.Takes (chain 0) (chain i) :=
    .lift chain (fun _ _ h => h) _ _
      (reflTransGen_of_succ_of_le (fun i j => m.Takes (chain i) (chain j)) (step hi.le)
        (Nat.zero_le i))
  exact ⟨chain i, path, .inr (same ▸ circle)⟩

theorem rootless_of_ofClassifier {e : Fault} (h : names.ofClassifier m c = .error e)
    (other : e.family ≠ .mapping) :
    m.Rootless c := by
  obtain rootless | ⟨chain, rfl, hchain⟩ := exists_chain_of_within h other
  · exact rootless
  · exact rootless_of_chain hchain

/-- There is no SQL type for another reason than a fault of the mapping if there is no root. -/
theorem ofClassifier_iff (names : SqlTypeNames) :
    (∃ e, names.ofClassifier m c = .error e ∧ e.family ≠ .mapping) ↔ m.Rootless c :=
  ⟨fun ⟨_, h, other⟩ => rootless_of_ofClassifier h other, fun h => stops_of_rootless h _⟩

end SqlTypeNames

end Schemata
