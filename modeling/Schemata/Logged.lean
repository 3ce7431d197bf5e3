import Schemata.Fault
import Schemata.Notice

/-!
# Logged computations

A computation that keeps a log and may stop with a fault. The log stays when a fault stops it, so
the log depends on the result and never the other way: `value` is a morphism of monads.
-/
namespace Schemata

structure Logged (α : Type) where
  log : List Notice
  value : Except Fault α

namespace Logged
variable {α β σ : Type}

def pure (a : α) : Logged α := ⟨[], .ok a⟩

/-- The second computation runs only if the first has a value; its log follows. -/
def bind (x : Logged α) (f : α → Logged β) : Logged β :=
  match x.value with
  | .ok a => ⟨x.log ++ (f a).log, (f a).value⟩
  | .error e => ⟨x.log, .error e⟩

instance : Monad Logged where
  pure := pure
  bind := bind

instance : MonadLift (Except Fault) Logged where
  monadLift x := ⟨[], x⟩

def note (n : Notice) : Logged Unit := ⟨[n], .ok ()⟩

def fail (e : Fault) : Logged α := ⟨[], .error e⟩

@[ext] theorem ext {x y : Logged α} (hl : x.log = y.log) (hv : x.value = y.value) : x = y := by
  cases x; cases y; simp_all

@[simp] theorem value_pure (a : α) : (Pure.pure a : Logged α).value = .ok a := rfl

@[simp] theorem log_pure (a : α) : (Pure.pure a : Logged α).log = [] := rfl

@[simp] theorem value_bind (x : Logged α) (f : α → Logged β) :
    (x >>= f).value = x.value.bind fun a => (f a).value := by
  show (Logged.bind x f).value = _
  cases h : x.value <;> simp [Logged.bind, h, Except.bind]

@[simp] theorem value_note (n : Notice) : (note n).value = .ok () := rfl

@[simp] theorem value_fail (e : Fault) : (fail e : Logged α).value = .error e := rfl

@[simp] theorem value_lift (x : Except Fault α) : (monadLift x : Logged α).value = x := rfl

@[simp] theorem log_lift (x : Except Fault α) : (monadLift x : Logged α).log = [] := rfl

theorem log_bind_ok {x : Logged α} {a : α} (h : x.value = .ok a) (f : α → Logged β) :
    (x >>= f).log = x.log ++ (f a).log := by
  show (Logged.bind x f).log = _
  simp [Logged.bind, h]

theorem bind_error {x : Logged α} {e : Fault} (h : x.value = .error e) (f : α → Logged β) :
    x >>= f = ⟨x.log, .error e⟩ := by
  show Logged.bind x f = _
  simp [Logged.bind, h]

theorem map_id_eq (x : Logged α) : id <$> x = x := by
  apply ext
  · show (Logged.bind x fun a => Logged.pure a).log = x.log
    cases h : x.value <;> simp [Logged.bind, h, Logged.pure]
  · show (Logged.bind x fun a => Logged.pure a).value = x.value
    cases h : x.value <;> simp [Logged.bind, h, Logged.pure]

theorem pure_bind_eq (a : α) (f : α → Logged β) : Pure.pure a >>= f = f a := by
  apply ext <;> simp [log_bind_ok (value_pure a), Except.bind]

theorem bind_assoc_eq {γ : Type} (x : Logged α) (f : α → Logged β) (g : β → Logged γ) :
    x >>= f >>= g = x >>= fun a => f a >>= g := by
  show Logged.bind (Logged.bind x f) g = Logged.bind x fun a => Logged.bind (f a) g
  cases h : x.value with
  | error e => simp [Logged.bind, h]
  | ok a => cases hf : (f a).value <;> simp [Logged.bind, h, hf]

instance : LawfulMonad Logged := LawfulMonad.mk' Logged map_id_eq pure_bind_eq bind_assoc_eq

end Logged

/-- How far a walk came: the state it reached, and the fault that stopped it, if any. -/
structure Progress (σ : Type) where
  log : List Notice
  state : σ
  fault : Option Fault

namespace Progress
variable {α σ : Type}

/-- Walks along a list and keeps what was reached before a fault. -/
def walk (step : σ → α → Logged σ) : σ → List α → Progress σ
  | s, [] => ⟨[], s, none⟩
  | s, a :: rest =>
    match (step s a).value with
    | .error e => ⟨(step s a).log, s, some e⟩
    | .ok s' =>
      let p := walk step s' rest
      ⟨(step s a).log ++ p.log, p.state, p.fault⟩

/-- The state of a walk that no fault stopped. -/
def completed (p : Progress σ) : Logged σ :=
  ⟨p.log, match p.fault with
    | none => .ok p.state
    | some e => .error e⟩

/-- A completed walk is the left fold of its steps. -/
theorem completed_walk (step : σ → α → Logged σ) (s : σ) (xs : List α) :
    (walk step s xs).completed = xs.foldlM step s := by
  induction xs generalizing s with
  | nil => rfl
  | cons a rest ih =>
    rw [List.foldlM_cons]
    cases h : (step s a).value with
    | error e => rw [Logged.bind_error h]; simp [walk, completed, h]
    | ok s' =>
      apply Logged.ext
      · rw [Logged.log_bind_ok h, ← ih]; simp [walk, completed, h]
      · simp [h, Except.bind, ← ih, walk, completed]

end Progress

end Schemata
