import Schemata.Logged
import Schemata.Proofs.Lists

/-!
# Outcomes

What it means for a computation of several steps to have a value: each of its steps has one. Where
it stops with a fault, one of its steps does.
-/
namespace Schemata

section
variable {ε α β σ : Type}

theorem bind_eq_ok {x : Except ε α} {f : α → Except ε β} {b : β} :
    x >>= f = .ok b ↔ ∃ a, x = .ok a ∧ f a = .ok b := by
  cases x with
  | error e => simp [bind, Except.bind]
  | ok a => simp [bind, Except.bind]

theorem toOption_eq_some {x : Except ε α} {a : α} : x.toOption = some a ↔ x = .ok a := by
  cases x with
  | error e => simp [Except.toOption]
  | ok a => simp [Except.toOption]

theorem mapM_eq_ok {f : α → Except ε β} {xs : List α} {ys : List β} :
    xs.mapM f = .ok ys ↔ List.Forall₂ (fun x y => f x = .ok y) xs ys := by
  induction xs generalizing ys with
  | nil =>
    rw [List.mapM_nil, List.forall₂_nil_left_iff]
    exact ⟨fun h => by cases h; rfl, fun h => h ▸ rfl⟩
  | cons x xs ih =>
    rw [List.mapM_cons, bind_eq_ok, List.forall₂_cons_left_iff]
    constructor
    · rintro ⟨y, hy, h⟩
      obtain ⟨ys', hys, h⟩ := bind_eq_ok.mp h
      cases h
      exact ⟨y, ys', hy, ih.mp hys, rfl⟩
    · rintro ⟨y, ys', hy, hys, rfl⟩
      exact ⟨y, hy, bind_eq_ok.mpr ⟨ys', ih.mpr hys, rfl⟩⟩

theorem exists_mapM_eq_pure {M : Type → Type} [Monad M] [LawfulMonad M] {f : α → M β} {xs : List α}
    (h : ∀ x ∈ xs, ∃ y, f x = pure y) : ∃ ys, xs.mapM f = pure ys := by
  induction xs with
  | nil => exact ⟨[], List.mapM_nil⟩
  | cons x xs ih =>
    obtain ⟨y, hy⟩ := h x (by simp)
    obtain ⟨ys, hys⟩ := ih fun x hx => h x (by simp [hx])
    exact ⟨y :: ys, by rw [List.mapM_cons, hy, pure_bind, hys, pure_bind]⟩

/-- What holds at first and is kept by each step holds at last. -/
theorem foldlM_induction {step : σ → α → Except ε σ} {P : σ → Prop} {xs : List α} {s s' : σ}
    (h : xs.foldlM step s = .ok s') (first : P s)
    (keeps : ∀ s x s', x ∈ xs → P s → step s x = .ok s' → P s') : P s' := by
  induction xs generalizing s with
  | nil =>
    cases h
    exact first
  | cons x xs ih =>
    rw [List.foldlM_cons] at h
    obtain ⟨t, ht, h⟩ := bind_eq_ok.mp h
    exact ih h (keeps s x t (by simp) first ht) fun s y s' hy => keeps s y s' (by simp [hy])

end

namespace Logged
variable {α β σ : Type}

theorem bind_eq_ok {x : Logged α} {f : α → Logged β} {b : β} :
    (x >>= f).value = .ok b ↔ ∃ a, x.value = .ok a ∧ (f a).value = .ok b := by
  rw [value_bind]
  exact Schemata.bind_eq_ok

theorem lift_eq_ok {x : Except Fault α} {a : α} : (liftM x : Logged α).value = .ok a ↔ x = .ok a :=
  Iff.rfl

theorem value_mapM (f : α → Logged β) (xs : List α) :
    (xs.mapM f).value = xs.mapM fun x => (f x).value := by
  induction xs with
  | nil => rfl
  | cons x xs ih =>
    rw [List.mapM_cons, value_bind, List.mapM_cons, ← ih]
    simp only [value_bind]
    rfl

theorem value_foldlM (step : σ → α → Logged σ) (s : σ) (xs : List α) :
    (xs.foldlM step s).value = xs.foldlM (fun s x => (step s x).value) s := by
  induction xs generalizing s with
  | nil => rfl
  | cons x xs ih =>
    rw [List.foldlM_cons, value_bind, List.foldlM_cons]
    simp only [ih]
    rfl

theorem mapM_eq_ok {f : α → Logged β} {xs : List α} {ys : List β} :
    (xs.mapM f).value = .ok ys ↔ List.Forall₂ (fun x y => (f x).value = .ok y) xs ys := by
  rw [value_mapM]
  exact Schemata.mapM_eq_ok

theorem foldlM_induction {step : σ → α → Logged σ} {P : σ → Prop} {xs : List α} {s s' : σ}
    (h : (xs.foldlM step s).value = .ok s') (first : P s)
    (keeps : ∀ s x s', x ∈ xs → P s → (step s x).value = .ok s' → P s') : P s' := by
  rw [value_foldlM] at h
  exact Schemata.foldlM_induction h first keeps

/-- If all steps together have a value, each has one, in a state where what each step keeps
holds. -/
theorem exists_step_of_foldlM {step : σ → α → Logged σ} {P : σ → Prop} {xs : List α} {s s' : σ}
    (h : (xs.foldlM step s).value = .ok s') (first : P s)
    (keeps : ∀ s x s', x ∈ xs → P s → (step s x).value = .ok s' → P s') {x : α} (hx : x ∈ xs) :
    ∃ s₁ s₂, P s₁ ∧ (step s₁ x).value = .ok s₂ := by
  induction xs generalizing s with
  | nil => cases hx
  | cons y xs ih =>
    rw [List.foldlM_cons] at h
    obtain ⟨t, ht, h⟩ := bind_eq_ok.mp h
    rcases List.mem_cons.mp hx with rfl | hx
    · exact ⟨s, t, first, ht⟩
    · exact ih h (keeps s y t (by simp) first ht) (fun s z s' hz => keeps s z s' (by simp [hz])) hx

theorem mem_log_bind {n : Notice} {x : Logged α} {f : α → Logged β} (h : n ∈ x.log) :
    n ∈ (x >>= f).log := by
  cases hx : x.value with
  | error e => rwa [bind_error hx]
  | ok a => exact log_bind_ok hx f ▸ List.mem_append_left _ h

theorem mem_log_bind_of_ok {n : Notice} {x : Logged α} {f : α → Logged β} {a : α}
    (hx : x.value = .ok a) (h : n ∈ (f a).log) : n ∈ (x >>= f).log :=
  log_bind_ok hx f ▸ List.mem_append_right _ h

/-- What a step reports in any state is in the log of all steps together, if they have a value. -/
theorem mem_log_foldlM {n : Notice} {step : σ → α → Logged σ} {xs : List α} {s s' : σ}
    (ok : (xs.foldlM step s).value = .ok s') {x : α} (hx : x ∈ xs) (h : ∀ s, n ∈ (step s x).log) :
    n ∈ (xs.foldlM step s).log := by
  induction xs generalizing s with
  | nil => cases hx
  | cons y xs ih =>
    rw [List.foldlM_cons] at ok ⊢
    obtain ⟨t, ht, ok⟩ := bind_eq_ok.mp ok
    rcases List.mem_cons.mp hx with rfl | hx
    · exact mem_log_bind (h s)
    · exact mem_log_bind_of_ok ht (ih ok hx)

/-- If it only depends on the element whether a step has a value, all steps have one together if
each has one. -/
theorem exists_foldlM_iff {step : σ → α → Logged σ} {P : α → Prop} {xs : List α}
    (h : ∀ x ∈ xs, ∀ s, (∃ s', (step s x).value = .ok s') ↔ P x) (s : σ) :
    (∃ s', (xs.foldlM step s).value = .ok s') ↔ ∀ x ∈ xs, P x := by
  induction xs generalizing s with
  | nil => exact iff_of_true ⟨s, rfl⟩ (by simp)
  | cons x xs ih =>
    have ih := ih fun y hy => h y (List.mem_cons_of_mem x hy)
    rw [List.forall_mem_cons, List.foldlM_cons]
    constructor
    · rintro ⟨s', ok⟩
      obtain ⟨t, ht, ok⟩ := bind_eq_ok.mp ok
      exact ⟨(h x List.mem_cons_self s).mp ⟨t, ht⟩, (ih t).mp ⟨s', ok⟩⟩
    · rintro ⟨hx, hxs⟩
      obtain ⟨t, ht⟩ := (h x List.mem_cons_self s).mpr hx
      obtain ⟨s', ok⟩ := (ih t).mpr hxs
      exact ⟨s', bind_eq_ok.mpr ⟨t, ht, ok⟩⟩

end Logged

/-- The computation stops, if it does, with a fault of one of the families. -/
def FailsOnly {α : Type} (families : List Family) (x : Except Fault α) : Prop :=
  ∀ e, x = .error e → e.family ∈ families

namespace FailsOnly
variable {α β σ : Type} {families more : List Family} {x : Except Fault α}

theorem ok (a : α) : FailsOnly families (.ok a) := fun _ h => nomatch h

theorem error {e : Fault} (h : e.family ∈ families) :
    FailsOnly families (.error e : Except Fault α) := by
  intro e' he
  obtain rfl := Except.error.inj he
  exact h

theorem mono (h : FailsOnly families x) (hs : families ⊆ more) : FailsOnly more x :=
  fun e he => hs (h e he)

theorem bind {f : α → Except Fault β} (h : FailsOnly families x)
    (hf : ∀ a, x = .ok a → FailsOnly families (f a)) : FailsOnly families (x >>= f) := by
  cases x with
  | ok a => exact hf a rfl
  | error e => exact .error (h e rfl)

theorem mapM {f : α → Except Fault β} {xs : List α} (h : ∀ x ∈ xs, FailsOnly families (f x)) :
    FailsOnly families (xs.mapM f) := by
  induction xs with
  | nil => exact .ok []
  | cons x xs ih =>
    rw [List.mapM_cons]
    exact (h x (by simp)).bind fun y _ => (ih fun x hx => h x (by simp [hx])).bind fun ys _ => .ok _

theorem foldlM {step : σ → α → Except Fault σ} (P : σ → Prop) {xs : List α} {s : σ} (first : P s)
    (keeps : ∀ s x s', x ∈ xs → P s → step s x = .ok s' → P s')
    (h : ∀ s x, x ∈ xs → P s → FailsOnly families (step s x)) :
    FailsOnly families (xs.foldlM step s) := by
  induction xs generalizing s with
  | nil => exact .ok s
  | cons x xs ih =>
    rw [List.foldlM_cons]
    refine (h s x (by simp) first).bind fun t ht => ih (keeps s x t (by simp) first ht) ?_ ?_
    · exact fun s y s' hy => keeps s y s' (by simp [hy])
    · exact fun s y hy => h s y (by simp [hy])

end FailsOnly

namespace Logged
variable {α β σ : Type} {families : List Family}

theorem failsOnly_bind {x : Logged α} {f : α → Logged β} (h : FailsOnly families x.value)
    (hf : ∀ a, x.value = .ok a → FailsOnly families (f a).value) :
    FailsOnly families (x >>= f).value := by
  rw [value_bind]
  exact h.bind hf

theorem failsOnly_mapM {f : α → Logged β} {xs : List α}
    (h : ∀ x ∈ xs, FailsOnly families (f x).value) :
    FailsOnly families (xs.mapM f).value := by
  rw [value_mapM]
  exact .mapM h

theorem failsOnly_foldlM_of_invariant {step : σ → α → Logged σ} (P : σ → Prop) {xs : List α} {s : σ}
    (first : P s) (keeps : ∀ s x s', x ∈ xs → P s → (step s x).value = .ok s' → P s')
    (h : ∀ s x, x ∈ xs → P s → FailsOnly families (step s x).value) :
    FailsOnly families (xs.foldlM step s).value := by
  rw [value_foldlM]
  exact .foldlM P first keeps h

theorem failsOnly_foldlM {step : σ → α → Logged σ} {xs : List α} {s : σ}
    (h : ∀ s x, x ∈ xs → FailsOnly families (step s x).value) :
    FailsOnly families (xs.foldlM step s).value :=
  failsOnly_foldlM_of_invariant (fun _ => True) trivial (fun _ _ _ _ _ _ => trivial) fun s x hx _ =>
    h s x hx

end Logged

end Schemata
