import Schemata.Proofs.Document.Mirror

/-!
# References of documents

A step of a resolution fails if and only if what it reads is flawed, and otherwise its result is
what was written. Steps of this kind can be put together. References and bounds are resolved so, and
so are the identifiers of classifiers, which are all declared before the first reference is
followed.
-/
namespace Schemata

/-- A computation has a result with some property, or it fails in resolving something flawed. -/
inductive Resolves {α : Type} (flawed : Prop) (result : α → Prop) : Except Fault α → Prop
  | ok {a : α} : ¬ flawed → result a → Resolves flawed result (.ok a)
  | error {e : Fault} : flawed → e.family = .mapping → Resolves flawed result (.error e)

namespace Resolves
variable {α β σ : Type} {x : Except Fault α} {flawed flawed' : Prop} {result result' : α → Prop}

theorem imp (h : Resolves flawed result x) (hf : flawed ↔ flawed')
    (hr : ∀ a, result a → result' a) :
    Resolves flawed' result' x := by
  cases h with
  | ok sound ha => exact .ok (hf.not.mp sound) (hr _ ha)
  | error bad he => exact .error (hf.mp bad) he

/-- More can be said of a result because of how it was reached. -/
theorem of_ok (h : Resolves flawed result x) (hr : ∀ a, x = .ok a → result a → result' a) :
    Resolves flawed result' x := by
  cases h with
  | ok sound ha => exact .ok sound (hr _ rfl ha)
  | error bad he => exact .error bad he

theorem bind {f : α → Except Fault β} {goal : β → Prop} (h : Resolves flawed result x)
    (hf : ∀ a, result a → Resolves flawed' goal (f a)) :
    Resolves (flawed ∨ flawed') goal (x >>= f) := by
  cases h with
  | error bad he => exact .error (.inl bad) he
  | @ok a sound ha =>
    show Resolves _ _ (f a)
    exact (hf a ha).imp (or_iff_right sound).symm fun _ => id

theorem bind_pure {f : α → β} {goal : β → Prop} (h : Resolves flawed result x)
    (hf : ∀ a, result a → goal (f a)) : Resolves flawed goal (x >>= fun a => pure (f a)) := by
  cases h with
  | ok sound ha => exact .ok sound (hf _ ha)
  | error bad he => exact .error bad he

theorem foldlM {step : σ → α → Except Fault σ} {bad : α → Prop} {P : List α → σ → Prop}
    {xs : List α} {s : σ} (first : P [] s)
    (next : ∀ done x s, done ++ [x] <+: xs → P done s →
      Resolves (bad x) (P (done ++ [x])) (step s x)) :
    Resolves (∃ x ∈ xs, bad x) (P xs) (xs.foldlM step s) := by
  suffices h : ∀ rest done s, done ++ rest = xs → P done s →
      Resolves (∃ x ∈ rest, bad x) (P xs) (rest.foldlM step s) from h xs [] s rfl first
  intro rest
  induction rest with
  | nil =>
    rintro done s rfl hs
    rw [List.append_nil] at *
    exact .ok (by simp) hs
  | cons x rest ih =>
    rintro done s rfl hs
    rw [List.foldlM_cons]
    have hstep := next done x s ⟨rest, by simp⟩ hs
    exact (hstep.bind fun s hs => ih (done ++ [x]) s (by simp) hs).imp (by simp) fun _ => id

end Resolves

/-! ## References and bounds -/

theorem withoutPrimitiveMark_append (name : String) :
    withoutPrimitiveMark ("primitive:" ++ name) = name := by
  apply String.toList_injective
  simp [withoutPrimitiveMark]

theorem Primitive.withoutPrimitiveMark_name (p : Primitive) :
    withoutPrimitiveMark p.name = p.name := by
  cases p <;> decide

theorem Primitive.ofName?_withoutPrimitiveMark {reference : String} {p : Primitive} :
    ofName? (withoutPrimitiveMark reference) = some p ↔
      reference = p.name ∨ reference = "primitive:" ++ p.name := by
  constructor
  · intro h
    have hname : p.name = withoutPrimitiveMark reference := by simpa using List.find?_some h
    rw [withoutPrimitiveMark] at hname
    split at hname
    case isTrue hmark =>
      obtain ⟨rest, hrest⟩ := List.isPrefixOf_iff_prefix.mp hmark
      refine .inr (String.toList_injective ?_)
      rw [hname, ← hrest]
      simp
    case isFalse => exact .inl hname.symm
  · rintro (rfl | rfl)
    · rw [p.withoutPrimitiveMark_name, ofName?_name]
    · rw [withoutPrimitiveMark_append, ofName?_name]

variable {document : ModelDocument} {declared : List Declared} {m : Model} {site : Site}

theorem resolves_type (documents : declared.map (·.document) = document.classifiers)
    (declares : m.Declares declared) (reference : String) :
    Resolves (¬ document.Names reference) (m.Denotes reference)
      (resolveType declared site reference) := by
  rw [resolveType]
  split
  · rename_i d hd
    have hmem := List.mem_of_find?_eq_some hd
    have hid : d.document.id = reference := by simpa using List.find?_some hd
    refine .ok (not_not_intro (.inl ⟨d.document, documents ▸ List.mem_map_of_mem hmem, hid⟩)) ?_
    exact .packaged (declares.mem hmem) ((declares.id hmem).trans hid)
  · rename_i hnone
    have hnone : ∀ d ∈ declared, d.document.id ≠ reference := by simpa using hnone
    split
    · rename_i p hp
      have hp := Primitive.ofName?_withoutPrimitiveMark.mp hp
      refine .ok (not_not_intro (.inr ⟨p, hp⟩)) (.primitive (fun c hc he => ?_) hp)
      obtain ⟨d, hd, -, hid⟩ := declares.exists_of_mem hc
      exact hnone d hd (hid.trans he)
    · rename_i hprimitive
      refine .error ?_ rfl
      rintro (⟨classifier, hc, hid⟩ | ⟨p, hp⟩)
      · obtain ⟨d, hd, rfl⟩ := List.mem_map.mp (documents ▸ hc)
        exact hnone d hd hid
      · rw [Primitive.ofName?_withoutPrimitiveMark.mpr hp] at hprimitive
        cases hprimitive

theorem resolves_optionalType (documents : declared.map (·.document) = document.classifiers)
    (declares : m.Declares declared) (reference : Option String) :
    Resolves (∃ name ∈ reference, ¬ document.Names name) (Option.Rel m.Denotes reference)
      (resolveOptionalType declared site reference) := by
  cases reference with
  | none => exact .ok (by simp) .none
  | some name =>
    have h : Resolves (¬ document.Names name) (m.Denotes name) (resolveType declared site name) :=
      resolves_type documents declares name
    rw [resolveOptionalType]
    cases hx : resolveType declared site name with
    | ok c =>
      rw [hx] at h
      cases h with
      | ok sound denotes => exact .ok (by simpa using sound) (.some denotes)
    | error e =>
      rw [hx] at h
      cases h with
      | error bad he => exact .error ⟨name, rfl, bad⟩ he

theorem resolves_upper (upper : Int) :
    Resolves (upper < unbounded) (· = upperBound upper) (resolveUpper site upper) := by
  rw [resolveUpper]
  split
  · rename_i h
    exact .ok (by omega) (if_pos h).symm
  · rename_i h
    split
    · exact .error (by unfold unbounded at *; omega) rfl
    · exact .ok (by unfold unbounded; omega) (if_neg h).symm

end Schemata
