import Mathlib.Data.List.Forall2
import Mathlib.Data.List.Induction
import Mathlib.Data.List.Nodup
import Mathlib.Data.List.Pairwise

/-!
# Lists

What filters, keys and positions of lists have to do with each other, and what two lists have in
common whose elements are related one by one.
-/
namespace Schemata

variable {α β γ : Type}

theorem prefix_takeWhile_append [DecidableEq α] {l : List α} {w : α} (h : w ∈ l) :
    l.takeWhile (· ≠ w) ++ [w] <+: l := by
  induction l with
  | nil => cases h
  | cons v rest ih =>
    by_cases hv : v = w
    · simp [hv]
    · have hr := (List.mem_cons.mp h).resolve_left (Ne.symm hv)
      simpa [hv] using ih hr

theorem not_mem_drop_of_nodup {l : List α} {i : Nat} {t : α} (distinct : l.Nodup)
    (h : l[i]? = some t) : t ∉ l.drop (i + 1) := by
  obtain ⟨hi, rfl⟩ := List.getElem?_eq_some_iff.mp h
  have hd := distinct.sublist (List.drop_sublist i l)
  rw [List.drop_eq_getElem_cons hi] at hd
  exact (List.nodup_cons.mp hd).1

theorem idxOf_lt_of_sublist [DecidableEq α] {l : List α} {t p : α} (distinct : l.Nodup)
    (h : [p, t].Sublist l) : l.idxOf p < l.idxOf t := by
  have hp : l.Pairwise fun a b => l.idxOf a < l.idxOf b := by
    refine List.pairwise_iff_getElem.mpr fun i j hi hj hij => ?_
    rwa [distinct.idxOf_getElem i hi, distinct.idxOf_getElem j hj]
  have := hp.sublist h
  simpa using this

theorem filterMap_getElem?_range (l : List α) :
    (List.range l.length).filterMap (l[·]?) = l := by
  induction l using List.reverseRecOn with
  | nil => rfl
  | append_singleton l t ih =>
    have hl : (List.range l.length).filterMap ((l ++ [t])[·]?) =
        (List.range l.length).filterMap (l[·]?) :=
      List.filterMap_congr fun i hi => List.getElem?_append_left (List.mem_range.mp hi)
    rw [List.length_append, List.length_singleton, List.range_succ, List.filterMap_append, hl, ih]
    simp

theorem nodup_map_concat {f : α → β} {l : List α} {a : α} (distinct : (l.map f).Nodup)
    (fresh : f a ∉ l.map f) : ((l ++ [a]).map f).Nodup := by
  rw [List.map_append, List.nodup_append]
  refine ⟨distinct, by simp, ?_⟩
  intro b hb b' hb' e
  obtain rfl : b' = f a := by simpa using hb'
  exact fresh (e ▸ hb)

theorem eq_of_nodup_filterMap {f : α → Option β} {xs : List α}
    (h : (xs.filterMap f).Nodup) {x y : α} {z : β} (hx : x ∈ xs) (hy : y ∈ xs) (fx : f x = some z)
    (fy : f y = some z) : x = y := by
  have : Std.Symm fun x y => ∀ z, f x = some z → ∀ z', f y = some z' → z ≠ z' :=
    ⟨fun _ _ h _ hy _ hx => (h _ hx _ hy).symm⟩
  by_contra hne
  exact (List.pairwise_filterMap.mp h).forall hx hy hne z fx z fy rfl

theorem eraseDups_concat [DecidableEq α] (l : List α) (x : α) :
    (l ++ [x]).eraseDups = if x ∈ l.eraseDups then l.eraseDups else l.eraseDups ++ [x] := by
  rw [List.eraseDups_append]
  by_cases h : x ∈ l <;> simp [List.removeAll, h, List.eraseDups_cons]

theorem countP_eq_ite [DecidableEq α] {xs : List α} (nodup : xs.Nodup) {f : α → Bool} {x : α}
    (only : ∀ y ∈ xs, f y = true → y = x) : xs.countP f = if x ∈ xs ∧ f x = true then 1 else 0 := by
  split
  case isTrue h =>
    rw [← List.count_eq_one_of_mem nodup h.1]
    refine List.countP_congr fun y hy => ?_
    rw [beq_iff_eq]
    exact ⟨only y hy, fun e => e ▸ h.2⟩
  case isFalse h =>
    rw [List.countP_eq_zero]
    intro y hy hf
    obtain rfl := only y hy hf
    exact h ⟨hy, hf⟩

/-- In a list without repetitions, an element is alone with its key exactly if the key is there
once. -/
theorem alone_iff_count [DecidableEq β] {f : α → β} {xs : List α} (distinct : xs.Nodup) {x : α}
    (hx : x ∈ xs) : (∀ y ∈ xs, f y = f x → y = x) ↔ (xs.map f).count (f x) = 1 := by
  -- Apart from the element itself, its key has to be missing on both sides of it.
  obtain ⟨front, back, rfl⟩ := List.append_of_mem hx
  have hfront : x ∉ front := fun h => (List.nodup_append.mp distinct).2.2 x h x (by simp) rfl
  have hback : x ∉ back := (List.nodup_cons.mp (List.nodup_append.mp distinct).2.1).1
  have hcount : ((front ++ x :: back).map f).count (f x) =
      (front.map f).count (f x) + (back.map f).count (f x) + 1 := by
    simp
    omega
  rw [hcount, Nat.add_eq_right, Nat.add_eq_zero_iff, List.count_eq_zero, List.count_eq_zero]
  constructor
  · intro alone
    constructor
    · intro h
      obtain ⟨y, hy, e⟩ := List.mem_map.mp h
      exact hfront (alone y (by simp [hy]) e ▸ hy)
    · intro h
      obtain ⟨y, hy, e⟩ := List.mem_map.mp h
      exact hback (alone y (by simp [hy]) e ▸ hy)
  · rintro ⟨none, none'⟩ y hy e
    rcases List.mem_append.mp hy with hy | hy
    · exact absurd (e ▸ List.mem_map_of_mem hy) none
    · rcases List.mem_cons.mp hy with rfl | hy
      · rfl
      · exact absurd (e ▸ List.mem_map_of_mem hy) none'

theorem lookup_map_self [DecidableEq β] (f : α → β) (xs : List α) (key : β) :
    (xs.map fun x => (f x, x)).lookup key = xs.find? fun x => f x == key := by
  induction xs with
  | nil => rfl
  | cons x xs ih =>
    rw [List.map_cons, List.lookup_cons, List.find?_cons, ih, Bool.beq_comm]

theorem find?_of_filter_eq {l : List α} {f : α → Bool} {x : Option α}
    (h : l.filter f = x.toList) : l.find? f = x := by
  rw [← List.head?_filter, h]
  cases x <;> rfl

theorem filter_filterMap_of_eq {f : α → Option β} {g : β → Bool} {g' : α → Bool}
    (h : ∀ x y, f x = some y → g y = g' x) (xs : List α) :
    (xs.filterMap f).filter g = (xs.filter g').filterMap f := by
  rw [List.filter_filterMap, List.filterMap_filter]
  refine List.filterMap_congr fun x _ => ?_
  cases hx : f x with
  | none => simp
  | some y => rw [Option.filter_some, h x y hx]

theorem flatMap_filterMap (f : α → Option β) (g : β → List γ) (l : List α) :
    (l.filterMap f).flatMap g = l.flatMap fun a => (f a).elim [] g := by
  rw [List.filterMap_eq_flatMap_toList, List.flatMap_assoc]
  congr
  funext a
  cases f a <;> simp

/-! ## Lists whose elements are related one by one -/

theorem exists_sublist_of_forall₂ {R : α → Option β → Prop} {xs : List α} {ys : List (Option β)}
    (h : List.Forall₂ R xs ys) :
    ∃ zs, zs.Sublist xs ∧ List.Forall₂ (fun z y => R z (some y)) zs (ys.filterMap id) := by
  induction h with
  | nil => exact ⟨[], List.Sublist.refl _, .nil⟩
  | @cons x y? xs ys hxy _ ih =>
    obtain ⟨zs, hs, hf⟩ := ih
    cases y? with
    | none => exact ⟨zs, hs.cons x, hf⟩
    | some y => exact ⟨x :: zs, hs.cons_cons x, .cons hxy hf⟩

theorem exists_getElem?_of_forall₂ {R : α → β → Prop} {xs : List α} {ys : List β}
    (h : List.Forall₂ R xs ys) {i : Nat} {y : β} (hy : ys[i]? = some y) :
    ∃ x, xs[i]? = some x ∧ R x y := by
  induction h generalizing i with
  | nil => cases hy
  | @cons x _ _ _ hxy _ ih =>
    cases i with
    | zero =>
      obtain rfl := Option.some.inj hy
      exact ⟨x, rfl, hxy⟩
    | succ i => exact ih hy

theorem exists_mem_of_forall₂ {R : α → β → Prop} {xs : List α} {ys : List β}
    (h : List.Forall₂ R xs ys) {y : β} (hy : y ∈ ys) : ∃ x ∈ xs, R x y := by
  obtain ⟨i, hi⟩ := List.mem_iff_getElem?.mp hy
  obtain ⟨x, hx, hxy⟩ := exists_getElem?_of_forall₂ h hi
  exact ⟨x, List.mem_of_getElem? hx, hxy⟩

theorem map_eq_of_forall₂ {R : α → β → Prop} {f : α → γ} {g : β → γ}
    (hf : ∀ a b, R a b → f a = g b) {xs : List α} {ys : List β} (h : List.Forall₂ R xs ys) :
    xs.map f = ys.map g := by
  induction h with
  | nil => rfl
  | cons hab _ ih => rw [List.map_cons, List.map_cons, hf _ _ hab, ih]

theorem forall₂_filter_filterMap {R : α → β → Prop} {f : α → Bool} {xs : List α}
    {ys : List (Option β)}
    (h : List.Forall₂ (fun x y? => f x = y?.isSome ∧ ∀ y ∈ y?, R x y) xs ys) :
    List.Forall₂ R (xs.filter f) (ys.filterMap id) := by
  induction h with
  | nil => exact .nil
  | @cons x y? xs ys hxy _ ih =>
    cases y? with
    | none => simpa [hxy.1] using ih
    | some y => simpa [hxy.1] using ⟨hxy.2 y rfl, ih⟩

theorem exists_flatten {R : α → β → Prop} {xs : List α} {yss : List (List β)}
    (h : List.Forall₂ R xs yss.flatten) :
    ∃ xss, xs = xss.flatten ∧ List.Forall₂ (List.Forall₂ R) xss yss := by
  induction yss generalizing xs with
  | nil => exact ⟨[], List.forall₂_nil_right_iff.mp h, .nil⟩
  | cons ys yss ih =>
    obtain ⟨xss, e, hxss⟩ := ih (List.forall₂_drop_append _ _ _ h)
    refine ⟨xs.take ys.length :: xss, ?_, .cons (List.forall₂_take_append _ _ _ h) hxss⟩
    rw [List.flatten_cons, ← e, List.take_append_drop]

end Schemata
