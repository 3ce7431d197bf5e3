import Schemata.Proofs.Digraph.Cycle

/-!
# Depth-first order of directed graphs

Without a cycle and without loops, the depth-first post-order lists every node once, behind all
nodes it leads to. Where the nodes themselves are in such an order, it leaves them there.
-/
namespace Schemata
namespace Digraph

variable {g : Digraph}

def Loopless (g : Digraph) : Prop := ∀ v, ¬ g.Edge v v

theorem Settled.of_append {before behind : List Nat} (h : g.Settled (before ++ behind)) :
    g.Settled behind := by
  induction before with
  | nil => exact h
  | cons v rest ih => exact ih h.2

/-- Distinct nodes of the graph, each behind the other nodes it leads to. -/
structure Placed (g : Digraph) (done : List Nat) : Prop where
  distinct : done.Nodup
  settled : g.Settled done.reverse
  bounded : ∀ v ∈ done, v < g.size

theorem placed_nil : g.Placed [] := ⟨List.nodup_nil, trivial, by simp⟩

theorem Placed.snoc {done : List Nat} {v : Nat} (h : g.Placed done) (fresh : v ∉ done)
    (hv : v < g.size) (next : ∀ w, g.Edge v w → w ≠ v → w ∈ done) : g.Placed (done ++ [v]) := by
  refine ⟨List.nodup_append.mpr ⟨h.distinct, List.nodup_singleton v, ?_⟩, ?_, ?_⟩
  · intro a ha b hb e
    rw [List.mem_singleton] at hb
    exact fresh (hb ▸ e ▸ ha)
  · rw [List.reverse_append]
    exact ⟨fun w edge hw => List.mem_reverse.mpr (next w edge hw), h.settled⟩
  · intro w hw
    rcases List.mem_append.mp hw with hw | hw
    · exact h.bounded w hw
    · rwa [List.mem_singleton.mp hw]

/-- Nodes are placed behind those that were placed before, but none that lies on the way. -/
structure Extends (g : Digraph) (way done result : List Nat) : Prop where
  placed : g.Placed result
  keeps : done ⊆ result
  apart : ∀ v ∈ way, v ∈ result → v ∈ done

theorem Extends.trans {way first second third : List Nat} (h : g.Extends way first second)
    (h' : g.Extends way second third) : g.Extends way first third :=
  ⟨h'.placed, List.Subset.trans h.keeps h'.keeps,
    fun v hv hr => h.apart v hv (h'.apart v hv hr)⟩

theorem extends_foldl {f : List Nat → Nat → List Nat} {way nodes : List Nat}
    (hf : ∀ w ∈ nodes, ∀ done, g.Placed done → g.Extends way done (f done w) ∧ w ∈ f done w)
    {done : List Nat} (h : g.Placed done) :
    g.Extends way done (nodes.foldl f done) ∧ nodes ⊆ nodes.foldl f done := by
  induction nodes generalizing done with
  | nil => exact ⟨⟨h, List.Subset.refl _, fun _ _ hv => hv⟩, List.nil_subset _⟩
  | cons w rest ih =>
    obtain ⟨hw, hm⟩ := hf w (by simp) done h
    obtain ⟨hr, hs⟩ := ih (fun v hv => hf v (by simp [hv])) hw.placed
    exact ⟨hw.trans hr, List.cons_subset.mpr ⟨hr.keeps hm, hs⟩⟩

/-- A visit places its node. As in the search for a cycle, the depth makes up for the nodes that are
missing from the way. -/
theorem visit_extends (bounded : g.Bounded) (loopless : g.Loopless) (acyclic : ¬ g.Cyclic)
    {depth : Nat} {above : List Nat} {v : Nat} {done : List Nat}
    (enough : g.size ≤ depth + above.length) (way : g.Way (v :: above)) (h : g.Placed done) :
    g.Extends above done (g.visit depth done v) ∧ v ∈ g.visit depth done v := by
  induction depth generalizing above v done with
  | zero =>
    have hl := way.length_le
    simp only [List.length_cons] at hl
    omega
  | succ depth ih =>
    have hdepth : g.size ≤ depth + (v :: above).length := by
      simp only [List.length_cons]
      omega
    rw [visit]
    by_cases hv : v ∈ done
    · rw [if_pos hv]
      exact ⟨⟨h, List.Subset.refl _, fun _ _ hd => hd⟩, hv⟩
    · rw [if_neg hv]
      have hnext : ∀ w ∈ g.next v, ∀ done, g.Placed done →
          g.Extends (v :: above) done (g.visit depth done w) ∧ w ∈ g.visit depth done w := by
        intro w hw done h
        have hfresh : w ∉ v :: above := by
          intro hm
          rcases List.mem_cons.mp hm with rfl | hm
          · exact loopless w hw
          · exact acyclic (way.isCycle hw hm).cyclic
        exact ih hdepth (way.extend bounded hw hfresh) h
      obtain ⟨hx, hs⟩ := extends_foldl hnext h
      -- The visits below do not place the node itself, since it lies on their way.
      have hv' : v ∉ (g.next v).foldl (g.visit depth) done :=
        fun hm => hv (hx.apart v (by simp) hm)
      have hplaced := hx.placed.snoc hv' (way.bounded v (by simp)) fun w edge _ => hs edge
      refine ⟨⟨hplaced, fun w hw => List.mem_append_left _ (hx.keeps hw), ?_⟩, by simp⟩
      intro w hw hm
      rcases List.mem_append.mp hm with hm | hm
      · exact hx.apart w (List.mem_cons_of_mem _ hw) hm
      · rw [List.mem_singleton] at hm
        exact absurd (hm ▸ hw) (List.nodup_cons.mp way.distinct).1

theorem order_extends (bounded : g.Bounded) (loopless : g.Loopless) (acyclic : ¬ g.Cyclic) :
    g.Extends [] [] g.order ∧ List.range g.size ⊆ g.order :=
  extends_foldl (fun _ hv _ h =>
    visit_extends bounded loopless acyclic (by simp) (way_singleton (List.mem_range.mp hv)) h)
    placed_nil

theorem order_perm (bounded : g.Bounded) (loopless : g.Loopless) (acyclic : ¬ g.Cyclic) :
    g.order.Perm (List.range g.size) := by
  obtain ⟨h, hs⟩ := order_extends bounded loopless acyclic
  refine (List.perm_ext_iff_of_nodup h.placed.distinct List.nodup_range).mpr fun v => ?_
  exact ⟨fun hv => List.mem_range.mpr (h.placed.bounded v hv), fun hv => hs hv⟩

/-- A node is placed behind those it leads to. -/
theorem order_sublist (bounded : g.Bounded) (loopless : g.Loopless)
    (acyclic : ¬ g.Cyclic) {v w : Nat} (edge : g.Edge v w) : [w, v].Sublist g.order := by
  obtain ⟨h, hs⟩ := order_extends bounded loopless acyclic
  have hne : w ≠ v := fun e => loopless v (e ▸ edge)
  obtain ⟨before, behind, ho⟩ := List.append_of_mem (hs (List.mem_range.mpr edge.lt_size))
  have hset : g.Settled (v :: before.reverse) := by
    have := h.placed.settled
    rw [ho, List.reverse_append, List.reverse_cons, List.append_assoc] at this
    exact this.of_append
  have hw : w ∈ before := List.mem_reverse.mp (hset.1 w edge hne)
  rw [ho]
  exact (List.singleton_sublist.mpr hw).append (List.singleton_sublist.mpr (by simp))

def Descending (g : Digraph) : Prop := ∀ v w, g.Edge v w → w < v

theorem Descending.bounded (h : g.Descending) : g.Bounded :=
  fun v w edge => (h v w edge).trans edge.lt_size

theorem Descending.lt_of_walk (h : g.Descending) {v w : Nat} (walk : g.Walk v w) : w < v := by
  induction walk with
  | one edge _ => exact h _ _ edge
  | step edge _ _ ih => exact ih.trans (h _ _ edge)

theorem Descending.acyclic (h : g.Descending) : ¬ g.Cyclic := by
  rintro ⟨v, walk⟩
  exact Nat.lt_irrefl v (h.lt_of_walk walk)

theorem visit_of_mem {depth v : Nat} {done : List Nat} (h : v ∈ done) :
    g.visit depth done v = done := by
  cases depth <;> simp [visit, h]

theorem foldl_visit_of_subset {depth : Nat} {nodes done : List Nat} (h : nodes ⊆ done) :
    nodes.foldl (g.visit depth) done = done := by
  induction nodes with
  | nil => rfl
  | cons v rest ih =>
    rw [List.foldl_cons, visit_of_mem (h (by simp)), ih (List.subset_of_cons_subset h)]

/-- When all nodes below are listed, a visit only appends its node. -/
theorem Descending.visit_range (h : g.Descending) {depth v : Nat} (enough : 0 < depth) :
    g.visit depth (List.range v) v = List.range (v + 1) := by
  obtain ⟨depth, rfl⟩ := Nat.exists_eq_succ_of_ne_zero enough.ne'
  have hnext : g.next v ⊆ List.range v := fun w edge => List.mem_range.mpr (h v w edge)
  rw [visit, if_neg (by simp), foldl_visit_of_subset hnext, List.range_succ]

/-- The nodes are listed in their own order if each leads to lower nodes only. -/
theorem Descending.order_eq_range (h : g.Descending) : g.order = List.range g.size := by
  have hvisits :
      ∀ count ≤ g.size, (List.range count).foldl (g.visit g.size) [] = List.range count := by
    intro count
    induction count with
    | zero => exact fun _ => rfl
    | succ count ih =>
      intro hcount
      rw [List.range_succ, List.foldl_concat, ih (by omega), h.visit_range (by omega),
        List.range_succ]
  exact hvisits g.size le_rfl

end Digraph

end Schemata
