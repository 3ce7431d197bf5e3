import Mathlib.Data.List.Chain
import Mathlib.Data.List.Nodup
import Mathlib.Data.List.Perm.Subperm
import Mathlib.Logic.Relation
import Schemata.Proofs.Lists
import Schemata.Schema.Digraph

/-!
# Cycles of directed graphs

The search for a cycle is sound and complete: what it reports is a sequence of distinct nodes with
an edge from each to the next and from the last to the first, and it reports nothing only if no node
leads back to itself by way of another.
-/
namespace Schemata
namespace Digraph

variable {g : Digraph}

def Bounded (g : Digraph) : Prop := ∀ v w, g.Edge v w → w < g.size

/-- Distinct nodes, each of which leads to the next one and the last to the first. -/
structure IsCycle (g : Digraph) (cycle : List Nat) : Prop where
  distinct : cycle.Nodup
  several : 2 ≤ cycle.length
  chain : cycle.IsChain g.Edge
  closed : ∃ first ∈ cycle.head?, ∃ last ∈ cycle.getLast?, g.Edge last first

theorem Edge.lt_size {v w : Nat} (h : g.Edge v w) : v < g.size := by
  by_contra hv
  have hn : g.next v = [] := by
    rw [next, List.getD_eq_getElem?_getD, List.getElem?_eq_none (Nat.le_of_not_lt hv)]
    rfl
  rw [Edge, hn] at h
  exact List.not_mem_nil h

theorem Walk.trans {u v w : Nat} (h : g.Walk u v) (h' : g.Walk v w) : g.Walk u w := by
  induction h with
  | one edge distinct => exact .step edge distinct h'
  | step edge distinct _ ih => exact .step edge distinct (ih h')

theorem walk_iff_transGen {v w : Nat} :
    g.Walk v w ↔ Relation.TransGen (fun v w => g.Edge v w ∧ v ≠ w) v w := by
  constructor
  · intro h
    induction h with
    | one edge distinct => exact .single ⟨edge, distinct⟩
    | step edge distinct _ ih => exact .head ⟨edge, distinct⟩ ih
  · intro h
    induction h with
    | single edge => exact .one edge.1 edge.2
    | tail _ edge ih => exact ih.trans (.one edge.1 edge.2)

theorem Walk.lt_size {v w : Nat} (h : g.Walk v w) : v < g.size := by
  cases h with
  | one edge _ => exact edge.lt_size
  | step edge _ _ => exact edge.lt_size

theorem walk_of_isChain {v w : Nat} {rest : List Nat} (chain : (v :: rest).IsChain g.Edge)
    (distinct : (v :: rest).Nodup) (hw : w ∈ rest) : g.Walk v w := by
  induction rest generalizing v with
  | nil => cases hw
  | cons u rest ih =>
    have hvu : v ≠ u := fun e => (List.nodup_cons.mp distinct).1 (by simp [e])
    obtain ⟨edge, chain⟩ := List.isChain_cons_cons.mp chain
    rcases List.mem_cons.mp hw with rfl | hw
    · exact .one edge hvu
    · exact .step edge hvu (ih chain (List.nodup_cons.mp distinct).2 hw)

theorem IsCycle.cyclic {cycle : List Nat} (h : g.IsCycle cycle) : g.Cyclic := by
  obtain ⟨distinct, several, chain, first, hf, last, hl, edge⟩ := h
  match cycle with
  | [] => simp at several
  | [_] => simp at several
  | v :: w :: rest =>
    obtain rfl : v = first := by simpa using hf
    have hlast : last ∈ w :: rest := by
      rw [List.getLast?_cons_cons] at hl
      exact List.mem_of_getLast? hl
    have hne : last ≠ v := fun e => (List.nodup_cons.mp distinct).1 (e ▸ hlast)
    exact ⟨v, (walk_of_isChain chain distinct hlast).trans (.one edge hne)⟩

/-- Each node stands in front of the other nodes it leads to. -/
def Settled (g : Digraph) : List Nat → Prop
  | [] => True
  | v :: rest => (∀ w, g.Edge v w → w ≠ v → w ∈ rest) ∧ g.Settled rest

theorem Settled.mem_of_edge {nodes : List Nat} {v w : Nat} (h : g.Settled nodes) (hv : v ∈ nodes)
    (edge : g.Edge v w) : w ∈ nodes := by
  induction nodes with
  | nil => cases hv
  | cons u rest ih =>
    rcases List.mem_cons.mp hv with rfl | hv
    · by_cases hw : w = v
      · simp [hw]
      · exact List.mem_cons_of_mem _ (h.1 w edge hw)
    · exact List.mem_cons_of_mem _ (ih h.2 hv)

theorem Settled.mem_of_walk {nodes : List Nat} {v w : Nat} (h : g.Settled nodes) (hv : v ∈ nodes)
    (walk : g.Walk v w) : w ∈ nodes := by
  induction walk with
  | one edge _ => exact h.mem_of_edge hv edge
  | step edge _ _ ih => exact ih (h.mem_of_edge hv edge)

/-- No settled node lies on a cycle. -/
theorem Settled.not_walk {nodes : List Nat} {v : Nat} (h : g.Settled nodes) (hv : v ∈ nodes) :
    ¬ g.Walk v v := by
  induction nodes with
  | nil => cases hv
  | cons u rest ih =>
    by_cases hr : v ∈ rest
    · exact ih h.2 hr
    · obtain rfl : v = u := (List.mem_cons.mp hv).resolve_right hr
      intro walk
      cases walk with
      | one _ distinct => exact distinct rfl
      | step edge distinct rest => exact hr (h.2.mem_of_walk (h.1 _ edge distinct.symm) rest)

/-- The way to a node, nearest first. -/
structure Way (g : Digraph) (way : List Nat) : Prop where
  distinct : way.Nodup
  chain : way.IsChain fun w v => g.Edge v w
  bounded : ∀ v ∈ way, v < g.size

theorem way_singleton {v : Nat} (h : v < g.size) : g.Way [v] := by
  refine ⟨by simp, by simp, ?_⟩
  intro w hw
  rwa [List.mem_singleton.mp hw]

theorem Way.extend {v w : Nat} {above : List Nat} (h : g.Way (v :: above)) (bounded : g.Bounded)
    (edge : g.Edge v w) (fresh : w ∉ v :: above) : g.Way (w :: v :: above) := by
  refine ⟨List.nodup_cons.mpr ⟨fresh, h.distinct⟩, List.isChain_cons_cons.mpr ⟨edge, h.chain⟩, ?_⟩
  intro u hu
  rcases List.mem_cons.mp hu with rfl | hu
  · exact bounded v u edge
  · exact h.bounded u hu

theorem Way.length_le {way : List Nat} (h : g.Way way) : way.length ≤ g.size := by
  have hs : way ⊆ List.range g.size := fun v hv => List.mem_range.mpr (h.bounded v hv)
  simpa using (List.subperm_of_subset h.distinct hs).length_le

/-- An edge from the end of a way back into the way closes a cycle. -/
theorem Way.isCycle {v w : Nat} {above : List Nat} (h : g.Way (v :: above)) (edge : g.Edge v w)
    (hw : w ∈ above) : g.IsCycle (v :: above.takeWhile (· ≠ w) ++ [w]).reverse := by
  have hp : v :: above.takeWhile (· ≠ w) ++ [w] <+: v :: above := by
    simpa using prefix_takeWhile_append hw
  obtain ⟨beyond, hb⟩ := hp
  have distinct := h.distinct
  have chain := h.chain
  rw [← hb] at distinct chain
  refine ⟨?_, by simp, ?_, w, by simp, v, by rw [List.getLast?_reverse]; rfl, edge⟩
  · exact List.nodup_reverse.mpr (List.nodup_append.mp distinct).1
  · exact List.isChain_reverse.mpr (List.isChain_append.mp chain).1

def follow (g : Digraph) (depth : Nat) (above : List Nat) (node : Nat)
    (cleared : List Nat) (w : Nat) :
    Except (List Nat) (List Nat) :=
  if w = node ∨ w ∈ cleared then .ok cleared
  else if w ∈ above then .error (node :: above.takeWhile (· ≠ w) ++ [w]).reverse
  else g.search depth (node :: above) w cleared

theorem search_succ (g : Digraph) (depth : Nat) (above : List Nat) (node : Nat)
    (cleared : List Nat) :
    g.search (depth + 1) above node cleared = do
      return node :: (← (g.next node).foldlM (g.follow depth above node) cleared) := rfl

/-- The result of a search that sets out to settle some nodes: a cycle, or all that was settled
before together with these nodes. -/
def Sound (g : Digraph) (cleared aims : List Nat) : Except (List Nat) (List Nat) → Prop
  | .ok result => g.Settled result ∧ cleared ⊆ result ∧ aims ⊆ result
  | .error cycle => g.IsCycle cycle

theorem sound_foldlM {f : List Nat → Nat → Except (List Nat) (List Nat)} {aims : Nat → List Nat}
    {nodes : List Nat}
    (hf : ∀ w ∈ nodes, ∀ cleared, g.Settled cleared → g.Sound cleared (aims w) (f cleared w))
    {cleared : List Nat} (h : g.Settled cleared) :
    g.Sound cleared (nodes.flatMap aims) (nodes.foldlM f cleared) := by
  induction nodes generalizing cleared with
  | nil => exact ⟨h, List.Subset.refl _, by simp⟩
  | cons w rest ih =>
    rw [List.foldlM_cons]
    have hw := hf w (by simp) cleared h
    cases hfw : f cleared w with
    | error cycle =>
      rw [hfw] at hw
      exact hw
    | ok result =>
      rw [hfw] at hw
      have hr := ih (fun v hv => hf v (by simp [hv])) hw.1
      change g.Sound cleared _ (rest.foldlM f result)
      cases hfr : rest.foldlM f result with
      | error cycle =>
        rw [hfr] at hr
        exact hr
      | ok last =>
        rw [hfr] at hr
        refine ⟨hr.1, List.Subset.trans hw.2.1 hr.2.1, ?_⟩
        rw [List.flatMap_cons]
        exact List.append_subset.mpr ⟨List.Subset.trans hw.2.2 hr.2.1, hr.2.2⟩

/-- An edge leads to a node that is settled already, closes a cycle, or goes deeper. -/
theorem sound_follow {depth : Nat} {above : List Nat} {node w : Nat} (way : g.Way (node :: above))
    (edge : g.Edge node w)
    (deeper : w ∉ node :: above → ∀ cleared, g.Settled cleared →
      g.Sound cleared [w] (g.search depth (node :: above) w cleared))
    {cleared : List Nat} (h : g.Settled cleared) :
    g.Sound cleared ([w].filter (· ≠ node)) (g.follow depth above node cleared w) := by
  unfold follow
  split_ifs with hc ha
  · refine ⟨h, List.Subset.refl _, ?_⟩
    rcases hc with rfl | hc
    · simp
    · have hsub : [w] ⊆ cleared := by simpa using hc
      exact fun v hv => hsub (List.mem_of_mem_filter hv)
  · exact way.isCycle edge ha
  · have hn : w ≠ node := fun e => hc (.inl e)
    have hfresh : w ∉ node :: above := by simp [hn, ha]
    simpa [hn] using deeper hfresh cleared h

/-- A search settles its node or finds a cycle. The depth suffices as long as it makes up for the
nodes that are missing from the way. -/
theorem search_sound (bounded : g.Bounded) {depth : Nat} {above : List Nat} {node : Nat}
    {cleared : List Nat} (enough : g.size ≤ depth + above.length) (way : g.Way (node :: above))
    (h : g.Settled cleared) : g.Sound cleared [node] (g.search depth above node cleared) := by
  induction depth generalizing above node cleared with
  | zero =>
    -- The way would have more nodes than the graph.
    have hl := way.length_le
    simp only [List.length_cons] at hl
    omega
  | succ depth ih =>
    have hdepth : g.size ≤ depth + (node :: above).length := by
      simp only [List.length_cons]
      omega
    have hfollow : ∀ w ∈ g.next node, ∀ cleared, g.Settled cleared →
        g.Sound cleared ([w].filter (· ≠ node)) (g.follow depth above node cleared w) := by
      intro w edge cleared h
      refine sound_follow way edge (fun fresh cleared h => ?_) h
      exact ih hdepth (way.extend bounded edge fresh) h
    have hs := sound_foldlM hfollow h
    rw [search_succ]
    cases hr : (g.next node).foldlM (g.follow depth above node) cleared with
    | error cycle =>
      rw [hr] at hs
      exact hs
    | ok result =>
      rw [hr] at hs
      refine ⟨⟨?_, hs.1⟩, List.Subset.trans hs.2.1 (List.subset_cons_self _ _), by simp⟩
      intro w edge hw
      exact hs.2.2 (List.mem_flatMap.mpr ⟨w, edge, by simp [hw]⟩)

/-- The search from all nodes reports a cycle, or else no node lies on one. -/
theorem findCycle_sound (bounded : g.Bounded) :
    (g.findCycle = [] ∧ ¬ g.Cyclic) ∨ g.IsCycle g.findCycle := by
  have hstart : ∀ start ∈ List.range g.size, ∀ cleared, g.Settled cleared →
      g.Sound cleared [start]
        (if start ∈ cleared then .ok cleared else g.search g.size [] start cleared) := by
    intro start hs cleared h
    split_ifs with hc
    · exact ⟨h, List.Subset.refl _, by simpa using hc⟩
    · exact search_sound bounded (by simp) (way_singleton (List.mem_range.mp hs)) h
  have hs := sound_foldlM hstart (show g.Settled [] from trivial)
  rw [findCycle]
  cases hr : (List.range g.size).foldlM (fun cleared start =>
      if start ∈ cleared then .ok cleared else g.search g.size [] start cleared) [] with
  | error cycle =>
    rw [hr] at hs
    exact .inr hs
  | ok result =>
    rw [hr] at hs
    refine .inl ⟨rfl, ?_⟩
    rintro ⟨v, walk⟩
    have hv : v ∈ result := hs.2.2 (by simpa using walk.lt_size)
    exact hs.1.not_walk hv walk

theorem findCycle_eq_nil_iff (bounded : g.Bounded) : g.findCycle = [] ↔ ¬ g.Cyclic := by
  rcases findCycle_sound bounded with ⟨hn, hc⟩ | h
  · simp [hn, hc]
  · have hne : g.findCycle ≠ [] := by
      intro e
      have := h.several
      simp [e] at this
    simp [hne, h.cyclic]

end Digraph

end Schemata
