import Schemata.Proofs.Digraph.Cycle

/-!
# Directed graphs with named nodes

The nodes of a graph are numbers, by which things are looked up that have names of their own: the
entries of a map, or the tables of a list. A cycle of numbers is a circle of the things at these
places.
-/
namespace Schemata

/-- Distinct elements, at least two, each of which is related to the next one and the last to the
first. -/
structure Circle {α : Type} (R : α → α → Prop) (l : List α) : Prop where
  distinct : l.Nodup
  several : 2 ≤ l.length
  chain : l.IsChain R
  closed : ∃ first ∈ l.head?, ∃ last ∈ l.getLast?, R last first

theorem Circle.ne_nil {α : Type} {R : α → α → Prop} {l : List α} (h : Circle R l) : l ≠ [] := by
  intro e
  have := h.several
  simp [e] at this

namespace Digraph
open Relation

variable {α : Type} {g : Digraph} {names : List α} {R : α → α → Prop} {cycle : List Nat} {v : Nat}

theorem IsCycle.exists_edge (h : g.IsCycle cycle) (hv : v ∈ cycle) : ∃ w, g.Edge v w := by
  obtain ⟨i, hi, rfl⟩ := List.mem_iff_getElem.mp hv
  rcases Nat.lt_or_ge (i + 1) cycle.length with hlt | hge
  · exact ⟨cycle[i + 1], List.isChain_iff_getElem.mp h.chain i hlt⟩
  · obtain ⟨first, _, last, hl, edge⟩ := h.closed
    have hlast : last = cycle[i] := by
      rw [List.getLast?_eq_getElem?, show cycle.length - 1 = i by omega,
        List.getElem?_eq_getElem hi] at hl
      exact (Option.some.inj hl).symm
    exact ⟨first, hlast ▸ edge⟩

theorem IsCycle.circle (h : g.IsCycle cycle)
    (named : ∀ v w, g.Edge v w → ∃ a b, names[v]? = some a ∧ names[w]? = some b ∧ R a b)
    (apart : ∀ v w a, (∃ u, g.Edge v u) → (∃ u, g.Edge w u) → names[v]? = some a →
      names[w]? = some a → v = w) :
    Circle R (cycle.filterMap (names[·]?)) := by
  obtain ⟨first, hfirst, last, hlast, back⟩ := h.closed
  obtain ⟨default, _, _, _, _⟩ := named last first back
  let name (v : Nat) : α := (names[v]?).getD default
  have hname : ∀ v w, g.Edge v w → names[v]? = some (name v) ∧ R (name v) (name w) := by
    intro v w edge
    obtain ⟨a, b, ha, hb, hab⟩ := named v w edge
    simp only [name, ha, hb, Option.getD_some]
    exact ⟨trivial, hab⟩
  have hmap : cycle.filterMap (names[·]?) = cycle.map name := by
    rw [← List.filterMap_eq_map']
    refine List.filterMap_congr fun v hv => ?_
    obtain ⟨w, edge⟩ := h.exists_edge hv
    exact (hname v w edge).1
  rw [hmap]
  refine ⟨?_, by simpa using h.several, ?_, name first, ?_, name last, ?_,
    (hname last first back).2⟩
  · refine h.distinct.map_on fun v hv w hw e => ?_
    obtain ⟨u, edge⟩ := h.exists_edge hv
    obtain ⟨u', edge'⟩ := h.exists_edge hw
    exact apart v w (name v) ⟨u, edge⟩ ⟨u', edge'⟩ (hname v u edge).1 (e ▸ (hname w u' edge').1)
  · exact (List.isChain_map name).mpr (h.chain.imp fun v w edge => (hname v w edge).2)
  · rw [List.head?_map, Option.mem_def.mp hfirst]
    rfl
  · rw [List.getLast?_map, Option.mem_def.mp hlast]
    rfl

/-- Each node has a name of its own, and there is an edge between two nodes exactly if their names
are related. -/
structure Named (g : Digraph) (names : List α) (R : α → α → Prop) : Prop where
  distinct : names.Nodup
  edge : ∀ v w, g.Edge v w ↔ ∃ a b, names[v]? = some a ∧ names[w]? = some b ∧ R a b
  size : g.size = names.length
  mem : ∀ a b, R a b → a ∈ names ∧ b ∈ names

theorem Named.bounded (h : g.Named names R) : g.Bounded := by
  intro v w edge
  obtain ⟨_, b, _, hb, _⟩ := (h.edge v w).mp edge
  rw [h.size]
  exact (List.getElem?_eq_some_iff.mp hb).1

theorem Named.circle (h : g.Named names R) (hc : g.IsCycle cycle) :
    Circle R (cycle.filterMap (names[·]?)) := by
  refine hc.circle (fun v w => (h.edge v w).mp) fun v w a _ _ hv hw => ?_
  exact (List.getElem?_inj (List.getElem?_eq_some_iff.mp hv).1 h.distinct).mp (hv.trans hw.symm)

/-- The graph is cyclic exactly if a name is related to itself by way of another. -/
theorem Named.cyclic_iff [DecidableEq α] (h : g.Named names R) :
    g.Cyclic ↔ ∃ a, TransGen (fun a b => R a b ∧ a ≠ b) a a := by
  constructor
  · rintro ⟨v, walk⟩
    have path := walk_iff_transGen.mp walk
    obtain ⟨default, _⟩ : ∃ a, names[v]? = some a :=
      ⟨_, List.getElem?_eq_getElem (h.size ▸ walk.lt_size)⟩
    have hlift :
        ∀ i j, g.Edge i j ∧ i ≠ j → R ((names[i]?).getD default) ((names[j]?).getD default) ∧
        (names[i]?).getD default ≠ (names[j]?).getD default := by
      rintro i j ⟨edge, hij⟩
      obtain ⟨a, b, ha, hb, hab⟩ := (h.edge i j).mp edge
      rw [ha, hb]
      refine ⟨hab, fun e => hij ?_⟩
      obtain rfl : a = b := e
      exact (List.getElem?_inj (List.getElem?_eq_some_iff.mp ha).1 h.distinct).mp (ha.trans hb.symm)
    exact ⟨_, TransGen.lift (fun i => (names[i]?).getD default) hlift _ _ path⟩
  · rintro ⟨a, path⟩
    have hlift : ∀ a b, R a b ∧ a ≠ b → g.Edge (names.idxOf a) (names.idxOf b) ∧
        names.idxOf a ≠ names.idxOf b := by
      rintro a b ⟨hab, hne⟩
      obtain ⟨ha, hb⟩ := h.mem a b hab
      refine ⟨(h.edge _ _).mpr ⟨a, b, List.getElem?_idxOf ha, List.getElem?_idxOf hb, hab⟩, ?_⟩
      exact fun e => hne ((List.idxOf_inj ha).mp e)
    exact ⟨_, walk_iff_transGen.mpr (TransGen.lift names.idxOf hlift _ _ path)⟩

/-! ## Maps from nodes to the nodes they lead to -/

def Leads (map : List (α × List α)) (a b : α) : Prop := ∃ next, (a, next) ∈ map ∧ b ∈ next

/-- The graph of a map, whose nodes are the places of its keys. -/
def ofMap [DecidableEq α] (map : List (α × List α)) : Digraph where
  successors := map.map fun entry => entry.2.map ((map.map Prod.fst).idxOf ·)

def cycleOf [DecidableEq α] (map : List (α × List α)) : List α :=
  (ofMap map).findCycle.filterMap ((map.map Prod.fst)[·]?)

theorem named_ofMap [DecidableEq α] {map : List (α × List α)} (distinct : (map.map Prod.fst).Nodup)
    (closed : ∀ entry ∈ map, ∀ b ∈ entry.2, b ∈ map.map Prod.fst) :
    (ofMap map).Named (map.map Prod.fst) (Leads map) where
  distinct := distinct
  edge := by
    intro v w
    have hnext : (ofMap map).next v = ((map[v]?).map fun entry =>
        entry.2.map ((map.map Prod.fst).idxOf ·)).getD [] := by
      rw [next, ofMap, List.getD_eq_getElem?_getD, List.getElem?_map]
    rw [Edge, hnext]
    constructor
    · intro hw
      cases hv : map[v]? with
      | none => simp [hv] at hw
      | some entry =>
        have hentry := List.mem_of_getElem? hv
        simp only [hv, Option.map_some, Option.getD_some, List.mem_map] at hw
        obtain ⟨b, hb, rfl⟩ := hw
        exact ⟨entry.1, b, by simp [hv], List.getElem?_idxOf (closed entry hentry b hb), entry.2,
          hentry, hb⟩
    · rintro ⟨a, b, ha, hb, next, hentry, hmem⟩
      obtain ⟨i, hi⟩ := List.mem_iff_getElem?.mp hentry
      have hplace : (map.map Prod.fst)[i]? = some a := by simp [hi]
      have hlt := (List.getElem?_eq_some_iff.mp hplace).1
      obtain rfl : i = v := (List.getElem?_inj hlt distinct).mp (hplace.trans ha.symm)
      have hw : (map.map Prod.fst).idxOf b = w := by
        have hlt := (List.getElem?_eq_some_iff.mp hb).1
        rw [← (List.getElem?_eq_some_iff.mp hb).2]
        exact distinct.idxOf_getElem w hlt
      simp only [hi, Option.map_some, Option.getD_some, List.mem_map]
      exact ⟨b, hmem, hw⟩
  size := by simp [size, ofMap]
  mem := by
    rintro a b ⟨next, hentry, hb⟩
    exact ⟨List.mem_map_of_mem hentry, closed _ hentry b hb⟩

end Digraph

end Schemata
