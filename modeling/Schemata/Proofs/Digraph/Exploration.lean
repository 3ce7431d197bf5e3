import Schemata.Proofs.Digraph.Cycle

/-!
# Exploring a directed graph step by step

The search for a cycle as a loop over a stack: each entry of the stack is a node on the way, with
the edges that are still to be followed from it. The loop ends from every graph, and with the cycle
that `findCycle` reports.
-/
namespace Schemata
namespace Digraph

structure Exploration where
  /-- The nodes from which a search is still to be started. -/
  starts : List Nat
  /-- The way with the edges left at each of its nodes, nearest first. -/
  stack : List (Nat × List Nat) := []
  /-- The nodes from which all edges were followed. -/
  cleared : List Nat := []
  deriving DecidableEq, Repr

namespace Exploration

/-- One turn of the loop: where it stands next, or the cycle with which it ends. It ends without one
when there is nothing left to start from. -/
def advance (g : Digraph) (s : Exploration) : Except (List Nat) Exploration :=
  match s.stack with
  | [] =>
    match s.starts with
    | [] => .error []
    | v :: starts => .ok { s with starts, stack := if v ∈ s.cleared then [] else [(v, g.next v)] }
  | (v, []) :: stack => .ok { s with stack, cleared := v :: s.cleared }
  | (v, w :: left) :: stack =>
    let path := (v :: stack.map Prod.fst).reverse
    if w = v ∨ w ∈ s.cleared then .ok { s with stack := (v, left) :: stack }
    else if w ∈ path then .error (path.drop (path.idxOf w))
    else .ok { s with stack := (w, g.next w) :: (v, left) :: stack }

/-- The loop ends after finitely many turns. -/
inductive Ends (g : Digraph) : Exploration → List Nat → Prop
  | stop {s : Exploration} {cycle : List Nat} : s.advance g = .error cycle → Ends g s cycle
  | turn {s s' : Exploration} {cycle : List Nat} : s.advance g = .ok s' → Ends g s' cycle →
    Ends g s cycle

end Exploration

open Exploration

variable {g : Digraph} {depth v w : Nat} {above starts left cleared : List Nat}
  {stack : List (Nat × List Nat)}

theorem drop_idxOf_path (distinct : (v :: above).Nodup) (hw : w ∈ above) :
    (v :: above).reverse.drop ((v :: above).reverse.idxOf w) =
      (v :: above.takeWhile (· ≠ w) ++ [w]).reverse := by
  obtain ⟨beyond, hb⟩ := prefix_takeWhile_append hw
  have hpath : (v :: above).reverse =
      beyond.reverse ++ (v :: above.takeWhile (· ≠ w) ++ [w]).reverse := by
    rw [← List.reverse_append, List.append_assoc, List.cons_append, ← List.append_assoc, hb]
  have hfar : w ∉ beyond.reverse := by
    rw [List.mem_reverse]
    have habove := (List.nodup_cons.mp distinct).2
    rw [← hb] at habove
    exact fun h => (List.nodup_append.mp habove).2.2 w (by simp) w h rfl
  have hfirst : (v :: above).reverse.idxOf w = beyond.reverse.length := by
    rw [hpath, List.idxOf_append_of_notMem hfar]
    simp
  rw [hfirst, hpath, List.drop_left]

/-- What a search gives, the loop gives after some turns: the nodes that it then knows to be
cleared, or the cycle with which it ends. -/
def Unrolls (g : Digraph) (s : Exploration) (after : List Nat → Exploration) :
    Except (List Nat) (List Nat) → Prop
  | .ok cleared => ∀ cycle, Ends g (after cleared) cycle → Ends g s cycle
  | .error cycle => Ends g s cycle

theorem Unrolls.turn {s s' : Exploration} {after : List Nat → Exploration}
    {result : Except (List Nat) (List Nat)} (hs : s.advance g = .ok s')
    (h : g.Unrolls s' after result) :
    g.Unrolls s after result := by
  cases result with
  | ok cleared => exact fun cycle hc => Ends.turn hs (h cycle hc)
  | error cycle => exact Ends.turn hs h

theorem Unrolls.bind {s : Exploration} {mid after : List Nat → Exploration}
    {x : Except (List Nat) (List Nat)} {f : List Nat → Except (List Nat) (List Nat)}
    (h : g.Unrolls s mid x) (hf : ∀ cleared, g.Unrolls (mid cleared) after (f cleared)) :
    g.Unrolls s after (x >>= f) := by
  cases x with
  | error cycle => exact h
  | ok cleared =>
    have hrest := hf cleared
    change g.Unrolls s after (f cleared)
    cases hc : f cleared with
    | ok cleared' =>
      rw [hc] at hrest
      exact fun cycle hcycle => h cycle (hrest cycle hcycle)
    | error cycle =>
      rw [hc] at hrest
      exact h cycle hrest

theorem advance_known (known : w = v ∨ w ∈ cleared) :
    advance g ⟨starts, (v, w :: left) :: stack, cleared⟩ =
      .ok ⟨starts, (v, left) :: stack, cleared⟩ := by
  simp only [advance, if_pos known]

theorem advance_back (fresh : ¬ (w = v ∨ w ∈ cleared)) (hw : w ∈ stack.map Prod.fst)
    (distinct : (v :: stack.map Prod.fst).Nodup) :
    advance g ⟨starts, (v, w :: left) :: stack, cleared⟩ =
      .error (v :: (stack.map Prod.fst).takeWhile (· ≠ w) ++ [w]).reverse := by
  have hpath : w ∈ (v :: stack.map Prod.fst).reverse :=
    List.mem_reverse.mpr (List.mem_cons_of_mem v hw)
  simp only [advance, if_neg fresh, if_pos hpath, drop_idxOf_path distinct hw]

theorem advance_deeper (fresh : ¬ (w = v ∨ w ∈ cleared)) (hw : w ∉ stack.map Prod.fst) :
    advance g ⟨starts, (v, w :: left) :: stack, cleared⟩ =
      .ok ⟨starts, (w, g.next w) :: (v, left) :: stack, cleared⟩ := by
  have hpath : w ∉ (v :: stack.map Prod.fst).reverse := by
    rw [List.mem_reverse, List.mem_cons, not_or]
    exact ⟨fun e => fresh (.inl e), hw⟩
  simp only [advance, if_neg fresh, if_neg hpath]

/-- An edge is passed over, closes a cycle, or leads to a search that comes back to the edges
left. -/
theorem unrolls_follow (distinct : (v :: stack.map Prod.fst).Nodup)
    (deeper : w ∉ v :: stack.map Prod.fst →
      g.Unrolls ⟨starts, (w, g.next w) :: (v, left) :: stack, cleared⟩
        (⟨starts, (v, left) :: stack, ·⟩) (g.search depth (v :: stack.map Prod.fst) w cleared)) :
    g.Unrolls ⟨starts, (v, w :: left) :: stack, cleared⟩ (⟨starts, (v, left) :: stack, ·⟩)
      (g.follow depth (stack.map Prod.fst) v cleared w) := by
  unfold follow
  split_ifs with known hw
  · exact .turn (advance_known known) fun _ h => h
  · exact Ends.stop (advance_back known hw distinct)
  · have hfresh : w ∉ v :: stack.map Prod.fst := by
      rw [List.mem_cons, not_or]
      exact ⟨fun e => known (.inl e), hw⟩
    exact .turn (advance_deeper known hw) (deeper hfresh)

theorem unrolls_foldlM (distinct : (v :: stack.map Prod.fst).Nodup)
    (deeper : ∀ w ∈ left, w ∉ v :: stack.map Prod.fst → ∀ left cleared,
      g.Unrolls ⟨starts, (w, g.next w) :: (v, left) :: stack, cleared⟩
        (⟨starts, (v, left) :: stack, ·⟩) (g.search depth (v :: stack.map Prod.fst) w cleared)) :
    g.Unrolls ⟨starts, (v, left) :: stack, cleared⟩ (⟨starts, stack, ·⟩)
      (do return v :: (← left.foldlM (g.follow depth (stack.map Prod.fst) v) cleared)) := by
  induction left generalizing cleared with
  | nil =>
    have hleave :
        advance g ⟨starts, (v, []) :: stack, cleared⟩ = .ok ⟨starts, stack, v :: cleared⟩ := rfl
    exact .turn hleave fun _ h => h
  | cons w left ih =>
    rw [List.foldlM_cons, bind_assoc]
    refine (unrolls_follow distinct fun fresh => deeper w (by simp) fresh left cleared).bind
      fun cleared => ?_
    exact ih fun u hu => deeper u (List.mem_cons_of_mem w hu)

/-- A search is what the loop does from the time it enters a node until it leaves it. -/
theorem unrolls_search (bounded : g.Bounded) (enough : g.size ≤ depth + (stack.map Prod.fst).length)
    (way : g.Way (v :: stack.map Prod.fst)) :
    g.Unrolls ⟨starts, (v, g.next v) :: stack, cleared⟩ (⟨starts, stack, ·⟩)
      (g.search depth (stack.map Prod.fst) v cleared) := by
  induction depth generalizing v stack cleared with
  | zero =>
    -- The way would have more nodes than the graph.
    have hl := way.length_le
    simp only [List.length_cons] at hl
    omega
  | succ depth ih =>
    rw [search_succ]
    refine unrolls_foldlM way.distinct fun w edge fresh left cleared => ?_
    have hdepth : g.size ≤ depth + (((v, left) :: stack).map Prod.fst).length := by
      simp only [List.map_cons, List.length_cons]
      omega
    exact ih hdepth (way.extend bounded edge fresh)

/-- From every graph the loop ends, with the cycle that the search reports. -/
theorem ends_findCycle (bounded : g.Bounded) :
    Ends g { starts := List.range g.size } g.findCycle := by
  have hstarts : ∀ starts : List Nat, (∀ v ∈ starts, v < g.size) → ∀ cleared,
      g.Unrolls { starts, cleared } (fun cleared => { starts := [], cleared })
        (starts.foldlM (fun cleared start =>
          if start ∈ cleared then .ok cleared else g.search g.size [] start cleared) cleared) := by
    intro starts
    induction starts with
    | nil => exact fun _ cleared cycle h => h
    | cons v starts ih =>
      intro hlt cleared
      have hv : v < g.size := hlt v (by simp)
      have hfirst :
          g.Unrolls { starts := v :: starts, cleared } (fun cleared => { starts, cleared })
          (if v ∈ cleared then .ok cleared else g.search g.size [] v cleared) := by
        split_ifs with known
        · have hpass : advance g { starts := v :: starts, cleared } = .ok { starts, cleared } := by
            simp [advance, known]
          exact .turn hpass fun _ h => h
        · have hstart : advance g { starts := v :: starts, cleared } =
              .ok ⟨starts, [(v, g.next v)], cleared⟩ := by
            simp [advance, known]
          exact .turn hstart (unrolls_search bounded (by simp) (way_singleton hv))
      rw [List.foldlM_cons]
      exact hfirst.bind fun cleared => ih (fun u hu => hlt u (List.mem_cons_of_mem v hu)) cleared
  have h := hstarts (List.range g.size) (fun v hv => List.mem_range.mp hv) []
  rw [findCycle]
  cases hr : (List.range g.size).foldlM (fun cleared start =>
      if start ∈ cleared then .ok cleared else g.search g.size [] start cleared) [] with
  | error cycle =>
    rw [hr] at h
    exact h
  | ok cleared =>
    rw [hr] at h
    exact h [] (.stop rfl)

end Digraph
end Schemata
