import MetricLayer.Proofs.JoinGraph.JoinTree
import Mathlib.Algebra.BigOperators.Ring.Finset
import Mathlib.Algebra.Order.BigOperators.Group.Finset
import Mathlib.Data.List.TakeWhile

/-!
# Tours

A tour visits nodes one after the other; its legs are the distances from each node to the next.
Tours stand between the chosen links and any other way to connect the requested nodes:

* `JoinGraph.sum_chosenLinks_le` — the chosen links are together no longer than a tour of the
  requested nodes. For every threshold there are no more chosen links above it than legs above it,
  since both lead between the components that the shorter links leave apart;
* `JoinGraph.exists_tour` — edges that connect some nodes are good for a tour of these nodes that is
  at most twice as long: each new node is visited from the node before it, there and back.
-/

namespace MetricLayer

/-! ## Sums by thresholds -/

/-- A sum of natural numbers, counted threshold by threshold. -/
private theorem sum_range_countP {xs : List Nat} {bound : Nat} (h : ∀ x ∈ xs, x ≤ bound) :
    ∑ t ∈ Finset.range bound, xs.countP (t < ·) = xs.sum := by
  induction xs with
  | nil => simp
  | cons x rest ih =>
    obtain ⟨hx, hrest⟩ := List.forall_mem_cons.1 h
    -- A number passes as many thresholds as it counts.
    have hcount : ∑ t ∈ Finset.range bound, (if t < x then 1 else 0) = x := by
      rw [Finset.sum_boole, Nat.cast_id]
      have hbelow : (Finset.range bound).filter (· < x) = Finset.range x := by
        ext t
        simp only [Finset.mem_filter, Finset.mem_range]
        omega
      rw [hbelow, Finset.card_range]
    simp only [List.countP_cons, decide_eq_true_eq, Finset.sum_add_distrib, ih hrest, hcount,
      List.sum_cons]
    omega

/-- Numbers of which no more exceed any threshold have no greater sum. -/
theorem sum_le_sum_of_countP_le {xs ys : List Nat}
    (h : ∀ t, xs.countP (t < ·) ≤ ys.countP (t < ·)) : xs.sum ≤ ys.sum := by
  have hxs : ∀ x ∈ xs, x ≤ xs.sum + ys.sum := fun x hx =>
    Nat.le_add_right_of_le (List.le_sum_of_mem hx)
  have hys : ∀ y ∈ ys, y ≤ xs.sum + ys.sum := fun y hy =>
    Nat.le_add_left_of_le (List.le_sum_of_mem hy)
  calc xs.sum = ∑ t ∈ Finset.range (xs.sum + ys.sum), xs.countP (t < ·) :=
        (sum_range_countP hxs).symm
    _ ≤ ∑ t ∈ Finset.range (xs.sum + ys.sum), ys.countP (t < ·) :=
        Finset.sum_le_sum fun t _ => h t
    _ = ys.sum := sum_range_countP hys

namespace JoinGraph

variable {g : JoinGraph}

/-! ## Legs -/

/-- The distances from each node of a tour to the next, given where it starts. -/
def legs (g : JoinGraph) : (start : g.Node) → List g.Node → List Nat
  | _, [] => []
  | start, next :: rest => g.distance start next :: g.legs next rest

section Legs

variable {start x y : g.Node} {tour : List g.Node}

/-- Starting elsewhere costs at most the way from there. -/
private theorem sum_legs_le (hxy : g.Reaches x y) (htour : ∀ v ∈ tour, g.Reaches y v) :
    (g.legs x tour).sum ≤ g.distance x y + (g.legs y tour).sum := by
  cases tour with
  | nil => simp [legs]
  | cons next rest =>
    have htriangle := distance_triangle hxy (htour next List.mem_cons_self)
    simp only [legs, List.sum_cons]
    omega

/-- Leaving out nodes makes a tour no longer. -/
theorem sum_legs_le_of_sublist {visited : List g.Node} (hsub : visited.Sublist tour)
    (htour : ∀ v ∈ tour, g.Reaches start v) :
    (g.legs start visited).sum ≤ (g.legs start tour).sum := by
  induction hsub generalizing start with
  | slnil => exact Nat.le_refl _
  | @cons visited tour next hsub ih =>
    obtain ⟨hnext, hrest⟩ := List.forall_mem_cons.1 htour
    -- Where the next node is left out, the tour goes on directly to the one behind it.
    have hfrom : ∀ v ∈ tour, g.Reaches next v := fun v hv =>
      hnext.symm.trans (hrest v hv)
    have hskip := sum_legs_le hnext fun v hv => hfrom v (hsub.subset hv)
    have hle := ih hfrom
    simp only [legs, List.sum_cons]
    omega
  | @cons_cons visited tour next hsub ih =>
    obtain ⟨hnext, hrest⟩ := List.forall_mem_cons.1 htour
    have hle := ih fun v hv => hnext.symm.trans (hrest v hv)
    simp only [legs, List.sum_cons]
    omega

/-- A further node can be visited from any node of a tour, there and back. -/
theorem exists_longer_tour (hx : x ∈ start :: tour) (htour : ∀ v ∈ tour, g.Reaches start v)
    (hxy : g.Reaches x y) : ∃ tour', tour'.Perm (y :: tour) ∧
      (g.legs start tour').sum ≤ (g.legs start tour).sum + 2 * g.distance x y := by
  induction tour generalizing start with
  | nil =>
    obtain rfl := List.mem_singleton.1 hx
    refine ⟨[y], .refl _, ?_⟩
    simp only [legs, List.sum_cons, List.sum_nil]
    omega
  | cons next rest ih =>
    obtain ⟨hnext, hrest⟩ := List.forall_mem_cons.1 htour
    rcases List.mem_cons.1 hx with rfl | hx
    · -- The way back from the new node to the start leads on to the next one.
      refine ⟨y :: next :: rest, .refl _, ?_⟩
      have hback := sum_legs_le hxy.symm htour
      rw [distance_comm y x] at hback
      rw [legs, List.sum_cons]
      omega
    · obtain ⟨tour', hperm, hle⟩ := ih hx fun v hv => hnext.symm.trans (hrest v hv)
      refine ⟨next :: tour', (hperm.cons next).trans (.swap y next rest), ?_⟩
      simp only [legs, List.sum_cons]
      omega

end Legs

/-! ## Tours along given edges -/

section Edges

variable {ι : Type} [DecidableEq ι] (edge : ι → JoinEdge g.names.length)
  (hedge : ∀ i, edge i ∈ g.edges) {chosen : Finset ι}

/-- A tour that pays for some edges at most twice, and whose nodes are the ends of these edges. -/
structure PaidTour (edge : ι → JoinEdge g.names.length) (chosen : Finset ι) (start : g.Node)
    (used : Finset ι) (tour : List g.Node) : Prop where
  subset : used ⊆ chosen
  reaches : ∀ v ∈ tour, g.Reaches start v
  ends : ∀ i ∈ used, (edge i).origin ∈ start :: tour ∧ (edge i).target ∈ start :: tour
  paid : (g.legs start tour).sum ≤ 2 * ∑ i ∈ used, (edge i).weight

/-- Two nodes that one of the chosen edges connects. -/
def AdjacentBy (edge : ι → JoinEdge g.names.length) (chosen : Finset ι) (u v : g.Node) : Prop :=
  ∃ i ∈ chosen, (edge i).Connects u v

include hedge

/-- A tour can be led over one more of the chosen edges. -/
theorem PaidTour.step {start x y : g.Node} {used : Finset ι} {tour : List g.Node}
    (h : PaidTour edge chosen start used tour) (hx : x ∈ start :: tour)
    (hxy : AdjacentBy edge chosen x y) :
    ∃ used' tour', PaidTour edge chosen start used' tour' ∧ tour ⊆ tour' ∧ y ∈ start :: tour' := by
  obtain ⟨i, hi, hconnects⟩ := hxy
  by_cases hy : y ∈ start :: tour
  · exact ⟨used, tour, h, List.Subset.refl _, hy⟩
  -- The edge leads to a node that has not been visited, so it has not been paid for.
  have hnew : i ∉ used := by
    intro hused
    obtain ⟨horigin, htarget⟩ := h.ends i hused
    rcases hconnects with ⟨-, rfl⟩ | ⟨rfl, -⟩
    · exact hy htarget
    · exact hy horigin
  obtain ⟨hreach, hweight⟩ := distance_le_weight (hedge i) hconnects
  obtain ⟨tour', hperm, hle⟩ := exists_longer_tour hx h.reaches hreach
  have hmem (v : g.Node) : v ∈ tour' ↔ v = y ∨ v ∈ tour := by
    rw [hperm.mem_iff, List.mem_cons]
  refine ⟨insert i used, tour', ⟨?_, ?_, ?_, ?_⟩, fun v hv => (hmem v).2 (.inr hv), ?_⟩
  · exact Finset.insert_subset hi h.subset
  · intro v hv
    rcases (hmem v).1 hv with rfl | hv
    · rcases List.mem_cons.1 hx with rfl | hx
      · exact hreach
      · exact (h.reaches x hx).trans hreach
    · exact h.reaches v hv
  · -- The one edge that is new ends at the node it was led to and at one visited before.
    have hkeep {v : g.Node} (hv : v ∈ start :: tour) : v ∈ start :: tour' := by
      rw [List.mem_cons, hmem]
      exact (List.mem_cons.1 hv).imp_right .inr
    have hend : y ∈ start :: tour' := List.mem_cons_of_mem _ ((hmem y).2 (.inl rfl))
    intro j hj
    rcases Finset.mem_insert.1 hj with rfl | hj
    · rcases hconnects with ⟨rfl, rfl⟩ | ⟨rfl, rfl⟩
      · exact ⟨hkeep hx, hend⟩
      · exact ⟨hend, hkeep hx⟩
    · exact (h.ends j hj).imp hkeep hkeep
  · have hpaid := h.paid
    rw [Finset.sum_insert hnew]
    omega
  · exact List.mem_cons_of_mem _ ((hmem y).2 (.inl rfl))

/-- A tour can be led to a node that the chosen edges connect with its start. -/
private theorem PaidTour.run {start u : g.Node} {used : Finset ι} {tour : List g.Node}
    (h : PaidTour edge chosen start used tour)
    (hu : Relation.ReflTransGen (AdjacentBy edge chosen) start u) :
    ∃ used' tour', PaidTour edge chosen start used' tour' ∧ tour ⊆ tour' ∧ u ∈ start :: tour' := by
  induction hu with
  | refl => exact ⟨used, tour, h, List.Subset.refl _, List.mem_cons_self⟩
  | tail _ hstep ih =>
    obtain ⟨used', tour', h', hsub, hmem⟩ := ih
    obtain ⟨used'', tour'', h'', hsub', hmem'⟩ := h'.step edge hedge hmem hstep
    exact ⟨used'', tour'', h'', fun v hv => hsub' (hsub hv), hmem'⟩

/-- Edges that connect some nodes are good for a tour of these nodes that is at most twice as
long. -/
theorem exists_tour {start : g.Node} {nodes : List g.Node}
    (hnodes : ∀ v ∈ nodes, Relation.ReflTransGen (AdjacentBy edge chosen) start v) :
    ∃ tour, (∀ v ∈ tour, g.Reaches start v) ∧ nodes ⊆ start :: tour ∧
      (g.legs start tour).sum ≤ 2 * ∑ i ∈ chosen, (edge i).weight := by
  have hall : ∃ used tour, PaidTour edge chosen start used tour ∧ nodes ⊆ start :: tour := by
    -- Induction on the nodes: the tour so far is led on to the next one.
    induction nodes with
    | nil => exact ⟨∅, [], ⟨by simp, by simp, by simp, by simp [legs]⟩, by simp⟩
    | cons u rest ih =>
      obtain ⟨hu, hrest⟩ := List.forall_mem_cons.1 hnodes
      obtain ⟨used, tour, h, hvisited⟩ := ih hrest
      obtain ⟨used', tour', h', hsub, hmem⟩ := h.run edge hedge hu
      refine ⟨used', tour', h', List.cons_subset.2 ⟨hmem, fun v hv => ?_⟩⟩
      exact (List.mem_cons.1 (hvisited hv)).elim (fun h => h ▸ List.mem_cons_self)
        fun h => List.mem_cons_of_mem _ (hsub h)
  obtain ⟨used, tour, h, hvisited⟩ := hall
  refine ⟨tour, h.reaches, hvisited, h.paid.trans ?_⟩
  exact Nat.mul_le_mul_left 2 (Finset.sum_le_sum_of_subset h.subset)

end Edges

/-! ## The chosen links -/

section Chosen

/-- Links that are taken in two parts are chosen in two parts. -/
theorem spanning_append (c : Components g) (first rest : List (Link g)) :
    spanning c (first ++ rest) =
      spanning c first ++ spanning (c.mergeAll (spanning c first)) rest := by
  induction first generalizing c with
  | nil => rfl
  | cons l first ih =>
    rw [List.cons_append, spanning, spanning]
    split_ifs with hsame
    · exact ih c
    · rw [ih, List.cons_append]
      rfl

/-- Nodes with `n` different labels are visited in no less than `n - 1` legs between different
labels. -/
private theorem card_image_le_countP {β : Type} [DecidableEq β] (label : g.Node → β) {t : Nat}
    {nodes : List g.Node}
    (hlabel : ∀ u ∈ nodes, ∀ v ∈ nodes, g.distance u v ≤ t → label u = label v)
    {start : g.Node} {tour : List g.Node} (htour : start :: tour ⊆ nodes) :
    ((start :: tour).toFinset.image label).card ≤ (g.legs start tour).countP (t < ·) + 1 := by
  induction tour generalizing start with
  | nil => simp [legs]
  | cons next rest ih =>
    obtain ⟨hstart, hrest⟩ := List.cons_subset.1 htour
    have hnext : next ∈ nodes := hrest List.mem_cons_self
    have hle := ih hrest
    rw [List.toFinset_cons, Finset.image_insert]
    rw [legs, List.countP_cons]
    by_cases hfar : t < g.distance start next
    · have hcard := Finset.card_insert_le (label start)
        ((next :: rest).toFinset.image label)
      simp only [hfar, decide_true, if_true]
      omega
    · -- A short leg stays within a label, which is then no new one.
      have hsame := hlabel start hstart next hnext (Nat.le_of_not_lt hfar)
      have hmem : label start ∈ (next :: rest).toFinset.image label := by
        rw [hsame]
        exact Finset.mem_image_of_mem _ (by simp)
      rw [Finset.insert_eq_of_mem hmem]
      simp only [hfar, decide_false, Bool.false_eq_true, if_false]
      omega

/-- Behind the short links of a list that is sorted by distance come long ones only. -/
private theorem lt_distance_of_mem_dropWhile {t : Nat} {links : List (Link g)}
    (hsorted : links.Pairwise fun a b => a.distance ≤ b.distance) {l : Link g}
    (hl : l ∈ links.dropWhile (·.distance ≤ t)) : t < l.distance := by
  induction links with
  | nil => cases hl
  | cons first rest ih =>
    obtain ⟨hfirst, hrest⟩ := List.pairwise_cons.1 hsorted
    by_cases hshort : first.distance ≤ t
    · rw [List.dropWhile_cons_of_pos (by simpa using hshort)] at hl
      exact ih hrest hl
    · rw [List.dropWhile_cons_of_neg (by simpa using hshort)] at hl
      have hle : first.distance ≤ l.distance := by
        rcases List.mem_cons.1 hl with rfl | hl
        · exact Nat.le_refl _
        · exact hfirst l hl
      omega

variable {nodes : List g.Node}

/-- No more chosen links than legs of a tour exceed a threshold. -/
private theorem countP_chosenLinks_le {start : g.Node} {tour : List g.Node}
    (htour : start :: tour ⊆ nodes) (hall : nodes ⊆ start :: tour) (t : Nat) :
    ((g.chosenLinks nodes).map (·.distance)).countP (t < ·) ≤
      (g.legs start tour).countP (t < ·) := by
  let sorted := ((pairs nodes).map g.linkOf).mergeSort fun a b => a.distance ≤ b.distance
  have hsorted : sorted.Pairwise fun a b => a.distance ≤ b.distance :=
    (pairwise_mergeSort_links _).imp of_decide_eq_true
  -- The short links come first; what is chosen among them leaves components that only long links
  -- connect.
  let short := sorted.takeWhile (·.distance ≤ t)
  let long := sorted.dropWhile (·.distance ≤ t)
  let c : Components g := (Components.separate g).mergeAll (spanning (.separate g) short)
  have hsplit : sorted = short ++ long := List.takeWhile_append_dropWhile.symm
  have hchosen : g.chosenLinks nodes = spanning (.separate g) short ++ spanning c long := by
    rw [← spanning_append, ← hsplit]
    rfl
  have hends : ∀ l ∈ long, l.source ∈ nodes.toFinset ∧ l.target ∈ nodes.toFinset := by
    intro l hl
    refine ends_mem_of_links nodes l ?_
    change l ∈ sorted
    rw [hsplit]
    exact List.mem_append_right _ hl
  have hlabel : ∀ u ∈ nodes, ∀ v ∈ nodes, g.distance u v ≤ t → c.get u = c.get v := by
    have hlink {u v : g.Node} (huv : [u, v].Sublist nodes) (hle : g.distance u v ≤ t) :
        c.get u = c.get v := by
      have hmem : g.linkOf (u, v) ∈ sorted :=
        List.mem_mergeSort.2 (List.mem_map_of_mem (mem_pairs_iff.2 huv))
      rw [hsplit, List.mem_append] at hmem
      rcases hmem with hshort | hlong
      · exact get_mergeAll_spanning (.separate g) hshort
      · exact absurd (lt_distance_of_mem_dropWhile hsorted hlong) (Nat.not_lt.2 hle)
    -- Each pair of nodes has one link, from the node that comes first in the list.
    intro u hu v hv hle
    by_cases huv : u = v
    · rw [huv]
    · rcases pair_sublist_or hu hv huv with hsub | hsub
      · exact hlink hsub hle
      · exact (hlink hsub (by rwa [distance_comm v u])).symm
  have hcard := card_image_spanning c hends
  have hsome : 0 < (nodes.toFinset.image (c.mergeAll (spanning c long)).get).card :=
    Finset.card_pos.2 ⟨_, Finset.mem_image_of_mem _
      (List.mem_toFinset.2 (htour List.mem_cons_self))⟩
  have hvisited : (nodes.toFinset.image c.get).card ≤
      (g.legs start tour).countP (t < ·) + 1 :=
    (Finset.card_le_card (Finset.image_subset_image fun v hv =>
      List.mem_toFinset.2 (hall (List.mem_toFinset.1 hv)))).trans
      (card_image_le_countP c.get hlabel htour)
  have hshort : ((spanning (.separate g) short).map (·.distance)).countP (t < ·) = 0 := by
    rw [List.countP_eq_zero]
    intro d hd
    obtain ⟨l, hl, rfl⟩ := List.mem_map.1 hd
    have hle := List.mem_takeWhile_imp (mem_of_mem_spanning hl)
    simpa using hle
  have hlong := List.countP_le_length (p := (t < ·)) (l := (spanning c long).map (·.distance))
  rw [List.length_map] at hlong
  rw [hchosen, List.map_append, List.countP_append, hshort]
  omega

/-- The chosen links are together no longer than a tour of the requested nodes. -/
theorem sum_chosenLinks_le {start : g.Node} {tour : List g.Node} (htour : start :: tour ⊆ nodes)
    (hall : nodes ⊆ start :: tour) :
    ((g.chosenLinks nodes).map (·.distance)).sum ≤ (g.legs start tour).sum :=
  sum_le_sum_of_countP_le fun t => countP_chosenLinks_le htour hall t

end Chosen

end JoinGraph

end MetricLayer
