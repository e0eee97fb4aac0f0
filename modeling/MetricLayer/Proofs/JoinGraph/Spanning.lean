import MetricLayer.JoinGraph.JoinTree
import MetricLayer.Proofs.JoinGraph.Path
import Mathlib.Data.Finset.Card
import Mathlib.Data.List.Sort

/-!
# The choice of links

The links between requested nodes are taken in the order of their distances, and of equal distances
in the order of the request; a link is chosen where it connects two components. What follows from
this choice:

* `JoinGraph.get_mergeAll_spanning` — in the end the two ends of every link are connected;
* `JoinGraph.Choice.cut` — between two components that are still apart, no link comes before the
  chosen one;
* `JoinGraph.Choice.share_end` — two chosen links whose paths meet have an end in common;
* `JoinGraph.length_chosenLinks` — there is one chosen link less than there are nodes.
-/

namespace MetricLayer

/-! ## Pairs in the order of a list -/

section Pairs

variable {α : Type} {a b c u v : α} {l : List α}

/-- A pair is made with the first entry or stands behind it. -/
private theorem pair_sublist_cons :
    [u, v].Sublist (a :: l) ↔ (u = a ∧ v ∈ l) ∨ [u, v].Sublist l := by
  rw [List.sublist_cons_iff, or_comm]
  refine or_congr_left ⟨?_, ?_⟩
  · rintro ⟨r, hr, hsub⟩
    obtain ⟨rfl, rfl⟩ := List.cons.inj hr
    exact ⟨rfl, List.singleton_sublist.1 hsub⟩
  · rintro ⟨rfl, hv⟩
    exact ⟨[v], rfl, List.singleton_sublist.2 hv⟩

/-- The pairs of a list are its entries with a later entry each. -/
theorem mem_pairs_iff : (u, v) ∈ pairs l ↔ [u, v].Sublist l := by
  induction l with
  | nil => simp [pairs]
  | cons a rest ih =>
    rw [pairs, List.mem_append, ih, pair_sublist_cons]
    refine or_congr_left ?_
    simp [and_comm, eq_comm]

/-- Of two different entries one comes before the other. -/
theorem pair_sublist_or (hu : u ∈ l) (hv : v ∈ l) (huv : u ≠ v) :
    [u, v].Sublist l ∨ [v, u].Sublist l := by
  induction l with
  | nil => cases hu
  | cons a rest ih =>
    rw [pair_sublist_cons, pair_sublist_cons]
    rcases List.mem_cons.1 hu with rfl | hu'
    · exact .inl (.inl ⟨rfl, (List.mem_cons.1 hv).resolve_left (Ne.symm huv)⟩)
    · rcases List.mem_cons.1 hv with rfl | hv'
      · exact .inr (.inl ⟨rfl, hu'⟩)
      · exact (ih hu' hv').imp .inr .inr

/-- Without repetition the order of two entries is fixed. -/
theorem not_pair_sublist_swap (hl : l.Nodup) (h : [u, v].Sublist l) : ¬[v, u].Sublist l := by
  induction l with
  | nil => simp
  | cons a rest ih =>
    obtain ⟨ha, hrest⟩ := List.nodup_cons.1 hl
    rw [pair_sublist_cons]
    rintro (⟨rfl, hu⟩ | hswap) <;> rcases pair_sublist_cons.1 h with ⟨rfl, hv⟩ | h
    · exact ha hu
    · exact ha (h.subset (by simp))
    · exact ha (hswap.subset (by simp))
    · exact ih hrest h hswap

/-- Without repetition an entry is not paired with itself. -/
theorem ne_of_mem_pairs (hl : l.Nodup) (h : (u, v) ∈ pairs l) : u ≠ v := by
  rintro rfl
  exact not_pair_sublist_swap hl (mem_pairs_iff.1 h) (mem_pairs_iff.1 h)

/-- No pair is listed twice. -/
theorem nodup_pairs (hl : l.Nodup) : (pairs l).Nodup := by
  induction l with
  | nil => exact List.nodup_nil
  | cons a rest ih =>
    obtain ⟨ha, hrest⟩ := List.nodup_cons.1 hl
    rw [pairs, List.nodup_append]
    refine ⟨hrest.map fun x y h => (Prod.mk.inj h).2, ih hrest, ?_⟩
    rintro p hp q hq rfl
    obtain ⟨x, -, rfl⟩ := List.mem_map.1 hp
    exact ha ((mem_pairs_iff.1 hq).subset (by simp))

/-- Before a pair of entries come all pairs with smaller positions, those of the first entries
compared first. -/
theorem exists_positions_of_pairs_eq {before after : List (α × α)}
    (h : pairs l = before ++ (u, v) :: after) :
    ∃ i j : Nat, i < j ∧ l[i]? = some u ∧ l[j]? = some v ∧
      ∀ (i' j' : Nat) (u' v' : α), i' < j' → (i' < i ∨ i' = i ∧ j' < j) → l[i']? = some u' →
        l[j']? = some v' → (u', v') ∈ before := by
  induction l generalizing before with
  | nil => simp [pairs] at h
  | cons a rest ih =>
    -- Pairs of the first entry come first, then those of the rest.
    have hlater (before' : List (α × α)) (hrest : pairs rest = before' ++ (u, v) :: after)
        (hbefore : before = rest.map (a, ·) ++ before') : ∃ i j : Nat, i < j ∧
          (a :: rest)[i]? = some u ∧ (a :: rest)[j]? = some v ∧
          ∀ (i' j' : Nat) (u' v' : α), i' < j' → (i' < i ∨ i' = i ∧ j' < j) →
            (a :: rest)[i']? = some u' → (a :: rest)[j']? = some v' → (u', v') ∈ before := by
      obtain ⟨i, j, hij, hi, hj, hless⟩ := ih hrest
      refine ⟨i + 1, j + 1, by omega, hi, hj, fun i' j' u' v' hlt hbelow hu' hv' => ?_⟩
      obtain ⟨j', rfl⟩ : ∃ k, j' = k + 1 := ⟨j' - 1, by omega⟩
      rw [hbefore, List.mem_append]
      cases i' with
      | zero =>
        obtain rfl : a = u' := by simpa using hu'
        exact .inl (List.mem_map_of_mem (List.mem_of_getElem? hv'))
      | succ i' => exact .inr (hless i' j' u' v' (by omega) (by omega) hu' hv')
    rw [pairs, List.append_eq_append_iff] at h
    rcases h with ⟨front, hbefore, hrest⟩ | ⟨front, hmap, hrest⟩
    · exact hlater front hrest hbefore
    · cases front with
      | nil => exact hlater [] hrest.symm (by simpa using hmap.symm)
      | cons p front =>
        obtain ⟨rfl, -⟩ := List.cons.inj hrest
        obtain ⟨left, right, hsplit, rfl, hright⟩ := List.map_eq_append_iff.1 hmap
        obtain ⟨w, right, rfl, hw, -⟩ := List.map_eq_cons_iff.1 hright
        obtain ⟨rfl, rfl⟩ := Prod.mk.inj hw
        refine ⟨0, left.length + 1, by omega, rfl, by simp [hsplit], ?_⟩
        intro i' j' u' v' hlt hbelow hu' hv'
        obtain rfl : i' = 0 := by omega
        obtain ⟨j', rfl⟩ : ∃ k, j' = k + 1 := ⟨j' - 1, by omega⟩
        obtain rfl : a = u' := by simpa using hu'
        have hj' : j' < left.length := by omega
        rw [List.getElem?_cons_succ, hsplit, List.getElem?_append_left hj'] at hv'
        exact List.mem_map_of_mem (List.mem_of_getElem? hv')

/-- Pairs that share an entry come in the order of their other entries. -/
theorem pairs_sublist_of_common (hbc : [b, c].Sublist l) (ha : a ∈ l) (hab : a ≠ b) (hac : a ≠ c) :
    ∃ p q, (p = (a, b) ∨ p = (b, a)) ∧ (q = (a, c) ∨ q = (c, a)) ∧ [p, q].Sublist (pairs l) := by
  induction l with
  | nil => cases ha
  | cons x rest ih =>
    have hpair {u v : α} (hu : u ∈ rest) (hv : v ∈ rest) (huv : u ≠ v) :
        ∃ q, (q = (u, v) ∨ q = (v, u)) ∧ q ∈ pairs rest := by
      rcases pair_sublist_or hu hv huv with h | h
      · exact ⟨_, .inl rfl, mem_pairs_iff.2 h⟩
      · exact ⟨_, .inr rfl, mem_pairs_iff.2 h⟩
    rw [pairs]
    rcases pair_sublist_cons.1 hbc with ⟨rfl, hc⟩ | hbc'
    · -- `b` is first: its pairs come before all pairs of the rest.
      have ha := (List.mem_cons.1 ha).resolve_left hab
      obtain ⟨q, hq, hmem⟩ := hpair ha hc hac
      refine ⟨(b, a), q, .inr rfl, hq, ?_⟩
      have hsub := (List.singleton_sublist.2 (List.mem_map_of_mem (f := (b, ·)) ha)).append
        (List.singleton_sublist.2 hmem)
      exact hsub
    · rcases List.mem_cons.1 ha with rfl | ha
      · refine ⟨(a, b), (a, c), .inl rfl, .inl rfl, ?_⟩
        exact (hbc'.map (a, ·)).trans (List.sublist_append_left _ _)
      · obtain ⟨p, q, hp, hq, hsub⟩ := ih hbc' ha
        exact ⟨p, q, hp, hq, hsub.trans (List.sublist_append_right _ _)⟩

end Pairs

namespace JoinGraph

variable {g : JoinGraph}

/-! ## Components -/

namespace Components

variable {c : Components g} {i j u v : g.Node}

/-- At first each node is a component of its own. -/
@[simp]
theorem get_separate (u : g.Node) : (separate g).get u = u := by
  change (Vector.ofFn id)[u.val] = u
  rw [Vector.getElem_ofFn]
  rfl

/-- Merging two components gives one of them the name of the other. -/
theorem get_merge (c : Components g) (i j u : g.Node) :
    (c.merge i j).get u = if c.get u = c.get j then c.get i else c.get u := by
  change (Vector.map (fun label => if label = c.get j then c.get i else label) c)[u.val] = _
  rw [Vector.getElem_map]
  rfl

/-- Connected nodes stay connected. -/
theorem get_merge_congr (h : c.get u = c.get v) (i j : g.Node) :
    (c.merge i j).get u = (c.merge i j).get v := by
  rw [get_merge, get_merge, h]

/-- The two merged nodes become connected. -/
theorem get_merge_self (c : Components g) (i j : g.Node) :
    (c.merge i j).get i = (c.merge i j).get j := by
  rw [get_merge, get_merge, if_pos rfl]
  split_ifs <;> rfl

/-- The components after the ends of some links have been connected. -/
def mergeAll (c : Components g) (links : List (Link g)) : Components g :=
  links.foldl (fun c l => c.merge l.source l.target) c

/-- Nodes of one component stay together. -/
theorem get_mergeAll_congr (h : c.get u = c.get v) (links : List (Link g)) :
    (c.mergeAll links).get u = (c.mergeAll links).get v := by
  induction links generalizing c with
  | nil => exact h
  | cons l rest ih => exact ih (get_merge_congr h _ _)

/-- The ends of a link come together. -/
theorem get_mergeAll_ends (c : Components g) {links : List (Link g)} {l : Link g}
    (hl : l ∈ links) : (c.mergeAll links).get l.source = (c.mergeAll links).get l.target := by
  induction links generalizing c with
  | nil => cases hl
  | cons first rest ih =>
    rcases List.mem_cons.1 hl with rfl | hl
    · exact get_mergeAll_congr (get_merge_self c _ _) rest
    · exact ih _ hl

/-- Whatever equivalence holds between the ends of the links holds within each component. -/
theorem rel_of_get_mergeAll_eq {P : g.Node → g.Node → Prop} (hP : Equivalence P)
    (hc : ∀ u v, c.get u = c.get v → P u v) {links : List (Link g)}
    (hlinks : ∀ l ∈ links, P l.source l.target)
    (h : (c.mergeAll links).get u = (c.mergeAll links).get v) : P u v := by
  induction links generalizing c with
  | nil => exact hc u v h
  | cons l rest ih =>
    refine ih (fun x y hxy => ?_) (fun l' hl' => hlinks l' (List.mem_cons_of_mem _ hl')) h
    -- A merged node that took a new label was connected with the target of the link.
    have hl := hlinks l List.mem_cons_self
    rw [get_merge, get_merge] at hxy
    split_ifs at hxy with hx hy hy
    · exact hc x y (hx.trans hy.symm)
    · exact hP.trans (hP.trans (hc _ _ hx) (hP.symm hl)) (hc _ _ hxy)
    · exact hP.trans (hP.trans (hc _ _ hxy) hl) (hP.symm (hc _ _ hy))
    · exact hc x y hxy

end Components

/-! ## Chosen links -/

/-- In the end the two ends of every link are connected. -/
theorem get_mergeAll_spanning (c : Components g) {links : List (Link g)} {l : Link g}
    (hl : l ∈ links) : (c.mergeAll (spanning c links)).get l.source =
      (c.mergeAll (spanning c links)).get l.target := by
  -- A link that is passed over had connected ends when it was met, and a chosen one connects them;
  -- either way later merges keep the ends together.
  induction links generalizing c with
  | nil => cases hl
  | cons first rest ih =>
    rw [spanning]
    split_ifs with hsame
    · rcases List.mem_cons.1 hl with rfl | hl
      · exact Components.get_mergeAll_congr hsame _
      · exact ih c hl
    · rcases List.mem_cons.1 hl with rfl | hl
      · exact Components.get_mergeAll_ends c List.mem_cons_self
      · exact ih _ hl

/-- A link is chosen where the links before it leave its ends apart, and these connect the ends of
all links that were passed before. -/
theorem exists_of_spanning_eq {c : Components g} {links before after : List (Link g)} {f : Link g}
    (h : spanning c links = before ++ f :: after) :
    (c.mergeAll before).get f.source ≠ (c.mergeAll before).get f.target ∧
      ∃ passed rest, links = passed ++ f :: rest ∧
        ∀ l ∈ passed, (c.mergeAll before).get l.source = (c.mergeAll before).get l.target := by
  induction links generalizing c before with
  | nil => simp [spanning] at h
  | cons first rest ih =>
    rw [spanning] at h
    split_ifs at h with hsame
    · -- The first link is passed: its ends were connected already, and stay so.
      obtain ⟨hapart, passed, rest', rfl, hpassed⟩ := ih h
      refine ⟨hapart, first :: passed, rest', rfl, List.forall_mem_cons.2 ⟨?_, hpassed⟩⟩
      exact Components.get_mergeAll_congr hsame before
    · -- The first link is chosen: it is the one asked for, or it connects its own ends.
      cases before with
      | nil =>
        obtain ⟨rfl, -⟩ := List.cons.inj h
        exact ⟨hsame, [], rest, rfl, nofun⟩
      | cons first' before =>
        obtain ⟨rfl, htail⟩ := List.cons.inj h
        obtain ⟨hapart, passed, rest', rfl, hpassed⟩ := ih htail
        refine ⟨hapart, first :: passed, rest', rfl, List.forall_mem_cons.2 ⟨?_, hpassed⟩⟩
        exact Components.get_mergeAll_ends c List.mem_cons_self

/-- Chosen links are among the given ones. -/
theorem mem_of_mem_spanning {c : Components g} {links : List (Link g)} {f : Link g}
    (hf : f ∈ spanning c links) : f ∈ links := by
  obtain ⟨before, after, h⟩ := List.append_of_mem hf
  obtain ⟨-, passed, rest, rfl, -⟩ := exists_of_spanning_eq h
  simp

/-! ## The order of the choice -/

/-- The link between two nodes. -/
def linkOf (g : JoinGraph) (p : g.Node × g.Node) : Link g :=
  ⟨p.1, p.2, g.distance p.1 p.2⟩

/-- The links that are chosen to connect some nodes. -/
def chosenLinks (g : JoinGraph) (nodes : List g.Node) : List (Link g) :=
  spanning (.separate g) (((pairs nodes).map g.linkOf).mergeSort fun a b => a.distance ≤ b.distance)

/-- The component of a node after some links have been chosen. -/
def component (links : List (Link g)) (u : g.Node) : g.Node :=
  (Components.mergeAll (.separate g) links).get u

/-- The ends of a link are in one component. -/
theorem component_ends {links : List (Link g)} {l : Link g} (hl : l ∈ links) :
    component links l.source = component links l.target :=
  Components.get_mergeAll_ends _ hl

/-- A link has the two given ends, in either direction. -/
def Link.HasEnds (l : Link g) (u v : g.Node) : Prop :=
  (l.source = u ∧ l.target = v) ∨ (l.source = v ∧ l.target = u)

/-- What holds of a link that is chosen after others: its ends are still apart, and no link between
components that are apart comes before it. -/
structure Choice (g : JoinGraph) (nodes : List g.Node) (before : List (Link g)) (f : Link g) :
    Prop where
  ordered : [f.source, f.target].Sublist nodes
  distance : f.distance = g.distance f.source f.target
  apart : component before f.source ≠ component before f.target
  first (p : g.Node × g.Node) : p ∈ pairs nodes →
    component before p.1 ≠ component before p.2 →
    f.distance ≤ g.distance p.1 p.2 ∧
      (g.distance p.1 p.2 = f.distance → ¬[p, (f.source, f.target)].Sublist (pairs nodes))

/-- Different pairs have different links. -/
private theorem linkOf_injective : Function.Injective g.linkOf := by
  rintro ⟨i, j⟩ ⟨i', j'⟩ h
  simp only [linkOf, Link.mk.injEq] at h
  exact Prod.ext h.1 h.2.1

/-- In a list without repetition an entry is followed by those behind it only. -/
private theorem not_pair_sublist {α : Type} {l f : α} {passed rest : List α}
    (hnodup : (passed ++ f :: rest).Nodup) (hl : l ∉ passed) :
    ¬[l, f].Sublist (passed ++ f :: rest) := by
  intro h
  induction passed with
  | nil =>
    have hf : f ∉ rest := (List.nodup_cons.1 hnodup).1
    rcases pair_sublist_cons.1 h with ⟨-, hmem⟩ | h
    · exact hf hmem
    · exact hf (h.subset (by simp))
  | cons a passed ih =>
    obtain ⟨ha, hrest⟩ := List.nodup_cons.1 hnodup
    rcases pair_sublist_cons.1 h with ⟨rfl, -⟩ | h
    · exact hl List.mem_cons_self
    · exact ih hrest (fun hmem => hl (List.mem_cons_of_mem _ hmem)) h

/-- Links are compared by their distances. -/
private theorem Link.le_trans (a b c : Link g) : decide (a.distance ≤ b.distance) →
    decide (b.distance ≤ c.distance) → decide (a.distance ≤ c.distance) := by
  simp only [decide_eq_true_eq]
  exact Nat.le_trans

/-- Links are compared by their distances. -/
private theorem Link.le_total (a b : Link g) :
    decide (a.distance ≤ b.distance) || decide (b.distance ≤ a.distance) := by
  simpa using Nat.le_total a.distance b.distance

/-- The links are met in the order of their distances. -/
theorem pairwise_mergeSort_links (links : List (Link g)) :
    (links.mergeSort fun a b => a.distance ≤ b.distance).Pairwise
      fun a b => decide (a.distance ≤ b.distance) :=
  List.pairwise_mergeSort Link.le_trans Link.le_total links

/-- Links of equal distances keep their order, so sorting them is inserting one after the other. -/
theorem mergeSort_links_eq_insertionSort (links : List (Link g)) :
    (links.mergeSort fun a b => a.distance ≤ b.distance) =
      links.insertionSort fun a b => a.distance ≤ b.distance := by
  induction links with
  | nil => exact List.mergeSort_nil
  | cons l rest ih =>
    obtain ⟨nearer, others, hsorted, hrest, hnearer⟩ :=
      List.mergeSort_cons Link.le_trans Link.le_total l rest
    have hpairwise := pairwise_mergeSort_links (l :: rest)
    rw [hsorted, List.pairwise_append, List.pairwise_cons] at hpairwise
    have hothers : ∀ m ∈ others, l.distance ≤ m.distance := fun m hm =>
      of_decide_eq_true (hpairwise.2.1.1 m hm)
    rw [hsorted, List.insertionSort_cons, ← ih, hrest, List.orderedInsert_eq_take_drop,
      List.takeWhile_append_of_pos, List.dropWhile_append_of_pos]
    · cases others with
      | nil => simp
      | cons m others => simp [hothers m List.mem_cons_self]
    all_goals simpa using hnearer

/-- The links between some nodes have their ends among them. -/
theorem ends_mem_of_links (nodes : List g.Node) :
    ∀ l ∈ ((pairs nodes).map g.linkOf).mergeSort fun a b => a.distance ≤ b.distance,
      l.source ∈ nodes.toFinset ∧ l.target ∈ nodes.toFinset := by
  intro l hl
  obtain ⟨⟨u, v⟩, huv, rfl⟩ := List.mem_map.1 (List.mem_mergeSort.1 hl)
  have hu : u ∈ nodes := (mem_pairs_iff.1 huv).subset (by simp)
  have hv : v ∈ nodes := (mem_pairs_iff.1 huv).subset (by simp)
  exact ⟨List.mem_toFinset.2 hu, List.mem_toFinset.2 hv⟩

/-- Every chosen link is a choice after those before it. -/
theorem choice_of_chosenLinks_eq {nodes : List g.Node} (hnodes : nodes.Nodup)
    {before after : List (Link g)} {f : Link g} (h : g.chosenLinks nodes = before ++ f :: after) :
    Choice g nodes before f := by
  -- The links before the chosen one in the sorted list are no longer than it, and stability keeps
  -- the order of the request among those of equal distance.
  obtain ⟨hapart, passed, rest, hsorted, hpassed⟩ := exists_of_spanning_eq h
  have hpairwise := pairwise_mergeSort_links ((pairs nodes).map g.linkOf)
  have hperm := List.mergeSort_perm ((pairs nodes).map g.linkOf)
    (fun a b => a.distance ≤ b.distance)
  have hnodup := hperm.nodup_iff.2 ((nodup_pairs hnodes).map linkOf_injective)
  rw [hsorted] at hpairwise hnodup hperm
  have hf : f ∈ (pairs nodes).map g.linkOf := hperm.subset (by simp)
  obtain ⟨⟨source, target⟩, hmem, rfl⟩ := List.mem_map.1 hf
  refine ⟨mem_pairs_iff.1 hmem, rfl, hapart, fun p hp hlabels => ?_⟩
  -- The link of such a pair has not been passed yet.
  have hnot : g.linkOf p ∉ passed := fun hin => hlabels (hpassed _ hin)
  refine ⟨?_, fun heq hsub => ?_⟩
  · have hin : g.linkOf p ∈ passed ++ g.linkOf (source, target) :: rest :=
      hperm.symm.subset (List.mem_map_of_mem hp)
    rcases (List.mem_append.1 hin).resolve_left hnot |> List.mem_cons.1 with hself | hrest
    · exact Nat.le_of_eq (congrArg Link.distance hself).symm
    · have hle := List.rel_of_pairwise_cons (List.pairwise_append.1 hpairwise).2.1 hrest
      exact of_decide_eq_true hle
  · have hmap := hsub.map g.linkOf
    have hstable := List.pair_sublist_mergeSort Link.le_trans Link.le_total
      (decide_eq_true (Nat.le_of_eq heq)) hmap
    rw [hsorted] at hstable
    exact not_pair_sublist hnodup hnot hstable

namespace Choice

variable {nodes : List g.Node} (hnodes : nodes.Nodup)
  {before : List (Link g)} {e f : Link g} {a b c d x : g.Node}

/-- The ends of a chosen link are requested. -/
theorem mem_of_hasEnds (hf : Choice g nodes before f) (hends : f.HasEnds c d) :
    c ∈ nodes ∧ d ∈ nodes := by
  have hsource : f.source ∈ nodes := hf.ordered.subset (by simp)
  have htarget : f.target ∈ nodes := hf.ordered.subset (by simp)
  rcases hends with ⟨rfl, rfl⟩ | ⟨rfl, rfl⟩
  · exact ⟨hsource, htarget⟩
  · exact ⟨htarget, hsource⟩

/-- The ends of a chosen link were apart. -/
theorem component_ne_of_hasEnds (hf : Choice g nodes before f) (hends : f.HasEnds c d) :
    component before c ≠ component before d := by
  rcases hends with ⟨rfl, rfl⟩ | ⟨rfl, rfl⟩
  · exact hf.apart
  · exact hf.apart.symm

/-- A chosen link is as long as its ends are apart. -/
theorem distance_of_hasEnds (hf : Choice g nodes before f) (hends : f.HasEnds c d) :
    f.distance = g.distance c d := by
  rw [hf.distance]
  rcases hends with ⟨rfl, rfl⟩ | ⟨rfl, rfl⟩
  · rfl
  · exact distance_comm _ _

include hnodes

/-- A node in another component than `d` is no nearer to `d` than the other end `c` of the chosen
link, and where it is as near it comes later in the request. -/
theorem cut (hf : Choice g nodes before f) (hends : f.HasEnds c d) (hb : b ∈ nodes)
    (hlabels : component before b ≠ component before d) :
    g.distance c d ≤ g.distance b d ∧
      (g.distance b d = g.distance c d → b ≠ c → ¬[b, c].Sublist nodes) := by
  obtain ⟨-, hd⟩ := hf.mem_of_hasEnds hends
  have hbd : b ≠ d := fun h => hlabels (h ▸ rfl)
  -- The pair of `b` and `d` may be listed in either direction.
  have hpair (p : g.Node × g.Node) (hp : p = (d, b) ∨ p = (b, d)) :
      component before p.1 ≠ component before p.2 ∧
        g.distance p.1 p.2 = g.distance b d := by
    rcases hp with rfl | rfl
    · exact ⟨hlabels.symm, distance_comm d b⟩
    · exact ⟨hlabels, rfl⟩
  rw [← hf.distance_of_hasEnds hends]
  refine ⟨?_, fun heq hbc hsub => ?_⟩
  · rcases pair_sublist_or hb hd hbd with h | h
    · exact (hf.first (b, d) (mem_pairs_iff.2 h) hlabels).1
    · rw [distance_comm b d]
      exact (hf.first (d, b) (mem_pairs_iff.2 h) hlabels.symm).1
  · have hdc : d ≠ c := fun h => hf.component_ne_of_hasEnds hends (h ▸ rfl)
    obtain ⟨p, q, hp, hq, hpq⟩ := pairs_sublist_of_common hsub hd (Ne.symm hbd) hdc
    obtain ⟨hne, hdist⟩ := hpair p hp
    have hqmem : [q.1, q.2].Sublist nodes := mem_pairs_iff.1 (hpq.subset (by simp))
    have hqf : q = (f.source, f.target) := by
      have hswap := not_pair_sublist_swap hnodes hf.ordered
      rcases hq with rfl | rfl <;> rcases hends with ⟨rfl, rfl⟩ | ⟨rfl, rfl⟩
      · exact absurd hqmem hswap
      · rfl
      · rfl
      · exact absurd hqmem hswap
    exact (hf.first p (hpq.subset (by simp)) hne).2 (hdist.trans heq) (hqf ▸ hpq)

/-- A requested node on the path of a chosen link is one of its ends: otherwise it would be nearer
to both ends, and would have connected them before. -/
theorem eq_of_between (hg : g.Regular) (hf : Choice g nodes before f) (hends : f.HasEnds c d)
    (hx : x ∈ nodes) (hbetween : g.Between c x d) : x = c ∨ x = d := by
  by_contra hne
  obtain ⟨hxc, hxd⟩ := not_or.1 hne
  have hposc := distance_pos hg (Ne.symm hxc) hbetween.left
  have hposd := distance_pos hg hxd hbetween.right
  have hsum := hbetween.sum
  refine hf.component_ne_of_hasEnds hends ?_
  have hleft : component before x = component before d := by
    by_contra hlabels
    -- Being strictly nearer to `d` than `c` is, the node cannot be apart from `d`.
    have hle := (hf.cut hnodes hends hx hlabels).1
    omega
  have hright : component before x = component before c := by
    by_contra hlabels
    have hle := (hf.cut hnodes (Or.symm hends) hx hlabels).1
    rw [distance_comm d c, distance_comm x c] at hle
    omega
  exact hright.symm.trans hleft

/-- Two disjoint chosen links whose paths meet, named so that `c` is apart from `a` before the first
and `b` is apart from `d` before the second: exchanging their ends would have given links that come
before them. -/
private theorem absurd_of_meet {before' : List (Link g)} (he : Choice g nodes before e)
    (hf : Choice g nodes before' f) (heends : e.HasEnds a b) (hfends : f.HasEnds c d)
    (hbc : b ≠ c)
    (hac : component before c ≠ component before a)
    (hbd : component before' b ≠ component before' d)
    (hex : g.Between a x b) (hfx : g.Between c x d) : False := by
  have hb := (he.mem_of_hasEnds heends).2
  have hc := (hf.mem_of_hasEnds hfends).1
  -- The first link could have ended in `c` instead of `b`, and the second could have started in `b`
  -- instead of `c`. Neither exchange is shorter, so by the triangle inequality both are as long.
  obtain ⟨hle, horder⟩ := he.cut hnodes (Or.symm heends) hc hac
  obtain ⟨hle', horder'⟩ := hf.cut hnodes hfends hb hbd
  have htriangle := distance_triangle hfx.left hex.left.symm
  have htriangle' := distance_triangle hex.right.symm hfx.right
  have hsum := hex.sum
  have hsum' := hfx.sum
  rw [distance_comm a x, distance_comm x b, distance_comm a b] at hsum
  -- Both exchanges cost the same, so only the order of the request can decide.
  have heq : g.distance c a = g.distance b a := by omega
  have heq' : g.distance b d = g.distance c d := by omega
  rcases pair_sublist_or hb hc hbc with h | h
  · exact horder' heq' hbc h
  · exact horder heq (Ne.symm hbc) h

/-- Two chosen links whose paths meet have an end in common. -/
theorem share_end {between : List (Link g)} (he : Choice g nodes before e)
    (hf : Choice g nodes (before ++ e :: between) f) (heends : e.HasEnds a b)
    (hfends : f.HasEnds c d) (hex : g.Between a x b) (hfx : g.Between c x d) :
    a = c ∨ a = d ∨ b = c ∨ b = d := by
  by_contra hne
  simp only [not_or] at hne
  obtain ⟨hac, had, hbc, hbd⟩ := hne
  have hab : component (before ++ e :: between) a = component (before ++ e :: between) b := by
    have hlabels := component_ends (by simp : e ∈ before ++ e :: between)
    rcases heends with ⟨rfl, rfl⟩ | ⟨rfl, rfl⟩
    · exact hlabels
    · exact hlabels.symm
  -- One end of `f` is apart from both ends of `e`, and the other end of `f` from one of them.
  have hcase {c d : g.Node} (hfends : f.HasEnds c d) (hfx : g.Between c x d) (hac : a ≠ c)
      (hbc : b ≠ c) (hlabels : component (before ++ e :: between) a ≠
        component (before ++ e :: between) d) : False := by
    by_cases hca : component before c = component before a
    · have hcb : component before c ≠ component before b :=
        fun h => he.component_ne_of_hasEnds heends (hca.symm.trans h)
      exact absurd_of_meet hnodes he hf (Or.symm heends) hfends hac hcb hlabels hex.symm
        hfx
    · exact absurd_of_meet hnodes he hf heends hfends hbc hca (hab ▸ hlabels) hex hfx
  by_cases hlabels : component (before ++ e :: between) a = component (before ++ e :: between) d
  · refine hcase (Or.symm hfends) hfx.symm had hbd fun h => ?_
    exact hf.component_ne_of_hasEnds hfends (h.symm.trans hlabels)
  · exact hcase hfends hfx hac hbc hlabels

end Choice

/-! ## The number of choices -/

/-- In the end the chosen links connect all requested nodes. -/
theorem component_chosenLinks_eq {nodes : List g.Node} {u v : g.Node} (hu : u ∈ nodes)
    (hv : v ∈ nodes) : component (g.chosenLinks nodes) u = component (g.chosenLinks nodes) v := by
  have hlink {u v : g.Node} (huv : [u, v].Sublist nodes) :
      component (g.chosenLinks nodes) u = component (g.chosenLinks nodes) v := by
    have hmem : g.linkOf (u, v) ∈ ((pairs nodes).map g.linkOf).mergeSort
        fun a b => a.distance ≤ b.distance :=
      List.mem_mergeSort.2 (List.mem_map_of_mem (mem_pairs_iff.2 huv))
    exact get_mergeAll_spanning (.separate g) hmem
  by_cases huv : u = v
  · rw [huv]
  · rcases pair_sublist_or hu hv huv with hsub | hsub
    · exact hlink hsub
    · exact (hlink hsub).symm

/-- Merging two components of a set of nodes leaves one component less. -/
theorem Components.card_image_merge {c : Components g} {nodes : Finset g.Node} {i j : g.Node}
    (hi : i ∈ nodes) (hj : j ∈ nodes) (hne : c.get i ≠ c.get j) :
    (nodes.image (c.merge i j).get).card + 1 = (nodes.image c.get).card := by
  -- Exactly the label of the second node disappears.
  have himage : nodes.image (c.merge i j).get = (nodes.image c.get).erase (c.get j) := by
    ext label
    simp only [Finset.mem_image, Finset.mem_erase, get_merge]
    constructor
    · rintro ⟨u, hu, rfl⟩
      split_ifs with hsame
      · exact ⟨hne, i, hi, rfl⟩
      · exact ⟨hsame, u, hu, rfl⟩
    · rintro ⟨hlabel, u, hu, rfl⟩
      exact ⟨u, hu, if_neg hlabel⟩
  rw [himage]
  exact Finset.card_erase_add_one (Finset.mem_image_of_mem _ hj)

/-- Each chosen link leaves one component less. -/
theorem card_image_spanning {nodes : Finset g.Node} (c : Components g)
    {links : List (Link g)} (hlinks : ∀ l ∈ links, l.source ∈ nodes ∧ l.target ∈ nodes) :
    (nodes.image (c.mergeAll (spanning c links)).get).card + (spanning c links).length =
      (nodes.image c.get).card := by
  induction links generalizing c with
  | nil => rfl
  | cons l rest ih =>
    obtain ⟨⟨hsource, htarget⟩, hrest⟩ := List.forall_mem_cons.1 hlinks
    rw [spanning]
    split_ifs with hsame
    · exact ih c hrest
    · rw [← Components.card_image_merge hsource htarget hsame,
        ← ih (c.merge l.source l.target) hrest]
      rfl

/-- Connecting some nodes takes one link less than there are nodes. -/
theorem length_chosenLinks {nodes : List g.Node} (hnodes : nodes.Nodup) (hne : nodes ≠ []) :
    (g.chosenLinks nodes).length + 1 = nodes.length := by
  have hcount := card_image_spanning (.separate g) (ends_mem_of_links nodes)
  -- In the beginning each node is a component, in the end all are in one.
  have hfirst : nodes.toFinset.image (Components.separate g).get = nodes.toFinset := by
    ext u
    simp
  have hlast : (nodes.toFinset.image (component (g.chosenLinks nodes))).card = 1 := by
    obtain ⟨u, hu⟩ := List.exists_mem_of_ne_nil nodes hne
    refine Finset.card_eq_one.2 ⟨component (g.chosenLinks nodes) u, ?_⟩
    ext label
    simp only [Finset.mem_image, List.mem_toFinset, Finset.mem_singleton]
    constructor
    · rintro ⟨v, hv, rfl⟩
      exact component_chosenLinks_eq hv hu
    · rintro rfl
      exact ⟨u, hu, rfl⟩
  rw [hfirst, List.toFinset_card_of_nodup hnodes] at hcount
  have hcount : (nodes.toFinset.image (component (g.chosenLinks nodes))).card +
      (g.chosenLinks nodes).length = nodes.length := hcount
  omega

end JoinGraph

end MetricLayer
