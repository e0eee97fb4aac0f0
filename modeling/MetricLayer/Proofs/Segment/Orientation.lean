import MetricLayer.Segment.Expand
import MetricLayer.Proofs.JoinGraph.Acyclic

/-!
# Oriented join trees

Seen from any of its models, a join tree keeps all its joins: the search breadth first reaches each
other model by one join (`JoinTree.closed_orientFrom`), never goes back over a join
(`JoinTree.pairwise_orientFrom`), and there are as many joins as models to be reached. The joins add
the models of the tree one after the other (`JoinTree.growFrom_orient`), each exactly once
(`JoinTree.IsTree.perm_models`).
-/

namespace MetricLayer

/-- An oriented join goes over an edge in one of its directions. -/
def OrientedJoin.Orients (j : OrientedJoin) (e : JoinTreeEdge) : Prop :=
  j.join = e.join ∧ ((e.origin = j.parent ∧ e.target = j.child) ∨
    (e.origin = j.child ∧ e.target = j.parent))

/-- The joins over the edges of a tree have the positions of the edges. -/
theorem map_join_eq_of_orients {joins : List OrientedJoin} {edges : List JoinTreeEdge}
    (h : List.Forall₂ OrientedJoin.Orients joins edges) :
    joins.map (·.join) = edges.map (·.join) :=
  map_eq_map_of_forall₂ (h.imp fun _ _ hje => hje.1)

namespace JoinTree

variable {t : JoinTree} {queue seen : List String} {parent m : String} {j : OrientedJoin}

/-! ## The joins of one model -/

/-- A neighbour is the other end of an edge of the tree. -/
private theorem mem_neighbours {e : JoinTreeEdge} (h : (m, e) ∈ t.neighbours parent) :
    e ∈ t.edges ∧ ((e.origin = parent ∧ e.target = m) ∨ (e.origin = m ∧ e.target = parent)) := by
  obtain ⟨e', he', hsome⟩ := List.mem_filterMap.1 h
  split_ifs at hsome with horigin htarget
  · obtain ⟨rfl, rfl⟩ := Prod.mk.inj (Option.some.inj hsome)
    exact ⟨he', .inl ⟨horigin, rfl⟩⟩
  · obtain ⟨rfl, rfl⟩ := Prod.mk.inj (Option.some.inj hsome)
    exact ⟨he', .inr ⟨rfl, htarget⟩⟩

private theorem exists_mem_neighbours (h : t.Adjacent parent m) :
    ∃ e, (m, e) ∈ t.neighbours parent := by
  obtain ⟨e, he, hends⟩ := h
  refine ⟨e, List.mem_filterMap.2 ⟨e, he, ?_⟩⟩
  rcases hends with ⟨rfl, rfl⟩ | ⟨rfl, rfl⟩
  · rw [if_pos rfl]
  · by_cases hsame : e.origin = e.target
    · rw [if_pos hsame, hsame]
    · rw [if_neg hsame, if_pos rfl]

/-- A new join goes over an edge from the model to one that has not been seen. -/
theorem of_mem_newJoins (h : j ∈ t.newJoins seen parent) :
    j.parent = parent ∧ j.child ∉ seen ∧ ∃ e ∈ t.edges, j.Orients e := by
  have hmem := (mem_or_mem_of_mem_addAllNewBy h).resolve_left (List.not_mem_nil)
  obtain ⟨⟨child, e⟩, hfilter, rfl⟩ := List.mem_map.1 hmem
  obtain ⟨hneighbour, hunseen⟩ := List.mem_filter.1 hfilter
  obtain ⟨he, hends⟩ := mem_neighbours hneighbour
  exact ⟨rfl, by simpa using hunseen, e, he, rfl, hends⟩

theorem nodup_newJoins (t : JoinTree) (seen : List String) (parent : String) :
    ((t.newJoins seen parent).map (·.child)).Nodup := by
  have hnil : (([] : List OrientedJoin).map OrientedJoin.child).Nodup := List.nodup_nil
  exact nodup_keys_addAllNewBy hnil _

/-- Every adjacent model that has not been seen gets a new join. -/
theorem mem_newJoins (h : t.Adjacent parent m) (hm : m ∉ seen) :
    m ∈ (t.newJoins seen parent).map (·.child) := by
  obtain ⟨e, he⟩ := exists_mem_neighbours h
  have hfilter : (m, e) ∈ (t.neighbours parent).filter fun entry => entry.1 ∉ seen :=
    List.mem_filter.2 ⟨he, by simpa using hm⟩
  have hmem := List.mem_map_of_mem (f := fun entry : String × JoinTreeEdge =>
    (⟨parent, entry.1, entry.2.join⟩ : OrientedJoin)) hfilter
  exact mem_keys_addAllNewBy (.inr hmem)

/-- The models of new joins come after those that have been seen. -/
private theorem nodup_append_newJoins (hnodup : seen.Nodup) (parent : String) :
    (seen ++ (t.newJoins seen parent).map (·.child)).Nodup := by
  refine List.nodup_append.2 ⟨hnodup, t.nodup_newJoins seen parent, ?_⟩
  rintro m hm _ hchild rfl
  obtain ⟨j, hj, rfl⟩ := List.mem_map.1 hchild
  exact (of_mem_newJoins hj).2.1 hm

/-- The model that an edge leads to is one of the tree. -/
theorem child_mem_models (hends : ∀ e ∈ t.edges, e.origin ∈ t.models ∧ e.target ∈ t.models)
    (hj : ∃ e ∈ t.edges, j.Orients e) : j.child ∈ t.models := by
  obtain ⟨e, he, -, ⟨-, htarget⟩ | ⟨horigin, -⟩⟩ := hj
  · exact htarget ▸ (hends e he).2
  · exact horigin ▸ (hends e he).1

/-! ## The whole search -/

/-- The joins of a search go over edges to models that had not been seen. -/
theorem of_mem_orientFrom {bound : Nat} (h : j ∈ t.orientFrom bound queue seen) :
    j.child ∉ seen ∧ ∃ e ∈ t.edges, j.Orients e := by
  induction bound generalizing queue seen with
  | zero => cases h
  | succ bound ih =>
    cases queue with
    | nil => cases h
    | cons parent queue =>
      rcases List.mem_append.1 h with hnew | hlater
      · exact (of_mem_newJoins hnew).2
      · obtain ⟨hchild, hedge⟩ := ih hlater
        exact ⟨fun hmem => hchild (List.mem_append_left _ hmem), hedge⟩

/-- A later join leads to another model, and not back to where an earlier one started. -/
theorem pairwise_orientFrom (t : JoinTree) (bound : Nat) (hqueue : ∀ m ∈ queue, m ∈ seen) :
    (t.orientFrom bound queue seen).Pairwise fun j j' =>
      j.child ≠ j'.child ∧ j.parent ≠ j'.child := by
  induction bound generalizing queue seen with
  | zero => exact .nil
  | succ bound ih =>
    cases queue with
    | nil => exact .nil
    | cons parent queue =>
      obtain ⟨hparent, hrest⟩ := List.forall_mem_cons.1 hqueue
      refine List.pairwise_append.2 ⟨?_, ih fun m hm => ?_, fun j hj j' hj' => ?_⟩
      · -- The joins of one model lead to different models that have not been seen.
        have hnodup := List.pairwise_map.1 (t.nodup_newJoins seen parent)
        refine hnodup.imp_of_mem fun hj hj' hne => ⟨hne, fun heq => ?_⟩
        obtain ⟨hchild, -⟩ := (of_mem_newJoins hj').2
        exact hchild (heq ▸ (of_mem_newJoins hj).1 ▸ hparent)
      · rcases List.mem_append.1 hm with hm | hm
        · exact List.mem_append_left _ (hrest m hm)
        · exact List.mem_append_right _ hm
      · obtain ⟨hchild, -⟩ := of_mem_orientFrom hj'
        rw [List.mem_append, not_or] at hchild
        refine ⟨fun heq => hchild.2 (heq ▸ List.mem_map_of_mem hj), fun heq => hchild.1 ?_⟩
        exact heq ▸ (of_mem_newJoins hj).1 ▸ hparent

/-- With enough steps the search ends in a set of models that no edge leaves. -/
theorem closed_orientFrom {bound : Nat}
    (hends : ∀ e ∈ t.edges, e.origin ∈ t.models ∧ e.target ∈ t.models)
    (hnodup : seen.Nodup) (hsubset : ∀ m ∈ seen, m ∈ t.models)
    (hbound : t.models.length + queue.length ≤ bound + seen.length)
    (hdone : ∀ p ∈ seen, p ∉ queue → ∀ m, t.Adjacent p m → m ∈ seen) :
    ∀ p ∈ seen ++ (t.orientFrom bound queue seen).map (·.child), ∀ m, t.Adjacent p m →
      m ∈ seen ++ (t.orientFrom bound queue seen).map (·.child) := by
  -- The bound counts the models that are still to come: those in the queue and those that have not
  -- been seen. When it is used up both are empty.
  induction bound generalizing queue seen with
  | zero =>
    have hlength := (List.subperm_of_subset hnodup hsubset).length_le
    have hempty : queue = [] := List.length_eq_zero_iff.1 (by omega)
    simpa [orientFrom, hempty] using hdone
  | succ bound ih =>
    cases queue with
    | nil => simpa [orientFrom] using hdone
    | cons parent queue =>
      have hnodup' := nodup_append_newJoins (t := t) hnodup parent
      have hsubset' : ∀ m ∈ seen ++ (t.newJoins seen parent).map (·.child), m ∈ t.models := by
        refine List.forall_mem_append.2 ⟨hsubset, fun m hm => ?_⟩
        obtain ⟨j, hj, rfl⟩ := List.mem_map.1 hm
        exact child_mem_models hends (of_mem_newJoins hj).2.2
      -- With its new joins the model at the front of the queue is done.
      have hdone' : ∀ p ∈ seen ++ (t.newJoins seen parent).map (·.child),
          p ∉ queue ++ (t.newJoins seen parent).map (·.child) →
          ∀ m, t.Adjacent p m → m ∈ seen ++ (t.newJoins seen parent).map (·.child) := by
        intro p hp hqueue m hadjacent
        rw [List.mem_append, not_or] at hqueue
        have hp := (List.mem_append.1 hp).resolve_right hqueue.2
        by_cases hm : m ∈ seen
        · exact List.mem_append_left _ hm
        by_cases hparent : p = parent
        · exact List.mem_append_right _ (mem_newJoins (hparent ▸ hadjacent) hm)
        · exact absurd (hdone p hp (by simp [hparent, hqueue.1]) m hadjacent) hm
      have hclosed := ih hnodup' hsubset' (by simp at hbound ⊢; omega) hdone'
      simpa [orientFrom] using hclosed

/-! ## The joins of a tree -/

/-- The joins go over every edge of a tree exactly once. -/
def CrossedBy (t : JoinTree) (joins : List OrientedJoin) : Prop :=
  ∃ edges : List JoinTreeEdge, edges.Perm t.edges ∧ List.Forall₂ OrientedJoin.Orients joins edges

/-- Joins over edges that never lead back go over different edges. -/
private theorem exists_edges {joins : List OrientedJoin}
    (hedge : ∀ j ∈ joins, ∃ e ∈ t.edges, j.Orients e)
    (hjoins : joins.Pairwise fun j j' => j.child ≠ j'.child ∧ j.parent ≠ j'.child) :
    ∃ edges : List JoinTreeEdge, edges.Nodup ∧ (∀ e ∈ edges, e ∈ t.edges) ∧
      List.Forall₂ OrientedJoin.Orients joins edges := by
  induction joins with
  | nil => exact ⟨[], List.nodup_nil, nofun, .nil⟩
  | cons j rest ih =>
    obtain ⟨⟨e, he, horients⟩, hrest⟩ := List.forall_mem_cons.1 hedge
    obtain ⟨hfirst, hpairwise⟩ := List.pairwise_cons.1 hjoins
    obtain ⟨edges, hnodup, hsubset, hall⟩ := ih hrest hpairwise
    refine ⟨e :: edges, List.nodup_cons.2 ⟨fun hmem => ?_, hnodup⟩,
      List.forall_mem_cons.2 ⟨he, hsubset⟩, .cons horients hall⟩
    -- A later join over the same edge has the same child, or leads back to the parent.
    obtain ⟨j', hj', horients'⟩ := exists_mem_of_forall₂ hall hmem
    obtain ⟨hchild, hparent⟩ := hfirst j' hj'
    rcases horients.2 with ⟨horigin, htarget⟩ | ⟨horigin, htarget⟩ <;>
      rcases horients'.2 with ⟨horigin', htarget'⟩ | ⟨horigin', htarget'⟩
    · exact hchild (htarget.symm.trans htarget')
    · exact hparent (horigin.symm.trans horigin')
    · exact hparent (htarget.symm.trans htarget')
    · exact hchild (horigin.symm.trans horigin')

/-- Seen from any of its models, every model of a tree is reached. -/
private theorem IsTree.mem_reached (h : t.IsTree) {anchor : String} (hanchor : anchor ∈ t.models)
    (hm : m ∈ t.models) : m ∈ [anchor] ++ (t.orient anchor).map (·.child) := by
  have hclosed : ∀ p ∈ [anchor] ++ (t.orient anchor).map (·.child), ∀ m, t.Adjacent p m →
      m ∈ [anchor] ++ (t.orient anchor).map (·.child) :=
    closed_orientFrom h.ends (List.nodup_singleton anchor) (by simpa using hanchor) (by simp)
      (by simp)
  have hlinked := h.linked anchor hanchor m hm
  clear hm
  induction hlinked with
  | refl => exact List.mem_append_left _ (List.mem_singleton_self _)
  | tail _ hadjacent ih => exact hclosed _ ih _ hadjacent

/-- Seen from any of its models, a tree keeps all its joins. -/
theorem IsTree.crossedBy_orient (h : t.IsTree) {anchor : String} (hanchor : anchor ∈ t.models) :
    t.CrossedBy (t.orient anchor) := by
  -- All models are reached, so there are at least as many joins as edges.
  have hmodels := (List.subperm_of_subset h.models fun m hm => h.mem_reached hanchor hm).length_le
  have hlength := h.length (List.ne_nil_of_mem hanchor)
  -- There are no more either, since no two joins go over one edge.
  have hpairwise := t.pairwise_orientFrom t.models.length (List.Subset.refl [anchor])
  obtain ⟨edges, hnodup, hsubset, hall⟩ :=
    exists_edges (fun j hj => (of_mem_orientFrom hj).2) hpairwise
  refine ⟨edges, (List.subperm_of_subset hnodup hsubset).perm_of_length_le ?_, hall⟩
  have hcount : (t.orient anchor).length = edges.length := hall.length_eq
  simp only [List.length_append, List.length_singleton, List.length_map] at hmodels
  omega

/-! ## One model after the other -/

end JoinTree

/-- Joins that add one model after the other: each starts at a known model and leads to a new
one. -/
def GrowFrom : (known : List String) → List OrientedJoin → Prop
  | _, [] => True
  | known, j :: rest =>
    j.parent ∈ known ∧ j.child ∉ known ∧ GrowFrom (known ++ [j.child]) rest

namespace GrowFrom

variable {known : List String} {joins later : List OrientedJoin}

/-- Joins grow from known models in two runs as they do in one. -/
theorem append_iff : GrowFrom known (joins ++ later) ↔
    GrowFrom known joins ∧ GrowFrom (known ++ joins.map (·.child)) later := by
  induction joins generalizing known with
  | nil => simp [GrowFrom]
  | cons j rest ih => simp [GrowFrom, ih, and_assoc]

/-- Each join leads to a model of its own. -/
theorem nodup (h : GrowFrom known joins) (hknown : known.Nodup) :
    (known ++ joins.map (·.child)).Nodup := by
  induction joins generalizing known with
  | nil => simpa using hknown
  | cons j rest ih =>
    obtain ⟨-, hchild, hrest⟩ := h
    have hsnoc : (known ++ [j.child]).Nodup := by
      refine List.nodup_append.2 ⟨hknown, by simp, ?_⟩
      simpa using fun a ha => ne_of_mem_of_not_mem ha hchild
    simpa using ih hrest hsnoc

/-- Each join starts at a known model or at one that another join leads to. -/
theorem parent_mem (h : GrowFrom known joins) {j : OrientedJoin} (hj : j ∈ joins) :
    j.parent ∈ known ++ joins.map (·.child) := by
  induction joins generalizing known with
  | nil => cases hj
  | cons first rest ih =>
    obtain ⟨hparent, -, hrest⟩ := h
    rcases List.mem_cons.1 hj with rfl | hj
    · exact List.mem_append_left _ hparent
    · simpa using ih hrest hj

/-- Joins from known models to different new models. -/
theorem of_forall (hparent : ∀ j ∈ joins, j.parent ∈ known) (hchild : ∀ j ∈ joins, j.child ∉ known)
    (hnodup : (joins.map (·.child)).Nodup) : GrowFrom known joins := by
  induction joins generalizing known with
  | nil => exact trivial
  | cons j rest ih =>
    obtain ⟨hfirst, hparent⟩ := List.forall_mem_cons.1 hparent
    obtain ⟨hnew, hchild⟩ := List.forall_mem_cons.1 hchild
    obtain ⟨hnot, hnodup⟩ := List.nodup_cons.1 hnodup
    refine ⟨hfirst, hnew, ih (fun j' hj' => List.mem_append_left _ (hparent j' hj')) ?_ hnodup⟩
    intro j' hj' hmem
    rcases List.mem_append.1 hmem with hmem | hmem
    · exact hchild j' hj' hmem
    · exact hnot (List.mem_map.2 ⟨j', hj', List.mem_singleton.1 hmem⟩)

end GrowFrom

namespace JoinTree

variable {t : JoinTree} {queue seen : List String}

/-- A search adds one model after the other to those that have been seen. -/
theorem growFrom_orientFrom (t : JoinTree) (bound : Nat) (hqueue : ∀ m ∈ queue, m ∈ seen) :
    GrowFrom seen (t.orientFrom bound queue seen) := by
  induction bound generalizing queue seen with
  | zero => exact trivial
  | succ bound ih =>
    cases queue with
    | nil => exact trivial
    | cons parent queue =>
      obtain ⟨hparent, hrest⟩ := List.forall_mem_cons.1 hqueue
      refine GrowFrom.append_iff.2 ⟨.of_forall (fun j hj => ?_) (fun j hj => ?_)
        (t.nodup_newJoins seen parent), ih fun m hm => ?_⟩
      · exact (of_mem_newJoins hj).1 ▸ hparent
      · exact (of_mem_newJoins hj).2.1
      · rw [List.mem_append] at hm ⊢
        exact hm.imp_left (hrest m)

/-- The oriented joins of a tree grow from the anchor: each starts at a model already reached. -/
theorem growFrom_orient (t : JoinTree) (anchor : String) : GrowFrom [anchor] (t.orient anchor) :=
  t.growFrom_orientFrom _ fun _ hm => hm

/-- The anchor and the models that the joins lead to are those of the tree, each once. -/
theorem IsTree.perm_models (h : t.IsTree) {anchor : String} (hanchor : anchor ∈ t.models) :
    (anchor :: (t.orient anchor).map (·.child)).Perm t.models := by
  have hnodup := (t.growFrom_orient anchor).nodup (List.nodup_singleton anchor)
  refine (List.perm_ext_iff_of_nodup hnodup h.models).2 fun m => ⟨fun hm => ?_, fun hm => ?_⟩
  · rcases List.mem_cons.1 hm with rfl | hm
    · exact hanchor
    · obtain ⟨j, hj, rfl⟩ := List.mem_map.1 hm
      exact child_mem_models h.ends (of_mem_orientFrom hj).2
  · exact h.mem_reached hanchor hm

end JoinTree

end MetricLayer
