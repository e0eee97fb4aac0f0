import MetricLayer.Proofs.Distinct
import MetricLayer.Proofs.JoinGraph.Spanning

/-!
# Join trees

What the search for a join tree gives for each request. `JoinGraph.joinTree_cases` says once what
its stages can do: a requested name may be unknown, a pair of requested models may be unconnected,
and otherwise the tree is grown from the steps along the trails of the chosen links. What holds of a
grown tree is the invariant `JoinGraph.Grown`.
-/

namespace MetricLayer

namespace JoinGraph

variable {g : JoinGraph}

/-! ## The stages of the search -/

/-- A requested name is that of a node, or is unknown. -/
private theorem requestedNode_cases (g : JoinGraph) (name : String) :
    (name ∉ g.names ∧ g.requestedNode name = .error (.unknownModel name)) ∨
      ∃ i, name ∈ g.names ∧ g.requestedNode name = .ok i ∧ name = g.name i := by
  rw [requestedNode]
  cases hnode : g.node? name with
  | none => exact .inl ⟨node?_eq_none_iff.1 hnode, rfl⟩
  | some i =>
    have hname := name_of_node? hnode
    exact .inr ⟨i, hname ▸ List.get_mem g.names i, rfl, hname.symm⟩

/-- The requested nodes have the requested names, unless one of them is unknown. -/
private theorem requestedNodes_cases (g : JoinGraph) (requested : List String) :
    (∃ name, requested.find? (· ∉ g.names) = some name ∧
      g.requestedNodes requested = .error (.unknownModel name)) ∨
    ∃ nodes, g.requestedNodes requested = .ok nodes ∧ nodes.map g.name = distinct requested ∧
      ∀ name ∈ requested, name ∈ g.names := by
  rcases Agree.mapM_cases g.requestedNode_cases (distinct requested) with
    ⟨before, name, after, hsplit, hbefore, hunknown, herror⟩ | ⟨hknown, nodes, hnodes, hnames⟩
  · refine .inl ⟨name, ?_, herror⟩
    have hnone : before.find? (· ∉ g.names) = none :=
      List.find?_eq_none.2 fun n hn => by simpa using hbefore n hn
    rw [← find?_distinct, hsplit, List.find?_append, hnone,
      List.find?_cons_of_pos (by simpa using hunknown)]
    rfl
  · refine .inr ⟨nodes, hnodes, ?_, fun name hname => hknown name (mem_distinct.2 hname)⟩
    rwa [eq_comm, ← List.forall₂_eq_eq_eq, List.forall₂_map_right_iff]

/-- Two nodes have a link, or are not connected. -/
private theorem link_cases (p : g.Node × g.Node) :
    (¬g.Reaches p.1 p.2 ∧
      g.link g.shortestRoutes p.1 p.2 = .error (.noPath (g.name p.1) (g.name p.2))) ∨
      ∃ l, g.Reaches p.1 p.2 ∧ g.link g.shortestRoutes p.1 p.2 = .ok l ∧ g.linkOf p = l := by
  rw [link, represents_trails g p.1 p.2]
  cases hc : g.trails p.1 p.2 with
  | none => exact .inl ⟨fun ⟨c, h⟩ => by simp [hc] at h, rfl⟩
  | some c =>
    refine .inr ⟨g.linkOf p, ⟨c, hc⟩, ?_, rfl⟩
    simp [linkOf, distance_eq hc, TrailTable.routeOf]

/-- The links between some nodes are found, unless two of the nodes are not connected. -/
private theorem links_cases (ps : List (g.Node × g.Node)) :
    (∃ before p after, ps = before ++ p :: after ∧ (∀ q ∈ before, g.Reaches q.1 q.2) ∧
      ¬g.Reaches p.1 p.2 ∧ (ps.mapM fun p => g.link g.shortestRoutes p.1 p.2) =
        .error (.noPath (g.name p.1) (g.name p.2))) ∨
    ((∀ p ∈ ps, g.Reaches p.1 p.2) ∧
      (ps.mapM fun p => g.link g.shortestRoutes p.1 p.2) = .ok (ps.map g.linkOf)) := by
  refine (Agree.mapM_cases link_cases ps).imp_right ?_
  rintro ⟨hreach, links, hlinks, heq⟩
  rw [← List.forall₂_map_left_iff, List.forall₂_eq_eq_eq] at heq
  exact ⟨hreach, by rw [hlinks, heq]⟩

/-- The steps along the trail of a link. -/
def TrailSteps (g : JoinGraph) (l : Link g) (steps : List g.Step) : Prop :=
  ∃ c, g.trails l.source l.target = some c ∧ Follows g (l.source :: c.stops ++ [l.target]) steps

/-- A chosen link connects two different requested nodes. -/
theorem mem_pairs_of_mem_chosenLinks {nodes : List g.Node} {l : Link g}
    (hl : l ∈ g.chosenLinks nodes) : (l.source, l.target) ∈ pairs nodes := by
  have hmem := List.mem_mergeSort.1 (mem_of_mem_spanning hl)
  obtain ⟨p, hp, rfl⟩ := List.mem_map.1 hmem
  exact hp

/-- The paths of chosen links are rebuilt. -/
private theorem paths_eq_ok {nodes : List g.Node} (hnodes : nodes.Nodup)
    (hreach : ∀ p ∈ pairs nodes, g.Reaches p.1 p.2) {links : List (Link g)}
    (hlinks : ∀ l ∈ links, (l.source, l.target) ∈ pairs nodes) :
    ∃ paths, (links.mapM fun l => g.pathSteps g.shortestRoutes l.source l.target) = .ok paths ∧
      List.Forall₂ g.TrailSteps links paths := by
  induction links with
  | nil => exact ⟨[], rfl, .nil⟩
  | cons l rest ih =>
    obtain ⟨hl, hrest⟩ := List.forall_mem_cons.1 hlinks
    obtain ⟨c, hc⟩ := hreach _ hl
    obtain ⟨steps, hsteps, hfollows⟩ := pathSteps_eq_ok (ne_of_mem_pairs hnodes hl) hc
    obtain ⟨paths, hpaths, hall⟩ := ih hrest
    refine ⟨steps :: paths, ?_, .cons ⟨c, hc, hfollows⟩ hall⟩
    rw [List.mapM_cons, hsteps, hpaths]
    rfl

/-- What the search for a join tree can give. -/
theorem joinTree_cases (requested : List String) :
    (∃ name, requested.find? (· ∉ g.names) = some name ∧
      g.joinTree requested = .error (.unknownModel name)) ∨
    ((∀ name ∈ requested, name ∈ g.names) ∧ ∃ nodes : List g.Node,
      nodes.map g.name = distinct requested ∧
      ((∃ before p after, pairs nodes = before ++ p :: after ∧
          (∀ q ∈ before, g.Reaches q.1 q.2) ∧ ¬g.Reaches p.1 p.2 ∧
          g.joinTree requested = .error (.noPath (g.name p.1) (g.name p.2))) ∨
        ((∀ p ∈ pairs nodes, g.Reaches p.1 p.2) ∧ ∃ paths,
          List.Forall₂ g.TrailSteps (g.chosenLinks nodes) paths ∧
          g.joinTree requested =
            .ok (paths.flatten.foldl (addStep g) ⟨distinct requested, []⟩)))) := by
  rcases requestedNodes_cases g requested with
    ⟨name, hname, herror⟩ | ⟨nodes, hok, hnames, hknown⟩
  · exact .inl ⟨name, hname, by rw [joinTree, herror]; rfl⟩
  refine .inr ⟨hknown, nodes, hnames, ?_⟩
  -- The links are chosen among all pairs of the requested nodes, so they are found exactly where
  -- all pairs are connected, and then each chosen path can be rebuilt.
  have hnodup : nodes.Nodup := List.Nodup.of_map g.name (hnames ▸ nodup_distinct requested)
  have hrun : g.joinTree requested = (if nodes.length ≤ 1 then return ⟨distinct requested, []⟩
      else do
        let links ← (pairs nodes).mapM fun p => g.link g.shortestRoutes p.1 p.2
        let chosen := spanning (.separate g) (links.mergeSort fun a b => a.distance ≤ b.distance)
        let paths ← chosen.mapM fun l => g.pathSteps g.shortestRoutes l.source l.target
        return paths.flatten.foldl (addStep g) ⟨distinct requested, []⟩) := by
    rw [joinTree, hok]
    rfl
  rw [hrun]
  split_ifs with hlength
  · -- A single model needs no joins.
    have hnone : pairs nodes = [] := by
      match nodes, hlength with
      | [], _ => rfl
      | [_], _ => rfl
    refine .inr ⟨by simp [hnone], [], ?_, rfl⟩
    rw [chosenLinks, hnone, List.map_nil, List.mergeSort_nil, spanning]
    exact .nil
  · rcases links_cases (pairs nodes) with ⟨before, p, after, hsplit, hbefore, hnot, herror⟩ |
      ⟨hreach, hlinks⟩
    · exact .inl ⟨before, p, after, hsplit, hbefore, hnot, by rw [herror]; rfl⟩
    · have hchosen : ∀ l ∈ g.chosenLinks nodes, (l.source, l.target) ∈ pairs nodes :=
        fun l hl => mem_pairs_of_mem_chosenLinks hl
      obtain ⟨paths, hpaths, hall⟩ := paths_eq_ok hnodup hreach hchosen
      refine .inr ⟨hreach, paths, hall, ?_⟩
      rw [hlinks]
      change (do
        let paths ← (g.chosenLinks nodes).mapM fun l : Link g =>
          g.pathSteps g.shortestRoutes l.source l.target
        return paths.flatten.foldl (addStep g) ⟨distinct requested, []⟩) = _
      rw [hpaths]
      rfl

/-! ## Growing a tree -/

/-- What holds of a tree that has grown from the requested models along some steps. -/
structure Grown (g : JoinGraph) (requested : List String) (steps : List g.Step) (t : JoinTree) :
    Prop where
  /-- The requested models come first. -/
  first : requested.IsPrefix t.models
  models : t.models.Nodup
  joins : (t.edges.map (·.join)).Nodup
  /-- Every edge is that of a step. -/
  edge : ∀ e ∈ t.edges, ∃ s ∈ steps, e = ⟨g.name s.source, g.name s.target, s.edge.join⟩
  ends : ∀ e ∈ t.edges, e.origin ∈ t.models ∧ e.target ∈ t.models
  /-- Models that were not requested are there for an edge. -/
  model : ∀ m ∈ t.models, m ∈ requested ∨ ∃ e ∈ t.edges, m = e.origin ∨ m = e.target
  /-- The join of every step is there. -/
  done : ∀ s ∈ steps, s.edge.join ∈ t.edges.map (·.join)

/-- Before the first step the tree has the requested models and no edge. -/
theorem grown_nil (g : JoinGraph) {requested : List String} (h : requested.Nodup) :
    Grown g requested [] ⟨requested, []⟩ where
  first := List.prefix_refl requested
  models := h
  joins := List.nodup_nil
  edge := nofun
  ends := nofun
  model _ hm := .inl hm
  done := nofun

namespace Grown

variable {requested : List String} {steps : List g.Step} {t : JoinTree}
  (h : Grown g requested steps t)

include h

/-- One more step keeps the invariant. -/
theorem addStep (s : g.Step) : Grown g requested (steps ++ [s]) (g.addStep t s) := by
  by_cases hused : s.edge.join ∈ t.edges.map (·.join)
  · rw [JoinGraph.addStep, if_pos hused]
    refine ⟨h.first, h.models, h.joins, fun e he => ?_, h.ends, h.model, fun s' hs' => ?_⟩
    · obtain ⟨s', hs', rfl⟩ := h.edge e he
      exact ⟨s', List.mem_append_left _ hs', rfl⟩
    · rcases List.mem_append.1 hs' with hs' | hs'
      · exact h.done s' hs'
      · rwa [List.mem_singleton.1 hs']
  · rw [JoinGraph.addStep, if_neg hused]
    -- A new join brings its two models and one edge between them; all else is as before.
    have hmem (m : String) : m ∈ addAllNew t.models [g.name s.source, g.name s.target] ↔
        m ∈ t.models ∨ m = g.name s.source ∨ m = g.name s.target := by
      simp [mem_addAllNew]
    refine ⟨h.first.trans (prefix_addAllNewBy _ _ _), nodup_addAllNew h.models _, ?_, ?_, ?_,
      fun m hm => ?_, fun s' hs' => ?_⟩
    · rw [List.map_append, List.nodup_append]
      refine ⟨h.joins, by simp, ?_⟩
      simpa using fun e he => ne_of_mem_of_not_mem (List.mem_map_of_mem he) hused
    · rw [List.forall_mem_append]
      refine ⟨fun e he => ?_, by simp⟩
      obtain ⟨s', hs', rfl⟩ := h.edge e he
      exact ⟨s', List.mem_append_left _ hs', rfl⟩
    · rw [List.forall_mem_append]
      refine ⟨fun e he => ?_, by simp [mem_addAllNew]⟩
      obtain ⟨horigin, htarget⟩ := h.ends e he
      exact ⟨(hmem _).2 (.inl horigin), (hmem _).2 (.inl htarget)⟩
    · rcases (hmem m).1 hm with hm | hm
      · rcases h.model m hm with hm | ⟨e, he, hends⟩
        · exact .inl hm
        · exact .inr ⟨e, List.mem_append_left _ he, hends⟩
      · exact .inr ⟨_, List.mem_append_right _ (List.mem_singleton_self _), hm⟩
    · rw [List.map_append, List.mem_append]
      rcases List.mem_append.1 hs' with hs' | hs'
      · exact .inl (h.done s' hs')
      · exact .inr (by simp [List.mem_singleton.1 hs'])

/-- Any number of steps keeps the invariant. -/
theorem foldl_addStep (more : List g.Step) :
    Grown g requested (steps ++ more) (more.foldl g.addStep t) := by
  induction more generalizing steps t with
  | nil => simpa using h
  | cons s rest ih => simpa using ih (h.addStep s)

end Grown

/-- A join tree has grown from the requested models along the trails of the chosen links. -/
theorem exists_grown_of_joinTree {requested : List String} {t : JoinTree}
    (h : g.joinTree requested = .ok t) : ∃ nodes paths, nodes.map g.name = distinct requested ∧
      List.Forall₂ g.TrailSteps (g.chosenLinks nodes) paths ∧
      t = paths.flatten.foldl g.addStep ⟨distinct requested, []⟩ ∧
      Grown g (distinct requested) paths.flatten t := by
  rcases joinTree_cases requested with ⟨name, -, herror⟩ | ⟨-, nodes, hnames, hcases⟩
  · rw [herror] at h
    cases h
  rcases hcases with ⟨before, p, after, -, -, -, herror⟩ | ⟨-, paths, hpaths, hok⟩
  · rw [herror] at h
    cases h
  obtain rfl := Except.ok.inj (hok.symm.trans h)
  have hgrown := (grown_nil g (nodup_distinct requested)).foldl_addStep paths.flatten
  exact ⟨nodes, paths, hnames, hpaths, rfl, hgrown⟩

/-- The requested models are in their join tree. -/
theorem mem_models_of_joinTree {requested : List String} {t : JoinTree}
    (h : g.joinTree requested = .ok t) {m : String} (hm : m ∈ requested) : m ∈ t.models := by
  obtain ⟨nodes, paths, -, -, -, hgrown⟩ := exists_grown_of_joinTree h
  exact hgrown.first.subset (mem_distinct.2 hm)

/-! ## Connected trees -/

end JoinGraph

/-- Two models that an edge of a tree connects. -/
def JoinTree.Adjacent (t : JoinTree) (a b : String) : Prop :=
  ∃ e ∈ t.edges, (e.origin = a ∧ e.target = b) ∨ (e.origin = b ∧ e.target = a)

/-- Two models that the edges of a tree connect. -/
def JoinTree.Linked (t : JoinTree) : String → String → Prop :=
  Relation.ReflTransGen t.Adjacent

/-- Being linked is an equivalence. -/
theorem JoinTree.equivalence_linked (t : JoinTree) : Equivalence t.Linked := by
  refine ⟨fun _ => .refl, fun h => ?_, fun h h' => h.trans h'⟩
  induction h with
  | refl => exact .refl
  | tail _ hbc ih =>
    obtain ⟨e, he, hends⟩ := hbc
    exact .head ⟨e, he, hends.symm⟩ ih

namespace JoinGraph

variable {g : JoinGraph}

/-- The ends of a step are adjacent in a tree that has grown along it. -/
theorem Grown.adjacent (hg : g.Regular) {requested : List String} {steps : List g.Step}
    {t : JoinTree} (h : Grown g requested steps t)
    (hdirect : ∀ s ∈ steps, g.direct? s.source s.target = some s.edge) {s : g.Step}
    (hs : s ∈ steps) : t.Adjacent (g.name s.source) (g.name s.target) := by
  obtain ⟨e, he, hjoin⟩ := List.mem_map.1 (h.done s hs)
  obtain ⟨s', hs', rfl⟩ := h.edge e he
  -- The join may have come with another step, but then over the same edge.
  obtain ⟨hmem, hconnects⟩ := mem_of_direct? (hdirect s hs)
  obtain ⟨hmem', hconnects'⟩ := mem_of_direct? (hdirect s' hs')
  rw [hg.joins _ hmem' _ hmem hjoin] at hconnects'
  refine ⟨_, he, ?_⟩
  rcases hconnects'.eq_or hconnects with ⟨hsource, htarget⟩ | ⟨hsource, htarget⟩
  · exact .inl ⟨congrArg g.name hsource, congrArg g.name htarget⟩
  · exact .inr ⟨congrArg g.name hsource, congrArg g.name htarget⟩

/-- Every step along the trails of some links uses a direct edge. -/
theorem direct?_of_mem_flatten {links : List (Link g)} {paths : List (List g.Step)}
    (hpaths : List.Forall₂ g.TrailSteps links paths) {s : g.Step} (hs : s ∈ paths.flatten) :
    g.direct? s.source s.target = some s.edge := by
  obtain ⟨steps, hsteps, hs⟩ := List.mem_flatten.1 hs
  obtain ⟨l, -, c, -, hfollows⟩ := exists_mem_of_forall₂ hpaths hsteps
  exact hfollows.direct?_eq hs

section Connected

variable (hg : g.Regular) {nodes : List g.Node} {paths : List (List g.Step)}
  (hpaths : List.Forall₂ g.TrailSteps (g.chosenLinks nodes) paths)

variable {requested : List String} {t : JoinTree} (h : Grown g requested paths.flatten t)

include hg hpaths h

/-- The nodes along the trail of a chosen link are linked with its source. -/
private theorem linked_of_mem_trail {l : Link g} {steps : List g.Step} (hsteps : steps ∈ paths)
    (htrail : g.TrailSteps l steps) :
    (∀ s ∈ steps, t.Linked (g.name l.source) (g.name s.source) ∧
      t.Linked (g.name l.source) (g.name s.target)) ∧
      t.Linked (g.name l.source) (g.name l.target) := by
  obtain ⟨c, -, hfollows⟩ := htrail
  have hP : Equivalence fun u v : g.Node => t.Linked (g.name u) (g.name v) :=
    t.equivalence_linked.comap g.name
  have hall (s : g.Step) (hs : s ∈ steps) : t.Linked (g.name s.source) (g.name s.target) := by
    refine .single (h.adjacent hg (fun s hs => direct?_of_mem_flatten hpaths hs) ?_)
    exact List.mem_flatten.2 ⟨steps, hsteps, hs⟩
  refine ⟨fun s hs => ?_, hfollows.rel_of_mem hP hall (by simp)⟩
  obtain ⟨hsource, htarget⟩ := hfollows.mem_nodes hs
  exact ⟨hfollows.rel_of_mem hP hall hsource, hfollows.rel_of_mem hP hall htarget⟩

/-- The requested nodes are linked with each other. -/
private theorem linked_nodes {u v : g.Node} (hu : u ∈ nodes) (hv : v ∈ nodes) :
    t.Linked (g.name u) (g.name v) := by
  have hP : Equivalence fun u v : g.Node => t.Linked (g.name u) (g.name v) :=
    t.equivalence_linked.comap g.name
  refine Components.rel_of_get_mergeAll_eq hP (fun x y hxy => ?_) (fun l hl => ?_)
    (component_chosenLinks_eq hu hv)
  · rw [Components.get_separate, Components.get_separate] at hxy
    exact hxy ▸ .refl
  · obtain ⟨steps, hsteps, htrail⟩ := exists_mem_of_forall₂ hpaths.flip hl
    exact (linked_of_mem_trail hg hpaths h hsteps htrail).2

/-- Every model of a tree that has grown along the chosen links is linked with a requested one. -/
private theorem exists_linked_node (hnames : nodes.map g.name = requested) {m : String}
    (hm : m ∈ t.models) : ∃ u ∈ nodes, t.Linked (g.name u) m := by
  rcases h.model m hm with hm | ⟨e, he, hends⟩
  · rw [← hnames] at hm
    obtain ⟨u, hu, rfl⟩ := List.mem_map.1 hm
    exact ⟨u, hu, .refl⟩
  · obtain ⟨s, hs, rfl⟩ := h.edge e he
    obtain ⟨steps, hsteps, hs⟩ := List.mem_flatten.1 hs
    obtain ⟨l, hl, htrail⟩ := exists_mem_of_forall₂ hpaths hsteps
    obtain ⟨hsource, htarget⟩ := (linked_of_mem_trail hg hpaths h hsteps htrail).1 s hs
    refine ⟨l.source, (mem_pairs_iff.1 (mem_pairs_of_mem_chosenLinks hl)).subset (by simp), ?_⟩
    rcases hends with rfl | rfl
    · exact hsource
    · exact htarget

/-- All models of a tree that has grown along the chosen links are linked. -/
theorem linked_models (hnames : nodes.map g.name = requested) {m m' : String}
    (hm : m ∈ t.models) (hm' : m' ∈ t.models) : t.Linked m m' := by
  obtain ⟨u, hu, hum⟩ := exists_linked_node hg hpaths h hnames hm
  obtain ⟨v, hv, hvm⟩ := exists_linked_node hg hpaths h hnames hm'
  exact (t.equivalence_linked.symm hum).trans ((linked_nodes hg hpaths h hu hv).trans hvm)

end Connected

end JoinGraph

end MetricLayer
