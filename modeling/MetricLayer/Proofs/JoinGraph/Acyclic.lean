import MetricLayer.Proofs.JoinGraph.JoinTree
import MetricLayer.Proofs.JoinGraph.Overlap

/-!
# Join trees have no cycles

The trail of each chosen link leaves what the tree already has at one node, leads over new models
only, and comes back at another node (`JoinGraph.exists_overlap`). So it adds one edge more than
models (`JoinGraph.length_edges_foldl_addStep`), which makes up for the requested models that were
there without an edge: in the end there is one edge less than there are models.
-/

namespace MetricLayer

namespace JoinGraph

variable {g : JoinGraph}

/-! ## Steps that change nothing, and steps over new models -/

/-- Steps whose joins are there change nothing. -/
theorem foldl_addStep_eq_self {t : JoinTree} {steps : List g.Step}
    (h : ∀ s ∈ steps, s.edge.join ∈ t.edges.map (·.join)) : steps.foldl g.addStep t = t := by
  induction steps with
  | nil => rfl
  | cons s rest ih =>
    obtain ⟨hs, hrest⟩ := List.forall_mem_cons.1 h
    rw [List.foldl_cons, addStep, if_pos hs]
    exact ih hrest

/-- Steps over new models between two known ones add one edge more than models. -/
theorem length_foldl_addStep {u v : g.Node} {middle : List g.Node} {steps : List g.Step}
    {t : JoinTree} (hfollows : Follows g (u :: middle ++ [v]) steps) (hu : g.name u ∈ t.models)
    (hv : g.name v ∈ t.models) (hmiddle : (middle.map g.name).Nodup)
    (hnew : ∀ x ∈ middle, g.name x ∉ t.models) (hjoins : (steps.map (·.edge.join)).Nodup)
    (hunused : ∀ s ∈ steps, s.edge.join ∉ t.edges.map (·.join)) :
    (steps.foldl g.addStep t).edges.length + t.models.length =
      (steps.foldl g.addStep t).models.length + t.edges.length + 1 := by
  -- Induction on the new models: each of them comes with the edge that leads to it, and the last
  -- step, back to a known model, is the edge in excess.
  induction middle generalizing u t steps with
  | nil =>
    obtain _ | ⟨he, hrest⟩ := hfollows
    obtain _ | _ := hrest
    have hsame : addAllNew t.models [g.name u, g.name v] = t.models :=
      addAllNew_eq_self (by simp [hu, hv])
    rw [List.foldl_cons, List.foldl_nil, addStep, if_neg (hunused _ List.mem_cons_self)]
    simp only [hsame, List.length_append, List.length_singleton]
    omega
  | cons x middle ih =>
    obtain _ | @⟨_, _, e, _, rest, he, hrest⟩ := hfollows
    obtain ⟨hx, hnodup⟩ := List.nodup_cons.1 hmiddle
    obtain ⟨hxnew, hnew⟩ := List.forall_mem_cons.1 hnew
    obtain ⟨hfirst, hjoins⟩ := List.nodup_cons.1 hjoins
    obtain ⟨hfirstnew, hunused⟩ := List.forall_mem_cons.1 hunused
    -- The tree with the first new model and its edge is where the rest starts.
    let t' : JoinTree := ⟨t.models ++ [g.name x], t.edges ++ [⟨g.name u, g.name x, e.join⟩]⟩
    have hadd : g.addStep t ⟨u, x, e⟩ = t' := by
      rw [addStep, if_neg hfirstnew, addAllNew_pair hu hxnew]
    have hnew' : ∀ y ∈ middle, g.name y ∉ t'.models := by
      intro y hy
      have hyx : g.name y ≠ g.name x := fun h => hx (h ▸ List.mem_map_of_mem hy)
      simp [t', hnew y hy, hyx]
    have hunused' : ∀ s ∈ rest, s.edge.join ∉ t'.edges.map (·.join) := by
      intro s hs
      have hne : s.edge.join ≠ e.join := fun h => hfirst (List.mem_map.2 ⟨s, hs, h⟩)
      rw [List.map_append, List.mem_append, not_or]
      exact ⟨hunused s hs, by simpa using hne⟩
    have hlength := ih (t := t') hrest (by simp [t']) (by simp [t', hv]) hnodup hnew' hjoins
      hunused'
    have hmodels : t'.models.length = t.models.length + 1 := by simp [t']
    have hedges : t'.edges.length = t.edges.length + 1 := by simp [t']
    rw [List.foldl_cons, hadd]
    omega

/-! ## What the trails of earlier links have added -/

section Earlier

variable {before : List (Link g)} {paths : List (List g.Step)}
  (hpaths : List.Forall₂ g.TrailSteps before paths) {e : Link g} {a b d x : g.Node}

include hpaths

/-- Both ends of a step are on the trail of a link. -/
private theorem exists_onTrail {s : g.Step} (hs : s ∈ paths.flatten) :
    ∃ e ∈ before, g.OnTrail e.source e.target s.source ∧ g.OnTrail e.source e.target s.target := by
  obtain ⟨steps, hsteps, hs⟩ := List.mem_flatten.1 hs
  obtain ⟨e, he, c, hc, hfollows⟩ := exists_mem_of_forall₂ hpaths hsteps
  obtain ⟨hsource, htarget⟩ := hfollows.mem_nodes hs
  exact ⟨e, he, ⟨c, hc, hsource⟩, ⟨c, hc, htarget⟩⟩

/-- Successive nodes on the trail of a link, seen from either end, have a step. -/
private theorem exists_step_of_hasEnds (he : e ∈ before) (hends : e.HasEnds a d)
    {c : Trail g.names.length} (hc : g.trails a d = some c) {us vs : List g.Node} {u v : g.Node}
    (hsplit : a :: c.stops ++ [d] = us ++ u :: v :: vs) {edge : JoinEdge g.names.length}
    (hedge : g.direct? u v = some edge) : ∃ s ∈ paths.flatten, s.edge = edge := by
  obtain ⟨steps, hsteps, c', hc', hfollows⟩ := exists_mem_of_forall₂ hpaths.flip he
  rcases hends with ⟨rfl, rfl⟩ | ⟨rfl, rfl⟩
  · obtain rfl := Option.some.inj (hc.symm.trans hc')
    rw [hsplit] at hfollows
    obtain ⟨s, hs, rfl, rfl⟩ := hfollows.exists_step
    exact ⟨s, List.mem_flatten.2 ⟨steps, hsteps, hs⟩,
      Option.some.inj ((hfollows.direct?_eq hs).symm.trans hedge)⟩
  · obtain rfl := Option.some.inj (hc'.symm.trans ((sound_trails g).symm hc))
    -- The link was walked from its other end, so its trail lists the two nodes the other way
    -- around.
    have hreverse : e.source :: c.reverse.stops ++ [e.target] =
        vs.reverse ++ v :: u :: us.reverse := by
      have hsplit := congrArg List.reverse hsplit
      simpa using hsplit
    rw [hreverse] at hfollows
    obtain ⟨s, hs, rfl, rfl⟩ := hfollows.exists_step
    rw [direct?_comm] at hedge
    exact ⟨s, List.mem_flatten.2 ⟨steps, hsteps, hs⟩,
      Option.some.inj ((hfollows.direct?_eq hs).symm.trans hedge)⟩

/-- Successive stops along earlier links have a step. -/
private theorem exists_step_of_along {c : Trail g.names.length} (hc : g.trails a b = some c)
    {first rest : List g.Node} (hstops : c.stops = first ++ rest)
    (halong : ∀ x ∈ first, g.Along before a x) {us vs : List g.Node} {u v : g.Node}
    (hsplit : a :: first = us ++ u :: v :: vs) {edge : JoinEdge g.names.length}
    (hedge : g.direct? u v = some edge) : ∃ s ∈ paths.flatten, s.edge = edge := by
  rcases List.eq_nil_or_concat first with rfl | ⟨first, x, rfl⟩
  · have hlength := congrArg List.length hsplit
    simp at hlength
    omega
  -- The whole part runs along the link of its last stop.
  obtain ⟨e, he, d, hed, htrail⟩ := halong x (by simp)
  rw [List.concat_eq_append, List.append_assoc, List.singleton_append] at hstops
  obtain ⟨-, p, -, hp, -, rfl, -, -⟩ := (sound_trails g).split hc hstops
  have hax : a ≠ x := fun h => (sound_trails g).not_mem_left hc (by simp [hstops, h])
  obtain ⟨c', more, hc', hmore⟩ := htrail.exists_rest hax hp
  rw [List.concat_eq_append] at hsplit
  have hsplit' : a :: c'.stops ++ [d] = us ++ u :: v :: (vs ++ more) := by
    calc a :: c'.stops ++ [d] = (a :: (p.stops ++ [x])) ++ more := by simp [hmore]
      _ = us ++ u :: v :: (vs ++ more) := by simp [hsplit]
  exact exists_step_of_hasEnds hpaths he hed hc' hsplit' hedge

section Ends

variable {c : Trail g.names.length} (hc : g.trails a b = some c) {first middle last : List g.Node}
  (hstops : c.stops = first ++ (middle ++ last)) (hoverlap : g.Overlap before a b first middle last)
  {steps : List g.Step} {s : g.Step} (hs : s ∈ steps)

include hc hstops hoverlap hs

/-- The steps in front of the middle of a trail are those of earlier trails. -/
private theorem exists_step_of_front (hfollows : Follows g (a :: first) steps) :
    ∃ s' ∈ paths.flatten, s'.edge = s.edge := by
  obtain ⟨us, vs, hsplit⟩ := hfollows.eq_append_of_mem hs
  exact exists_step_of_along hpaths hc hstops hoverlap.fromStart hsplit (hfollows.direct?_eq hs)

/-- The steps behind the middle of a trail are those of earlier trails. -/
private theorem exists_step_of_back (hfollows : Follows g (last ++ [b]) steps) :
    ∃ s' ∈ paths.flatten, s'.edge = s.edge := by
  obtain ⟨us, vs, hsplit⟩ := hfollows.eq_append_of_mem hs
  -- In the other direction these steps are in front.
  have hstops' : c.reverse.stops = last.reverse ++ (first ++ middle).reverse := by simp [hstops]
  have hsplit' : b :: last.reverse = vs.reverse ++ s.target :: s.source :: us.reverse := by
    simpa using congrArg List.reverse hsplit
  have halong : ∀ x ∈ last.reverse, g.Along before b x :=
    fun x hx => hoverlap.fromEnd x (List.mem_reverse.1 hx)
  have hedge : g.direct? s.target s.source = some s.edge := by
    rw [direct?_comm, hfollows.direct?_eq hs]
  exact exists_step_of_along hpaths ((sound_trails g).symm hc) hstops' halong hsplit' hedge

end Ends

variable {requested : List String} {t : JoinTree} (h : Grown g requested paths.flatten t)

include h

/-- The models along the trails of earlier links are there. -/
private theorem name_mem_models (hg : g.Regular) (hx : g.Along before a x) :
    g.name x ∈ t.models := by
  obtain ⟨e, he, d, hed, htrail⟩ := hx
  obtain ⟨steps, hsteps, c', hc', hfollows⟩ := exists_mem_of_forall₂ hpaths.flip he
  obtain ⟨c, hc, hx⟩ := hed.onTrail_iff.2 htrail
  obtain rfl := Option.some.inj (hc.symm.trans hc')
  -- The trail of a link has a step at least, so each of its nodes is an end of one.
  have htouched : ∃ s ∈ steps, x = s.source ∨ x = s.target := by
    cases hstops : c.stops with
    | nil =>
      rw [hstops] at hfollows hx
      exact hfollows.exists_step_of_mem hx
    | cons y stops =>
      rw [hstops] at hfollows hx
      exact hfollows.exists_step_of_mem hx
  obtain ⟨s, hs, hends⟩ := htouched
  obtain ⟨edge, hedge, hadjacent⟩ := h.adjacent hg (fun s hs => direct?_of_mem_flatten hpaths hs)
    (List.mem_flatten.2 ⟨steps, hsteps, hs⟩)
  obtain ⟨horigin, htarget⟩ := h.ends edge hedge
  rcases hadjacent with ⟨hsource, hend⟩ | ⟨hend, hsource⟩ <;> rcases hends with rfl | rfl <;>
    simp_all

end Earlier

/-! ## One more link -/

section Overlap

variable (hg : g.Regular) {before : List (Link g)} {paths : List (List g.Step)}
  (hpaths : List.Forall₂ g.TrailSteps before paths) {requested : List String} {t : JoinTree}
  (h : Grown g requested paths.flatten t) {a b u v x : g.Node} {first middle last : List g.Node}
  (hoverlap : g.Overlap before a b first middle last)
  (hnodup : (a :: first ++ (middle ++ (last ++ [b]))).Nodup)

include hg hpaths h hoverlap hnodup

/-- The models in the middle of the trail are new unless they were requested. -/
private theorem name_mem_requested (hx : x ∈ middle) (hmem : g.name x ∈ t.models) :
    g.name x ∈ requested := by
  rcases h.model _ hmem with hrequested | ⟨edge, hedge, hends⟩
  · exact hrequested
  -- Otherwise it would be on an earlier trail, which meets the front or the back of the new one
  -- only.
  exfalso
  obtain ⟨s, hs, rfl⟩ := h.edge edge hedge
  obtain ⟨e, he, hsource, htarget⟩ := exists_onTrail hpaths hs
  have htrail : g.OnTrail e.source e.target x := by
    rcases hends with hname | hname
    · rwa [hg.name_injective hname]
    · rwa [hg.name_injective hname]
  have hpath : x ∈ a :: first ++ (middle ++ (last ++ [b])) := by simp [hx]
  obtain ⟨-, hrest, hfront⟩ := List.nodup_append.1 hnodup
  obtain ⟨-, -, hback⟩ := List.nodup_append.1 hrest
  rcases hoverlap.meets e he with hmeets | hmeets
  · exact hfront x (hmeets x hpath htrail) x (by simp [hx]) rfl
  · exact hback x hx x (hmeets x hpath htrail) rfl

/-- The joins from the front part of the trail over its middle to the last part are new. -/
private theorem join_not_mem {steps : List g.Step} (hu : u ∈ a :: first) (hv : v ∈ last ++ [b])
    (hfollows : Follows g (u :: middle ++ [v]) steps) {s : g.Step} (hs : s ∈ steps) :
    s.edge.join ∉ t.edges.map (·.join) := by
  intro hused
  obtain ⟨edge, hedge, hjoin⟩ := List.mem_map.1 hused
  obtain ⟨s', hs', rfl⟩ := h.edge edge hedge
  -- An earlier step over the same join would have both ends on one earlier trail.
  obtain ⟨hmem, hconnects⟩ := mem_of_direct? (hfollows.direct?_eq hs)
  obtain ⟨hmem', hconnects'⟩ := mem_of_direct? (direct?_of_mem_flatten hpaths hs')
  rw [hg.joins _ hmem' _ hmem hjoin] at hconnects'
  obtain ⟨e, he, hsource', htarget'⟩ := exists_onTrail hpaths hs'
  have htrail : g.OnTrail e.source e.target s.source ∧ g.OnTrail e.source e.target s.target := by
    rcases hconnects.eq_or hconnects' with ⟨hs, ht⟩ | ⟨hs, ht⟩
    · exact ⟨hs ▸ hsource', ht ▸ htarget'⟩
    · exact ⟨hs ▸ htarget', ht ▸ hsource'⟩
  have hsource : s.source ∈ a :: first ∨ s.source ∈ middle := by
    rcases List.mem_cons.1 (hfollows.source_mem hs) with heq | hmem
    · exact .inl (heq ▸ hu)
    · exact .inr hmem
  have htarget : s.target ∈ middle ++ (last ++ [b]) := by
    rcases List.mem_append.1 (hfollows.target_mem hs) with hmem | heq
    · exact List.mem_append_left _ hmem
    · exact List.mem_append_right _ (List.mem_singleton.1 heq ▸ hv)
  obtain ⟨-, hrest, hfront⟩ := List.nodup_append.1 hnodup
  obtain ⟨-, -, hback⟩ := List.nodup_append.1 hrest
  rcases hoverlap.meets e he with hmeets | hmeets
  · exact hfront _ (hmeets _ (List.mem_append_right _ htarget) htrail.2) _ htarget rfl
  · rcases hsource with hmem | hmem
    · have hlast := hmeets _ (List.mem_append_left _ hmem) htrail.1
      exact hfront _ hmem _ (List.mem_append_right _ hlast) rfl
    · exact hback _ hmem _ (hmeets _ (by simp [hmem]) htrail.1) rfl

end Overlap

section Link

variable (hg : g.Regular) {nodes : List g.Node} (hnodes : nodes.Nodup)
  {before after : List (Link g)} {f : Link g} {paths : List (List g.Step)}
  (hpaths : List.Forall₂ g.TrailSteps before paths) {t : JoinTree}
  (h : Grown g (nodes.map g.name) paths.flatten t)

include hg hnodes hpaths h

/-- The models in the middle of the trail of a chosen link are new. -/
private theorem name_not_mem_models (hchosen : g.chosenLinks nodes = before ++ f :: after)
    {c : Trail g.names.length} (hc : g.trails f.source f.target = some c)
    {first middle last : List g.Node} (hstops : c.stops = first ++ (middle ++ last))
    (hoverlap : g.Overlap before f.source f.target first middle last)
    (hnodup : (f.source :: first ++ (middle ++ (last ++ [f.target]))).Nodup) {x : g.Node}
    (hx : x ∈ middle) : g.name x ∉ t.models := by
  intro hmem
  have hxstops : x ∈ c.stops := by simp [hstops, hx]
  have hrequested := name_mem_requested hg hpaths h hoverlap hnodup hx hmem
  obtain ⟨y, hy, hname⟩ := List.mem_map.1 hrequested
  obtain rfl := hg.name_injective hname
  -- A requested node on the trail would be one of its ends.
  have hbetween := between_of_mem hc (x := y) (by simp [hxstops])
  rcases (choice_of_chosenLinks_eq hnodes hchosen).eq_of_between hnodes hg (.inl ⟨rfl, rfl⟩) hy
    hbetween with rfl | rfl
  · exact (sound_trails g).not_mem_left hc hxstops
  · exact (sound_trails g).not_mem_right hc hxstops

/-- The trail of one more chosen link adds one edge more than models. -/
theorem length_edges_of_trailSteps (hchosen : g.chosenLinks nodes = before ++ f :: after)
    {steps : List g.Step} (hsteps : g.TrailSteps f steps) :
    (steps.foldl g.addStep t).edges.length + t.models.length =
      (steps.foldl g.addStep t).models.length + t.edges.length + 1 := by
  have hends : f.HasEnds f.source f.target := .inl ⟨rfl, rfl⟩
  have hchoice := choice_of_chosenLinks_eq hnodes hchosen
  have hne : f.source ≠ f.target := fun heq => hchoice.apart (by rw [heq])
  obtain ⟨c, hc, hfollows⟩ := hsteps
  obtain ⟨first, middle, last, hstops, hoverlap⟩ := exists_overlap hnodes hchosen hends hg hc
  have hnodup := (sound_trails g).nodup_nodes hne hc
  have hjoins := hfollows.nodup_joins hg hnodup
  have hnodes' : f.source :: c.stops ++ [f.target] =
      f.source :: first ++ (middle ++ (last ++ [f.target])) := by simp [hstops]
  rw [hnodes'] at hfollows hnodup
  obtain ⟨u, hu, v, hv, left, between, right, rfl, hleft, hbetween, hright⟩ :=
    hfollows.exists_parts (by simp) (by simp)
  -- The steps in front and behind are there already.
  have hused : ∀ s ∈ left, s.edge.join ∈ t.edges.map (·.join) := by
    intro s hs
    obtain ⟨s', hs', hedge⟩ := exists_step_of_front hpaths hc hstops hoverlap hs hleft
    exact hedge ▸ h.done s' hs'
  have hused' : ∀ s ∈ right, s.edge.join ∈ (between.foldl g.addStep t).edges.map (·.join) := by
    intro s hs
    obtain ⟨s', hs', hedge⟩ := exists_step_of_back hpaths hc hstops hoverlap hs hright
    exact hedge ▸ (h.foldl_addStep between).done s' (List.mem_append_left _ hs')
  rw [List.foldl_append, List.foldl_append, foldl_addStep_eq_self hused,
    foldl_addStep_eq_self hused']
  -- The steps between them lead over new models from one known model to another.
  have hend {x : g.Node} (hx : x ∈ nodes) : g.name x ∈ t.models :=
    h.first.subset (List.mem_map_of_mem hx)
  obtain ⟨hsource, htarget⟩ := hchoice.mem_of_hasEnds hends
  have hknown : g.name u ∈ t.models := by
    rcases List.mem_cons.1 hu with rfl | hu
    · exact hend hsource
    · exact name_mem_models hpaths h hg (hoverlap.fromStart u hu)
  have hknown' : g.name v ∈ t.models := by
    rcases List.mem_append.1 hv with hv | hv
    · exact name_mem_models hpaths h hg (hoverlap.fromEnd v hv)
    · exact List.mem_singleton.1 hv ▸ hend htarget
  have hmiddle : (middle.map g.name).Nodup := by
    have hsub : middle.Sublist (f.source :: first ++ (middle ++ (last ++ [f.target]))) :=
      (List.sublist_append_left _ _).trans (List.sublist_append_right _ _)
    exact (hnodup.sublist hsub).map hg.name_injective
  have hnew : ∀ x ∈ middle, g.name x ∉ t.models := fun x hx =>
    name_not_mem_models hg hnodes hpaths h hchosen hc hstops hoverlap hnodup hx
  have hjoins' : (between.map (·.edge.join)).Nodup := by
    have hsub : between.Sublist (left ++ (between ++ right)) :=
      (List.sublist_append_left _ _).trans (List.sublist_append_right _ _)
    exact hjoins.sublist (hsub.map _)
  exact length_foldl_addStep hbetween hknown hknown' hmiddle hnew hjoins'
    fun s hs => join_not_mem hg hpaths h hoverlap hnodup hu hv hbetween hs

/-- The trails of the remaining chosen links add one edge more than models each. -/
theorem length_edges_foldl_addStep {rest : List (Link g)} {more : List (List g.Step)}
    (hchosen : g.chosenLinks nodes = before ++ rest) (hmore : List.Forall₂ g.TrailSteps rest more) :
    (more.flatten.foldl g.addStep t).edges.length + t.models.length =
      (more.flatten.foldl g.addStep t).models.length + t.edges.length + rest.length := by
  -- Induction on the remaining links. What holds of a link depends on all links chosen before it,
  -- so these and the tree they have grown move along.
  induction hmore generalizing before paths t with
  | nil =>
    simp only [List.flatten_nil, List.foldl_nil, List.length_nil]
    omega
  | @cons f steps rest more hsteps _ ih =>
    have hfirst := length_edges_of_trailSteps hg hnodes hpaths h hchosen hsteps
    have hpaths' : List.Forall₂ g.TrailSteps (before ++ [f]) (paths ++ [steps]) :=
      List.rel_append hpaths (.cons hsteps .nil)
    have hgrown : Grown g (nodes.map g.name) (paths ++ [steps]).flatten
        (steps.foldl g.addStep t) := by
      simpa using h.foldl_addStep steps
    have hrest := ih hpaths' hgrown (by rw [hchosen, List.append_assoc]; rfl)
    rw [List.flatten_cons, List.foldl_append, List.length_cons]
    omega

end Link

/-! ## Join trees are trees -/

end JoinGraph

/-- A connected set of models with joins between them, one join less than there are models. -/
structure JoinTree.IsTree (t : JoinTree) : Prop where
  models : t.models.Nodup
  joins : (t.edges.map (·.join)).Nodup
  ends : ∀ e ∈ t.edges, e.origin ∈ t.models ∧ e.target ∈ t.models
  linked : ∀ a ∈ t.models, ∀ b ∈ t.models, t.Linked a b
  length : t.models ≠ [] → t.edges.length + 1 = t.models.length

namespace JoinGraph

variable {g : JoinGraph}

/-- Whatever connects the requested models is a tree. -/
theorem isTree_of_joinTree (hg : g.Regular) {requested : List String} {t : JoinTree}
    (h : g.joinTree requested = .ok t) : t.IsTree := by
  obtain ⟨nodes, paths, hnames, hpaths, rfl, hgrown⟩ := exists_grown_of_joinTree h
  have hnodes : nodes.Nodup := List.Nodup.of_map g.name (hnames ▸ nodup_distinct requested)
  have hstart := grown_nil g (nodup_distinct requested)
  refine ⟨hgrown.models, hgrown.joins, hgrown.ends,
    fun a ha b hb => linked_models hg hpaths hgrown hnames ha hb, fun hne => ?_⟩
  rw [← hnames] at hstart hne ⊢
  have hall : g.chosenLinks nodes = [] ++ g.chosenLinks nodes := rfl
  -- Each model that is not requested comes with an edge, and the requested ones are joined by one
  -- link less than they are.
  have hlength := length_edges_foldl_addStep hg hnodes .nil hstart hall hpaths
  have hnonempty : nodes ≠ [] := by
    rintro rfl
    have hnone : g.chosenLinks [] = [] := by simp [chosenLinks, pairs, spanning]
    rw [hnone] at hpaths
    obtain rfl := List.forall₂_nil_left_iff.1 hpaths
    exact hne rfl
  have hchosen := length_chosenLinks hnodes hnonempty
  simp only [List.length_map, List.length_nil] at hlength
  omega

end JoinGraph

end MetricLayer
