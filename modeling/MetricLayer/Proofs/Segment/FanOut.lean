import MetricLayer.Proofs.Repository.JoinTree
import MetricLayer.Proofs.Segment.Expand

/-!
# Fan-out along the joins of a segment

Metrics are grouped by the models that they read across a join that multiplies rows. Whether the
way to a model multiplies rows is decided on the join tree of two models alone, while a segment
reaches that model over the tree of all the models it requires.

- `LeadsTo` — a route of joins from one model to another;
- `Repository.Valid.exists_route` — the join tree of two models is a single route between them;
- `JoinTree.IsTree.mem_orient_of_leadsTo` — a tree seen from its anchor follows every route over its
  edges;
- `CompileScope.expand_multiplies_iff_fannedOut` — where a segment keeps the way between its anchor
  and a model, the joins that lead there multiply rows exactly where the grouping assumed it.

A segment may take another way through a third model, and then the two can differ
(`CompileScope.expand_multiplies_not_fannedOut`).
-/

namespace MetricLayer

/-! ## Routes -/

/-- A route of joins from the anchor to a model: each join starts where the one before it ended. -/
inductive LeadsTo (anchor : String) : List OrientedJoin → String → Prop
  | here : LeadsTo anchor [] anchor
  | step {path : List OrientedJoin} {j : OrientedJoin} :
      LeadsTo anchor path j.parent → LeadsTo anchor (path ++ [j]) j.child

namespace LeadsTo

variable {anchor m : String} {path path' joins : List OrientedJoin}

/-- A route may be extended in front. -/
theorem cons {j : OrientedJoin} (h : LeadsTo j.child path m) : LeadsTo j.parent (j :: path) m := by
  induction h with
  | here =>
    show LeadsTo j.parent ([] ++ [j]) j.child
    exact .step .here
  | step _ ih => exact .step ih

/-- Where each model is reached by one join, only one route leads to it. -/
theorem unique (hnodup : (anchor :: joins.map (·.child)).Nodup) (h : LeadsTo anchor path m)
    (hpath : ∀ j ∈ path, j ∈ joins) (h' : LeadsTo anchor path' m)
    (hpath' : ∀ j ∈ path', j ∈ joins) : path = path' := by
  obtain ⟨hanchor, hchildren⟩ := List.nodup_cons.1 hnodup
  -- No join leads back to the anchor.
  have hne : ∀ j ∈ joins, j.child ≠ anchor := by
    intro j hj heq
    exact hanchor (heq ▸ List.mem_map_of_mem hj)
  -- Induction on the first route from its end; the last joins of both lead to the same model.
  induction h generalizing path' with
  | here =>
    generalize hend : anchor = last at h'
    cases h' with
    | here => rfl
    | @step front j _ => exact absurd hend.symm (hne j (hpath' j (by simp)))
  | @step front j hfront ih =>
    generalize hend : j.child = last at h'
    cases h' with
    | here => exact absurd hend (hne j (hpath j (by simp)))
    | @step front' j' hfront' =>
      have hlast : j = j' := List.inj_on_of_nodup_map hchildren (hpath j (by simp))
        (hpath' j' (by simp)) hend
      subst hlast
      rw [ih (fun k hk => hpath k (List.mem_append_left _ hk)) hfront'
        fun k hk => hpath' k (List.mem_append_left _ hk)]

end LeadsTo

/-! ## The route between two models -/

namespace JoinGraph

variable {g : JoinGraph}

/-- The join of a step, in the direction of the step. -/
private def Step.oriented (s : g.Step) : OrientedJoin :=
  ⟨g.name s.source, g.name s.target, s.edge.join⟩

private theorem leadsTo_of_follows {i k : g.Node} {nodes : List g.Node} {steps : List g.Step}
    (h : Follows g (i :: nodes) steps) (hlast : (i :: nodes).getLast? = some k) :
    LeadsTo (g.name i) (steps.map Step.oriented) (g.name k) := by
  generalize hlist : i :: nodes = list at h hlast
  induction h generalizing i nodes with
  | single j =>
    obtain ⟨rfl, -⟩ := List.cons.inj hlist
    obtain rfl : i = k := by simpa using hlast
    exact .here
  | @cons a b e rest steps _ _ ih =>
    obtain ⟨rfl, -⟩ := List.cons.inj hlist
    have hrest := ih rfl (by simpa using hlast)
    exact LeadsTo.cons (j := Step.oriented ⟨i, b, e⟩) hrest

/-- Two models need a single link, whose trail leads from the one to the other. -/
private theorem exists_follows_of_pair {a b : String} (hab : a ≠ b) {t : JoinTree}
    (h : g.joinTree [a, b] = .ok t) : ∃ (u v : g.Node) (stops : List g.Node) (steps : List g.Step),
      g.name u = a ∧ g.name v = b ∧ (u :: stops ++ [v]).Nodup ∧
      Follows g (u :: stops ++ [v]) steps ∧ Grown g [a, b] steps t := by
  obtain ⟨nodes, paths, hnames, hpaths, -, hgrown⟩ := exists_grown_of_joinTree h
  have hpair : distinct [a, b] = [a, b] := by
    simp [distinct, addAllNew, addAllNewBy, addNewBy, Ne.symm hab]
  rw [hpair] at hnames hgrown
  obtain ⟨u, v, rfl⟩ : ∃ u v, nodes = [u, v] := by
    refine List.length_eq_two.1 ?_
    simpa using congrArg List.length hnames
  obtain ⟨rfl, rfl⟩ : g.name u = a ∧ g.name v = b := by simpa using hnames
  have huv : u ≠ v := fun heq => hab (congrArg g.name heq)
  -- One link less than two nodes, and it has to connect the only pair.
  obtain ⟨l, hl⟩ : ∃ l, g.chosenLinks [u, v] = [l] := by
    have hlength := @length_chosenLinks g [u, v] (by simp [huv]) (by simp)
    exact List.length_eq_one_iff.1 (by simpa using hlength)
  have hends : (l.source, l.target) ∈ pairs [u, v] :=
    mem_pairs_of_mem_chosenLinks (by simp [hl])
  obtain ⟨hsource, htarget⟩ : l.source = u ∧ l.target = v := by simpa [pairs] using hends
  rw [hl] at hpaths
  obtain _ | ⟨⟨c, hc, hfollows⟩, hnil⟩ := hpaths
  obtain rfl := List.forall₂_nil_left_iff.1 hnil
  rw [hsource, htarget] at hc hfollows
  refine ⟨u, v, c.stops, _, rfl, rfl, (sound_trails _).nodup_nodes huv hc, hfollows, ?_⟩
  simpa using hgrown

end JoinGraph

/-- Edges of two join trees over the same declared join connect the same models. -/
theorem Repository.orients_of_join_eq {r : Repository} {requested requested' : List String}
    {t t' : JoinTree} (h : r.graph.joinTree requested = .ok t)
    (h' : r.graph.joinTree requested' = .ok t') {e e' : JoinTreeEdge} (he : e ∈ t.edges)
    (he' : e' ∈ t'.edges) (hjoin : e'.join = e.join) {j : OrientedJoin} (hj : j.Orients e) :
    j.Orients e' := by
  obtain ⟨declared, hdeclared, hends⟩ := declared_of_joinTree h e he
  obtain ⟨declared', hdeclared', hends'⟩ := declared_of_joinTree h' e' he'
  rw [hjoin, hdeclared] at hdeclared'
  obtain rfl := Option.some.inj hdeclared'
  refine ⟨hj.1.trans hjoin.symm, ?_⟩
  grind [OrientedJoin.Orients]

/-- The join tree of two models is a single route from the one to the other. -/
theorem Repository.Valid.exists_route {r : Repository} (hr : r.Valid) {a b : String} (hab : a ≠ b)
    {t : JoinTree} (h : r.graph.joinTree [a, b] = .ok t) : ∃ path, LeadsTo a path b ∧
      (path.map (·.join)).Nodup ∧ (∀ j ∈ path, ∃ e ∈ t.edges, j.Orients e) ∧
      ∀ e ∈ t.edges, ∃ j ∈ path, j.join = e.join := by
  obtain ⟨u, v, stops, steps, rfl, rfl, hnodup, hfollows, hgrown⟩ :=
    JoinGraph.exists_follows_of_pair hab h
  refine ⟨steps.map JoinGraph.Step.oriented, ?_, ?_, ?_, ?_⟩
  · have hlast : (u :: stops ++ [v]).getLast? = some v := List.getLast?_concat
    exact JoinGraph.leadsTo_of_follows hfollows hlast
  · have hjoins := hfollows.nodup_joins hr.regular hnodup
    rw [List.map_map]
    exact hjoins
  · intro j hj
    obtain ⟨s, hs, rfl⟩ := List.mem_map.1 hj
    obtain ⟨e, he, hjoin⟩ := List.mem_map.1 (hgrown.done s hs)
    obtain ⟨s', hs', rfl⟩ := hgrown.edge e he
    -- No join is used twice along the trail, so the edge is that of the step itself.
    have hsame : s' = s := List.inj_on_of_nodup_map
      (hfollows.nodup_joins hr.regular hnodup) hs' hs hjoin
    subst hsame
    exact ⟨_, he, rfl, .inl ⟨rfl, rfl⟩⟩
  · intro e he
    obtain ⟨s, hs, rfl⟩ := hgrown.edge e he
    exact ⟨s.oriented, List.mem_map_of_mem hs, rfl⟩

/-! ## Routes in a tree -/

namespace JoinTree.IsTree

variable {t : JoinTree} (h : t.IsTree) {anchor : String} (hanchor : anchor ∈ t.models)

include h hanchor

/-- Different joins of a tree lead to different models. -/
theorem nodup_children : (anchor :: (t.orient anchor).map (·.child)).Nodup :=
  (h.perm_models hanchor).nodup_iff.2 h.models

/-- No join of a tree is used twice. -/
theorem nodup_orient : ((t.orient anchor).map (·.join)).Nodup := by
  obtain ⟨edges, hperm, hall⟩ := h.crossedBy_orient hanchor
  rw [map_join_eq_of_orients hall]
  exact (hperm.map _).nodup_iff.2 h.joins

/-- Seen from its anchor, a tree follows every route over its edges that uses no join twice. -/
theorem mem_orient_of_leadsTo {path : List OrientedJoin} {m : String}
    (hpath : LeadsTo anchor path m) (hedges : ∀ j ∈ path, ∃ e ∈ t.edges, j.Orients e)
    (hnodup : (path.map (·.join)).Nodup) : ∀ j ∈ path, j ∈ t.orient anchor := by
  obtain ⟨edges, hperm, hall⟩ := h.crossedBy_orient hanchor
  have hchildren := h.nodup_children hanchor
  obtain ⟨hnot, hinjective⟩ := List.nodup_cons.1 hchildren
  -- Induction on the route from its end. The tree crosses the edge of the last join; were it in the
  -- other direction, the tree would come back to where the join before has led.
  induction hpath with
  | here => intro j hj; cases hj
  | @step front j hfront ih =>
    rw [List.map_append, List.nodup_append] at hnodup
    obtain ⟨hfrontNodup, -, hapart⟩ := hnodup
    have hbefore : ∀ k ∈ front, k ∈ t.orient anchor :=
      ih (fun k hk => hedges k (List.mem_append_left _ hk)) hfrontNodup
    intro k hk
    rcases List.mem_append.1 hk with hk | hk
    · exact hbefore k hk
    obtain rfl := List.mem_singleton.1 hk
    obtain ⟨e, he, horients⟩ := hedges k (List.mem_append_right _ hk)
    obtain ⟨k', hk', horients'⟩ := exists_mem_of_forall₂ hall (hperm.mem_iff.2 he)
    by_cases hsame : k'.child = k.child
    · have hparent : k'.parent = k.parent := by
        grind [OrientedJoin.Orients]
      have heq : k' = k := by
        obtain ⟨parent, child, join⟩ := k
        obtain ⟨parent', child', join'⟩ := k'
        simp only [OrientedJoin.mk.injEq]
        exact ⟨hparent, hsame, horients'.1.trans horients.1.symm⟩
      exact heq ▸ hk'
    · have hback : k'.child = k.parent := by
        grind [OrientedJoin.Orients]
      exfalso
      generalize hend : k.parent = last at hfront
      cases hfront with
      | here => exact hnot (List.mem_map.2 ⟨k', hk', hback.trans hend⟩)
      | @step front' k'' _ =>
        have hlast : k' = k'' := List.inj_on_of_nodup_map hinjective hk' (hbefore k'' (by simp))
          (hback.trans hend)
        subst hlast
        exact hapart k'.join (by simp) k.join (by simp) (horients'.1.trans horients.1.symm)

end JoinTree.IsTree

/-! ## Multiplied rows -/

namespace Repository

variable {r : Repository}

/-- A join multiplies rows when it is crossed away from the anchor. -/
def Multiplies (r : Repository) (j : OrientedJoin) : Prop :=
  ∃ declared, r.join? j.join = some declared ∧ (declared.cardinalityFrom j.parent).fansOut

/-- Joins fan out exactly when one of them multiplies rows. -/
theorem anyFansOut_iff {joins : List OrientedJoin} {b : Bool} (h : r.anyFansOut joins = .ok b) :
    b = true ↔ ∃ j ∈ joins, r.Multiplies j := by
  induction joins with
  | nil =>
    obtain rfl := Except.ok.inj h
    simp
  | cons j rest ih =>
    obtain ⟨declared, hdeclared, h⟩ := exists_ok_of_bind h
    have hjoin := join?_of_declared hdeclared
    -- The first join that multiplies rows decides; all others leave it to the rest.
    by_cases hfans : (declared.cardinalityFrom j.parent).fansOut
    · simp only [hfans, if_true] at h
      obtain rfl := Except.ok.inj h
      simp only [true_iff]
      exact ⟨j, List.mem_cons_self, declared, hjoin, hfans⟩
    · simp only [hfans] at h
      have hnot : ¬r.Multiplies j := by
        rintro ⟨declared', hjoin', hfans'⟩
        obtain rfl := Option.some.inj (hjoin.symm.trans hjoin')
        exact hfans hfans'
      rw [ih h, List.exists_mem_cons_iff]
      simp [hnot]

/-- The way between two models multiplies rows exactly where a join of their route does. -/
theorem Valid.fansOut_iff (hr : r.Valid) {a b : String} {t : JoinTree}
    (h : r.graph.joinTree [a, b] = .ok t) {path : List OrientedJoin} (hpath : LeadsTo a path b)
    (hnodup : (path.map (·.join)).Nodup) (hedges : ∀ j ∈ path, ∃ e ∈ t.edges, j.Orients e)
    (hall : ∀ e ∈ t.edges, ∃ j ∈ path, j.join = e.join) {found : Bool}
    (hfans : r.fansOut a b = .ok found) : found = true ↔ ∃ j ∈ path, r.Multiplies j := by
  rw [fansOut, h] at hfans
  have htree := JoinGraph.isTree_of_joinTree hr.regular h
  have hanchor : a ∈ t.models := JoinGraph.mem_models_of_joinTree h (by simp)
  have hforward := htree.mem_orient_of_leadsTo hanchor hpath hedges hnodup
  -- The tree is the route: what it crosses is crossed by the route, in the same direction.
  have hbackward : ∀ j ∈ t.orient a, j ∈ path := by
    intro j hj
    obtain ⟨-, e, he, horients⟩ := JoinTree.of_mem_orientFrom hj
    obtain ⟨k, hk, hjoin⟩ := hall e he
    have heq : k = j := List.inj_on_of_nodup_map (htree.nodup_orient hanchor) (hforward k hk) hj
      (hjoin.trans horients.1.symm)
    exact heq ▸ hk
  rw [anyFansOut_iff hfans]
  constructor
  · rintro ⟨j, hj, hmultiplies⟩
    exact ⟨j, hbackward j hj, hmultiplies⟩
  · rintro ⟨j, hj, hmultiplies⟩
    exact ⟨j, hforward j hj, hmultiplies⟩

end Repository

namespace CompileScope

variable {scope : CompileScope}

/-- A metric's fanned out models are those that it reads across a join that multiplies rows. -/
theorem mem_fannedOut_iff {m : Member} {fanned read : List String}
    (h : scope.fannedOut m = .ok fanned) (hread : scope.modelsRead m = .ok read) {b : String}
    (hb : b ∈ read) (hne : b ≠ m.model.name) :
    ∃ found, scope.repository.fansOut m.model.name b = .ok found ∧ (b ∈ fanned ↔ found = true) := by
  obtain ⟨read', hread', h⟩ := exists_ok_of_bind h
  obtain rfl := Except.ok.inj (hread'.symm.trans hread)
  obtain ⟨kept, hkept, h⟩ := exists_ok_of_bind h
  obtain rfl := Except.ok.inj h
  obtain ⟨found, hfound, hmem⟩ := mem_filterM_iff hkept (a := b) (by simp [hb, hne])
  exact ⟨found, hfound, by rw [List.mem_mergeSort, hmem]⟩

/-- A segment keeps the way between its anchor and a model: it has all the joins of the tree of
these two models. -/
def KeepsWay (scope : CompileScope) (s : Segment) (b : String) : Prop :=
  ∀ t, scope.repository.graph.joinTree [s.anchor, b] = .ok t →
    ∀ e ∈ t.edges, e.join ∈ s.tree.edges.map (·.join)

/-- The joins of a segment that lead from its anchor to a model. -/
def Reaches (s : Segment) (path : List OrientedJoin) (b : String) : Prop :=
  LeadsTo s.anchor path b ∧ ∀ j ∈ path, j ∈ s.joins.map (·.toOrientedJoin)

/-- Where a segment keeps the way between its anchor and a model that a metric reads, exactly one
route of its joins leads there, and a join on it multiplies rows exactly where the metric was
grouped as fanning out to that model. -/
theorem expand_multiplies_iff_fannedOut {models : List Model} {joins : List Join}
    (hbuild : Repository.build models joins = .ok scope.repository) {query : Query} {e : Expansion}
    (hexpand : scope.expand query = .ok e) {s : Segment} (hs : s ∈ e.segments) {m : Member}
    (hm : m ∈ s.metrics) {read : List String} (hread : scope.modelsRead m = .ok read) {b : String}
    (hb : b ∈ read) (hne : b ≠ s.anchor) (hkeeps : scope.KeepsWay s b) :
    ∃ fanned path, scope.fannedOut m = .ok fanned ∧ Reaches s path b ∧
      (∀ path', Reaches s path' b → path' = path) ∧
      ((∃ j ∈ path, scope.repository.Multiplies j) ↔ b ∈ fanned) := by
  have hr := Repository.valid_of_build hbuild
  obtain ⟨label, group, hgroup, hsegment⟩ := (isExpansion_of_expand hexpand).exists_group hs
  obtain ⟨howner, hfanned⟩ := hgroup m (hsegment.metrics ▸ hm)
  rw [← hsegment.anchor] at howner
  obtain ⟨found, hfound, hmem⟩ := mem_fannedOut_iff hfanned hread hb (howner ▸ hne)
  rw [howner] at hfound
  obtain ⟨t, ht, -⟩ := exists_ok_of_bind hfound
  obtain ⟨path, hpath, hnodup, hedges, hall⟩ := hr.exists_route hne.symm ht
  have htree := hsegment.isTree hr
  have hanchor := hsegment.mem_models hsegment.anchor_mem_required
  -- The route between the two models goes over edges of the segment's tree as well.
  have hedges' : ∀ j ∈ path, ∃ e ∈ s.tree.edges, j.Orients e := by
    intro j hj
    obtain ⟨e, he, horients⟩ := hedges j hj
    obtain ⟨e', he', hjoin⟩ := List.mem_map.1 (hkeeps t ht e he)
    exact ⟨e', he', Repository.orients_of_join_eq ht hsegment.tree he he' hjoin horients⟩
  have hreaches : Reaches s path b := by
    refine ⟨hpath, ?_⟩
    rw [hsegment.joins]
    exact htree.mem_orient_of_leadsTo hanchor hpath hedges' hnodup
  refine ⟨group.fanned, path, hfanned, hreaches, ?_, ?_⟩
  · rintro path' ⟨hpath', hjoins'⟩
    rw [hsegment.joins] at hjoins'
    exact LeadsTo.unique (htree.nodup_children hanchor) hpath' hjoins' hpath
      (htree.mem_orient_of_leadsTo hanchor hpath hedges' hnodup)
  · rw [hmem, hr.fansOut_iff ht hpath hnodup hedges hall hfound]

/-- A metric that counts what a part of a template stands for. -/
private def counting (name : String) (part : TemplatePart) : Metric :=
  ⟨name, none, fun _ => [.sql "count(distinct ", part, .sql ")"]⟩

private def ordersModel : Model where
  name := "orders"
  source := .table "orders"
  dimensions := [{ name := "id", primaryKey := true }]
  metrics := [counting "count" (.column "id"), counting "shops" (.dimension "shop.name"),
    counting "carriers" (.dimension "carrier.name")]

private def namedModel (name : String) (metrics : List Metric) : Model where
  name := name
  source := .table name
  dimensions := [{ name := "id", primaryKey := true }, { name := "name" }]
  metrics := metrics

private def joinOnKeys (origin target : String) (cardinality : Cardinality) : Join where
  origin := origin
  target := target
  cardinality := cardinality
  condition scope := [scope.originDimension "id", .sql " = ", scope.targetDimension "id"]

/-- Orders of a shop that a carrier delivers, where each carrier works for one shop. -/
private def delivery : CompileScope where
  repository := {
    models := [ordersModel, namedModel "shop" [counting "orders" (.dimension "orders.id")],
      namedModel "carrier" []]
    joins := [joinOnKeys "orders" "shop" .manyToOne, joinOnKeys "carrier" "orders" .oneToMany,
      joinOnKeys "carrier" "shop" .manyToOne] }
  dialect := .ansi
  context := .null
  now := ⟨⟨2024, 1, 1⟩, .midnight⟩

/-- Counted from the shop, orders multiply its rows, and the segment reaches them by that join. -/
theorem expand_multiplies_iff_fannedOut_orders : ∃ e s m path,
    delivery.expand { metrics := ["shop.orders"] } = .ok e ∧ s ∈ e.segments ∧ m ∈ s.metrics ∧
      delivery.fannedOut m = .ok ["orders"] ∧ Reaches s path "orders" ∧
      ∃ j ∈ path, delivery.repository.Multiplies j := by
  have hbuild : Repository.build delivery.repository.models delivery.repository.joins =
      .ok delivery.repository := rfl
  have hrun : (delivery.expand { metrics := ["shop.orders"] }).toOption.map (fun e =>
      e.segments.map fun s => (s.anchor, s.tree.edges.map (·.join),
        s.metrics.map fun m => decide (delivery.modelsRead m = .ok ["shop", "orders"] ∧
          delivery.fannedOut m = .ok ["orders"]))) = some [("shop", [0], [true])] := by
    decide +kernel
  have hpair : delivery.repository.graph.joinTree ["shop", "orders"] =
      .ok ⟨["shop", "orders"], [⟨"shop", "orders", 0⟩]⟩ := by decide +kernel
  obtain ⟨e, he, hsegments⟩ := exists_ok_of_toOption_map hrun
  obtain ⟨s, _, hs, hsegment, -⟩ := List.map_eq_cons_iff.1 hsegments
  obtain ⟨hanchor, hrest⟩ := Prod.mk.inj hsegment
  obtain ⟨hedges, hmetrics⟩ := Prod.mk.inj hrest
  obtain ⟨m, _, hm, hmetric, -⟩ := List.map_eq_cons_iff.1 hmetrics
  obtain ⟨hread, hfanned⟩ := of_decide_eq_true hmetric
  have hkeeps : delivery.KeepsWay s "orders" := by
    intro t ht edge hedge
    rw [hanchor] at ht
    obtain rfl := Except.ok.inj (hpair.symm.trans ht)
    obtain rfl := List.mem_singleton.1 hedge
    simp [hedges]
  have hs : s ∈ e.segments := by simp [hs]
  have hm : m ∈ s.metrics := by simp [hm]
  obtain ⟨fanned, path, hfanned', hreaches, -, hiff⟩ := expand_multiplies_iff_fannedOut hbuild he hs
    hm hread (by simp) (by simp [hanchor]) hkeeps
  obtain rfl := Except.ok.inj (hfanned.symm.trans hfanned')
  exact ⟨e, s, m, path, he, hs, hm, hfanned, hreaches, hiff.2 (by simp)⟩

/-- Asked for together, the metrics of orders share a segment, since each alone reads no model across
a join that multiplies rows. The segment reaches carriers through their shop, and on that way each
order meets all carriers of its shop. -/
theorem expand_multiplies_not_fannedOut : ∃ e s m read path,
    Repository.build delivery.repository.models delivery.repository.joins =
        .ok delivery.repository ∧
      delivery.expand { metrics := ["orders.count", "orders.shops", "orders.carriers"] } = .ok e ∧
      s ∈ e.segments ∧ m ∈ s.metrics ∧ delivery.modelsRead m = .ok read ∧ "carrier" ∈ read ∧
      "carrier" ≠ s.anchor ∧ delivery.fannedOut m = .ok [] ∧ Reaches s path "carrier" ∧
      ∃ j ∈ path, delivery.repository.Multiplies j := by
  -- Each metric alone: its model, the models that it reads, and no fan.
  obtain ⟨m₁, m₂, m₃, hmetrics, ⟨howner₁, howner₂, howner₃⟩, ⟨hread₁, hread₂, hread₃⟩,
      hfanned₁, hfanned₂, hfanned₃⟩ : ∃ m₁ m₂ m₃ : Member,
      delivery.requested .metric ["orders.count", "orders.shops", "orders.carriers"] =
        .ok [m₁, m₂, m₃] ∧
      (m₁.model.name = "orders" ∧ m₂.model.name = "orders" ∧ m₃.model.name = "orders") ∧
      (delivery.modelsRead m₁ = .ok ["orders"] ∧ delivery.modelsRead m₂ = .ok ["orders", "shop"] ∧
        delivery.modelsRead m₃ = .ok ["orders", "carrier"]) ∧
      delivery.fannedOut m₁ = .ok [] ∧ delivery.fannedOut m₂ = .ok [] ∧
      delivery.fannedOut m₃ = .ok [] :=
    ⟨_, _, _, rfl, ⟨rfl, rfl, rfl⟩, by decide +kernel, by decide +kernel, by decide +kernel,
      by decide +kernel⟩
  have hbind {α β : Type} (a : α) (f : α → Result β) : (Except.ok a >>= f) = f a := rfl
  have hgroups : delivery.groups [] [m₁, m₂, m₃] = .ok [⟨"orders", [], [m₁, m₂, m₃]⟩] := by
    simp only [groups, List.mapM_cons, List.mapM_nil, hfanned₁, hfanned₂, hfanned₃]
    simp [addToGroup, howner₁, howner₂, howner₃, hbind, pure, Except.pure]
  -- All of them together: the shop is nearer to both orders and carriers.
  have hread : delivery.allModelsRead [m₁, m₂, m₃] =
      .ok ["orders", "orders", "shop", "orders", "carrier"] := by
    simp only [allModelsRead, List.mapM_cons, List.mapM_nil, hread₁, hread₂, hread₃]
    rfl
  have htree : delivery.repository.graph.joinTree
      (distinct ["orders", "orders", "orders", "shop", "orders", "carrier"]) =
      .ok ⟨["orders", "shop", "carrier"], [⟨"orders", "shop", 0⟩, ⟨"shop", "carrier", 2⟩]⟩ := by
    simp only [JoinGraph.joinTree, JoinGraph.mergeSort_links_eq_insertionSort]
    decide +kernel
  obtain ⟨s, hsegment, hanchor, hall, hjoins⟩ : ∃ s : Segment,
      delivery.segment "s0" ⟨"orders", [], [m₁, m₂, m₃]⟩ [] [] = .ok s ∧ s.anchor = "orders" ∧
      s.metrics = [m₁, m₂, m₃] ∧
      s.joins = [⟨⟨"orders", "shop", 0⟩, .left⟩, ⟨⟨"shop", "carrier", 2⟩, .left⟩] := by
    unfold segment
    simp only [List.zipIdx_nil, List.filter_nil, List.flatMap_nil, List.append_nil]
    rw [hread, hbind, htree, hbind]
    exact ⟨_, rfl, rfl, rfl, rfl⟩
  have hexpand : delivery.expand
      { metrics := ["orders.count", "orders.shops", "orders.carriers"] } =
        .ok ⟨[], [m₁, m₂, m₃], [], [], [s]⟩ := by
    change (do
      let metrics ← delivery.requested .metric ["orders.count", "orders.shops", "orders.carriers"]
      _) = _
    rw [hmetrics, hbind]
    change (do let groups ← delivery.groups [] [m₁, m₂, m₃]; _) = _
    rw [hgroups, hbind]
    change (do let segments ← (do
      let s ← delivery.segment "s0" ⟨"orders", [], [m₁, m₂, m₃]⟩ [] []; _); _) = _
    rw [hsegment]
    rfl
  refine ⟨_, s, m₃, _, [⟨"orders", "shop", 0⟩, ⟨"shop", "carrier", 2⟩], rfl, hexpand, by simp,
    by simp [hall], hread₃, by simp, by simp [hanchor], hfanned₃, ⟨?_, by simp [hjoins]⟩,
    ⟨"shop", "carrier", 2⟩, by simp, _, rfl, rfl⟩
  rw [hanchor]
  exact LeadsTo.cons (j := ⟨"orders", "shop", 0⟩)
    (LeadsTo.cons (j := ⟨"shop", "carrier", 2⟩) .here)

end CompileScope

end MetricLayer
