import MetricLayer.Proofs.JoinGraph.Spanning

/-!
# How the trails of chosen links overlap

The trail of a chosen link overlaps those of the links chosen before it in a simple way: from each
of its two ends a part of it may lead along earlier trails, and what lies between the two parts
meets no earlier trail (`JoinGraph.exists_overlap`). This rests on two facts: trails that meet have
an end in common (`JoinGraph.Choice.share_end`), and trails from one end that meet run together up
to there (`JoinGraph.OnTrail.exists_rest`).
-/

namespace MetricLayer

/-- A list whose entries with one property come first and those with another come last. -/
private theorem exists_parts {α : Type} {p q : α → Prop} {l : List α}
    (hp : ∀ us x vs, l = us ++ x :: vs → p x → ∀ u ∈ us, p u)
    (hq : ∀ us x vs, l = us ++ x :: vs → q x → ∀ v ∈ vs, q v) :
    ∃ first middle last, l = first ++ (middle ++ last) ∧ (∀ x ∈ first, p x) ∧
      (∀ x ∈ middle, ¬p x ∧ ¬q x) ∧ ∀ x ∈ last, q x := by
  induction l with
  | nil => exact ⟨[], [], [], rfl, nofun, nofun, nofun⟩
  | cons x rest ih =>
    obtain ⟨first, middle, last, rfl, hfirst, hmiddle, hlast⟩ := ih
      (fun us y vs h hy u hu => hp (x :: us) y vs (by rw [h]; rfl) hy u (List.mem_cons_of_mem _ hu))
      (fun us y vs h hy => hq (x :: us) y vs (by rw [h]; rfl) hy)
    by_cases hpx : p x
    · exact ⟨x :: first, middle, last, rfl, List.forall_mem_cons.2 ⟨hpx, hfirst⟩, hmiddle, hlast⟩
    -- Without the first property at the front, no later entry has it.
    obtain rfl : first = [] := by
      cases first with
      | nil => rfl
      | cons y first =>
        exact absurd (hp [x] y _ rfl (hfirst y List.mem_cons_self) x List.mem_cons_self) hpx
    by_cases hqx : q x
    · refine ⟨[], [], x :: (middle ++ last), rfl, nofun, nofun, ?_⟩
      exact List.forall_mem_cons.2 ⟨hqx, hq [] x _ rfl hqx⟩
    · exact ⟨[], x :: middle, last, rfl, nofun, List.forall_mem_cons.2 ⟨⟨hpx, hqx⟩, hmiddle⟩, hlast⟩

namespace JoinGraph

variable {g : JoinGraph} {a b d i j x : g.Node}

/-! ## Nodes on a trail -/

/-- A node on the trail between two others, or one of them. -/
def OnTrail (g : JoinGraph) (i j x : g.Node) : Prop :=
  ∃ c, g.trails i j = some c ∧ x ∈ i :: c.stops ++ [j]

namespace OnTrail

/-- What is on a trail is on the way back. -/
theorem symm (h : g.OnTrail i j x) : g.OnTrail j i x := by
  obtain ⟨c, hc, hx⟩ := h
  refine ⟨_, (sound_trails g).symm hc, ?_⟩
  simp only [Trail.reverse_stops, List.cons_append, List.mem_cons, List.mem_append,
    List.mem_reverse, List.not_mem_nil, or_false] at hx ⊢
  tauto

/-- What is on a trail lies between its ends. -/
theorem between (h : g.OnTrail i j x) : g.Between i x j := by
  obtain ⟨c, hc, hx⟩ := h
  exact between_of_mem hc hx

/-- A trail runs along the trail to a node on it. -/
theorem exists_rest (h : g.OnTrail i j x) (hix : i ≠ x) {p : Trail g.names.length}
    (hp : g.trails i x = some p) :
    ∃ c rest, g.trails i j = some c ∧ c.stops ++ [j] = p.stops ++ x :: rest := by
  obtain ⟨c, hc, hx⟩ := h
  refine ⟨c, ?_⟩
  rcases List.mem_append.1 hx with hx | hx
  · have hmem := (List.mem_cons.1 hx).resolve_left (Ne.symm hix)
    obtain ⟨us, vs, hstops⟩ := List.append_of_mem hmem
    obtain ⟨-, p', b, hp', -, hus, -, -⟩ := (sound_trails g).split hc hstops
    obtain rfl := Option.some.inj (hp.symm.trans hp')
    exact ⟨vs ++ [j], hc, by rw [hstops, hus, List.append_assoc]; rfl⟩
  · obtain rfl := List.mem_singleton.1 hx
    obtain rfl := Option.some.inj (hp.symm.trans hc)
    exact ⟨[], hc, rfl⟩

end OnTrail

/-- The trail of a link, from either end. -/
theorem Link.HasEnds.onTrail_iff {e : Link g} (hends : e.HasEnds a d) :
    g.OnTrail e.source e.target x ↔ g.OnTrail a d x := by
  rcases hends with ⟨rfl, rfl⟩ | ⟨rfl, rfl⟩
  · exact Iff.rfl
  · exact ⟨OnTrail.symm, OnTrail.symm⟩

/-! ## Two chosen links -/

variable {nodes : List g.Node} (hnodes : nodes.Nodup) {before after : List (Link g)}
  {e e' f : Link g}

include hnodes in
/-- Two chosen links whose trails meet have an end in common. -/
private theorem share_end_of_mem (he : e ∈ g.chosenLinks nodes) (he' : e' ∈ g.chosenLinks nodes)
    (hends : e.HasEnds a i) (hends' : e'.HasEnds b j) (hx : g.OnTrail a i x)
    (hx' : g.OnTrail b j x) : a = b ∨ a = j ∨ i = b ∨ i = j := by
  have hmeet {e e' : Link g} {a i b j : g.Node} {first second third : List (Link g)}
      (hsplit : g.chosenLinks nodes = first ++ e :: (second ++ e' :: third))
      (hends : e.HasEnds a i) (hends' : e'.HasEnds b j) (hx : g.OnTrail a i x)
      (hx' : g.OnTrail b j x) : a = b ∨ a = j ∨ i = b ∨ i = j := by
    have hsplit' : g.chosenLinks nodes = (first ++ e :: second) ++ e' :: third := by
      rw [hsplit, List.append_assoc, List.cons_append]
    exact (choice_of_chosenLinks_eq hnodes hsplit).share_end hnodes
      (choice_of_chosenLinks_eq hnodes hsplit') hends hends' hx.between hx'.between
  -- Whichever of the two links was chosen first, the later one is a choice after it.
  obtain ⟨first, rest, hsplit⟩ := List.append_of_mem he
  rw [hsplit, List.mem_append, List.mem_cons] at he'
  rcases he' with hfirst | rfl | hrest
  · obtain ⟨left, right, rfl⟩ := List.append_of_mem hfirst
    rw [List.append_assoc, List.cons_append] at hsplit
    have hor := hmeet hsplit hends' hends hx' hx
    tauto
  · rcases hends with ⟨rfl, rfl⟩ | ⟨rfl, rfl⟩ <;> rcases hends' with ⟨rfl, rfl⟩ | ⟨rfl, rfl⟩ <;>
      simp
  · obtain ⟨left, right, rfl⟩ := List.append_of_mem hrest
    exact hmeet hsplit hends hends' hx hx'

/-! ## Overlaps -/

/-- A node on the trail of a link that has the given end. -/
def Along (g : JoinGraph) (links : List (Link g)) (a x : g.Node) : Prop :=
  ∃ e ∈ links, ∃ d, e.HasEnds a d ∧ g.OnTrail a d x

/-- How a trail overlaps those of the given links: its stops in front are along links from its
start, its last stops are along links from its end, and each link meets one of the two parts
only. -/
structure Overlap (g : JoinGraph) (links : List (Link g)) (a b : g.Node)
    (first middle last : List g.Node) : Prop where
  fromStart : ∀ x ∈ first, g.Along links a x
  fromEnd : ∀ x ∈ last, g.Along links b x
  meets : ∀ e ∈ links,
    (∀ x ∈ a :: first ++ (middle ++ (last ++ [b])), g.OnTrail e.source e.target x →
      x ∈ a :: first) ∨
    ∀ x ∈ a :: first ++ (middle ++ (last ++ [b])), g.OnTrail e.source e.target x → x ∈ last ++ [b]

/-- The ends of an earlier link are in one component. -/
theorem component_eq_of_hasEnds (he : e ∈ before) (hends : e.HasEnds a d) :
    component before a = component before d := by
  rcases hends with ⟨rfl, rfl⟩ | ⟨rfl, rfl⟩
  · exact component_ends he
  · exact (component_ends he).symm

section Chosen

variable (hchosen : g.chosenLinks nodes = before ++ f :: after) (hends : f.HasEnds a b)

include hnodes hchosen hends

/-- No earlier link from one end leads along the other end. -/
private theorem not_along_end (hg : g.Regular) : ¬g.Along before a b := by
  rintro ⟨e, he, d, hed, htrail⟩
  have hf := choice_of_chosenLinks_eq hnodes hchosen
  obtain ⟨left, right, rfl⟩ := List.append_of_mem he
  rw [List.append_assoc, List.cons_append] at hchosen
  have hchoice := choice_of_chosenLinks_eq hnodes hchosen
  have hb := (hf.mem_of_hasEnds hends).2
  rcases hchoice.eq_of_between hnodes hg hed hb htrail.between with rfl | rfl
  · exact hf.component_ne_of_hasEnds hends rfl
  · exact hf.component_ne_of_hasEnds hends (component_eq_of_hasEnds he hed)

/-- No node is along earlier links from both ends: these links would have connected the ends. -/
private theorem not_along_both (hx : g.Along before a x) : ¬g.Along before b x := by
  rintro ⟨e', he', d', hed', htrail'⟩
  obtain ⟨e, he, d, hed, htrail⟩ := hx
  have hf := choice_of_chosenLinks_eq hnodes hchosen
  have hmem {l : Link g} (hl : l ∈ before) : l ∈ g.chosenLinks nodes := by
    rw [hchosen]
    exact List.mem_append_left _ hl
  have had := component_eq_of_hasEnds he hed
  have hbd := component_eq_of_hasEnds he' hed'
  -- The two earlier links meet, so they have an end in common, and with it the ends `a` and `b`
  -- would be in one component before the new link.
  refine hf.component_ne_of_hasEnds hends ?_
  rcases share_end_of_mem hnodes (hmem he) (hmem he') hed hed' htrail htrail' with
    rfl | rfl | rfl | rfl
  · rfl
  · exact hbd.symm
  · exact had
  · exact had.trans hbd.symm

/-- An earlier link whose trail meets this one has one of its ends. -/
private theorem hasEnds_of_onTrail (he : e ∈ before) (hx : g.OnTrail e.source e.target x)
    (hx' : g.OnTrail a b x) :
    (∃ d, e.HasEnds a d ∧ g.OnTrail a d x) ∨ ∃ d, e.HasEnds b d ∧ g.OnTrail b d x := by
  have hemem : e ∈ g.chosenLinks nodes := by
    rw [hchosen]
    exact List.mem_append_left _ he
  have hfmem : f ∈ g.chosenLinks nodes := by
    rw [hchosen]
    simp
  rcases share_end_of_mem hnodes hemem hfmem (.inl ⟨rfl, rfl⟩) hends hx hx' with h | h | h | h
  · exact .inl ⟨e.target, .inl ⟨h, rfl⟩, h ▸ hx⟩
  · exact .inr ⟨e.target, .inl ⟨h, rfl⟩, h ▸ hx⟩
  · exact .inl ⟨e.source, .inr ⟨rfl, h⟩, h ▸ hx.symm⟩
  · exact .inr ⟨e.source, .inr ⟨rfl, h⟩, h ▸ hx.symm⟩

omit hnodes hchosen hends in
/-- With a stop, all stops before it are along the same link. -/
private theorem along_of_stops_eq {c : Trail g.names.length} (hc : g.trails a b = some c)
    {us vs : List g.Node} (hstops : c.stops = us ++ x :: vs) (hx : g.Along before a x) :
    ∀ u ∈ us, g.Along before a u := by
  intro u hu
  obtain ⟨e, he, d, hed, htrail⟩ := hx
  -- Up to `x` both trails are the trail from `a` to `x`, so what comes before is shared.
  obtain ⟨-, p, -, hp, -, rfl, -, -⟩ := (sound_trails g).split hc hstops
  have hax : a ≠ x := fun h => (sound_trails g).not_mem_left hc (by simp [hstops, h])
  obtain ⟨c', rest, hc', hrest⟩ := htrail.exists_rest hax hp
  refine ⟨e, he, d, hed, c', hc', ?_⟩
  rw [List.cons_append, hrest]
  simp [hu]

/-- The trail of a chosen link overlaps those of the links chosen before it at its two ends. -/
theorem exists_overlap (hg : g.Regular) {c : Trail g.names.length} (hc : g.trails a b = some c) :
    ∃ first middle last, c.stops = first ++ (middle ++ last) ∧
      g.Overlap before a b first middle last := by
  have hclosed : ∀ us x vs, c.stops = us ++ x :: vs → g.Along before b x →
      ∀ v ∈ vs, g.Along before b v := by
    intro us x vs hstops hx v hv
    have hreverse : c.reverse.stops = vs.reverse ++ x :: us.reverse := by simp [hstops]
    exact along_of_stops_eq ((sound_trails g).symm hc) hreverse hx v (by simpa using hv)
  -- Being along a link from the start goes down to earlier stops, being along one from the end goes
  -- up to later stops; what has neither property is in the middle.
  obtain ⟨first, middle, last, hstops, hfirst, hmiddle, hlast⟩ :=
    exists_parts (fun us x vs h hx => along_of_stops_eq hc h hx) hclosed
  refine ⟨first, middle, last, hstops, hfirst, hlast, fun e he => ?_⟩
  have hboth {x : g.Node} := not_along_both hnodes hchosen hends (x := x)
  have hend := not_along_end hnodes hchosen hends hg
  have hend' := not_along_end hnodes hchosen (Or.symm hends) hg
  have hcases {x : g.Node} (hx : x ∈ a :: first ++ (middle ++ (last ++ [b]))) :
      x = a ∨ x ∈ first ∨ x ∈ middle ∨ x ∈ last ∨ x = b := by
    simpa [or_assoc] using hx
  by_cases hea : ∃ d, e.HasEnds a d
  · -- The link has the start as an end, so its nodes are along it from there.
    obtain ⟨d, hed⟩ := hea
    refine .inl fun x hx htrail => ?_
    have halong : g.Along before a x := ⟨e, he, d, hed, hed.onTrail_iff.1 htrail⟩
    rcases hcases hx with rfl | hx | hx | hx | rfl
    · exact List.mem_cons_self
    · exact List.mem_cons_of_mem _ hx
    · exact absurd halong (hmiddle x hx).1
    · exact absurd (hlast x hx) (hboth halong)
    · exact absurd halong hend
  · refine .inr fun x hx htrail => ?_
    have hx' : g.OnTrail a b x := ⟨c, hc, by simpa [hstops] using hx⟩
    rcases hasEnds_of_onTrail hnodes hchosen hends he htrail hx' with ⟨d, hed, -⟩ |
      ⟨d, hed, htrail'⟩
    · exact absurd ⟨d, hed⟩ hea
    have halong : g.Along before b x := ⟨e, he, d, hed, htrail'⟩
    rcases hcases hx with rfl | hx | hx | hx | rfl
    · exact absurd halong hend'
    · exact absurd halong (hboth (hfirst x hx))
    · exact absurd halong (hmiddle x hx).2
    · exact List.mem_append_left _ hx
    · exact List.mem_append_right _ (List.mem_singleton_self _)

end Chosen

end JoinGraph

end MetricLayer
