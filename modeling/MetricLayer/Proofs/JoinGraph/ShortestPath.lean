import MetricLayer.Proofs.JoinGraph.Basic
import Mathlib.Data.List.FinRange

/-!
# Trails of shortest paths

A route remembers only the last stop before its end. Beside the table of routes we run the same
search on trails, which remember all their stops:

* `TrailTable.relax` — the search step on trails, and `TrailTable.represents_relax`, which says that
  the table of routes follows it;
* `TrailTable.Sound` — the invariant of the search. Its core is `split`: each stop divides a trail
  into the trails of its two parts, so that all trails fit together whatever ties were broken.
-/

namespace MetricLayer

/-- A route with all its stops. -/
structure Trail (n : Nat) where
  /-- The total weight. -/
  distance : Nat
  /-- The nodes between the two ends. -/
  stops : List (Fin n)

namespace Trail

variable {n : Nat}

/-- One trail after another, with a stop between them. -/
def via (a : Trail n) (stop : Fin n) (b : Trail n) : Trail n :=
  ⟨a.distance + b.distance, a.stops ++ stop :: b.stops⟩

/-- The trail in the other direction. -/
def reverse (a : Trail n) : Trail n :=
  ⟨a.distance, a.stops.reverse⟩

/-- A trail over a stop is as long as its two parts. -/
@[simp]
theorem via_distance (a : Trail n) (stop : Fin n) (b : Trail n) :
    (a.via stop b).distance = a.distance + b.distance := rfl

/-- A trail over a stop has the stops of its parts and the stop between them. -/
@[simp]
theorem via_stops (a : Trail n) (stop : Fin n) (b : Trail n) :
    (a.via stop b).stops = a.stops ++ stop :: b.stops := rfl

@[simp]
theorem reverse_distance (a : Trail n) : a.reverse.distance = a.distance := rfl

@[simp]
theorem reverse_stops (a : Trail n) : a.reverse.stops = a.stops.reverse := rfl

/-- A trail over a stop leads back over the stop. -/
theorem reverse_via (a : Trail n) (stop : Fin n) (b : Trail n) :
    (a.via stop b).reverse = b.reverse.via stop a.reverse := by
  simp [via, reverse, Nat.add_comm]

end Trail

/-- The best known trail for each pair of nodes. -/
abbrev TrailTable (n : Nat) : Type := Fin n → Fin n → Option (Trail n)

namespace TrailTable

variable {n : Nat} {t : TrailTable n} {i j k x : Fin n} {a b c : Trail n}

/-! ## The search step -/

/-- The detour over a stop is strictly better than the trail that is known. -/
structure Improves (t : TrailTable n) (stop i j : Fin n) (a b : Trail n) : Prop where
  toStop : t i stop = some a
  fromStop : t stop j = some b
  lt : ∀ c, t i j = some c → a.distance + b.distance < c.distance

/-- Allow one more node as a stop. -/
def relax (t : TrailTable n) (stop : Fin n) : TrailTable n := fun i j =>
  match t i stop, t stop j, t i j with
  | some a, some b, some c =>
    if a.distance + b.distance < c.distance then some (a.via stop b) else some c
  | some a, some b, none => some (a.via stop b)
  | _, _, known => known

/-- Where the way over the stop is better, it is taken. -/
theorem Improves.relax_eq (h : t.Improves k i j a b) : t.relax k i j = some (a.via k b) := by
  obtain ⟨ha, hb, hlt⟩ := h
  cases hc : t i j with
  | none => simp [relax, ha, hb, hc]
  | some c => simp [relax, ha, hb, hc, hlt c hc]

/-- No detour over a stop is better than the trail that is known. -/
def Settled (t : TrailTable n) (stop i j : Fin n) : Prop :=
  ∀ a b, t i stop = some a → t stop j = some b →
    ∃ c, t i j = some c ∧ c.distance ≤ a.distance + b.distance

/-- Where the way over the stop is not better, the trail stays. -/
theorem Settled.relax_eq (h : t.Settled k i j) : t.relax k i j = t i j := by
  cases ha : t i k with
  | none => simp [relax, ha]
  | some a =>
    cases hb : t k j with
    | none => simp [relax, ha, hb]
    | some b =>
      obtain ⟨c, hc, hle⟩ := h a b ha hb
      simp [relax, ha, hb, hc, Nat.not_lt.2 hle]

/-- A detour over a stop is better than what is known, or it is not. -/
theorem improves_or_settled (t : TrailTable n) (k i j : Fin n) :
    (∃ a b, t.Improves k i j a b) ∨ t.Settled k i j := by
  by_cases h : ∃ a b, t.Improves k i j a b
  · exact .inl h
  · refine .inr fun a b ha hb => ?_
    -- Without an improvement there is a known trail, and it is not longer than the detour.
    by_contra hno
    refine h ⟨a, b, ha, hb, fun c hc => ?_⟩
    exact Nat.lt_of_not_le fun hle => hno ⟨c, hc, hle⟩

/-- What one step does: a trail is kept, or it is replaced by a strictly better detour. -/
theorem relax_cases (h : t.relax k i j = some c) :
    (t i j = some c ∧ t.Settled k i j) ∨ ∃ a b, t.Improves k i j a b ∧ c = a.via k b := by
  rcases t.improves_or_settled k i j with ⟨a, b, hab⟩ | hsettled
  · exact .inr ⟨a, b, hab, Option.some.inj (h.symm.trans hab.relax_eq)⟩
  · exact .inl ⟨hsettled.relax_eq.symm.trans h, hsettled⟩

/-- A step never loses a trail and never makes one worse. -/
theorem exists_relax_le (hc : t i j = some c) :
    ∃ c', t.relax k i j = some c' ∧ c'.distance ≤ c.distance := by
  rcases t.improves_or_settled k i j with ⟨a, b, hab⟩ | hsettled
  · exact ⟨_, hab.relax_eq, Nat.le_of_lt (hab.lt c hc)⟩
  · exact ⟨c, hsettled.relax_eq.trans hc, Nat.le_refl _⟩

/-- After a step the trail is no worse than the detour. -/
theorem exists_relax_le_via (ha : t i k = some a) (hb : t k j = some b) :
    ∃ c, t.relax k i j = some c ∧ c.distance ≤ a.distance + b.distance := by
  rcases t.improves_or_settled k i j with ⟨a', b', hab⟩ | hsettled
  · obtain rfl := Option.some.inj (ha.symm.trans hab.toStop)
    obtain rfl := Option.some.inj (hb.symm.trans hab.fromStop)
    exact ⟨_, hab.relax_eq, Nat.le_refl _⟩
  · obtain ⟨c, hc, hle⟩ := hsettled a b ha hb
    exact ⟨c, hsettled.relax_eq.trans hc, hle⟩

/-! ## The invariant -/

/-- What holds of the table after the given nodes have been allowed as stops, where `w` gives the
weight of a direct edge. -/
structure Sound (w : Fin n → Fin n → Option Nat) (allowed : List (Fin n)) (t : TrailTable n) :
    Prop where
  /-- A node is reached from itself at no cost. -/
  self (i : Fin n) : t i i = some ⟨0, []⟩
  /-- A trail without stops is a direct edge. -/
  edge {i j : Fin n} {c : Trail n} : i ≠ j → t i j = some c → c.stops = [] → w i j = some c.distance
  /-- A trail is no worse than a direct edge. -/
  le_edge {i j : Fin n} {d : Nat} : w i j = some d → ∃ c, t i j = some c ∧ c.distance ≤ d
  /-- Each stop is allowed and divides a trail into the trails of its two parts. -/
  split {i j x : Fin n} {c : Trail n} {us vs : List (Fin n)} :
    t i j = some c → c.stops = us ++ x :: vs → x ∈ allowed ∧
      ∃ a b, t i x = some a ∧ t x j = some b ∧ a.stops = us ∧ b.stops = vs ∧
        a.distance + b.distance = c.distance
  /-- A trail is no worse than a detour over an allowed node. -/
  triangle {i j x : Fin n} {a b : Trail n} : x ∈ allowed → t i x = some a → t x j = some b →
    ∃ c, t i j = some c ∧ c.distance ≤ a.distance + b.distance
  /-- A trail leads both ways. -/
  symm {i j : Fin n} {c : Trail n} : t i j = some c → t j i = some c.reverse

namespace Sound

variable {w : Fin n → Fin n → Option Nat} {allowed : List (Fin n)} (h : t.Sound w allowed)

include h

/-- A detour that improves a trail leads over a third node between two different ones. -/
theorem ne_of_improves (himproves : t.Improves k i j a b) : i ≠ k ∧ k ≠ j ∧ i ≠ j := by
  obtain ⟨ha, hb, hlt⟩ := himproves
  refine ⟨?_, ?_, ?_⟩
  · rintro rfl
    obtain rfl := Option.some.inj ((h.self i).symm.trans ha)
    simpa using hlt b hb
  · rintro rfl
    obtain rfl := Option.some.inj ((h.self k).symm.trans hb)
    simpa using hlt a ha
  · rintro rfl
    simpa using hlt _ (h.self i)

/-- The trails to and from the stop itself do not change. -/
theorem relax_left : t.relax k k j = t k j := by
  rcases t.improves_or_settled k k j with ⟨a, b, hab⟩ | hsettled
  · exact absurd rfl (h.ne_of_improves hab).1
  · exact hsettled.relax_eq

/-- The trails to the stop stay as they are. -/
theorem relax_right : t.relax k i k = t i k := by
  rcases t.improves_or_settled k i k with ⟨a, b, hab⟩ | hsettled
  · exact absurd rfl (h.ne_of_improves hab).2.1
  · exact hsettled.relax_eq

/-- After a step, trails are no worse than detours over the nodes that were allowed before. -/
private theorem relax_triangle (hx : x ∈ allowed) (ha : t.relax k i x = some a)
    (hb : t.relax k x j = some b) :
    ∃ c, t.relax k i j = some c ∧ c.distance ≤ a.distance + b.distance := by
  -- Each of the two parts is kept or is a detour over `k`; an old part meets the stop `x` by the
  -- old triangle inequality, and a detour is taken apart at `k`.
  rcases relax_cases ha with ⟨ha, -⟩ | ⟨a₁, a₂, ⟨ha₁, ha₂, -⟩, rfl⟩ <;>
    rcases relax_cases hb with ⟨hb, -⟩ | ⟨b₁, b₂, ⟨hb₁, hb₂, -⟩, rfl⟩
  · obtain ⟨c, hc, hle⟩ := h.triangle hx ha hb
    obtain ⟨c', hc', hle'⟩ := exists_relax_le (k := k) hc
    exact ⟨c', hc', Nat.le_trans hle' hle⟩
  · -- The detour from `x` over `k` starts with a way from `i` to `k`.
    obtain ⟨c, hc, hle⟩ := h.triangle hx ha hb₁
    obtain ⟨c', hc', hle'⟩ := exists_relax_le_via hc hb₂
    refine ⟨c', hc', ?_⟩
    rw [Trail.via_distance]
    omega
  · obtain ⟨c, hc, hle⟩ := h.triangle hx ha₂ hb
    obtain ⟨c', hc', hle'⟩ := exists_relax_le_via ha₁ hc
    refine ⟨c', hc', ?_⟩
    rw [Trail.via_distance]
    omega
  · obtain ⟨c', hc', hle'⟩ := exists_relax_le_via ha₁ hb₂
    refine ⟨c', hc', ?_⟩
    rw [Trail.via_distance, Trail.via_distance]
    omega

/-- The parts of a trail that a step keeps are kept as well: a better part would make a better
whole. -/
private theorem relax_split_of_settled {us vs : List (Fin n)} (hc : t i j = some c)
    (hsettled : t.Settled k i j) (hstops : c.stops = us ++ x :: vs) :
    x ∈ allowed ∧ ∃ a b, t.relax k i x = some a ∧ t.relax k x j = some b ∧ a.stops = us ∧
      b.stops = vs ∧ a.distance + b.distance = c.distance := by
  obtain ⟨hx, a, b, ha, hb, hus, hvs, hsum⟩ := h.split hc hstops
  -- If a detour improved the part up to `x`, then going on from `x` as before would improve the
  -- whole trail, which is settled.
  have hleft : t.Settled k i x := by
    intro p q hp hq
    obtain ⟨d, hd, hdle⟩ := h.triangle hx hq hb
    obtain ⟨c', hc', hc'le⟩ := hsettled p d hp hd
    obtain rfl := Option.some.inj (hc.symm.trans hc')
    exact ⟨a, ha, by omega⟩
  have hright : t.Settled k x j := by
    intro p q hp hq
    obtain ⟨d, hd, hdle⟩ := h.triangle hx ha hp
    obtain ⟨c', hc', hc'le⟩ := hsettled d q hd hq
    obtain rfl := Option.some.inj (hc.symm.trans hc')
    exact ⟨b, hb, by omega⟩
  exact ⟨hx, a, b, hleft.relax_eq.trans ha, hright.relax_eq.trans hb, hus, hvs, hsum⟩

/-- A stop after `k` on a detour over `k`: the detour is the best way to it, and from there the old
trail is kept. -/
private theorem relax_split_after {p q : Trail n} (himproves : t.Improves k i j p q)
    {us vs : List (Fin n)} (hstops : q.stops = us ++ x :: vs) :
    x ∈ allowed ∧ ∃ a b, t.relax k i x = some a ∧ t.relax k x j = some b ∧
      a.stops = p.stops ++ k :: us ∧ b.stops = vs ∧
      a.distance + b.distance = p.distance + q.distance := by
  obtain ⟨hp, hq, hlt⟩ := himproves
  obtain ⟨hx, a, b, ha, hb, hus, hvs, hsum⟩ := h.split hq hstops
  -- The detour is strictly better than any trail to `x`: such a trail, continued to `j`, would be a
  -- trail that the detour improves.
  have hleft : t.Improves k i x p a := by
    refine ⟨hp, ha, fun d hd => ?_⟩
    obtain ⟨c, hc, hle⟩ := h.triangle hx hd hb
    have hc' := hlt c hc
    omega
  have hright : t.Settled k x j := by
    intro r q' _ hq'
    obtain rfl := Option.some.inj (hq.symm.trans hq')
    exact ⟨b, hb, by omega⟩
  refine ⟨hx, _, b, hleft.relax_eq, hright.relax_eq.trans hb, ?_, hvs, ?_⟩
  · rw [Trail.via_stops, hus]
  · rw [Trail.via_distance]
    omega

/-- A stop before `k` on a detour over `k`. -/
private theorem relax_split_before {p q : Trail n} (himproves : t.Improves k i j p q)
    {us vs : List (Fin n)} (hstops : p.stops = us ++ x :: vs) :
    x ∈ allowed ∧ ∃ a b, t.relax k i x = some a ∧ t.relax k x j = some b ∧
      a.stops = us ∧ b.stops = vs ++ k :: q.stops ∧
      a.distance + b.distance = p.distance + q.distance := by
  obtain ⟨hp, hq, hlt⟩ := himproves
  obtain ⟨hx, a, b, ha, hb, hus, hvs, hsum⟩ := h.split hp hstops
  have hleft : t.Settled k i x := by
    intro p' r hp' _
    obtain rfl := Option.some.inj (hp.symm.trans hp')
    exact ⟨a, ha, by omega⟩
  -- The same from the other end: a trail from `x` that is no worse would spoil the improvement.
  have hright : t.Improves k x j b q := by
    refine ⟨hb, hq, fun d hd => ?_⟩
    obtain ⟨c, hc, hle⟩ := h.triangle hx ha hd
    have hc' := hlt c hc
    omega
  refine ⟨hx, a, _, hleft.relax_eq.trans ha, hright.relax_eq, hus, ?_, ?_⟩
  · rw [Trail.via_stops, hvs]
  · rw [Trail.via_distance]
    omega

/-- After a step, trails are still cut at their stops into trails. -/
private theorem relax_split {us vs : List (Fin n)} (hc : t.relax k i j = some c)
    (hstops : c.stops = us ++ x :: vs) :
    x ∈ k :: allowed ∧ ∃ a b, t.relax k i x = some a ∧ t.relax k x j = some b ∧ a.stops = us ∧
      b.stops = vs ∧ a.distance + b.distance = c.distance := by
  rcases relax_cases hc with ⟨hc, hsettled⟩ | ⟨p, q, himproves, rfl⟩
  · obtain ⟨hx, hparts⟩ := h.relax_split_of_settled hc hsettled hstops
    exact ⟨List.mem_cons_of_mem _ hx, hparts⟩
  -- The stop stands before `k`, is `k`, or stands after it.
  have hat : us = p.stops → x = k → vs = q.stops → x ∈ k :: allowed ∧
      ∃ a b, t.relax k i x = some a ∧ t.relax k x j = some b ∧ a.stops = us ∧ b.stops = vs ∧
        a.distance + b.distance = (p.via k q).distance := by
    rintro rfl rfl rfl
    exact ⟨List.mem_cons_self, p, q, h.relax_right.trans himproves.toStop,
      h.relax_left.trans himproves.fromStop, rfl, rfl, rfl⟩
  rw [Trail.via_stops, List.append_eq_append_iff] at hstops
  rcases hstops with ⟨front, hus, htail⟩ | ⟨front, hp, htail⟩
  · cases front with
    | nil =>
      obtain ⟨rfl, rfl⟩ := List.cons.inj htail
      exact hat (by simpa using hus) rfl rfl
    | cons y front =>
      obtain ⟨rfl, hq⟩ := List.cons.inj htail
      obtain ⟨hx, a, b, ha, hb, has, hbs, hsum⟩ := h.relax_split_after himproves hq
      exact ⟨List.mem_cons_of_mem _ hx, a, b, ha, hb, has.trans hus.symm, hbs, hsum⟩
  · cases front with
    | nil =>
      obtain ⟨rfl, rfl⟩ := List.cons.inj htail
      exact hat (by simpa using hp.symm) rfl rfl
    | cons y front =>
      obtain ⟨rfl, hvs⟩ := List.cons.inj htail
      obtain ⟨hx, a, b, ha, hb, has, hbs, hsum⟩ := h.relax_split_before himproves hp
      exact ⟨List.mem_cons_of_mem _ hx, a, b, ha, hb, has, hbs.trans hvs.symm, hsum⟩

/-- After a step, trails still lead back. -/
private theorem relax_symm (hc : t.relax k i j = some c) : t.relax k j i = some c.reverse := by
  have hback {i j : Fin n} {c : Trail n} (hc : t j i = some c) : t i j = some c.reverse := h.symm hc
  rcases relax_cases hc with ⟨hc, hsettled⟩ | ⟨a, b, ⟨ha, hb, hlt⟩, rfl⟩
  -- A detour from `j` back to `i` is the reverse of one from `i` to `j`, so neither improves.
  · have hsettled' : t.Settled k j i := by
      intro a b ha hb
      obtain ⟨c', hc', hle⟩ := hsettled b.reverse a.reverse (hback hb) (hback ha)
      obtain rfl := Option.some.inj (hc.symm.trans hc')
      exact ⟨_, h.symm hc, by simpa [Nat.add_comm] using hle⟩
    exact hsettled'.relax_eq.trans (h.symm hc)
  · have himproves : t.Improves k j i b.reverse a.reverse := by
      refine ⟨h.symm hb, h.symm ha, fun d hd => ?_⟩
      have hd' := hlt _ (hback hd)
      simpa [Nat.add_comm] using hd'
    rw [himproves.relax_eq, Trail.reverse_via]

/-! ### Trails have no repetition -/

/-- A trail does not stop where it starts. -/
theorem not_mem_left (hc : t i j = some c) : i ∉ c.stops := by
  intro hmem
  obtain ⟨us, vs, hstops⟩ := List.append_of_mem hmem
  obtain ⟨-, a, b, -, hb, -, hvs, -⟩ := h.split hc hstops
  obtain rfl := Option.some.inj (hc.symm.trans hb)
  have hlength := congrArg List.length hstops
  simp [hvs] at hlength
  omega

/-- A trail does not stop where it ends. -/
theorem not_mem_right (hc : t i j = some c) : j ∉ c.stops := by
  intro hmem
  exact h.not_mem_left (h.symm hc) (by simpa using hmem)

/-- The stops of a trail differ from each other. -/
theorem nodup_stops (hc : t i j = some c) : c.stops.Nodup := by
  -- Induction on the stops: the trail from the first stop on is a trail of its own, and it does not
  -- come back to where it starts.
  generalize hstops : c.stops = stops
  induction stops generalizing i c with
  | nil => exact List.nodup_nil
  | cons x rest ih =>
    obtain ⟨-, a, b, -, hb, -, hrest, -⟩ := h.split hc (hstops.trans (List.nil_append _).symm)
    refine List.nodup_cons.2 ⟨?_, ih hb hrest⟩
    rw [← hrest]
    exact h.not_mem_left hb

/-- The nodes of a trail between two different ends differ from each other. -/
theorem nodup_nodes (hij : i ≠ j) (hc : t i j = some c) : (i :: c.stops ++ [j]).Nodup := by
  have hleft := h.not_mem_left hc
  have hright := h.not_mem_right hc
  rw [List.cons_append, List.nodup_cons]
  refine ⟨by simp [hleft, hij], List.nodup_append.2 ⟨h.nodup_stops hc, by simp, ?_⟩⟩
  simpa using fun x hx => ne_of_mem_of_not_mem hx hright

/-! ### Preservation -/

/-- The search step keeps the invariant. -/
theorem relax (k : Fin n) : (t.relax k).Sound w (k :: allowed) where
  self i := by
    rcases t.improves_or_settled k i i with ⟨a, b, hab⟩ | hsettled
    · exact absurd rfl (h.ne_of_improves hab).2.2
    · exact hsettled.relax_eq.trans (h.self i)
  edge {i j c} hij hc hstops := by
    rcases relax_cases hc with ⟨hc, -⟩ | ⟨a, b, -, rfl⟩
    · exact h.edge hij hc hstops
    · simp at hstops
  le_edge hd := by
    obtain ⟨c, hc, hle⟩ := h.le_edge hd
    obtain ⟨c', hc', hle'⟩ := exists_relax_le (k := k) hc
    exact ⟨c', hc', Nat.le_trans hle' hle⟩
  split hc hstops := h.relax_split hc hstops
  triangle {i j x a b} hx ha hb := by
    rcases List.mem_cons.1 hx with rfl | hx
    · rw [h.relax_right] at ha
      rw [h.relax_left] at hb
      exact exists_relax_le_via ha hb
    · exact h.relax_triangle hx ha hb
  symm hc := h.relax_symm hc

/-- The whole search keeps the invariant. -/
theorem foldl_relax (stops : List (Fin n)) :
    (stops.foldl TrailTable.relax t).Sound w (stops.reverse ++ allowed) := by
  induction stops generalizing t allowed with
  | nil => exact h
  | cons k rest ih => simpa using ih (h.relax k)

end Sound

/-! ## The table of routes -/

/-- What a route remembers of the trail between two nodes: the node before its end. -/
def routeOf (i j : Fin n) (c : Trail n) : Route n :=
  ⟨c.distance, if i = j then none else (i :: c.stops).getLast?⟩

/-- A table of routes holds what routes remember of the trails. -/
def Represents (t : TrailTable n) (r : RouteTable n) : Prop :=
  ∀ i j, r.route? i j = (t i j).map (routeOf i j)

/-- The table of a function has its routes. -/
@[simp]
theorem route?_ofFn (f : Fin n → Fin n → Option (Route n)) (i j : Fin n) :
    (RouteTable.ofFn f).route? i j = f i j := by
  change (Vector.ofFn fun i => Vector.ofFn fun j => f i j)[i.val][j.val] = f i j
  rw [Vector.getElem_ofFn, Vector.getElem_ofFn]

/-- The table of routes follows the search on trails. -/
theorem represents_relax {w : Fin n → Fin n → Option Nat} {allowed : List (Fin n)}
    (h : t.Sound w allowed) {r : RouteTable n} (hr : t.Represents r) (k : Fin n) :
    (t.relax k).Represents (r.relax k) := by
  intro i j
  rw [RouteTable.relax, route?_ofFn, hr i j, hr i k, hr k j]
  rcases t.improves_or_settled k i j with ⟨a, b, hab⟩ | hsettled
  · obtain ⟨-, hkj, hij⟩ := h.ne_of_improves hab
    -- The node before the end of the detour is the one before the end of its second part.
    have hlast : (i :: (a.stops ++ k :: b.stops)).getLast? = (k :: b.stops).getLast? := by
      rw [← List.cons_append, List.getLast?_append_of_ne_nil _ (by simp)]
    rw [hab.relax_eq, hab.toStop, hab.fromStop]
    cases hc : t i j with
    | none => simp [RouteTable.better, routeOf, hkj, hij, hlast]
    | some c =>
      have hlt := hab.lt c hc
      simp [RouteTable.better, routeOf, hkj, hij, hlast, hlt]
  · rw [hsettled.relax_eq]
    cases ha : t i k with
    | none => simp [RouteTable.better]
    | some a =>
      cases hb : t k j with
      | none => simp [RouteTable.better]
      | some b =>
        obtain ⟨c, hc, hle⟩ := hsettled a b ha hb
        simp [RouteTable.better, routeOf, hc, Nat.not_lt.2 hle]

/-- The search on routes stands for the search on trails. -/
theorem represents_foldl_relax {w : Fin n → Fin n → Option Nat} {allowed : List (Fin n)}
    (h : t.Sound w allowed) {r : RouteTable n} (hr : t.Represents r) (stops : List (Fin n)) :
    (stops.foldl TrailTable.relax t).Represents (stops.foldl RouteTable.relax r) := by
  induction stops generalizing t r allowed with
  | nil => exact hr
  | cons k rest ih => exact ih (h.relax k) (represents_relax h hr k)

end TrailTable

end MetricLayer
