import MetricLayer.Proofs.JoinGraph.Path

/-!
# The search in place

A relaxed table is made of the entries of the table before. The search can as well be run on tables
whose entries are replaced one after the other, so that later entries are found with the help of
earlier ones of the same round: the entries that a round reads are those of paths to and from its
stop, and these it never changes.

- `PathTables` — costs, last stops and cheapest edges in three tables;
- `PathTables.useEdge`, `PathTables.useStop` — what one edge and one detour do to them;
- `JoinGraph.pathTables` — the search on them, edge by edge, then stop by stop and pair by pair;
- `JoinGraph.pathTables_knows` — the tables hold what the shortest routes and the direct edges are.
-/

namespace MetricLayer

variable {n : Nat}

/-! ## Tables -/

/-- A table with one entry replaced. -/
def setEntry {α : Type} (t : Fin n → Fin n → α) (i j : Fin n) (a : α) : Fin n → Fin n → α :=
  fun x y => if x = i ∧ y = j then a else t x y

/-- What is known about the paths between all pairs of nodes. -/
structure PathTables (n : Nat) where
  /-- The cost of a path. -/
  distance : Fin n → Fin n → Option Nat
  /-- The node before the end of a path. -/
  previous : Fin n → Fin n → Option (Fin n)
  /-- The cheapest edge between two nodes. -/
  direct : Fin n → Fin n → Option (JoinEdge n)

/-- Whether a cost is lower than the one that is known, if any is. -/
def undercuts (cost : Nat) : (known : Option Nat) → Bool
  | none => true
  | some d => cost < d

namespace PathTables

/-- Each node is reached from itself at no cost, and nothing else is known. -/
def start (n : Nat) : PathTables n where
  distance := fun i j => if i = j then some 0 else none
  previous := fun _ _ => none
  direct := fun _ _ => none

/-- Use an edge in both directions where it is cheaper than what is known. -/
def useEdge (t : PathTables n) (e : JoinEdge n) : PathTables n :=
  if undercuts e.weight (t.distance e.origin e.target) then
    { distance := setEntry (setEntry t.distance e.origin e.target (some e.weight))
        e.target e.origin (some e.weight)
      previous := setEntry (setEntry t.previous e.origin e.target (some e.origin))
        e.target e.origin (some e.target)
      direct := setEntry (setEntry t.direct e.origin e.target (some e))
        e.target e.origin (some e) }
  else t

/-- Lead the path between a pair of nodes over a stop where that is cheaper. -/
def useStop (stop : Fin n) (t : PathTables n) (pair : Fin n × Fin n) : PathTables n :=
  match t.distance pair.1 stop, t.distance stop pair.2 with
  | some a, some b =>
    if undercuts (a + b) (t.distance pair.1 pair.2) then
      { t with
        distance := setEntry t.distance pair.1 pair.2 (some (a + b))
        previous := setEntry t.previous pair.1 pair.2 (t.previous stop pair.2) }
    else t
  | _, _ => t

/-- Lead the paths between all pairs of nodes over a stop, one after the other. -/
def round (t : PathTables n) (stop : Fin n) : PathTables n :=
  (List.finRange n ×ˢ List.finRange n).foldl (useStop stop) t

end PathTables

/-- The tables after all edges have been used and then all stops in turn. -/
def JoinGraph.pathTables (g : JoinGraph) : PathTables g.names.length :=
  (List.finRange g.names.length).foldl PathTables.round
    (g.edges.foldl PathTables.useEdge (PathTables.start g.names.length))

namespace PathTables

variable {t : PathTables n} {best : Fin n → Fin n → Option (JoinEdge n)}
  {routes : Fin n → Fin n → Option (Route n)} {stop : Fin n}

/-! ## Edges -/

/-- The tables know the given edges and no longer paths. -/
structure KnowsEdges (t : PathTables n) (best : Fin n → Fin n → Option (JoinEdge n)) : Prop where
  distance (i j : Fin n) : t.distance i j = if i = j then some 0 else (best i j).map (·.weight)
  previous (i j : Fin n) : t.previous i j = if i = j then none else (best i j).map fun _ => i
  direct (i j : Fin n) : t.direct i j = if i = j then none else best i j
  comm (i j : Fin n) : best i j = best j i

/-- The cheapest edges where one more edge may be used. -/
private def withEdge (best : Fin n → Fin n → Option (JoinEdge n)) (e : JoinEdge n) :
    Fin n → Fin n → Option (JoinEdge n) :=
  fun i j => if e.Connects i j then JoinGraph.cheaper (best i j) e else best i j

/-- The edge that is kept is the known one, unless the new one undercuts it. -/
private theorem cheaper_eq_ite (known : Option (JoinEdge n)) (e : JoinEdge n) :
    JoinGraph.cheaper known e =
      if undercuts e.weight (known.map (·.weight)) then some e else known := by
  cases known with
  | none => rfl
  | some b => simp [JoinGraph.cheaper, undercuts]

/-- One more edge keeps the table of direct edges right. -/
theorem KnowsEdges.useEdge (h : t.KnowsEdges best) (e : JoinEdge n) :
    (t.useEdge e).KnowsEdges (withEdge best e) := by
  have hcomm (i j : Fin n) : withEdge best e i j = withEdge best e j i := by
    unfold withEdge
    rw [h.comm i j]
    exact if_congr ⟨JoinEdge.Connects.symm, JoinEdge.Connects.symm⟩ rfl rfl
  by_cases hends : e.origin = e.target
  · -- Staying where one is costs nothing already.
    have hsame : t.useEdge e = t := by
      simp [PathTables.useEdge, h.distance, hends, undercuts]
    have hbest {i j : Fin n} (hij : i ≠ j) : withEdge best e i j = best i j := by
      refine if_neg fun hconnects => hij ?_
      rcases hconnects with ⟨rfl, rfl⟩ | ⟨rfl, rfl⟩
      · exact hends
      · exact hends.symm
    rw [hsame]
    refine ⟨fun i j => ?_, fun i j => ?_, fun i j => ?_, hcomm⟩
    · rw [h.distance]
      split_ifs with hij <;> simp [hbest, hij]
    · rw [h.previous]
      split_ifs with hij <;> simp [hbest, hij]
    · rw [h.direct]
      split_ifs with hij <;> simp [hbest, hij]
  · -- The pair of the two ends is known in one direction as it is in the other.
    have hknown : undercuts e.weight (t.distance e.origin e.target) =
        undercuts e.weight ((best e.origin e.target).map (·.weight)) := by
      rw [h.distance, if_neg hends]
    have hback := h.comm e.origin e.target
    have hentry (i j : Fin n) : withEdge best e i j =
        if undercuts e.weight ((best e.origin e.target).map (·.weight)) ∧ e.Connects i j then some e
        else best i j := by
      unfold withEdge
      grind [cheaper_eq_ite, JoinEdge.Connects]
    unfold PathTables.useEdge
    rw [hknown]
    split_ifs with hlower
    · refine ⟨fun i j => ?_, fun i j => ?_, fun i j => ?_, hcomm⟩
      · grind [setEntry, JoinEdge.Connects, h.distance]
      · grind [setEntry, JoinEdge.Connects, h.previous]
      · grind [setEntry, JoinEdge.Connects, h.direct]
    · have hsame : withEdge best e = best := by
        funext i j
        simp [hentry, hlower]
      rwa [hsame]

/-- Any number of edges keeps the table of direct edges right. -/
theorem KnowsEdges.foldl_useEdge (h : t.KnowsEdges best) (edges : List (JoinEdge n)) :
    (edges.foldl PathTables.useEdge t).KnowsEdges (edges.foldl withEdge best) := by
  induction edges generalizing t best with
  | nil => exact h
  | cons e rest ih => exact ih (h.useEdge e)

/-- Whether an edge connects two nodes does not depend on the other edges. -/
private theorem foldl_withEdge (edges : List (JoinEdge n)) (i j : Fin n) :
    edges.foldl withEdge best i j =
      (edges.filter fun e => e.Connects i j).foldl JoinGraph.cheaper (best i j) := by
  induction edges generalizing best with
  | nil => rfl
  | cons e rest ih =>
    rw [List.foldl_cons, ih, List.filter_cons, withEdge]
    split_ifs with hconnects <;> simp_all

/-! ## Stops -/

/-- The tables hold the given routes. -/
structure Knows (t : PathTables n) (routes : Fin n → Fin n → Option (Route n)) : Prop where
  distance (i j : Fin n) : t.distance i j = (routes i j).map (·.distance)
  previous (i j : Fin n) : t.previous i j = (routes i j).bind (·.previous)

/-- The routes where one of them may be led over a stop. -/
private def relaxEntry (stop : Fin n) (routes : Fin n → Fin n → Option (Route n))
    (pair : Fin n × Fin n) : Fin n → Fin n → Option (Route n) :=
  setEntry routes pair.1 pair.2
    (RouteTable.better (routes pair.1 pair.2) (routes pair.1 stop) (routes stop pair.2))

private theorem setEntry_self {α : Type} (t : Fin n → Fin n → α) (i j : Fin n) :
    setEntry t i j (t i j) = t := by
  funext x y
  grind [setEntry]

/-- A route that is stored is known. -/
private theorem Knows.setEntry (h : t.Knows routes) (i j : Fin n) (r : Route n) :
    { t with
      distance := setEntry t.distance i j (some r.distance)
      previous := setEntry t.previous i j r.previous : PathTables n }.Knows
        (setEntry routes i j (some r)) := by
  constructor <;> intro x y <;> dsimp only [MetricLayer.setEntry]
  · split_ifs
    · rfl
    · exact h.distance x y
  · split_ifs
    · rfl
    · exact h.previous x y

/-- Leading a path over a stop replaces one route by the better one. -/
private theorem Knows.useStop (h : t.Knows routes) (stop : Fin n) (pair : Fin n × Fin n) :
    (t.useStop stop pair).Knows (relaxEntry stop routes pair) := by
  obtain ⟨i, j⟩ := pair
  unfold PathTables.useStop relaxEntry
  simp only [h.distance]
  -- A detour exists where both halves do; it is taken where it is shorter or the only way.
  cases ha : routes i stop with
  | none => simpa [RouteTable.better, setEntry_self] using h
  | some a =>
    cases hb : routes stop j with
    | none => simpa [RouteTable.better, setEntry_self] using h
    | some b =>
      have hprevious : t.previous stop j = b.previous := by
        rw [h.previous, hb]
        rfl
      have hdetour := h.setEntry i j ⟨a.distance + b.distance, b.previous⟩
      rw [← hprevious] at hdetour
      cases hc : routes i j with
      | none => simpa [undercuts, RouteTable.better, hprevious] using hdetour
      | some c =>
        by_cases hlt : a.distance + b.distance < c.distance
        · simpa [undercuts, RouteTable.better, hlt, hprevious] using hdetour
        · have hsame := setEntry_self routes i j
          rw [hc] at hsame
          simpa [undercuts, RouteTable.better, hlt, hsame] using h

/-! ## Rounds -/

section Better

variable {c a b r : Option (Route n)}

/-- A detour that only stays at the stop is no better. -/
private theorem better_stay_right {r : Route n} (hzero : r.distance = 0) :
    RouteTable.better c c (some r) = c := by
  cases c <;> simp [RouteTable.better, hzero]

private theorem better_stay_left {r : Route n} (hzero : r.distance = 0) :
    RouteTable.better c (some r) c = c := by
  cases c <;> simp [RouteTable.better, hzero]

/-- The same detour is no better a second time. -/
private theorem better_better :
    RouteTable.better (RouteTable.better c a b) a b = RouteTable.better c a b := by
  unfold RouteTable.better
  grind

end Better

/-- A round over a stop replaces each route that it comes by with the better one, where the routes
to and from the stop are those before the round: it never changes them. -/
private theorem foldl_relaxEntry {r : Route n} (hstop : routes stop stop = some r)
    (hzero : r.distance = 0) (pairs : List (Fin n × Fin n)) (i j : Fin n) :
    pairs.foldl (relaxEntry stop) routes i j =
      if (i, j) ∈ pairs then RouteTable.better (routes i j) (routes i stop) (routes stop j)
      else routes i j := by
  -- Induction on the pairs, for all routes at once: after the first pair the round goes on with
  -- other routes, but with the same ones to and from the stop.
  induction pairs generalizing routes with
  | nil => rfl
  | cons pair rest ih =>
    obtain ⟨x, y⟩ := pair
    have hleft (i : Fin n) : relaxEntry stop routes (x, y) i stop = routes i stop := by
      unfold relaxEntry setEntry
      split_ifs with hentry
      · obtain ⟨rfl, rfl⟩ := hentry
        rw [hstop, better_stay_right hzero]
      · rfl
    have hright (j : Fin n) : relaxEntry stop routes (x, y) stop j = routes stop j := by
      unfold relaxEntry setEntry
      split_ifs with hentry
      · obtain ⟨rfl, rfl⟩ := hentry
        rw [hstop, better_stay_left hzero]
      · rfl
    rw [List.foldl_cons, ih ((hleft stop).trans hstop), hleft, hright]
    by_cases hentry : i = x ∧ j = y
    · obtain ⟨rfl, rfl⟩ := hentry
      -- Where the pair comes once more, the detour is tried a second time.
      have hthis : relaxEntry stop routes (i, j) i j =
          RouteTable.better (routes i j) (routes i stop) (routes stop j) := by
        simp [relaxEntry, setEntry]
      rw [hthis, better_better]
      simp
    · have hother : relaxEntry stop routes (x, y) i j = routes i j := by
        simp [relaxEntry, setEntry, hentry]
      rw [hother]
      simp [hentry]

/-- Leading all paths over a stop replaces the routes by the better ones. -/
private theorem Knows.foldl_useStop (h : t.Knows routes) (stop : Fin n)
    (pairs : List (Fin n × Fin n)) :
    (pairs.foldl (PathTables.useStop stop) t).Knows (pairs.foldl (relaxEntry stop) routes) := by
  induction pairs generalizing t routes with
  | nil => exact h
  | cons pair rest ih => exact ih (h.useStop stop pair)

/-- The round over a stop relaxes the table of routes. -/
private theorem Knows.round {table : RouteTable n} (h : t.Knows table.route?) (stop : Fin n)
    {r : Route n} (hstop : table.route? stop stop = some r) (hzero : r.distance = 0) :
    (t.round stop).Knows (table.relax stop).route? := by
  have hround := h.foldl_useStop stop (List.finRange n ×ˢ List.finRange n)
  have hroutes : (List.finRange n ×ˢ List.finRange n).foldl (relaxEntry stop) table.route? =
      (table.relax stop).route? := by
    funext i j
    rw [foldl_relaxEntry hstop hzero, if_pos (by simp), RouteTable.relax, TrailTable.route?_ofFn]
  rwa [hroutes] at hround

/-- The rounds over several stops relax the table of routes stop by stop. -/
private theorem Knows.foldl_round {w : Fin n → Fin n → Option Nat} {allowed : List (Fin n)}
    {trails : TrailTable n} (hsound : trails.Sound w allowed) {table : RouteTable n}
    (htable : trails.Represents table) (h : t.Knows table.route?) (stops : List (Fin n)) :
    (stops.foldl PathTables.round t).Knows (stops.foldl RouteTable.relax table).route? := by
  induction stops generalizing trails table t allowed with
  | nil => exact h
  | cons stop rest ih =>
    have hstop := htable stop stop
    rw [hsound.self] at hstop
    exact ih (hsound.relax stop) (TrailTable.represents_relax hsound htable stop)
      (h.round stop hstop rfl)

/-- A detour uses no edge of its own. -/
private theorem direct_useStop (stop : Fin n) (t : PathTables n) (pair : Fin n × Fin n) :
    (t.useStop stop pair).direct = t.direct := by
  unfold useStop
  grind

private theorem direct_round (t : PathTables n) (stop : Fin n) :
    (t.round stop).direct = t.direct := by
  unfold PathTables.round
  induction List.finRange n ×ˢ List.finRange n generalizing t with
  | nil => rfl
  | cons pair rest ih => rw [List.foldl_cons, ih, direct_useStop]

/-- The search leaves direct edges as they are. -/
private theorem direct_foldl_round (t : PathTables n) (stops : List (Fin n)) :
    (stops.foldl PathTables.round t).direct = t.direct := by
  induction stops generalizing t with
  | nil => rfl
  | cons stop rest ih => rw [List.foldl_cons, ih, direct_round]

end PathTables

namespace JoinGraph

open PathTables

/-- The edges that the tables know before the first stop. -/
private theorem knowsEdges_start (g : JoinGraph) :
    (g.edges.foldl useEdge (start g.names.length)).KnowsEdges g.direct? := by
  have hstart : (start g.names.length).KnowsEdges fun _ _ => none :=
    ⟨fun i j => rfl, fun i j => by simp [start], fun i j => by simp [start], fun i j => rfl⟩
  have hedges := hstart.foldl_useEdge g.edges
  have hbest : g.edges.foldl withEdge (fun _ _ => none) = g.direct? := by
    funext i j
    exact foldl_withEdge g.edges i j
  rwa [hbest] at hedges

/-- The tables of the search in place hold the shortest routes, and the cheapest edges between
different nodes. -/
theorem pathTables_knows (g : JoinGraph) : g.pathTables.Knows g.shortestRoutes.route? ∧
    ∀ i j, g.pathTables.direct i j = if i = j then none else g.direct? i j := by
  have hedges := knowsEdges_start g
  have hstart : (g.edges.foldl useEdge (start g.names.length)).Knows g.directRoutes.route? := by
    constructor <;> intro i j <;> rw [directRoutes, TrailTable.route?_ofFn]
    · rw [hedges.distance]
      split_ifs <;> simp [Function.comp_def]
    · rw [hedges.previous]
      split_ifs
      · rfl
      · cases g.direct? i j <;> rfl
  refine ⟨hstart.foldl_round (sound_directTrails g) represents_directTrails _, fun i j => ?_⟩
  rw [pathTables, direct_foldl_round, hedges.direct]

end JoinGraph

end MetricLayer
