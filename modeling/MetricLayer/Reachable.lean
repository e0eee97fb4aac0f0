import MetricLayer.Distinct

/-!
# Reachability

What is reached from given points by following successors. Each round follows only the points that
the round before it found, so that no point is followed twice.
-/

namespace MetricLayer

/-- The points found so far and all that are reached from the latest of them, in at most `rounds`
rounds. -/
def reachedFrom {α : Type} [DecidableEq α] (successors : α → List α) :
    (rounds : Nat) → (found latest : List α) → List α
  | 0, found, _ => found
  | rounds + 1, found, latest =>
    let next := (distinct (latest.flatMap successors)).filter (· ∉ found)
    if next.isEmpty then found else reachedFrom successors rounds (found ++ next) next

end MetricLayer
