/-!
# Code point ranges

A character class given as a table of inclusive code point ranges.
-/

namespace MetricLayer.Text

/-- Whether a character lies in one of the given inclusive code point ranges. -/
def inRanges (ranges : List (Nat × Nat)) (c : Char) : Bool :=
  ranges.any fun (lo, hi) => lo ≤ c.toNat && c.toNat ≤ hi

end MetricLayer.Text
