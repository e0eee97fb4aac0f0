/-!
# Lists without repetition

Entries are collected in the order in which they first occur. Two entries count as the same where
they have the same key.
-/

namespace MetricLayer

variable {α β : Type} [DecidableEq β]

/-- Append an entry unless one with the same key is already there. -/
def addNewBy (key : α → β) (found : List α) (entry : α) : List α :=
  if key entry ∈ found.map key then found else found ++ [entry]

/-- Append entries one after the other, each unless one with the same key is already there. -/
def addAllNewBy (key : α → β) (found entries : List α) : List α :=
  entries.foldl (addNewBy key) found

/-- Append entries one after the other, each unless it is already there. -/
def addAllNew (found entries : List β) : List β :=
  addAllNewBy id found entries

/-- The entries of a list at their first occurrence. -/
def distinct (entries : List β) : List β :=
  addAllNew [] entries

end MetricLayer
