import MetricLayer.Text.Blank
import Mathlib.Data.List.DropRight
import Mathlib.Data.List.TakeWhile

/-!
# Runs of characters

A reader that takes all characters of a class stops where the run of these characters ends, and a
text that is trimmed loses the runs of white space at its two ends:

- `takeWhile_append_of_stops`, `dropWhile_append_of_stops` — a run is found before a character
  outside its class;
- `Trims` — a text and what is left of it without the white space at its ends; `trims_trim`.
-/

namespace MetricLayer.Text

section Runs

variable {α : Type} {p : α → Bool} {run rest : List α}

theorem takeWhile_append_of_stops (hrun : ∀ c ∈ run, p c = true)
    (hstop : ∀ c ∈ rest.head?, p c = false) : (run ++ rest).takeWhile p = run := by
  have hrest : rest.takeWhile p = [] := by
    cases rest with
    | nil => rfl
    | cons c _ => exact List.takeWhile_cons_of_neg (by simp [hstop c rfl])
  rw [List.takeWhile_append_of_pos hrun, hrest, List.append_nil]

theorem dropWhile_append_of_stops (hrun : ∀ c ∈ run, p c = true)
    (hstop : ∀ c ∈ rest.head?, p c = false) : (run ++ rest).dropWhile p = rest := by
  rw [List.dropWhile_append_of_pos hrun]
  cases rest with
  | nil => rfl
  | cons c _ => exact List.dropWhile_cons_of_neg (by simp [hstop c rfl])

end Runs

/-- White space stands before and after the trimmed text, and none at its ends. -/
def Trims (text trimmed : List Char) : Prop :=
  ∃ front back, text = front ++ trimmed ++ back ∧ (∀ c ∈ front ++ back, isBlank c = true) ∧
    (∀ c ∈ trimmed.head?, isBlank c = false) ∧ ∀ c ∈ trimmed.getLast?, isBlank c = false

private theorem isBlank_of_head?_dropWhile {text : List Char} :
    ∀ c ∈ (text.dropWhile isBlank).head?, isBlank c = false := by
  intro c hc
  have hhead := List.head?_dropWhile_not isBlank text
  rwa [Option.mem_def.1 hc] at hhead

/-- What trimming leaves is the text without its outer blanks. -/
theorem trims_trim (text : List Char) : Trims text (trim text) := by
  have hstart : text.takeWhile isBlank ++ trimStart text = text := List.takeWhile_append_dropWhile
  have hend : trim text ++ (trimStart text).rtakeWhile isBlank = trimStart text :=
    List.rdropWhile_append_rtakeWhile ..
  refine ⟨_, _, (by rw [List.append_assoc, hend, hstart]), ?_, ?_, ?_⟩
  · intro c hc
    rcases List.mem_append.1 hc with hc | hc
    · exact List.mem_takeWhile_imp hc
    · exact List.mem_rtakeWhile_imp hc
  · intro c hc
    have hhead : ∀ c ∈ (trimStart text).head?, isBlank c = false := isBlank_of_head?_dropWhile
    -- The trimmed text starts where the text without its front does.
    apply hhead
    obtain ⟨rest, hrest⟩ := List.head?_eq_some_iff.1 hc
    rw [← hend, hrest]
    rfl
  · intro c hc
    rw [trim, trimEnd, List.getLast?_reverse] at hc
    exact isBlank_of_head?_dropWhile c hc

end MetricLayer.Text
