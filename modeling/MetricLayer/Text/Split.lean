/-!
# Dividing text

Text divided at every occurrence of one character. There is always at least one part, and putting
the character back between the parts gives the text.
-/

namespace MetricLayer.Text

/-- The parts of a character list between the occurrences of `separator`. -/
def splitAt (separator : Char) : List Char → List (List Char)
  | [] => [[]]
  | c :: rest =>
    match splitAt separator rest with
    | [] => [[c]]
    | part :: parts => if c = separator then [] :: part :: parts else (c :: part) :: parts

/-- The parts of a text between the occurrences of `separator`. -/
def split (separator : Char) (s : String) : List String :=
  (splitAt separator s.toList).map String.ofList

/-- A text in which one character is replaced by another text. -/
def replaceChar (old : Char) (new : String) (s : String) : String :=
  String.ofList (s.toList.flatMap fun c => if c = old then new.toList else [c])

end MetricLayer.Text
