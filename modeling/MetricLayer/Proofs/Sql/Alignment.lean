import MetricLayer.Proofs.Sql.Fragment

/-!
# Marks and the values they were written for

The marks of a fragment are seen from two sides:

* `markPositions text` — where the scanner finds a binding mark in a text;
* `Fragment.written` — where the composition of the fragment wrote a mark, and for which value.

A fragment is `Aligned` when each of its pieces apart from marks is neutral and its bindings are the
values of its marks in order. The two sides then agree (`Fragment.Aligned.written_eq`): the scanner finds
exactly the marks that were written, and the bindings are the values that they were written for.
-/

namespace MetricLayer.Sql

/-! ## Positions -/

/-- The positions of the marks among lexemes, the first of which stands at `start`. -/
def markOffsets (start : Nat) : List Lexeme → List Nat
  | [] => []
  | .plain _ :: rest => markOffsets (start + 1) rest
  | .escapedMark :: rest => markOffsets (start + 2) rest
  | .mark :: rest => start :: markOffsets (start + 1) rest

/-- The positions, counted in characters, at which the scanner finds a binding mark. -/
def markPositions (text : String) : List Nat :=
  markOffsets 0 (lexemes none text.toList)

/-- The marks that were written among pieces, the first of which stands at `start`: the position of
each and its value. -/
def writtenMarks (start : Nat) : List Piece → List (Nat × Json)
  | [] => []
  | .text s :: rest => writtenMarks (start + s.length) rest
  | .mark v :: rest => (start, v) :: writtenMarks (start + 1) rest
  | .column _ _ s :: rest => writtenMarks (start + s.length) rest

/-- The marks that were written in a fragment, each at its position in the text with the value that
it was written for. -/
def Fragment.written (f : Fragment) : List (Nat × Json) :=
  writtenMarks 0 f.pieces

/-- The number of characters of some lexemes. -/
private def width : List Lexeme → Nat
  | [] => 0
  | .plain _ :: rest | .mark :: rest => 1 + width rest
  | .escapedMark :: rest => 2 + width rest

private theorem width_lexemes (quote : Option Char) (text : List Char) :
    width (lexemes quote text) = text.length := by
  -- Only an escaped mark is made of two characters.
  fun_induction lexemes quote text <;> simp_all [width] <;> omega

private theorem markOffsets_append (start : Nat) (ls ms : List Lexeme) :
    markOffsets start (ls ++ ms) =
      markOffsets start ls ++ markOffsets (start + width ls) ms := by
  induction ls generalizing start with
  | nil => simp [markOffsets, width]
  | cons l rest ih =>
    cases l <;> simp [markOffsets, ih, width, Nat.add_assoc]

/-- Positions are found for as many marks as are counted. -/
theorem length_markPositions (text : String) : (markPositions text).length = markCount text := by
  have h (start : Nat) (ls : List Lexeme) : (markOffsets start ls).length = ls.count .mark := by
    induction ls generalizing start with
    | nil => rfl
    | cons l rest ih => cases l <;> simp [markOffsets, ih]
  exact h 0 _

private theorem markOffsets_eq_nil {start : Nat} {ls : List Lexeme} (h : ls.count .mark = 0) :
    markOffsets start ls = [] := by
  induction ls generalizing start with
  | nil => rfl
  | cons l rest ih =>
    cases l <;> simp_all [markOffsets]

/-! ## Aligned fragments -/

/-- The value that a piece was written for, where it is a mark. -/
def Piece.value? : Piece → Option Json
  | .text _ | .column .. => none
  | .mark v => some v

/-- The pieces of a fragment apart from its marks are neutral, and its bindings are the values of its
marks. -/
structure Fragment.Aligned (f : Fragment) : Prop where
  /-- The scanner passes over every piece that is not a mark. -/
  neutral (p : Piece) : p ∈ f.pieces → p.value? = none → ScanNeutral p.sql
  /-- The bindings are the values that the marks were written for. -/
  bindings : f.pieces.filterMap Piece.value? = f.bindings

private theorem writtenMarks_snd (start : Nat) (pieces : List Piece) :
    (writtenMarks start pieces).map Prod.snd = pieces.filterMap Piece.value? := by
  induction pieces generalizing start with
  | nil => rfl
  | cons p rest ih => cases p <;> simp [writtenMarks, List.filterMap_cons, Piece.value?, ih]

/-- The scanner finds a mark exactly where one was written. -/
private theorem writtenMarks_fst (start : Nat) {pieces : List Piece}
    (h : ∀ p ∈ pieces, p.value? = none → ScanNeutral p.sql) :
    (writtenMarks start pieces).map Prod.fst =
      markOffsets start (lexemes none (String.join (pieces.map Piece.sql)).toList) := by
  induction pieces generalizing start with
  | nil => rfl
  | cons p rest ih =>
    have hrest := fun n => ih n fun p hp => h p (List.mem_cons_of_mem _ hp)
    rw [List.map_cons, String.join_cons, String.toList_append]
    -- Neutral text moves the marks behind it by its length.
    have hneutral (s : String) (hs : ScanNeutral s) : markOffsets start (lexemes none (s.toList ++
        (String.join (rest.map Piece.sql)).toList)) =
          (writtenMarks (start + s.length) rest).map Prod.fst := by
      rw [hrest, lexemes_append hs.closed, markOffsets_append, markOffsets_eq_nil hs.unmarked,
        width_lexemes, List.nil_append, String.length_toList]
    cases p with
    | text s => exact (hneutral s (h _ List.mem_cons_self rfl)).symm
    | column source name s => exact (hneutral s (h _ List.mem_cons_self rfl)).symm
    | mark v =>
      rw [writtenMarks, List.map_cons, hrest, Piece.sql]
      simp [lexemes, markOffsets]

/-- In an aligned fragment the scanner finds the marks that were written, and the bindings are the
values that they were written for. -/
theorem Fragment.Aligned.written_eq {f : Fragment} (h : f.Aligned) :
    f.written.map Prod.fst = markPositions f.sql ∧ f.written.map Prod.snd = f.bindings :=
  ⟨writtenMarks_fst 0 h.neutral, (writtenMarks_snd 0 f.pieces).trans h.bindings⟩

/-- An aligned fragment has as many marks as bindings. -/
theorem Fragment.Aligned.markCount_eq {f : Fragment} (h : f.Aligned) :
    f.markCount = f.bindings.length := by
  obtain ⟨hpos, hval⟩ := h.written_eq
  rw [Fragment.markCount, ← length_markPositions, ← hpos, ← hval, List.length_map, List.length_map]

theorem Fragment.aligned_ofText {s : String} (h : ScanNeutral s) : (ofText s).Aligned := by
  refine ⟨fun p hp _ => ?_, ?_⟩ <;> by_cases hs : s.isEmpty <;>
    simp_all [ofText, Piece.value?, Piece.sql]

theorem Fragment.aligned_ofColumn (source name : String) {s : String} (h : ScanNeutral s) :
    (ofColumn source name s).Aligned := by
  refine ⟨fun p hp _ => ?_, rfl⟩
  obtain rfl := List.mem_singleton.1 hp
  exact h

/-- Closing an expression changes neither texts nor values. -/
theorem Fragment.Aligned.closed {f : Fragment} (h : f.Aligned) : f.sealed.Aligned := by
  have hvalue (p : Piece) : p.sealed.value? = p.value? := by cases p <;> rfl
  have hsql (p : Piece) : p.sealed.sql = p.sql := by cases p <;> rfl
  refine ⟨fun p hp hnone => ?_, ?_⟩
  · obtain ⟨piece, hpiece, rfl⟩ := List.mem_map.1 hp
    rw [hsql]
    exact h.neutral piece hpiece (hvalue piece ▸ hnone)
  · rw [sealed, List.filterMap_map, ← h.bindings]
    exact congrArg (List.filterMap · f.pieces) (funext hvalue)

/-- Alignment of both sides is kept by composition. -/
theorem aligned_congruence : Congruence fun f g => f.Aligned ∧ g.Aligned where
  text h := ⟨Fragment.aligned_ofText h, Fragment.aligned_ofText h⟩
  column source name _ h :=
    ⟨Fragment.aligned_ofColumn source name h, Fragment.aligned_ofColumn source name h⟩
  value v w := ⟨⟨by simp [Fragment.ofValue, Piece.value?], rfl⟩,
    ⟨by simp [Fragment.ofValue, Piece.value?], rfl⟩⟩
  append hf hg := by
    have happend {f g : Fragment} (hf : f.Aligned) (hg : g.Aligned) : (f ++ g).Aligned := by
      refine ⟨fun s hs => ?_, ?_⟩
      · rw [Fragment.pieces_append, List.mem_append] at hs
        exact hs.elim (hf.neutral s) (hg.neutral s)
      · rw [Fragment.pieces_append, List.filterMap_append, hf.bindings, hg.bindings,
          Fragment.bindings_append]
    exact ⟨happend hf.1 hg.1, happend hf.2 hg.2⟩
  closed h := ⟨h.1.closed, h.2.closed⟩

end MetricLayer.Sql
