import MetricLayer.Proofs.Result
import MetricLayer.Proofs.Text.Run
import MetricLayer.Schema.TemplateText
import Mathlib.Data.List.Chain

/-!
# Reading templates

What it means to cut a text at its placeholders is said without a reader: every cut is the leftmost
placeholder of what is left of the text, and the last rest has none. The reader cuts so, and what it
makes of the cuts is printed as the same text:

- `Placeholder`, `IsPlain` — the form of a placeholder, and texts without any;
- `Scanned` — a text with its placeholders from left to right, each with the text before it;
- `exists_scanned`, `Scanned.unique` — every text is cut in exactly one way, into the chunks that
  are read from it;
- `Placeholder.HasFault` — what is wrong with a placeholder;
- `IsReading` — the pieces of a text are those of its cuts, and every piece gives one part of a
  template;
- `parse_scanned` — a text has a reading, or the fault of its first placeholder with one.
-/

namespace MetricLayer

namespace TemplateText

/-! ## Placeholders -/

/-- The word and the argument of a placeholder. -/
structure Placeholder where
  word : List Char
  argument : List Char
deriving DecidableEq, Repr

namespace Placeholder

/-- The text of a placeholder. -/
def text (p : Placeholder) : List Char := '\x7b' :: p.word ++ ':' :: p.argument ++ ['\x7d']

/-- A placeholder has a word and an argument, and no braces inside. -/
structure IsFormed (p : Placeholder) : Prop where
  word_ne_nil : p.word ≠ []
  isWord : ∀ c ∈ p.word, Text.isWord c = true
  argument_ne_nil : p.argument ≠ []
  isArgument : ∀ c ∈ p.argument, c ≠ '\x7b' ∧ c ≠ '\x7d'

end Placeholder

/-- No placeholder stands in a text. -/
def IsPlain (text : List Char) : Prop :=
  ∀ p : Placeholder, p.IsFormed → ¬ p.text <:+: text

/-- What is found at the front of a text has the form of a placeholder. -/
theorem isFormed_of_placeholder? {text word argument rest : List Char}
    (h : placeholder? text = some (word, argument, rest)) :
    Placeholder.IsFormed ⟨word, argument⟩ := by
  unfold placeholder? at h
  split at h <;> try contradiction
  next inner =>
    split at h <;> try contradiction
    next w word' inner' hword _ =>
      split at h <;> try contradiction
      next a argument' rest' hargument _ =>
        simp only [Option.some.injEq, Prod.mk.injEq] at h
        obtain ⟨rfl, rfl, -⟩ := h
        -- Word and argument are not empty, and each is a run of characters of its class.
        refine ⟨List.cons_ne_nil _ _, ?_, List.cons_ne_nil _ _, ?_⟩
        · intro c hc
          exact List.mem_takeWhile_imp (hword ▸ hc)
        · intro c hc
          have hargument' : isArgument c = true := List.mem_takeWhile_imp (hargument ▸ hc)
          simpa [isArgument] using hargument'

/-- A placeholder at the front of a text is found. -/
theorem placeholder?_append {p : Placeholder} (h : p.IsFormed) (rest : List Char) :
    placeholder? (p.text ++ rest) = some (p.word, p.argument, rest) := by
  have hargument : ∀ c ∈ p.argument, isArgument c = true := by
    intro c hc
    simpa [isArgument] using h.isArgument c hc
  -- A colon ends the word, and a brace the argument.
  have hcolon : ∀ c ∈ (':' :: (p.argument ++ '\x7d' :: rest)).head?, Text.isWord c = false := by
    rintro _ ⟨⟩
    decide +kernel
  have hbrace : ∀ c ∈ ('\x7d' :: rest).head?, isArgument c = false := by
    rintro _ ⟨⟩
    rfl
  have htext : p.text ++ rest =
      '\x7b' :: (p.word ++ ':' :: (p.argument ++ '\x7d' :: rest)) := by simp [Placeholder.text]
  obtain ⟨w, word', hw⟩ := List.exists_cons_of_ne_nil h.word_ne_nil
  obtain ⟨a, argument', ha⟩ := List.exists_cons_of_ne_nil h.argument_ne_nil
  rw [htext, placeholder?, Text.takeWhile_append_of_stops h.isWord hcolon,
    Text.dropWhile_append_of_stops h.isWord hcolon, hw]
  simp only [Text.takeWhile_append_of_stops hargument hbrace,
    Text.dropWhile_append_of_stops hargument hbrace]
  rw [ha]
  rfl

/-- A placeholder is found at the front of a text exactly where one stands there. -/
theorem placeholder?_eq_some_iff {text word argument rest : List Char} :
    placeholder? text = some (word, argument, rest) ↔
      Placeholder.IsFormed ⟨word, argument⟩ ∧ text = Placeholder.text ⟨word, argument⟩ ++ rest := by
  constructor
  · intro h
    refine ⟨isFormed_of_placeholder? h, ?_⟩
    rw [eq_of_placeholder?_eq_some h]
    simp [Placeholder.text]
  · rintro ⟨h, rfl⟩
    exact placeholder?_append h rest

/-- Two texts that start with a placeholder start with the same one. -/
theorem Placeholder.IsFormed.eq_of_append_eq {p q : Placeholder} {after after' : List Char}
    (hp : p.IsFormed) (hq : q.IsFormed) (h : p.text ++ after = q.text ++ after') :
    p = q ∧ after = after' := by
  have hfront := placeholder?_append hq after'
  rw [← h, placeholder?_append hp] at hfront
  obtain ⟨hword, hargument, hafter⟩ :
      p.word = q.word ∧ p.argument = q.argument ∧ after = after' := by
    simpa using hfront
  cases p
  cases q
  subst hword hargument
  exact ⟨rfl, hafter⟩

/-! ## Cutting a text -/

/-- A placeholder with the text that precedes it. -/
structure Occurrence where
  before : List Char
  placeholder : Placeholder
deriving DecidableEq, Repr

/-- The placeholder is the leftmost one of a text, and the given text follows it. -/
structure Occurrence.IsFirst (o : Occurrence) (text after : List Char) : Prop where
  formed : o.placeholder.IsFormed
  text_eq : text = o.before ++ (o.placeholder.text ++ after)
  leftmost : ∀ (p : Placeholder) (front back : List Char), p.IsFormed →
    text = front ++ (p.text ++ back) → o.before.length ≤ front.length

/-- A text is cut at its placeholders: one after the other the leftmost of what is left of the text,
until no placeholder is left. -/
inductive Scanned : List Char → List Occurrence → List Char → Prop
  | done {rest : List Char} : IsPlain rest → Scanned rest [] rest
  | next {text after rest : List Char} {o : Occurrence} {found : List Occurrence} :
    o.IsFirst text after → Scanned after found rest → Scanned text (o :: found) rest

/-- The text of placeholders with what precedes each of them, and of what follows the last one. -/
def textOf (found : List Occurrence) (rest : List Char) : List Char :=
  found.flatMap (fun o => o.before ++ o.placeholder.text) ++ rest

theorem textOf_cons (o : Occurrence) (found : List Occurrence) (rest : List Char) :
    textOf (o :: found) rest = o.before ++ (o.placeholder.text ++ textOf found rest) := by
  simp [textOf]

namespace Occurrence.IsFirst

variable {o o' : Occurrence} {text after after' : List Char}

theorem not_isPlain (h : o.IsFirst text after) : ¬ IsPlain text := fun hplain =>
  hplain _ h.formed ⟨_, _, (h.text_eq.trans (List.append_assoc ..).symm).symm⟩

/-- The text before the leftmost placeholder has none. -/
theorem isPlain_before (h : o.IsFirst text after) : IsPlain o.before := by
  rintro p hp ⟨front, back, hbefore⟩
  have htext : text = front ++ (p.text ++ (back ++ (o.placeholder.text ++ after))) := by
    rw [h.text_eq, ← hbefore]
    simp
  -- A placeholder in the text before would be further left.
  have hleft := h.leftmost p front _ hp htext
  rw [← hbefore] at hleft
  simp only [Placeholder.text, List.length_append, List.length_cons] at hleft
  omega

/-- A text has at most one leftmost placeholder. -/
theorem unique (h : o.IsFirst text after) (h' : o'.IsFirst text after') :
    o = o' ∧ after = after' := by
  have hlength : o.before.length = o'.before.length := by
    apply le_antisymm
    · exact h.leftmost _ _ _ h'.formed h'.text_eq
    · exact h'.leftmost _ _ _ h.formed h.text_eq
  obtain ⟨hbefore, hrest⟩ := List.append_inj (h.text_eq.symm.trans h'.text_eq) hlength
  obtain ⟨hplaceholder, hafter⟩ := h.formed.eq_of_append_eq h'.formed hrest
  cases o
  cases o'
  subst hbefore hplaceholder
  exact ⟨rfl, hafter⟩

end Occurrence.IsFirst

namespace Scanned

variable {text rest rest' : List Char} {found found' : List Occurrence}

/-- The cuts of a text make up the text. -/
theorem eq_textOf (h : Scanned text found rest) : text = textOf found rest := by
  induction h with
  | done _ => rfl
  | next hfirst _ ih => rw [textOf_cons, ← ih, hfirst.text_eq]

/-- No placeholder stands between the cuts of a text. -/
theorem isPlain (h : Scanned text found rest) :
    (∀ o ∈ found, IsPlain o.before) ∧ IsPlain rest := by
  induction h with
  | done hrest => exact ⟨nofun, hrest⟩
  | next hfirst _ ih => exact ⟨List.forall_mem_cons.2 ⟨hfirst.isPlain_before, ih.1⟩, ih.2⟩

/-- A text is cut in one way only. -/
theorem unique (h : Scanned text found rest) (h' : Scanned text found' rest') :
    found' = found ∧ rest' = rest := by
  induction h generalizing found' rest' with
  | done hplain =>
    cases h' with
    | done _ => exact ⟨rfl, rfl⟩
    | next hfirst _ => exact absurd hplain hfirst.not_isPlain
  | next hfirst _ ih =>
    cases h' with
    | done hplain => exact absurd hplain hfirst.not_isPlain
    | next hfirst' hrest' =>
      obtain ⟨rfl, rfl⟩ := hfirst.unique hfirst'
      obtain ⟨rfl, rfl⟩ := ih hrest'
      exact ⟨rfl, rfl⟩

end Scanned

/-! ## Chunks -/

/-- Literal text as a chunk, if there is any. -/
def literalChunks : List Char → List Chunk
  | [] => []
  | c :: text => [.literal (c :: text)]

/-- The chunks of a text that is cut at its placeholders. -/
def chunksOf (found : List Occurrence) (rest : List Char) : List Chunk :=
  found.flatMap (fun o =>
    literalChunks o.before ++ [.placeholder o.placeholder.word o.placeholder.argument]) ++
      literalChunks rest

section Front

variable {c : Char} {text : List Char} (hc : placeholder? (c :: text) = none)

include hc

/-- Where no placeholder starts at the first character, each stands in the rest of the text. -/
private theorem exists_front_of_cons {p : Placeholder} {front back : List Char} (hp : p.IsFormed)
    (h : c :: text = front ++ (p.text ++ back)) :
    ∃ front', front = c :: front' ∧ text = front' ++ (p.text ++ back) := by
  cases front with
  | nil =>
    rw [h, List.nil_append, placeholder?_append hp] at hc
    cases hc
  | cons d front' =>
    obtain ⟨rfl, htext⟩ := List.cons.inj h
    exact ⟨front', rfl, htext⟩

/-- A first character that starts no placeholder belongs to the literal text in front. -/
theorem exists_scanned_cons {found : List Occurrence} {rest : List Char}
    (h : Scanned text found rest) : ∃ found' rest', Scanned (c :: text) found' rest' ∧
      addLiteral c (chunksOf found rest) = chunksOf found' rest' := by
  -- There is either no placeholder, also with the character in front, or the same first one.
  cases h with
  | done hplain =>
    refine ⟨[], c :: text, .done ?_, by cases text <;> rfl⟩
    rintro p hp ⟨front, back, hfront⟩
    rw [List.append_assoc] at hfront
    obtain ⟨front', -, htext⟩ := exists_front_of_cons hc hp hfront.symm
    exact hplain p hp ⟨front', back, by rw [htext, List.append_assoc]⟩
  | @next _ after _ o found hfirst hrest =>
    have hfirst' : Occurrence.IsFirst ⟨c :: o.before, o.placeholder⟩ (c :: text) after :=
      { formed := hfirst.formed
        text_eq := congrArg (c :: ·) hfirst.text_eq
        leftmost := fun p front back hp htext => by
          obtain ⟨front', rfl, htext'⟩ := exists_front_of_cons hc hp htext
          exact Nat.succ_le_succ (hfirst.leftmost p front' back hp htext') }
    refine ⟨_, rest, .next hfirst' hrest, ?_⟩
    obtain ⟨before, p⟩ := o
    cases before <;> rfl

end Front

/-- A placeholder at the front is the first chunk. -/
private theorem chunks_eq_of_placeholder? {text word argument rest : List Char}
    (h : placeholder? text = some (word, argument, rest)) :
    chunks text = .placeholder word argument :: chunks rest := by
  rw [chunks]
  split
  · next hsome =>
    rw [h] at hsome
    cases hsome
    rfl
  · next hnone =>
    rw [h] at hnone
    cases hnone

/-- A first character that starts no placeholder is added to the chunks of the rest. -/
private theorem chunks_cons {c : Char} {text : List Char} (h : placeholder? (c :: text) = none) :
    chunks (c :: text) = addLiteral c (chunks text) := by
  rw [chunks]
  split
  · next hsome =>
    rw [h] at hsome
    cases hsome
  · rfl

/-- Every text can be cut at its placeholders, and its chunks are those of the cuts. -/
theorem exists_scanned (text : List Char) :
    ∃ found rest, Scanned text found rest ∧ chunks text = chunksOf found rest := by
  -- The reader moves on by a placeholder or by one character.
  induction text using chunks.induct with
  | case1 text word argument rest h _ ih =>
    obtain ⟨hformed, htext⟩ := placeholder?_eq_some_iff.1 h
    obtain ⟨found, last, hscanned, hchunks⟩ := ih
    have hfirst : Occurrence.IsFirst ⟨[], ⟨word, argument⟩⟩ text rest :=
      ⟨hformed, htext, fun _ _ _ _ _ => Nat.zero_le _⟩
    refine ⟨_, last, .next hfirst hscanned, ?_⟩
    rw [chunks_eq_of_placeholder? h, hchunks]
    rfl
  | case2 h =>
    refine ⟨[], [], .done fun p _ hin => ?_, by rw [chunks]; rfl⟩
    simp [Placeholder.text] at hin
  | case3 c rest h ih =>
    obtain ⟨found, last, hscanned, hchunks⟩ := ih
    obtain ⟨found', last', hscanned', hcons⟩ := exists_scanned_cons h hscanned
    exact ⟨found', last', hscanned', by rw [chunks_cons h, hchunks, hcons]⟩

/-! ## Pieces -/

/-- The words of placeholders. -/
def words : List String := ["column", "dimension", "metric", "identifier", "context", "from", "to"]

namespace Placeholder

/-- The word of a placeholder as a string. -/
def kind (p : Placeholder) : String := String.ofList p.word

/-- The argument of a placeholder without the white space around it. -/
def value (p : Placeholder) : String := String.ofList (Text.trim p.argument)

/-- What is wrong with a placeholder. -/
inductive HasFault (p : Placeholder) : TemplateUse → TemplateFault → Prop
  | unknownWord {use : TemplateUse} : p.kind ∉ words → HasFault p use (.unknownWord p.kind)
  | notInJoin : p.kind = "column" ∨ p.kind = "metric" → HasFault p .join (.notInJoin p.kind)
  | onlyInJoin : p.kind = "from" ∨ p.kind = "to" → HasFault p .member (.onlyInJoin p.kind)
  | pointerStart {use : TemplateUse} : p.kind = "context" → p.value ≠ "" →
    p.value.toList.head? ≠ some '/' → HasFault p use (.pointerStart p.value)

end Placeholder

end TemplateText

namespace TextPiece

/-- The piece is literal SQL. -/
def IsLiteral : TextPiece → Prop
  | .sql _ => True
  | _ => False

/-- Columns and metrics stand in the templates of members only, the two sides of a join in those of
joins only. -/
def AllowedIn (use : TemplateUse) : TextPiece → Prop
  | .column _ | .metric _ => use = .member
  | .origin _ | .target _ => use = .join
  | .sql _ | .dimension _ | .identifier _ | .context _ => True

end TextPiece

namespace TemplateText

/-- A pointer is empty or starts with a slash. -/
theorem isPointer_iff {text : String} :
    isPointer text = true ↔ text = "" ∨ text.toList.head? = some '/' := by
  rw [isPointer, ← String.toList_eq_nil_iff]
  cases text.toList <;> simp

/-- Reading a placeholder fails exactly with its faults. -/
theorem readPlaceholder_eq_error_iff {use : TemplateUse} {p : Placeholder} {fault : TemplateFault} :
    readPlaceholder use p.kind p.value = .error fault ↔ p.HasFault use fault := by
  constructor
  · intro h
    unfold readPlaceholder at h
    -- Words are tried one after the other, and only the last case has tried all of them.
    split_ifs at h with hdimension hidentifier hcontext hpointer hcolumn hmetric hfrom hto
    · obtain rfl := Except.error.inj h
      obtain ⟨hne, hhead⟩ := not_or.1 (mt isPointer_iff.2 hpointer)
      exact .pointerStart hcontext hne hhead
    · cases use with
      | member => cases h
      | join => exact Except.error.inj h ▸ .notInJoin (.inl hcolumn)
    · cases use with
      | member => cases h
      | join => exact Except.error.inj h ▸ .notInJoin (.inr hmetric)
    · cases use with
      | member => exact Except.error.inj h ▸ .onlyInJoin (.inl hfrom)
      | join => cases h
    · cases use with
      | member => exact Except.error.inj h ▸ .onlyInJoin (.inr hto)
      | join => cases h
    · refine Except.error.inj h ▸ .unknownWord ?_
      simp [words, hdimension, hidentifier, hcontext, hcolumn, hmetric, hfrom, hto]
  · intro h
    cases h with
    | unknownWord h =>
      simp only [words, List.mem_cons, not_or] at h
      simp [readPlaceholder, h]
    | notInJoin h => rcases h with h | h <;> simp [readPlaceholder, h]
    | onlyInJoin h => rcases h with h | h <;> simp [readPlaceholder, h]
    | pointerStart h hne hhead => simp [readPlaceholder, h, isPointer_iff, hne, hhead]

/-- A placeholder that is read has none of the faults. -/
theorem not_hasFault_of_readPlaceholder {use : TemplateUse} {p : Placeholder} {piece : TextPiece}
    (h : readPlaceholder use p.kind p.value = .ok piece) (fault : TemplateFault) :
    ¬ p.HasFault use fault := by
  intro hfault
  rw [readPlaceholder_eq_error_iff.2 hfault] at h
  cases h

/-- The piece of a placeholder is printed as the placeholder, and allowed where it stands. -/
theorem of_readPlaceholder {use : TemplateUse} {word argument : String} {piece : TextPiece}
    (h : readPlaceholder use word argument = .ok piece) :
    printPiece piece = printPlaceholder word argument ∧ piece.AllowedIn use ∧
      ¬ piece.IsLiteral := by
  unfold readPlaceholder at h
  split_ifs at h with hdimension hidentifier hcontext hpointer hcolumn hmetric hfrom hto
  · exact Except.ok.inj h ▸ ⟨hdimension ▸ rfl, trivial, id⟩
  · exact Except.ok.inj h ▸ ⟨hidentifier ▸ rfl, trivial, id⟩
  · exact Except.ok.inj h ▸ ⟨hcontext ▸ rfl, trivial, id⟩
  -- The other words are read for one of the two uses only.
  · cases use with
    | member => exact Except.ok.inj h ▸ ⟨hcolumn ▸ rfl, rfl, id⟩
    | join => cases h
  · cases use with
    | member => exact Except.ok.inj h ▸ ⟨hmetric ▸ rfl, rfl, id⟩
    | join => cases h
  · cases use with
    | member => cases h
    | join => exact Except.ok.inj h ▸ ⟨hfrom ▸ rfl, rfl, id⟩
  · cases use with
    | member => cases h
    | join => exact Except.ok.inj h ▸ ⟨hto ▸ rfl, rfl, id⟩

/-- Literal text as a piece, if there is any. -/
def literalPieces : List Char → List TextPiece
  | [] => []
  | c :: text => [.sql (String.ofList (c :: text))]

/-- The pieces of a text are those of its cuts: the text before each placeholder, the placeholder,
and the text after the last one. -/
inductive Reads (use : TemplateUse) : List Occurrence → List Char → List TextPiece → Prop
  | last (rest : List Char) : Reads use [] rest (literalPieces rest)
  | next {o : Occurrence} {found : List Occurrence} {rest : List Char} {piece : TextPiece}
    {pieces : List TextPiece} :
    readPlaceholder use o.placeholder.kind o.placeholder.value = .ok piece →
      Reads use found rest pieces →
        Reads use (o :: found) rest (literalPieces o.before ++ piece :: pieces)

/-- The cuts of a text are read, or the first placeholder with a fault is reported. -/
theorem mapM_chunksOf (use : TemplateUse) (found : List Occurrence) (rest : List Char) :
    (∃ pieces, (chunksOf found rest).mapM (readChunk use) = .ok pieces ∧
        Reads use found rest pieces) ∨
      ∃ before o after fault, found = before ++ o :: after ∧
        (∀ b ∈ before, ∀ fault, ¬ b.placeholder.HasFault use fault) ∧
        o.placeholder.HasFault use fault ∧
        (chunksOf found rest).mapM (readChunk use) = .error fault := by
  have hliteral (text : List Char) :
      (literalChunks text).mapM (readChunk use) = .ok (literalPieces text) := by
    cases text <;> rfl
  -- By induction on the placeholders. The literal texts between them are always read.
  induction found with
  | nil => exact .inl ⟨_, hliteral rest, .last rest⟩
  | cons o found ih =>
    have hcons : (chunksOf (o :: found) rest).mapM (readChunk use) = do
        let piece ← readPlaceholder use o.placeholder.kind o.placeholder.value
        let pieces ← (chunksOf found rest).mapM (readChunk use)
        return literalPieces o.before ++ piece :: pieces := by
      have hchunks : chunksOf (o :: found) rest = literalChunks o.before ++
          .placeholder o.placeholder.word o.placeholder.argument :: chunksOf found rest := by
        simp [chunksOf]
      rw [hchunks, List.mapM_append, hliteral, List.mapM_cons]
      simp only [bind_assoc, pure_bind]
      rfl
    rw [hcons]
    cases hread : readPlaceholder use o.placeholder.kind o.placeholder.value with
    | error fault =>
      exact .inr ⟨[], o, found, fault, rfl, nofun, readPlaceholder_eq_error_iff.1 hread, rfl⟩
    | ok piece =>
      rcases ih with ⟨pieces, hpieces, hreads⟩ |
        ⟨before, o', after, fault, rfl, hbefore, ho', herror⟩
      · exact .inl ⟨_, by rw [hpieces]; rfl, .next hread hreads⟩
      · refine .inr ⟨o :: before, o', after, fault, rfl, ?_, ho', by rw [herror]; rfl⟩
        exact List.forall_mem_cons.2 ⟨not_hasFault_of_readPlaceholder hread, hbefore⟩

/-! ## Printing -/

/-- The second placeholder is the first one without the white space around its argument. -/
structure Occurrence.TrimsTo (o printed : Occurrence) : Prop where
  before : printed.before = o.before
  word : printed.placeholder.word = o.placeholder.word
  argument : Text.Trims o.placeholder.argument printed.placeholder.argument

/-- A placeholder without the white space around its argument. -/
def Occurrence.trimmed (o : Occurrence) : Occurrence :=
  ⟨o.before, o.placeholder.word, Text.trim o.placeholder.argument⟩

theorem Occurrence.trimsTo_trimmed (o : Occurrence) : o.TrimsTo o.trimmed :=
  ⟨rfl, rfl, Text.trims_trim _⟩

theorem toList_print (pieces : List TextPiece) :
    (print pieces).toList = pieces.flatMap fun piece => (printPiece piece).toList := by
  induction pieces with
  | nil => rfl
  | cons piece pieces ih =>
    rw [print, List.map_cons, String.join_cons, String.toList_append, List.flatMap_cons, ← ih,
      print]

private theorem flatMap_printPiece_literalPieces (text : List Char) :
    (literalPieces text).flatMap (fun piece => (printPiece piece).toList) = text := by
  cases text <;> simp [literalPieces, printPiece]

/-- A literal text is one piece, or none when it is empty. -/
theorem mem_literalPieces {piece : TextPiece} {text : List Char} :
    piece ∈ literalPieces text ↔ piece = .sql (String.ofList text) ∧ text ≠ [] := by
  cases text <;> simp [literalPieces]

namespace Reads

variable {use : TemplateUse} {found : List Occurrence} {rest : List Char} {pieces : List TextPiece}

/-- Printing the pieces gives back the text, without the white space around arguments. -/
theorem toList_print_eq (h : Reads use found rest pieces) :
    (print pieces).toList = textOf (found.map Occurrence.trimmed) rest := by
  induction h with
  | last rest =>
    rw [toList_print, flatMap_printPiece_literalPieces]
    rfl
  | @next o found rest piece pieces hread _ ih =>
    -- Only what was read from a placeholder could have changed, and that is its white space.
    have hpiece : (printPiece piece).toList = o.trimmed.placeholder.text := by
      rw [(of_readPlaceholder hread).1]
      simp [printPlaceholder, Placeholder.kind, Placeholder.value, Placeholder.text,
        Occurrence.trimmed]
    rw [toList_print] at ih
    rw [toList_print, List.flatMap_append, flatMap_printPiece_literalPieces, List.flatMap_cons,
      hpiece, ih, List.map_cons, textOf_cons]
    rfl

/-- Literal pieces are texts between placeholders, and not empty. -/
theorem literal (h : Reads use found rest pieces) (hfound : ∀ o ∈ found, IsPlain o.before)
    (hrest : IsPlain rest) {text : String} (htext : .sql text ∈ pieces) :
    text ≠ "" ∧ IsPlain text.toList := by
  -- An empty text gives no piece.
  have hpart {before : List Char} (hbefore : IsPlain before)
      (h : TextPiece.sql text ∈ literalPieces before) : text ≠ "" ∧ IsPlain text.toList := by
    obtain ⟨heq, hne⟩ := mem_literalPieces.1 h
    obtain rfl : text = String.ofList before := TextPiece.sql.inj heq
    rw [String.toList_ofList]
    exact ⟨by simpa using hne, hbefore⟩
  induction h with
  | last _ => exact hpart hrest htext
  | next hread _ ih =>
    obtain ⟨hbefore, hfound⟩ := List.forall_mem_cons.1 hfound
    rcases List.mem_append.1 htext with htext | htext
    · exact hpart hbefore htext
    · rcases List.mem_cons.1 htext with rfl | htext
      · exact absurd trivial (of_readPlaceholder hread).2.2
      · exact ih hfound hrest htext

/-- No two literal pieces follow each other. -/
theorem isChain (h : Reads use found rest pieces) :
    pieces.IsChain fun a b => ¬ (a.IsLiteral ∧ b.IsLiteral) := by
  induction h with
  | last rest => cases rest <;> simp [literalPieces]
  | @next o found rest piece pieces hread _ ih =>
    -- A placeholder stands between any two texts.
    have hpiece := (of_readPlaceholder hread).2.2
    have hcons : (piece :: pieces).IsChain fun a b => ¬ (a.IsLiteral ∧ b.IsLiteral) :=
      List.isChain_cons.2 ⟨fun b _ hab => hpiece hab.1, ih⟩
    cases o.before with
    | nil => exact hcons
    | cons c text => exact List.isChain_cons.2 ⟨fun b hb hab => by simp_all, hcons⟩

/-- Every piece is allowed where the text is used. -/
theorem allowedIn (h : Reads use found rest pieces) : ∀ piece ∈ pieces, piece.AllowedIn use := by
  have hliteral (text : List Char) : ∀ piece ∈ literalPieces text, piece.AllowedIn use := by
    intro piece hpiece
    rw [(mem_literalPieces.1 hpiece).1]
    trivial
  induction h with
  | last rest => exact hliteral rest
  | next hread _ ih =>
    exact List.forall_mem_append.2 ⟨hliteral _,
      List.forall_mem_cons.2 ⟨(of_readPlaceholder hread).2.1, ih⟩⟩

/-- Placeholders that are read have no fault. -/
theorem not_hasFault (h : Reads use found rest pieces) :
    ∀ o ∈ found, ∀ fault, ¬ o.placeholder.HasFault use fault := by
  induction h with
  | last _ => exact nofun
  | next hread _ ih =>
    exact List.forall_mem_cons.2 ⟨not_hasFault_of_readPlaceholder hread, ih⟩

end Reads

/-! ## Templates -/

/-- Where every piece is allowed, each gives one part of the template. -/
theorem forall₂_filterMap_part? {use : TemplateUse} {context : Json} {join : Option JoinScope}
    (hjoin : use = .join → join.isSome) {pieces : List TextPiece}
    (h : ∀ piece ∈ pieces, piece.AllowedIn use) :
    List.Forall₂ (fun piece part => part? context join piece = some part) pieces
      (pieces.filterMap (part? context join)) := by
  apply forall₂_filterMap
  intro piece hpiece
  have hallowed := h piece hpiece
  -- The sides of a join are the only pieces without a part of their own.
  cases piece with
  | origin name | target name =>
    obtain ⟨scope, rfl⟩ := Option.isSome_iff_exists.1 (hjoin hallowed)
    exact ⟨_, rfl⟩
  | _ => exact ⟨_, rfl⟩

/-- The pieces that are read from a text: they print the text again, no literal text is empty, cut
in two or holds a placeholder, and every piece gives one part of a template. -/
structure IsReading (use : TemplateUse) (found : List Occurrence) (rest : List Char)
    (pieces : List TextPiece) : Prop where
  print : ∃ printed, List.Forall₂ Occurrence.TrimsTo found printed ∧
    (print pieces).toList = textOf printed rest
  literal : ∀ text, .sql text ∈ pieces → text ≠ "" ∧ IsPlain text.toList
  apart : pieces.IsChain fun a b => ¬ (a.IsLiteral ∧ b.IsLiteral)
  allowed : ∀ piece ∈ pieces, piece.AllowedIn use
  member : use = .member → ∀ scope : MemberScope,
    List.Forall₂ (fun piece part => part? scope.context none piece = some part) pieces
      (memberTemplate pieces scope)
  join : use = .join → ∀ scope : JoinScope,
    List.Forall₂ (fun piece part => part? scope.context (some scope) piece = some part) pieces
      (joinTemplate pieces scope)

/-- The pieces of the cuts of a text are a reading. -/
theorem Reads.isReading {use : TemplateUse} {found : List Occurrence} {rest : List Char}
    {pieces : List TextPiece} {text : List Char} (h : Reads use found rest pieces)
    (hscanned : Scanned text found rest) : IsReading use found rest pieces where
  print := ⟨found.map Occurrence.trimmed, List.forall₂_map_right_iff.2
    (List.forall₂_same.2 fun o _ => o.trimsTo_trimmed), h.toList_print_eq⟩
  literal _ htext := h.literal hscanned.isPlain.1 hscanned.isPlain.2 htext
  apart := h.isChain
  allowed := h.allowedIn
  member huse _ := forall₂_filterMap_part?
    (fun hjoin => TemplateUse.noConfusion (huse.symm.trans hjoin)) h.allowedIn
  join _ _ := forall₂_filterMap_part? (fun _ => rfl) h.allowedIn

/-- Every text is cut at its placeholders in exactly one way. It is read unless one of them has a
fault, and then the first with one is reported. What is read prints the text again and gives the
parts of a template one by one. -/
theorem parse_scanned (use : TemplateUse) (text : String) :
    ∃ found rest, Scanned text.toList found rest ∧
      (∀ found' rest', Scanned text.toList found' rest' → found' = found ∧ rest' = rest) ∧
      text.toList = textOf found rest ∧
      ((∃ fault, parse use text = .error fault) ↔
        ∃ o ∈ found, ∃ fault, o.placeholder.HasFault use fault) ∧
      (∀ fault, parse use text = .error fault → ∃ before o after, found = before ++ o :: after ∧
        (∀ b ∈ before, ∀ fault, ¬ b.placeholder.HasFault use fault) ∧
        o.placeholder.HasFault use fault) ∧
      ∀ pieces, parse use text = .ok pieces → IsReading use found rest pieces := by
  obtain ⟨found, rest, hscanned, hchunks⟩ := exists_scanned text.toList
  refine ⟨found, rest, hscanned, fun _ _ h' => hscanned.unique h', hscanned.eq_textOf, ?_⟩
  rw [parse, hchunks]
  rcases mapM_chunksOf use found rest with
    ⟨pieces, hpieces, hreads⟩ | ⟨before, o, after, fault, rfl, hbefore, hfault, herror⟩
  · rw [hpieces]
    refine ⟨⟨nofun, ?_⟩, nofun, ?_⟩
    · rintro ⟨o, ho, fault, hfault⟩
      exact absurd hfault (hreads.not_hasFault o ho fault)
    · intro _ h
      exact Except.ok.inj h ▸ hreads.isReading hscanned
  · rw [herror]
    refine ⟨⟨fun _ => ⟨o, by simp, fault, hfault⟩, fun _ => ⟨fault, rfl⟩⟩, ?_, nofun⟩
    intro _ h
    exact ⟨before, o, after, rfl, hbefore, Except.error.inj h ▸ hfault⟩

/-- Braces that are not closed, a placeholder inside of braces, blanks around an argument and an
argument that is blank. -/
theorem parse_scanned_unbalanced :
    ∃ found rest,
      Scanned "\x7bx:\x7bcolumn: id \x7d\x7d\x7bcontext: \x7d\x7bto\x7d".toList found rest ∧
        IsReading .member found rest
          [.sql "\x7bx:", .column "id", .sql "\x7d", .context "", .sql "\x7bto\x7d"] := by
  obtain ⟨found, rest, hscanned, -, -, -, -, hreading⟩ :=
    parse_scanned .member "\x7bx:\x7bcolumn: id \x7d\x7d\x7bcontext: \x7d\x7bto\x7d"
  exact ⟨found, rest, hscanned, hreading _ (by decide +kernel)⟩

end TemplateText

end MetricLayer
