import MetricLayer.Sql.Dialect
import Mathlib.Data.List.Basic

/-!
# Scanning composed text

The scan for binding marks looks one character ahead and remembers the open quotes, so the scan of
a concatenation is in general not the concatenation of the scans. It is for texts that leave the
scanner as they found it:

* `ScanNeutral text` — the scan of `text` ends outside of quotes, finds no mark, and the text does
  not end in a backslash that could escape a mark behind it;
* `lexemes_append` — a text that ends outside of quotes and without such a backslash can be scanned
  apart from what follows it;
* `scanNeutral_quote` — an identifier in the quotes of a dialect is neutral, whatever its
  characters are.
-/

namespace MetricLayer.Sql

/-! ## The state of the scanner -/

/-- The quotes that are open after a text that starts inside the given quotes, or outside of any. -/
def openQuote : (quote : Option Char) → List Char → Option Char
  | quote, [] => quote
  | some q, c :: rest => openQuote (if c = q then none else some q) rest
  | none, '\\' :: '?' :: rest => openQuote none rest
  | none, c :: rest => openQuote (if isQuote c then some c else none) rest

/-- The scan of a text is closed: it ends outside of quotes and not in a backslash that is still
waiting for a mark to escape. -/
structure ScanClosed (quote : Option Char) (text : List Char) : Prop where
  /-- No quotes are open at the end. -/
  outside : openQuote quote text = none
  /-- The last lexeme is no backslash. -/
  complete : (lexemes quote text).getLast? ≠ some (.plain '\\')

/-- A text that the scanner leaves as it found it, outside of quotes, without having met a mark. -/
structure ScanNeutral (text : String) : Prop where
  /-- No quotes are open at the end. -/
  outside : openQuote none text.toList = none
  /-- The text holds no binding mark. -/
  unmarked : markCount text = 0
  /-- The text does not end in a backslash outside of quotes. -/
  complete : (lexemes none text.toList).getLast? ≠ some (.plain '\\')

instance (text : String) : Decidable (ScanNeutral text) :=
  decidable_of_iff (openQuote none text.toList = none ∧ markCount text = 0 ∧
      (lexemes none text.toList).getLast? ≠ some (.plain '\\'))
    ⟨fun h => ⟨h.1, h.2.1, h.2.2⟩, fun h => ⟨h.1, h.2, h.3⟩⟩

/-- A neutral text is closed. -/
theorem ScanNeutral.closed {text : String} (h : ScanNeutral text) :
    ScanClosed none text.toList :=
  ⟨h.outside, h.complete⟩

/-! ## Concatenation -/

/-- The scan of a character outside of quotes that does not escape a mark. -/
private theorem lexemes_cons {c : Char} {rest : List Char}
    (h : ¬(c = '\\' ∧ rest.head? = some '?')) :
    lexemes none (c :: rest) =
      if c = '?' then .mark :: lexemes none rest
      else .plain c :: lexemes (if isQuote c then some c else none) rest := by
  rw [lexemes]
  intro rest' hc hrest
  exact h ⟨hc, by simp [hrest]⟩

/-- The quotes after a character outside of quotes that does not escape a mark. -/
private theorem openQuote_cons {c : Char} {rest : List Char}
    (h : ¬(c = '\\' ∧ rest.head? = some '?')) :
    openQuote none (c :: rest) = openQuote (if isQuote c then some c else none) rest := by
  rw [openQuote]
  intro rest' hc hrest
  exact h ⟨hc, by simp [hrest]⟩

private theorem getLast?_ne_of_cons {first : Lexeme} {rest : List Lexeme} {l : Lexeme}
    (h : (first :: rest).getLast? ≠ some l) : rest.getLast? ≠ some l := by
  intro hrest
  rw [List.getLast?_cons, hrest] at h
  simp at h

/-- What follows the first lexeme of a closed text is closed. -/
private theorem ScanClosed.tail {quote quote' : Option Char} {text rest : List Char} {l : Lexeme}
    (h : ScanClosed quote text) (hlex : lexemes quote text = l :: lexemes quote' rest)
    (hopen : openQuote quote text = openQuote quote' rest) : ScanClosed quote' rest :=
  ⟨hopen ▸ h.outside, getLast?_ne_of_cons (hlex ▸ h.complete)⟩

/-- The first character of a closed text escapes no mark of the text that follows. -/
private theorem ScanClosed.not_escape {c : Char} {rest : List Char}
    (h : ScanClosed none (c :: rest)) (hnot : ¬(c = '\\' ∧ rest.head? = some '?'))
    (after : List Char) : ¬(c = '\\' ∧ (rest ++ after).head? = some '?') := by
  rintro ⟨rfl, hhead⟩
  cases rest with
  | nil => exact h.complete (by simp [lexemes])
  | cons d rest => exact hnot ⟨rfl, by simpa using hhead⟩

/-- A closed text can be scanned apart from the text that follows it. -/
theorem lexemes_append {quote : Option Char} {text : List Char} (h : ScanClosed quote text)
    (after : List Char) :
    lexemes quote (text ++ after) = lexemes quote text ++ lexemes none after := by
  -- Induction along the scan. The only danger is at the seam, where a backslash could reach over
  -- and escape a mark of the second text; a closed text does not end in one.
  fun_induction lexemes quote text with
  | case1 quote =>
    have hquote : quote = none := h.outside
    simp [hquote]
  | case2 q c rest ih =>
    rw [List.cons_append, lexemes, ih (h.tail rfl rfl), List.cons_append]
  | case3 rest ih =>
    rw [List.cons_append, List.cons_append, lexemes, ih (h.tail rfl rfl), List.cons_append]
  | case4 rest hnot ih =>
    have hesc : ¬('?' = '\\' ∧ rest.head? = some '?') := by simp
    have htail : ScanClosed none rest :=
      h.tail (by rw [lexemes_cons hesc, if_pos rfl]) (by rw [openQuote_cons hesc]; rfl)
    rw [List.cons_append, lexemes_cons (h.not_escape hesc after), if_pos rfl, ih htail,
      List.cons_append]
  | case5 c rest hnot hmark ih =>
    have hesc : ¬(c = '\\' ∧ rest.head? = some '?') := by
      rintro ⟨rfl, hhead⟩
      obtain ⟨rest', rfl⟩ := List.head?_eq_some_iff.1 hhead
      exact hnot rest' rfl rfl
    have htail := h.tail (by rw [lexemes_cons hesc, if_neg hmark]) (openQuote_cons hesc)
    rw [List.cons_append, lexemes_cons (h.not_escape hesc after), if_neg hmark, ih htail,
      List.cons_append]

/-- A text after a closed one leaves the quotes as it does on its own. -/
theorem openQuote_append {quote : Option Char} {text : List Char} (h : ScanClosed quote text)
    (after : List Char) : openQuote quote (text ++ after) = openQuote none after := by
  fun_induction openQuote quote text with
  | case1 quote =>
    have hquote : quote = none := h.outside
    rw [hquote, List.nil_append]
  | case2 q c rest ih =>
    rw [List.cons_append, openQuote, ih (h.tail rfl rfl)]
  | case3 rest ih =>
    rw [List.cons_append, List.cons_append, openQuote, ih (h.tail rfl rfl)]
  | case4 c rest hnot ih =>
    -- The escaped mark was the case before.
    have hesc : ¬(c = '\\' ∧ rest.head? = some '?') := by
      rintro ⟨rfl, hhead⟩
      obtain ⟨rest', rfl⟩ := List.head?_eq_some_iff.1 hhead
      exact hnot rest' rfl rfl
    rw [List.cons_append, openQuote_cons (h.not_escape hesc after)]
    by_cases hmark : c = '?'
    · subst hmark
      exact ih (h.tail (by rw [lexemes_cons hesc, if_pos rfl]; rfl) (openQuote_cons hesc))
    · exact ih (h.tail (by rw [lexemes_cons hesc, if_neg hmark]) (openQuote_cons hesc))

/-- Closed texts make a closed text. -/
theorem ScanClosed.append {quote : Option Char} {text after : List Char}
    (h : ScanClosed quote text) (h' : ScanClosed none after) :
    ScanClosed quote (text ++ after) := by
  refine ⟨by rw [openQuote_append h, h'.outside], ?_⟩
  rw [lexemes_append h, List.getLast?_append]
  cases hlast : (lexemes none after).getLast? with
  | none => simpa using h.complete
  | some l => simpa [hlast] using h'.complete

/-- The marks of a text after a closed one are counted apart. -/
theorem count_mark_append {quote : Option Char} {text : List Char} (h : ScanClosed quote text)
    (after : List Char) :
    (lexemes quote (text ++ after)).count .mark =
      (lexemes quote text).count .mark + (lexemes none after).count .mark := by
  rw [lexemes_append h, List.count_append]

/-- Neutral texts make a neutral text. -/
theorem ScanNeutral.append {s t : String} (hs : ScanNeutral s) (ht : ScanNeutral t) :
    ScanNeutral (s ++ t) := by
  -- Being closed carries over the seam, and marks are counted apart.
  have hclosed := hs.closed.append ht.closed
  rw [← String.toList_append] at hclosed
  refine ⟨hclosed.outside, ?_, hclosed.complete⟩
  have hs₀ : (lexemes none s.toList).count .mark = 0 := hs.unmarked
  have ht₀ : (lexemes none t.toList).count .mark = 0 := ht.unmarked
  rw [markCount, String.toList_append, count_mark_append hs.closed, hs₀, ht₀]

/-! ## Quoted identifiers -/

/-- The quote character of a dialect opens quotes. -/
theorem isQuote_quoteChar (d : Dialect) : isQuote d.quoteChar = true := by
  cases d <;> decide

/-- The characters of an identifier with its quote characters doubled, and the closing quote. -/
def quotedTail (q : Char) (identifier : List Char) : List Char :=
  identifier.flatMap (fun c => if c = q then [q, q] else [c]) ++ [q]

@[simp]
theorem quotedTail_nil (q : Char) : quotedTail q [] = [q] := rfl

/-- A quote inside a quoted name is doubled. -/
@[simp]
theorem quotedTail_cons_self (q : Char) (rest : List Char) :
    quotedTail q (q :: rest) = q :: q :: quotedTail q rest := by
  simp [quotedTail]

theorem quotedTail_cons_of_ne {q c : Char} (hc : c ≠ q) (rest : List Char) :
    quotedTail q (c :: rest) = c :: quotedTail q rest := by
  simp [quotedTail, hc]

/-- The characters of an identifier in the quotes of a dialect. -/
theorem toList_quote (d : Dialect) {identifier : String} (h : identifier ≠ "*") :
    (d.quote identifier).toList = d.quoteChar :: quotedTail d.quoteChar identifier.toList := by
  simp [Dialect.quote, h, Text.replaceChar, quotedTail]

/-- The characters of a qualified name: those of its first part, a point and the rest. -/
theorem toList_quotePath_cons_cons (d : Dialect) (part next : String) (rest : List String) :
    (d.quotePath (part :: next :: rest)).toList =
      (d.quote part).toList ++ '.' :: (d.quotePath (next :: rest)).toList := by
  simp [Dialect.quotePath, String.intercalate_cons_cons]

/-- Scanned from inside the quotes, a quoted identifier closes them, and all its characters stand
for themselves. -/
private theorem scan_quotedTail {q : Char} (hq : isQuote q = true) (identifier : List Char) :
    openQuote (some q) (quotedTail q identifier) = none ∧
      lexemes (some q) (quotedTail q identifier) = (quotedTail q identifier).map .plain := by
  have hslash : q ≠ '\\' := by rintro rfl; revert hq; decide
  have hmark : q ≠ '?' := by rintro rfl; revert hq; decide
  induction identifier with
  | nil => simp [openQuote, lexemes]
  | cons c rest ih =>
    by_cases hc : c = q
    · -- A doubled quote closes the quotes and opens them again.
      have hesc : ¬(q = '\\' ∧ (quotedTail q rest).head? = some '?') := fun h => hslash h.1
      rw [hc, quotedTail_cons_self, openQuote, lexemes, if_pos rfl, openQuote_cons hesc,
        lexemes_cons hesc, if_neg hmark, if_pos hq]
      exact ⟨ih.1, by simp [ih.2]⟩
    · rw [quotedTail_cons_of_ne hc, openQuote, lexemes, if_neg hc]
      exact ⟨ih.1, by simp [ih.2]⟩

/-- An identifier in the quotes of a dialect is neutral, whatever its characters are. -/
theorem scanNeutral_quote (d : Dialect) (identifier : String) :
    ScanNeutral (d.quote identifier) := by
  by_cases hstar : identifier = "*"
  · rw [Dialect.quote, if_pos hstar, hstar]
    decide
  · have hq := isQuote_quoteChar d
    have hslash : d.quoteChar ≠ '\\' := by cases d <;> decide
    have hmark : d.quoteChar ≠ '?' := by cases d <;> decide
    have hesc : ¬(d.quoteChar = '\\' ∧
        (quotedTail d.quoteChar identifier.toList).head? = some '?') := fun h => hslash h.1
    have htext := toList_quote d hstar
    obtain ⟨hopen, hlex⟩ := scan_quotedTail hq identifier.toList
    -- Every character of the quoted identifier, the quotes included, stands for itself.
    have hall : lexemes none (d.quote identifier).toList =
        ((d.quote identifier).toList).map .plain := by
      rw [htext, lexemes_cons hesc, if_neg hmark, if_pos hq, hlex, List.map_cons]
    refine ⟨?_, ?_, ?_⟩
    · rw [htext, openQuote_cons hesc, if_pos hq, hopen]
    · rw [markCount, hall, List.count_eq_zero]
      simp
    · rw [hall, htext]
      simpa [quotedTail, List.getLast?_cons] using hslash

/-- Neutral texts with a neutral text between any two make a neutral text. -/
theorem scanNeutral_intercalate {separator : String} (hsep : ScanNeutral separator)
    {texts : List String} (h : ∀ t ∈ texts, ScanNeutral t) :
    ScanNeutral (String.intercalate separator texts) := by
  induction texts with
  | nil =>
    rw [String.intercalate_nil]
    decide
  | cons t rest ih =>
    have ht : ScanNeutral t := h t List.mem_cons_self
    have hrest : ScanNeutral (String.intercalate separator rest) :=
      ih fun u hu => h u (List.mem_cons_of_mem _ hu)
    cases rest with
    | nil => simpa using ht
    | cons u rest =>
      rw [String.intercalate_cons_cons]
      exact (ht.append hsep).append hrest

/-- A qualified name is neutral. -/
theorem scanNeutral_quotePath (d : Dialect) (identifiers : List String) :
    ScanNeutral (d.quotePath identifiers) := by
  refine scanNeutral_intercalate (by decide) fun t ht => ?_
  obtain ⟨identifier, -, rfl⟩ := List.mem_map.1 ht
  exact scanNeutral_quote d identifier

end MetricLayer.Sql
