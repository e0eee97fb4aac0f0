import MetricLayer.Proofs.Calendar.Reader

/-!
# Ranges between two date expressions

`from X to Y` stands for what the pair of `X` and `Y` stands for. The text is read in lower case and
divided at its first word `to`, and each part is then read on its own. A part that is read alone
keeps its meaning on this way unless it depends on a capital letter, and it is not divided unless it
has a word `to` itself.

- `words`, `SimpleWords` — the words of a text, and those of a phrase that is no range;
- `exists_of_splitAtTo`, `splitAtTo_append` — where a text is divided;
- `phrase?_of_length_le` — how deeply ranges nest makes no difference;
- `meaning?_lower` — what a part stands for in lower case;
- `parseDate_fromTo` — a range and the pair of its ends stand for the same.
-/

namespace MetricLayer.Calendar

open Text (isBlank trimStart)

/-! ## Words -/

/-- The words between the white space of a text. -/
def words (cs : List Char) : List (List Char) := (cs.splitOnP isBlank).filter (!·.isEmpty)

section Words

variable {cs w bs : List Char}

/-- A blank divides the words before it from those behind it. -/
theorem words_append_cons (front rest : List Char) {c : Char} (hc : isBlank c = true) :
    words (front ++ c :: rest) = words front ++ words rest := by
  rw [words, List.splitOnP_append_cons _ _ hc, List.filter_append, words, words]

/-- White space divides a text. -/
theorem words_append_blanks (front rest : List Char) (hne : bs ≠ [])
    (hbs : ∀ b ∈ bs, isBlank b = true) : words (front ++ (bs ++ rest)) = words front ++ words rest := by
  induction bs generalizing front with
  | nil => exact absurd rfl hne
  | cons b bs ih =>
    obtain ⟨hb, hbs⟩ := List.forall_mem_cons.1 hbs
    rw [List.cons_append, words_append_cons front _ hb]
    cases bs with
    | nil => rfl
    | cons b' bs =>
      have hnil : words [] = [] := rfl
      rw [← List.nil_append (b' :: bs ++ rest), ih [] (List.cons_ne_nil _ _) hbs, hnil,
        List.nil_append]

/-- A text without white space is one word. -/
theorem words_of_no_blank (hne : w ≠ []) (hw : ∀ c ∈ w, isBlank c = false) : words w = [w] := by
  rw [words, List.splitOnP_eq_singleton hw]
  simp [hne]

/-- Words are made of the characters of the text. -/
theorem mem_of_mem_words (hw : w ∈ words cs) {c : Char} (hc : c ∈ w) : c ∈ cs := by
  have hsplit : w ∈ cs.splitOnP isBlank := (List.mem_filter.1 hw).1
  clear hw
  -- By induction on the text. A character is the first one of a word or of the text after a blank.
  induction cs generalizing w with
  | nil =>
    rw [List.splitOnP_nil, List.mem_singleton] at hsplit
    rwa [hsplit] at hc
  | cons d cs ih =>
    rw [List.splitOnP_cons_eq_if_modifyHead] at hsplit
    split_ifs at hsplit
    · rcases List.mem_cons.1 hsplit with rfl | hsplit
      · cases hc
      · exact List.mem_cons_of_mem _ (ih hc hsplit)
    · obtain ⟨first, others, hfirst⟩ := List.exists_cons_of_ne_nil (List.splitOnP_ne_nil isBlank cs)
      rw [hfirst, List.modifyHead_cons] at hsplit
      rw [hfirst] at ih
      rcases List.mem_cons.1 hsplit with rfl | hsplit
      · rcases List.mem_cons.1 hc with rfl | hc
        · exact List.mem_cons_self
        · exact List.mem_cons_of_mem _ (ih hc List.mem_cons_self)
      · exact List.mem_cons_of_mem _ (ih hc (List.mem_cons_of_mem _ hsplit))

end Words

/-! ## Phrases -/

section Readers

variable {cs rest : List Char}

/-- A word that is read stands in front. -/
theorem eq_append_of_word? {word : String} (h : word? word cs = some rest) :
    cs = word.toList ++ rest := by
  unfold word? at h
  split_ifs at h with hprefix
  obtain ⟨rest', rfl⟩ := List.isPrefixOf_iff_prefix.1 hprefix
  rw [← Option.some.inj h, ← String.length_toList, List.drop_left]

/-- A word in front is read. -/
theorem word?_append (word : String) (rest : List Char) :
    word? word (word.toList ++ rest) = some rest := by
  have hprefix : word.toList.isPrefixOf (word.toList ++ rest) = true :=
    List.isPrefixOf_iff_prefix.2 (List.prefix_append _ _)
  rw [word?, if_pos hprefix, ← String.length_toList, List.drop_left]

/-- Blanks that are read stand in front, one at least. -/
theorem exists_of_blanks? (h : blanks? cs = some rest) :
    ∃ bs, cs = bs ++ rest ∧ bs ≠ [] ∧ ∀ b ∈ bs, isBlank b = true := by
  cases cs with
  | nil => cases h
  | cons c cs =>
    rw [blanks?] at h
    split_ifs at h with hc
    obtain rfl := Option.some.inj h
    refine ⟨c :: cs.takeWhile isBlank, ?_, List.cons_ne_nil _ _, ?_⟩
    · rw [List.cons_append, trimStart, List.takeWhile_append_dropWhile]
    · exact List.forall_mem_cons.2 ⟨hc, fun b hb => List.mem_takeWhile_imp hb⟩

/-- A unit that is read stands in front by its name. -/
theorem eq_append_of_unit? {units : List Period} {unit : Period}
    (h : unit? units cs = some (unit, rest)) : cs = unit.name.toList ++ rest := by
  obtain ⟨u, -, hu⟩ := List.exists_of_findSome?_eq_some h
  obtain ⟨rest', hrest, heq⟩ := Option.map_eq_some_iff.1 hu
  obtain ⟨rfl, rfl⟩ := Prod.mk.inj heq
  exact eq_append_of_word? hrest

/-- The words for units, in the singular and the plural. -/
def unitWords : List (List Char) :=
  Period.all.flatMap fun u => [u.name.toList, u.name.toList ++ ['s']]

/-- A counted unit that is read stands in front, in the singular or the plural. -/
theorem exists_of_countedUnit? {unit : Period} (h : countedUnit? cs = some (unit, rest)) :
    ∃ word ∈ unitWords, cs = word ++ rest := by
  obtain ⟨⟨u, rest'⟩, hu, h⟩ := Option.bind_eq_some_iff.1 h
  obtain ⟨rfl, rfl⟩ := Prod.mk.inj (Option.some.inj h)
  obtain rfl := eq_append_of_unit? hu
  have hall : ∀ u : Period, u.name.toList ∈ unitWords ∧ u.name.toList ++ ['s'] ∈ unitWords := by
    intro u
    cases u <;> decide
  cases hs : char? 's' rest' with
  | none => exact ⟨_, (hall u).1, rfl⟩
  | some rest =>
    obtain rfl := eq_cons_of_char? hs
    exact ⟨_, (hall u).2, by simp⟩

/-- A count that is read is a run of digits in front. -/
theorem eq_append_of_count? {n : Nat} (h : count? cs = some (n, rest)) :
    ∃ ds, cs = ds ++ rest ∧ ds ≠ [] ∧ ∀ d ∈ ds, d.isDigit = true := by
  obtain ⟨⟨ds, rest'⟩, hds, h⟩ := Option.bind_eq_some_iff.1 h
  dsimp only at h
  split_ifs at h
  obtain ⟨-, rfl⟩ := Prod.mk.inj (Option.some.inj h)
  obtain ⟨rfl, hlength, hdigits⟩ := eq_append_of_digits? hds
  exact ⟨ds, rfl, List.ne_nil_of_length_pos hlength, hdigits⟩

end Readers

/-- The words of a phrase that is not of the form `from X to Y`. -/
inductive SimpleWords : List (List Char) → Prop
  | day {word : List Char} (h : word ∈ ["now", "today", "yesterday", "tomorrow"].map String.toList) :
    SimpleWords [word]
  | distance {number unit : List Char} {tail : List (List Char)}
    (hnumber : ∀ d ∈ number, d.isDigit = true) (hunit : unit ∈ unitWords)
    (htail : tail ∈ [["ago"], ["from", "now"]].map (·.map String.toList)) :
    SimpleWords (number :: unit :: tail)
  | period {word unit : List Char} (hword : word ∈ ["last", "this", "next"].map String.toList)
    (hunit : unit ∈ unitWords) : SimpleWords [word, unit]
  | window {number unit : List Char} (hnumber : ∀ d ∈ number, d.isDigit = true)
    (hunit : unit ∈ unitWords) : SimpleWords ["last".toList, number, unit]

section SimplePhrases

variable {now : DateTime} {cs : List Char} {ws : List (List Char)}

private theorem words_unit : ∀ unit ∈ unitWords, words unit = [unit] := by decide

/-- The name of a unit is a word for it. -/
private theorem name_mem_unitWords (unit : Period) : unit.name.toList ∈ unitWords := by
  cases unit <;> decide

private theorem words_number {number : List Char} (hne : number ≠ [])
    (h : ∀ d ∈ number, d.isDigit = true) : words number = [number] :=
  words_of_no_blank hne fun d hd => isBlank_of_isDigit (h d hd)

/-- A distance has the words of a phrase. -/
private theorem simpleWords_of_distance? {d : Period × Int} (h : distance? cs = some d) :
    SimpleWords (words cs) := by
  obtain ⟨⟨n, cs₁⟩, hn, h⟩ := Option.bind_eq_some_iff.1 h
  obtain ⟨cs₂, hblanks, h⟩ := Option.bind_eq_some_iff.1 h
  obtain ⟨⟨unit, cs₃⟩, hunit, h⟩ := Option.bind_eq_some_iff.1 h
  obtain ⟨tail, hblanks', h⟩ := Option.bind_eq_some_iff.1 h
  have htail : words tail ∈ [["ago"], ["from", "now"]].map (·.map String.toList) := by
    split_ifs at h with hago hfromNow
    · rw [hago]
      decide
    · rw [hfromNow]
      decide
  -- Each part that was read is a stretch of the text, with blanks between any two.
  obtain ⟨number, rfl, hne, hnumber⟩ := eq_append_of_count? hn
  obtain ⟨bs, rfl, hbs, hblank⟩ := exists_of_blanks? hblanks
  obtain ⟨word, hword, rfl⟩ := exists_of_countedUnit? hunit
  obtain ⟨bs', rfl, hbs', hblank'⟩ := exists_of_blanks? hblanks'
  rw [words_append_blanks _ _ hbs hblank, words_append_blanks _ _ hbs' hblank',
    words_number hne hnumber, words_unit word hword]
  exact .distance hnumber hword htail

/-- A named period has the words of a phrase. -/
private theorem simpleWords_of_namedPeriod? {d : Period × Int} (h : namedPeriod? cs = some d) :
    SimpleWords (words cs) := by
  obtain ⟨⟨offset, cs₁⟩, hoffset, h⟩ := Option.bind_eq_some_iff.1 h
  obtain ⟨cs₂, hblanks, h⟩ := Option.bind_eq_some_iff.1 h
  obtain ⟨⟨unit, cs₃⟩, hunit, h⟩ := Option.bind_eq_some_iff.1 h
  dsimp only at h
  split_ifs at h with hend
  obtain rfl := List.isEmpty_iff.1 hend
  obtain ⟨⟨word, n⟩, hmem, hword⟩ := List.exists_of_findSome?_eq_some hoffset
  obtain ⟨rest, hrest, heq⟩ := Option.map_eq_some_iff.1 hword
  obtain ⟨-, rfl⟩ := Prod.mk.inj heq
  obtain rfl := eq_append_of_word? hrest
  -- Each part that was read is a stretch of the text, with blanks between them.
  obtain ⟨bs, rfl, hbs, hblank⟩ := exists_of_blanks? hblanks
  obtain rfl := eq_append_of_unit? hunit
  have hnames : ∀ p ∈ [("last", -1), ("this", 0), ("next", (1 : Int))],
      words p.1.toList = [p.1.toList] ∧
        p.1.toList ∈ ["last", "this", "next"].map String.toList := by
    decide
  rw [words_append_blanks _ _ hbs hblank, List.append_nil, words_unit _ (name_mem_unitWords unit),
    (hnames _ hmem).1]
  exact .period (hnames _ hmem).2 (name_mem_unitWords unit)

/-- A window has the words of a phrase. -/
private theorem simpleWords_of_window? {d : Period × Nat} (h : window? cs = some d) :
    SimpleWords (words cs) := by
  obtain ⟨cs₁, hlast, h⟩ := Option.bind_eq_some_iff.1 h
  obtain ⟨cs₂, hblanks, h⟩ := Option.bind_eq_some_iff.1 h
  obtain ⟨⟨n, cs₃⟩, hn, h⟩ := Option.bind_eq_some_iff.1 h
  obtain ⟨cs₄, hblanks', h⟩ := Option.bind_eq_some_iff.1 h
  obtain ⟨⟨unit, cs₅⟩, hunit, h⟩ := Option.bind_eq_some_iff.1 h
  dsimp only at h
  split_ifs at h with hend
  obtain rfl := List.isEmpty_iff.1 hend
  -- Each part that was read is a stretch of the text, with blanks between any two.
  obtain rfl := eq_append_of_word? hlast
  obtain ⟨bs, rfl, hbs, hblank⟩ := exists_of_blanks? hblanks
  obtain ⟨number, rfl, hne, hnumber⟩ := eq_append_of_count? hn
  obtain ⟨bs', rfl, hbs', hblank'⟩ := exists_of_blanks? hblanks'
  obtain ⟨word, hword, rfl⟩ := exists_of_countedUnit? hunit
  have hlast : words "last".toList = ["last".toList] := by decide
  rw [words_append_blanks _ _ hbs hblank, words_append_blanks _ _ hbs' hblank',
    words_number hne hnumber, List.append_nil, words_unit word hword, hlast]
  exact .window hnumber hword

/-- Whatever is read as a phrase without parts has the words of one. -/
theorem simpleWords_of_simplePhrase? {range : DateRange} (h : simplePhrase? now cs = some range) :
    SimpleWords (words cs) := by
  have hdays : ∀ day ∈ ["now", "today", "yesterday", "tomorrow"].map String.toList,
      words day = [day] := by
    decide
  have hday (day : List Char) (hmem : day ∈ ["now", "today", "yesterday", "tomorrow"].map String.toList) :
      SimpleWords (words day) := by
    rw [hdays day hmem]
    exact .day hmem
  unfold simplePhrase? at h
  dsimp only at h
  split_ifs at h with hnow htoday hyesterday htomorrow
  · exact hnow ▸ hday _ (by decide)
  · exact htoday ▸ hday _ (by decide)
  · exact hyesterday ▸ hday _ (by decide)
  · exact htomorrow ▸ hday _ (by decide)
  · split at h
    · rename_i hdistance
      exact simpleWords_of_distance? hdistance
    · rename_i hperiod
      exact simpleWords_of_namedPeriod? hperiod
    · rename_i hwindow
      exact simpleWords_of_window? hwindow
    · cases h

private theorem to_ne_number {number : List Char} (h : ∀ d ∈ number, d.isDigit = true) :
    "to".toList ≠ number := by
  rintro rfl
  exact absurd (h 't' (by decide)) (by decide)

private theorem to_ne_unit : ∀ unit ∈ unitWords, "to".toList ≠ unit := by decide

/-- No word of a simple phrase is `to`. -/
theorem SimpleWords.to_notMem (h : SimpleWords ws) : "to".toList ∉ ws := by
  cases h with
  | @day word hword =>
    have hne : ∀ word ∈ ["now", "today", "yesterday", "tomorrow"].map String.toList,
        "to".toList ∉ [word] := by
      decide
    exact hne word hword
  | @distance number unit tail hnumber hunit htail =>
    have hne : ∀ tail ∈ [["ago"], ["from", "now"]].map (·.map String.toList),
        "to".toList ∉ tail := by
      decide
    simp only [List.mem_cons, not_or]
    exact ⟨to_ne_number hnumber, to_ne_unit unit hunit, hne tail htail⟩
  | @period word unit hword hunit =>
    have hne : ∀ word ∈ ["last", "this", "next"].map String.toList, "to".toList ≠ word := by decide
    simp only [List.mem_cons, not_or]
    exact ⟨hne word hword, to_ne_unit unit hunit, List.not_mem_nil⟩
  | @window number unit hnumber hunit =>
    simp only [List.mem_cons, not_or]
    exact ⟨by decide, to_ne_number hnumber, to_ne_unit unit hunit, List.not_mem_nil⟩

/-- Some letter of a simple phrase stands in no fixed format. -/
theorem SimpleWords.exists_letter (h : SimpleWords ws) :
    ∃ w ∈ ws, w.all isFormatCharacter = false := by
  have hunits : ∀ unit ∈ unitWords, unit.all isFormatCharacter = false := by decide
  cases h with
  | @day word hword =>
    have hdays : ∀ word ∈ ["now", "today", "yesterday", "tomorrow"].map String.toList,
        word.all isFormatCharacter = false := by
      decide
    exact ⟨word, List.mem_cons_self, hdays word hword⟩
  | @distance number unit tail hnumber hunit htail => exact ⟨unit, by simp, hunits unit hunit⟩
  | @period word unit hword hunit => exact ⟨unit, by simp, hunits unit hunit⟩
  | @window number unit hnumber hunit => exact ⟨unit, by simp, hunits unit hunit⟩

end SimplePhrases

/-! ### Ranges -/

section Ranges

variable {cs x y t : List Char}

/-- A text that starts with no blank is not trimmed, whatever follows it. -/
theorem trimStart_append (hx : trimStart x = x) (hne : x ≠ []) : trimStart (x ++ y) = x ++ y := by
  obtain ⟨c, x, rfl⟩ := List.exists_cons_of_ne_nil hne
  have hc : isBlank c = false := by
    rw [trimStart, List.dropWhile_eq_self_iff] at hx
    simpa using hx
  exact List.dropWhile_cons_of_neg (by simp [hc])

/-- Blanks in front are read to the last one. -/
theorem blanks?_append {bs : List Char} (hne : bs ≠ []) (hbs : ∀ b ∈ bs, isBlank b = true)
    (rest : List Char) : blanks? (bs ++ rest) = some (trimStart rest) := by
  obtain ⟨b, bs, rfl⟩ := List.exists_cons_of_ne_nil hne
  obtain ⟨hb, hbs⟩ := List.forall_mem_cons.1 hbs
  rw [List.cons_append, blanks?, if_pos hb, trimStart, List.dropWhile_append_of_pos hbs, trimStart]

/-- What follows the blanks starts with none. -/
theorem trimStart_of_blanks? (h : blanks? cs = some x) : trimStart x = x := by
  obtain ⟨bs, rfl, hne, hbs⟩ := exists_of_blanks? h
  rw [blanks?_append hne hbs] at h
  exact Option.some.inj h

/-- The word `to` stands between white space in front of a text of one line. -/
structure ToBefore (cs rest bs bs' : List Char) : Prop where
  text : cs = bs ++ ("to".toList ++ (bs' ++ rest))
  before : bs ≠ [] ∧ ∀ b ∈ bs, isBlank b = true
  after : bs' ≠ [] ∧ ∀ b ∈ bs', isBlank b = true
  trimmed : trimStart rest = rest
  ne_nil : rest ≠ []
  oneLine : '\n' ∉ rest

/-- The word that divides a phrase is read exactly where it stands between blanks. -/
theorem afterTo?_eq_some_iff {rest : List Char} :
    afterTo? cs = some rest ↔ ∃ bs bs', ToBefore cs rest bs bs' := by
  constructor
  · intro h
    obtain ⟨cs₁, hbefore, h⟩ := Option.bind_eq_some_iff.1 h
    obtain ⟨cs₂, hto, h⟩ := Option.bind_eq_some_iff.1 h
    obtain ⟨after, hafter, h⟩ := Option.bind_eq_some_iff.1 h
    split_ifs at h with hrest
    obtain rfl := Option.some.inj h
    have htrimmed := trimStart_of_blanks? hafter
    obtain ⟨bs, rfl, hbs⟩ := exists_of_blanks? hbefore
    obtain rfl := eq_append_of_word? hto
    obtain ⟨bs', rfl, hbs'⟩ := exists_of_blanks? hafter
    simp only [Bool.or_eq_true, List.isEmpty_iff, List.any_eq_true, decide_eq_true_eq,
      exists_eq_right, not_or] at hrest
    exact ⟨bs, bs', rfl, hbs, hbs', htrimmed, hrest.1, hrest.2⟩
  · rintro ⟨bs, bs', rfl, hbs, hbs', htrimmed, hne, hline⟩
    have hto : trimStart ("to".toList ++ (bs' ++ rest)) = "to".toList ++ (bs' ++ rest) :=
      trimStart_append (by decide) (by decide)
    rw [afterTo?, blanks?_append hbs.1 hbs.2, hto]
    simp only [Option.bind_eq_bind, Option.bind_some, word?_append,
      blanks?_append hbs'.1 hbs'.2, htrimmed]
    simp [hne, hline]

/-- More of the line may follow. -/
theorem isSome_afterTo?_append (h : afterTo? cs = some x) (ht : '\n' ∉ t) :
    (afterTo? (cs ++ t)).isSome = true := by
  obtain ⟨bs, bs', hto⟩ := afterTo?_eq_some_iff.1 h
  refine Option.isSome_iff_exists.2 ⟨x ++ t, afterTo?_eq_some_iff.2 ⟨bs, bs', ?_⟩⟩
  refine ⟨?_, hto.before, hto.after, trimStart_append hto.trimmed hto.ne_nil, by simp [hto.ne_nil],
    by simp [hto.oneLine, ht]⟩
  rw [hto.text]
  simp only [List.append_assoc]

/-- The text is divided where the first word `to` stands. -/
theorem exists_of_splitAtTo (h : splitAtTo cs = some (x, y)) :
    ∃ t, cs = x ++ t ∧ x ≠ [] ∧ afterTo? t = some y ∧
      ∀ p q, x = p ++ q → p ≠ [] → q ≠ [] → afterTo? (q ++ t) = none := by
  -- By induction on the text. The front is the first character alone, or that of the rest behind it.
  induction cs generalizing x with
  | nil => cases h
  | cons c rest ih =>
    rw [splitAtTo] at h
    split_ifs at h with hc
    split at h
    · rename_i after hafter
      obtain ⟨rfl, rfl⟩ := Prod.mk.inj (Option.some.inj h)
      refine ⟨rest, rfl, List.cons_ne_nil _ _, hafter, fun p q hpq hp hq => ?_⟩
      have hlength := congrArg List.length hpq
      have hp' := List.length_pos_of_ne_nil hp
      have hq' := List.length_pos_of_ne_nil hq
      rw [List.length_singleton, List.length_append] at hlength
      omega
    · rename_i hnone
      obtain ⟨⟨x', y'⟩, hsplit, heq⟩ := Option.map_eq_some_iff.1 h
      obtain ⟨rfl, rfl⟩ := Prod.mk.inj heq
      obtain ⟨t, rfl, hx, hy, hfirst⟩ := ih hsplit
      refine ⟨t, rfl, List.cons_ne_nil _ _, hy, fun p q hpq hp hq => ?_⟩
      obtain ⟨d, p, rfl⟩ := List.exists_cons_of_ne_nil hp
      obtain ⟨-, hpq⟩ := List.cons.inj hpq
      cases p with
      | nil =>
        obtain rfl : x' = q := hpq
        exact hnone
      | cons d' p => exact hfirst _ q hpq (List.cons_ne_nil _ _) hq

/-- Both parts are shorter than the text. -/
theorem length_of_splitAtTo (h : splitAtTo cs = some (x, y)) :
    x.length < cs.length ∧ y.length < cs.length := by
  obtain ⟨t, rfl, hx, hy, -⟩ := exists_of_splitAtTo h
  obtain ⟨bs, bs', hto⟩ := afterTo?_eq_some_iff.1 hy
  have hpos := List.length_pos_of_ne_nil hto.before.1
  rw [hto.text]
  simp only [List.length_append]
  omega

/-- A phrase is divided at the first such word that has something before it. -/
theorem splitAtTo_append (hx : x ≠ []) (hline : '\n' ∉ x) (hy : afterTo? t = some y)
    (hfirst : ∀ p q, x = p ++ q → p ≠ [] → q ≠ [] → afterTo? (q ++ t) = none) :
    splitAtTo (x ++ t) = some (x, y) := by
  -- By induction on the first expression. No shorter front of it ends at a word `to`.
  induction x with
  | nil => exact absurd rfl hx
  | cons c x ih =>
    rw [List.mem_cons, not_or] at hline
    rw [List.cons_append, splitAtTo, if_neg (Ne.symm hline.1)]
    cases x with
    | nil => rw [List.nil_append, hy]
    | cons d x =>
      have hnone := hfirst [c] (d :: x) rfl (List.cons_ne_nil _ _) (List.cons_ne_nil _ _)
      have hrest := ih (List.cons_ne_nil _ _) hline.2 fun p q hpq hp hq =>
        hfirst (c :: p) q (by rw [hpq, List.cons_append]) (List.cons_ne_nil _ _) hq
      rw [hnone, hrest]
      rfl

/-- There is no word `to` in front of what follows a text without this word. -/
theorem afterTo?_eq_none {p q : List Char} (hto : "to".toList ∉ words (p ++ q)) (hq : q ≠ [])
    (hlast : isBlank (q.getLast hq) = false) (t : List Char) : afterTo? (q ++ ' ' :: t) = none := by
  refine Option.eq_none_iff_forall_ne_some.2 fun rest h => ?_
  obtain ⟨bs, bs', htext, ⟨hbs, hblank⟩, ⟨hbs', hblank'⟩, -⟩ := afterTo?_eq_some_iff.1 h
  have hword : words "to".toList = ["to".toList] := by decide
  -- The blanks before `to` either end the text, whose last character is no blank, or lie in it, and
  -- then so does the word.
  rcases List.append_eq_append_iff.1 htext with ⟨r, rfl, -⟩ | ⟨q', rfl, hq'⟩
  · have hmem : q.getLast hq ∈ q ++ r := List.mem_append_left _ (List.getLast_mem hq)
    rw [hblank _ hmem] at hlast
    cases hlast
  · match q' with
    | [] => simp at hq'
    | [c] => simp at hq'
    | c :: d :: q'' =>
      obtain ⟨rfl, rfl, hrest⟩ : c = 't' ∧ d = 'o' ∧ q'' ++ ' ' :: t = bs' ++ rest := by
        simpa [eq_comm] using hq'
      refine hto ?_
      change "to".toList ∈ words (p ++ (bs ++ ("to".toList ++ q'')))
      rw [words_append_blanks _ _ hbs hblank]
      refine List.mem_append_right _ ?_
      cases q'' with
      | nil => decide
      | cons b q'' =>
        obtain ⟨b', bs', rfl⟩ := List.exists_cons_of_ne_nil hbs'
        obtain ⟨rfl, -⟩ := List.cons.inj hrest
        rw [words_append_cons _ _ (hblank' b List.mem_cons_self), hword]
        exact List.mem_append_left _ List.mem_cons_self

/-- A phrase of two parts starts with its first word and is divided behind it. -/
theorem exists_of_fromTo? (h : fromTo? cs = some (x, y)) :
    ∃ bs rest, cs = "from".toList ++ (bs ++ rest) ∧ splitAtTo rest = some (x, y) := by
  obtain ⟨cs₁, hfrom, hrest⟩ := Option.bind_eq_some_iff.1 h
  obtain ⟨rest, hblanks, hsplit⟩ := Option.bind_eq_some_iff.1 hrest
  obtain ⟨bs, rfl, -⟩ := exists_of_blanks? hblanks
  exact ⟨bs, rest, eq_append_of_word? hfrom, hsplit⟩

/-- The parts of a phrase are shorter than the phrase. -/
theorem length_of_fromTo? (h : fromTo? cs = some (x, y)) :
    x.length < cs.length ∧ y.length < cs.length := by
  obtain ⟨bs, rest, rfl, hsplit⟩ := exists_of_fromTo? h
  obtain ⟨hx, hy⟩ := length_of_splitAtTo hsplit
  simp only [List.length_append]
  omega

/-- Ranges nest at most as deeply as the text is long. -/
theorem phrase?_of_length_le (now : DateTime) {depth : Nat} (h : cs.length ≤ depth) :
    phrase? now depth cs = phrase? now cs.length cs := by
  -- Both expressions of a range are shorter than the range, so two depths that have room for the
  -- text agree, by induction on one of them.
  have hmeet : ∀ depth depth' (cs : List Char), cs.length ≤ depth → cs.length ≤ depth' →
      phrase? now depth cs = phrase? now depth' cs := by
    intro depth
    induction depth with
    | zero =>
      intro depth' cs h _
      obtain rfl := List.eq_nil_of_length_eq_zero (Nat.le_zero.1 h)
      cases depth' <;> rfl
    | succ depth ih =>
      intro depth' cs h h'
      cases depth' with
      | zero =>
        obtain rfl := List.eq_nil_of_length_eq_zero (Nat.le_zero.1 h')
        rfl
      | succ depth' =>
        rw [phrase?, phrase?]
        cases hsplit : fromTo? cs with
        | none => rfl
        | some parts =>
          obtain ⟨x, y⟩ := parts
          obtain ⟨hx, hy⟩ := length_of_fromTo? hsplit
          dsimp only
          rw [ih depth' x (by omega) (by omega), ih depth' y (by omega) (by omega)]
  exact hmeet depth cs.length cs h le_rfl

end Ranges

/-! ## Meaning -/

section Meaning

variable {now : DateTime} {cs : List Char}

/-- What a trimmed text stands for. -/
def meaning? (now : DateTime) (cs : List Char) : Option DateRange :=
  (fixedFormat? cs).orElse fun _ => phrase? now cs.length (lower cs)

/-- A text that needs no trimming is read for what it means. -/
theorem parseDate_of_trimmed {text : String} (h : Text.trim text.toList = text.toList) :
    parseDate text now = match meaning? now text.toList with
      | some range => .ok range
      | none => .error (.unparseableDate text) := by
  rw [parseDate, h]
  rfl

/-- No phrase is written with the characters of fixed formats only. -/
theorem phrase?_of_format (h : ∀ c ∈ cs, isFormatCharacter c = true) (depth : Nat) :
    phrase? now depth cs = none := by
  have hsimple : simplePhrase? now cs = none := by
    refine Option.eq_none_iff_forall_ne_some.2 fun range hrange => ?_
    obtain ⟨w, hw, hletter⟩ := (simpleWords_of_simplePhrase? hrange).exists_letter
    have hall : w.all isFormatCharacter = true :=
      List.all_eq_true.2 fun c hc => h c (mem_of_mem_words hw hc)
    rw [hall] at hletter
    cases hletter
  -- A range starts with a letter that no fixed format has.
  cases depth with
  | zero => exact hsimple
  | succ depth =>
    rw [phrase?]
    cases hsplit : fromTo? cs with
    | none => exact hsimple
    | some parts =>
      obtain ⟨bs, rest, rfl, -⟩ := exists_of_fromTo? hsplit
      exact absurd (h 'f' (by simp)) (by decide)

/-- The characters of formats are those of formats in lower case. -/
theorem isFormatCharacter_lower (h : ∀ c ∈ cs, isFormatCharacter c = true) :
    ∀ c ∈ lower cs, isFormatCharacter c = true := by
  rw [List.forall_mem_map]
  intro c hc
  rw [lowerLetter_congr isFormatCharacter (by decide) c]
  exact h c hc

/-- A part of a range stands for what it stands for alone, unless it is a point in time with `T` and
without an offset, which stands for nothing. -/
theorem meaning?_lower {depth : Nat} (hdepth : cs.length ≤ depth) :
    ((fixedFormat? (lower cs)).orElse fun _ => phrase? now depth (lower cs)) =
      if MarkedInstant cs then none else meaning? now cs := by
  have hlength : (lower cs).length = cs.length := List.length_map _
  have hphrase : phrase? now depth (lower cs) = phrase? now cs.length (lower cs) := by
    rw [phrase?_of_length_le now (hlength.trans_le hdepth), hlength]
  rw [fixedFormat?_lower, meaning?, hphrase]
  split_ifs with hmarked
  · have hformat := isFormatCharacter_lower (isFormatCharacter_of_markedInstant hmarked)
    rw [phrase?_of_format hformat]
    rfl
  · rfl

/-! ### Lines -/

/-- A text of one line without white space at its ends. -/
structure IsLine (cs : List Char) : Prop where
  trimmed : Text.trim cs = cs
  oneLine : '\n' ∉ cs

namespace IsLine

/-- A line starts with no blank. -/
theorem trimStart_eq (h : IsLine cs) : trimStart cs = cs := by
  have hsuffix : trimStart cs <:+ cs := List.dropWhile_suffix _
  refine hsuffix.eq_of_length_le ?_
  have hlength : (Text.trim cs).length ≤ (trimStart cs).length :=
    (List.rdropWhile_prefix isBlank (trimStart cs)).length_le
  rwa [h.trimmed] at hlength

/-- A line ends with no blank. -/
theorem isBlank_getLast (h : IsLine cs) (hne : cs ≠ []) : isBlank (cs.getLast hne) = false := by
  have htrim : cs.rdropWhile isBlank = cs := by
    have htrimmed := h.trimmed
    rwa [Text.trim, h.trimStart_eq] at htrimmed
  simpa using List.rdropWhile_eq_self_iff.1 htrim hne

/-- A line at the end of a text ends this text without white space. -/
theorem trim_append {front : List Char} (h : IsLine cs) (hfront : trimStart front = front)
    (hne : front ≠ []) (hcs : cs ≠ []) : Text.trim (front ++ cs) = front ++ cs := by
  rw [Text.trim, trimStart_append hfront hne]
  refine List.rdropWhile_eq_self_iff.2 fun hl => ?_
  rw [List.getLast_append_of_ne_nil _ hcs, h.isBlank_getLast hcs]
  exact Bool.false_ne_true

/-- A line in lower case is a line. -/
theorem lower (h : IsLine cs) : IsLine (lower cs) := by
  have hend (cs : List Char) : Text.trimEnd (Calendar.lower cs) = Calendar.lower (Text.trimEnd cs) := by
    have hstart := trimStart_lower cs.reverse
    unfold trimStart at hstart
    rw [Text.trimEnd, Text.trimEnd, ← List.map_reverse, hstart]
    exact List.map_reverse.symm
  refine ⟨?_, ?_⟩
  · rw [Text.trim, trimStart_lower, hend]
    exact congrArg Calendar.lower h.trimmed
  · intro hmem
    obtain ⟨c, hc, heq⟩ := List.mem_map.1 hmem
    rw [(lowerLetter_eq_iff (by decide)).1 heq] at hc
    exact h.oneLine hc

end IsLine

/-- Only texts that are not empty stand for something. -/
theorem ne_nil_of_meaning? {range : DateRange} (h : meaning? now cs = some range) : cs ≠ [] := by
  rintro rfl
  have hnone : fixedFormat? [] = none := by decide
  have hphrase : phrase? now 0 [] = none := phrase?_of_format (by simp) 0
  rw [meaning?, hnone] at h
  exact Option.some_ne_none _ (h.symm.trans hphrase)

end Meaning

/-! ### Ranges of two expressions -/

section FromTo

variable {now : DateTime} {x y : List Char} {a b : DateRange}

/-- No simple phrase starts with an `f`. -/
private theorem simplePhrase?_f (now : DateTime) (cs : List Char) :
    simplePhrase? now ('f' :: cs) = none := by
  have hdistance : distance? ('f' :: cs) = none := rfl
  have hperiod : namedPeriod? ('f' :: cs) = none := rfl
  have hwindow : window? ('f' :: cs) = none := rfl
  simp [simplePhrase?, hdistance, hperiod, hwindow]

/-- No fixed format has an `f`. -/
private theorem fixedFormat?_f (cs : List Char) : fixedFormat? ('f' :: cs) = none := by
  refine Option.eq_none_iff_forall_ne_some.2 fun range h => ?_
  exact absurd (isFormatCharacter_of_fixedFormat? h 'f' List.mem_cons_self) (by decide)

/-- An expression with a word `to` is itself a range. -/
theorem exists_of_to_mem (ha : meaning? now x = some a) (hto : "to".toList ∈ words (lower x)) :
    ∃ rest, lower x = 'f' :: rest := by
  have hfixed : fixedFormat? x = none := by
    refine Option.eq_none_iff_forall_ne_some.2 fun range h => ?_
    have hformat := isFormatCharacter_lower (isFormatCharacter_of_fixedFormat? h)
    exact absurd (hformat 'o' (mem_of_mem_words hto (by decide))) (by decide)
  have hphrase : phrase? now x.length (lower x) = some a := by
    rwa [meaning?, hfixed] at ha
  have hsimple : simplePhrase? now (lower x) ≠ some a := fun h =>
    (simpleWords_of_simplePhrase? h).to_notMem hto
  -- What is left are ranges, which start with `from`.
  cases hlength : x.length with
  | zero =>
    rw [hlength] at hphrase
    exact absurd hphrase hsimple
  | succ depth =>
    rw [hlength, phrase?] at hphrase
    cases hsplit : fromTo? (lower x) with
    | none =>
      rw [hsplit] at hphrase
      exact absurd hphrase hsimple
    | some parts =>
      obtain ⟨bs, rest, hfrom, -⟩ := exists_of_fromTo? hsplit
      exact ⟨_, hfrom⟩

/-- The first part of a range is no range. -/
theorem phrase?_from_f (depth : Nat) {t : List Char} (hline : '\n' ∉ t) :
    phrase? now depth ("from".toList ++ ([' '] ++ 'f' :: t)) = none := by
  have hsimple : simplePhrase? now ("from".toList ++ ([' '] ++ 'f' :: t)) = none :=
    simplePhrase?_f now _
  cases depth with
  | zero => exact hsimple
  | succ depth =>
    rw [phrase?]
    cases hparts : fromTo? ("from".toList ++ ([' '] ++ 'f' :: t)) with
    | none => exact hsimple
    | some parts =>
      obtain ⟨first, last⟩ := parts
      have hsplit : splitAtTo ('f' :: t) = some (first, last) := hparts
      obtain ⟨after, htext, hne, -, hfirst⟩ := exists_of_splitAtTo hsplit
      obtain ⟨c, first, rfl⟩ := List.exists_cons_of_ne_nil hne
      obtain ⟨rfl, rfl⟩ := List.cons.inj htext
      have hafter : '\n' ∉ after := fun hmem => hline (List.mem_append_right _ hmem)
      -- A word `to` inside the first part would have divided the text before.
      have hnested : fromTo? ('f' :: first) = none := by
        refine Option.eq_none_iff_forall_ne_some.2 fun inner h => ?_
        obtain ⟨bs, rest, hfrom, hinner⟩ := exists_of_fromTo? h
        obtain ⟨u, rfl, -, hu, -⟩ := exists_of_splitAtTo hinner
        have hune : u ≠ [] := by
          rintro rfl
          cases hu
        have hnone := hfirst ("from".toList ++ (bs ++ inner.1)) u
          (by rw [hfrom]; simp only [List.append_assoc]) (by simp) hune
        have hsome := isSome_afterTo?_append hu hafter
        rw [hnone] at hsome
        cases hsome
      have hpart : phrase? now depth ('f' :: first) = none := by
        cases depth with
        | zero => exact simplePhrase?_f now first
        | succ depth =>
          rw [phrase?, hnested]
          exact simplePhrase?_f now first
      dsimp only
      rw [fixedFormat?_f, hpart]
      rfl

/-- Two texts of one line are divided at the word `to` between them. -/
theorem fromTo?_of_lines (hx : IsLine x) (hxne : x ≠ []) (hto : "to".toList ∉ words x)
    (hy : IsLine y) (hyne : y ≠ []) :
    fromTo? ("from".toList ++ ([' '] ++ (x ++ ' ' :: ("to".toList ++ ([' '] ++ y))))) =
      some (x, y) := by
  have hblank : ∀ b ∈ [' '], isBlank b = true := List.forall_mem_singleton.2 (by decide)
  have hafter : afterTo? (' ' :: ("to".toList ++ ([' '] ++ y))) = some y :=
    afterTo?_eq_some_iff.2 ⟨[' '], [' '], rfl, ⟨by simp, hblank⟩, ⟨by simp, hblank⟩,
      hy.trimStart_eq, hyne, hy.oneLine⟩
  have hsplit : splitAtTo (x ++ ' ' :: ("to".toList ++ ([' '] ++ y))) = some (x, y) := by
    -- The first expression has no `to` of its own, so no shorter front of it is split off.
    refine splitAtTo_append hxne hx.oneLine hafter fun p q hpq _ hq => ?_
    subst hpq
    refine afterTo?_eq_none hto hq ?_ _
    have hlast := hx.isBlank_getLast hxne
    rwa [List.getLast_append_of_ne_nil _ hq] at hlast
  rw [fromTo?, word?_append, Option.bind_eq_bind, Option.bind_some,
    blanks?_append (by simp) hblank, Option.bind_some, trimStart_append hx.trimStart_eq hxne, hsplit]

/-- Two expressions as a range stand for the range from the start of the first one to the end of the
second one, unless the first one is a range itself or one of them is a point in time with `T` and
without an offset. -/
theorem meaning?_fromTo (hx : IsLine x) (hy : IsLine y) (ha : meaning? now x = some a)
    (hb : meaning? now y = some b) :
    meaning? now ("from ".toList ++ (x ++ (" to ".toList ++ y))) =
      if "to".toList ∈ words (lower x) ∨ MarkedInstant x ∨ MarkedInstant y then none
      else some (.span a b) := by
  have hlower : lower ("from ".toList ++ (x ++ (" to ".toList ++ y))) =
      "from".toList ++ ([' '] ++ (lower x ++ ' ' :: ("to".toList ++ ([' '] ++ lower y)))) := by
    simp only [lower, List.map_append]
    rfl
  have hfixed : fixedFormat? ("from ".toList ++ (x ++ (" to ".toList ++ y))) = none :=
    fixedFormat?_f _
  rw [meaning?, hfixed, hlower]
  change phrase? now _ _ = _
  -- The text is divided at its first `to`. If this is one of the first expression, which then is a
  -- range itself, the part before it is no expression.
  by_cases hto : "to".toList ∈ words (lower x)
  · rw [if_pos (.inl hto)]
    obtain ⟨rest, hrest⟩ := exists_of_to_mem ha hto
    have hline : '\n' ∉ rest ++ ' ' :: ("to".toList ++ ([' '] ++ lower y)) := by
      have hlinex := hx.lower.oneLine
      have hliney := hy.lower.oneLine
      rw [hrest] at hlinex
      simp_all
    rw [hrest]
    exact phrase?_from_f _ hline
  · obtain ⟨depth, hdepth⟩ : ∃ depth,
        ("from ".toList ++ (x ++ (" to ".toList ++ y))).length = depth + 1 := ⟨_, rfl⟩
    have hxne : lower x ≠ [] := by simpa using ne_nil_of_meaning? ha
    have hyne : lower y ≠ [] := by simpa using ne_nil_of_meaning? hb
    have hparts := fromTo?_of_lines hx.lower hxne hto hy.lower hyne
    have hlengths : x.length ≤ depth ∧ y.length ≤ depth := by
      have hfrom : "from ".toList.length = 5 := by decide
      simp only [List.length_append, hfrom] at hdepth
      omega
    rw [hdepth, phrase?, hparts]
    dsimp only
    -- Phrases are read in lower case, where a marked point in time has lost its mark.
    rw [meaning?_lower hlengths.1, meaning?_lower hlengths.2, ha, hb]
    have hcases : ("to".toList ∈ words (lower x) ∨ MarkedInstant x ∨ MarkedInstant y) ↔
        MarkedInstant x ∨ MarkedInstant y := or_iff_right hto
    simp only [hcases]
    by_cases hmarkx : MarkedInstant x <;> by_cases hmarky : MarkedInstant y <;>
      simp [hmarkx, hmarky]

end FromTo

/-- A range between two expressions is the one from the start of the first to the end of the second
one. It cannot be read where the first expression has a word `to`, in whatever case, and where one of
them is a point in time with `T` and without an offset: phrases are read in lower case. -/
theorem parseDate_fromTo (now : DateTime) {x y : String} {a b : DateRange} (hx : IsLine x.toList)
    (hy : IsLine y.toList) (ha : parseDate x now = .ok a) (hb : parseDate y now = .ok b) :
    parseDate ("from " ++ x ++ " to " ++ y) now =
      if "to".toList ∈ words (lower x.toList) ∨ MarkedInstant x.toList ∨ MarkedInstant y.toList then
        .error (.unparseableDate ("from " ++ x ++ " to " ++ y))
      else parseBounds x y now := by
  have hmeaning {text : String} {range : DateRange} (htext : IsLine text.toList)
      (h : parseDate text now = .ok range) : meaning? now text.toList = some range := by
    rw [parseDate_of_trimmed htext.trimmed] at h
    split at h
    · rename_i range' hrange
      rw [hrange, Except.ok.inj h]
    · cases h
  have hbounds : parseBounds x y now = .ok (.span a b) := by
    rw [parseBounds, ha, hb]
    rfl
  have htext : ("from " ++ x ++ " to " ++ y).toList =
      "from ".toList ++ (x.toList ++ (" to ".toList ++ y.toList)) := by
    simp only [String.toList_append, List.append_assoc]
  have htrimmed : Text.trim ("from " ++ x ++ " to " ++ y).toList =
      ("from " ++ x ++ " to " ++ y).toList := by
    have hstart : trimStart ("from ".toList ++ (x.toList ++ " to ".toList)) =
        "from ".toList ++ (x.toList ++ " to ".toList) :=
      trimStart_append (by decide) (by decide)
    have htrim := hy.trim_append hstart (by simp) (ne_nil_of_meaning? (hmeaning hy hb))
    rw [htext]
    simpa only [List.append_assoc] using htrim
  have hfromTo := meaning?_fromTo hx hy (hmeaning hx ha) (hmeaning hy hb)
  rw [parseDate_of_trimmed htrimmed, htext, hfromTo, hbounds]
  split_ifs
  · rfl
  · rfl

/-- Half past one on a Wednesday. -/
private def afternoon : DateTime := ⟨⟨2024, 5, 15⟩, ⟨13, 30, 0, 0⟩⟩

/-- The start of a range may be written in any case and its end may have an offset. -/
theorem parseDate_fromTo_lastWeek :
    parseDate "from Last Week to 2024-05-31T10:00:00Z" afternoon =
      parseBounds "Last Week" "2024-05-31T10:00:00Z" afternoon ∧
    parseBounds "Last Week" "2024-05-31T10:00:00Z" afternoon =
      .ok ⟨⟨⟨2024, 5, 6⟩, .midnight⟩, ⟨⟨2024, 5, 31⟩, ⟨10, 0, 0, 0⟩⟩⟩ := by
  have hstart : parseDate "Last Week" afternoon =
      .ok ⟨⟨⟨2024, 5, 6⟩, .midnight⟩, ⟨⟨2024, 5, 12⟩, .lastMillisecond⟩⟩ := by
    decide +kernel
  have hend : parseDate "2024-05-31T10:00:00Z" afternoon =
      .ok (.instant ⟨⟨2024, 5, 31⟩, ⟨10, 0, 0, 0⟩⟩) := by
    decide +kernel
  have h := parseDate_fromTo afternoon (x := "Last Week") (y := "2024-05-31T10:00:00Z")
    ⟨by decide, by decide⟩ ⟨by decide, by decide⟩ hstart hend
  have htext : "from " ++ "Last Week" ++ " to " ++ "2024-05-31T10:00:00Z" =
      "from Last Week to 2024-05-31T10:00:00Z" := by
    decide
  rw [htext, if_neg (by decide +kernel)] at h
  refine ⟨h, ?_⟩
  rw [parseBounds, hstart, hend]
  rfl

/-- Neither a point in time with `T` nor a range with `TO` is the start of a range, though both can be
read alone and have no word `to`. -/
theorem parseDate_fromTo_capital :
    (IsLine "2024-01-01T10:00:00".toList ∧ IsLine "2024-01-31".toList ∧
      "to".toList ∉ words "2024-01-01T10:00:00".toList ∧
      parseBounds "2024-01-01T10:00:00" "2024-01-31" afternoon =
        .ok ⟨⟨⟨2024, 1, 1⟩, ⟨10, 0, 0, 0⟩⟩, ⟨⟨2024, 1, 31⟩, .lastMillisecond⟩⟩ ∧
      parseDate "from 2024-01-01T10:00:00 to 2024-01-31" afternoon =
        .error (.unparseableDate "from 2024-01-01T10:00:00 to 2024-01-31")) ∧
    IsLine "from yesterday TO today".toList ∧
      "to".toList ∉ words "from yesterday TO today".toList ∧
      parseBounds "from yesterday TO today" "tomorrow" afternoon =
        .ok ⟨⟨⟨2024, 5, 14⟩, .midnight⟩, ⟨⟨2024, 5, 16⟩, .lastMillisecond⟩⟩ ∧
      parseDate "from from yesterday TO today to tomorrow" afternoon =
        .error (.unparseableDate "from from yesterday TO today to tomorrow") := by
  refine ⟨⟨⟨by decide, by decide⟩, ⟨by decide, by decide⟩, by decide, ?_, ?_⟩, ⟨by decide, by decide⟩,
    by decide, ?_, ?_⟩ <;> decide +kernel

end MetricLayer.Calendar
