import MetricLayer.Calendar.Phrase
import Mathlib.Data.List.DropRight

/-!
# The case of letters in fixed formats

A date phrase is read in lower case, and so are the fixed formats in it. The letters of these formats
are the `T` between day and time and the `Z` of an offset. The format with an offset takes small
letters too. A point in time without an offset has to have a capital `T`, so that it has no meaning
in lower case where it is written with one. All other texts keep their meaning.

- `Reading` — a reader finds the same in a text and in its lower case, and reads only some
  characters;
- `isNumeral`, `isFormatCharacter` — the characters of formats without and with letters;
- `MarkedInstant` — a point in time with `T` and without an offset;
- `fixedFormat?_lower` — the meaning of a text in lower case.
-/

namespace MetricLayer.Calendar

open Text (isBlank trimStart)

/-- A text in lower case. -/
abbrev lower (cs : List Char) : List Char := cs.map lowerLetter

/-! ## Characters -/

/-- The characters that have a small letter. The last one is the Kelvin sign. -/
def capitals : List Char := "ABCDEFGHIJKLMNOPQRSTUVWXYZ\u212a".toList

/-- A character is a capital letter or its own lower case. -/
theorem mem_capitals_or_lowerLetter (c : Char) : c ∈ capitals ∨ lowerLetter c = c := by
  unfold lowerLetter
  by_cases hupper : 'A' ≤ c ∧ c ≤ 'Z'
  · have hletters : ∀ n < 91, 65 ≤ n → Char.ofNat n ∈ capitals := by decide
    rw [← Char.ofNat_toNat c]
    exact .inl (hletters c.toNat (Nat.lt_succ_of_le hupper.2) hupper.1)
  · rw [if_neg hupper]
    split_ifs with hkelvin
    · refine .inl ?_
      rw [← Char.ofNat_toNat c, hkelvin]
      decide
    · exact .inr rfl

/-- What is the same for capital and small letters is the same for all characters. -/
theorem lowerLetter_congr {α : Type} (f : Char → α)
    (h : (capitals.map fun c => f (lowerLetter c)) = capitals.map f) (c : Char) :
    f (lowerLetter c) = f c := by
  rcases mem_capitals_or_lowerLetter c with hc | hc
  · exact List.map_inj_left.1 h c hc
  · rw [hc]

/-- Lower case makes digits of digits only. -/
@[simp]
theorem isDigit_lowerLetter (c : Char) : (lowerLetter c).isDigit = c.isDigit :=
  lowerLetter_congr Char.isDigit (by decide) c

/-- Lower case makes blanks of blanks only. -/
@[simp]
theorem isBlank_lowerLetter (c : Char) : isBlank (lowerLetter c) = isBlank c :=
  lowerLetter_congr isBlank (by decide) c

/-- Lower case leaves no capital letter. -/
theorem lowerLetter_notMem_capitals (c : Char) : lowerLetter c ∉ capitals := by
  rcases mem_capitals_or_lowerLetter c with hc | hc
  · have hcapitals : capitals.all fun c => lowerLetter c ∉ capitals := by decide
    simpa using List.all_eq_true.1 hcapitals c hc
  · have hcapitals : capitals.all fun c => lowerLetter c ≠ c := by decide
    rw [hc]
    intro hmem
    simpa [hc] using List.all_eq_true.1 hcapitals c hmem

/-- A character below the letters is no letter in lower case. -/
theorem lowerLetter_eq_iff {c d : Char} (hd : d.toNat < 65) : lowerLetter c = d ↔ c = d := by
  refine iff_of_eq (lowerLetter_congr (· = d) (List.map_congr_left fun c hc => ?_) c)
  have habove : capitals.all fun c => 65 ≤ c.toNat ∧ 65 ≤ (lowerLetter c).toNat := by decide
  obtain ⟨hcapital, hsmall⟩ := of_decide_eq_true (List.all_eq_true.1 habove c hc)
  have hne : c ≠ d := by
    rintro rfl
    omega
  have hne' : lowerLetter c ≠ d := by
    rintro rfl
    omega
  rw [eq_false hne, eq_false hne']

/-- A character below the letters starts a text that starts with it in lower case. -/
private theorem exists_of_lower_eq_cons {c : Char} {cs rest : List Char} (hc : c.toNat < 65)
    (h : lower cs = c :: rest) : ∃ rest', cs = c :: rest' := by
  obtain ⟨d, rest', rfl, hd, -⟩ := List.map_eq_cons_iff.1 h
  exact ⟨rest', by rw [(lowerLetter_eq_iff hc).1 hd]⟩

/-- Digits are the characters from zero to nine. -/
theorem isDigit_iff (c : Char) : c.isDigit = true ↔ 48 ≤ c.toNat ∧ c.toNat ≤ 57 := by
  rw [Char.isDigit, Bool.and_eq_true, decide_eq_true_iff, decide_eq_true_iff]
  exact Iff.rfl

/-- Digits have no other case. -/
theorem lowerLetter_of_isDigit {c : Char} (h : c.isDigit = true) : lowerLetter c = c := by
  refine (lowerLetter_eq_iff ?_).2 rfl
  rw [isDigit_iff] at h
  omega

/-- No digit is white space. -/
theorem isBlank_of_isDigit {c : Char} (h : c.isDigit = true) : isBlank c = false := by
  rw [isDigit_iff] at h
  simp [isBlank, Text.inRanges, Text.blankRanges]
  omega

/-- Blanks in front are dropped alike in either case. -/
theorem trimStart_lower (cs : List Char) : trimStart (lower cs) = lower (trimStart cs) := by
  rw [trimStart, List.dropWhile_map]
  congr 2
  funext c
  exact isBlank_lowerLetter c

/-- A character of formats without letters. -/
def isNumeral (c : Char) : Bool := c.isDigit || isBlank c || "-+:.".toList.contains c

/-- A character of any format. The last one is the minus sign. -/
def isFormatCharacter (c : Char) : Bool := isNumeral c || "TtZz\u2212".toList.contains c

/-! ## Readers -/

/-- The first result is read from a text, from the given characters only, and the second one is the
same result for the text in lower case. -/
structure Reading {α : Type} (allowed : Char → Bool) (cs : List Char)
    (x y : Option (α × List Char)) : Prop where
  lowered : y = x.map (Prod.map id lower)
  front {a : α} {rest : List Char} (h : x = some (a, rest)) :
    ∃ front, cs = front ++ rest ∧ ∀ c ∈ front, allowed c = true

namespace Reading

variable {α β : Type} {allowed : Char → Bool} {cs : List Char} {x y : Option (α × List Char)}

theorem none : Reading allowed cs (none : Option (α × List Char)) none := ⟨rfl, nofun⟩

theorem pure (a : α) (cs : List Char) : Reading allowed cs (pure (a, cs)) (pure (a, lower cs)) := by
  refine ⟨rfl, fun h => ⟨[], ?_, nofun⟩⟩
  obtain ⟨-, rfl⟩ := Prod.mk.inj (Option.some.inj h)
  rfl

/-- More characters may be allowed. -/
theorem mono {allowed' : Char → Bool} (h : Reading allowed cs x y)
    (hallowed : ∀ c, allowed c = true → allowed' c = true) : Reading allowed' cs x y := by
  refine ⟨h.lowered, fun hx => ?_⟩
  obtain ⟨front, hcs, hfront⟩ := h.front hx
  exact ⟨front, hcs, fun c hc => hallowed c (hfront c hc)⟩

/-- What is made of the characters of numbers is made of those of formats. -/
theorem format (h : Reading isNumeral cs x y) : Reading isFormatCharacter cs x y :=
  h.mono fun _ hc => Bool.or_eq_true_iff.2 (.inl hc)

/-- Some characters are read first. -/
theorem prepend (front : List Char) (hfront : ∀ c ∈ front, allowed c = true)
    (h : Reading allowed cs x y) : Reading allowed (front ++ cs) x y := by
  refine ⟨h.lowered, fun hx => ?_⟩
  obtain ⟨front', rfl, hfront'⟩ := h.front hx
  exact ⟨front ++ front', by rw [List.append_assoc], List.forall_mem_append.2 ⟨hfront, hfront'⟩⟩

/-- Readers that go on alike are read alike. -/
theorem bind {f g : α × List Char → Option (β × List Char)} (h : Reading allowed cs x y)
    (hfg : ∀ a rest, Reading allowed rest (f (a, rest)) (g (a, lower rest))) :
    Reading allowed cs (x >>= f) (y >>= g) := by
  obtain rfl := h.lowered
  cases hx : x with
  | none => exact none
  | some p =>
    obtain ⟨front, rfl, hfront⟩ := h.front hx
    exact (hfg p.1 p.2).prepend front hfront

/-- What is found says which value it stands for. -/
theorem map (f : α → β) (h : Reading allowed cs x y) :
    Reading allowed cs (x.map fun p => (f p.1, p.2)) (y.map fun p => (f p.1, p.2)) := by
  obtain rfl := h.lowered
  refine ⟨by cases x <;> rfl, fun hx => ?_⟩
  obtain ⟨p, hp, heq⟩ := Option.map_eq_some_iff.1 hx
  obtain ⟨-, rfl⟩ := Prod.mk.inj heq
  exact h.front hp

/-- A value that may not exist is found without reading. -/
theorem value {z : Option β} {f g : β → Option (α × List Char)}
    (hfg : ∀ b, Reading allowed cs (f b) (g b)) : Reading allowed cs (z >>= f) (z >>= g) := by
  cases z with
  | none => exact none
  | some b => exact hfg b

/-- White space is skipped. -/
theorem skip (hallowed : ∀ c, isBlank c = true → allowed c = true)
    (h : Reading allowed (trimStart cs) x y) : Reading allowed cs x y := by
  have hcs : cs = cs.takeWhile isBlank ++ trimStart cs := List.takeWhile_append_dropWhile.symm
  rw [hcs]
  exact h.prepend _ fun c hc => hallowed c (List.mem_takeWhile_imp hc)

/-- A character that is no letter is read. -/
theorem char {c : Char} {f g : List Char → Option (α × List Char)} (hc : c.toNat < 65)
    (hallowed : allowed c = true) (hfg : ∀ rest, Reading allowed rest (f rest) (g (lower rest))) :
    Reading allowed cs (char? c cs >>= f) (char? c (lower cs) >>= g) := by
  cases cs with
  | nil => exact none
  | cons d rest =>
    rw [lower, List.map_cons, char?, char?]
    simp only [lowerLetter_eq_iff hc]
    split_ifs with hd
    · rw [hd]
      exact (hfg rest).prepend [c] (by simpa using hallowed)
    · exact none

end Reading

/-- Digits that are read stand in front, and are as many as allowed. -/
theorem eq_append_of_digits? {least most : Nat} {cs ds rest : List Char}
    (h : digits? least most cs = some (ds, rest)) :
    cs = ds ++ rest ∧ least ≤ ds.length ∧ ∀ c ∈ ds, c.isDigit = true := by
  unfold digits? at h
  dsimp only at h
  split_ifs at h with hlength
  obtain ⟨rfl, rfl⟩ := Prod.mk.inj (Option.some.inj h)
  have hprefix := (List.takeWhile_prefix Char.isDigit (l := cs.take most)).trans
    (List.take_prefix most cs)
  exact ⟨(List.prefix_iff_eq_append.1 hprefix).symm, Nat.le_of_not_lt hlength,
    fun c hc => List.mem_takeWhile_imp hc⟩

/-- Digits are read alike in either case. -/
theorem reading_digits? (least most : Nat) (cs : List Char) :
    Reading isNumeral cs (digits? least most cs) (digits? least most (lower cs)) := by
  -- Digits are no letters, so the text in lower case has the same ones.
  have hfound : ((lower cs).take most).takeWhile Char.isDigit =
      (cs.take most).takeWhile Char.isDigit := by
    rw [lower, ← List.map_take, List.takeWhile_map]
    have hdigit : Char.isDigit ∘ lowerLetter = Char.isDigit := funext isDigit_lowerLetter
    rw [hdigit]
    refine (List.map_congr_left fun c hc => ?_).trans (List.map_id _)
    exact lowerLetter_of_isDigit (List.mem_takeWhile_imp hc)
  refine ⟨?_, fun h => ?_⟩
  · unfold digits?
    dsimp only
    rw [hfound]
    split_ifs
    · rfl
    · simp [List.map_drop]
  · obtain ⟨rfl, -, hdigits⟩ := eq_append_of_digits? h
    exact ⟨_, rfl, fun c hc => by simp [isNumeral, hdigits c hc]⟩

/-- A run of digits is read alike in either case. -/
theorem reading_digitRun? (cs : List Char) :
    Reading isNumeral cs (digitRun? cs) (digitRun? (lower cs)) := by
  unfold digitRun?
  rw [lower, List.length_map]
  exact reading_digits? 1 cs.length cs

private theorem isNumeral_of_isBlank (c : Char) (h : isBlank c = true) : isNumeral c = true := by
  simp [isNumeral, h]

/-- A short number is read alike in either case. -/
theorem reading_shortNumber? (cs : List Char) :
    Reading isNumeral cs (shortNumber? cs) (shortNumber? (lower cs)) := by
  unfold shortNumber?
  rw [trimStart_lower]
  exact ((reading_digits? 1 2 _).map digitsValue).skip isNumeral_of_isBlank

/-- A year is read alike in either case. -/
theorem reading_year? (cs : List Char) : Reading isNumeral cs (year? cs) (year? (lower cs)) := by
  refine .skip isNumeral_of_isBlank ?_
  unfold year?
  rw [trimStart_lower]
  generalize trimStart cs = cs
  have hminus : lowerLetter '-' = '-' := by decide
  have hplus : lowerLetter '+' = '+' := by decide
  -- Signs are no letters either, so both texts have the same sign or none.
  split
  · rw [lower, List.map_cons, hminus]
    exact ((reading_digitRun? _).map fun ds => -(digitsValue ds : Int)).prepend
      ['-'] (List.forall_mem_singleton.2 (by decide))
  · rw [lower, List.map_cons, hplus]
    exact ((reading_digitRun? _).map fun ds => (digitsValue ds : Int)).prepend
      ['+'] (List.forall_mem_singleton.2 (by decide))
  · rename_i hnotMinus hnotPlus
    split
    · rename_i heq
      obtain ⟨rest, rfl⟩ := exists_of_lower_eq_cons (by decide) heq
      exact absurd rfl (hnotMinus rest)
    · rename_i heq
      obtain ⟨rest, rfl⟩ := exists_of_lower_eq_cons (by decide) heq
      exact absurd rfl (hnotPlus rest)
    · exact (reading_digits? 1 4 cs).map fun ds => (digitsValue ds : Int)

/-- A date is read alike in either case. -/
theorem reading_date? (cs : List Char) : Reading isNumeral cs (date? cs) (date? (lower cs)) := by
  refine (reading_year? cs).bind fun year cs => ?_
  refine .char (by decide) (by decide) fun cs => ?_
  refine (reading_shortNumber? cs).bind fun month cs => ?_
  refine .char (by decide) (by decide) fun cs => ?_
  refine (reading_shortNumber? cs).bind fun day cs => ?_
  exact .value fun date => .pure date cs

/-- A fraction is read alike in either case. -/
theorem reading_fraction? (cs : List Char) :
    Reading isNumeral cs (fraction? cs) (fraction? (lower cs)) := by
  have hpoint : lowerLetter '.' = '.' := by decide
  unfold fraction?
  split
  · rw [lower, List.map_cons, hpoint]
    refine Reading.prepend ['.'] (List.forall_mem_singleton.2 (by decide)) ?_
    exact (reading_digitRun? _).bind fun ds after => .pure _ after
  · rename_i hnotPoint
    split
    · rename_i heq
      obtain ⟨rest, rfl⟩ := exists_of_lower_eq_cons (by decide) heq
      exact absurd rfl (hnotPoint rest)
    · exact .pure 0 cs

/-- A time is read alike in either case. -/
theorem reading_time? (cs : List Char) : Reading isNumeral cs (time? cs) (time? (lower cs)) := by
  have hcolon : lowerLetter ':' = ':' := by decide
  refine (reading_shortNumber? cs).bind fun hour cs => ?_
  refine .char (by decide) (by decide) fun cs => ?_
  refine (reading_shortNumber? cs).bind fun minute cs => ?_
  dsimp only
  -- Seconds follow in both texts or in neither.
  split
  · rw [lower, List.map_cons, hcolon]
    refine Reading.prepend [':'] (List.forall_mem_singleton.2 (by decide)) ?_
    refine (reading_shortNumber? _).bind fun second cs => ?_
    refine (reading_fraction? cs).bind fun nanosecond cs => ?_
    exact .value fun time => .pure time cs
  · rename_i hnotColon
    split
    · rename_i heq
      obtain ⟨rest, rfl⟩ := exists_of_lower_eq_cons (by decide) heq
      exact absurd rfl (hnotColon rest)
    · exact .value fun time => .pure time cs

/-- Two digits are read alike in either case. -/
theorem reading_twoDigits? (cs : List Char) :
    Reading isNumeral cs (twoDigits? cs) (twoDigits? (lower cs)) :=
  (reading_digits? 2 2 cs).map digitsValue

/-- The letter `Z`, which may be small, or a sign, hours and minutes. -/
theorem reading_offset? (cs : List Char) :
    Reading isFormatCharacter cs (offset? cs) (offset? (lower cs)) := by
  cases cs with
  | nil => exact .none
  | cons c rest =>
    have hzulu : (lowerLetter c = 'Z' || lowerLetter c = 'z') = (decide (c = 'Z') || c = 'z') :=
      lowerLetter_congr (fun c => decide (c = 'Z') || c = 'z') (by decide) c
    have hsign : (lowerLetter c = '+' || lowerLetter c = '-' || (lowerLetter c).toNat = 0x2212) =
        (decide (c = '+') || c = '-' || c.toNat = 0x2212) :=
      lowerLetter_congr (fun c => decide (c = '+') || c = '-' || c.toNat = 0x2212) (by decide) c
    have hplus : lowerLetter c = '+' ↔ c = '+' := lowerLetter_eq_iff (by decide)
    -- Each of the three tests on the first character has the same outcome in lower case.
    unfold offset?
    rw [lower, List.map_cons]
    dsimp only
    rw [hzulu, hsign]
    simp only [hplus]
    by_cases hz : (decide (c = 'Z') || c = 'z') = true
    · rw [if_pos hz, if_pos hz]
      have hformat : isFormatCharacter c = true := by
        rcases Bool.or_eq_true_iff.1 hz with h | h <;> rw [of_decide_eq_true h] <;> decide
      exact (Reading.pure 0 rest).prepend [c] (by simpa using hformat)
    by_cases hs : (decide (c = '+') || c = '-' || c.toNat = 0x2212) = true
    · rw [if_neg hz, if_neg hz, if_pos hs, if_pos hs]
      have hformat : isFormatCharacter c = true := by
        rw [Bool.or_eq_true, Bool.or_eq_true, decide_eq_true_eq, decide_eq_true_eq,
          decide_eq_true_eq] at hs
        rcases hs with (rfl | rfl) | h
        · decide
        · decide
        · rw [← Char.ofNat_toNat c, h]
          decide
      refine Reading.prepend [c] (by simpa using hformat) ?_
      refine (reading_twoDigits? rest).format.bind fun hours rest => ?_
      refine .char (by decide) (by decide) fun rest => ?_
      refine (reading_twoDigits? rest).format.bind fun minutes rest => ?_
      dsimp only
      by_cases hbounds : hours ≤ 23 ∧ minutes ≤ 59
      · rw [if_pos hbounds, if_pos hbounds]
        exact .pure _ rest
      · rw [if_neg hbounds, if_neg hbounds]
        exact .none
    · rw [if_neg hz, if_neg hz, if_neg hs, if_neg hs]
      exact .none

/-- The mark between the day and the time of a point in time with an offset. -/
private theorem reading_mark {α : Type} {cs : List Char}
    {f g : List Char → Option (α × List Char)}
    (hfg : ∀ rest, Reading isFormatCharacter rest (f rest) (g (lower rest))) :
    Reading isFormatCharacter cs
      (match cs with
        | c :: rest => if c = 'T' || c = 't' || c = ' ' then some rest >>= f else none >>= f
        | [] => none >>= f)
      (match lower cs with
        | c :: rest => if c = 'T' || c = 't' || c = ' ' then some rest >>= g else none >>= g
        | [] => none >>= g) := by
  cases cs with
  | nil => exact .none
  | cons c rest =>
    -- The marks are told apart up to their case only.
    have hmark : (lowerLetter c = 'T' || lowerLetter c = 't' || lowerLetter c = ' ') =
        (decide (c = 'T') || c = 't' || c = ' ') :=
      lowerLetter_congr (fun c => decide (c = 'T') || c = 't' || c = ' ') (by decide) c
    rw [lower, List.map_cons]
    dsimp only
    rw [hmark]
    by_cases hc : (decide (c = 'T') || c = 't' || c = ' ') = true
    · rw [if_pos hc, if_pos hc]
      have hformat : isFormatCharacter c = true := by
        rw [Bool.or_eq_true, Bool.or_eq_true, decide_eq_true_eq, decide_eq_true_eq,
          decide_eq_true_eq] at hc
        rcases hc with (rfl | rfl) | rfl <;> decide
      exact (hfg rest).prepend [c] (by simpa using hformat)
    · rw [if_neg hc, if_neg hc]
      exact .none

/-- An instant with an offset is read alike in either case. -/
theorem reading_zonedDateTime? (cs : List Char) :
    Reading isFormatCharacter cs (zonedDateTime? cs) (zonedDateTime? (lower cs)) := by
  refine (reading_digits? 4 4 cs).format.bind fun year cs => ?_
  refine .char (by decide) (by decide) fun cs => ?_
  refine (reading_twoDigits? cs).format.bind fun month cs => ?_
  refine .char (by decide) (by decide) fun cs => ?_
  refine (reading_twoDigits? cs).format.bind fun day cs => ?_
  refine reading_mark fun cs => ?_
  refine (reading_twoDigits? cs).format.bind fun hour cs => ?_
  refine .char (by decide) (by decide) fun cs => ?_
  refine (reading_twoDigits? cs).format.bind fun minute cs => ?_
  refine .char (by decide) (by decide) fun cs => ?_
  refine (reading_twoDigits? cs).format.bind fun second cs => ?_
  refine (reading_fraction? cs).format.bind fun nanosecond cs => ?_
  refine (reading_offset? cs).bind fun offset cs => ?_
  exact .value fun date => .value fun time => .value fun t => .pure t cs

/-! ## Whole texts -/

section Whole

variable {α : Type} {allowed : Char → Bool} {cs : List Char} {x y : Option (α × List Char)}

/-- A whole text is read where nothing is left of it. -/
theorem whole?_eq_some_iff {a : α} : whole? x = some a ↔ x = some (a, []) := by
  cases x with
  | none => exact ⟨nofun, nofun⟩
  | some p =>
    obtain ⟨b, rest⟩ := p
    cases rest <;> simp [whole?]

/-- A whole text is read alike in either case. -/
theorem Reading.whole?_eq (h : Reading allowed cs x y) : whole? y = whole? x := by
  rw [h.lowered]
  cases x with
  | none => rfl
  | some p =>
    obtain ⟨b, rest⟩ := p
    cases rest <;> rfl

/-- A text that is read as a whole is made of allowed characters. -/
theorem Reading.allowed_of_whole? (h : Reading allowed cs x y) {a : α} (hx : whole? x = some a) :
    ∀ c ∈ cs, allowed c = true := by
  obtain ⟨front, rfl, hfront⟩ := h.front (whole?_eq_some_iff.1 hx)
  rwa [List.append_nil]

end Whole

/-! ### Points in time without an offset -/

section DateTime

variable {cs rest : List Char} {date : Date}

/-- Behind a date and a mark a time is read. -/
theorem dateTime?_of_mark (h : date? cs = some (date, 'T' :: rest)) :
    dateTime? cs = (time? rest).map fun p => (⟨date, p.1⟩, p.2) := by
  rw [dateTime?, h]
  change (time? rest >>= _) = _
  cases time? rest <;> rfl

/-- Behind a date without a mark a time is read after blanks. -/
theorem dateTime?_of_ne_mark (h : date? cs = some (date, rest)) (hrest : rest.head? ≠ some 'T') :
    dateTime? cs = (time? (trimStart rest)).map fun p => (⟨date, p.1⟩, p.2) := by
  rw [dateTime?, h]
  change (time? _ >>= _) = _
  split
  · exact absurd rfl hrest
  · cases time? (trimStart rest) <;> rfl

/-- What follows the day is a time. -/
private theorem whole?_map {α β : Type} (f : α → β) (x : Option (α × List Char)) :
    whole? (x.map fun p => (f p.1, p.2)) = (whole? x).map f := by
  cases x with
  | none => rfl
  | some p =>
    obtain ⟨a, rest⟩ := p
    cases rest <;> rfl

/-- A point in time with `T` has no meaning in lower case. -/
theorem whole?_dateTime?_lower (cs : List Char) :
    whole? (dateTime? (lower cs)) = if 'T' ∈ cs then none else whole? (dateTime? cs) := by
  have hdate := reading_date? cs
  have hlower := hdate.lowered
  cases hread : date? cs with
  | none =>
    rw [hread] at hlower
    simp [dateTime?, hread, hlower, whole?]
  | some p =>
    obtain ⟨date, rest⟩ := p
    rw [hread] at hlower
    obtain ⟨front, rfl, hfront⟩ := hdate.front hread
    have hnumerals : 'T' ∉ front := fun hmem => absurd (hfront _ hmem) (by decide)
    have hsmall : (lower rest).head? ≠ some 'T' := by
      rw [List.head?_map]
      intro h
      obtain ⟨c, -, hc⟩ := Option.map_eq_some_iff.1 h
      exact lowerLetter_notMem_capitals c (by rw [hc]; decide)
    rw [dateTime?_of_ne_mark hlower hsmall, whole?_map, trimStart_lower]
    have htime := (reading_time? (trimStart rest)).skip isNumeral_of_isBlank
    by_cases hmark : rest.head? = some 'T'
    · -- The small letter that is left starts no time.
      obtain ⟨rest, rfl⟩ := List.head?_eq_some_iff.1 hmark
      rw [if_pos (by simp)]
      rfl
    · rw [htime.whole?_eq, dateTime?_of_ne_mark hread hmark, whole?_map]
      split_ifs with hmem
      · have hrest : 'T' ∈ rest := (List.mem_append.1 hmem).resolve_left hnumerals
        rw [Option.map_eq_none_iff, Option.eq_none_iff_forall_ne_some]
        intro time h
        exact absurd (htime.allowed_of_whole? h _ hrest) (by decide)
      · rfl

/-- The characters of a point in time are those of all formats. -/
theorem isFormatCharacter_of_dateTime? {t : DateTime} (h : whole? (dateTime? cs) = some t) :
    ∀ c ∈ cs, isFormatCharacter c = true := by
  -- What is in front of the time is read by the reader of days, whose characters are known.
  have hdate := reading_date? cs
  cases hread : date? cs with
  | none => simp [dateTime?, hread, whole?] at h
  | some p =>
    obtain ⟨date, rest⟩ := p
    obtain ⟨front, rfl, hfront⟩ := hdate.format.front hread
    refine List.forall_mem_append.2 ⟨hfront, ?_⟩
    by_cases hmark : rest.head? = some 'T'
    · obtain ⟨rest, rfl⟩ := List.head?_eq_some_iff.1 hmark
      rw [dateTime?_of_mark hread, whole?_map] at h
      obtain ⟨time, htime, -⟩ := Option.map_eq_some_iff.1 h
      exact List.forall_mem_cons.2
        ⟨by decide, (reading_time? rest).format.allowed_of_whole? htime⟩
    · rw [dateTime?_of_ne_mark hread hmark, whole?_map] at h
      obtain ⟨time, htime, -⟩ := Option.map_eq_some_iff.1 h
      exact ((reading_time? _).skip isNumeral_of_isBlank).format.allowed_of_whole? htime

/-! ### Points in time with an offset -/

/-- A character that is read stands in front. -/
theorem eq_cons_of_char? {c : Char} (h : char? c cs = some rest) : cs = c :: rest := by
  cases cs with
  | nil => cases h
  | cons d cs =>
    rw [char?] at h
    split_ifs at h with hd
    rw [hd, Option.some.inj h]

/-- Where digits are read, a text starts with one. -/
theorem exists_of_digits? {least most : Nat} {ds : List Char} (hleast : 0 < least)
    (h : digits? least most cs = some (ds, rest)) :
    ∃ d cs', cs = d :: cs' ∧ d.isDigit = true ∧ trimStart cs = cs := by
  obtain ⟨rfl, hlength, hdigits⟩ := eq_append_of_digits? h
  cases ds with
  | nil => exact absurd hlength (Nat.not_le_of_gt hleast)
  | cons d ds =>
    have hd := hdigits d List.mem_cons_self
    exact ⟨d, ds ++ rest, rfl, hd, List.dropWhile_cons_of_neg (by simp [isBlank_of_isDigit hd])⟩

/-- Two digits are read as a short number too. -/
theorem shortNumber?_of_twoDigits? {n : Nat} (h : twoDigits? cs = some (n, rest)) :
    shortNumber? cs = some (n, rest) := by
  obtain ⟨⟨ds, rest'⟩, hds, h⟩ := Option.map_eq_some_iff.1 h
  obtain ⟨-, -, -, -, htrim⟩ := exists_of_digits? (by decide) hds
  have hshort : digits? 1 2 cs = some (ds, rest') := by
    unfold digits? at hds ⊢
    dsimp only at hds ⊢
    split_ifs at hds with hlength
    rwa [if_neg (by omega)]
  rw [shortNumber?, htrim, hshort]
  exact congrArg some h

/-- Four digits are read as a year. -/
theorem year?_of_digits? {ds : List Char} (h : digits? 4 4 cs = some (ds, rest)) :
    year? cs = some ((digitsValue ds : Int), rest) := by
  obtain ⟨d, cs, rfl, hd, htrim⟩ := exists_of_digits? (by decide) h
  have hyear : digits? 1 4 (d :: cs) = some (ds, rest) := by
    unfold digits? at h ⊢
    dsimp only at h ⊢
    -- A digit is no sign, so the year is read without one.
    split_ifs at h with hlength
    rwa [if_neg (by omega)]
  unfold year?
  rw [htrim]
  split
  · rename_i heq
    rw [(List.cons.inj heq).1] at hd
    exact absurd hd (by decide)
  · rename_i heq
    rw [(List.cons.inj heq).1] at hd
    exact absurd hd (by decide)
  · rw [hyear]
    rfl

/-- Blanks in front of a time do not matter. -/
theorem time?_trimStart (cs : List Char) : time? (trimStart cs) = time? cs := by
  have hskip : shortNumber? (trimStart cs) = shortNumber? cs := by
    unfold shortNumber?
    rw [trimStart, trimStart, List.dropWhile_idempotent]
  rw [time?, time?, hskip]

/-- An offset follows the time, and the day and the time are moved by it. -/
theorem exists_of_zonedDateTime? {t : DateTime} (h : zonedDateTime? cs = some (t, rest)) :
    ∃ date mark rest₁ time rest₂, date? cs = some (date, mark :: rest₁) ∧
      (mark = 'T' ∨ mark = 't' ∨ mark = ' ') ∧ time? rest₁ = some (time, rest₂) ∧ rest₂ ≠ [] ∧
      ∃ minutes, DateTime.addMinutes? ⟨date, time⟩ minutes = some t := by
  -- The reader is one long sequence. It ends with an offset, which the readers of the day and of
  -- the time leave unread.
  obtain ⟨⟨year, cs₁⟩, hyear, h⟩ := Option.bind_eq_some_iff.1 h
  obtain ⟨cs₂, hhyphen, h⟩ := Option.bind_eq_some_iff.1 h
  obtain ⟨⟨month, cs₃⟩, hmonth, h⟩ := Option.bind_eq_some_iff.1 h
  obtain ⟨cs₄, hhyphen', h⟩ := Option.bind_eq_some_iff.1 h
  obtain ⟨⟨day, cs₅⟩, hday, h⟩ := Option.bind_eq_some_iff.1 h
  dsimp only at h
  cases cs₅ with
  | nil => cases h
  | cons mark rest₁ =>
    dsimp only at h
    split_ifs at h with hmark
    · obtain ⟨_, ⟨⟩, h⟩ := Option.bind_eq_some_iff.1 h
      obtain ⟨⟨hour, cs₆⟩, hhour, h⟩ := Option.bind_eq_some_iff.1 h
      obtain ⟨cs₇, hcolon, h⟩ := Option.bind_eq_some_iff.1 h
      obtain ⟨⟨minute, cs₈⟩, hminute, h⟩ := Option.bind_eq_some_iff.1 h
      obtain ⟨cs₉, hcolon', h⟩ := Option.bind_eq_some_iff.1 h
      obtain ⟨⟨second, cs₁₀⟩, hsecond, h⟩ := Option.bind_eq_some_iff.1 h
      obtain ⟨⟨nanosecond, cs₁₁⟩, hnanosecond, h⟩ := Option.bind_eq_some_iff.1 h
      obtain ⟨⟨offset, cs₁₂⟩, hoffset, h⟩ := Option.bind_eq_some_iff.1 h
      obtain ⟨date, hdate, h⟩ := Option.bind_eq_some_iff.1 h
      obtain ⟨time, htime, h⟩ := Option.bind_eq_some_iff.1 h
      obtain ⟨moved, hmoved, h⟩ := Option.bind_eq_some_iff.1 h
      obtain ⟨rfl, -⟩ := Prod.mk.inj (Option.some.inj h)
      dsimp only at hhyphen hmonth hhyphen' hday hcolon hminute hcolon' hsecond hnanosecond hoffset
      refine ⟨date, mark, rest₁, time, cs₁₁, ?_, ?_, ?_, ?_, -offset, hmoved⟩
      · simp [date?, year?_of_digits? hyear, hhyphen, shortNumber?_of_twoDigits? hmonth, hhyphen',
          shortNumber?_of_twoDigits? hday, hdate]
      · simpa [or_assoc] using hmark
      · obtain rfl := eq_cons_of_char? hcolon'
        simp [time?, shortNumber?_of_twoDigits? hhour, hcolon, shortNumber?_of_twoDigits? hminute,
          shortNumber?_of_twoDigits? hsecond, hnanosecond, htime]
      · rintro rfl
        cases hoffset
    · cases h

/-- No text is a point in time with an offset and one without. -/
theorem whole?_zonedDateTime?_of_dateTime? {t : DateTime} (h : whole? (dateTime? cs) = some t) :
    whole? (zonedDateTime? cs) = none := by
  refine Option.eq_none_iff_forall_ne_some.2 fun t' h' => ?_
  obtain ⟨date, mark, rest₁, time, rest₂, hdate, hmark, htime, hrest, -⟩ :=
    exists_of_zonedDateTime? (whole?_eq_some_iff.1 h')
  -- The offset is left over where the time is read alone, so the text as a whole is no time.
  have hnone : whole? (time? rest₁) = none := by
    rw [htime]
    cases rest₂ with
    | nil => exact absurd rfl hrest
    | cons c rest₂ => rfl
  have hread : whole? (dateTime? cs) = none := by
    rcases hmark with rfl | rfl | rfl
    · rw [dateTime?_of_mark hdate, whole?_map, hnone]
      rfl
    · rw [dateTime?_of_ne_mark hdate (by simp)]
      rfl
    · rw [dateTime?_of_ne_mark hdate (by simp), whole?_map]
      change (whole? (time? (trimStart rest₁))).map _ = none
      rw [time?_trimStart, hnone]
      rfl
  rw [hread] at h
  cases h

end DateTime

/-! ### All formats -/

/-- A point in time without an offset, with `T` between the day and the time. -/
def MarkedInstant (cs : List Char) : Prop := 'T' ∈ cs ∧ (whole? (dateTime? cs)).isSome = true

instance (cs : List Char) : Decidable (MarkedInstant cs) := inferInstanceAs (Decidable (_ ∧ _))

section Formats

variable {cs : List Char} {range : DateRange}

/-- A text in a fixed format has only the characters of formats. -/
theorem isFormatCharacter_of_fixedFormat? (h : fixedFormat? cs = some range) :
    ∀ c ∈ cs, isFormatCharacter c = true := by
  unfold fixedFormat? at h
  split at h
  · rename_i day hday
    exact (reading_date? cs).format.allowed_of_whole? hday
  · split at h
    · rename_i t ht
      exact isFormatCharacter_of_dateTime? ht
    · rename_i t _ ht
      exact (reading_zonedDateTime? cs).allowed_of_whole? ht
    · obtain ⟨first, hfirst, -⟩ := Option.bind_eq_some_iff.1 h
      have hmonth := (reading_date? (cs ++ "-01".toList)).format.allowed_of_whole? hfirst
      exact (List.forall_mem_append.1 hmonth).1

/-- A marked instant is made of the characters of formats. -/
theorem isFormatCharacter_of_markedInstant (h : MarkedInstant cs) :
    ∀ c ∈ cs, isFormatCharacter c = true := by
  obtain ⟨t, ht⟩ := Option.isSome_iff_exists.1 h.2
  exact isFormatCharacter_of_dateTime? ht

/-- In lower case a text in a fixed format means the same, unless it is a point in time with `T` and
without an offset, which has no meaning then. -/
theorem fixedFormat?_lower (cs : List Char) :
    fixedFormat? (lower cs) = if MarkedInstant cs then none else fixedFormat? cs := by
  have hday := (reading_date? cs).whole?_eq
  have hzoned := (reading_zonedDateTime? cs).whole?_eq
  have hmonth : whole? (date? (lower cs ++ "-01".toList)) = whole? (date? (cs ++ "-01".toList)) := by
    have hsuffix : lower cs ++ "-01".toList = lower (cs ++ "-01".toList) := by
      rw [lower, lower, List.map_append]
      congr 1
    rw [hsuffix, (reading_date? _).whole?_eq]
  unfold fixedFormat?
  rw [hday, hzoned, hmonth, whole?_dateTime?_lower]
  by_cases hmarked : MarkedInstant cs
  · -- A letter stands in no day and no month, and there is no offset.
    obtain ⟨hmark, hread⟩ := hmarked
    obtain ⟨t, ht⟩ := Option.isSome_iff_exists.1 hread
    have hnoDay (cs' : List Char) (hmem : 'T' ∈ cs') : whole? (date? cs') = none := by
      refine Option.eq_none_iff_forall_ne_some.2 fun day h => ?_
      exact absurd ((reading_date? cs').allowed_of_whole? h _ hmem) (by decide)
    rw [if_pos hmark, if_pos ⟨hmark, hread⟩, hnoDay cs hmark, whole?_zonedDateTime?_of_dateTime? ht,
      hnoDay _ (List.mem_append_left _ hmark)]
    rfl
  · rw [if_neg hmarked]
    split_ifs with hmark
    · have hnone : whole? (dateTime? cs) = none := by
        rw [← Option.not_isSome_iff_eq_none]
        exact fun h => hmarked ⟨hmark, h⟩
      rw [hnone]
    · rfl

end Formats

end MetricLayer.Calendar
