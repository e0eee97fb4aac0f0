import MetricLayer.Proofs.Calendar.DateRange
import MetricLayer.Proofs.Calendar.Phrase
import Mathlib.Algebra.Ring.Nat

/-!
# Texts of points in time

A point in time that is bound to a mark is written as text. The readers of the fixed formats take
this text for the same point, whatever the sign and the width of its year are: no reader before the
right one takes it for something else.

- `digitsValue_padded`, `digits?_append` — numbers are read as they are written;
- `date?_dateChars`, `time?_timeChars` — days and times are read as they are written;
- `DateTime.fixedFormat?_text`, `DateTime.parseDate_text` — so are points in time;
- `DateTime.text_reads_back` — the law for points in time and for the ends of ranges.
-/

namespace MetricLayer.Calendar

open Text (isBlank trimStart)

/-! ## Numbers -/

section Numbers

variable {n width : Nat} {ds rest : List Char}

/-- A padded number has zeros in front of its digits. -/
theorem toList_padded (width n : Nat) : (padded width n).toList =
    List.replicate (width - (Nat.toDigits 10 n).length) '0' ++ Nat.toDigits 10 n :=
  String.toList_ofList

/-- A padded number is made of digits. -/
theorem isDigit_of_mem_padded {c : Char} (h : c ∈ (padded width n).toList) : c.isDigit = true := by
  rw [toList_padded] at h
  rcases List.mem_append.1 h with h | h
  · rw [List.eq_of_mem_replicate h]
    decide
  · exact Nat.isDigit_of_mem_toDigits (by decide) (by decide) h

/-- Digits count with a place value of ten. -/
theorem digitsValue_eq (ds : List Char) : digitsValue ds = Nat.ofDigitChars 10 ds 0 := by
  simp only [digitsValue, Nat.ofDigitChars_eq_foldl, Nat.mul_comm 10]

/-- Zeros in front do not change a number. -/
theorem digitsValue_padded (width n : Nat) : digitsValue (padded width n).toList = n := by
  rw [digitsValue_eq, toList_padded, Nat.ofDigitChars_append, Nat.ofDigitChars_replicate_zero,
    Nat.mul_zero, Nat.ofDigitChars_ten_toDigits]

/-- A number that is not wider than asked for has exactly the width. -/
theorem length_padded (hwidth : 0 < width) (h : n < 10 ^ width) :
    (padded width n).toList.length = width := by
  have hlength := (Nat.length_toDigits_le_iff (by decide) hwidth).2 h
  rw [toList_padded, List.length_append, List.length_replicate]
  omega

/-- A padded number has a digit at least. -/
theorem padded_length_pos (width n : Nat) : 0 < (padded width n).toList.length := by
  have hpos := Nat.length_toDigits_pos (b := 10) (n := n)
  rw [toList_padded, List.length_append]
  omega

/-- Digits are read up to the greatest number of digits or up to another character. -/
theorem digits?_append {least most : Nat} (hdigits : ∀ c ∈ ds, c.isDigit = true)
    (hleast : least ≤ ds.length) (hmost : ds.length ≤ most)
    (hrest : ds.length = most ∨ ∀ c ∈ rest.head?, c.isDigit = false) :
    digits? least most (ds ++ rest) = some (ds, rest) := by
  -- Either no more digits are allowed, or what follows is none.
  have htail : (rest.take (most - ds.length)).takeWhile Char.isDigit = [] := by
    rcases hrest with hlength | hstop
    · rw [hlength, Nat.sub_self, List.take_zero, List.takeWhile_nil]
    · cases rest with
      | nil => rw [List.take_nil, List.takeWhile_nil]
      | cons c rest =>
        have hc : c.isDigit = false := hstop c rfl
        cases most - ds.length with
        | zero => rfl
        | succ k => rw [List.take_succ_cons, List.takeWhile_cons_of_neg (by simp [hc])]
  have hfound : ((ds ++ rest).take most).takeWhile Char.isDigit = ds := by
    rw [List.take_append, List.take_of_length_le hmost, List.takeWhile_append_of_pos hdigits, htail,
      List.append_nil]
  rw [digits?, hfound, if_neg (Nat.not_lt_of_le hleast), List.drop_left]

/-- A number in front of a text is not preceded by white space. -/
theorem trimStart_padded_append (width n : Nat) (rest : List Char) :
    trimStart ((padded width n).toList ++ rest) = (padded width n).toList ++ rest := by
  obtain ⟨c, cs, hcs⟩ := List.exists_cons_of_length_pos (padded_length_pos width n)
  have hmem : c ∈ (padded width n).toList := by
    rw [hcs]
    exact List.mem_cons_self
  have hdigit : c.isDigit = true := isDigit_of_mem_padded hmem
  rw [hcs, List.cons_append]
  exact List.dropWhile_cons_of_neg (by simp [isBlank_of_isDigit hdigit])

/-- A number of two digits is read back. -/
theorem shortNumber?_padded (h : n < 100) (rest : List Char) :
    shortNumber? ((padded 2 n).toList ++ rest) = some (n, rest) := by
  have hlength : (padded 2 n).toList.length = 2 := length_padded (by decide) h
  have hread : digits? 1 2 ((padded 2 n).toList ++ rest) = some ((padded 2 n).toList, rest) :=
    digits?_append (fun _ => isDigit_of_mem_padded) (by omega) (by omega) (.inl hlength)
  rw [shortNumber?, trimStart_padded_append, hread, Option.map_some]
  dsimp only
  rw [digitsValue_padded]

/-- A number is read as a whole where no digit follows it. -/
theorem digitRun?_padded (hrest : ∀ c ∈ rest.head?, c.isDigit = false) :
    digitRun? ((padded width n).toList ++ rest) = some ((padded width n).toList, rest) := by
  refine digits?_append (fun c => isDigit_of_mem_padded) (padded_length_pos width n) ?_ (.inr hrest)
  rw [List.length_append]
  exact Nat.le_add_right _ _

end Numbers

/-! ## Days and times -/

section Readers

variable {rest : List Char}

theorem char?_cons (c : Char) (rest : List Char) : char? c (c :: rest) = some rest := if_pos rfl

/-- A year with a sign has any number of digits. -/
private theorem year?_signed (cs : List Char) :
    year? ('-' :: cs) = (digitRun? cs).map (fun p => (-(digitsValue p.1 : Int), p.2)) ∧
      year? ('+' :: cs) = (digitRun? cs).map (fun p => ((digitsValue p.1 : Int), p.2)) :=
  ⟨rfl, rfl⟩

/-- A year is read whatever its sign and its width are. -/
theorem year?_yearText {year : Int} (hrest : ∀ c ∈ rest.head?, c.isDigit = false) :
    year? ((yearText year).toList ++ rest) = some (year, rest) := by
  unfold yearText
  -- Four digits without a sign, or any number of digits with one.
  split_ifs with hshort hnegative
  · rw [Bool.and_eq_true, decide_eq_true_eq, decide_eq_true_eq] at hshort
    have hlength : (padded 4 year.toNat).toList.length = 4 := length_padded (by decide) (by omega)
    have hread : digits? 4 4 ((padded 4 year.toNat).toList ++ rest) =
        some ((padded 4 year.toNat).toList, rest) :=
      digits?_append (fun _ => isDigit_of_mem_padded) (by omega) (by omega) (.inl hlength)
    rw [year?_of_digits? hread, digitsValue_padded, Int.toNat_of_nonneg hshort.1]
  · have htext : ("-" ++ padded 4 year.natAbs).toList ++ rest =
        '-' :: ((padded 4 year.natAbs).toList ++ rest) := by
      simp
    rw [htext, (year?_signed _).1, digitRun?_padded hrest, Option.map_some, digitsValue_padded,
      Int.ofNat_natAbs_of_nonpos (by omega), Int.neg_neg]
  · have htext : ("+" ++ padded 4 year.natAbs).toList ++ rest =
        '+' :: ((padded 4 year.natAbs).toList ++ rest) := by
      simp
    rw [htext, (year?_signed _).2, digitRun?_padded hrest, Option.map_some, digitsValue_padded,
      Int.natAbs_of_nonneg (by omega)]

/-- The characters of a day. -/
def dateChars (d : Date) : List Char :=
  (yearText d.year).toList ++
    '-' :: ((padded 2 d.month).toList ++ '-' :: (padded 2 d.day).toList)

/-- A date is read back. -/
theorem date?_dateChars {d : Date} (hd : d.Valid) (rest : List Char) :
    date? (dateChars d ++ rest) = some (d, rest) := by
  have hvalid : Date.ofParts? d.year d.month d.day = some d :=
    Date.ofParts?_eq_some_iff.2 ⟨hd, rfl⟩
  obtain ⟨-, -, -, hmonth, -, hday⟩ := hd
  have hbounds := (daysInMonth_bounds d.year d.month).2
  have hhyphen (cs : List Char) : ∀ c ∈ ('-' :: cs).head?, c.isDigit = false := by
    simp
  rw [dateChars, List.append_assoc, List.cons_append, List.append_assoc, List.cons_append, date?,
    year?_yearText (hhyphen _)]
  simp only [Option.bind_eq_bind, Option.bind_some, char?_cons,
    shortNumber?_padded (Nat.lt_of_le_of_lt hmonth (by decide)),
    shortNumber?_padded (show d.day < 100 by omega), hvalid]
  rfl

/-- The characters of a time of day, up to milliseconds. -/
def timeChars (t : Time) : List Char :=
  (padded 2 t.hour).toList ++ ':' :: ((padded 2 t.minute).toList ++
    ':' :: ((padded 2 t.second).toList ++ '.' :: (padded 3 (t.nanosecond / 1000000)).toList))

/-- The time without what is finer than a millisecond. -/
def Time.truncated (t : Time) : Time := { t with nanosecond := t.nanosecond / 1000000 * 1000000 }

/-- Milliseconds are read as nanoseconds. -/
theorem fraction?_padded {n : Nat} (h : n < 1000) :
    fraction? ('.' :: (padded 3 n).toList) = some (n * 1000000, []) := by
  have hlength : (padded 3 n).toList.length = 3 := length_padded (by decide) h
  have hrun : digitRun? (padded 3 n).toList = some ((padded 3 n).toList, []) := by
    have hend : ∀ c ∈ ([] : List Char).head?, c.isDigit = false := nofun
    have hread : digitRun? ((padded 3 n).toList ++ []) = _ := digitRun?_padded hend
    rwa [List.append_nil] at hread
  -- Three digits are filled up with zeros to the nine digits of nanoseconds.
  have htake : ((padded 3 n).toList ++ List.replicate 9 '0').take 9 =
      (padded 3 n).toList ++ List.replicate 6 '0' := by
    rw [List.take_append, hlength, List.take_of_length_le (by omega)]
    rfl
  have hvalue : digitsValue ((padded 3 n).toList ++ List.replicate 6 '0') = n * 1000000 := by
    have hzeros := digitsValue_padded 3 n
    rw [digitsValue_eq] at hzeros ⊢
    rw [Nat.ofDigitChars_append, Nat.ofDigitChars_replicate_zero, hzeros, Nat.mul_comm]
  rw [fraction?, hrun]
  simp only [Option.bind_eq_bind, Option.bind_some, htake, hvalue]
  rfl

/-- A time is read back without what is finer than its last digit. -/
theorem time?_timeChars {t : Time} (ht : t.Valid) :
    time? (timeChars t) = some (t.truncated, []) := by
  obtain ⟨hhour, hminute, hsecond, hnanosecond⟩ := ht
  have hparts : Time.ofParts? t.hour t.minute t.second (t.nanosecond / 1000000 * 1000000) =
      some t.truncated := if_pos ⟨hhour, hminute, hsecond⟩
  rw [timeChars, time?]
  simp only [Option.bind_eq_bind, Option.bind_some, char?_cons,
    shortNumber?_padded (Nat.lt_of_le_of_lt hhour (by decide)),
    shortNumber?_padded (Nat.lt_of_le_of_lt hminute (by decide)),
    shortNumber?_padded (Nat.lt_of_le_of_lt hsecond (by decide)),
    fraction?_padded (show t.nanosecond / 1000000 < 1000 by omega), hparts]
  rfl

end Readers

/-! ## Points in time -/

namespace DateTime

variable {t : DateTime}

/-- The point in time without what is finer than a millisecond. -/
def truncated (t : DateTime) : DateTime := { t with time := t.time.truncated }

/-- An instant is written as its date, a mark and its time. -/
theorem toList_text (t : DateTime) :
    t.text.toList = dateChars t.date ++ 'T' :: timeChars t.time := by
  simp [text, dateChars, timeChars]

/-- A text is read as the point in time that it was written for. -/
theorem fixedFormat?_text (ht : t.Valid) :
    fixedFormat? t.text.toList = some (.instant t.truncated) := by
  have hdate := date?_dateChars ht.date ('T' :: timeChars t.time)
  have hday : whole? (date? t.text.toList) = none := by
    rw [toList_text, hdate]
    rfl
  have hdateTime : whole? (dateTime? t.text.toList) = some t.truncated := by
    rw [toList_text, dateTime?_of_mark hdate, time?_timeChars ht.time]
    rfl
  rw [fixedFormat?, hday, hdateTime]

/-- No character of a text is white space. -/
theorem isBlank_of_mem_text {c : Char} (h : c ∈ t.text.toList) : isBlank c = false := by
  have hpadded (width n : Nat) : ∀ c ∈ (padded width n).toList, isBlank c = false :=
    fun c hc => isBlank_of_isDigit (isDigit_of_mem_padded hc)
  -- A year may have a sign in front of its digits.
  have hyear : ∀ c ∈ (yearText t.date.year).toList, isBlank c = false := by
    have hsigns : isBlank '-' = false ∧ isBlank '+' = false := by decide
    unfold yearText
    split_ifs
    · exact hpadded _ _
    · simpa using ⟨hsigns.1, hpadded 4 t.date.year.natAbs⟩
    · simpa using ⟨hsigns.2, hpadded 4 t.date.year.natAbs⟩
  have hall : ∀ c ∈ t.text.toList, isBlank c = false := by
    simp only [toList_text, dateChars, timeChars, List.forall_mem_append, List.forall_mem_cons]
    exact ⟨⟨hyear, by decide, hpadded _ _, by decide, hpadded _ _⟩, by decide, hpadded _ _,
      by decide, hpadded _ _, by decide, hpadded _ _, by decide, hpadded _ _⟩
  exact hall c h

/-- An instant is written without blanks around it. -/
theorem trim_text (t : DateTime) : Text.trim t.text.toList = t.text.toList := by
  have hstart (cs : List Char) (h : ∀ c ∈ cs, isBlank c = false) : cs.dropWhile isBlank = cs := by
    cases cs with
    | nil => rfl
    | cons c cs => exact List.dropWhile_cons_of_neg (by simp [h c List.mem_cons_self])
  rw [Text.trim, trimStart, hstart _ fun _ => isBlank_of_mem_text, Text.trimEnd,
    hstart _ fun _ hc => isBlank_of_mem_text (List.mem_reverse.1 hc), List.reverse_reverse]

/-- Reading the text of a point in time gives this point, up to milliseconds. -/
theorem parseDate_text (ht : t.Valid) (now : DateTime) :
    parseDate t.text now = .ok (.instant t.truncated) := by
  rw [parseDate_of_trimmed t.trim_text, meaning?, fixedFormat?_text ht]
  rfl

/-- What is finer than a millisecond is not written. -/
theorem text_truncated (t : DateTime) : t.truncated.text = t.text := by
  have hnanosecond : t.time.nanosecond / 1000000 * 1000000 / 1000000 =
      t.time.nanosecond / 1000000 :=
    Nat.mul_div_cancel _ (by decide)
  simp only [text, truncated, Time.truncated, hnanosecond]

/-- Texts of points in time are read back, whatever the year is: reading gives the point itself, up
to milliseconds, and the ends of a range are written as before. -/
theorem text_reads_back (now : DateTime) :
    (∀ t : DateTime, t.Valid → parseDate t.text now = .ok (.instant t.truncated)) ∧
      ∀ r : DateRange, r.Valid → ∀ t ∈ [r.first, r.last],
        ∃ r', parseDate t.text now = .ok r' ∧ r'.first.text = t.text ∧ r'.last.text = t.text := by
  refine ⟨fun t ht => parseDate_text ht now, fun r hr t ht => ?_⟩
  have hvalid : t.Valid := by
    simp only [List.mem_cons, List.not_mem_nil, or_false] at ht
    rcases ht with rfl | rfl
    · exact hr.first
    · exact hr.last
  exact ⟨_, parseDate_text hvalid now, t.text_truncated, t.text_truncated⟩

/-- From the first moments of the calendar to a leap second in a year of five digits. -/
private def longRange : DateRange :=
  ⟨⟨⟨-262143, 1, 1⟩, ⟨0, 0, 0, 1999999⟩⟩, ⟨⟨12024, 2, 29⟩, ⟨23, 59, 60, 123456789⟩⟩⟩

/-- Years with a sign, a fraction and a leap second are read back. -/
theorem text_reads_back_longRange (now : DateTime) :
    longRange.first.text = "-262143-01-01T00:00:00.001" ∧
    parseDate "-262143-01-01T00:00:00.001" now =
      .ok (.instant ⟨⟨-262143, 1, 1⟩, ⟨0, 0, 0, 1000000⟩⟩) ∧
    longRange.last.text = "+12024-02-29T23:59:60.123" ∧
    ∃ r, parseDate "+12024-02-29T23:59:60.123" now = .ok r ∧
      r.first.text = "+12024-02-29T23:59:60.123" ∧ r.last.text = "+12024-02-29T23:59:60.123" := by
  have hvalid : longRange.Valid := ⟨by decide, by decide⟩
  have hfirst : longRange.first.text = "-262143-01-01T00:00:00.001" := by decide +kernel
  have hlast : longRange.last.text = "+12024-02-29T23:59:60.123" := by decide +kernel
  obtain ⟨hpoint, hrange⟩ := text_reads_back now
  have hread := hpoint longRange.first hvalid.first
  have hread' := hrange longRange hvalid longRange.last (by simp)
  rw [hfirst] at hread
  rw [hlast] at hread'
  exact ⟨hfirst, hread, hlast, hread'⟩

end DateTime

end MetricLayer.Calendar
