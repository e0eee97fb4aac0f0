import MetricLayer.Proofs.Calendar.DateRange
import MetricLayer.Proofs.Calendar.Phrase

/-!
# Calendar periods

Days, weeks, months, quarters and years are numbered one after the other, and every day lies in one
of them. A phrase such as `last quarter` stands for exactly the days of a period, found by its
number, so the periods of three phrases in a row leave no gap.

- `monthStart` — the number of the first day of a month;
- `Period.index`, `Period.start` — the period of a day, and the first day of a period;
- `Period.StartsOn` — the days on which periods start;
- `Period.exists_isRange` — the range of a period has the days of this period;
- `simplePhrase?_of_namedPeriod?` — the phrases for periods;
- `Period.consecutive_of_parseDate` — the last, this and the next period follow each other.
-/

namespace MetricLayer.Calendar

/-! ## Months -/

/-- The number of the first day of a month, where months are counted through all years. -/
def monthStart (n : Int) : Int :=
  daysBeforeYear (n / 12) + daysBeforeMonth (n / 12) ((n % 12).toNat + 1)

/-- Each month starts as many days after the one before as that one has. -/
theorem monthStart_succ (n : Int) :
    monthStart (n + 1) = monthStart n + daysInMonth (n / 12) ((n % 12).toNat + 1) := by
  have hmonth := daysBeforeMonth_succ (n / 12) (Nat.le_add_left 1 (n % 12).toNat)
  unfold monthStart
  by_cases hlast : n % 12 = 11
  · -- The last month of a year is followed by the first one of the next year.
    have hyear : (n + 1) / 12 = n / 12 + 1 := by omega
    have hfirst : (n + 1) % 12 = 0 := by omega
    have hend : (n % 12).toNat + 1 = 12 := by omega
    rw [hend, daysBeforeMonth_thirteen] at hmonth
    rw [hyear, hfirst, daysBeforeYear_succ, hmonth, hend]
    simp [daysBeforeMonth, add_assoc]
  · have hyear : (n + 1) / 12 = n / 12 := by omega
    have hnext : ((n + 1) % 12).toNat = (n % 12).toNat + 1 := by omega
    rw [hyear, hnext, hmonth]
    omega

/-- Later months start later. -/
theorem strictMono_monthStart : StrictMono monthStart := by
  refine strictMono_int_of_lt_succ fun n => ?_
  have hdays := (daysInMonth_bounds (n / 12) ((n % 12).toNat + 1)).1
  rw [monthStart_succ]
  omega

/-- The year and the month of a day are found for the number of its month. -/
theorem Date.monthNumber_ediv {d : Date} (hd : d.Valid) :
    d.monthNumber / 12 = d.year ∧ (d.monthNumber % 12).toNat + 1 = d.month := by
  obtain ⟨-, -, hmonth, hmonth', -⟩ := hd
  unfold monthNumber
  omega

/-- The number of a day is that of the first day of its month and its day of the month. -/
theorem Date.monthStart_monthNumber {d : Date} (hd : d.Valid) :
    monthStart d.monthNumber + d.day = d.dayNumber + 1 := by
  obtain ⟨hyear, hmonth⟩ := d.monthNumber_ediv hd
  rw [monthStart, hyear, hmonth, dayNumber]
  omega

/-- A day lies in its month. -/
theorem Date.monthStart_bounds {d : Date} (hd : d.Valid) :
    monthStart d.monthNumber ≤ d.dayNumber ∧ d.dayNumber < monthStart (d.monthNumber + 1) := by
  have hnumber := d.monthStart_monthNumber hd
  obtain ⟨hyear, hmonth⟩ := d.monthNumber_ediv hd
  obtain ⟨-, -, -, -, hday, hday'⟩ := hd
  rw [monthStart_succ, hyear, hmonth]
  omega

namespace Period

/-! ## Periods -/

/-- The number of the period that a day lies in. -/
def index : Period → Date → Int
  | .day, d => d.dayNumber
  | .week, d => (d.dayNumber + 5) / 7
  | .month, d => d.monthNumber
  | .quarter, d => d.monthNumber / 3
  | .year, d => d.monthNumber / 12

/-- The number of the first day of a period. -/
def start : Period → Int → Int
  | .day, n => n
  | .week, n => 7 * n - 5
  | .month, n => monthStart n
  | .quarter, n => monthStart (3 * n)
  | .year, n => monthStart (12 * n)

/-- A day that is known to be a Monday. -/
def someMonday : Date := ⟨2024, 5, 13⟩

/-- A period of the unit starts on the day. Weeks start on Monday. -/
def StartsOn : Period → Date → Prop
  | .day, _ => True
  | .week, d => (7 : Int) ∣ d.dayNumber - someMonday.dayNumber
  | .month, d => d.day = 1
  | .quarter, d => d.day = 1 ∧ d.month ∈ [1, 4, 7, 10]
  | .year, d => d.day = 1 ∧ d.month = 1

/-- Later periods of a unit start later. -/
theorem strictMono_start (unit : Period) : StrictMono unit.start := by
  intro m n h
  cases unit with
  | day => exact h
  | week =>
    simp only [start]
    omega
  | month => exact strictMono_monthStart h
  | quarter => exact strictMono_monthStart (by omega)
  | year => exact strictMono_monthStart (by omega)

/-- A day lies in its period. -/
theorem start_index_bounds (unit : Period) {d : Date} (hd : d.Valid) :
    unit.start (unit.index d) ≤ d.dayNumber ∧ d.dayNumber < unit.start (unit.index d + 1) := by
  have hmono := strictMono_monthStart.monotone
  obtain ⟨hlow, hhigh⟩ := d.monthStart_bounds hd
  -- A quarter and a year are whole months, so they inherit the bounds of the month of the day.
  cases unit with
  | day => simp [start, index]
  | week =>
    simp only [start, index]
    omega
  | month => exact ⟨hlow, hhigh⟩
  | quarter =>
    exact ⟨(hmono (by simp only [index]; omega)).trans hlow,
      hhigh.trans_le (hmono (by simp only [index]; omega))⟩
  | year =>
    exact ⟨(hmono (by simp only [index]; omega)).trans hlow,
      hhigh.trans_le (hmono (by simp only [index]; omega))⟩

/-- The range has exactly the days of the period with the given number. -/
structure IsRange (unit : Period) (n : Int) (r : DateRange) (first last : Date) : Prop where
  range : r = .ofDays first last
  valid_first : first.Valid
  valid_last : last.Valid
  startsOn : unit.StartsOn first
  dayNumber_first : first.dayNumber = unit.start n
  dayNumber_last : last.dayNumber + 1 = unit.start (n + 1)

/-- Some months from the first day of a month on, some times the same number of months before or
after a day. -/
private theorem exists_of_months {day moved : Date} {count : Nat} {n offset : Int} {r : DateRange}
    (hvalid : day.Valid) (hday : day.day = 1) (hmonth : day.monthNumber = count * n)
    (hmoved : day.addMonths? (count * offset) = some moved)
    (h : DateRange.months? moved count = some r) :
    ∃ first last : Date, r = .ofDays first last ∧ first.Valid ∧ last.Valid ∧ first.day = 1 ∧
      first.monthNumber = count * (n + offset) ∧
      first.dayNumber = monthStart (count * (n + offset)) ∧
      last.dayNumber + 1 = monthStart (count * (n + offset + 1)) := by
  -- No month is shorter than its first day.
  have hfirstDay (year : Int) (month : Nat) : min 1 (daysInMonth year month) = 1 := by
    have hdays := (daysInMonth_bounds year month).1
    omega
  obtain ⟨hmovedValid, hmovedMonth, hmovedDay⟩ := (Date.addMonths?_eq_some_iff hvalid).1 hmoved
  rw [hday, hfirstDay] at hmovedDay
  rw [hmonth, ← mul_add] at hmovedMonth
  obtain ⟨next, last, hnext, hnextMonth, hnextDay, hlast, hnumber, rfl⟩ :=
    DateRange.exists_of_months? hmovedValid h
  rw [hmovedDay, hfirstDay] at hnextDay
  rw [hmovedMonth, ← mul_add_one] at hnextMonth
  have hstart := moved.monthStart_monthNumber hmovedValid
  have hnextStart := next.monthStart_monthNumber hnext
  rw [hmovedMonth] at hstart
  rw [hnextMonth] at hnextStart
  exact ⟨moved, last, rfl, hmovedValid, hlast, hmovedDay, hmovedMonth, by omega, by omega⟩

/-- The range of a period, some periods before or after that of a day. -/
theorem exists_isRange {unit : Period} {day : Date} {offset : Int} {r : DateRange}
    (hday : day.Valid) (h : period? day unit offset = some r) :
    ∃ first last, unit.IsRange (unit.index day + offset) r first last := by
  obtain ⟨-, -, hmonth₁, hmonth₂, -⟩ := hday
  cases unit with
  | day =>
    obtain ⟨moved, hmoved, h⟩ := Option.bind_eq_some_iff.1 h
    obtain ⟨hvalid, hnumber⟩ := Date.addDays?_eq_some_iff.1 hmoved
    obtain ⟨-, rfl⟩ := DateRange.days?_eq_some_iff.1 h
    exact ⟨moved, moved, rfl, hvalid, hvalid, trivial, hnumber, congrArg (· + 1) hnumber⟩
  | week =>
    obtain ⟨monday, hmonday, h⟩ := Option.bind_eq_some_iff.1 h
    obtain ⟨first, hfirst, h⟩ := Option.bind_eq_some_iff.1 h
    obtain ⟨last, hlast, h⟩ := Option.bind_eq_some_iff.1 h
    obtain ⟨-, hnumber⟩ := Date.addDays?_eq_some_iff.1 hmonday
    obtain ⟨hvalid, hnumber'⟩ := Date.addDays?_eq_some_iff.1 hfirst
    obtain ⟨hvalid', hnumber''⟩ := Date.addDays?_eq_some_iff.1 hlast
    obtain ⟨-, rfl⟩ := DateRange.days?_eq_some_iff.1 h
    -- The number of a Monday leaves a fixed remainder by seven.
    unfold Date.daysSinceMonday at hnumber
    have hstart : first.dayNumber = week.start (week.index day + offset) := by
      simp only [start, index]
      omega
    refine ⟨first, last, rfl, hvalid, hvalid', ?_, hstart, ?_⟩
    · have hmonday : someMonday.dayNumber = 7 * 105627 - 5 := by decide
      rw [StartsOn, hstart, start, hmonday]
      omega
    · rw [hnumber'', hstart]
      simp only [start]
      omega
  | month =>
    obtain ⟨start, hstart, h⟩ := Option.bind_eq_some_iff.1 h
    obtain ⟨moved, hmoved, hrange⟩ := Option.bind_eq_some_iff.1 h
    obtain ⟨hvalid, rfl⟩ := Date.ofParts?_eq_some_iff.1 hstart
    rw [shift?, ← one_mul offset] at hmoved
    obtain ⟨first, last, rfl, hfirst, hlast, hdayOne, -, hnumber, hnumber'⟩ :=
      exists_of_months hvalid rfl (one_mul _).symm hmoved hrange
    rw [Nat.cast_one, one_mul] at hnumber hnumber'
    exact ⟨first, last, rfl, hfirst, hlast, hdayOne, hnumber, hnumber'⟩
  | quarter =>
    obtain ⟨start, hstart, h⟩ := Option.bind_eq_some_iff.1 h
    obtain ⟨moved, hmoved, hrange⟩ := Option.bind_eq_some_iff.1 h
    obtain ⟨hvalid, rfl⟩ := Date.ofParts?_eq_some_iff.1 hstart
    -- The first month of a quarter follows on three months for each quarter before it.
    have hmonth : Date.monthNumber ⟨day.year, (day.month - 1) / 3 * 3 + 1, 1⟩ =
        (3 : Nat) * quarter.index day := by
      simp only [index, Date.monthNumber]
      omega
    obtain ⟨first, last, rfl, hfirst, hlast, hdayOne, hindex, hnumber, hnumber'⟩ :=
      exists_of_months hvalid rfl hmonth hmoved hrange
    refine ⟨first, last, rfl, hfirst, hlast, ⟨hdayOne, ?_⟩, hnumber, hnumber'⟩
    obtain ⟨-, -, hfirst₁, hfirst₂, -⟩ := hfirst
    unfold Date.monthNumber at hindex
    simp only [List.mem_cons, List.not_mem_nil, or_false]
    omega
  | year =>
    obtain ⟨start, hstart, h⟩ := Option.bind_eq_some_iff.1 h
    obtain ⟨moved, hmoved, hrange⟩ := Option.bind_eq_some_iff.1 h
    obtain ⟨hvalid, rfl⟩ := Date.ofParts?_eq_some_iff.1 hstart
    have hmonth : Date.monthNumber ⟨day.year, 1, 1⟩ = (12 : Nat) * year.index day := by
      simp only [index, Date.monthNumber]
      omega
    obtain ⟨first, last, rfl, hfirst, hlast, hdayOne, hindex, hnumber, hnumber'⟩ :=
      exists_of_months hvalid rfl hmonth hmoved hrange
    refine ⟨first, last, rfl, hfirst, hlast, ⟨hdayOne, ?_⟩, hnumber, hnumber'⟩
    obtain ⟨-, -, hfirst₁, hfirst₂, -⟩ := hfirst
    unfold Date.monthNumber at hindex
    omega

end Period

/-! ## Phrases for periods -/

section Phrases

variable {now : DateTime} {cs : List Char}

/-- An expression is read where its trimmed text has a meaning. -/
theorem parseDate_eq_ok_iff {text : String} {r : DateRange} :
    parseDate text now = .ok r ↔ meaning? now (Text.trim text.toList) = some r := by
  have hmeaning : meaning? now (Text.trim text.toList) =
      (fixedFormat? (Text.trim text.toList)).orElse fun _ =>
        phrase? now (Text.trim text.toList).length ((Text.trim text.toList).map lowerLetter) := rfl
  rw [hmeaning, parseDate]
  split
  · rename_i range hrange
    rw [hrange, Except.ok.injEq, Option.some.injEq]
  · rename_i hnone
    rw [hnone]
    constructor <;> intro h <;> cases h

/-- A text that is neither in a fixed format nor a range between two expressions is a simple
phrase. -/
theorem meaning?_of_fromTo?_eq_none (hfixed : fixedFormat? cs = none)
    (h : fromTo? (lower cs) = none) : meaning? now cs = simplePhrase? now (lower cs) := by
  rw [meaning?, hfixed]
  change phrase? now cs.length (lower cs) = _
  cases cs.length with
  | zero => rfl
  | succ depth => rw [phrase?, h]

/-- Only digits start a distance. -/
theorem distance?_eq_none {c : Char} {rest : List Char} (hc : c.isDigit = false) :
    distance? (c :: rest) = none := by
  have hrun : digitRun? (c :: rest) = none := by
    rw [digitRun?, digits?, List.length_cons, List.take_succ_cons,
      List.takeWhile_cons_of_neg (by simp [hc])]
    rfl
  rw [distance?, count?, hrun]
  rfl

/-- The words for a period that is not counted. -/
theorem simplePhrase?_of_namedPeriod? {unit : Period} {offset : Int}
    (h : namedPeriod? cs = some (unit, offset)) :
    simplePhrase? now cs = period? now.date unit offset := by
  have hnames : ∀ word ∈ ["now", "today", "yesterday", "tomorrow"],
      namedPeriod? word.toList = none := by
    decide
  have hne (word : String) (hword : word ∈ ["now", "today", "yesterday", "tomorrow"]) :
      cs ≠ word.toList := by
    rintro rfl
    rw [hnames word hword] at h
    cases h
  -- A named period starts with a word, not with a digit.
  have hdistance : distance? cs = none := by
    obtain ⟨⟨n, rest⟩, hn, -⟩ := Option.bind_eq_some_iff.1 h
    obtain ⟨⟨word, n'⟩, hmem, hword⟩ := List.exists_of_findSome?_eq_some hn
    obtain ⟨rest', hrest, -⟩ := Option.map_eq_some_iff.1 hword
    obtain rfl := eq_append_of_word? hrest
    have hletter : ∀ p ∈ [("last", (-1 : Int)), ("this", 0), ("next", 1)],
        ∃ c rest, p.1.toList = c :: rest ∧ c.isDigit = false := by
      simp
    obtain ⟨c, rest, hc, hdigit⟩ := hletter _ hmem
    dsimp only at hc
    rw [hc]
    exact distance?_eq_none hdigit
  unfold simplePhrase?
  rw [if_neg (hne "now" (by decide)), if_neg (hne "today" (by decide)),
    if_neg (hne "yesterday" (by decide)), if_neg (hne "tomorrow" (by decide)), hdistance, h]

/-- The range of a named period, some periods before or after the present one. -/
theorem period?_of_parseDate {unit : Period} {word : String} {offset : Int} {r : DateRange}
    (hword : (word, offset) ∈ [("last", -1), ("this", 0), ("next", (1 : Int))])
    (h : parseDate (word ++ " " ++ unit.name) now = .ok r) :
    period? now.date unit offset = some r := by
  have hread : ∀ p ∈ [("last", -1), ("this", 0), ("next", (1 : Int))], ∀ unit ∈ Period.all,
      let cs := (p.1 ++ " " ++ unit.name).toList
      Text.trim cs = cs ∧ cs.all isFormatCharacter = false ∧ fromTo? (lower cs) = none ∧
        namedPeriod? (lower cs) = some (unit, p.2) := by
    decide +kernel
  have hunit : unit ∈ Period.all := by cases unit <;> decide
  obtain ⟨htrim, hletter, hfromTo, hnamed⟩ := hread _ hword unit hunit
  have hfixed : fixedFormat? (word ++ " " ++ unit.name).toList = none := by
    refine Option.eq_none_iff_forall_ne_some.2 fun r hr => ?_
    have hall := List.all_eq_true.2 (isFormatCharacter_of_fixedFormat? hr)
    rw [hletter] at hall
    cases hall
  rw [parseDate_eq_ok_iff, htrim, meaning?_of_fromTo?_eq_none hfixed hfromTo,
    simplePhrase?_of_namedPeriod? hnamed] at h
  exact h

end Phrases

/-! ## Periods one after the other -/

namespace Period

/-- Ranges of three periods one after the other. The second one has the given day. Each starts one
millisecond after the end of the one before it, at midnight of the first day of a period. -/
structure Consecutive (unit : Period) (day : Date) (before current after : DateRange) : Prop where
  covers : current.Covers day
  before_current : current.first.nanoseconds = before.last.nanoseconds + DateTime.millisecond
  current_after : after.first.nanoseconds = current.last.nanoseconds + DateTime.millisecond
  startsOn : ∀ r ∈ [before, current, after],
    r.first.date.Valid ∧ r.first.time = .midnight ∧ unit.StartsOn r.first.date

/-- The period of a day covers the day. -/
theorem IsRange.covers {unit : Period} {day first last : Date} {r : DateRange}
    (h : unit.IsRange (unit.index day) r first last) (hday : day.Valid) : r.Covers day := by
  obtain ⟨rfl, hfirst, hlast, -, hnumber, hnumber'⟩ := h
  obtain ⟨hlow, hhigh⟩ := unit.start_index_bounds hday
  rw [DateRange.covers_ofDays_iff, ← Date.strictMonoOn_dayNumber.le_iff_le hfirst hday,
    ← Date.strictMonoOn_dayNumber.le_iff_le hday hlast]
  omega

/-- A period starts at midnight on a first day of its unit. -/
theorem IsRange.startsOn_first {unit : Period} {n : Int} {first last : Date} {r : DateRange}
    (h : unit.IsRange n r first last) :
    r.first.date.Valid ∧ r.first.time = .midnight ∧ unit.StartsOn r.first.date := by
  obtain ⟨rfl, hfirst, -, hstartsOn, -⟩ := h
  exact ⟨hfirst, rfl, hstartsOn⟩

/-- The next period starts one millisecond after a period. -/
theorem IsRange.nanoseconds_succ {unit : Period} {n : Int} {first last first' last' : Date}
    {r r' : DateRange} (h : unit.IsRange n r first last)
    (h' : unit.IsRange (n + 1) r' first' last') :
    r'.first.nanoseconds = r.last.nanoseconds + DateTime.millisecond := by
  obtain ⟨rfl, -, -, -, -, hend⟩ := h
  obtain ⟨rfl, -, -, -, hstart, -⟩ := h'
  exact DateRange.nanoseconds_ofDays (hend.trans hstart.symm)

/-- The last, this and the next period of a unit follow each other without a gap, and this one has
the day of the reference time. -/
theorem consecutive_of_parseDate {now : DateTime} (hnow : now.date.Valid) (unit : Period)
    {before current after : DateRange} (hlast : parseDate ("last " ++ unit.name) now = .ok before)
    (hthis : parseDate ("this " ++ unit.name) now = .ok current)
    (hnext : parseDate ("next " ++ unit.name) now = .ok after) :
    unit.Consecutive now.date before current after := by
  obtain ⟨_, _, hbefore⟩ :=
    exists_isRange hnow (period?_of_parseDate (show ("last", (-1 : Int)) ∈ _ by decide) hlast)
  obtain ⟨_, _, hcurrent⟩ :=
    exists_isRange hnow (period?_of_parseDate (show ("this", (0 : Int)) ∈ _ by decide) hthis)
  obtain ⟨_, _, hafter⟩ :=
    exists_isRange hnow (period?_of_parseDate (show ("next", (1 : Int)) ∈ _ by decide) hnext)
  -- The three ranges are those of the periods before, at and after that of the day.
  rw [add_zero] at hcurrent
  refine ⟨hcurrent.covers hnow, ?_, hcurrent.nanoseconds_succ hafter, ?_⟩
  · rw [← neg_add_cancel_right (unit.index now.date) 1] at hcurrent
    exact hbefore.nanoseconds_succ hcurrent
  · intro r hr
    simp only [List.mem_cons, List.not_mem_nil, or_false] at hr
    obtain rfl | rfl | rfl := hr
    · exact hbefore.startsOn_first
    · exact hcurrent.startsOn_first
    · exact hafter.startsOn_first

/-- The evening of a leap day. -/
private def leapDay : DateTime := ⟨⟨2024, 2, 29⟩, ⟨21, 15, 0, 0⟩⟩

/-- The quarters around a leap day. The first one ends with a year. -/
theorem consecutive_of_parseDate_leapDay :
    parseDate "last quarter" leapDay =
      .ok ⟨⟨⟨2023, 10, 1⟩, .midnight⟩, ⟨⟨2023, 12, 31⟩, .lastMillisecond⟩⟩ ∧
    parseDate "this quarter" leapDay =
      .ok ⟨⟨⟨2024, 1, 1⟩, .midnight⟩, ⟨⟨2024, 3, 31⟩, .lastMillisecond⟩⟩ ∧
    parseDate "next quarter" leapDay =
      .ok ⟨⟨⟨2024, 4, 1⟩, .midnight⟩, ⟨⟨2024, 6, 30⟩, .lastMillisecond⟩⟩ ∧
    quarter.Consecutive ⟨2024, 2, 29⟩
      ⟨⟨⟨2023, 10, 1⟩, .midnight⟩, ⟨⟨2023, 12, 31⟩, .lastMillisecond⟩⟩
      ⟨⟨⟨2024, 1, 1⟩, .midnight⟩, ⟨⟨2024, 3, 31⟩, .lastMillisecond⟩⟩
      ⟨⟨⟨2024, 4, 1⟩, .midnight⟩, ⟨⟨2024, 6, 30⟩, .lastMillisecond⟩⟩ := by
  have hlast : parseDate "last quarter" leapDay =
      .ok ⟨⟨⟨2023, 10, 1⟩, .midnight⟩, ⟨⟨2023, 12, 31⟩, .lastMillisecond⟩⟩ := by
    decide +kernel
  have hthis : parseDate "this quarter" leapDay =
      .ok ⟨⟨⟨2024, 1, 1⟩, .midnight⟩, ⟨⟨2024, 3, 31⟩, .lastMillisecond⟩⟩ := by
    decide +kernel
  have hnext : parseDate "next quarter" leapDay =
      .ok ⟨⟨⟨2024, 4, 1⟩, .midnight⟩, ⟨⟨2024, 6, 30⟩, .lastMillisecond⟩⟩ := by
    decide +kernel
  exact ⟨hlast, hthis, hnext,
    consecutive_of_parseDate (by decide : leapDay.date.Valid) quarter hlast hthis hnext⟩

end Period

end MetricLayer.Calendar
