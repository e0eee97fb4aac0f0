import MetricLayer.Calendar.Date
import Mathlib.Data.Int.ConditionallyCompleteOrder
import Mathlib.Data.Prod.Lex
import Mathlib.Order.ConditionallyCompleteLattice.Basic

/-!
# Days and their numbers

Arithmetic with days goes through the number of a day. The number of a valid day determines the day,
and later days have greater numbers. So moving by days adds to numbers, and moving by months adds to
the months that are counted through all years.

- `strictMono_daysBeforeYear`, `monotone_daysBeforeMonth` — years and months one after the other;
- `Date.strictMonoOn_dayNumber` — days in the order of year, month and day of the month;
- `Date.ofDayNumber?_eq_some_iff` — finding the day with a number undoes numbering;
- `Date.addDays?_eq_some_iff`, `Date.addMonths?_eq_some_iff` — where moving a day leads.
-/

namespace MetricLayer.Calendar

/-! ## Years -/

/-- Each year adds its own days. -/
theorem daysBeforeYear_succ (year : Int) :
    daysBeforeYear (year + 1) = daysBeforeYear year + daysInYear year := by
  have hleap : isLeap year = true ↔ year % 4 = 0 ∧ (year % 100 ≠ 0 ∨ year % 400 = 0) := by
    simp [isLeap]
  unfold daysBeforeYear daysInYear
  by_cases h : isLeap year = true
  · rw [if_pos h]
    rw [hleap] at h
    omega
  · rw [if_neg h]
    rw [hleap] at h
    omega

/-- Later years have more days before them. -/
theorem strictMono_daysBeforeYear : StrictMono daysBeforeYear := by
  refine strictMono_int_of_lt_succ fun year => ?_
  rw [daysBeforeYear_succ, daysInYear]
  split_ifs <;> omega

/-! ## Months -/

/-- Months have between 28 and 31 days. -/
theorem daysInMonth_bounds (year : Int) (month : Nat) :
    28 ≤ daysInMonth year month ∧ daysInMonth year month ≤ 31 := by
  unfold daysInMonth
  split_ifs <;> omega

/-- Each month adds its own days. -/
theorem daysBeforeMonth_succ (year : Int) {month : Nat} (h : 1 ≤ month) :
    daysBeforeMonth year (month + 1) = daysBeforeMonth year month + daysInMonth year month := by
  obtain ⟨month, rfl⟩ := Nat.exists_eq_succ_of_ne_zero (Nat.one_le_iff_ne_zero.1 h)
  rfl

/-- The months of a year have the days of the year. -/
theorem daysBeforeMonth_thirteen (year : Int) : daysBeforeMonth year 13 = daysInYear year := by
  simp only [daysBeforeMonth, daysInMonth, daysInYear]
  cases isLeap year <;> rfl

/-- Later months have no fewer days before them. -/
theorem monotone_daysBeforeMonth (year : Int) : Monotone (daysBeforeMonth year) := by
  refine monotone_nat_of_le_succ fun month => ?_
  cases month with
  | zero => rfl
  | succ month => exact Nat.le_add_right _ _

namespace Date

variable {d e : Date}

/-! ## The order of days -/

/-- The parts of a day in the order in which days are compared. -/
def key (d : Date) : Int ×ₗ Nat ×ₗ Nat := toLex (d.year, toLex (d.month, d.day))

/-- A day is known by its year, month and day of the month. -/
theorem key_injective : Function.Injective key := by
  rintro ⟨_, _, _⟩ ⟨_, _, _⟩ h
  simpa [key] using h

/-- Days are compared by year, month and day of the month. -/
instance : LinearOrder Date := LinearOrder.lift' key key_injective

/-- Days are in the order of years, then of months, then of days of the month. -/
theorem lt_iff : d < e ↔ d.year < e.year ∨ d.year = e.year ∧
    (d.month < e.month ∨ d.month = e.month ∧ d.day < e.day) := by
  change key d < key e ↔ _
  simp [key, Prod.Lex.toLex_lt_toLex]

/-! ## The number of a day -/

/-- The number of a day lies within its year. -/
theorem dayNumber_bounds (hd : d.Valid) :
    daysBeforeYear d.year ≤ d.dayNumber ∧ d.dayNumber < daysBeforeYear (d.year + 1) := by
  obtain ⟨-, -, hmonth, hmonth', hday, hday'⟩ := hd
  have hnext := daysBeforeMonth_succ d.year hmonth
  have hyear := monotone_daysBeforeMonth d.year (Nat.succ_le_succ hmonth')
  rw [Nat.succ_eq_add_one, daysBeforeMonth_thirteen] at hyear
  rw [daysBeforeYear_succ, dayNumber]
  omega

/-- Later days have greater numbers. -/
theorem strictMonoOn_dayNumber : StrictMonoOn dayNumber {d | d.Valid} := by
  intro d hd e he h
  -- A year or a month that is earlier has ended before the later one starts.
  rcases lt_iff.1 h with hyear | ⟨hyear, hmonth | ⟨hmonth, hday⟩⟩
  · have hle : daysBeforeYear (d.year + 1) ≤ daysBeforeYear e.year :=
      strictMono_daysBeforeYear.monotone hyear
    exact (dayNumber_bounds hd).2.trans_le (hle.trans (dayNumber_bounds he).1)
  · obtain ⟨-, -, hd₁, -, -, hd₂⟩ := hd
    obtain ⟨-, -, -, -, he₁, -⟩ := he
    have hnext := daysBeforeMonth_succ d.year hd₁
    have hle := monotone_daysBeforeMonth d.year (Nat.succ_le_of_lt hmonth)
    rw [dayNumber, dayNumber, ← hyear]
    rw [Nat.succ_eq_add_one] at hle
    omega
  · rw [dayNumber, dayNumber, hyear, hmonth]
    omega

/-- Different days have different numbers. -/
theorem dayNumber_inj (hd : d.Valid) (he : e.Valid) (h : d.dayNumber = e.dayNumber) : d = e :=
  strictMonoOn_dayNumber.injOn hd he h

/-- The year that is found for a number is the one whose days have it. -/
theorem yearOf_spec (number : Int) :
    daysBeforeYear (yearOf number) ≤ number ∧ number < daysBeforeYear (yearOf number + 1) := by
  -- Within the 400 years of a cycle, dividing by 366 falls short by at most one year.
  have hguess (guess : Int) (hnonneg : 0 ≤ guess) (hle : guess ≤ 399) :
      daysBeforeYear guess ≤ 366 * guess ∧ 366 * (guess + 1) ≤ daysBeforeYear (guess + 1 + 1) := by
    unfold daysBeforeYear
    omega
  have hcycle (cycle year : Int) :
      daysBeforeYear (cycle * 400 + year) = cycle * 146097 + daysBeforeYear year := by
    unfold daysBeforeYear
    omega
  have hrest := Int.emod_add_mul_ediv number 146097
  have hnonneg := Int.emod_nonneg number (by decide : (146097 : Int) ≠ 0)
  have hlt := Int.emod_lt_of_pos number (by decide : (0 : Int) < 146097)
  have hbounds := hguess (number % 146097 / 366) (by omega) (by omega)
  unfold yearOf
  dsimp only
  rw [add_assoc, hcycle, hcycle]
  split_ifs with hnext
  · omega
  · omega

/-- The year of a day is found for its number. -/
theorem yearOf_dayNumber (hd : d.Valid) : yearOf d.dayNumber = d.year := by
  obtain ⟨hlow, hhigh⟩ := dayNumber_bounds hd
  obtain ⟨hlow', hhigh'⟩ := yearOf_spec d.dayNumber
  have h := strictMono_daysBeforeYear.lt_iff_lt.1 (hlow.trans_lt hhigh')
  have h' := strictMono_daysBeforeYear.lt_iff_lt.1 (hlow'.trans_lt hhigh)
  omega

/-- Looking ahead finds the month in which a day lies and its day of the month. -/
theorem monthAndDay_spec (year : Int) {month rest : Nat} (hmonth : 1 ≤ month) (months : Nat)
    (hrest : daysBeforeMonth year month + rest < daysBeforeMonth year (month + months + 1)) :
    let found := monthAndDay year month rest months
    month ≤ found.1 ∧ found.1 ≤ month + months ∧ 1 ≤ found.2 ∧
      found.2 ≤ daysInMonth year found.1 ∧
      daysBeforeMonth year found.1 + found.2 = daysBeforeMonth year month + rest + 1 := by
  -- By induction on the months that are left. A month that is passed takes its days off the rest.
  induction months generalizing month rest with
  | zero =>
    rw [Nat.add_zero, daysBeforeMonth_succ year hmonth] at hrest
    simp only [monthAndDay]
    omega
  | succ months ih =>
    have hnext := daysBeforeMonth_succ year hmonth
    rw [monthAndDay]
    split_ifs with hlast
    · dsimp only
      omega
    · have hmonths : month + 1 + months + 1 = month + (months + 1) + 1 := by omega
      have hrest' : daysBeforeMonth year (month + 1) + (rest - daysInMonth year month) <
          daysBeforeMonth year (month + 1 + months + 1) := by
        rw [hmonths]
        omega
      have hfound := ih (Nat.le_add_left 1 month) hrest'
      dsimp only at hfound ⊢
      omega

/-- Every number is that of a day of its year, whether the calendar has this year or not. -/
theorem dayNumber_monthAndDay (number : Int) :
    let year := yearOf number
    let found := monthAndDay year 1 (number - daysBeforeYear year).toNat 11
    (1 ≤ found.1 ∧ found.1 ≤ 12 ∧ 1 ≤ found.2 ∧ found.2 ≤ daysInMonth year found.1) ∧
      dayNumber ⟨year, found.1, found.2⟩ = number := by
  obtain ⟨hlow, hhigh⟩ := yearOf_spec number
  -- The days since the start of the year fit into its twelve months.
  have hrest : daysBeforeMonth (yearOf number) 1 + (number - daysBeforeYear (yearOf number)).toNat <
      daysBeforeMonth (yearOf number) (1 + 11 + 1) := by
    rw [daysBeforeMonth_thirteen, daysBeforeMonth]
    rw [daysBeforeYear_succ] at hhigh
    omega
  obtain ⟨hmonth, hmonth', hday, hday', hnumber⟩ := monthAndDay_spec _ (by decide) 11 hrest
  refine ⟨⟨hmonth, hmonth', hday, hday'⟩, ?_⟩
  rw [daysBeforeMonth] at hnumber
  rw [dayNumber]
  dsimp only
  omega

/-- The day with a number is the one whose number it is. -/
theorem ofDayNumber?_eq_some_iff {number : Int} :
    ofDayNumber? number = some d ↔ d.Valid ∧ d.dayNumber = number := by
  obtain ⟨hparts, hfound⟩ := dayNumber_monthAndDay number
  rw [ofDayNumber?]
  dsimp only
  generalize monthAndDay (yearOf number) 1 (number - daysBeforeYear (yearOf number)).toNat 11 =
    found at *
  rw [ofParts?]
  constructor
  · intro h
    split_ifs at h with hvalid
    obtain rfl := Option.some.inj h
    exact ⟨hvalid, hfound⟩
  · rintro ⟨hd, rfl⟩
    have hyear := yearOf_dayNumber hd
    have hvalid : Valid ⟨yearOf d.dayNumber, found.1, found.2⟩ := by
      refine ⟨?_, ?_, hparts⟩
      · exact hyear ▸ hd.1
      · exact hyear ▸ hd.2.1
    rw [if_pos hvalid, dayNumber_inj hvalid hd hfound]

/-- The calendar has no gaps. -/
theorem exists_dayNumber_eq (hd : d.Valid) (he : e.Valid) {number : Int}
    (hlow : d.dayNumber ≤ number) (hhigh : number ≤ e.dayNumber) :
    ∃ f : Date, f.Valid ∧ f.dayNumber = number := by
  obtain ⟨hparts, hfound⟩ := dayNumber_monthAndDay number
  obtain ⟨hstart, hend⟩ := yearOf_spec number
  have hyear := strictMono_daysBeforeYear.lt_iff_lt.1
    ((dayNumber_bounds hd).1.trans_lt (hlow.trans_lt hend))
  have hyear' := strictMono_daysBeforeYear.lt_iff_lt.1
    (hstart.trans_lt (hhigh.trans_lt (dayNumber_bounds he).2))
  exact ⟨_, ⟨hd.1.trans (Int.lt_add_one_iff.1 hyear), (Int.lt_add_one_iff.1 hyear').trans he.2.1,
    hparts⟩, hfound⟩

/-- A valid day is made of its parts. -/
theorem ofParts?_eq_some_iff {year : Int} {month day : Nat} :
    ofParts? year month day = some d ↔ d.Valid ∧ d = ⟨year, month, day⟩ := by
  rw [ofParts?]
  constructor
  · intro h
    split_ifs at h with hvalid
    obtain rfl := Option.some.inj h
    exact ⟨hvalid, rfl⟩
  · rintro ⟨hvalid, rfl⟩
    exact if_pos hvalid

/-! ## Moving by days -/

/-- Moving by days leads to the valid day whose number is that much greater. -/
theorem addDays?_eq_some_iff {n : Int} :
    d.addDays? n = some e ↔ e.Valid ∧ e.dayNumber = d.dayNumber + n := ofDayNumber?_eq_some_iff

/-- The next day has the next number. -/
theorem succ?_eq_some_iff : d.succ? = some e ↔ e.Valid ∧ e.dayNumber = d.dayNumber + 1 :=
  addDays?_eq_some_iff

/-- The day before has the number before. -/
theorem pred?_eq_some_iff : d.pred? = some e ↔ e.Valid ∧ e.dayNumber + 1 = d.dayNumber := by
  rw [pred?, addDays?_eq_some_iff]
  exact and_congr_right fun _ => ⟨fun h => by omega, fun h => by omega⟩

/-! ## Moving by months -/

/-- The months from the first month of the year zero to the month of a day. -/
def monthNumber (d : Date) : Int := d.year * 12 + d.month - 1

/-- A day of an earlier month is earlier. -/
theorem lt_of_monthNumber_lt (hd : d.Valid) (he : e.Valid) (h : d.monthNumber < e.monthNumber) :
    d < e := by
  obtain ⟨-, -, hd₁, hd₂, -⟩ := hd
  obtain ⟨-, -, he₁, he₂, -⟩ := he
  rw [lt_iff]
  unfold monthNumber at h
  omega

/-- Moving by months leads to the same day of another month, or to its last day where it is shorter.
-/
theorem addMonths?_eq_some_iff (hd : d.Valid) {n : Int} :
    d.addMonths? n = some e ↔ e.Valid ∧ e.monthNumber = d.monthNumber + n ∧
      e.day = min d.day (daysInMonth e.year e.month) := by
  have htotal : d.year * 12 + (d.month - 1 : Nat) + n = d.monthNumber + n := by
    have hmonth := hd.2.2.1
    unfold monthNumber
    omega
  rw [addMonths?]
  rw [htotal, ofParts?_eq_some_iff]
  refine and_congr_right fun he => ?_
  obtain ⟨-, -, hmonth, hmonth', -⟩ := he
  obtain ⟨year, month, day⟩ := e
  dsimp only at hmonth hmonth'
  -- The year and the month are quotient and remainder of the number of the month.
  have hparts : year = (d.monthNumber + n) / 12 ∧ month = ((d.monthNumber + n) % 12).toNat + 1 ↔
      monthNumber ⟨year, month, day⟩ = d.monthNumber + n := by
    unfold monthNumber
    dsimp only
    omega
  rw [Date.mk.injEq, ← and_assoc, hparts]
  refine and_congr_right fun h => ?_
  obtain ⟨hyear, hmonth⟩ := hparts.2 h
  rw [← hyear, ← hmonth]

end Date

end MetricLayer.Calendar
