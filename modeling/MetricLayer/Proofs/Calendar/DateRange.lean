import MetricLayer.Calendar.DateRange
import MetricLayer.Proofs.Calendar.Date

/-!
# Points in time and their order

Points in time are ordered by day and time of day. A range of days starts at midnight and ends with
the last millisecond of a day, so it covers a day exactly where the day lies between its ends, and
the range of the days that follow starts one millisecond later.

- `Time.Valid`, `DateTime.Valid`, `DateRange.Valid` — times of day, points in time and ranges that
  exist;
- `DateTime.nanoseconds` — where a point stands on the line of time;
- `DateRange.Covers` — a whole day lies in a range;
- `DateRange.days?_eq_some_iff`, `DateRange.exists_of_months?` — which ranges of days and of months
  there are.
-/

namespace MetricLayer.Calendar

namespace Time

/-- The time is one of a day, where the second 60 is a leap second. -/
def Valid (t : Time) : Prop :=
  t.hour ≤ 23 ∧ t.minute ≤ 59 ∧ t.second ≤ 60 ∧ t.nanosecond < 1000000000

instance (t : Time) : Decidable t.Valid := by
  unfold Valid
  infer_instance

theorem valid_midnight : midnight.Valid := by decide

theorem valid_lastMillisecond : lastMillisecond.Valid := by decide

/-- The parts of a time in the order in which times are compared. -/
def key (t : Time) : Nat ×ₗ Nat ×ₗ Nat ×ₗ Nat :=
  toLex (t.hour, toLex (t.minute, toLex (t.second, t.nanosecond)))

/-- A time is known by its parts. -/
theorem key_injective : Function.Injective key := by
  rintro ⟨_, _, _, _⟩ ⟨_, _, _, _⟩ h
  simpa [key] using h

/-- Times are compared by hour, minute, second and nanosecond. -/
instance : LinearOrder Time := LinearOrder.lift' key key_injective

/-- Times are in the order of hours, then of minutes, seconds and nanoseconds. -/
theorem lt_iff {s t : Time} : s < t ↔
    s.hour < t.hour ∨ s.hour = t.hour ∧ (s.minute < t.minute ∨ s.minute = t.minute ∧
      (s.second < t.second ∨ s.second = t.second ∧ s.nanosecond < t.nanosecond)) := by
  change key s < key t ↔ _
  simp [key, Prod.Lex.toLex_lt_toLex]

theorem midnight_lt_lastMillisecond : midnight < lastMillisecond := by
  rw [lt_iff]
  decide

end Time

namespace DateTime

/-- The day and the time exist. -/
structure Valid (t : DateTime) : Prop where
  date : t.date.Valid
  time : t.time.Valid

instance (t : DateTime) : Decidable t.Valid :=
  decidable_of_iff (t.date.Valid ∧ t.time.Valid) ⟨fun h => ⟨h.1, h.2⟩, fun h => ⟨h.1, h.2⟩⟩

/-- The parts of a point in time in the order in which points in time are compared. -/
def key (t : DateTime) : Date ×ₗ Time := toLex (t.date, t.time)

/-- An instant is known by its day and its time. -/
theorem key_injective : Function.Injective key := by
  rintro ⟨_, _⟩ ⟨_, _⟩ h
  simpa [key] using h

/-- Points in time are compared by day and time of day. -/
instance : LinearOrder DateTime := LinearOrder.lift' key key_injective

/-- Instants are in the order of days, and on one day in that of times. -/
theorem le_iff {s t : DateTime} : s ≤ t ↔ s.date < t.date ∨ s.date = t.date ∧ s.time ≤ t.time := by
  change key s ≤ key t ↔ _
  simp [key, Prod.Lex.toLex_le_toLex]

/-- An instant is earlier where its day is, or its time on the same day. -/
theorem lt_iff {s t : DateTime} : s < t ↔ s.date < t.date ∨ s.date = t.date ∧ s.time < t.time := by
  change key s < key t ↔ _
  simp [key, Prod.Lex.toLex_lt_toLex]

/-- The nanoseconds from the start of the year zero to a point in time, without leap seconds. -/
def nanoseconds (t : DateTime) : Int :=
  (t.date.dayNumber * 86400 + ((t.time.hour * 60 + t.time.minute) * 60 + t.time.second : Nat)) *
    1000000000 + t.time.nanosecond

/-- The nanoseconds of a millisecond. -/
def millisecond : Int := 1000000

end DateTime

namespace DateRange

variable {first last day : Date} {r : DateRange}

/-- Both ends exist. -/
structure Valid (r : DateRange) : Prop where
  first : r.first.Valid
  last : r.last.Valid

/-- The whole day lies in the range. -/
def Covers (r : DateRange) (day : Date) : Prop :=
  r.first ≤ ⟨day, .midnight⟩ ∧ ⟨day, .lastMillisecond⟩ ≤ r.last

/-- The range of the days from `first` to `last`. -/
def ofDays (first last : Date) : DateRange := ⟨⟨first, .midnight⟩, ⟨last, .lastMillisecond⟩⟩

/-- A range of days covers the days from its first to its last one. -/
theorem covers_ofDays_iff : (ofDays first last).Covers day ↔ first ≤ day ∧ day ≤ last := by
  simp only [Covers, ofDays, DateTime.le_iff, le_refl, and_true, ← le_iff_lt_or_eq]

/-- A range of days in order starts before it ends. -/
theorem first_le_last_ofDays (h : first ≤ last) :
    (ofDays first last).first ≤ (ofDays first last).last := by
  rw [DateTime.le_iff]
  exact h.lt_or_eq.imp_right fun h => ⟨h, Time.midnight_lt_lastMillisecond.le⟩

/-- A range of valid days has valid ends. -/
theorem valid_ofDays (hfirst : first.Valid) (hlast : last.Valid) : (ofDays first last).Valid :=
  ⟨⟨hfirst, Time.valid_midnight⟩, ⟨hlast, Time.valid_lastMillisecond⟩⟩

/-- The next day starts one millisecond after a range of days. -/
theorem nanoseconds_ofDays {next after : Date} (h : last.dayNumber + 1 = next.dayNumber) :
    (ofDays next after).first.nanoseconds =
      (ofDays first last).last.nanoseconds + DateTime.millisecond := by
  simp only [ofDays, DateTime.nanoseconds, Time.midnight, Time.lastMillisecond,
    DateTime.millisecond]
  omega

/-- There is a range up to every day that is not the last one. -/
theorem days?_eq_some_iff :
    days? first last = some r ↔ (∃ next, last.succ? = some next) ∧ r = ofDays first last := by
  rw [days?, Option.map_eq_some_iff]
  constructor
  · rintro ⟨next, hnext, rfl⟩
    exact ⟨⟨next, hnext⟩, rfl⟩
  · rintro ⟨⟨next, hnext⟩, rfl⟩
    exact ⟨next, hnext, rfl⟩

/-- A range of months ends on the day before the month that follows them. -/
theorem exists_of_months? {count : Nat} (hfirst : first.Valid) (h : months? first count = some r) :
    ∃ next last : Date, next.Valid ∧ next.monthNumber = first.monthNumber + count ∧
      next.day = min first.day (daysInMonth next.year next.month) ∧ last.Valid ∧
      last.dayNumber + 1 = next.dayNumber ∧ r = ofDays first last := by
  obtain ⟨next, hnext, h⟩ := Option.bind_eq_some_iff.1 h
  obtain ⟨last, hlast, h⟩ := Option.bind_eq_some_iff.1 h
  obtain ⟨hvalid, hmonth, hday⟩ := (Date.addMonths?_eq_some_iff hfirst).1 hnext
  obtain ⟨hlastValid, hnumber⟩ := Date.pred?_eq_some_iff.1 hlast
  exact ⟨next, last, hvalid, hmonth, hday, hlastValid, hnumber, (days?_eq_some_iff.1 h).2⟩

end DateRange

end MetricLayer.Calendar
