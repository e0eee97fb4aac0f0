import MetricLayer.Proofs.Calendar.Period
import Mathlib.Algebra.Ring.Nat

/-!
# What texts stand for

A text that stands for a range of time, be it in a fixed format or a phrase, stands for one whose
ends exist and stand in order. Only a range between two expressions can be empty, as its ends come
from different expressions.

- `DateRange.Proper` — the ends of a range exist and stand in order;
- `shift?_zero`, `shift?_lt_shift?` — moving a day by more units leads to a later day;
- `proper_of_fixedFormat?`, `proper_of_simplePhrase?` — the ranges of the fixed formats and of the
  phrases;
- `proper_of_parseDate` — the ranges of all texts but those between two expressions.
-/

namespace MetricLayer.Calendar

/-! ## Ranges in order -/

namespace DateRange

/-- Both ends exist, and the first one is not after the last one. -/
structure Proper (r : DateRange) : Prop extends r.Valid where
  first_le_last : r.first ≤ r.last

variable {first last : Date} {r : DateRange}

/-- A single instant is a range in order. -/
theorem proper_instant {t : DateTime} (h : t.Valid) : (instant t).Proper := ⟨⟨h, h⟩, le_rfl⟩

/-- Days in order make a range in order. -/
theorem proper_ofDays (hfirst : first.Valid) (hlast : last.Valid) (h : first ≤ last) :
    (ofDays first last).Proper := ⟨valid_ofDays hfirst hlast, first_le_last_ofDays h⟩

/-- A whole day is a range in order. -/
theorem proper_of_day? (hday : first.Valid) (h : day? first = some r) : r.Proper := by
  obtain ⟨-, rfl⟩ := days?_eq_some_iff.1 h
  exact proper_ofDays hday hday le_rfl

/-- Whole months, one at least, are a range in order. -/
theorem proper_of_months? {count : Nat} (hcount : 0 < count) (hfirst : first.Valid)
    (h : months? first count = some r) : r.Proper := by
  obtain ⟨next, last, hnext, hmonth, -, hlast, hnumber, rfl⟩ := exists_of_months? hfirst h
  have hlt : first < next := Date.lt_of_monthNumber_lt hfirst hnext (by omega)
  have hnumbers := Date.strictMonoOn_dayNumber hfirst hnext hlt
  exact proper_ofDays hfirst hlast
    ((Date.strictMonoOn_dayNumber.le_iff_le hfirst hlast).1 (by omega))

end DateRange

/-! ## Fixed formats -/

section Readers

variable {cs rest : List Char}

/-- The value of some digits has no more digits. -/
theorem digitsValue_lt {ds : List Char} (hds : ∀ c ∈ ds, c.isDigit = true) :
    digitsValue ds < 10 ^ ds.length := by
  -- The value is built up from the left, so the induction takes digits from the end.
  induction ds using List.reverseRecOn with
  | nil => decide
  | append_singleton ds c ih =>
    obtain ⟨hds, hc⟩ := List.forall_mem_append.1 hds
    have hdigit := (isDigit_iff c).1 (hc c List.mem_cons_self)
    have hfront := ih hds
    have hlast : digitsValue (ds ++ [c]) = digitsValue ds * 10 + (c.toNat - 48) := by
      rw [digitsValue, List.foldl_append]
      rfl
    rw [hlast, List.length_append, List.length_singleton, Nat.pow_succ]
    omega

/-- A fraction of a second is less than a second. -/
theorem fraction?_lt {n : Nat} (h : fraction? cs = some (n, rest)) : n < 1000000000 := by
  unfold fraction? at h
  split at h
  · obtain ⟨⟨ds, after⟩, hrun, h⟩ := Option.bind_eq_some_iff.1 h
    obtain ⟨rfl, -⟩ := Prod.mk.inj (Option.some.inj h)
    obtain ⟨-, -, hds⟩ := eq_append_of_digits? hrun
    -- However many digits are written, nine of them are kept.
    have hall : ∀ c ∈ (ds ++ List.replicate 9 '0').take 9, c.isDigit = true := by
      intro c hc
      rcases List.mem_append.1 (List.mem_of_mem_take hc) with hc | hc
      · exact hds c hc
      · rw [List.eq_of_mem_replicate hc]
        decide
    have hlength : ((ds ++ List.replicate 9 '0').take 9).length = 9 := by simp
    have hlt := digitsValue_lt hall
    rwa [hlength] at hlt
  · obtain ⟨rfl, -⟩ := Prod.mk.inj (Option.some.inj h)
    decide

/-- A time is only made of parts that are in range. -/
theorem Time.valid_of_ofParts? {hour minute second nanosecond : Nat} {t : Time}
    (hnanosecond : nanosecond < 1000000000)
    (h : ofParts? hour minute second nanosecond = some t) : t.Valid := by
  unfold ofParts? at h
  split_ifs at h with hparts
  obtain rfl := Option.some.inj h
  exact ⟨hparts.1, hparts.2.1, hparts.2.2, hnanosecond⟩

/-- A date that is read is a day of the calendar. -/
theorem valid_of_date? {d : Date} (h : date? cs = some (d, rest)) : d.Valid := by
  obtain ⟨⟨year, cs₁⟩, -, h⟩ := Option.bind_eq_some_iff.1 h
  obtain ⟨cs₂, -, h⟩ := Option.bind_eq_some_iff.1 h
  obtain ⟨⟨month, cs₃⟩, -, h⟩ := Option.bind_eq_some_iff.1 h
  obtain ⟨cs₄, -, h⟩ := Option.bind_eq_some_iff.1 h
  obtain ⟨⟨day, cs₅⟩, -, h⟩ := Option.bind_eq_some_iff.1 h
  obtain ⟨date, hdate, h⟩ := Option.bind_eq_some_iff.1 h
  obtain ⟨rfl, -⟩ := Prod.mk.inj (Option.some.inj h)
  exact (Date.ofParts?_eq_some_iff.1 hdate).1

/-- A time that is read is a time of the day. -/
theorem valid_of_time? {t : Time} (h : time? cs = some (t, rest)) : t.Valid := by
  obtain ⟨⟨hour, cs₁⟩, -, h⟩ := Option.bind_eq_some_iff.1 h
  obtain ⟨cs₂, -, h⟩ := Option.bind_eq_some_iff.1 h
  obtain ⟨⟨minute, cs₃⟩, -, h⟩ := Option.bind_eq_some_iff.1 h
  dsimp only at h
  split at h
  · obtain ⟨⟨second, cs₄⟩, -, h⟩ := Option.bind_eq_some_iff.1 h
    obtain ⟨⟨nanosecond, cs₅⟩, hnanosecond, h⟩ := Option.bind_eq_some_iff.1 h
    obtain ⟨time, htime, h⟩ := Option.bind_eq_some_iff.1 h
    obtain ⟨rfl, -⟩ := Prod.mk.inj (Option.some.inj h)
    exact Time.valid_of_ofParts? (fraction?_lt hnanosecond) htime
  · obtain ⟨time, htime, h⟩ := Option.bind_eq_some_iff.1 h
    obtain ⟨rfl, -⟩ := Prod.mk.inj (Option.some.inj h)
    exact Time.valid_of_ofParts? (by decide) htime

/-- A day and a time that are read are valid. -/
theorem valid_of_dateTime? {t : DateTime} (h : dateTime? cs = some (t, rest)) : t.Valid := by
  obtain ⟨⟨date, cs₁⟩, hdate, h⟩ := Option.bind_eq_some_iff.1 h
  obtain ⟨⟨time, cs₂⟩, htime, h⟩ := Option.bind_eq_some_iff.1 h
  obtain ⟨rfl, -⟩ := Prod.mk.inj (Option.some.inj h)
  exact ⟨valid_of_date? hdate, valid_of_time? htime⟩

/-- Moving a point in time by minutes keeps the seconds, and the hour and the minute are those of a
day. -/
theorem DateTime.valid_of_addMinutes? {s t : DateTime} {n : Int} (hs : s.time.Valid)
    (h : s.addMinutes? n = some t) : t.Valid := by
  obtain ⟨date, hdate, h⟩ := Option.bind_eq_some_iff.1 h
  obtain rfl := Option.some.inj h
  obtain ⟨hvalid, -⟩ := Date.addDays?_eq_some_iff.1 hdate
  obtain ⟨-, -, hsecond, hnanosecond⟩ := hs
  exact ⟨hvalid, by dsimp only; omega, by dsimp only; omega, hsecond, hnanosecond⟩

/-- An instant with an offset that is read is valid. -/
theorem valid_of_zonedDateTime? {t : DateTime} (h : zonedDateTime? cs = some (t, rest)) :
    t.Valid := by
  obtain ⟨_, _, _, _, _, -, -, htime, -, minutes, hmoved⟩ := exists_of_zonedDateTime? h
  exact DateTime.valid_of_addMinutes? (valid_of_time? htime) hmoved

/-- The range of a text in a fixed format is a day, a point in time or a month. -/
theorem proper_of_fixedFormat? {r : DateRange} (h : fixedFormat? cs = some r) : r.Proper := by
  unfold fixedFormat? at h
  split at h
  · rename_i day hday
    exact DateRange.proper_of_day? (valid_of_date? (whole?_eq_some_iff.1 hday)) h
  · split at h
    · rename_i t ht
      obtain rfl := Option.some.inj h
      exact DateRange.proper_instant (valid_of_dateTime? (whole?_eq_some_iff.1 ht))
    · rename_i t _ ht
      obtain rfl := Option.some.inj h
      exact DateRange.proper_instant (valid_of_zonedDateTime? (whole?_eq_some_iff.1 ht))
    · obtain ⟨first, hfirst, h⟩ := Option.bind_eq_some_iff.1 h
      exact DateRange.proper_of_months? Nat.one_pos (valid_of_date? (whole?_eq_some_iff.1 hfirst)) h

end Readers

/-! ## Phrases -/

section Phrases

variable {d e f : Date} {unit : Period} {n m : Int}

/-- Moving a day leads to a day of the calendar. -/
theorem valid_of_shift? (hd : d.Valid) (h : shift? d unit n = some e) : e.Valid := by
  cases unit with
  | day | week => exact (Date.addDays?_eq_some_iff.1 h).1
  | month | quarter | year => exact ((Date.addMonths?_eq_some_iff hd).1 h).1

/-- Moving a day by no unit leaves it where it is. -/
theorem shift?_zero (hd : d.Valid) (unit : Period) : shift? d unit 0 = some d := by
  have hdays : d.addDays? 0 = some d := Date.addDays?_eq_some_iff.2 ⟨hd, (add_zero _).symm⟩
  have hmonths : d.addMonths? 0 = some d :=
    (Date.addMonths?_eq_some_iff hd).2 ⟨hd, (add_zero _).symm, (min_eq_left hd.2.2.2.2.2).symm⟩
  cases unit <;> assumption

/-- Moving a day by more units leads to a later day, also where a shorter month cuts off the day of
the month. -/
theorem shift?_lt_shift? (hd : d.Valid) (h : m < n) (he : shift? d unit m = some e)
    (hf : shift? d unit n = some f) : e < f := by
  -- Days and weeks are compared by their numbers. The other units are compared by the numbers of
  -- their months, as the day of the month may differ from that of the day that is moved.
  have hdays {m n : Int} (h : m < n) (he : d.addDays? m = some e) (hf : d.addDays? n = some f) :
      e < f := by
    obtain ⟨hvalid, hnumber⟩ := Date.addDays?_eq_some_iff.1 he
    obtain ⟨hvalid', hnumber'⟩ := Date.addDays?_eq_some_iff.1 hf
    exact (Date.strictMonoOn_dayNumber.lt_iff_lt hvalid hvalid').1 (by omega)
  have hmonths {m n : Int} (h : m < n) (he : d.addMonths? m = some e)
      (hf : d.addMonths? n = some f) : e < f := by
    obtain ⟨hvalid, hmonth, -⟩ := (Date.addMonths?_eq_some_iff hd).1 he
    obtain ⟨hvalid', hmonth', -⟩ := (Date.addMonths?_eq_some_iff hd).1 hf
    exact Date.lt_of_monthNumber_lt hvalid hvalid' (by omega)
  cases unit with
  | day => exact hdays h he hf
  | week => exact hdays (by omega) he hf
  | month => exact hmonths h he hf
  | quarter | year => exact hmonths (by omega) he hf

/-- A named period is a range in order. -/
theorem proper_of_period? (hd : d.Valid) {r : DateRange} (h : period? d unit n = some r) :
    r.Proper := by
  obtain ⟨first, last, rfl, hfirst, hlast, -, hstart, hend⟩ := Period.exists_isRange hd h
  have hlt := unit.strictMono_start (Int.lt_succ (unit.index d + n))
  exact DateRange.proper_ofDays hfirst hlast
    ((Date.strictMonoOn_dayNumber.le_iff_le hfirst hlast).1 (by omega))

/-- The days after a day some units before another one, up to this other one. -/
theorem exists_of_window (hd : d.Valid) {n : Nat} (hn : 0 < n) {r : DateRange}
    (h : (do DateRange.days? (← (← shift? d unit (-(n : Int))).succ?) d) = some r) :
    ∃ before first : Date, shift? d unit (-(n : Int)) = some before ∧ before.Valid ∧ first.Valid ∧
      first.dayNumber = before.dayNumber + 1 ∧ first ≤ d ∧ r = .ofDays first d := by
  obtain ⟨before, hbefore, h⟩ := Option.bind_eq_some_iff.1 h
  obtain ⟨first, hfirst, h⟩ := Option.bind_eq_some_iff.1 h
  obtain ⟨-, rfl⟩ := DateRange.days?_eq_some_iff.1 h
  obtain ⟨hvalid, hnumber⟩ := Date.succ?_eq_some_iff.1 hfirst
  have hbeforeValid := valid_of_shift? hd hbefore
  have hlt := shift?_lt_shift? hd (by omega : -(n : Int) < 0) hbefore (shift?_zero hd unit)
  have hnumbers := Date.strictMonoOn_dayNumber hbeforeValid hd hlt
  exact ⟨before, first, hbefore, hbeforeValid, hvalid, hnumber,
    (Date.strictMonoOn_dayNumber.le_iff_le hvalid hd).1 (by omega), rfl⟩

variable {now : DateTime} {cs : List Char} {r : DateRange}

/-- The range of a phrase is the reference time, a day, a period or a window up to the day of the
reference time. -/
theorem proper_of_simplePhrase? (hnow : now.Valid) (h : simplePhrase? now cs = some r) :
    r.Proper := by
  have hday {x : Option Date} (hx : ∀ d, x = some d → d.Valid)
      (h : (do DateRange.day? (← x)) = some r) : r.Proper := by
    obtain ⟨d, hd, h⟩ := Option.bind_eq_some_iff.1 h
    exact DateRange.proper_of_day? (hx d hd) h
  unfold simplePhrase? at h
  dsimp only at h
  split_ifs at h
  · obtain rfl := Option.some.inj h
    exact DateRange.proper_instant hnow
  · exact DateRange.proper_of_day? hnow.date h
  · exact hday (fun d hd => (Date.pred?_eq_some_iff.1 hd).1) h
  · exact hday (fun d hd => (Date.succ?_eq_some_iff.1 hd).1) h
  -- What is left are distances, periods and windows.
  · split at h
    · exact hday (fun d hd => valid_of_shift? hnow.date hd) h
    · exact proper_of_period? hnow.date h
    · split_ifs at h with hcount
      obtain ⟨_, first, -, -, hvalid, -, hle, rfl⟩ :=
        exists_of_window hnow.date (Nat.pos_of_ne_zero hcount) h
      exact DateRange.proper_ofDays hvalid hnow.date hle
    · cases h

/-- A text that stands for a range, but not for one between two expressions, stands for a range
whose ends exist and stand in order. -/
theorem proper_of_parseDate (hnow : now.Valid) {text : String} (h : parseDate text now = .ok r)
    (hsimple : fromTo? (lower (Text.trim text.toList)) = none) : r.Proper := by
  rw [parseDate_eq_ok_iff] at h
  cases hfixed : fixedFormat? (Text.trim text.toList) with
  | none =>
    rw [meaning?_of_fromTo?_eq_none hfixed hsimple] at h
    exact proper_of_simplePhrase? hnow h
  | some range =>
    rw [meaning?, hfixed] at h
    obtain rfl : range = r := Option.some.inj h
    exact proper_of_fixedFormat? hfixed

end Phrases

end MetricLayer.Calendar
