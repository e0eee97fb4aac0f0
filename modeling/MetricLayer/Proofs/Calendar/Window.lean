import MetricLayer.Proofs.Calendar.Extent
import MetricLayer.Proofs.Calendar.Text
import Mathlib.Data.Int.Interval
import Mathlib.Data.Set.Card
import Mathlib.Order.CompletePartialOrder

/-!
# Rolling windows

A phrase such as `last 7 days` stands for as many units up to the day of the reference time. Days
and weeks have fixed lengths, so their windows have a fixed number of days. A window of more units
starts earlier, months and years included, though a short month cuts off the day of the month.

- `DateRange.ncard_covers_ofDays` — how many days a range of days has;
- `windowText` — the phrase for a window;
- `window?_windowText` — how it is read;
- `exists_of_parseDate_windowText` — the window that it stands for;
- `ncard_covers_window`, `window_ssubset_window` — how long windows are, and which contain which.
-/

namespace MetricLayer.Calendar

/-! ## Days of ranges -/

/-- A range of days has as many days as there are numbers between those of its ends. -/
theorem DateRange.ncard_covers_ofDays {first last : Date} (hfirst : first.Valid)
    (hlast : last.Valid) : {day : Date | day.Valid ∧ (ofDays first last).Covers day}.ncard =
      (last.dayNumber + 1 - first.dayNumber).toNat := by
  -- The days of the range are counted by their numbers, which are those of an interval.
  have hcovers {day : Date} (hday : day.Valid) : (ofDays first last).Covers day ↔
      day.dayNumber ∈ Set.Icc first.dayNumber last.dayNumber := by
    rw [covers_ofDays_iff, Set.mem_Icc, Date.strictMonoOn_dayNumber.le_iff_le hfirst hday,
      Date.strictMonoOn_dayNumber.le_iff_le hday hlast]
  have hinj : Set.InjOn Date.dayNumber {day | day.Valid ∧ (ofDays first last).Covers day} :=
    Date.strictMonoOn_dayNumber.injOn.mono fun _ hday => hday.1
  have himage : Date.dayNumber '' {day | day.Valid ∧ (ofDays first last).Covers day} =
      Set.Icc first.dayNumber last.dayNumber := by
    ext number
    constructor
    · rintro ⟨day, ⟨hday, h⟩, rfl⟩
      exact (hcovers hday).1 h
    · rintro ⟨hlow, hhigh⟩
      obtain ⟨day, hday, rfl⟩ := Date.exists_dayNumber_eq hfirst hlast hlow hhigh
      exact ⟨day, ⟨hday, (hcovers hday).2 ⟨hlow, hhigh⟩⟩, rfl⟩
  rw [← hinj.ncard_image, himage, Set.ncard_eq_toFinset_card', Set.toFinset_Icc, Int.card_Icc]

/-! ## Phrases for windows -/

/-- The name of a unit in the singular or the plural. -/
def countedName (unit : Period) (plural : Bool) : String :=
  unit.name ++ if plural then "s" else ""

/-- The phrase for the last `n` units. -/
def windowText (n : Nat) (unit : Period) (plural : Bool) : String :=
  "last " ++ toString n ++ " " ++ countedName unit plural

section Phrases

variable {n : Nat} {unit : Period}

/-- A window is written as three words. -/
theorem toList_windowText (n : Nat) (unit : Period) (plural : Bool) :
    (windowText n unit plural).toList = "last".toList ++ (' ' :: (Nat.toDigits 10 n ++
      (' ' :: (countedName unit plural).toList))) := by
  have hdigits : (toString n).toList = Nat.toDigits 10 n := Nat.toList_repr
  simp only [windowText, String.toList_append, hdigits, List.append_assoc]
  rfl

/-- The digits of a number start with a digit. -/
theorem exists_cons_toDigits (n : Nat) :
    ∃ d ds, Nat.toDigits 10 n = d :: ds ∧ d.isDigit = true := by
  obtain ⟨d, ds, hds⟩ := List.exists_cons_of_length_pos (Nat.length_toDigits_pos (b := 10) (n := n))
  exact ⟨d, ds, hds, Nat.isDigit_of_mem_toDigits (by decide) (by decide)
    (hds ▸ List.mem_cons_self)⟩

/-- A number is read up to the blank that follows it. -/
theorem count?_toDigits (n : Nat) (rest : List Char) : count? (Nat.toDigits 10 n ++ ' ' :: rest) =
    if n < UInt32.size then some (n, ' ' :: rest) else none := by
  have hdigits (c : Char) (hc : c ∈ Nat.toDigits 10 n) : c.isDigit = true :=
    Nat.isDigit_of_mem_toDigits (by decide) (by decide) hc
  have hrun : digitRun? (Nat.toDigits 10 n ++ ' ' :: rest) =
      some (Nat.toDigits 10 n, ' ' :: rest) := by
    refine digits?_append hdigits Nat.length_toDigits_pos ?_ (.inr (by simp))
    rw [List.length_append]
    exact Nat.le_add_right _ _
  rw [count?, hrun]
  dsimp only [Option.bind_eq_bind, Option.bind_some]
  rw [digitsValue_eq, Nat.ofDigitChars_ten_toDigits]

/-- One blank and what follows it. -/
private theorem blanks?_cons {rest : List Char} (h : Text.trimStart rest = rest) :
    blanks? (' ' :: rest) = some rest := by
  have hread : blanks? ([' '] ++ rest) = some (Text.trimStart rest) :=
    blanks?_append (by decide) (List.forall_mem_singleton.2 (by decide)) rest
  rwa [h] at hread

/-- A phrase for a window is read as its unit and its number of units. -/
theorem window?_windowText (hunit : unit ∈ Period.countable) (plural : Bool) :
    window? (windowText n unit plural).toList =
      if n < UInt32.size then some (unit, n) else none := by
  have hname : ∀ unit ∈ Period.countable, ∀ plural,
      Text.trimStart (countedName unit plural).toList = (countedName unit plural).toList ∧
        countedUnit? (countedName unit plural).toList = some (unit, []) := by
    decide
  obtain ⟨htrim, hread⟩ := hname unit hunit plural
  obtain ⟨d, ds, hds, hd⟩ := exists_cons_toDigits n
  have htrim' : Text.trimStart (Nat.toDigits 10 n ++ (' ' :: (countedName unit plural).toList)) =
      Nat.toDigits 10 n ++ (' ' :: (countedName unit plural).toList) := by
    rw [hds, List.cons_append]
    exact List.dropWhile_cons_of_neg (by simp [isBlank_of_isDigit hd])
  -- The number ends at the blank, and its value is checked before the unit is read.
  rw [toList_windowText, window?, word?_append]
  simp only [Option.bind_eq_bind, Option.bind_some, blanks?_cons htrim', count?_toDigits]
  split_ifs
  · simp only [Option.bind_some, blanks?_cons htrim, hread]
    rfl
  · rfl

/-- A phrase for a window is none for a period. -/
theorem namedPeriod?_windowText (n : Nat) (unit : Period) (plural : Bool) :
    namedPeriod? (windowText n unit plural).toList = none := by
  -- A digit stands where the phrase for a period has the name of its unit.
  obtain ⟨d, ds, hds, hd⟩ := exists_cons_toDigits n
  have hunit (rest : List Char) : unit? Period.all (d :: rest) = none := by
    refine Option.eq_none_iff_forall_ne_some.2 fun ⟨unit, after⟩ hp => ?_
    have happend := eq_append_of_unit? hp
    obtain ⟨c, cs, hc, hletter⟩ : ∃ c cs, unit.name.toList = c :: cs ∧ c.isDigit = false := by
      cases unit <;> exact ⟨_, _, rfl, rfl⟩
    rw [hc, List.cons_append] at happend
    rw [(List.cons.inj happend).1, hletter] at hd
    cases hd
  have htrim (rest : List Char) : Text.trimStart (d :: rest) = d :: rest :=
    List.dropWhile_cons_of_neg (by simp [isBlank_of_isDigit hd])
  rw [toList_windowText, hds, List.cons_append, namedPeriod?, List.findSome?_cons]
  dsimp only
  rw [word?_append]
  simp only [Option.map_some, Option.bind_eq_bind, Option.bind_some, blanks?_cons (htrim _), hunit]
  rfl

variable {now : DateTime} {r : DateRange} {plural : Bool}

/-- A window is written without blanks around it. -/
theorem trim_windowText (hunit : unit ∈ Period.countable) :
    Text.trim (windowText n unit plural).toList = (windowText n unit plural).toList := by
  have hname : ∀ unit ∈ Period.countable, ∀ plural,
      let cs := (countedName unit plural).toList
      Text.trim cs = cs ∧ '\n' ∉ cs ∧ cs ≠ [] := by
    decide
  obtain ⟨htrimmed, hline, hne⟩ := hname unit hunit plural
  have hfront : (windowText n unit plural).toList =
      ("last".toList ++ (' ' :: (Nat.toDigits 10 n ++ [' ']))) ++
        (countedName unit plural).toList := by
    rw [toList_windowText]
    simp
  rw [hfront]
  exact IsLine.trim_append ⟨htrimmed, hline⟩ (trimStart_append (by decide) (by decide))
    (List.append_ne_nil_of_left_ne_nil (by decide) _) hne

/-- A window is written in lower case. -/
theorem lower_windowText (hunit : unit ∈ Period.countable) :
    lower (windowText n unit plural).toList = (windowText n unit plural).toList := by
  have hname : ∀ unit ∈ Period.countable, ∀ plural,
      (countedName unit plural).toList.map lowerLetter = (countedName unit plural).toList := by
    decide
  have hdigits : (Nat.toDigits 10 n).map lowerLetter = Nat.toDigits 10 n :=
    (List.map_congr_left fun c hc => lowerLetter_of_isDigit
      (Nat.isDigit_of_mem_toDigits (by decide) (by decide) hc)).trans (List.map_id _)
  have hlast : "last".toList.map lowerLetter = "last".toList := by decide
  have hblank : lowerLetter ' ' = ' ' := by decide
  rw [toList_windowText, lower]
  simp only [List.map_append, List.map_cons, hname unit hunit plural, hdigits, hlast, hblank]

/-- A phrase for a window stands for the days after the day that lies so many units before that of
the reference time. There is no window of no units. -/
theorem simplePhrase?_windowText (hunit : unit ∈ Period.countable)
    (h : simplePhrase? now (windowText n unit plural).toList = some r) :
    0 < n ∧ (do DateRange.days? (← (← shift? now.date unit (-(n : Int))).succ?) now.date) =
      some r := by
  have hblank : ' ' ∈ (windowText n unit plural).toList := by simp [toList_windowText]
  -- A window has blanks, so it is none of the single words.
  have hne (word : String) (hword : ' ' ∉ word.toList) :
      (windowText n unit plural).toList ≠ word.toList := by
    intro heq
    rw [heq] at hblank
    exact hword hblank
  have hdistance : distance? (windowText n unit plural).toList = none := by
    rw [toList_windowText]
    exact distance?_eq_none (by decide)
  unfold simplePhrase? at h
  rw [if_neg (hne "now" (by decide)), if_neg (hne "today" (by decide)),
    if_neg (hne "yesterday" (by decide)), if_neg (hne "tomorrow" (by decide)), hdistance,
    namedPeriod?_windowText, window?_windowText hunit] at h
  split_ifs at h with hsize
  dsimp only at h
  split_ifs at h with hn
  exact ⟨Nat.pos_of_ne_zero hn, h⟩

/-- Where a phrase for a window stands for a range, this is a range of days up to that of the
reference time. -/
theorem exists_of_parseDate_windowText (hnow : now.date.Valid) (hunit : unit ∈ Period.countable)
    (h : parseDate (windowText n unit plural) now = .ok r) :
    ∃ before first : Date, shift? now.date unit (-(n : Int)) = some before ∧ before.Valid ∧
      first.Valid ∧ first.dayNumber = before.dayNumber + 1 ∧ first ≤ now.date ∧
      r = .ofDays first now.date := by
  -- Neither a fixed format nor a range between two expressions starts with `last`.
  have hfixed : fixedFormat? (windowText n unit plural).toList = none := by
    refine Option.eq_none_iff_forall_ne_some.2 fun range hrange => ?_
    rw [toList_windowText] at hrange
    exact absurd (isFormatCharacter_of_fixedFormat? hrange 'l' (by simp)) (by decide)
  have hfromTo : fromTo? (lower (windowText n unit plural).toList) = none := by
    rw [lower_windowText hunit, toList_windowText]
    rfl
  rw [parseDate_eq_ok_iff, trim_windowText hunit, meaning?_of_fromTo?_eq_none hfixed hfromTo,
    lower_windowText hunit] at h
  obtain ⟨hn, hrange⟩ := simplePhrase?_windowText hunit h
  exact exists_of_window hnow hn hrange

/-! ## Lengths of windows -/

/-- Windows of days and of weeks have a fixed number of days. -/
theorem ncard_covers_window (hnow : now.date.Valid) {days : Nat}
    (hdays : (unit, days) ∈ [(Period.day, 1), (Period.week, 7)])
    (h : parseDate (windowText n unit plural) now = .ok r) :
    {day : Date | day.Valid ∧ r.Covers day}.ncard = days * n := by
  simp only [List.mem_cons, Prod.mk.injEq, List.not_mem_nil, or_false] at hdays
  have hunit : unit ∈ Period.countable := by
    rcases hdays with ⟨rfl, -⟩ | ⟨rfl, -⟩ <;> decide
  obtain ⟨before, first, hbefore, -, hfirst, hnumber, -, rfl⟩ :=
    exists_of_parseDate_windowText hnow hunit h
  -- A day and a week are the units whose length does not depend on the date.
  have hmoved : before.dayNumber = now.date.dayNumber - days * n := by
    rcases hdays with ⟨rfl, rfl⟩ | ⟨rfl, rfl⟩
    · have hnumber' := (Date.addDays?_eq_some_iff.1 hbefore).2
      omega
    · have hnumber' := (Date.addDays?_eq_some_iff.1 hbefore).2
      omega
  have hlength : now.date.dayNumber + 1 - first.dayNumber = (days * n : Nat) := by
    rw [hnumber, hmoved]
    omega
  rw [DateRange.ncard_covers_ofDays hfirst hnow, hlength, Int.toNat_natCast]

/-- The window of one more unit starts earlier and ends at the same time. -/
theorem window_ssubset_window (hnow : now.date.Valid) (hunit : unit ∈ Period.countable)
    {plural' : Bool} {r' : DateRange} (h : parseDate (windowText n unit plural) now = .ok r)
    (h' : parseDate (windowText (n + 1) unit plural') now = .ok r') :
    Set.Icc r.first r.last ⊂ Set.Icc r'.first r'.last := by
  obtain ⟨before, first, hbefore, hvalid, hfirst, hnumber, hle, rfl⟩ :=
    exists_of_parseDate_windowText hnow hunit h
  obtain ⟨before', first', hbefore', hvalid', hfirst', hnumber', hle', rfl⟩ :=
    exists_of_parseDate_windowText hnow hunit h'
  -- One more unit back is an earlier day, even where both land at the end of a short month.
  have hearlier : before' < before :=
    shift?_lt_shift? hnow (by omega : -((n + 1 : Nat) : Int) < -(n : Int)) hbefore' hbefore
  have hnumbers := Date.strictMonoOn_dayNumber hvalid' hvalid hearlier
  have hlt : first' < first :=
    (Date.strictMonoOn_dayNumber.lt_iff_lt hfirst' hfirst).1 (by omega)
  exact Set.Icc_ssubset_Icc_left (DateRange.first_le_last_ofDays hle')
    (DateTime.lt_iff.2 (.inl hlt)) le_rfl

end Phrases

end MetricLayer.Calendar
