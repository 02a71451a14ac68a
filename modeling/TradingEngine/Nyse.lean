import Mathlib

/-!
# The NYSE session calendar

Dates are proleptic Gregorian ordinals, the first of January of year one being
day one. Holidays follow the published rules, with weekend observance and the
listed unscheduled closures. The source walks the calendar day by day until it
meets a session; here each walk is a bounded search, and a counting argument
shows that the bound is never exhausted: thirty-one consecutive Wednesdays
cannot all be among the at most thirty closures of two adjoining years.

Instants are microseconds in UTC. The distance of New York from UTC comes from
the time-zone database and is a parameter bounded by its two values.
-/

namespace TradingEngine.Nyse

/-- Days that precede the first of January of a year, counted from day one. -/
def daysBeforeYear (year : Int) : Int :=
  365 * (year - 1) + (year - 1) / 4 - (year - 1) / 100 + (year - 1) / 400

/-- The year an ordinal falls in: a proportional guess, corrected by one. -/
def year (day : Int) : Int :=
  let guess := 400 * (day - 1) / 146097 + 1
  if day ≤ daysBeforeYear guess then guess - 1
  else if daysBeforeYear (guess + 1) < day then guess + 1
  else guess

/-- Gregorian leap years. -/
def isLeap (year : Int) : Bool :=
  decide (year % 4 = 0) && (decide (year % 100 ≠ 0) || decide (year % 400 = 0))

/-- Days of a year that precede the first of a month. -/
def daysBeforeMonth (year month : Int) : Int :=
  let common : List Int := [0, 31, 59, 90, 120, 151, 181, 212, 243, 273, 304, 334]
  common.getD (month - 1).toNat 0 + (if 2 < month && isLeap year then 1 else 0)

/-- The ordinal of a civil date. -/
def ordinal (year month day : Int) : Int :=
  daysBeforeYear year + daysBeforeMonth year month + day

/-- Monday is zero, as in the source. -/
def weekday (day : Int) : Int := (day + 6) % 7

/-- Gregorian Easter Sunday (Meeus/Jones/Butcher). -/
def easter (year : Int) : Int :=
  let a := year % 19
  let b := year / 100
  let c := year % 100
  let d := b / 4
  let e := b % 4
  let f := (b + 8) / 25
  let g := (b - f + 1) / 3
  let h := (19 * a + b - d - g + 15) % 30
  let i := c / 4
  let k := c % 4
  let correction := (32 + 2 * e + 2 * i - h - k) % 7
  let m := (a + 11 * h + 22 * correction) / 451
  let month := (h + correction - 7 * m + 114) / 31
  let day := (h + correction - 7 * m + 114) % 31 + 1
  ordinal year month day

/-- The n-th (one-based) given weekday of a month; the last one for `n = -1`. -/
def nthWeekday (year month target n : Int) : Int :=
  if 0 < n then
    let first := ordinal year month 1
    first + (target - weekday first) % 7 + 7 * (n - 1)
  else
    let following := if month = 12 then ordinal (year + 1) 1 1 else ordinal year (month + 1) 1
    let last := following - 1
    last - (weekday last - target) % 7

/-- Weekend observance: Saturday moves to Friday, except New Year's Day which
is then not observed, and Sunday moves to Monday. -/
def observed (day : Int) (newYears : Bool) : Option Int :=
  if weekday day = 5 then (if newYears then none else some (day - 1))
  else if weekday day = 6 then some (day + 1)
  else some day

/-- Unscheduled full-day closures. -/
def adHocClosures : List Int :=
  [ordinal 2001 9 11, ordinal 2001 9 12, ordinal 2001 9 13, ordinal 2001 9 14,
   ordinal 2004 6 11, ordinal 2007 1 2, ordinal 2012 10 29, ordinal 2012 10 30,
   ordinal 2018 12 5, ordinal 2025 1 9]

/-- Scheduled full-day holidays of a year, at their observed dates. -/
def holidays (year : Int) : List Int :=
  [observed (ordinal year 1 1) true,
   some (nthWeekday year 1 0 3),
   some (nthWeekday year 2 0 3),
   some (easter year - 2),
   some (nthWeekday year 5 0 (-1)),
   if 2022 ≤ year then observed (ordinal year 6 19) false else none,
   observed (ordinal year 7 4) false,
   some (nthWeekday year 9 0 1),
   some (nthWeekday year 11 3 4),
   observed (ordinal year 12 25) false].reduceOption

/-- A regular trading session under the rule set. -/
def isSession (day : Int) : Bool :=
  decide (weekday day < 5) && !adHocClosures.contains day && !(holidays (year day)).contains day

/-- How far a walk over the calendar may have to go. -/
def searchBound : Nat := 217

/-- First scheduled session strictly after a date. -/
def nextSession (day : Int) : Int :=
  day + 1 + (List.range searchBound).findIdx fun n : Nat => isSession (day + 1 + n)

/-- Last scheduled session strictly before a date. -/
def previousSession (day : Int) : Int :=
  day - 1 - (List.range searchBound).findIdx fun n : Nat => isSession (day - 1 - n)

/-- The date itself when it is a session, otherwise the last session before it. -/
def sessionOnOrBefore (day : Int) : Int := previousSession (day + 1)

/-- Number of sessions in the half-open interval after `start` through `stop`:
the source's loop that steps one day at a time and counts the sessions it meets. -/
def sessionsBetween (start stop : Int) : Nat :=
  ((List.range (stop - start).toNat).filter fun n : Nat => isSession (start + 1 + n)).length

theorem daysBeforeYear_bounds (y : Int) :
    146097 * (y - 1) - 800 ≤ 400 * daysBeforeYear y ∧
      400 * daysBeforeYear y ≤ 146097 * (y - 1) + 400 := by
  unfold daysBeforeYear
  omega

theorem daysBeforeYear_grows {y z : Int} (ordered : y ≤ z) :
    daysBeforeYear y + 365 * (z - y) ≤ daysBeforeYear z := by
  unfold daysBeforeYear
  omega

theorem year_contains (day : Int) :
    daysBeforeYear (year day) < day ∧ day ≤ daysBeforeYear (year day + 1) := by
  unfold year
  generalize guessed : 400 * (day - 1) / 146097 + 1 = guess
  have below := daysBeforeYear_bounds (guess - 1)
  have above := daysBeforeYear_bounds (guess + 1 + 1)
  dsimp only
  split
  · rw [sub_add_cancel]
    omega
  · split <;> omega

/-- Thirty weeks cross at most one year boundary. -/
theorem year_near (day gap : Int) (low : 0 ≤ gap) (high : gap ≤ 210) :
    year (day + gap) = year day ∨ year (day + gap) = year day + 1 := by
  have start := year_contains day
  have finish := year_contains (day + gap)
  by_cases earlier : year (day + gap) < year day
  · have grows := daysBeforeYear_grows (y := year (day + gap) + 1) (z := year day) (by omega)
    omega
  · by_cases later : year day + 1 < year (day + gap)
    · have grows := daysBeforeYear_grows (y := year day + 1 + 1) (z := year (day + gap)) (by omega)
      have long := daysBeforeYear_grows (y := year day + 1) (z := year day + 1 + 1) (by omega)
      omega
    · omega

theorem holidays_length (y : Int) : (holidays y).length ≤ 10 := by
  unfold holidays
  exact List.reduceOption_length_le _

/-- Among thirty-one consecutive Wednesdays one is a session: the others would
all be distinct closures of the first day's year or the next. -/
theorem session_among_wednesdays (day : Int) (wednesday : weekday day = 2) :
    ∃ week : Nat, week < 31 ∧ isSession (day + 7 * week) = true := by
  by_contra closed
  push Not at closed
  let weeks : List Int := (List.range 31).map fun week : Nat => day + 7 * (week : Int)
  let closures := adHocClosures ++ (holidays (year day) ++ holidays (year day + 1))
  have distinct : weeks.Nodup := by
    refine List.Nodup.map ?_ List.nodup_range
    intro left right same
    have equal : day + 7 * (left : Int) = day + 7 * (right : Int) := same
    omega
  have covered : weeks ⊆ closures := by
    intro date listed
    obtain ⟨week, inside, rfl⟩ := List.mem_map.mp listed
    have below : week < 31 := List.mem_range.mp inside
    have shut := closed week below
    have midweek : weekday (day + 7 * (week : Int)) < 5 := by
      unfold weekday at wednesday ⊢
      omega
    have listedClosure : day + 7 * (week : Int) ∈ adHocClosures ∨
        day + 7 * (week : Int) ∈ holidays (year (day + 7 * (week : Int))) := by
      by_contra neither
      push Not at neither
      exact shut (by simp [isSession, midweek, neither.1, neither.2])
    rcases listedClosure with unscheduled | scheduled
    · exact List.mem_append_left _ unscheduled
    · refine List.mem_append_right _ ?_
      rcases year_near day (7 * (week : Int)) (by omega) (by omega) with same | next
      · exact List.mem_append_left _ (same ▸ scheduled)
      · exact List.mem_append_right _ (next ▸ scheduled)
  have fits : weeks.length ≤ closures.length := (List.subperm_of_subset distinct covered).length_le
  have first := holidays_length (year day)
  have second := holidays_length (year day + 1)
  have unscheduled : adHocClosures.length = 10 := rfl
  simp only [weeks, closures, List.length_map, List.length_range, List.length_append] at fits
  omega

theorem session_within (day : Int) : ∃ n : Nat, n < searchBound ∧ isSession (day + 1 + n) = true := by
  let shift := (2 - weekday (day + 1)) % 7
  have low : 0 ≤ shift := Int.emod_nonneg _ (by decide)
  have high : shift < 7 := Int.emod_lt_of_pos _ (by decide)
  have wednesday : weekday (day + 1 + shift) = 2 := by
    simp only [shift, weekday]
    omega
  obtain ⟨week, below, session⟩ := session_among_wednesdays (day + 1 + shift) wednesday
  refine ⟨shift.toNat + 7 * week, by simp only [searchBound]; omega, ?_⟩
  have position : day + 1 + ((shift.toNat + 7 * week : Nat) : Int) = day + 1 + shift + 7 * (week : Int) := by
    push_cast
    omega
  rw [position]
  exact session

theorem findIdx_range_spec (hit : Nat → Bool) (bound : Nat)
    (found : ∃ n, n < bound ∧ hit n = true) :
    hit ((List.range bound).findIdx hit) = true ∧
      ∀ n, n < (List.range bound).findIdx hit → hit n = false := by
  obtain ⟨n, below, success⟩ := found
  have inside : (List.range bound).findIdx hit < (List.range bound).length :=
    List.findIdx_lt_length_of_exists ⟨n, List.mem_range.mpr below, success⟩
  constructor
  · simpa using List.findIdx_getElem (w := inside)
  · intro earlier before
    simpa using List.not_of_lt_findIdx before

theorem nextSession_session (day : Int) : isSession (nextSession day) = true :=
  (findIdx_range_spec (fun n : Nat => isSession (day + 1 + n)) searchBound (session_within day)).1

theorem nextSession_later (day : Int) : day < nextSession day := by
  unfold nextSession
  omega

theorem nextSession_first (day between : Int) (after : day < between)
    (before : between < nextSession day) : isSession between = false := by
  have gap := (findIdx_range_spec (fun n : Nat => isSession (day + 1 + n)) searchBound
    (session_within day)).2 (between - day - 1).toNat (by unfold nextSession at before; omega)
  have position : day + 1 + ((between - day - 1).toNat : Int) = between := by omega
  simpa only [position] using gap

theorem previousSession_session (day : Int) : isSession (previousSession day) = true := by
  have found : ∃ n : Nat, n < searchBound ∧ isSession (day - 1 - n) = true := by
    obtain ⟨n, below, session⟩ := session_within (day - 1 - searchBound)
    refine ⟨searchBound - 1 - n, by omega, ?_⟩
    have position : day - 1 - ((searchBound - 1 - n : Nat) : Int) = day - 1 - searchBound + 1 + n := by
      omega
    rw [position]
    exact session
  exact (findIdx_range_spec (fun n : Nat => isSession (day - 1 - n)) searchBound found).1

theorem previousSession_earlier (day : Int) : previousSession day < day := by
  unfold previousSession
  omega

/-- A session before a date is not later than the date's previous session. -/
theorem session_le_previous {day session : Int} (trading : isSession session = true)
    (before : session < day) : session ≤ previousSession day := by
  by_contra after
  have found : ∃ n : Nat, n < searchBound ∧ isSession (day - 1 - n) = true := by
    refine ⟨(day - 1 - session).toNat, ?_, ?_⟩
    · have inside := @List.findIdx_le_length _
        (fun n : Nat => isSession (day - 1 - n)) (List.range searchBound)
      rw [List.length_range] at inside
      unfold previousSession at after
      omega
    · have position : day - 1 - ((day - 1 - session).toNat : Int) = session := by omega
      rw [position]
      exact trading
  have gap := (findIdx_range_spec (fun n : Nat => isSession (day - 1 - n)) searchBound found).2
    (day - 1 - session).toNat (by unfold previousSession at after; omega)
  have position : day - 1 - ((day - 1 - session).toNat : Int) = session := by omega
  rw [position, trading] at gap
  cases gap

theorem previousSession_mono : Monotone previousSession := by
  intro first second ordered
  exact session_le_previous (previousSession_session first)
    ((previousSession_earlier first).trans_le ordered)

/-- New York's distance behind UTC in hours, from the time-zone database, and
its local date of an instant. -/
structure Zone where
  offset : Int → Int
  offset_low : ∀ day, 4 ≤ offset day
  offset_high : ∀ day, offset day ≤ 5
  localDate : Int → Int

def minute : Int := 60000000

def hour : Int := 60 * minute

def dayLength : Int := 24 * hour

/-- The UTC date of an instant. -/
def dateOf (stamp : Int) : Int := stamp / dayLength

/-- Scheduled 13:00 closes: the day after Thanksgiving, the third of July and
Christmas Eve, where these are sessions. -/
def earlyCloses (year : Int) : List Int :=
  [nthWeekday year 11 3 4 + 1, ordinal year 7 3, ordinal year 12 24].filter isSession

/-- The local hour of a date's scheduled close. -/
def closeHour (day : Int) : Int := if (earlyCloses (year day)).contains day then 13 else 16

/-- The regular open, 09:30 in New York. -/
def opened (zone : Zone) (day : Int) : Int :=
  day * dayLength + (9 + zone.offset day) * hour + 30 * minute

/-- The scheduled close. -/
def closed (zone : Zone) (day : Int) : Int :=
  day * dayLength + (closeHour day + zone.offset day) * hour

theorem closeHour_cases (day : Int) : closeHour day = 13 ∨ closeHour day = 16 := by
  unfold closeHour
  split
  · exact Or.inl rfl
  · exact Or.inr rfl

/-- Daylight saving time, four hours behind UTC. -/
def daylightTime : Zone where
  offset _ := 4
  offset_low _ := by decide
  offset_high _ := by decide
  localDate stamp := dateOf (stamp - 4 * hour)

@[simp] theorem dateOf_opened (zone : Zone) (day : Int) : dateOf (opened zone day) = day := by
  have low := zone.offset_low day
  have high := zone.offset_high day
  unfold dateOf opened dayLength hour minute
  omega

@[simp] theorem dateOf_closed (zone : Zone) (day : Int) : dateOf (closed zone day) = day := by
  have low := zone.offset_low day
  have high := zone.offset_high day
  unfold dateOf closed dayLength hour minute
  rcases closeHour_cases day with early | regular
  · rw [early]
    omega
  · rw [regular]
    omega

theorem dateOf_traded {zone : Zone} {day instant : Int} (after : opened zone day ≤ instant)
    (before : instant < closed zone day) : dateOf (instant + minute) = day := by
  have low := zone.offset_low day
  have high := zone.offset_high day
  unfold dateOf
  unfold opened dayLength hour minute at *
  unfold closed dayLength hour minute at before
  rcases closeHour_cases day with early | regular
  · rw [early] at before
    omega
  · rw [regular] at before
    omega

end TradingEngine.Nyse
