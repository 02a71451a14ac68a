import TradingEngine.Nyse

/-!
# The signal date of a discretionary ticket

A ticket fills at the open of a session after its signal date. The signal date is the date
of the latest prices, unless the ticket is submitted on a later date once that date's open
has passed. Prices may be older than the previous session, and a ticket that is submitted
before the open is then dated before a session whose open is known.
-/

namespace TradingEngine.Tickets

open Nyse

/-- The local time of the open. -/
def openTime : Int := 9 * hour + 30 * minute

/-- The clocks of New York, from the time-zone database. They are four or five hours
behind UTC, and change before three in the morning; every date has an instant at which
they show half past nine. -/
structure NewYork where
  offset : Int → Int
  offset_low : ∀ instant, 4 ≤ offset instant
  offset_high : ∀ instant, offset instant ≤ 5
  offset_day : ∀ first second,
    (first - offset first * hour) / dayLength = (second - offset second * hour) / dayLength →
    3 * hour ≤ (first - offset first * hour) % dayLength →
    3 * hour ≤ (second - offset second * hour) % dayLength → offset first = offset second
  opened : Int → Int
  opened_local : ∀ day,
    opened day - offset (opened day) * hour = day * dayLength + openTime

variable (clock : NewYork)

/-- The local date of an instant. -/
def NewYork.date (instant : Int) : Int := (instant - clock.offset instant * hour) / dayLength

/-- The local time of an instant. -/
def NewYork.time (instant : Int) : Int := (instant - clock.offset instant * hour) % dayLength

/-- Choose the signal date of a ticket that is submitted now. -/
def signalDate (asOf now : Int) : Int :=
  if asOf < clock.date now ∧ openTime ≤ clock.time now then clock.date now else asOf

variable {clock}

@[simp] theorem date_opened (day : Int) : clock.date (clock.opened day) = day := by
  unfold NewYork.date
  rw [clock.opened_local]
  unfold openTime dayLength hour minute
  omega

@[simp] theorem time_opened (day : Int) : clock.time (clock.opened day) = openTime := by
  unfold NewYork.time
  rw [clock.opened_local]
  unfold openTime dayLength hour minute
  omega

theorem instant_parts (instant : Int) :
    instant = clock.date instant * dayLength + clock.time instant +
        clock.offset instant * hour ∧
      0 ≤ clock.time instant ∧ clock.time instant < dayLength := by
  unfold NewYork.date NewYork.time
  unfold dayLength hour minute
  omega

theorem offset_same {first second : Int} (date : clock.date first = clock.date second)
    (late : 3 * hour ≤ clock.time first) (late' : 3 * hour ≤ clock.time second) :
    clock.offset first = clock.offset second :=
  clock.offset_day first second date late late'

/-- An open is later than the instants of earlier dates, and than those of its date at
which the clocks show less. -/
theorem lt_opened_iff {now day : Int} :
    now < clock.opened day ↔
      clock.date now < day ∨ clock.date now = day ∧ clock.time now < openTime := by
  obtain ⟨nowParts, nowLow, nowHigh⟩ := @instant_parts clock now
  obtain ⟨openParts, -, -⟩ := @instant_parts clock (clock.opened day)
  rw [date_opened, time_opened] at openParts
  have low := clock.offset_low now
  have high := clock.offset_high now
  have openLow := clock.offset_low (clock.opened day)
  have openHigh := clock.offset_high (clock.opened day)
  have same : clock.date now = day → 3 * hour ≤ clock.time now →
      clock.offset now = clock.offset (clock.opened day) := by
    intro date late
    apply offset_same
    · rw [date, date_opened]
    · exact late
    · rw [time_opened]
      decide
  rcases lt_trichotomy (clock.date now) day with earlier | date | later
  · have before : now < clock.opened day := by
      rw [nowParts, openParts]
      unfold openTime dayLength hour minute at *
      omega
    exact iff_of_true before (.inl earlier)
  · rw [date]
    simp only [lt_irrefl, true_and, false_or]
    by_cases late : 3 * hour ≤ clock.time now
    · have offsets := same date late
      rw [offsets, date] at nowParts
      omega
    · have before : now < clock.opened day := by
        rw [nowParts, openParts, date]
        unfold openTime dayLength hour minute at *
        omega
      have shown : clock.time now < openTime := by
        unfold openTime hour minute at *
        omega
      exact iff_of_true before shown
  · have after : ¬now < clock.opened day := by
      rw [nowParts, openParts]
      unfold openTime dayLength hour minute at *
      omega
    apply iff_of_false after
    omega

/-- Every session after the signal date opens after the submission, unless the ticket is
submitted before half past nine on a date with a session between it and the prices. -/
theorem signalDate_before_opens_iff (clock : NewYork) (asOf now : Int) :
    (∀ day, isSession day = true → signalDate clock asOf now < day → now < clock.opened day) ↔
      ¬(clock.time now < openTime ∧
        ∃ day, isSession day = true ∧ asOf < day ∧ day < clock.date now) := by
  unfold signalDate
  by_cases moved : asOf < clock.date now ∧ openTime ≤ clock.time now
  · rw [if_pos moved]
    apply iff_of_true
    · intro day _ after
      exact lt_opened_iff.mpr (.inl after)
    · rintro ⟨early, -⟩
      omega
  · rw [if_neg moved]
    constructor
    · rintro opens ⟨early, day, session, after, before⟩
      have known := lt_opened_iff.mp (opens day session after)
      omega
    · intro none day session after
      rw [lt_opened_iff]
      by_contra known
      have early : clock.time now < openTime := by omega
      apply none
      exact ⟨early, day, session, after, by omega⟩

/-- Clocks that stay four hours behind UTC. -/
def summerClocks : NewYork where
  offset _ := 4
  offset_low := daylightTime.offset_low
  offset_high := daylightTime.offset_high
  offset_day _ _ _ _ _ := rfl
  opened day := day * dayLength + openTime + 4 * hour
  opened_local day := by omega

/-- Prices end on a Monday, and a ticket is submitted on Wednesday at eight in the morning:
it may fill at Tuesday's open, which is known. -/
theorem monday_opens_known :
    let monday := ordinal 2026 10 12
    let now := (monday + 2) * dayLength + 12 * hour
    isSession monday = true ∧ summerClocks.opened monday ≤ now ∧
      isSession (monday + 1) = true ∧ signalDate summerClocks monday now < monday + 1 ∧
      summerClocks.opened (monday + 1) ≤ now := by
  decide +kernel

end TradingEngine.Tickets
