import TradingEngine.PriceTables
import TradingEngine.Fills

/-!
# Reading bars of a market history

Account execution reads daily and minute bars from two families of tables: the operational
ones, with one row for each instrument and time, and the attached ones, whose daily table
keeps every capture of a bar. A row counts from its time of availability, a bar counts when
it is admitted and traded. Each reader looks at the rows of its own days only, so that
removing every later row does not change what an attempt at a session sees.
-/

namespace TradingEngine.BarSources

open KeyedTables Nyse Fills PriceStore

/-- One capture of a daily bar: its figures, the time and the digest of its source. -/
structure CapturedBar where
  ticker : String
  date : Date
  quote : Quote
  fetchedAt : Instant
  sourceSha256 : String

/-- What a minute row says of its capture: the attached table has the time, the operational
one the date. -/
inductive CaptureStamp where
  | fetchedAt (instant : Option Instant)
  | asOf (date : Option Date)

def CaptureStamp.available (now : Instant) : CaptureStamp → Bool
  | .fetchedAt instant => instant.any fun fetched => decide (fetched ≤ now)
  | .asOf date => date.any fun captured => decide (captured ≤ dateOf now)

/-- A row of a minute table, stamped at the start of its minute. -/
structure MinuteRow where
  ticker : String
  ts : Instant
  quote : Quote
  vwap : Option ℚ
  stamp : CaptureStamp

/-- The bar tables that one run sees, and what became of the splits. -/
structure History where
  prices : Table Key Row
  adjustments : Table Key Adjustment
  freeDailyBars : List CapturedBar
  intradayPrices : List MinuteRow
  massiveMinuteBars : List MinuteRow

/-- Admitted and traded. -/
def trustedBar (quote : Quote) : Bool :=
  (priceBarReasons quote true).isEmpty &&
    match quote.volume with
    | .number volume => decide (0 < volume)
    | _ => false

theorem price_pos {cell : Cell} {value : ℚ} (usable : cell.price = some value) : 0 < value := by
  unfold Cell.price at usable
  split at usable
  · split at usable
    · cases usable
      assumption
    · cases usable
  · cases usable

/-- The open and the close of a trusted bar. -/
def trustedDaily (quote : Quote) : Option DailyBar :=
  if trustedBar quote then
    match opened : quote.opening.price, closed : quote.close.price with
    | some openPx, some closePx => some ⟨openPx, closePx, price_pos opened, price_pos closed⟩
    | _, _ => none
  else none

/-- A trusted minute. -/
def trustedMinute (row : MinuteRow) : Option MinuteBar :=
  if trustedBar row.quote then
    match opened : row.quote.opening.price, highest : row.quote.high.price,
        lowest : row.quote.low.price, closed : row.quote.close.price with
    | some openPx, some high, some low, some closePx =>
      some ⟨row.ts, openPx, high, low, closePx, row.vwap, price_pos opened, price_pos highest,
        price_pos lowest, price_pos closed⟩
    | _, _, _, _ => none
  else none

/-- First stored by an instant, when one is asked for. -/
def admitted (firstFetchedAt : Option Instant) (availableAt : Option Instant) : Bool :=
  availableAt.all fun now => firstFetchedAt.any fun fetched => decide (fetched ≤ now)

/-- Newer captures first, then larger digests. -/
def newer (a b : CapturedBar) : Prop :=
  (toLex (b.fetchedAt, b.sourceSha256) : Int ×ₗ String) ≤ toLex (a.fetchedAt, a.sourceSha256)

instance : DecidableRel newer := fun a b => by
  unfold newer
  infer_instance

/-- The captures of an instrument that are known, one for each date: the newest. -/
def canonical (rows : List CapturedBar) (ticker : String) (availableAt : Option Instant)
    (dates : Date → Bool) : List CapturedBar :=
  let known := rows.filter fun row =>
    decide (row.ticker = ticker) && dates row.date && admitted (some row.fetchedAt) availableAt
  (known.map CapturedBar.date).dedup.filterMap fun date =>
    ((known.filter fun row => decide (row.date = date)).insertionSort newer).head?

namespace History

variable (history : History)

/-- The daily figures of an instrument on the dates asked for, as each source has them. -/
def daily (source : PriceSource) (ticker : String) (availableAt : Option Instant)
    (dates : Date → Bool) : List (Date × Quote) :=
  match source with
  | .prices =>
    (history.prices.entries.filter fun row =>
      decide (row.1.1 = ticker) && dates row.1.2 &&
        admitted row.2.firstFetchedAt availableAt).map fun row => (row.1.2, row.2.quote)
  | .massiveDaily =>
    (canonical history.freeDailyBars ticker availableAt dates).map fun row => (row.date, row.quote)

/-- Latest dates first. -/
def latestFirst (rows : List (Date × Quote)) : List (Date × Quote) :=
  rows.insertionSort fun a b => b.1 ≤ a.1

/-- One tradeable daily bar, available by an instant. -/
def dailyBar (source : PriceSource) (ticker : String) (day : Date) (availableAt : Instant) :
    Option DailyBar :=
  ((latestFirst (history.daily source ticker (some availableAt) (· = day))).head?).bind
    fun row => trustedDaily row.2

/-- The minute table of a daily source. -/
def minuteRows : PriceSource → List MinuteRow
  | .prices => history.intradayPrices
  | .massiveDaily => history.massiveMinuteBars

/-- The known minutes of one regular session. -/
def sessionMinutes (zone : Zone) (source : PriceSource) (ticker : String) (day : Date)
    (availableAt : Option Instant) : List MinuteRow :=
  (history.minuteRows source).filter fun row =>
    decide (row.ticker = ticker) && decide (opened zone day ≤ row.ts) &&
      decide (row.ts < closed zone day) && availableAt.all fun now => row.stamp.available now

/-- The trusted ones in ascending order. -/
def minuteBars (zone : Zone) (source : PriceSource) (ticker : String) (day : Date)
    (availableAt : Option Instant) : List MinuteBar :=
  ((history.sessionMinutes zone source ticker day availableAt).insertionSort
    fun a b => a.ts ≤ b.ts).filterMap trustedMinute

/-- The date and the close of the latest trusted daily bar. -/
def latestCloseObservation (source : PriceSource) (ticker : String) (onOrBefore : Date)
    (strictlyBefore : Bool) (availableAt : Option Instant) : Option (Date × ℚ) :=
  let dates := fun date : Date =>
    if strictlyBefore then decide (date < onOrBefore) else decide (date ≤ onOrBefore)
  (latestFirst ((history.daily source ticker availableAt dates).filter
    fun row => trustedBar row.2)).head?.bind fun row => row.2.close.price.map fun close =>
      (row.1, close)

/-- The dollars of a bar, where both figures are numbers. -/
def dollars (quote : Quote) : Option ℚ :=
  match quote.close, quote.volume with
  | .number close, .number volume => some (close * volume)
  | _, _ => none

/-- The middle value, or the mean of the two middle ones. -/
def median (values : List ℚ) : Option ℚ :=
  let ordered := values.insertionSort (· ≤ ·)
  if ordered = [] then none
  else
    some ((ordered.getD ((ordered.length - 1) / 2) 0 + ordered.getD (ordered.length / 2) 0) / 2)

/-- Median dollars over the last sixty bars strictly before a date. -/
def medianDollarVolume (source : PriceSource) (ticker : String) (asOf : Date)
    (availableAt : Option Instant) : Option ℚ :=
  median (((latestFirst (history.daily source ticker availableAt (· < asOf))).take 60).filterMap
    fun row => dollars row.2)

/-- Whether the stored bars before a split are already on its scale: the split was applied
and the scale changed after the observation. -/
def splitAdjusted (ticker : String) (ex observed : Date) : Bool :=
  (history.adjustments.lookup (ticker, ex)).any fun adjustment =>
    decide (adjustment.outcome = .applied) &&
      adjustment.breakDate.any fun breakDate => decide (observed < breakDate)

theorem minuteBars_within (zone : Zone) (source : PriceSource) (ticker : String) (day : Date)
    (availableAt : Option Instant) :
    ∀ bar ∈ history.minuteBars zone source ticker day availableAt,
      opened zone day ≤ bar.ts ∧ bar.ts < closed zone day := by
  intro bar listed
  obtain ⟨row, sorted, read⟩ := List.mem_filterMap.mp listed
  have kept := (List.mem_filter.mp ((List.mem_insertionSort _).mp sorted)).2
  have stamped : bar.ts = row.ts := by
    unfold trustedMinute at read
    split at read
    · split at read
      · cases read
        rfl
      · cases read
    · cases read
  simp only [Bool.and_eq_true, decide_eq_true_eq] at kept
  rw [stamped]
  exact ⟨kept.1.1.2, kept.1.2⟩

theorem latestCloseObservation_positive (source : PriceSource) (ticker : String)
    (onOrBefore : Date) (strictlyBefore : Bool) (availableAt : Option Instant)
    (observed : Date × ℚ)
    (found : history.latestCloseObservation source ticker onOrBefore strictlyBefore availableAt =
      some observed) : 0 < observed.2 := by
  obtain ⟨row, -, read⟩ := Option.bind_eq_some_iff.mp found
  obtain ⟨close, usable, rfl⟩ := Option.map_eq_some_iff.mp read
  exact price_pos usable

/-- The market that reads its bars and splits' outcomes from a history. -/
def market {zone : Zone} (rest : Market zone) : Market zone :=
  { rest with
    dailyBar := history.dailyBar
    minuteBars := history.minuteBars zone
    minutes_within := history.minuteBars_within zone
    medianDollarVolume := history.medianDollarVolume
    latestClose := history.latestCloseObservation
    latestClose_positive := history.latestCloseObservation_positive
    splitAdjusted := history.splitAdjusted }

/-- The history without the bars after a session. -/
def through (zone : Zone) (day : Date) : History :=
  { history with
    prices := filterRows (fun key _ => decide (key.2 ≤ day)) history.prices
    freeDailyBars := history.freeDailyBars.filter fun row => decide (row.date ≤ day)
    intradayPrices := history.intradayPrices.filter fun row => decide (row.ts < closed zone day)
    massiveMinuteBars :=
      history.massiveMinuteBars.filter fun row => decide (row.ts < closed zone day) }

variable {history}

theorem filter_wider {α : Type} {keep wider : α → Bool}
    (implied : ∀ row, keep row = true → wider row = true) (rows : List α) :
    (rows.filter wider).filter keep = rows.filter keep := by
  rw [List.filter_filter]
  refine List.filter_congr fun row _ => ?_
  cases kept : keep row with
  | false => rfl
  | true => rw [implied row kept, Bool.and_self]

/-- Rows of earlier dates are untouched. -/
theorem daily_through {zone : Zone} {day : Date} {dates : Date → Bool}
    (within : ∀ date, dates date = true → date ≤ day) (source : PriceSource) (ticker : String)
    (availableAt : Option Instant) :
    (history.through zone day).daily source ticker availableAt dates =
      history.daily source ticker availableAt dates := by
  cases source with
  | prices =>
    refine congrArg _ (filter_wider ?_ _)
    intro row kept
    simp only [Bool.and_eq_true] at kept
    exact decide_eq_true (within _ kept.1.2)
  | massiveDaily =>
    unfold daily canonical
    dsimp only [through]
    rw [filter_wider]
    intro row kept
    simp only [Bool.and_eq_true] at kept
    exact decide_eq_true (within _ kept.1.2)

theorem dailyBar_through (zone : Zone) (day : Date) (source : PriceSource) (ticker : String)
    (availableAt : Instant) :
    (history.through zone day).dailyBar source ticker day availableAt =
      history.dailyBar source ticker day availableAt := by
  unfold dailyBar
  rw [daily_through]
  intro date same
  exact (of_decide_eq_true same).le

theorem medianDollarVolume_through (zone : Zone) (day : Date) (source : PriceSource)
    (ticker : String) (availableAt : Option Instant) :
    (history.through zone day).medianDollarVolume source ticker day availableAt =
      history.medianDollarVolume source ticker day availableAt := by
  unfold medianDollarVolume
  rw [daily_through]
  intro date before
  exact (of_decide_eq_true before).le

theorem minuteBars_through (zone : Zone) (day : Date) (source : PriceSource) (ticker : String)
    (availableAt : Option Instant) :
    (history.through zone day).minuteBars zone source ticker day availableAt =
      history.minuteBars zone source ticker day availableAt := by
  have rows : (history.through zone day).minuteRows source =
      (history.minuteRows source).filter fun row => decide (row.ts < closed zone day) := by
    cases source <;> rfl
  unfold minuteBars sessionMinutes
  rw [rows, filter_wider]
  intro row kept
  simp only [Bool.and_eq_true] at kept
  exact kept.1.2

end History

end TradingEngine.BarSources
