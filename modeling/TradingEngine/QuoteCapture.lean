import TradingEngine.Runs
import TradingEngine.TicketDates

/-!
# Quotes of the fill capture

A quote of the capture is a target only with the clocks of both sides. It is measured
against the instant of its receipt, which lies in a window of the session, and a symbol's
day has a quote target when it has such a quote in each window.

Instants are microseconds in UTC, and numbers are exact. A number that is not finite, or a
value that is no number, has none.
-/

namespace TradingEngine.QuoteCapture

open Nyse Tickets

def second : Int := 1000000

/-- An aware timestamp has an instant. -/
abbrev Timestamp := Option Int

/-- A quote as it was fetched. The clock of a side may be missing. -/
structure Quote where
  receivedAt : Timestamp
  bid : Option ℚ
  ask : Option ℚ
  bidAt : Option Timestamp
  askAt : Option Timestamp
  venue : Option String
  currency : Option String
  source : Option String
  receiptSha256 : Option String

/-- A quote that is valid, as it is kept. -/
structure QuoteTarget where
  bid : ℚ
  ask : ℚ
  bidAt : Int
  askAt : Int
  receivedAt : Int
  venue : String
  currency : Option String
  source : Option String
  receiptSha256 : Option String
  locked : Bool
  halfQuoteSpreadBp : ℚ
  deriving DecidableEq

inductive QuoteRow where
  | outsideWindow (windowIndex : Int)
  | crossed (windowIndex : Int)
  | unverified (windowIndex : Int) (bid ask : ℚ)
  | staleOrUnsynchronized (windowIndex : Int)
  | currencyMismatch (windowIndex : Int)
  | valid (windowIndex : Int) (target : QuoteTarget)
  deriving DecidableEq

def QuoteRow.status : QuoteRow → String
  | .outsideWindow _ => "outside_window"
  | .crossed _ => "crossed"
  | .unverified _ _ _ => "quote_target_unverified"
  | .staleOrUnsynchronized _ => "stale_or_unsynchronized"
  | .currencyMismatch _ => "currency_mismatch"
  | .valid _ _ => "valid"

/-- The local times between which a quote of a window is received. -/
def quoteWindow (windowIndex : Int) : Int × Int :=
  if windowIndex = 0 then (9 * hour + 31 * minute, 9 * hour + 31 * minute + 15 * second)
  else (9 * hour + 34 * minute, 9 * hour + 34 * minute + 15 * second)

def aware (value : Timestamp) (field : String) : Except String Int :=
  match value with
  | some instant => .ok instant
  | none => .error (field ++ " must be timezone-aware")

/-- A finite positive number. -/
def number (value : Option ℚ) (field : String) : Except String ℚ :=
  match value with
  | some result => if 0 < result then .ok result else .error (field ++ " is invalid")
  | none => .error (field ++ " is invalid")

/-- Validate one quote target. Without the clocks of both sides it stays unverified. -/
def normalizeQuote (clock : NewYork) (sessionDate windowIndex : Int) (quote : Quote) :
    Except String QuoteRow :=
  if windowIndex ≠ 0 ∧ windowIndex ≠ 1 then .error "fill quote target is invalid"
  else do
    let received ← aware quote.receivedAt "quote receipt"
    let (lower, upper) := quoteWindow windowIndex
    if clock.date received ≠ sessionDate ∨
        ¬(lower ≤ clock.time received ∧ clock.time received ≤ upper) then
      .ok (.outsideWindow windowIndex)
    else do
      let bid ← number quote.bid "quote bid"
      let ask ← number quote.ask "quote ask"
      if ask < bid then .ok (.crossed windowIndex)
      else
        match quote.bidAt, quote.askAt, quote.venue with
        | some bidStamp, some askStamp, some venue => do
          let bidAt ← aware bidStamp "bid timestamp"
          let askAt ← aware askStamp "ask timestamp"
          if 1 * second < |bidAt - askAt|
              ∨ 5 * second < max (received - bidAt) (received - askAt)
              ∨ received < min bidAt askAt then
            .ok (.staleOrUnsynchronized windowIndex)
          else if quote.currency ≠ some "USD" then .ok (.currencyMismatch windowIndex)
          else .ok (.valid windowIndex {
            bid := bid
            ask := ask
            bidAt := bidAt
            askAt := askAt
            receivedAt := received
            venue := venue
            currency := quote.currency
            source := quote.source
            receiptSha256 := quote.receiptSha256
            locked := bid = ask
            halfQuoteSpreadBp := 10000 * (ask - bid) / (ask + bid) })
        | _, _, _ => .ok (.unverified windowIndex bid ask)

/-- The diagnostics of the first bars. -/
structure BarMetrics where
  firstOpen : ℚ
  reportedVwap : Option ℚ
  vwapGapBp : Option ℚ
  hlc3GapBp : ℚ
  halfRangeProxyBp : Option ℚ

structure BarSet where
  source : String
  status : String
  metrics : Option BarMetrics
  barSetSha256 : String

inductive Side where
  | buy | sell
  deriving DecidableEq

/-- What a symbol's day is measured from. -/
structure SymbolDay where
  sessionDate : Int
  securityId : String
  source : String
  barSet : BarSet
  quoteRows : List QuoteRow
  operationalOpen : Option (Option ℚ)
  simulatedFill : Option (Option ℚ)
  side : Option Side
  secondaryOpen : Option (Option ℚ)

structure Measurement where
  sessionDate : Int
  securityId : String
  source : String
  barStatus : String
  quoteTargetBp : Option ℚ
  quoteStatuses : List String
  firstOpen : Option ℚ
  vwapGapBp : Option ℚ
  hlc3GapBp : Option ℚ
  halfRangeProxyBp : Option ℚ
  openSourceGapBp : Option ℚ
  simVsVwapBp : Option ℚ
  crossSourceOpenGapBp : Option ℚ

/-- The valid quote of a window; a later row replaces an earlier one. -/
def validQuote (rows : List QuoteRow) (windowIndex : Int) : Option QuoteTarget :=
  (rows.filterMap fun row => match row with
    | .valid index target => if index = windowIndex then some target else none
    | _ => none).getLast?

/-- The mean half spread of the two windows, if both have a valid quote. -/
def quoteTarget (rows : List QuoteRow) : Option ℚ :=
  match validQuote rows 0, validQuote rows 1 with
  | some first, some last => some ((first.halfQuoteSpreadBp + last.halfQuoteSpreadBp) / 2)
  | _, _ => none

/-- How far an open is from another one, in basis points. -/
def openGap (firstOpen : Option ℚ) (other : Option (Option ℚ)) (field : String) :
    Except String (Option ℚ) :=
  match firstOpen, other with
  | some first, some value => do
    let reference ← number value field
    .ok (some (10000 * (first / reference - 1)))
  | _, _ => .ok none

/-- How far a simulated fill is from the reported average price, against its side. -/
def simulatorGap (metrics : Option BarMetrics) (day : SymbolDay) : Except String (Option ℚ) :=
  match metrics.bind BarMetrics.reportedVwap, day.simulatedFill with
  | some vwap, some fill =>
    match day.side with
    | none => .error "fill side is invalid"
    | some side => do
      let price ← number fill "simulated fill"
      .ok (some ((if side = .buy then 1 else -1) * 10000 * (price / vwap - 1)))
  | _, _ => .ok none

/-- Compose the bar, quote, operational and simulator comparisons of a symbol's day. -/
def measureSymbolDay (identity : BarSet → String) (blank : String → Bool) (day : SymbolDay) :
    Except String Measurement :=
  if blank day.securityId ∨ blank day.source then .error "fill measurement identity is invalid"
  else if day.barSet.source ≠ day.source then .error "fill measurement source differs"
  else if day.barSet.barSetSha256 ≠ identity day.barSet then
    .error "fill bar set identity differs"
  else do
    let metrics := day.barSet.metrics
    let firstOpen := metrics.map BarMetrics.firstOpen
    let operational ← openGap firstOpen day.operationalOpen "operational open"
    let simulator ← simulatorGap metrics day
    let crossSource ← openGap firstOpen day.secondaryOpen "secondary source open"
    .ok {
      sessionDate := day.sessionDate
      securityId := day.securityId
      source := day.source
      barStatus := day.barSet.status
      quoteTargetBp := quoteTarget day.quoteRows
      quoteStatuses := day.quoteRows.map QuoteRow.status
      firstOpen := firstOpen
      vwapGapBp := metrics.bind BarMetrics.vwapGapBp
      hlc3GapBp := metrics.map BarMetrics.hlc3GapBp
      halfRangeProxyBp := metrics.bind BarMetrics.halfRangeProxyBp
      openSourceGapBp := operational
      simVsVwapBp := simulator
      crossSourceOpenGapBp := crossSource }

/-- Both sides of a target were quoted before its receipt, at most five seconds before and
at most one second apart, in the window of the session. -/
structure Synchronous (clock : NewYork) (sessionDate windowIndex : Int) (target : QuoteTarget) :
    Prop where
  bid_past : target.bidAt ≤ target.receivedAt
  ask_past : target.askAt ≤ target.receivedAt
  bid_fresh : target.receivedAt - target.bidAt ≤ 5 * second
  ask_fresh : target.receivedAt - target.askAt ≤ 5 * second
  together : |target.bidAt - target.askAt| ≤ 1 * second
  ordered : target.bid ≤ target.ask
  session : clock.date target.receivedAt = sessionDate
  window_low : (quoteWindow windowIndex).1 ≤ clock.time target.receivedAt
  window_high : clock.time target.receivedAt ≤ (quoteWindow windowIndex).2
  spread_nonneg : 0 ≤ target.halfQuoteSpreadBp
  spread_lt : target.halfQuoteSpreadBp < 10000

/-- The clock of neither side is after the receipt. -/
def Quote.SidesPast (quote : Quote) : Prop :=
  ∀ received ∈ quote.receivedAt, ∀ stamp ∈ [quote.bidAt, quote.askAt],
    ∀ instant ∈ stamp.join, instant ≤ received

theorem number_ok {value : Option ℚ} {field : String} {result : ℚ}
    (valid : number value field = .ok result) : value = some result ∧ 0 < result := by
  unfold number at valid
  split at valid
  · split at valid
    · cases valid
      exact ⟨rfl, ‹_›⟩
    · cases valid
  · cases valid

theorem aware_ok {value : Timestamp} {field : String} {instant : Int}
    (valid : aware value field = .ok instant) : value = some instant := by
  unfold aware at valid
  split at valid
  · cases valid
    rfl
  · cases valid

variable {clock : NewYork} {sessionDate windowIndex index : Int} {quote : Quote}
  {target : QuoteTarget}

/-- What a valid quote has passed. -/
theorem normalizeQuote_valid
    (valid : normalizeQuote clock sessionDate windowIndex quote = .ok (.valid index target)) :
    index = windowIndex ∧ quote.receivedAt = some target.receivedAt ∧
      quote.bidAt = some (some target.bidAt) ∧ quote.askAt = some (some target.askAt) ∧
      clock.date target.receivedAt = sessionDate ∧
      (quoteWindow windowIndex).1 ≤ clock.time target.receivedAt ∧
      clock.time target.receivedAt ≤ (quoteWindow windowIndex).2 ∧
      0 < target.bid ∧ target.bid ≤ target.ask ∧
      target.halfQuoteSpreadBp = 10000 * (target.ask - target.bid) / (target.ask + target.bid) ∧
      |target.bidAt - target.askAt| ≤ 1 * second ∧
      max (target.receivedAt - target.bidAt) (target.receivedAt - target.askAt) ≤ 5 * second ∧
      min target.bidAt target.askAt ≤ target.receivedAt := by
  unfold normalizeQuote at valid
  split at valid
  · cases valid
  obtain ⟨received, receipt, valid⟩ := Runs.bind_ok.mp valid
  dsimp only at valid
  split at valid
  · cases valid
  rename_i inside
  obtain ⟨bid, bidNumber, valid⟩ := Runs.bind_ok.mp valid
  obtain ⟨ask, askNumber, valid⟩ := Runs.bind_ok.mp valid
  split at valid
  · cases valid
  rename_i ordered
  split at valid
  · rename_i bidStamp askStamp venue bidClock askClock _
    obtain ⟨bidAt, bidAware, valid⟩ := Runs.bind_ok.mp valid
    obtain ⟨askAt, askAware, valid⟩ := Runs.bind_ok.mp valid
    split at valid
    · cases valid
    rename_i fresh
    split at valid
    · cases valid
    cases valid
    simp only [not_or, not_lt] at fresh
    push Not at inside
    refine ⟨rfl, aware_ok receipt, ?_, ?_, inside.1, inside.2.1, inside.2.2,
      (number_ok bidNumber).2, not_lt.mp ordered, rfl, fresh.1, fresh.2.1, fresh.2.2⟩
    · rw [bidClock, aware_ok bidAware]
    · rw [askClock, aware_ok askAware]
  · cases valid

theorem halfSpread_bounds {bid ask : ℚ} (positive : 0 < bid) (ordered : bid ≤ ask) :
    0 ≤ 10000 * (ask - bid) / (ask + bid) ∧ 10000 * (ask - bid) / (ask + bid) < 10000 := by
  have sum : 0 < ask + bid := by linarith
  constructor
  · apply div_nonneg _ sum.le
    linarith
  · rw [div_lt_iff₀ sum]
    linarith

/-- A valid quote is synchronous exactly if neither side is stamped after the receipt. -/
theorem synchronous_iff
    (valid : normalizeQuote clock sessionDate windowIndex quote = .ok (.valid index target)) :
    Synchronous clock sessionDate index target ↔ quote.SidesPast := by
  obtain ⟨rfl, receipt, bidClock, askClock, session, low, high, positive, ordered, spread,
    together, fresh, -⟩ := normalizeQuote_valid valid
  obtain ⟨spreadLow, spreadHigh⟩ := halfSpread_bounds positive ordered
  rw [← spread] at spreadLow spreadHigh
  have past : quote.SidesPast ↔
      target.bidAt ≤ target.receivedAt ∧ target.askAt ≤ target.receivedAt := by
    simp [Quote.SidesPast, receipt, bidClock, askClock]
  rw [past]
  constructor
  · intro synchronous
    exact ⟨synchronous.bid_past, synchronous.ask_past⟩
  · rintro ⟨bidPast, askPast⟩
    exact ⟨bidPast, askPast, (le_max_left _ _).trans fresh, (le_max_right _ _).trans fresh,
      together, ordered, session, low, high, spreadLow, spreadHigh⟩

theorem validQuote_mem {rows : List QuoteRow} (found : validQuote rows index = some target) :
    .valid index target ∈ rows := by
  obtain ⟨row, listed, kept⟩ := List.mem_filterMap.mp (List.mem_of_getLast? found)
  split at kept
  · split at kept
    · cases kept
      subst index
      exact listed
    · cases kept
  · cases kept

theorem measureSymbolDay_target {identity : BarSet → String} {blank : String → Bool}
    {day : SymbolDay} {measured : Measurement}
    (measures : measureSymbolDay identity blank day = .ok measured) :
    measured.quoteTargetBp = quoteTarget day.quoteRows := by
  unfold measureSymbolDay at measures
  split at measures
  · cases measures
  split at measures
  · cases measures
  split at measures
  · cases measures
  obtain ⟨operational, _, measures⟩ := Runs.bind_ok.mp measures
  obtain ⟨simulator, _, measures⟩ := Runs.bind_ok.mp measures
  obtain ⟨crossSource, _, measures⟩ := Runs.bind_ok.mp measures
  cases measures
  rfl

theorem quoteTarget_some {rows : List QuoteRow} {mean : ℚ} (reported : quoteTarget rows = some mean) :
    ∃ first last, .valid 0 first ∈ rows ∧ .valid 1 last ∈ rows ∧
      mean = (first.halfQuoteSpreadBp + last.halfQuoteSpreadBp) / 2 := by
  unfold quoteTarget at reported
  split at reported
  · rename_i first last firstFound lastFound
    cases reported
    exact ⟨first, last, validQuote_mem firstFound, validQuote_mem lastFound, rfl⟩
  · cases reported

/-- Five seconds into the first window of the fifth of October 2026. -/
def firstReceipt : Int :=
  ordinal 2026 10 5 * dayLength + 13 * hour + 31 * minute + 5 * second

/-- A quote whose ask is stamped some time after its receipt. -/
def octoberQuote (askDelay : Int) : Quote where
  receivedAt := some firstReceipt
  bid := some (999 / 10)
  ask := some (1001 / 10)
  bidAt := some (some (firstReceipt - second / 2))
  askAt := some (some (firstReceipt + askDelay))
  venue := some "TEST"
  currency := some "USD"
  source := some "fixture"
  receiptSha256 := none

def octoberTarget (askDelay : Int) : QuoteTarget where
  bid := 999 / 10
  ask := 1001 / 10
  bidAt := firstReceipt - second / 2
  askAt := firstReceipt + askDelay
  receivedAt := firstReceipt
  venue := "TEST"
  currency := some "USD"
  source := some "fixture"
  receiptSha256 := none
  locked := false
  halfQuoteSpreadBp := 10

end TradingEngine.QuoteCapture
