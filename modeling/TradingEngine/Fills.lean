import TradingEngine.Costs

/-!
# The fill model of the account engine

Market data enters through reader functions. A daily or minute bar that a reader
returns has passed the source's admission rule, so its prices are positive. Each
order type has its own attempt: it fills at a priced bar, is rejected or
expires, or stays pending while its bar is missing.
-/

namespace TradingEngine.Fills

open KeyedTables Ledger OrderTypes Nyse Costs

inductive PriceSource where
  | prices | massiveDaily
  deriving DecidableEq

/-- A tradeable daily bar. -/
structure DailyBar where
  openPx : ℚ
  closePx : ℚ
  positive : 0 < openPx ∧ 0 < closePx

/-- A tradeable one-minute bar, stamped at its start. -/
structure MinuteBar where
  ts : Int
  openPx : ℚ
  high : ℚ
  low : ℚ
  closePx : ℚ
  vwap : Option ℚ
  positive : 0 < openPx ∧ 0 < high ∧ 0 < low ∧ 0 < closePx

/-- A corporate action as captured: its value and the time of capture. -/
structure CorporateAction where
  value : ℚ
  fetchedAt : Option Int

/-- Captured by an instant. -/
def CorporateAction.known (action : CorporateAction) (now : Int) : Bool :=
  action.fetchedAt.all fun fetched => decide (fetched ≤ now)

/-- A holding that the exchange directory dropped and that stopped trading. -/
structure Delisting where
  ticker : Ticker
  lastTraded : Int
  close : ℚ
  closePositive : 0 < close

/-- Readers of the market data that one run sees. Bars are admitted by a time of
availability; a close observation has the date it was made on. -/
structure Market (zone : Zone) where
  dailyBar : PriceSource → Ticker → Int → Int → Option DailyBar
  minuteBars : PriceSource → Ticker → Int → Option Int → List MinuteBar
  minutes_within : ∀ source ticker day availableAt, ∀ bar ∈ minuteBars source ticker day availableAt,
    opened zone day ≤ bar.ts ∧ bar.ts < closed zone day
  medianDollarVolume : PriceSource → Ticker → Int → Option Int → Option ℚ
  latestClose : PriceSource → Ticker → Int → Bool → Option Int → Option (Int × ℚ)
  latestClose_positive : ∀ source ticker day strict availableAt observed,
    latestClose source ticker day strict availableAt = some observed → 0 < observed.2
  splits : Table (Ticker × Int) CorporateAction
  dividends : Table (Ticker × Int) CorporateAction
  splitAdjusted : Ticker → Int → Int → Bool
  liquid : Ticker → Int → Bool
  shortDataAvailable : Bool
  shortPublishedThrough : Int → Option Int
  thresholdDates : Ticker → Int → List Int
  daysToCover : Ticker → Int → Option ℚ
  sourceUnavailable : Bool → Bool → Bool → Bool
  tradedSince : Ticker → Int → Bool
  delistings : Int → List Ticker → List Delisting
  power : ℚ → ℚ

variable {zone : Zone}

theorem ten_positive : (0 : ℚ) < 10 := by norm_num
theorem hundred_positive : (0 : ℚ) < 100 := by norm_num

/-- A market in which every instrument has traded at one price on every day, and
nothing else ever happens. -/
def steadyMarket (price : ℚ) (positive : 0 < price) : Market zone where
  dailyBar _ _ _ _ := some ⟨price, price, positive, positive⟩
  minuteBars _ _ _ _ := []
  minutes_within _ _ _ _ _ listed := by simp at listed
  medianDollarVolume _ _ _ _ := none
  latestClose _ _ day strict _ := some (if strict then previousSession day else day, price)
  latestClose_positive _ _ _ _ _ _ seen := by cases seen; exact positive
  splits := ∅
  dividends := ∅
  splitAdjusted _ _ _ := false
  liquid _ _ := true
  shortDataAvailable := true
  shortPublishedThrough day := some day
  thresholdDates _ _ := []
  daysToCover _ _ := none
  sourceUnavailable _ _ _ := false
  tradedSince _ _ := false
  delistings _ _ := []
  power := id

inductive ExecutionProfile where
  | baselineV1 | cost2xV1 | participationStressV1

namespace ExecutionProfile

def spreadMultiplier : ExecutionProfile → ℚ
  | cost2xV1 => 2
  | _ => 1

def fixedAdverseBps : ExecutionProfile → ℚ
  | cost2xV1 => 10
  | _ => 5

def impactCoefficientBps : ExecutionProfile → ℚ
  | participationStressV1 => 10
  | _ => 0

end ExecutionProfile

/-- Largest share of the median daily dollar volume, in every profile. -/
def maxParticipation : ℚ := 1 / 100

/-- Sessions a bar may be missing. -/
def pendingMaxDays : Nat := 3

/-- Half-spread estimate from trailing median dollar volume. -/
def halfSpreadBps : Option ℚ → ℚ
  | none => 25
  | some volume =>
    if volume < 5000000 then 25 else if volume < 20000000 then 15
    else if volume < 50000000 then 10 else 5

/-- The priced outcome of an attempt. -/
structure FillTerms where
  fillPx : ℚ
  referencePx : ℚ
  medianDollarVol : Option ℚ
  fillTs : Int
  kind : FillKind
  deriving DecidableEq

/-- Outcome of attempting to fill one order. A liquidity rejection keeps the time
at which the order would have filled. -/
inductive FillResult where
  | filled (terms : FillTerms)
  | rejected (reason : Reason) (fillTs : Option Int)
  | expired (reason : Reason)
  | pending
  deriving DecidableEq

/-- The time that an attempt found for its order. -/
def FillResult.fillTs : FillResult → Option Int
  | .filled terms => some terms.fillTs
  | .rejected _ fillTs => fillTs
  | .expired _ | .pending => none

/-- What a priced attempt charges beyond the reference price. -/
structure Friction where
  spreadBps : ℚ
  adverse : Bool
  impact : Bool
  penaltyBps : ℚ

/-- Price one fill: the profile scales the half-spread and adds its adverse
movement and participation impact. -/
def v2Result (market : Market zone) (profile : ExecutionProfile) (side : Side)
    (qty reference : ℚ) (volume : Option ℚ) (friction : Friction) (kind : FillKind)
    (fillTs : Int) : FillResult :=
  if qty ≤ 0 then .rejected .invalidQuantity none
  else if reference ≤ 0 then .rejected .invalidReferencePrice none
  else
    let participation :=
      match volume with
      | none => 0
      | some volume => if volume ≤ 0 then 0 else qty * reference / volume
    if ∃ known ∈ volume, known ≤ 0 ∨ maxParticipation < participation then
      .rejected .illiquid (some fillTs)
    else
      let impactBps :=
        if friction.impact ∧ profile.impactCoefficientBps ≠ 0 ∧ 0 < participation then
          profile.impactCoefficientBps * market.power (participation / maxParticipation)
        else 0
      let slipBps := friction.spreadBps * profile.spreadMultiplier +
        (if friction.adverse then profile.fixedAdverseBps else 0) + impactBps + friction.penaltyBps
      let fillPx := reference * (1 + side.sign * slipBps / 10000)
      if fillPx ≤ 0 then .rejected .fillArithmetic none
      else .filled ⟨fillPx, reference, volume, fillTs, kind⟩

/-- An order as the fold sees it: its receipt units converted to the session. Intake
gives every limit order its price. -/
structure PendingRow where
  orderId : OrderId
  ticker : Ticker
  side : Side
  qty : ℚ
  signalDate : Int
  orderType : OrderTypes.OrderType
  executable : Bool
  limitPx : Option ℚ
  sessionDate : Int
  receivedAt : Int
  contingentOn : Option OrderId
  stateReason : List Reason
  limited : orderType = .limit → limitPx.isSome
  deriving DecidableEq

/-- Close of the session before a date. -/
def priorClose (zone : Zone) (sessionDate : Int) : Int :=
  closed zone (previousSession sessionDate)

/-- The opening-auction cutoff, 09:28 in New York. -/
def mooCutoff (zone : Zone) (sessionDate : Int) : Int := opened zone sessionDate - 2 * minute

/-- The closing-auction cutoff, ten minutes before the close. -/
def mocCutoff (zone : Zone) (sessionDate : Int) : Int := closed zone sessionDate - 10 * minute

/-- The arrival window of an order type. -/
def receivedAtAllowed (zone : Zone) (orderType : OrderTypes.OrderType) (sessionDate receivedAt : Int) : Bool :=
  isSession sessionDate &&
    match orderType with
    | .nextOpen => decide (closed zone sessionDate ≤ receivedAt) &&
        decide (receivedAt < opened zone (nextSession sessionDate))
    | .moo | .limitOnOpen => decide (priorClose zone sessionDate ≤ receivedAt) &&
        decide (receivedAt ≤ mooCutoff zone sessionDate)
    | .moc => decide (priorClose zone sessionDate ≤ receivedAt) &&
        decide (receivedAt ≤ mocCutoff zone sessionDate)
    | .market => decide (opened zone sessionDate ≤ receivedAt) &&
        decide (receivedAt < closed zone sessionDate)
    | .limit => decide (priorClose zone sessionDate ≤ receivedAt) &&
        decide (receivedAt < closed zone sessionDate)

/-- The next open after the signal. A missing bar leaves the order pending until
enough sessions have passed between the signal and the fill date. -/
def attemptNextOpenFill (market : Market zone) (source : PriceSource) (profile : ExecutionProfile)
    (row : PendingRow) (day now : Int) (penaltyBps : ℚ) : FillResult :=
  if row.qty ≤ 0 then .rejected .invalidQuantity none
  else
    match market.dailyBar source row.ticker day now with
    | none =>
      if pendingMaxDays ≤ sessionsBetween row.signalDate day then .rejected .noBar none
      else .pending
    | some bar =>
      let volume := market.medianDollarVolume source row.ticker day (some now)
      v2Result market profile row.side row.qty bar.openPx volume
        ⟨halfSpreadBps volume, true, true, penaltyBps⟩ .nextOpen (opened zone day)

/-- An opening or closing auction: half the half-spread and no adverse movement. -/
def attemptAuctionFill (market : Market zone) (source : PriceSource) (profile : ExecutionProfile)
    (row : PendingRow) (opening : Bool) (day now : Int) (penaltyBps : ℚ) : FillResult :=
  if row.qty ≤ 0 then .rejected .invalidQuantity none
  else if receivedAtAllowed zone row.orderType day row.receivedAt = false then
    .rejected .cutoff none
  else
    match market.dailyBar source row.ticker day now with
    | none => .pending
    | some bar =>
      let volume := market.medianDollarVolume source row.ticker day (some now)
      v2Result market profile row.side row.qty (if opening then bar.openPx else bar.closePx) volume
        ⟨halfSpreadBps volume / 2, false, true, penaltyBps⟩
        (if opening then .openAuction else .closeAuction)
        (if opening then opened zone day else closed zone day)

/-- Minute bars that start at least a minute after receipt. -/
def eligibleMinutes (market : Market zone) (source : PriceSource) (row : PendingRow)
    (day now : Int) : List MinuteBar :=
  (market.minuteBars source row.ticker day (some now)).filter fun bar =>
    decide (row.receivedAt + minute ≤ bar.ts)

/-- Whether captured bars reach the final minute of the session. -/
def minuteSessionComplete (market : Market zone) (source : PriceSource) (ticker : Ticker)
    (day now : Int) : Bool :=
  match (market.minuteBars source ticker day (some now)).getLast? with
  | none => false
  | some bar => decide (closed zone day - minute ≤ bar.ts)

/-- Missing minutes leave the order pending until enough sessions have passed. -/
def missingIntradayResult (day now : Int) : FillResult :=
  if sessionsBetween day (dateOf now) < pendingMaxDays then .pending else .rejected .noBar none

/-- The first minute bar at least a minute after receipt. -/
def attemptIntradayMarketFill (market : Market zone) (source : PriceSource)
    (profile : ExecutionProfile) (row : PendingRow) (day now : Int) : FillResult :=
  if row.qty ≤ 0 then .rejected .invalidQuantity none
  else if receivedAtAllowed zone .market day row.receivedAt = false then
    .rejected .marketClosed none
  else
    match eligibleMinutes market source row day now with
    | [] =>
      if minuteSessionComplete market source row.ticker day now then .rejected .noBar none
      else missingIntradayResult day now
    | bar :: _ =>
      let average := (bar.openPx + bar.high + bar.low + bar.closePx) / 4
      let reference :=
        match bar.vwap with
        | none => average
        | some vwap => if 0 < vwap then vwap else average
      let volume := market.medianDollarVolume source row.ticker day (some now)
      v2Result market profile row.side row.qty reference volume
        ⟨halfSpreadBps volume, true, true, 0⟩ .intradayBar (bar.ts + minute)

/-- US equity tick. -/
def tickSize (price : ℚ) : ℚ := if 1 ≤ price then 1 / 100 else 1 / 10000

/-- A minute bar that trades one tick through the limit. -/
def touches (side : Side) (limitPx : ℚ) (bar : MinuteBar) : Bool :=
  match side with
  | .buy | .cover => decide (bar.low ≤ limitPx - tickSize limitPx)
  | .sell | .short => decide (limitPx + tickSize limitPx ≤ bar.high)

/-- A day limit fills at its own price once a later full minute crosses it. -/
def attemptIntradayLimitFill (market : Market zone) (source : PriceSource)
    (profile : ExecutionProfile) (row : PendingRow) (limitPx : ℚ) (day now : Int) : FillResult :=
  if row.qty ≤ 0 then .rejected .invalidQuantity none
  else if limitPx ≤ 0 then .rejected .invalidLimitPrice none
  else if receivedAtAllowed zone .limit day row.receivedAt = false then
    .rejected .marketClosed none
  else
    let complete := minuteSessionComplete market source row.ticker day now
    let bars := eligibleMinutes market source row day now
    if bars.isEmpty then
      if complete then .expired .dayLimitNotTouched else missingIntradayResult day now
    else
      match bars.find? (touches row.side limitPx) with
      | none => if complete then .expired .dayLimitNotTouched else missingIntradayResult day now
      | some bar =>
        v2Result market profile row.side row.qty limitPx
          (market.medianDollarVolume source row.ticker day (some now)) ⟨0, false, false, 0⟩
          .limitTouch (bar.ts + minute)

end TradingEngine.Fills
