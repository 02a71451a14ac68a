import TradingEngine.Accounts

/-!
# Marks, margin, financing and forced orders

A held instrument is marked at its latest observed close, at an earlier minute
of the session when the mark is asked for within it, or at the account's own
last fill; recorded splits bring the observation to the day's units. Margin is
computed on current positions or on those after a projected fill.

Interest and borrow charges are re-derived whenever a day is folded. What was
already charged stays recorded; only the difference is appended.
-/

namespace TradingEngine.Accounts

open KeyedTables OrderTypes Nyse Ledger Costs Fills

variable {zone : Zone}

inductive MarkSource where
  | daily (source : PriceSource) | minutes | fill
  deriving DecidableEq

/-- A price with the time and the source of its observation. -/
structure Mark where
  price : ℚ
  observedAt : Int
  stale : Bool
  source : MarkSource
  deriving DecidableEq

/-- Bring an observation into the units of a day. A price that the stored history
already adjusted for the split is left alone. -/
def splitMark (market : Market zone) (splits : Table (Ticker × Int) SplitRatio) (ticker : Ticker)
    (day : Int) (observed : Mark) : Mark :=
  let later := splits.entries.filter fun row =>
    decide (row.1.1 = ticker) && decide (row.1.2 ≤ day) &&
      decide (dateOf observed.observedAt < row.1.2) &&
      !(decide (observed.source = .daily .prices) &&
        market.splitAdjusted ticker row.1.2 (dateOf observed.observedAt))
  { observed with price := later.foldl (fun price row => price / row.2.value) observed.price }

/-- The account's own last fill of an instrument by an instant. -/
def lastFill (fills : Table OrderId FillRow) (ticker : Ticker) (day stamp : Int) : Option Mark :=
  let key := fun row : Σ _ : OrderId, FillRow =>
    (toLex (row.2.fillTs.getD (row.2.fillDate * dayLength), row.1) : Int ×ₗ Nat)
  let known := fills.entries.filter fun row =>
    decide (row.2.ticker = ticker) && decide (row.2.fillDate ≤ day) &&
      decide ((ofLex (key row)).1 ≤ stamp) && decide (0 < row.2.fillPx)
  (known.insertionSort fun a b => key b ≤ key a).head?.map fun row =>
    ⟨row.2.fillPx, (ofLex (key row)).1, true, .fill⟩

/-- A price seen on the market by an instant: the last full minute inside the
session, else the latest close. -/
def observation (market : Market zone) (source : PriceSource) (ticker : Ticker) (day : Int)
    (stamp : Int) (availableAt : Option Int) : Option Mark :=
  let close := (market.latestClose source ticker day (stamp < closed zone day) availableAt).map
    fun seen => Mark.mk seen.2 (closed zone seen.1) (seen.1 < day) (.daily source)
  if opened zone day < stamp ∧ stamp < closed zone day then
    match ((market.minuteBars source ticker day availableAt).filter fun bar =>
        decide (bar.ts + minute ≤ stamp)).getLast? with
    | some bar => some ⟨bar.closePx, bar.ts + minute, false, .minutes⟩
    | none => close
  else close

/-- Carry an observed price; never omit an unpriced signed holding. -/
def mark (market : Market zone) (account : Account) (ticker : Ticker) (day : Int)
    (asOf availableAt : Option Int) : Except AccountError Mark :=
  let stamp := asOf.getD (closed zone day)
  match observation market account.settings.priceSource ticker day stamp availableAt with
  | some seen => .ok (splitMark market account.ledger.splits ticker day seen)
  | none =>
    match lastFill account.ledger.fills ticker day stamp with
    | some seen => .ok (splitMark market account.ledger.splits ticker day seen)
    | none => .error (.noPriceObserved ticker)

/-- Initial and maintenance excess under Regulation T. -/
structure MarginState where
  equity : ℚ
  longMarketValue : ℚ
  shortMarketValue : ℚ
  maintenanceRequirement : ℚ
  initialExcess : ℚ
  maintenanceExcess : ℚ
  deriving DecidableEq

/-- A fill that is not booked yet. -/
structure Projected where
  ticker : Ticker
  side : Side
  qty : ℚ
  price : ℚ

/-- A marked holding: instrument, signed quantity and price. -/
abbrev Marked := Ticker × ℚ × ℚ

/-- Marks of everything held. -/
def heldMarks (market : Market zone) (account : Account) (day : Int)
    (asOf availableAt : Option Int) : Except AccountError (List Marked) :=
  account.book.held.mapM fun row =>
    (mark market account row.1 day asOf availableAt).map fun seen => (row.1, row.2, seen.price)

/-- The marked quantity of an instrument. -/
def markedQty (marks : List Marked) (ticker : Ticker) : ℚ :=
  ((marks.find? fun row => row.1 = ticker).map fun row => row.2.1).getD 0

/-- Cash and marks after a projected fill. -/
def project (cash : ℚ) (marks : List Marked) (fill : Projected) :
    Except AccountError (ℚ × List Marked) :=
  let current := markedQty marks fill.ticker
  let rest := marks.filter fun row => row.1 ≠ fill.ticker
  let moved := fun qty : ℚ =>
    (cash - fill.side.sign * (qty * fill.price),
      rest ++ [(fill.ticker, current + fill.side.sign * qty, fill.price)])
  match fill.side with
  | .buy => if current < 0 then .error .buyOnShort else .ok (moved fill.qty)
  | .sell => .ok (moved (min fill.qty (max current 0)))
  | .short => if 0 < current then .error .shortOnLong else .ok (moved fill.qty)
  | .cover => .ok (moved (min fill.qty |min current 0|))

/-- Requirements on marked holdings. -/
def requirements (cash : ℚ) (marks : List Marked) : MarginState :=
  let longs := (marks.map fun row => if 0 < row.2.1 then row.2.1 * row.2.2 else 0).sum
  let shorts := (marks.map fun row => if row.2.1 < 0 then |row.2.1| * row.2.2 else 0).sum
  let shareFloor := (marks.map fun row => if row.2.1 < 0 then |row.2.1| * 5 else 0).sum
  let equity := cash + longs - shorts
  let initial := 1 / 2 * longs + 1 / 2 * shorts
  let maintenance := 1 / 4 * longs + max (3 / 10 * shorts) shareFloor
  ⟨equity, longs, shorts, maintenance, equity - initial, equity - maintenance⟩

/-- Current or post-fill margin. -/
def marginState (market : Market zone) (account : Account) (day : Int)
    (projected : Option Projected) (fees : ℚ) (asOf availableAt : Option Int) :
    Except AccountError MarginState := do
  let marks ← heldMarks market account day asOf availableAt
  match projected with
  | none => .ok (requirements (account.book.cash - fees) marks)
  | some fill =>
    let (cash, marks) ← project (account.book.cash - fees) marks fill
    .ok (requirements cash marks)

/-- The latest sessions on or before a day, newest first. -/
def previousSessions (day : Int) (count : Nat) : List Int :=
  (List.range count).map fun n => previousSession^[n] (sessionOnOrBefore day)

/-- First of the sessions that a window covers. -/
def windowStart (day : Int) (count : Nat) : Int :=
  previousSession^[count - 1] (sessionOnOrBefore day)

/-- Equity of the last mark before a day. -/
def priorCloseEquity (account : Account) (day : Int) : ℚ :=
  let earlier := account.equity.entries.filter fun row => row.1 < day
  match (earlier.insertionSort fun a b => b.1 ≤ a.1).head? with
  | some row => row.2.equity
  | none => account.ledger.initialCash

/-- Preview whether a close would take a lot opened in its session. -/
def wouldCreateDayTrade (account : Account) (ticker : Ticker) (side : Side) (qty : ℚ)
    (sessionDate : Int) : Bool :=
  side.closing &&
    (matchLots account.ledger.times account.book.lots ticker qty (side = .cover) false).1.any
      fun lot => lot.openedSession = sessionDate

/-- Day trades of the trailing window. -/
def trailingDayTrades (account : Account) (day : Int) : Nat :=
  (account.book.dayTrades.filter fun trade =>
    decide (windowStart day 5 ≤ trade.sessionDate) && decide (trade.sessionDate ≤ day)).length

/-- A refusal under the day-trading rule, and whether the account is flagged by it. -/
structure PdtResult where
  refusal : Option Reason
  flagged : Bool

/-- Apply the account's day-trading rule before a fill. -/
def pdtCheck (market : Market zone) (account : Account) (ticker : Ticker) (side : Side) (qty : ℚ)
    (sessionDate : Int) (price : ℚ) (asOf availableAt : Option Int) :
    Except AccountError PdtResult :=
  if account.settings.accountType ≠ .margin then .ok ⟨none, false⟩
  else
    match account.settings.dayTradeRule with
    | .intradayMargin2026 =>
      if side.closing then .ok ⟨none, false⟩
      else do
        let state ← marginState market account sessionDate (some ⟨ticker, side, qty, price⟩) 0
          asOf availableAt
        .ok ⟨if state.initialExcess < -(1 / 10 ^ 9) then some .regTInitial else none, false⟩
    | .pdt25kLegacy =>
      let prior := priorCloseEquity account sessionDate
      if (∃ restricted ∈ account.pdtRestrictedUntil, sessionDate ≤ restricted) ∧ prior < 25000 ∧
          side.closing = false then .ok ⟨some .pdtRestricted, false⟩
      else if wouldCreateDayTrade account ticker side qty sessionDate ∧ prior < 25000 ∧
          3 ≤ trailingDayTrades account sessionDate then .ok ⟨some .pdtLimit, true⟩
      else .ok ⟨none, false⟩

/-- Restrict a flagged account for ninety days. -/
def flagPdt (account : Account) (day wallClock : Int) : Account :=
  let restricted := day + 90
  { account with
    pdtRestrictedUntil := some (max (account.pdtRestrictedUntil.getD restricted) restricted)
    updatedAt := wallClock }

/-- Accounts that settlement, financing and maintenance process. -/
def AccountStatus.processing : AccountStatus → Bool
  | .active | .halted | .retiring => true
  | .inactive | .retired => false

/-- The next sequence number of a day's cash events. -/
def nextCashSeq (events : Table (Int × Nat) CashRow) (day : Int) : Nat :=
  ((events.keys.filter fun key => key.1 = day).map Prod.snd).foldr max 0 + 1

/-- Append one signed cash movement and apply it. -/
def applyCashEvent (account : Account) (day : Int) (row : CashRow) : Account :=
  { account with
    book := account.book.credit row.amount
    ledger :=
      { account.ledger with
        cashEvents := account.ledger.cashEvents.insert
          (day, nextCashSeq account.ledger.cashEvents day) row } }

/-- Charges already recorded for a day, kind and instrument. -/
def recordedCharges (events : Table (Int × Nat) CashRow) (day : Int) (kind : CashKind)
    (instrumentId : Option Ticker) : List CashRow :=
  (events.entries.filter fun row => decide (row.1.1 = day) && decide (row.2.kind = kind) &&
    decide (row.2.instrumentId = instrumentId)).map Sigma.snd

/-- Append a financing correction while keeping every previous cash event. The
recorded charges are applied first; a correction of less than the tolerance is
not recorded. -/
def postAccrual (account : Account) (day : Int) (row : CashRow) : Account :=
  let recorded := recordedCharges account.ledger.cashEvents day row.kind row.instrumentId
  let existing := (recorded.map CashRow.amount).sum
  let replayed := { account with book := account.book.credit existing }
  let delta := row.amount - existing
  if |delta| < 1 / 10 ^ 10 ∧ recorded ≠ [] then replayed
  else applyCashEvent replayed day { row with amount := delta }

/-- The last earlier date with a charge of a kind and instrument. -/
def lastCharge (events : Table (Int × Nat) CashRow) (day : Int) (kind : CashKind)
    (instrumentId : Option Ticker) : Option Int :=
  ((events.entries.filter fun row => decide (row.1.1 < day) && decide (row.2.kind = kind) &&
    decide (row.2.instrumentId = instrumentId)).map fun row => row.1.1).max?

/-- Interest on a debit for the calendar days since the last charge. -/
def accrueInterest (zone : Zone) (account : Account) (day : Int) : Account :=
  if account.settings.status.processing then
    let start := (lastCharge account.ledger.cashEvents day .marginInterest none).getD
      (previousSession day)
    let dates := (List.range (day - start).toNat).map fun offset : Nat => start + 1 + offset
    let fee := (dates.map fun date =>
      marginInterest account.settings.costProfile (max (-account.book.cash) 0) date).sum
    postAccrual account day
      { kind := .marginInterest, amount := -fee, instrumentId := none, refOrderId := none
        note := toString dates.length ++ " calendar day(s)", createdAt := opened zone day
        interest_of_account := fun _ => rfl
        borrow_of_instrument := fun impossible => by cases impossible }
  else account

/-- Short holdings, and instruments charged on the day that are no longer short. -/
def borrowRows (account : Account) (day : Int) : List (Ticker × ℚ) :=
  let held := account.book.held.filter fun row => row.2 < 0
  let charged := (account.ledger.cashEvents.entries.filterMap fun row =>
    if row.1.1 = day ∧ row.2.kind = .borrowFee then row.2.instrumentId else none).dedup
  let covered := charged.filter fun ticker => !held.any fun row => row.1 = ticker
  (held ++ covered.map fun ticker => (ticker, 0)).insertionSort fun a b => a.1 ≤ b.1

/-- Quantities and the calendar days that each is charged for. -/
def borrowPortions (account : Account) (ticker : Ticker) (qty : ℚ) (day : Int) :
    List (ℚ × Int) :=
  let prior := previousSession day
  let floor := (lastCharge account.ledger.cashEvents day .borrowFee (some ticker)).getD prior
  let lots := account.book.lots.entries.filter fun row =>
    decide (row.1.1 = ticker) && decide (row.2.qty < 0)
  let portions := lots.map fun row => (|row.2.qty|, max (day - max floor row.2.openedSession) 0)
  let covered := (lots.map fun row => |row.2.qty|).sum
  if covered + 1 / 10 ^ 12 < |qty| then portions ++ [(|qty| - covered, day - prior)] else portions

/-- The price at which a short is charged, observed before the open. -/
def borrowPrice (market : Market zone) (day : Int) (account : Account) (row : Ticker × ℚ) :
    Except AccountError ℚ :=
  if row.2 = 0 then .ok 0
  else (mark market account row.1 day (some (opened zone day)) none).map Mark.price

/-- Borrow charge of one instrument. -/
def chargeBorrow (market : Market zone) (day : Int) (account : Account) (row : Ticker × ℚ) :
    Except AccountError Account := do
  let close ← borrowPrice market day account row
  let portions := borrowPortions account row.1 row.2 day
  let fee := ((portions.filter fun portion => 0 < portion.2).map fun portion =>
    borrowFee account.settings.costProfile (portion.1 * close) portion.2).sum
  let span := (portions.map Prod.snd).foldr max 0
  .ok (postAccrual account day
    { kind := .borrowFee, amount := -fee, instrumentId := some row.1, refOrderId := none
      note := "up to " ++ toString span ++ " calendar day(s)", createdAt := opened zone day
      interest_of_account := fun impossible => by cases impossible
      borrow_of_instrument := fun _ => rfl })

/-- Debit borrow cost once for each held short and session. -/
def accrueBorrow (market : Market zone) (account : Account) (day : Int) :
    Except AccountError Account :=
  if account.settings.status.processing then
    (borrowRows account day).foldlM (chargeBorrow market day) account
  else .ok account

/-- Point-in-time stock locate: whether the name is easy to borrow. -/
def locate (market : Market zone) (source : PriceSource) (ticker : Ticker) (day now : Int) : Bool :=
  let stale := !(market.shortPublishedThrough day).any fun newest =>
    decide (sessionsBetween newest day ≤ 10)
  let priced := (market.latestClose source ticker day true (some now)).any fun seen =>
    decide (5 ≤ seen.2)
  let traded := (market.medianDollarVolume source ticker day (some now)).any fun volume =>
    decide (5000000 ≤ volume)
  let listed := (market.thresholdDates ticker day).any fun date =>
    (previousSessions day 5).contains date
  let crowded := (market.daysToCover ticker day).any fun days => decide (10 ≤ days)
  priced && traded && market.liquid ticker day && (stale || !(listed || crowded))

/-- An order that the engine queues to reduce a position. -/
def forcedOrder (ticker : Ticker) (side : Side) (qty : ℚ) (orderType : OrderTypes.OrderType)
    (unlimited : orderType ≠ .limit) (sessionDate receivedAt : Int) (reason : Reason) : Order where
  ticker := ticker
  side := side
  qty := qty
  signalDate := sessionDate
  status := .pending
  rejectReason := []
  details := some
    { executable := true, orderType := orderType, limitPx := none, sessionDate := sessionDate
      receivedAt := receivedAt, contingentOn := none, state := .queued, stateReason := [reason]
      stateAt := receivedAt, limited := fun limit => absurd limit unlimited }

/-- Insert an order under the next number. -/
def Account.queue (account : Account) (sequence : Nat) (order : Order) : Account :=
  { account with
    orders := account.orders.insert (nextOrderId sequence account.orders) order }

/-- A pending order of an instrument that a reason leads. -/
def Account.hasForced (account : Account) (ticker : Ticker) (reason : Reason) : Bool :=
  account.orders.entries.any fun row =>
    decide (row.2.ticker = ticker) && decide (row.2.status = .pending) &&
      row.2.led (fun led => led = reason)

/-- The side that reduces a signed quantity. -/
def reducingSide (qty : ℚ) : Side := if 0 < qty then .sell else .cover

/-- Queue proportional next-open reductions after a maintenance breach. -/
def queueMarginReductions (world : World zone) (account : Account) (day : Int) :
    Except AccountError Account := do
  let state ← marginState world.market account day none 0 none none
  if 0 ≤ state.maintenanceExcess ∨ state.maintenanceRequirement ≤ 0 then .ok account
  else
    let ratio := min 1 (-state.maintenanceExcess / state.maintenanceRequirement)
    .ok (account.book.held.foldl (fun account row =>
      if |row.2| * ratio ≤ 1 / 10 ^ 12 ∨ account.hasForced row.1 .marginCall then account
      else account.queue world.orderSequence (forcedOrder row.1 (reducingSide row.2)
        (|row.2| * ratio) .nextOpen OrderType.nextOpen_unlimited day (closed zone day) .marginCall)) account)

/-- Queue reductions for a processing margin account below maintenance. -/
def checkMaintenance (world : World zone) (account : Account) (day : Int) :
    Except AccountError Account :=
  if account.settings.status.processing ∧ account.settings.accountType = .margin then
    queueMarginReductions world account day
  else .ok account

/-- Whether the name was on the threshold list in each of the latest sessions. -/
def thresholdStreak (market : Market zone) (ticker : Ticker) (day : Int) : Bool :=
  (previousSessions day 5).all fun date => (market.thresholdDates ticker day).contains date

/-- A pending buy-in cover of an instrument. -/
def Account.hasBuyIn (account : Account) (ticker : Ticker) : Bool :=
  account.orders.entries.any fun row =>
    decide (row.2.ticker = ticker) && decide (row.2.side = .cover) &&
      decide (row.2.status = .pending) && row.2.led (fun led => led = .buyIn)

/-- Queue next-open covers for shorts on the threshold list. -/
def queueBuyIns (world : World zone) (account : Account) (day : Int) : Account :=
  if account.settings.status.processing then
    (account.book.held.filter fun row => row.2 < 0).foldl (fun account row =>
      if thresholdStreak world.market row.1 day = false ∨ account.hasBuyIn row.1 then account
      else account.queue world.orderSequence (forcedOrder row.1 .cover |row.2| .nextOpen
        (by decide) day (closed zone day) .buyIn)) account
  else account

end TradingEngine.Accounts
