import TradingEngine.Margin

/-!
# Settlement of an account by a fold from inception

A fold replaces the cached book of an account. It walks the sessions from the
account's first day and, within a session, applies recorded events, entitlements,
financing and new executions together in order of their effective time. An order
executes against the book that the items before it left. Every step may raise;
the fold then leaves the account as it was.
-/

namespace TradingEngine.Accounts

open KeyedTables OrderTypes Nyse Ledger Costs Fills

variable {zone : Zone}

/-- A ledger result inside an account call. -/
def ofLedger {α : Type} : Except LedgerError α → Except AccountError α
  | .ok value => .ok value
  | .error raised => .error (.ledger raised)

/-- Convert receipt units to the session: splits between receipt and execution
scale the quantity and the limit. -/
def prepareOrder (world : World zone) (row : PendingRow) (day : Int) : PendingRow :=
  let factor := (world.market.splits.entries.filter fun action =>
    decide (action.1.1 = row.ticker) && decide (action.1.2 ≤ day) && decide (0 < action.2.value) &&
      action.2.known world.now && decide (row.receivedAt < opened zone action.1.2)).foldl
    (fun factor action => factor * action.2.value) 1
  { row with
    qty := row.qty * factor
    limitPx := row.limitPx.map (· / factor)
    limited := fun limit => by simpa using row.limited limit }

/-- Whether a split concerns an instrument that the account ever ordered or traded. -/
def Account.touched (account : Account) (ticker : Ticker) : Bool :=
  (account.ledger.fills.entries.any fun row => row.2.ticker = ticker) ||
    account.orders.entries.any fun row => row.2.ticker = ticker

/-- Admit captured splits that are not recorded yet. -/
def captureSplits (world : World zone) (account : Account) (through : Int) : Account :=
  let splits := world.market.splits.entries.foldl (fun (recorded : Table (Ticker × Int) SplitRatio) action =>
    if positive : 0 < action.2.value then
      if action.1.2 ≤ through ∧ action.2.known world.now ∧ account.touched action.1.1 ∧
          recorded.lookup action.1 = none then
        recorded.insert action.1 ⟨action.2.value, positive⟩
      else recorded
    else recorded) account.ledger.splits
  { account with ledger := { account.ledger with splits := splits } }

/-- Why an order's own numbers cannot be executed. -/
def orderRefusal (row : PendingRow) : Option Reason :=
  if row.qty ≤ 0 then some .invalidQuantity
  else if ∃ limitPx ∈ row.limitPx, limitPx ≤ 0 then some .invalidLimitPrice
  else none

/-- The engine's own reductions. -/
def isForced (row : PendingRow) : Bool := row.stateReason.any Reason.forces

/-- Basis points that a forced fill pays on top. -/
def penaltyBps (row : PendingRow) : ℚ :=
  if row.stateReason.contains .buyIn then 50
  else if row.stateReason.contains .marginCall then 25
  else 0

/-- Attempt the fill of a prepared order. -/
def fillAttempt (world : World zone) (account : Account) (row : PendingRow) (day : Int) :
    FillResult :=
  let market := world.market
  let source := account.settings.priceSource
  let profile := account.executionProfile
  match orderRefusal row with
  | some malformed => .rejected malformed none
  | none =>
    match kind : row.orderType with
    | .nextOpen => attemptNextOpenFill market source profile row day world.now (penaltyBps row)
    | .moo => attemptAuctionFill market source profile row true day world.now (penaltyBps row)
    | .moc => attemptAuctionFill market source profile row false day world.now (penaltyBps row)
    | .market => attemptIntradayMarketFill market source profile row day world.now
    | .limit => attemptIntradayLimitFill market source profile row
        (row.limitPx.get (row.limited kind)) day world.now
    | .limitOnOpen => .rejected .unsupportedOrderType none

/-- An order is due on its execution session only. -/
def due (row : PendingRow) (day : Int) : Bool :=
  if row.orderType = .nextOpen then decide (nextSession row.signalDate = day)
  else decide (row.sessionDate = day)

abbrev ExecutionKey := Int ×ₗ Int ×ₗ Nat

/-- When an order executes, or would have. -/
def executionKey (zone : Zone) (row : PendingRow) (result : FillResult) (day : Int) :
    ExecutionKey :=
  let execution := result.fillTs.getD
    (match row.orderType with
    | .nextOpen | .moo => opened zone day
    | .moc => closed zone day
    | .market | .limit | .limitOnOpen => row.receivedAt + minute)
  toLex (execution, toLex (row.receivedAt, row.orderId))

/-- Buys and covers compete for the same liquidity. -/
def buying : Side → Bool
  | .buy | .cover => true
  | .sell | .short => false

/-- Notional that the account already traded on a day in one direction. -/
def existingNotional (account : Account) (day : Int) (ticker : Ticker) (direction : Bool) : ℚ :=
  total (fun _ row =>
    if row.fillDate = day ∧ row.ticker = ticker ∧ buying row.side = direction then
      |row.qty * row.openPx| else 0) account.ledger.fills

/-- Notional used so far by instrument and direction, and the orders refused. -/
structure Liquidity where
  used : Ticker → Bool → ℚ
  refused : List OrderId

/-- Grant or refuse one priced order its share of the day's volume. -/
def Liquidity.grant (state : Liquidity) (item : Prepared) : Liquidity :=
  match item.2 with
  | .filled terms =>
    let ticker := item.1.ticker
    let direction := buying item.1.side
    let notional := item.1.qty * terms.referencePx
    let before := state.used ticker direction
    if ∃ volume ∈ terms.medianDollarVol, volume / 100 + 1 / 10 ^ 9 < before + notional then
      { state with refused := item.1.orderId :: state.refused }
    else
      { state with
        used := fun name side =>
          if name = ticker ∧ side = direction then before + notional else state.used name side }
  | _ => state

/-- Orders refused because the accounts together would take too much volume. -/
def liquidityRefusals (world : World zone) (account : Account) (day : Int)
    (prepared : List Prepared) : List OrderId :=
  let used := fun ticker direction =>
    existingNotional account day ticker direction + world.foreignNotional day ticker direction
  let inReceiptOrder := prepared.insertionSort fun a b =>
    (toLex (a.1.receivedAt, a.1.orderId) : Int ×ₗ Nat) ≤ toLex (b.1.receivedAt, b.1.orderId)
  (inReceiptOrder.foldl Liquidity.grant ⟨used, []⟩).refused

/-- Refuse a session that depends on an unreadable store. -/
def requireSources (world : World zone) (account : Account) (settings : AccountSettings)
    (rows : List PendingRow) : Except AccountError Unit :=
  let daily := decide (settings.priceSource = .massiveDaily)
  let minutes := daily && rows.any fun row =>
    decide (row.orderType = .market) || decide (row.orderType = .limit)
  let short := (account.book.held.any fun row => row.2 < 0) ||
    rows.any fun row => decide (row.side = .short)
  if world.market.sourceUnavailable daily minutes short then .error .sourceUnavailable else .ok ()

/-- What a fold fixes before it executes the orders of one session. -/
structure Session where
  day : Int
  settings : AccountSettings
  refusals : List OrderId
  keys : List (OrderId × ExecutionKey)

/-- The parent of a contingent order. -/
inductive Contingency where
  | independent | filled (qty : ℚ) | failed | pending
  deriving DecidableEq

/-- What became of an order's parent. -/
def contingentQuantity (account : Account) : Option OrderId → Contingency
  | none => .independent
  | some parent =>
    match account.ledger.fills.lookup parent with
    | some fill => .filled fill.qty
    | none =>
      match account.orders.lookup parent with
      | none => .failed
      | some order =>
        if order.status = .rejected ∨ order.status = .cancelled then .failed else .pending

/-- A close never takes more than is held. -/
def availableCloseQuantity (account : Account) (ticker : Ticker) (side : Side) (requested : ℚ) :
    ℚ :=
  let held := (account.book.position ticker).qty
  match side with
  | .sell => min requested (max held 0)
  | .cover => min requested |min held 0|
  | .buy | .short => requested

/-- A cash account buys only what it can pay. -/
def cashQuantity (account : Account) (side : Side) (requested price fee : ℚ) : ℚ :=
  if account.settings.accountType ≠ .cashLegacy ∨ side ≠ .buy then requested
  else min requested (max (account.book.cash - fee) 0 / price * (1 - 1 / 10 ^ 12))

/-- Where the checks before pricing leave an order. -/
inductive Preflight where
  | stop (state : OrderState) (reason : List Reason)
  | wait
  | go (qty : ℚ)

/-- A parent that executes after its child. -/
def Session.parentLater (session : Session) (row : PendingRow) : Bool :=
  match row.contingentOn.bind fun parent => session.keys.lookup parent,
      session.keys.lookup row.orderId with
  | some parentKey, some key => decide (key < parentKey)
  | _, _ => false

/-- Short sales need permission, data and a locate. -/
def shortRefusal (world : World zone) (session : Session) (row : PendingRow) : Option Reason :=
  if row.side ≠ .short then none
  else if session.settings.allowShort = false then some .shortNotAllowed
  else if (world.shortConnection && world.market.shortDataAvailable) = false then
    some .locateUnavailable
  else if locate world.market session.settings.priceSource row.ticker session.day world.now then none
  else some .noLocate

/-- The quantity that the holding leaves to a due order, after the short-sale checks. -/
def sizedPreflight (world : World zone) (session : Session) (account : Account) (row : PendingRow)
    (requested : ℚ) : Preflight :=
  let qty := availableCloseQuantity account row.ticker row.side requested
  if qty ≤ 0 then .stop .rejected [.noPosition]
  else
    match shortRefusal world session row with
    | some reason => .stop .rejected [reason]
    | none => .go qty

/-- The reason that a stopped account gives its ordinary orders. -/
def stopReason : AccountStatus → Option Reason
  | .halted => some .halted
  | .retiring => some .retiring
  | _ => none

/-- The checks before an order's fill is looked at. -/
def preflight (world : World zone) (session : Session) (account : Account) (row : PendingRow) :
    Preflight :=
  match orderRefusal row with
  | some malformed => .stop .rejected [malformed]
  | none =>
    if row.executable = false then .stop .rejected [.instrumentNotExecutable]
    else
      match if isForced row then none else stopReason session.settings.status with
      | some reason => .stop .cancelled [reason]
      | none =>
        match contingentQuantity account row.contingentOn with
        | .failed => .stop .rejected [.contingentNotFilled]
        | .pending =>
          if session.parentLater row then .stop .rejected [.contingentParentLater] else .wait
        | .filled parentQty => sizedPreflight world session account row (min row.qty parentQty)
        | .independent => sizedPreflight world session account row row.qty

/-- A priced order with its final quantity and fees. -/
structure Sized where
  qty : ℚ
  fees : Fees

/-- Charge an order and clamp it to cash; a clamped quantity is charged again. A
fill below the minimum is refused. -/
def sizeFill (session : Session) (account : Account) (row : PendingRow) (terms : FillTerms) :
    Except AccountError (Option Sized) :=
  let charged := fun qty =>
    charge session.settings.costProfile row.side qty terms.fillPx terms.kind session.day
  match charged row.qty with
  | none => .error .uncharged
  | some fees =>
    let applied := cashQuantity account row.side row.qty terms.fillPx fees.totalUsd
    if applied * terms.fillPx < minFillUsd then .ok none
    else if isClose applied row.qty (1 / 10 ^ 12) (1 / 10 ^ 12) then .ok (some ⟨row.qty, fees⟩)
    else
      match charged applied with
      | none => .error .uncharged
      | some fees => .ok (some ⟨applied, fees⟩)

/-- The gross cap of the specification, within the engine's own bounds. -/
def maxGrossFraction (account : Account) : ℚ := min (max account.spec.maxGrossFraction 0) (3 / 2)

/-- Why margin refuses an opening fill. Forced orders and closes are not refused,
but their margin is computed all the same. -/
def marginRefusal (world : World zone) (session : Session) (account : Account) (row : PendingRow)
    (sized : Sized) (terms : FillTerms) : Except AccountError (Option Reason) := do
  let projected ← marginState world.market account session.day
    (some ⟨row.ticker, row.side, sized.qty, terms.fillPx⟩) sized.fees.totalUsd
    (some terms.fillTs) (some world.now)
  .ok (if isForced row ∨ row.side.closing then none
    else if projected.initialExcess < -(1 / 10 ^ 9) then some .regTInitial
    else if projected.equity * maxGrossFraction account + 1 / 10 ^ 9 <
        projected.longMarketValue + projected.shortMarketValue then some .grossCap
    else none)

/-- The fill that an execution books. -/
def executedFill (row : PendingRow) (qty : ℚ) (terms : FillTerms) (day : Int) : Fill :=
  ⟨some (row.orderId, day), row.ticker, row.side, qty, terms.fillPx, 1⟩

/-- The row that an execution records. -/
def executedRow (row : PendingRow) (qty : ℚ) (terms : FillTerms) (fees : Fees) (day : Int) :
    FillRow :=
  ⟨row.ticker, row.side, qty, day, terms.referencePx, terms.fillPx, some terms.fillTs, 1, some fees⟩

/-- The account with a fill booked and recorded. -/
def recordFill (session : Session) (account : Account) (row : PendingRow) (applied : Applied)
    (terms : FillTerms) (fees : Fees) : Account :=
  { account with
    book := applied.book
    ledger := { account.ledger with
      fills := account.ledger.fills.insert row.orderId
        (executedRow row applied.qty terms fees session.day) } }

/-- Book a fill and record it. A fill that the ledger refuses is not recorded. -/
def persistFill (session : Session) (account : Account) (row : PendingRow) (sized : Sized)
    (terms : FillTerms) : Except AccountError (Account × ℚ) := do
  let applied ← ofLedger (applyFill account.ledgerSettings account.ledger.times account.book
    (executedFill row sized.qty terms session.day) (some sized.fees))
  if applied.qty ≤ 0 then .ok (account, 0)
  else if (account.ledger.fills.lookup row.orderId).isSome then .error (.duplicateFill row.orderId)
  else .ok (recordFill session account row applied terms sized.fees, applied.qty)

/-- The penalty of a buy-in is in its price; the ledger records that it was one. -/
def recordPenalty (world : World zone) (session : Session) (account : Account) (row : PendingRow) :
    Account :=
  if row.stateReason.contains .buyIn then
    applyCashEvent account session.day
      { kind := .buyInPenalty, amount := 0, instrumentId := some row.ticker
        refOrderId := some row.orderId, note := "50 bp in fill price", createdAt := world.wallClock
        interest_of_account := fun impossible => by cases impossible
        borrow_of_instrument := fun _ => rfl }
  else account

/-- What one settled order reports. -/
inductive Settled where
  | filled | rejected | expired | pending

/-- An order that keeps waiting for its bar. -/
def Account.missingBar (account : Account) (row : PendingRow) (now : Int) : Account :=
  account.setState row.orderId .queued
    (if row.stateReason.contains .barMissing then row.stateReason
      else row.stateReason ++ [.barMissing]) now

/-- The account once the day-trading rule has been consulted. -/
def afterPdt (world : World zone) (session : Session) (account : Account) (flagged : Bool) :
    Account :=
  if flagged then flagPdt account session.day world.wallClock else account

/-- Size, admit and book a fill that the day-trading rule lets through. -/
def bookFill (world : World zone) (session : Session) (account : Account) (row : PendingRow)
    (terms : FillTerms) : Except AccountError (Account × Settled) := do
  match ← sizeFill session account row terms with
  | none => .ok (account.setState row.orderId .rejected [.ledgerRefused] world.now, .rejected)
  | some sized =>
    match ← marginRefusal world session account row sized terms with
    | some reason => .ok (account.setState row.orderId .rejected [reason] world.now, .rejected)
    | none =>
      let (booked, applied) ← persistFill session account row sized terms
      if isClose applied sized.qty (1 / 10 ^ 12) (1 / 10 ^ 12) then
        .ok (recordPenalty world session
          (booked.setState row.orderId .filled row.stateReason world.now) row, .filled)
      else .error (.changedFill row.orderId)

/-- Execute a priced order, after the day-trading rule. -/
def executeFill (world : World zone) (session : Session) (account : Account) (row : PendingRow)
    (terms : FillTerms) : Except AccountError (Account × Settled) := do
  let pdt ← pdtCheck world.market account row.ticker row.side row.qty session.day terms.fillPx
    (some terms.fillTs) (some world.now)
  let checked := afterPdt world session account pdt.flagged
  match if isForced row then none else pdt.refusal with
  | some reason => .ok (checked.setState row.orderId .rejected [reason] world.now, .rejected)
  | none => bookFill world session checked row terms

/-- Settle one due order against the book of its turn. -/
def settleOrder (world : World zone) (session : Session) (account : Account) (row : PendingRow)
    (result : FillResult) : Except AccountError (Account × Settled) :=
  match preflight world session account row with
  | .stop state reason => .ok (account.setState row.orderId state reason world.now, .rejected)
  | .wait => .ok (account.missingBar row world.now, .pending)
  | .go qty =>
    match result with
    | .pending => .ok (account.missingBar row world.now, .pending)
    | .rejected reason _ =>
      .ok (account.setState row.orderId .rejected [reason] world.now, .rejected)
    | .expired reason => .ok (account.setState row.orderId .expired [reason] world.now, .expired)
    | .filled terms =>
      if row.orderId ∈ session.refusals then
        .ok (account.setState row.orderId .rejected [.illiquidAggregate] world.now, .rejected)
      else executeFill world session account { row with qty := qty } terms

/-- Corrections already booked to a dividend of a day. -/
def recordedCorrection (ledger : LedgerTables) (ticker : Ticker) (day : Int) : ℚ :=
  total (fun key row => if key.1 = day ∧ row.instrumentId = some ticker ∧ row.corrects then
    row.amount else 0) ledger.cashEvents

/-- Credit one entitlement, or append the correction of a recorded one. -/
def creditDividend (zone : Zone) (day : Int) (account : Account) (payment : Ticker × ℚ × ℚ) :
    Account :=
  let (ticker, dps, qty) := payment
  let amount := qty * dps
  match account.ledger.dividends.lookup (ticker, day) with
  | none =>
    if qty = 0 then account
    else
      { account with
        book := account.book.credit amount
        ledger := { account.ledger with
          dividends := account.ledger.dividends.insert (ticker, day) ⟨qty, dps, amount⟩ } }
  | some old =>
    let delta := amount - old.amount - recordedCorrection account.ledger ticker day
    if 1 / 10 ^ 10 < |delta| then
      applyCashEvent account day
        { kind := .adjustment, amount := delta, instrumentId := some ticker, refOrderId := none
          note := entitlementCorrection, createdAt := opened zone day
          interest_of_account := fun impossible => by cases impossible
          borrow_of_instrument := fun _ => rfl }
    else account

/-- Dividends of a day that are known. -/
def dividendsOf (world : World zone) (day : Int) : List (Ticker × ℚ) :=
  (world.market.dividends.entries.filter fun action =>
    decide (action.1.2 = day) && action.2.known world.now).map fun action =>
      (action.1.1, action.2.value)

/-- Book entitlements at their own close: the holding of the day before. -/
def creditDividends (world : World zone) (account : Account) (day : Int) :
    Except AccountError Account :=
  let rows := dividendsOf world day
  if rows = [] then .ok account
  else if ∃ row ∈ rows, row.2 ≤ 0 then .error .nonPositiveDividend
  else do
    let holding ← ofLedger
      (rebuildState zone account.ledgerSettings account.ledger (some (day - 1)))
    .ok ((rows.map fun row => (row.1, row.2, (holding.position row.1).qty)).foldl
      (creditDividend zone day) account)

/-- One entry of a session's sequence. -/
inductive Item where
  | recorded (event : Event)
  | interest
  | dividends
  | borrow
  | execute (row : PendingRow) (result : FillResult)

/-- The sort key of an entry. Operations precede recorded rows of their phase. -/
def Item.key (zone : Zone) (day : Int) : Item → EventKey
  | .recorded event => event.key zone .account
  | .interest => toLex (opened zone day, toLex (-1, toLex (0, toLex ("", 1))))
  | .dividends => toLex (opened zone day, toLex (1, toLex (0, toLex ("", 0))))
  | .borrow => toLex (opened zone day, toLex (3, toLex (0, toLex ("", 0))))
  | .execute row result =>
    toLex ((ofLex (executionKey zone row result day)).1,
      toLex (4, toLex (0, toLex ("", row.orderId))))

/-- Apply one entry. -/
def applyItem (world : World zone) (session : Session) (account : Account) :
    Item → Except AccountError Account
  | .recorded event => do
    let book ← ofLedger (replayEvent account.ledgerSettings account.ledger.times account.book event)
    .ok { account with book := book }
  | .interest => .ok (accrueInterest zone account session.day)
  | .dividends => creditDividends world account session.day
  | .borrow => accrueBorrow world.market account session.day
  | .execute row result => (settleOrder world session account row result).map Prod.fst

/-- The account's due orders of a session with their attempted fills. -/
def localPrepared (world : World zone) (account : Account) (day : Int) : List Prepared :=
  (account.pendingRows.filter fun row => due row day).map fun row =>
    (prepareOrder world row day, fillAttempt world account (prepareOrder world row day) day)

/-- What the orders of a session execute under. -/
def openSession (world : World zone) (settings : AccountSettings) (account : Account) (day : Int) :
    Session :=
  let prepared := localPrepared world account day ++ world.foreignDue day
  { day := day
    settings := settings
    refusals := liquidityRefusals world account day prepared
    keys := prepared.map fun item => (item.1.orderId, executionKey zone item.1 item.2 day) }

/-- Recorded rows that a session replays. Financing is re-derived. -/
def replayed (sequence : List Event) : List Event :=
  sequence.filter fun event =>
    match event with
    | .cash _ _ row => !row.kind.financing
    | _ => true

/-- The entries of a session in order of their effective time. -/
def sessionItems (world : World zone) (account : Account) (day : Int) (sequence : List Event) :
    List Item :=
  ((replayed sequence).map Item.recorded ++ [Item.dividends, Item.borrow, Item.interest] ++
    (localPrepared world account day).map fun item => Item.execute item.1 item.2).insertionSort
      fun a b => a.key zone day ≤ b.key zone day

/-- Fold recorded events and new executions together in effective-time order. -/
def foldSession (world : World zone) (settings : AccountSettings) (account : Account) (day : Int) :
    Except AccountError Account := do
  requireSources world account settings ((localPrepared world account day).map Prod.fst)
  let sequence ← ofLedger (events zone .account account.ledger (some day) (some day))
  (sessionItems world account day sequence).foldlM
    (applyItem world (openSession world settings account day)) account

/-- Persist one mark of the account. -/
def markAccount (world : World zone) (account : Account) (day : Int) :
    Except AccountError Account := do
  let marks ← heldMarks world.market account day none (some world.now)
  let value := (marks.map fun row => row.2.1 * row.2.2).sum
  .ok { account with
    equity := account.equity.insert day ⟨account.book.cash + value, account.book.cash, marks.length⟩
    marks := account.marks.insert day (marks.map fun row => (row.1, row.2.2)) }

/-- What a fold fixes before its first day. -/
structure FoldPlan where
  start : Int
  stop : Int
  equityDays : List Int
  settings : AccountSettings

/-- One calendar day of a fold: sessions are folded and marked, other days skipped. -/
def foldDay (world : World zone) (plan : FoldPlan) (account : Account) (day : Int) :
    Except AccountError Account :=
  if isSession day then do
    let folded ← foldSession world plan.settings account day
    if account.created ≤ day ∨ day ∈ plan.equityDays then markAccount world folded day
    else .ok folded
  else .ok account

/-- The calendar days of an interval. -/
def daysFrom (start stop : Int) : List Int :=
  (List.range (stop + 1 - start).toNat).map fun offset : Nat => start + offset

/-- Admit captured splits, rebuild the book before the first day, and fix the window. -/
def openFold (world : World zone) (account : Account) (stop : Int) :
    Except AccountError (Account × FoldPlan) := do
  let sequence ← ofLedger (events zone .account account.ledger none none)
  let eventDays := sequence.map fun event => event.date zone .account
  let stop := (account.equity.keys ++ eventDays).foldl max stop
  let start := eventDays.foldl min account.created
  let captured := captureSplits world account stop
  let book ← ofLedger
    (rebuildState zone account.ledgerSettings captured.ledger (some (start - 1)))
  .ok ({ captured with book := book }, ⟨start, stop, account.equity.keys, account.settings⟩)

/-- The day loop of a fold, from the admitted splits to the last day. -/
def foldLoop (world : World zone) (account : Account) (stop : Int) : Except AccountError Account := do
  let (opened, plan) ← openFold world account stop
  (daysFrom plan.start plan.stop).foldlM (foldDay world plan) opened

end TradingEngine.Accounts
