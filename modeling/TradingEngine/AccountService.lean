import TradingEngine.Settle

/-!
# The account service

Creation, intake, cancellation, halts, retirement, reconciliation, delisting
close-outs and the settlement run. Each call is one transaction: when it raises
it leaves the account as it was. The exception is a failed fold or a failed
verification, after which the mismatch is recorded and the account halted in a
transaction of its own.
-/

namespace TradingEngine.Accounts

open KeyedTables OrderTypes Nyse Ledger Costs Fills

variable {zone : Zone}

/-- Dollars agree within half a cent. -/
def sameDollars (expected observed : ℚ) : Bool := decide (|expected - observed| ≤ 5 / 1000)

/-- Quantities agree tightly. -/
def sameQuantity (expected observed : ℚ) : Bool := decide (|expected - observed| ≤ 1 / 10 ^ 9)

/-- Compare identities exactly, quantities tightly and dollars within half a cent. -/
def statesMatch (expected observed : Snapshot) : Bool :=
  sameDollars expected.cash observed.cash &&
    decide (expected.positions.map Prod.fst = observed.positions.map Prod.fst) &&
    ((expected.positions.zip observed.positions).all fun pair =>
      sameQuantity pair.1.2.qty pair.2.2.qty && sameDollars pair.1.2.avgCost pair.2.2.avgCost) &&
    decide (expected.lots.map (fun row => (row.1, row.2.openedSession)) =
      observed.lots.map fun row => (row.1, row.2.openedSession)) &&
    (expected.lots.zip observed.lots).all fun pair =>
      sameQuantity pair.1.2.qty pair.2.2.qty && sameDollars pair.1.2.avgPx pair.2.2.avgPx

/-- Value a ledger snapshot at the marks kept with a close, else at current ones. -/
def equityCheckpoint (world : World zone) (account : Account) (day : Int) (snapshot : Snapshot) :
    Except AccountError EquityRow := do
  let kept := (account.marks.lookup day).getD []
  let values ← snapshot.positions.mapM fun row =>
    match kept.lookup row.1 with
    | some price => .ok (row.2.qty * price)
    | none => (mark world.market account row.1 day none (some world.now)).map fun seen =>
        row.2.qty * seen.price
  .ok ⟨snapshot.cash + values.sum, snapshot.cash, snapshot.positions.length⟩

/-- Whether a cached close agrees with its replay. -/
def verifyClose (world : World zone) (account : Account) (row : Σ _ : Int, EquityRow) :
    Except AccountError Bool := do
  let snapshot ← ofLedger
    (projectedState zone account.ledgerSettings account.ledger (some row.1))
  let expected ← equityCheckpoint world account row.1 snapshot
  .ok (sameDollars expected.cash row.2.cash && sameDollars expected.equity row.2.equity &&
    decide (expected.nPositions = row.2.nPositions))

/-- Replay the retained ledger and compare cash, lots and every cached close. -/
def verify (world : World zone) (account : Account) (sessionDate : Option Int) :
    Except AccountError Bool := do
  let expected ← ofLedger (projectedState zone account.ledgerSettings account.ledger sessionDate)
  let closes ← (account.equity.entries.filter fun row =>
    sessionDate.all fun day => decide (row.1 ≤ day)).mapM (verifyClose world account)
  .ok (statesMatch expected account.book.state && closes.all id)

/-- Raise unless the account verifies. -/
def requireVerified (world : World zone) (account : Account) (sessionDate : Option Int) :
    Except AccountError Unit := do
  if ← verify world account sessionDate then .ok () else .error .verification

/-- Cancel the orders that a predicate selects. -/
def cancelWhere (selected : Order → Bool) (reason : Reason) (now : Int)
    (orders : Table OrderId Order) : Table OrderId Order :=
  mapRows (fun _ order => if selected order then order.cancel reason now else order) orders

/-- Halt once, retain positions, and cancel every pending order that is not forced. -/
def haltAccount (account : Account) (reason : Reason) (now : Int) : Except AccountError Account :=
  match account.settings.status with
  | .retired => .error .accountRefused
  | .halted => .ok account
  | .inactive | .active | .retiring =>
    .ok { account with
      settings := { account.settings with status := .halted }
      updatedAt := now
      orders := cancelWhere (fun order => decide (order.status = .pending) &&
        !order.led Reason.forces) reason now account.orders
      log := account.log ++ [.halted reason now] }

/-- The date of the latest equity mark. -/
def latestEquity (account : Account) : Option Int := account.equity.keys.max?

/-- Record a failed verification and halt the account. Neither happens to a
retired one, whose halt is refused. -/
def persistMismatch (world : World zone) (account : Account) (sessionDate : Option Int) :
    Account :=
  let day := (sessionDate.or (latestEquity account)).getD (dateOf world.now)
  let recorded := { account with
    reconciliations := account.reconciliations.insert day
      ⟨{ world.failure with mismatch := true }, world.now⟩ }
  match haltAccount recorded .haltReconciliation world.now with
  | .ok halted => halted
  | .error _ => account

/-- The latest resumption, by time and then by position in the log. -/
def lastResume (log : List AccountEvent) : Option (Option Int × Int) :=
  log.foldl (fun latest event =>
    match event with
    | .resumed anchorSession createdAt =>
      if latest.all fun known => decide (known.2 ≤ createdAt) then some (anchorSession, createdAt)
      else latest
    | _ => latest) none

/-- Equity marks through a date, oldest first. -/
def equityCurve (account : Account) (through : Int) : List (Int × ℚ) :=
  ((account.equity.entries.filter fun row => row.1 ≤ through).insertionSort
    fun a b => a.1 ≤ b.1).map fun row => (row.1, row.2.equity)

/-- A recorded mismatch that no resumption has answered. -/
def freshMismatch (account : Account) (sessionDate : Int) (resumedAt : Option Int) : Bool :=
  match ((account.reconciliations.entries.filter fun row => row.1 ≤ sessionDate).insertionSort
    fun a b => b.1 ≤ a.1).head? with
  | none => false
  | some row => row.2.evidence.mismatch &&
      resumedAt.all fun resumed => decide (resumed < row.2.createdAt)

/-- Which of the three halt rules an equity mark breaks. Drawdown and daily loss are
measured from the last resumption. -/
def haltReason (account : Account) (sessionDate : Int) (equity : ℚ) :
    Except AccountError (Option Reason) :=
  let curve := equityCurve account sessionDate
  let resume := lastResume account.log
  let anchorDay := resume.bind Prod.fst
  let anchor := (anchorDay.bind fun day => curve.lookup day).getD account.ledger.initialCash
  let subsequent := (curve.filter fun point => anchorDay.all fun day => decide (day < point.1)).map
    Prod.snd
  let riskPeak := subsequent.foldl max anchor
  let prior := if 1 < subsequent.length then subsequent.dropLast.getLastD anchor else anchor
  if freshMismatch account sessionDate (resume.map Prod.snd) then .ok (some .haltReconciliation)
  else if equity ≤ riskPeak * (4 / 5) then
    if riskPeak ≤ 0 then .error .nonPositivePeak else .ok (some .haltDrawdown)
  else if 0 < prior ∧ equity ≤ prior * (19 / 20) then .ok (some .haltDailyLoss)
  else .ok none

/-- Apply the halt rules after a persisted equity mark. -/
def haltCheck (world : World zone) (account : Account) (sessionDate : Int) :
    Except AccountError Account :=
  if account.settings.status = .halted ∨ account.settings.status = .retired then .ok account
  else
    match account.equity.lookup sessionDate with
    | none => .error .accountRefused
    | some row => do
      let marked := { account with updatedAt := world.now }
      match ← haltReason account sessionDate row.equity with
      | none => .ok marked
      | some reason => haltAccount marked reason world.now

/-- Finalize a requested retirement only after every position is flat. -/
def finalizeRetirement (world : World zone) (account : Account) : Account :=
  if account.settings.status = .retiring ∧
      (account.book.positions.entries.all fun row => |row.2.qty| < 1 / 10 ^ 9) then
    { account with
      settings := { account.settings with status := .retired }
      active := false
      updatedAt := world.now
      log := account.log ++ [.retired world.now] }
  else account

/-- The checks after a fold's last day: halts, maintenance, buy-ins, retirement. -/
def finishFold (world : World zone) (account : Account) : Except AccountError Account := do
  requireVerified world account none
  match latestEquity account with
  | none => .ok (finalizeRetirement world account)
  | some latest =>
    let checked ← haltCheck world account latest
    let maintained ← checkMaintenance world checked latest
    .ok (finalizeRetirement world
      (if world.shortConnection then queueBuyIns world maintained latest else maintained))

/-- Replace the cache by folding the whole account from inception. -/
def foldAccount (world : World zone) (account : Account) (stop : Int)
    (mutation : Account → Except AccountError Account) : Except AccountError Account := do
  requireVerified world account none
  let changed ← mutation account
  let folded ← foldLoop world changed stop
  finishFold world folded

/-- Terms that may be booked: sourced, consistent with their kind, for a name that
no longer trades and, for stock, into one that does. -/
def validTerms (market : Market zone) (terms : Terms) : Bool :=
  numericTerms terms.kind terms.price terms.ratio &&
    terms.source.toList.any (fun letter => !letter.isWhitespace) &&
    (match terms.kind with
    | .stock => terms.ratio.any (fun ratio => decide (0 < ratio)) &&
        terms.intoTicker.any fun into =>
          into ≠ "" && decide (into ≠ terms.ticker) && market.tradedSince into terms.effective
    | .cash | .worthless => terms.intoTicker.isNone && terms.ratio.isNone) &&
    !market.tradedSince terms.ticker terms.effective

/-- Pending orders of an instrument. -/
def pendingOf (account : Account) (ticker : Ticker) : List OrderId :=
  (account.orders.entries.filter fun row =>
    decide (row.2.ticker = ticker) && decide (row.2.status = .pending)).map Sigma.fst

/-- Record a settlement of the holding. A second one of the same date is refused
by the table. -/
def recordSettlement (world : World zone) (terms : Terms) (account : Account) :
    Except AccountError Account :=
  if (account.ledger.settlements.lookup (terms.ticker, terms.effective)).isSome then
    .error (.duplicateSettlement terms.ticker terms.effective)
  else
    .ok { account with
      ledger := { account.ledger with
        settlements := account.ledger.settlements.insert (terms.ticker, terms.effective)
          ⟨terms.kind, (account.book.position terms.ticker).qty, terms.price, terms.intoTicker,
            terms.ratio, world.now⟩ } }

/-- Cancel an order under a settlement: the order table by instrument and status,
the details by the numbers planned before it was booked. -/
def settleCancel (ticker : Ticker) (effective now : Int) (planned : List OrderId) (id : OrderId)
    (order : Order) : Order :=
  let hit := decide (order.ticker = ticker) && decide (order.status = .pending)
  { order with
    status := if hit then .cancelled else order.status
    rejectReason := if hit then [.settlement effective] else order.rejectReason
    details := order.details.map fun details =>
      if id ∈ planned ∧ details.state = .queued then
        { details with
          state := .cancelled, stateReason := [.settlement effective], stateAt := now }
      else details }

/-- Cancel the pending orders of a settled instrument, when any were planned. -/
def cancelSettled (world : World zone) (terms : Terms) (planned : List OrderId)
    (account : Account) : Account :=
  if planned = [] then account
  else
    { account with
      orders := mapRows (settleCancel terms.ticker terms.effective world.now planned)
        account.orders }

/-- Whether the book's holding can be settled at the terms. -/
def bookable (account : Account) (terms : Terms) : Bool :=
  account.active && decide ((account.book.position terms.ticker).qty ≠ 0) &&
    checkApplication account.book ⟨terms.ticker, terms.kind,
      (account.book.position terms.ticker).qty, terms.price, terms.intoTicker, terms.ratio⟩

/-- Record a close-out inside the account's own fold. Refused terms leave the
holding carried. -/
def closeOut (world : World zone) (account : Account) (terms : Terms) :
    Except AccountError Account :=
  if validTerms world.market terms && bookable account terms then do
    let recorded ← recordSettlement world terms account
    .ok (cancelSettled world terms (pendingOf account terms.ticker) recorded)
  else .ok account

/-- Terms for every delisted holding: sourced ones when booked, else cash at the
last traded close. -/
def delistingTerms (world : World zone) (account : Account) (day : Int) : List Terms :=
  let held := account.book.held.map Prod.fst
  if account.active then
    ((world.market.delistings day held).filter fun item => held.contains item.ticker).filterMap
      fun item =>
        let terms := (world.sourcedTerms item.ticker item.lastTraded).getD
          ⟨item.ticker, .cash, nextSession item.lastTraded, "delisting close-out:", item.close,
            none, none⟩
        if (account.ledger.settlements.lookup (terms.ticker, terms.effective)).isSome then none
        else some terms
  else []

/-- Book every delisting detected on a day. -/
def closeOutDelisted (world : World zone) (day : Int) (account : Account) :
    Except AccountError Account :=
  (delistingTerms world account day).foldlM (closeOut world) account

/-- Settle the account by a full fold; a failed account is durably halted. -/
def settleSession (world : World zone) (account : Account) (day : Int) : Account :=
  if account.settings.status.processing then
    match foldAccount world account day (closeOutDelisted world day) with
    | .ok folded => folded
    | .error _ => persistMismatch world account none
  else account

/-- Book owner-sourced terms: the settlement, its fold and the cancellation of the
instrument's orders. -/
def bookSettlement (world : World zone) (account : Account) (terms : Terms) : Account :=
  if validTerms world.market terms && bookable account terms then
    match foldAccount world account terms.effective (recordSettlement world terms) with
    | .ok folded => cancelSettled world terms (pendingOf account terms.ticker) folded
    | .error _ => persistMismatch world account none
  else account

/-- The settlement that covers a pending order: booked later than its signal date. -/
def coveringSettlement (ledger : LedgerTables) (order : Order) : Option Int :=
  let covering := ledger.settlements.entries.filter fun row =>
    decide (row.1.1 = order.ticker) && decide (order.signalDate < dateOf row.2.createdAt)
  (covering.insertionSort fun a b => b.2.createdAt ≤ a.2.createdAt).head?.map fun row => row.1.2

/-- Cancel provably stale orders in the order table. -/
def reconcileSettledPendingOrders (account : Account) (ticker : Option Ticker) : Account :=
  { account with
    orders := mapRows (fun _ order =>
      if order.status = .pending ∧ ticker.all (fun name => decide (name = order.ticker)) then
        match coveringSettlement account.ledger order with
        | some effective =>
          { order with status := .cancelled, rejectReason := [.bookedSettlement effective] }
        | none => order
      else order) account.orders }

/-- The last instant at which an order may be cancelled. -/
def cancelDeadline (zone : Zone) (order : Order) : Int :=
  match order.details with
  | none => opened zone (nextSession order.signalDate)
  | some details =>
    match details.orderType with
    | .moo | .limitOnOpen => mooCutoff zone order.signalDate
    | .moc => mocCutoff zone order.signalDate
    | .market => details.receivedAt + minute
    | .limit => max details.receivedAt (opened zone order.signalDate)
    | .nextOpen => opened zone (nextSession order.signalDate)

/-- An order that the client may still cancel. -/
def cancellable (world : World zone) (order : Order) : Bool :=
  decide (order.status = .pending) &&
    (order.details.all fun details => decide (details.state = .queued)) &&
    decide (world.now ≤ cancelDeadline zone order)

/-- Cancel one order on the client's request. -/
def cancel (world : World zone) (account : Account) (id : OrderId) : Account :=
  match account.orders.lookup id with
  | none => account
  | some order =>
    if cancellable world order then
      { account with
        orders := rewriteOrder id (Order.cancel .cancelledByClient world.now) account.orders }
    else account

/-- Halt on the owner's request. An account that fails verification is halted too. -/
def halt (world : World zone) (account : Account) : Account :=
  match requireVerified world account none with
  | .error _ => persistMismatch world account none
  | .ok () =>
    match haltAccount account .haltManual world.now with
    | .ok halted => halted
    | .error _ => account

/-- Resume a halted account. -/
def resume (world : World zone) (account : Account) (authorised : Bool) : Account :=
  if authorised = false then account
  else
    match requireVerified world account none with
    | .error _ => persistMismatch world account none
    | .ok () =>
      if world.now < account.updatedAt ∨ account.settings.status ≠ .halted then account
      else
        { account with
          settings := { account.settings with status := .active }
          active := decide (account.intakes.entries ≠ [])
          updatedAt := world.now
          log := account.log ++ [.resumed (latestEquity account) world.now] }

/-- Cancel every pending order that would open a position. -/
def cancelOpenings (account : Account) (now : Int) : Account :=
  { account with
    orders := cancelWhere (fun order => decide (order.status = .pending) && !order.side.closing)
      .retired now account.orders }

/-- Queue a closing auction for every position. -/
def queueLiquidation (world : World zone) (account : Account) : Account :=
  account.book.held.foldl (fun account row =>
    account.queue world.orderSequence (forcedOrder row.1 (reducingSide row.2) |row.2| .moc
      OrderType.moc_unlimited (nextSession (zone.localDate world.now)) world.now .retirement)) account

/-- Request retirement: cancel opening orders and queue the liquidation. An account
without positions is retired at once. -/
def retire (world : World zone) (account : Account) : Account :=
  match account.settings.status with
  | .retired | .retiring => account
  | .inactive | .active | .halted =>
    let queued := queueLiquidation world (cancelOpenings account world.now)
    if account.book.held = [] then
      { queued with
        settings := { account.settings with status := .retired }
        active := false
        updatedAt := world.now
        log := account.log ++ [.retired world.now] }
    else
      { queued with
        settings := { account.settings with status := .retiring }
        active := true
        log := account.log ++ [.retirementRequested world.now] }

/-- Bind reconciliation evidence to a session; a mismatch halts the account. -/
def reconcile (world : World zone) (account : Account) (sessionDate : Int)
    (evidence : Evidence) : Account :=
  match account.reconciliations.lookup sessionDate with
  | some _ => account
  | none =>
    let recorded := { account with
      reconciliations := account.reconciliations.insert sessionDate ⟨evidence, world.now⟩ }
    if evidence.mismatch then
      match haltAccount recorded .haltReconciliation world.now with
      | .ok halted => halted
      | .error _ => account
    else recorded

/-- Verify on request; a mismatch is recorded and halts the account. -/
def verifyAccount (world : World zone) (account : Account) (sessionDate : Option Int) : Account :=
  match requireVerified world account sessionDate with
  | .ok () => account
  | .error _ => persistMismatch world account sessionDate

/-- The session whose close prices an intent. -/
def referenceDate (orderType : OrderTypes.OrderType) (sessionDate : Int) : Int :=
  if orderType = .nextOpen then sessionDate else previousSession sessionDate

/-- Envelope and clock admission. -/
def validIntent (zone : Zone) (account : Account) (intent : Intent) (now : Int) : Bool :=
  (intent.side != .short || account.settings.allowShort) && decide (0 < intent.quantity) &&
    (!account.spec.wholeShares || decide (intent.quantity.den = 1)) &&
    receivedAtAllowed zone intent.orderType intent.sessionDate now &&
    (if intent.orderType = .limit then intent.limitPrice.any fun px => decide (0 < px)
      else intent.limitPrice.isNone) &&
    decide (intent.contingentOn ≠ some intent.intentId)

/-- When within a session an order type executes. -/
def executionPhase : OrderTypes.OrderType → Option Nat
  | .moo => some 0
  | .market | .limit => some 1
  | .moc => some 2
  | .nextOpen => some 3
  | .limitOnOpen => none

/-- Whether an order may be the parent of an intent. -/
def acceptableParent (intent : Intent) (parent : Order) : Bool :=
  match parent.details with
  | none => false
  | some details =>
    (decide (intent.side = .sell) && decide (parent.side = .buy) ||
      decide (intent.side = .cover) && decide (parent.side = .short)) &&
    decide (parent.ticker = intent.ticker) && decide (parent.signalDate = intent.sessionDate) &&
    decide (parent.status = .pending) && decide (details.state = .queued) &&
    decide (intent.quantity ≤ parent.qty) &&
    (match executionPhase details.orderType, executionPhase intent.orderType with
    | some parentPhase, some childPhase => decide (parentPhase ≤ childPhase)
    | _, _ => false) &&
    !(decide (details.orderType = .limit) && decide (intent.orderType = .market))

/-- The parent of a contingent intent. -/
def contingentParent (account : Account) (intent : Intent) : Except AccountError (Option OrderId) :=
  match intent.contingentOn with
  | none => .ok none
  | some parentIntent =>
    match account.intakes.lookup parentIntent with
    | none => .error .accountRefused
    | some intake =>
      match account.orders.lookup intake.orderId with
      | none => .error .accountRefused
      | some parent =>
        if acceptableParent intent parent then .ok (some intake.orderId)
        else .error .accountRefused

/-- Pending orders as admission counts them: instrument, side and quantity. -/
def pendingLegs (account : Account) : List (Ticker × Side × ℚ) :=
  (account.orders.entries.filter fun row => decide (row.2.status = .pending)).map fun row =>
    (row.2.ticker, row.2.side, row.2.qty)

/-- Holdings, duplicate legs and the specification's limits at the last close. -/
def capacity (world : World zone) (account : Account) (intent : Intent)
    (parent : Option OrderId) : Except AccountError Unit := do
  let day := referenceDate intent.orderType intent.sessionDate
  let priceOf := fun ticker => (mark world.market account ticker day none none).map Mark.price
  let price ← priceOf intent.ticker
  let pending := pendingLegs account
  let held := (account.book.position intent.ticker).qty
  if pending.any (fun leg => decide (leg.1 = intent.ticker) && decide (leg.2.1 = intent.side)) then
    .error .accountRefused
  else if parent.isSome then .ok ()
  else
    match intent.side with
    | .sell => if max held 0 < intent.quantity then .error .accountRefused else .ok ()
    | .cover => if max (-held) 0 < intent.quantity then .error .accountRefused else .ok ()
    | .buy | .short =>
      let requested := intent.quantity * price
      let values ← account.book.held.mapM fun row => (priceOf row.1).map fun px => (row.1, row.2 * px)
      let reserved ← (pending.filter fun leg => !leg.2.1.closing).mapM fun leg =>
        (priceOf leg.1).map fun px => (leg.1, |leg.2.2 * px|)
      let equity := account.book.cash + (values.map Prod.snd).sum
      let gross := (values.map fun row => |row.2|).sum + (reserved.map Prod.snd).sum + requested
      let position := |(values.lookup intent.ticker).getD 0| +
        ((reserved.filter fun row => row.1 = intent.ticker).map Prod.snd).sum + requested
      if requested < account.spec.minTradeUsd ∨ equity * account.spec.maxGrossFraction < gross ∨
          equity * account.spec.maxPositionFraction < position then .error .accountRefused
      else .ok ()

/-- The order that an accepted intent creates. -/
def intentOrder (intent : Intent) (parent : Option OrderId) (now : Int)
    (limited : intent.orderType = .limit → intent.limitPrice.isSome) : Order where
  ticker := intent.ticker
  side := intent.side
  qty := intent.quantity
  signalDate := intent.sessionDate
  status := .pending
  rejectReason := []
  details := some
    { executable := true, orderType := intent.orderType, limitPx := intent.limitPrice
      sessionDate := intent.sessionDate, receivedAt := now, contingentOn := parent
      state := .queued, stateReason := [], stateAt := now, limited := limited }

theorem validIntent_limited {account : Account} {intent : Intent} {now : Int}
    (valid : validIntent zone account intent now = true) :
    intent.orderType = .limit → intent.limitPrice.isSome := by
  intro limit
  simp only [validIntent, limit, Bool.and_eq_true, if_true] at valid
  exact Option.isSome_of_any valid.1.2

/-- What intake answers: the receipt of an earlier identical intent, or a new order. -/
inductive Receipt where
  | replayed (orderId : OrderId)
  | queued (orderId : OrderId)
  deriving DecidableEq

/-- Persist one accepted intent. A retained intent is answered from its receipt. -/
def submitIntent (world : World zone) (account : Account) (intent : Intent) :
    Except AccountError (Account × Receipt) :=
  match account.intakes.lookup intent.intentId with
  | some intake =>
    if intake.intent = intent ∧ (account.orders.lookup intake.orderId).any (fun order =>
        decide (order.ticker = intent.ticker) && decide (order.side = intent.side) &&
          decide (order.qty = intent.quantity) && decide (order.signalDate = intent.sessionDate))
    then .ok (account, .replayed intake.orderId)
    else .error .accountRefused
  | none =>
    if world.foreignIntent intent.intentId then .error .accountRefused
    else if valid : validIntent zone account intent world.now = true then
      if account.settings.status ≠ .inactive ∧ account.settings.status ≠ .active then
        .error .accountRefused
      else if intent.executable = false then .error .accountRefused
      else do
        let parent ← contingentParent account intent
        capacity world account intent parent
        let id := nextOrderId world.orderSequence account.orders
        .ok ({ account with
          orders := account.orders.insert id
            (intentOrder intent parent world.now (validIntent_limited valid))
          intakes := account.intakes.insert intent.intentId ⟨id, intent⟩
          active := true
          settings := { account.settings with status := .active } }, .queued id)
    else .error .accountRefused

/-- The account after an intent; a refused one changes nothing. -/
def submit (world : World zone) (account : Account) (intent : Intent) : Account :=
  match submitIntent world account intent with
  | .ok (accepted, _) => accepted
  | .error _ => account

/-- Capital tiers. -/
def tiers : List ℚ := [10000, 50000, 100000]

/-- Limits that an account can trade under. -/
def validSpec (spec : Spec) (capital : ℚ) : Bool :=
  tiers.contains capital && decide (0 < spec.maxPositionFraction) &&
    decide (0 < spec.maxGrossFraction) && decide (0 < spec.minTradeUsd) &&
    decide (spec.maxPositionFraction ≤ spec.maxGrossFraction) &&
    decide (spec.maxGrossFraction ≤ 3 / 2) &&
    decide (spec.minTradeUsd ≤ capital * spec.maxPositionFraction)

/-- A margin account as it is first stored: inactive, funded once, holding nothing. -/
def newAccount (zone : Zone) (spec : Spec) (capital : ℚ) (priceSource : PriceSource)
    (dayTradeRule : DayTradeRule) (allowShort : Bool) (now : Int) : Account where
  settings := ⟨.margin, .ibkrProTieredV1, .inactive, priceSource, dayTradeRule, allowShort⟩
  spec := spec
  executionProfile := .baselineV1
  created := sessionOnOrBefore (zone.localDate now)
  active := false
  book := .opening capital
  ledger := ⟨capital, ∅, ∅, ∅, ∅, ∅⟩
  orders := ∅
  equity := ∅
  marks := ∅
  pdtRestrictedUntil := none
  updatedAt := now
  log := []
  reconciliations := ∅
  intakes := ∅

/-- Admit a specification and store its account. -/
def createAccount (zone : Zone) (spec : Spec) (capital : ℚ) (priceSource : PriceSource)
    (dayTradeRule : DayTradeRule) (allowShort : Bool) (now : Int) : Except AccountError Account :=
  if validSpec spec capital then
    .ok (newAccount zone spec capital priceSource dayTradeRule allowShort now)
  else .error .accountRefused

theorem createAccount_ok {spec : Spec} {capital : ℚ} {priceSource : PriceSource}
    {dayTradeRule : DayTradeRule} {allowShort : Bool} {now : Int} {account : Account}
    (created : createAccount zone spec capital priceSource dayTradeRule allowShort now =
      .ok account) :
    account = newAccount zone spec capital priceSource dayTradeRule allowShort now := by
  unfold createAccount at created
  split at created
  · exact (Except.ok.inj created).symm
  · cases created

/-- A small account without leverage that may sell short, created on a Monday. -/
def sampleAccount : Account :=
  newAccount daylightTime ⟨1, 1, 100, false⟩ 10000 .prices .pdt25kLegacy true
    (739768 * dayLength + 14 * hour)

theorem sampleAccount_created :
    createAccount daylightTime ⟨1, 1, 100, false⟩ 10000 .prices .pdt25kLegacy true
      (739768 * dayLength + 14 * hour) = .ok sampleAccount :=
  if_pos (by decide +kernel)

/-- A world in which everything trades at ten dollars, seen at an hour of a day. -/
def sampleWorld (day hours : Int) : World daylightTime :=
  worldAt (steadyMarket 10 ten_positive) (day * dayLength + hours * hour)

/-- An intent to trade at the next open after a session. -/
def sampleIntent (name : String) (ticker : Ticker) (side : Side) (quantity : ℚ)
    (sessionDate : Int) : Intent :=
  ⟨name, ticker, true, .nextOpen, side, quantity, none, sessionDate, none⟩

/-- A call on the account, with the world that it sees. -/
inductive Operation (zone : Zone) where
  | submit (world : World zone) (intent : Intent)
  | cancel (world : World zone) (id : OrderId)
  | settle (world : World zone) (day : Int)
  | halt (world : World zone)
  | resume (world : World zone) (authorised : Bool)
  | retire (world : World zone)
  | finalizeRetirement (world : World zone)
  | reconcile (world : World zone) (sessionDate : Int) (evidence : Evidence)
  | verify (world : World zone) (sessionDate : Option Int)
  | settlement (world : World zone) (terms : Terms)
  | reconcileSettled (ticker : Option Ticker)

/-- The account after a call. -/
def step (account : Account) : Operation zone → Account
  | .submit world intent => submit world account intent
  | .cancel world id => cancel world account id
  | .settle world day => settleSession world account day
  | .halt world => halt world account
  | .resume world authorised => resume world account authorised
  | .retire world => retire world account
  | .finalizeRetirement world => finalizeRetirement world account
  | .reconcile world sessionDate evidence => reconcile world account sessionDate evidence
  | .verify world sessionDate => verifyAccount world account sessionDate
  | .settlement world terms => bookSettlement world account terms
  | .reconcileSettled ticker => reconcileSettledPendingOrders account ticker

end TradingEngine.Accounts
