import TradingEngine.KeyedTables
import TradingEngine.OrderTypes

/-!
# Cash, positions and first-in first-out lots

One account's book and the mutations of the ledger: a fill, a split and a
settlement. Quantities and dollars are exact rationals, so a check that a number
is finite always passes; every other check of the source is kept, in its order.

Lots are keyed by instrument and opening order. A close takes lots in order of
opening session, recorded fill time (a missing time last) and order, and treats
a quantity of at most `dust` as nothing.
-/

namespace TradingEngine.Ledger

open KeyedTables OrderTypes

abbrev Ticker := String
abbrev OrderId := Nat

/-- An open lot. The quantity is negative for a short. -/
structure Lot where
  openedSession : Int
  qty : ℚ
  avgPx : ℚ
  deriving DecidableEq

/-- The aggregate holding of one instrument. -/
structure Position where
  qty : ℚ
  avgCost : ℚ

/-- A close of a lot opened in the same session. -/
structure DayTrade where
  sessionDate : Int
  instrumentId : Ticker
  openOrderId : OrderId
  closeOrderId : OrderId

abbrev Lots := Table (Ticker × OrderId) Lot

/-- Cash and the three state tables of one portfolio. -/
structure Book where
  cash : ℚ
  positions : Table Ticker Position
  lots : Lots
  dayTrades : List DayTrade

/-- A book that holds only cash. -/
def Book.opening (cash : ℚ) : Book := ⟨cash, ∅, ∅, []⟩

/-- The stored row of an instrument, or nothing held. -/
def Book.position (book : Book) (ticker : Ticker) : Position :=
  (book.positions.lookup ticker).getD ⟨0, 0⟩

/-- Signed sum of an instrument's lots. -/
def lotSum (lots : Lots) (ticker : Ticker) : ℚ :=
  total (fun key lot => if key.1 = ticker then lot.qty else 0) lots

/-- Which program owns a book. -/
inductive Engine where
  | league | p15 | p16 | account
  deriving DecidableEq

inductive AccountType where
  | cashLegacy | margin
  deriving DecidableEq

/-- The account settings the ledger reads. -/
structure LedgerSettings where
  engine : Engine
  accountType : AccountType
  deriving DecidableEq

/-- What the ledger raises. -/
inductive LedgerError where
  | mergedLongAndShort          -- cannot merge long and short quantities into one lot
  | missingOrigin               -- account-engine fills require order_id and fill date
  | cashLegacyShort             -- cash_legacy portfolios cannot short
  | negativeFee                 -- fill fee must be non-negative
  | negativeBasis               -- position basis must be non-negative
  | buyOnShort                  -- buy cannot close a short position; use cover
  | shortOnLong                 -- short cannot close a long position; use sell
  | lotsDiffer                  -- position lots differ from positions
  | settlementRefused           -- the terms cannot be booked as given
  | changedQuantity (id : OrderId)  -- stored fill changed quantity during replay
  | missingFillTs (id : OrderId)    -- account-engine fill has no authoritative fill_ts
  | nonPositiveDividend         -- dividend per share must be positive
  | missingOpening (id : OrderId)   -- a matched lot's order has no recorded fill
  | dividedByZero
  deriving DecidableEq

/-- Quantities up to this size count as nothing left. -/
def dust : ℚ := 1 / 10 ^ 12

/-- Smallest clamped buy. -/
def minFillUsd : ℚ := 1

/-- Python's `math.isclose`. -/
def isClose (a b rel abs : ℚ) : Bool := |a - b| ≤ max (rel * max |a| |b|) abs

/-- One lot taken by a close. -/
structure MatchedLot where
  openOrderId : OrderId
  openedSession : Int
  qty : ℚ
  avgPx : ℚ
  deriving DecidableEq

/-- Add signed quantity to one open lot, preserving its weighted basis. -/
def addLot (lots : Lots) (ticker : Ticker) (openedSession : Int) (openOrderId : OrderId)
    (qty avgPx : ℚ) : Except LedgerError Lots :=
  match lots.lookup (ticker, openOrderId) with
  | none => .ok (lots.insert (ticker, openOrderId) ⟨openedSession, qty, avgPx⟩)
  | some old =>
    if old.qty * qty < 0 then .error .mergedLongAndShort
    else
      let newQty := old.qty + qty
      let newPx := if newQty = 0 then 0 else (|old.qty| * old.avgPx + |qty| * avgPx) / |newQty|
      .ok (lots.insert (ticker, openOrderId) ⟨old.openedSession, newQty, newPx⟩)

/-- Recorded execution time of each order, where it has one. -/
abbrev FillTimes := OrderId → Option Int

/-- Ascending order with a missing value last. -/
def timeLe : Option Int → Option Int → Bool
  | _, none => true
  | none, some _ => false
  | some a, some b => a ≤ b

/-- The order in which lots are closed. -/
def fifoLe (times : FillTimes) (a b : OrderId × Lot) : Bool :=
  decide (a.2.openedSession < b.2.openedSession) ||
    (decide (a.2.openedSession = b.2.openedSession) &&
      ((timeLe (times a.1) (times b.1) && !timeLe (times b.1) (times a.1)) ||
        (decide (times a.1 = times b.1) && decide (a.1 ≤ b.1))))

/-- The sign that a close takes. -/
def Closes (closingShort : Bool) (lot : Lot) : Prop :=
  if closingShort then lot.qty < 0 else 0 < lot.qty

instance (closingShort : Bool) (lot : Lot) : Decidable (Closes closingShort lot) :=
  inferInstanceAs (Decidable (if closingShort then lot.qty < 0 else 0 < lot.qty))

/-- Lots of one instrument with the sign that a close takes. -/
def closable (lots : Lots) (ticker : Ticker) (closingShort : Bool) : List (OrderId × Lot) :=
  lots.entries.filterMap fun row =>
    if row.1.1 = ticker ∧ Closes closingShort row.2 then some (row.1.2, row.2) else none

/-- The first-in first-out queue that a close walks. -/
def fifo (times : FillTimes) (lots : Lots) (ticker : Ticker) (closingShort : Bool) :
    List (OrderId × Lot) :=
  (closable lots ticker closingShort).insertionSort fun a b => fifoLe times a b

/-- Take one lot after another until nothing is left to close. -/
def matchLoop (ticker : Ticker) (closingShort consume : Bool) :
    List (OrderId × Lot) → ℚ → Lots → List MatchedLot × Lots
  | [], _, lots => ([], lots)
  | (orderId, lot) :: rest, remaining, lots =>
    let available := |lot.qty|
    let consumed := min remaining available
    let left := available - consumed
    let taken : MatchedLot := ⟨orderId, lot.openedSession, consumed, lot.avgPx⟩
    let lots :=
      if !consume then lots
      else if left ≤ dust then lots.erase (ticker, orderId)
      else lots.insert (ticker, orderId) { lot with qty := if closingShort then -left else left }
    if remaining - consumed ≤ dust then ([taken], lots)
    else
      let (more, lots) := matchLoop ticker closingShort consume rest (remaining - consumed) lots
      (taken :: more, lots)

/-- Consume FIFO lots and return the exact opens matched by a close. -/
def matchLots (times : FillTimes) (lots : Lots) (ticker : Ticker) (qty : ℚ)
    (closingShort : Bool) (consume : Bool) : List MatchedLot × Lots :=
  if qty ≤ dust then ([], lots)
  else matchLoop ticker closingShort consume (fifo times lots ticker closingShort) qty lots

/-- The book's signed lots agree with its positions up to the source's tolerance. -/
def lotsMatchPositions (book : Book) : Bool :=
  let tickers := book.positions.keys ++ book.lots.keys.map Prod.fst
  tickers.all fun ticker =>
    let position := (book.position ticker).qty
    let lots := lotSum book.lots ticker
    decide (1 / 10 ^ 9 ≤ |position|) == decide (1 / 10 ^ 9 ≤ |lots|) &&
      (decide (|position| < 1 / 10 ^ 9) || isClose position lots (1 / 10 ^ 12) (1 / 10 ^ 9))

/-- Raise when an account's signed open lots differ from current positions. -/
def assertLotsMatchPositions (settings : LedgerSettings) (book : Book) :
    Except LedgerError Book :=
  if settings.engine = .account ∧ lotsMatchPositions book = false then .error .lotsDiffer
  else .ok book

/-- Dollar fees of one fill. -/
structure Fees where
  commission : ℚ
  exchangeFee : ℚ
  clearingFee : ℚ
  passThrough : ℚ
  catFee : ℚ
  secFee : ℚ
  finraTaf : ℚ
  occFee : ℚ
  orfFee : ℚ
  totalUsd : ℚ
  deriving DecidableEq

/-- Every component of a fee breakdown. -/
def Fees.components (fees : Fees) : List ℚ :=
  [fees.commission, fees.exchangeFee, fees.clearingFee, fees.passThrough, fees.catFee,
    fees.secFee, fees.finraTaf, fees.occFee, fees.orfFee, fees.totalUsd]

/-- A fee breakdown that only has a total. -/
def Fees.ofTotal (usd : ℚ) : Fees := ⟨0, 0, 0, 0, 0, 0, 0, 0, 0, usd⟩

/-- The dollars a fill is charged. -/
def feeTotal (fees : Option Fees) : ℚ := (fees.map Fees.totalUsd).getD 0

/-- A fill to apply. `origin` is the order and session when both are known. -/
structure Fill where
  origin : Option (OrderId × Int)
  ticker : Ticker
  side : Side
  qty : ℚ
  px : ℚ
  multiplier : ℚ

/-- What a close reports: the matched lots and the terms of the close. -/
structure Close where
  matched : List MatchedLot
  side : Side
  qty : ℚ
  px : ℚ
  multiplier : ℚ
  fee : ℚ

/-- The book after a fill, the quantity applied and the close to report. -/
structure Applied where
  book : Book
  qty : ℚ
  closes : List Close

/-- The positive quantity a fill trades after its side's clamp, or nothing when
the fill is rejected. -/
def tradedQty (settings : LedgerSettings) (cash fee held : ℚ) (fill : Fill) :
    Except LedgerError (Option ℚ) :=
  match fill.side with
  | .buy =>
    if held < 0 then .error .buyOnShort
    else if settings.accountType = .cashLegacy ∧
        cash - fee < fill.qty * fill.px * fill.multiplier then
      let affordable := max (cash - fee) 0 / (fill.px * fill.multiplier) * (1 - dust)
      if affordable * fill.px * fill.multiplier < minFillUsd then .ok none
      else .ok (some affordable)
    else .ok (some fill.qty)
  | .sell => if held ≤ 0 then .ok none else .ok (some (min fill.qty held))
  | .short => if 0 < held then .error .shortOnLong else .ok (some fill.qty)
  | .cover => if 0 ≤ held then .ok none else .ok (some (min fill.qty |held|))

/-- Average cost after a fill. A close keeps it. -/
def newCost (side : Side) (position : Position) (qty px : ℚ) : ℚ :=
  if side.closing then position.avgCost
  else if |position.qty| + qty = 0 then 0
  else (|position.qty| * position.avgCost + qty * px) / (|position.qty| + qty)

/-- Open the lot of a buy or a short. Without an order or a session there is none. -/
def openLot (lots : Lots) (fill : Fill) (qty : ℚ) : Except LedgerError Lots :=
  match fill.origin with
  | none => .ok lots
  | some (orderId, session) => addLot lots fill.ticker session orderId (fill.side.sign * qty) fill.px

/-- Record the first matched lot that was opened in the closing session. -/
def recordDayTrade (settings : LedgerSettings) (fill : Fill) (matched : List MatchedLot)
    (trades : List DayTrade) : List DayTrade :=
  match fill.origin with
  | none => trades
  | some (orderId, session) =>
    match matched.find? fun lot => lot.openedSession = session with
    | none => trades
    | some lot =>
      if settings.engine = .account then trades ++ [⟨session, fill.ticker, lot.openOrderId, orderId⟩]
      else trades

/-- Lots, day trades and the reported close of a fill of a known quantity. -/
def moveLots (settings : LedgerSettings) (times : FillTimes) (book : Book) (fill : Fill)
    (fee qty : ℚ) : Except LedgerError (Lots × List DayTrade × List Close) :=
  if fill.side.closing then
    let (matched, lots) := matchLots times book.lots fill.ticker qty (fill.side = .cover) true
    .ok (lots, recordDayTrade settings fill matched book.dayTrades,
      if matched.isEmpty then [] else [⟨matched, fill.side, qty, fill.px, fill.multiplier, fee⟩])
  else
    match openLot book.lots fill qty with
    | .error raised => .error raised
    | .ok lots => .ok (lots, book.dayTrades, [])

/-- The checks before a side is looked at. A fill with a non-positive quantity,
price or multiplier is rejected. -/
def fillChecks (settings : LedgerSettings) (held : Position) (fill : Fill) (fees : Option Fees) :
    Except LedgerError Bool :=
  if ¬ (0 < fill.qty ∧ 0 < fill.px ∧ 0 < fill.multiplier) then .ok false
  else if settings.engine = .account ∧ fill.origin = none then .error .missingOrigin
  else if fill.side = .short ∧ settings.accountType = .cashLegacy then .error .cashLegacyShort
  else if ∃ charged ∈ fees, ∃ component ∈ charged.components, component < 0 then
    .error .negativeFee
  else if held.avgCost < 0 then .error .negativeBasis
  else .ok true

/-- The quantity a fill trades in a book, or nothing when it is rejected. -/
def fillQty (settings : LedgerSettings) (book : Book) (fill : Fill) (fees : Option Fees) :
    Except LedgerError (Option ℚ) :=
  let held := book.position fill.ticker
  match fillChecks settings held fill fees with
  | .error raised => .error raised
  | .ok false => .ok none
  | .ok true => tradedQty settings book.cash (feeTotal fees) held.qty fill

/-- Cash and position after a fill of a known quantity, with its lots moved. -/
def filledBook (book : Book) (fill : Fill) (fee qty : ℚ) (lots : Lots) (trades : List DayTrade) :
    Book :=
  let held := book.position fill.ticker
  { cash := book.cash - fill.side.sign * (qty * fill.px * fill.multiplier) - fee
    positions := book.positions.insert fill.ticker
      ⟨held.qty + fill.side.sign * qty, newCost fill.side held qty fill.px⟩
    lots := lots
    dayTrades := trades }

/-- Apply a buy, sell, short or cover and return the positive quantity applied. -/
def applyFill (settings : LedgerSettings) (times : FillTimes) (book : Book) (fill : Fill)
    (fees : Option Fees) : Except LedgerError Applied :=
  match fillQty settings book fill fees with
  | .error raised => .error raised
  | .ok none => .ok ⟨book, 0, []⟩
  | .ok (some qty) =>
    match moveLots settings times book fill (feeTotal fees) qty with
    | .error raised => .error raised
    | .ok (lots, trades, closes) =>
      match assertLotsMatchPositions settings
          (filledBook book fill (feeTotal fees) qty lots trades) with
      | .error raised => .error raised
      | .ok checked => .ok ⟨checked, qty, closes⟩

/-- A fill that does not raise is rejected, or it trades a quantity, moves the lots
and passes the comparison. -/
theorem applyFill_cases {settings : LedgerSettings} {times : FillTimes} {book : Book} {fill : Fill}
    {fees : Option Fees} {applied : Applied}
    (filled : applyFill settings times book fill fees = .ok applied) :
    (fillQty settings book fill fees = .ok none ∧ applied = ⟨book, 0, []⟩) ∨
    ∃ qty lots trades closes, fillQty settings book fill fees = .ok (some qty) ∧
      moveLots settings times book fill (feeTotal fees) qty = .ok (lots, trades, closes) ∧
      applied = ⟨filledBook book fill (feeTotal fees) qty lots trades, qty, closes⟩ := by
  unfold applyFill at filled
  rcases quantity : fillQty settings book fill fees with raised | _ | qty
  · simp [quantity] at filled
  · simp only [quantity, Except.ok.injEq] at filled
    exact .inl ⟨rfl, filled.symm⟩
  · rcases moved : moveLots settings times book fill (feeTotal fees) qty with
      raised | ⟨lots, trades, closes⟩
    · simp [quantity, moved] at filled
    · simp only [quantity, moved, assertLotsMatchPositions] at filled
      split at filled
      · cases filled
      · rename_i checked passed
        split at passed
        · cases passed
        · cases passed
          exact .inr ⟨qty, lots, trades, closes, rfl, moved, (Except.ok.inj filled).symm⟩

/-- Lots opened before the ex-date change their units. -/
def splitLot (ticker : Ticker) (ex : Int) (ratio : ℚ) (key : Ticker × OrderId) (lot : Lot) : Lot :=
  if key.1 = ticker ∧ lot.openedSession < ex then
    { lot with qty := lot.qty * ratio, avgPx := lot.avgPx / ratio }
  else lot

/-- Signed sum of the lots opened before the ex-date. -/
def oldQty (lots : Lots) (ticker : Ticker) (ex : Int) : ℚ :=
  total (fun key lot => if key.1 = ticker ∧ lot.openedSession < ex then lot.qty else 0) lots

/-- Average price of an instrument's lots, weighted by absolute quantity. -/
def lotBasis (lots : Lots) (ticker : Ticker) : ℚ :=
  total (fun key lot => if key.1 = ticker then |lot.qty| * lot.avgPx else 0) lots /
    total (fun key lot => if key.1 = ticker then |lot.qty| else 0) lots

/-- Change the units of pre-action lots and their signed aggregate position. -/
def applySplit (book : Book) (ticker : Ticker) (ex : Int) (ratio : ℚ) : Book :=
  let old := oldQty book.lots ticker ex
  let lots := mapRows (splitLot ticker ex ratio) book.lots
  match book.positions.lookup ticker with
  | some row =>
    if old ≠ 0 then
      { book with
        lots := lots
        positions := book.positions.insert ticker ⟨row.qty + old * (ratio - 1), lotBasis lots ticker⟩ }
    else { book with lots := lots }
  | none => { book with lots := lots }

@[simp] theorem applySplit_lots (book : Book) (ticker : Ticker) (ex : Int) (ratio : ℚ) :
    (applySplit book ticker ex ratio).lots = mapRows (splitLot ticker ex ratio) book.lots := by
  unfold applySplit
  split
  · dsimp only
    split <;> rfl
  · rfl

@[simp] theorem applySplit_cash (book : Book) (ticker : Ticker) (ex : Int) (ratio : ℚ) :
    (applySplit book ticker ex ratio).cash = book.cash := by
  unfold applySplit
  split
  · dsimp only
    split <;> rfl
  · rfl

inductive SettlementKind where
  | cash | worthless | stock
  deriving DecidableEq

/-- Terms of a settlement as its row records them. -/
structure SettlementTerms where
  ticker : Ticker
  kind : SettlementKind
  qty : ℚ
  price : ℚ
  intoTicker : Option Ticker
  ratio : Option ℚ

/-- Price and ratio fit the kind. -/
def numericTerms (kind : SettlementKind) (price : ℚ) (ratio : Option ℚ) : Bool :=
  decide (0 ≤ price) &&
    match kind with
    | .cash => decide (0 < price)
    | .worthless => decide (price = 0)
    | .stock => (ratio.map fun value => decide (0 < value)).getD false

/-- Check the terms and the basis before the first write. -/
def checkApplication (book : Book) (terms : SettlementTerms) : Bool :=
  let position := book.position terms.ticker
  numericTerms terms.kind terms.price terms.ratio &&
    (decide (position.qty = 0) || decide (0 ≤ position.avgCost))

/-- Convert matched lots into lots of the acquirer, one after another. -/
def convertLots (into : Ticker) (sign ratio : ℚ) :
    List MatchedLot → Lots → Except LedgerError Lots
  | [], lots => .ok lots
  | lot :: rest, lots =>
    match addLot lots into lot.openedSession lot.openOrderId (sign * lot.qty * ratio)
        (lot.avgPx / ratio) with
    | .error raised => .error raised
    | .ok lots => convertLots into sign ratio rest lots

/-- The acquirer's row after new shares arrive. -/
def acquired (stored : Option Position) (newShares basisPerAcq : ℚ) : Position :=
  match stored with
  | none => ⟨newShares, basisPerAcq⟩
  | some row =>
    let newQ := row.qty + newShares
    let newC :=
      if 0 ≤ row.qty * newShares then
        if newQ = 0 then 0
        else (|row.qty| * row.avgCost + |newShares| * basisPerAcq) / |newQ|
      else if |newShares| < |row.qty| then row.avgCost
      else if newQ = 0 then 0
      else basisPerAcq
    ⟨newQ, newC⟩

/-- Write the held row back with a quantity taken out. A missing row stays missing. -/
def reduceRow (positions : Table Ticker Position) (ticker : Ticker) (qty : ℚ) :
    Table Ticker Position :=
  match positions.lookup ticker with
  | some row => positions.insert ticker { row with qty := row.qty - qty }
  | none => positions

/-- The quantity a settlement settles: an account's holding, else the recorded one. -/
def settledQty (settings : LedgerSettings) (book : Book) (terms : SettlementTerms) : ℚ :=
  if settings.engine = .account then (book.position terms.ticker).qty else terms.qty

/-- The lots that a settled quantity takes and those it leaves. -/
def settledLots (times : FillTimes) (book : Book) (ticker : Ticker) (qty : ℚ) :
    List MatchedLot × Lots :=
  matchLots times book.lots ticker |qty| (qty < 0) true

/-- The book after a settled quantity was paid for and taken out. -/
def paidOut (times : FillTimes) (book : Book) (terms : SettlementTerms) (qty : ℚ) : Book :=
  { book with
    cash := book.cash + qty * terms.price
    positions := reduceRow book.positions terms.ticker qty
    lots := (settledLots times book terms.ticker qty).2 }

/-- The book after converted lots and shares reached the acquirer. -/
def convertedBook (paid : Book) (into : Ticker) (lots : Lots) (newShares basisPerAcq : ℚ) : Book :=
  { paid with
    lots := lots
    positions := paid.positions.insert into
      (acquired (paid.positions.lookup into) newShares basisPerAcq) }

/-- Settle a dead position at recorded terms. -/
def applySettlementEvent (settings : LedgerSettings) (times : FillTimes) (book : Book)
    (terms : SettlementTerms) : Except LedgerError (Book × List Close) :=
  let qty := settledQty settings book terms
  let matched := (settledLots times book terms.ticker qty).1
  let paid := paidOut times book terms qty
  if checkApplication book terms = false then .error .settlementRefused
  else
    match terms.kind with
    | .stock =>
      match terms.intoTicker, terms.ratio with
      | some into, some ratio =>
        match convertLots into (if qty < 0 then -1 else 1) ratio matched paid.lots with
        | .error raised => .error raised
        | .ok lots =>
          match assertLotsMatchPositions settings (convertedBook paid into lots (qty * ratio)
              ((book.position terms.ticker).avgCost / ratio)) with
          | .error raised => .error raised
          | .ok checked => .ok (checked, [])
      | _, _ => .error .settlementRefused
    | .cash | .worthless =>
      match assertLotsMatchPositions settings paid with
      | .error raised => .error raised
      | .ok checked =>
        .ok (checked, [⟨matched, if qty < 0 then .cover else .sell, |qty|, terms.price, 1, 0⟩])

/-- A settlement that does not raise has sound terms; it pays a quantity out and,
for stock, converts it. -/
theorem applySettlementEvent_cases {settings : LedgerSettings} {times : FillTimes} {book : Book}
    {terms : SettlementTerms} {settled : Book × List Close}
    (done : applySettlementEvent settings times book terms = .ok settled) :
    checkApplication book terms = true ∧
    ((terms.kind ≠ .stock ∧
      settled.1 = paidOut times book terms (settledQty settings book terms) ∧
      settled.2 = [⟨(settledLots times book terms.ticker (settledQty settings book terms)).1,
        if settledQty settings book terms < 0 then .cover else .sell,
        |settledQty settings book terms|, terms.price, 1, 0⟩]) ∨
    (terms.kind = .stock ∧ ∃ into ratio lots,
      terms.intoTicker = some into ∧ terms.ratio = some ratio ∧
      convertLots into (if settledQty settings book terms < 0 then -1 else 1) ratio
        (settledLots times book terms.ticker (settledQty settings book terms)).1
        (paidOut times book terms (settledQty settings book terms)).lots = .ok lots ∧
      settled.1 = convertedBook (paidOut times book terms (settledQty settings book terms)) into
        lots (settledQty settings book terms * ratio)
        ((book.position terms.ticker).avgCost / ratio) ∧
      settled.2 = [])) := by
  have asserted : ∀ {book checked : Book}, assertLotsMatchPositions settings book = .ok checked →
      checked = book := by
    intro book checked passed
    unfold assertLotsMatchPositions at passed
    split at passed
    · cases passed
    · exact (Except.ok.inj passed).symm
  unfold applySettlementEvent at done
  by_cases refused : checkApplication book terms = false
  · simp [refused] at done
  refine ⟨by simpa using refused, ?_⟩
  simp only [if_neg refused] at done
  cases kind : terms.kind with
  | stock =>
    simp only [kind] at done
    rcases acquirer : terms.intoTicker with _ | into
    · simp [acquirer] at done
    rcases exchange : terms.ratio with _ | ratio
    · simp [acquirer, exchange] at done
    simp only [acquirer, exchange] at done
    split at done
    · cases done
    · rename_i lots converted
      split at done
      · cases done
      · rename_i checked passed
        cases done
        exact .inr ⟨rfl, into, ratio, lots, rfl, rfl, converted, asserted passed, rfl⟩
  | cash =>
    simp only [kind] at done
    split at done
    · cases done
    · rename_i checked passed
      cases done
      exact .inl ⟨by simp, asserted passed, rfl⟩
  | worthless =>
    simp only [kind] at done
    split at done
    · cases done
    · rename_i checked passed
      cases done
      exact .inl ⟨by simp, asserted passed, rfl⟩

end TradingEngine.Ledger
