import TradingEngine.Fills
import TradingEngine.Runs

/-!
# Fills of the league's day-step

The orders that wait since an earlier session are attempted at a session's open: sells
first, each applied at once, so that the cash they free funds the buys of the same day. The
executable buys of one book are simultaneous intents. When their total with fees exceeds the
book's cash, every leg is scaled by one factor, which is refined three times at most against
the fees of the scaled legs; a scaled leg is priced again at its own quantity. The legs are
then applied by id, and the ledger clamps a buy to the cash that is left.

What a session shows is read through `Session`. Any error ends the whole step.
-/

namespace TradingEngine.LeagueFills

open KeyedTables OrderTypes Ledger Costs Fills

inductive OrderStatus where
  | pending | filled | rejected | cancelled
  deriving DecidableEq

/-- Why an attempt or a guard refuses an order. -/
inductive Refusal where
  | invalidSide                 -- invalid_order: side
  | invalidQuantity             -- invalid_order: quantity must be positive
  | fillArithmetic              -- invalid_order: fill arithmetic
  | dataQuarantine (why : String)
  | noPositionToSell
  | insufficientCash
  | noBar
  | untrustedBar
  | illiquid (notional volume : ℚ) (profile : ExecutionProfile)

inductive FillError where
  | lookAhead                   -- look-ahead violation: fill_date !> signal_date
  | chargeRefused               -- qty and price must be positive and finite
  | unpriced                    -- a fill without a price
  | filledTwice                 -- the primary keys of sim_fill_costs and sim_fill_fees
  | bookMissing
  | ledger (raised : LedgerError)

/-- What the fills of one session read. -/
structure Session where
  day : Int
  openPx : Ticker → Option ℚ
  openPx_positive : ∀ ticker px, openPx ticker = some px → 0 < px
  medianDollarVol : Ticker → Option ℚ
  elapsed : Int → Nat
  quarantine : Ticker → Option String
  power : ℚ → ℚ
  times : FillTimes

/-- A change of a book's cost profile on a date. -/
structure CostBreak where
  breakDate : Int
  fromProfile : CostProfile
  toProfile : CostProfile

structure Portfolio where
  settings : LedgerSettings
  costProfile : CostProfile
  costBreak : Option CostBreak
  executionProfile : Option ExecutionProfile
  book : Book

/-- The cost profile of a session: what a later break changes is read from the break. -/
def effectiveCostProfile (portfolio : Portfolio) (day : Int) : CostProfile :=
  match portfolio.costBreak with
  | none => portfolio.costProfile
  | some row => if row.breakDate ≤ day then row.toProfile else row.fromProfile

def profileOf (portfolio : Portfolio) : ExecutionProfile :=
  portfolio.executionProfile.getD .baselineV1

structure Order where
  portfolioId : String
  ticker : Ticker
  side : Side
  qty : ℚ
  signalDate : Int
  status : OrderStatus
  rejectReason : Option Refusal

/-- A row of the table of execution attempts, under its order and date. -/
structure Execution where
  executionProfile : ExecutionProfile
  rawNotional : Option ℚ
  medianDollarVol : Option ℚ
  participation : Option ℚ
  outcome : OrderStatus
  reason : Option Refusal

/-- A fill with its costs and fees. -/
structure FillRow where
  portfolioId : String
  ticker : Ticker
  side : Side
  qty : ℚ
  fillDate : Int
  openPx : ℚ
  fillPx : ℚ
  marketBps : ℚ
  costBps : ℚ
  impactBps : ℚ
  participation : ℚ
  executionProfile : ExecutionProfile
  fees : Option Fees

structure Store where
  portfolios : Table String Portfolio
  orders : Table OrderId Order
  executions : Table (OrderId × Int) Execution
  fills : Table OrderId FillRow

/-- Share of the median daily dollar volume at which the impact coefficient is reached. -/
def impactReferenceParticipation : ℚ := 1 / 100

/-- Costs of one side in basis points. The registered profiles add no fees to them. -/
structure CostComponents where
  marketBps : ℚ
  impactBps : ℚ
  participation : ℚ

def costComponents (session : Session) (profile : ExecutionProfile) (qty openPx : ℚ)
    (volume : Option ℚ) : CostComponents :=
  let notional := |qty * openPx|
  let participation :=
    match volume with
    | none => 0
    | some known => if 0 < known then notional / known else 0
  let impact :=
    if profile.impactCoefficientBps ≠ 0 ∧ 0 < participation then
      profile.impactCoefficientBps *
        session.power (participation / impactReferenceParticipation)
    else 0
  { marketBps := halfSpreadBps volume * profile.spreadMultiplier + profile.fixedAdverseBps + impact
    impactBps := impact
    participation := participation }

/-- The terms of a fill at the open. -/
structure OpenFill where
  openPx : ℚ
  fillPx : ℚ
  marketBps : ℚ
  costBps : ℚ
  medianDollarVol : Option ℚ
  participation : ℚ
  impactBps : ℚ
  priced : 0 < fillPx

instance : DecidableEq OpenFill := fun one other =>
  decidable_of_iff (one.openPx = other.openPx ∧ one.fillPx = other.fillPx ∧
      one.marketBps = other.marketBps ∧ one.costBps = other.costBps ∧
      one.medianDollarVol = other.medianDollarVol ∧ one.participation = other.participation ∧
      one.impactBps = other.impactBps)
    (by cases one; cases other; simp)

/-- Outcome of an attempt. Only a refusal for liquidity keeps what was read. -/
inductive Attempt where
  | filled (terms : OpenFill)
  | rejected (reason : Refusal) (openPx medianDollarVol : Option ℚ)
  | pending (reason : Refusal)

def orderRefusal (side : Side) (qty : ℚ) : Option Refusal :=
  if side ≠ .buy ∧ side ≠ .sell then some .invalidSide
  else if qty ≤ 0 then some .invalidQuantity
  else none

/-- Try to fill one order at the session's open. -/
def attemptFill (session : Session) (profile : ExecutionProfile) (ticker : Ticker) (side : Side)
    (qty : ℚ) (signalDate : Int) : Except FillError Attempt :=
  if session.day ≤ signalDate then .error .lookAhead
  else
    match orderRefusal side qty with
    | some reason => .ok (.rejected reason none none)
    | none =>
      match session.openPx ticker with
      | none =>
        if pendingMaxDays ≤ session.elapsed signalDate then .ok (.rejected .noBar none none)
        else .ok (.pending .untrustedBar)
      | some openPx =>
        let volume := session.medianDollarVol ticker
        let costs := costComponents session profile qty openPx volume
        if ∃ known ∈ volume, known ≤ 0 ∨ maxParticipation < costs.participation then
          .ok (.rejected (.illiquid (qty * openPx) (volume.getD 0) profile) (some openPx) volume)
        else
          let fillPx := openPx * (1 + side.sign * costs.marketBps / 10000)
          if priced : 0 < fillPx then
            .ok (.filled ⟨openPx, fillPx, costs.marketBps, costs.marketBps, volume,
              costs.participation, costs.impactBps, priced⟩)
          else .ok (.rejected .fillArithmetic none none)

namespace Attempt

def openPx : Attempt → Option ℚ
  | .filled terms => some terms.openPx
  | .rejected _ openPx _ => openPx
  | .pending _ => none

def medianDollarVol : Attempt → Option ℚ
  | .filled terms => terms.medianDollarVol
  | .rejected _ _ volume => volume
  | .pending _ => none

def participation : Attempt → Option ℚ
  | .filled terms => some terms.participation
  | _ => none

def outcome : Attempt → OrderStatus
  | .filled _ => .filled
  | .rejected _ _ _ => .rejected
  | .pending _ => .pending

def reason : Attempt → Option Refusal
  | .filled _ => none
  | .rejected reason _ _ => some reason
  | .pending reason => some reason

end Attempt

/-- The row of an attempt. -/
def execution (profile : ExecutionProfile) (qty : ℚ) (result : Attempt) : Execution :=
  { executionProfile := profile
    rawNotional := result.openPx.map (qty * ·)
    medianDollarVol := result.medianDollarVol
    participation := result.participation
    outcome := result.outcome
    reason := result.reason }

/-- The first attempt of a session also derives the participation of what it refuses. -/
def firstExecution (profile : ExecutionProfile) (qty : ℚ) (result : Attempt) : Execution :=
  let row := execution profile qty result
  { row with
    participation := row.participation.or
      (match row.rawNotional, row.medianDollarVol with
        | some notional, some volume => if 0 < volume then some (notional / volume) else none
        | _, _ => none) }

/-- Rewrite the order of an id. -/
def updateOrder (store : Store) (id : OrderId) (change : Order → Order) : Store :=
  { store with
    orders := mapRows (fun key row => if key = id then change row else row) store.orders }

/-- Rewrite the attempt of an id on a date, when there is one. -/
def updateExecution (store : Store) (id : OrderId) (day : Int) (change : Execution → Execution) :
    Store :=
  { store with
    executions := mapRows (fun key row => if key = (id, day) then change row else row)
      store.executions }

def attempted (store : Store) (id : OrderId) (day : Int) (row : Execution) : Store :=
  { store with executions := store.executions.insert (id, day) row }

/-- Reject an order; an attempt that was recorded agrees with it. -/
def reject (store : Store) (day : Int) (id : OrderId) (reason : Refusal) : Store :=
  updateExecution
    (updateOrder store id fun order =>
      { order with status := .rejected, rejectReason := some reason })
    id day fun row => { row with outcome := .rejected, reason := some reason }

/-- Refuse an order before any attempt. -/
def refuse (store : Store) (day : Int) (id : OrderId) (profile : ExecutionProfile)
    (reason : Refusal) : Store :=
  reject (attempted store id day ⟨profile, none, none, none, .rejected, some reason⟩) day id reason

def heldQty (portfolio : Portfolio) (ticker : Ticker) : ℚ := (portfolio.book.position ticker).qty

def fillFees (session : Session) (portfolio : Portfolio) (side : Side) (qty px : ℚ) :
    Except FillError Fees :=
  match charge (effectiveCostProfile portfolio session.day) side qty px .nextOpen session.day with
  | none => .error .chargeRefused
  | some fees => .ok fees

/-- The fees that a fill keeps: none under the baseline profile. -/
def keptFees (profile : CostProfile) (fees : Fees) : Option Fees :=
  if profile = .baselineV1 then none else some fees

/-- Why the ledger applies nothing of a fill. -/
def shortfall (side : Side) : Refusal :=
  if side = .buy then .insufficientCash else .noPositionToSell

/-- The quantity and the terms to record: a sale is held to the position once more, and priced
again when that changes it. Nothing is left to sell without a position. -/
def recordTerms (session : Session) (portfolio : Portfolio) (order : Order) (qty : ℚ)
    (terms : OpenFill) : Except FillError (Option (ℚ × OpenFill)) :=
  if order.side = .sell then
    let actual := min qty (heldQty portfolio order.ticker)
    if actual ≤ 0 then .ok none
    else if 1 / 10 ^ 12 < |actual - qty| then
      match attemptFill session (profileOf portfolio) order.ticker .sell actual
          order.signalDate with
      | .error raised => .error raised
      | .ok (.filled terms) => .ok (some (actual, terms))
      | .ok _ => .error .unpriced
    else .ok (some (actual, terms))
  else .ok (some (qty, terms))

/-- Write the book, the fill and the status of an order that filled. -/
def filledStore (session : Session) (store : Store) (id : OrderId) (order : Order)
    (portfolio : Portfolio) (terms : OpenFill) (applied : Applied) (fees : Option Fees) : Store :=
  let row : FillRow :=
    ⟨order.portfolioId, order.ticker, order.side, applied.qty, session.day, terms.openPx,
      terms.fillPx, terms.marketBps, terms.costBps, terms.impactBps, terms.participation,
      profileOf portfolio, fees⟩
  updateOrder
    { store with
      portfolios := store.portfolios.insert order.portfolioId
        { portfolio with book := applied.book }
      fills := store.fills.insert id row }
    id fun order => { order with status := .filled }

/-- Charge and apply a priced order. -/
def record (session : Session) (store : Store) (id : OrderId) (order : Order) (qty : ℚ)
    (terms : OpenFill) : Except FillError Store :=
  match store.portfolios.lookup order.portfolioId with
  | none => .error .bookMissing
  | some portfolio =>
    match recordTerms session portfolio order qty terms with
    | .error raised => .error raised
    | .ok none => .ok (reject store session.day id .noPositionToSell)
    | .ok (some (qty, terms)) =>
      match fillFees session portfolio order.side qty terms.fillPx with
      | .error raised => .error raised
      | .ok fees =>
        let kept := keptFees (effectiveCostProfile portfolio session.day) fees
        match applyFill portfolio.settings session.times portfolio.book
            ⟨some (id, session.day), order.ticker, order.side, qty, terms.fillPx, 1⟩ kept with
        | .error raised => .error (.ledger raised)
        | .ok applied =>
          if applied.qty ≤ 0 then .ok (reject store session.day id (shortfall order.side))
          else if (store.fills.lookup id).isSome then .error .filledTwice
          else .ok (filledStore session store id order portfolio terms applied kept)

/-- An executable buy, with the terms of its first attempt. -/
structure Candidate where
  id : OrderId
  order : Order
  terms : OpenFill

/-- The tables, and the buys that the pass has collected for each book. -/
structure Progress where
  store : Store
  candidates : List (String × Candidate)

/-- Orders that wait since before the session, of books of the league. -/
def waiting (store : Store) (day : Int) : List (OrderId × Order) :=
  (store.orders.entries.map fun row => (row.1, row.2)).filter fun entry =>
    decide (entry.2.status = .pending) && decide (entry.2.signalDate < day) &&
      (store.portfolios.lookup entry.2.portfolioId).any fun portfolio =>
        decide (portfolio.settings.engine = .league)

/-- By id. -/
def byId (entries : List (OrderId × Order)) : List (OrderId × Order) :=
  entries.insertionSort fun left right => left.1 ≤ right.1

/-- The due orders: sells first, then the others. -/
def dueOrders (store : Store) (day : Int) : List (OrderId × Order) :=
  byId ((waiting store day).filter fun entry => decide (entry.2.side = .sell)) ++
    byId ((waiting store day).filter fun entry => decide (entry.2.side ≠ .sell))

/-- The quarantine that keeps an order out. Sales are let through. -/
def quarantineReason (session : Session) (order : Order) : Option String :=
  if order.side = .buy then session.quarantine order.ticker else none

/-- The quantity of the first attempt: a sale is held to the position. -/
def attemptQty (portfolio : Portfolio) (order : Order) : ℚ :=
  if order.side = .sell then min order.qty (heldQty portfolio order.ticker) else order.qty

/-- Attempt one due order. -/
def attemptOrder (session : Session) (progress : Progress) (entry : OrderId × Order) :
    Except FillError Progress :=
  let (id, order) := entry
  match progress.store.portfolios.lookup order.portfolioId with
  | none => .error .bookMissing
  | some portfolio =>
    let profile := profileOf portfolio
    match orderRefusal order.side order.qty with
    | some reason =>
      .ok { progress with store := refuse progress.store session.day id profile reason }
    | none =>
      match quarantineReason session order with
      | some why =>
        .ok { progress with
          store := refuse progress.store session.day id profile (.dataQuarantine why) }
      | none =>
        let qty := attemptQty portfolio order
        if order.side = .sell ∧ qty ≤ 0 then
          .ok { progress with
            store := refuse progress.store session.day id profile .noPositionToSell }
        else
          match attemptFill session profile order.ticker order.side qty order.signalDate with
          | .error raised => .error raised
          | .ok result =>
            let store := attempted progress.store id session.day
              (firstExecution profile qty result)
            match result with
            | .filled terms =>
              if order.side = .sell then
                match record session store id order qty terms with
                | .error raised => .error raised
                | .ok store => .ok { progress with store := store }
              else
                .ok ⟨store, progress.candidates ++ [(order.portfolioId, ⟨id, order, terms⟩)]⟩
            | .rejected reason _ _ =>
              .ok { progress with store := reject store session.day id reason }
            | .pending _ => .ok { progress with store := store }

/-- What a leg costs with its fees at a scale. -/
def legCost (session : Session) (portfolio : Portfolio) (scale : ℚ) (candidate : Candidate) :
    Except FillError ℚ :=
  let qty := candidate.order.qty * scale
  match fillFees session portfolio .buy qty candidate.terms.fillPx with
  | .error raised => .error raised
  | .ok fees => .ok (qty * candidate.terms.fillPx + fees.totalUsd)

def scaledTotal (session : Session) (portfolio : Portfolio) (scale : ℚ)
    (candidates : List Candidate) : Except FillError ℚ :=
  match candidates.mapM (legCost session portfolio scale) with
  | .error raised => .error raised
  | .ok costs => .ok costs.sum

/-- Scale down again while the scaled legs with their own fees exceed the cash. -/
def refineScale (session : Session) (portfolio : Portfolio) (candidates : List Candidate)
    (cash : ℚ) : Nat → ℚ → Except FillError ℚ
  | 0, scale => .ok scale
  | attempts + 1, scale =>
    match scaledTotal session portfolio scale candidates with
    | .error raised => .error raised
    | .ok total =>
      if total ≤ cash ∨ total ≤ 0 then .ok scale
      else
        refineScale session portfolio candidates cash attempts
          (scale * (cash / total * (1 - 1 / 10 ^ 12)))

/-- The factor of every leg of a book. -/
def buyScale (session : Session) (portfolio : Portfolio) (candidates : List Candidate)
    (cash : ℚ) : Except FillError ℚ :=
  match scaledTotal session portfolio 1 candidates with
  | .error raised => .error raised
  | .ok wanted =>
    refineScale session portfolio candidates cash 3
      (if cash < wanted then min 1 (cash / wanted * (1 - 1 / 10 ^ 12)) else 1)

/-- Record a priced leg unless it is dust. -/
def finishBuy (session : Session) (store : Store) (candidate : Candidate) (qty : ℚ)
    (terms : OpenFill) : Except FillError Store :=
  if qty * terms.fillPx < minFillUsd then
    .ok (reject store session.day candidate.id .insufficientCash)
  else record session store candidate.id candidate.order qty terms

/-- Fill one leg. A leg that was scaled is attempted again at its own quantity. -/
def fillBuy (session : Session) (profile : ExecutionProfile) (scale : ℚ) (store : Store)
    (candidate : Candidate) : Except FillError Store :=
  let qty := candidate.order.qty * scale
  if scale < 1 then
    match attemptFill session profile candidate.order.ticker .buy qty
        candidate.order.signalDate with
    | .error raised => .error raised
    | .ok result =>
      let store := updateExecution store candidate.id session.day fun row =>
        { execution profile qty result with executionProfile := row.executionProfile }
      match result with
      | .filled terms => finishBuy session store candidate qty terms
      | .rejected reason _ _ => .ok (reject store session.day candidate.id reason)
      | .pending _ => .ok store
  else finishBuy session store candidate qty candidate.terms

/-- Fill the buys of one book. -/
def fillBuys (session : Session) (store : Store) (group : String × List Candidate) :
    Except FillError Store :=
  match store.portfolios.lookup group.1 with
  | none => .error .bookMissing
  | some portfolio =>
    match buyScale session portfolio group.2 portfolio.book.cash with
    | .error raised => .error raised
    | .ok scale => group.2.foldlM (fillBuy session (profileOf portfolio) scale) store

/-- The collected buys of each book, in the order in which the books appear. -/
def buyGroups (candidates : List (String × Candidate)) : List (String × List Candidate) :=
  (candidates.map Prod.fst).eraseDups.map fun portfolioId =>
    (portfolioId,
      (candidates.filter fun entry => decide (entry.1 = portfolioId)).map Prod.snd)

/-- Attempt every pending order at the session's open. -/
def fillPending (session : Session) (store : Store) : Except FillError Store :=
  match (dueOrders store session.day).foldlM (attemptOrder session) ⟨store, []⟩ with
  | .error raised => .error raised
  | .ok progress => (buyGroups progress.candidates).foldlM (fillBuys session) progress.store

end TradingEngine.LeagueFills
