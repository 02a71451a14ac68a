import TradingEngine.ProjectionCheckpoints

/-!
# Dividends of the league's day-step

A day-step first pays the dividends of a window of ex-dates that it has not paid yet, so a
row that is published late, or whose session was not stepped, is still found. The entitlement
is the quantity after replaying the ledger through the day before the ex-date. A rerun of a
date takes the dividends of that ex-date back and pays them again.

What the rest of a step and other programs write may be anything but dividends. A replay
through a close reads nothing dated after it: it is the rebuild of the ledger as if its
history ended there.
-/

namespace TradingEngine.LeagueSteps

open KeyedTables OrderTypes Nyse Ledger Runs

/-- A portfolio: its tables and the state stored for it. -/
structure LeagueBook where
  active : Bool
  settings : LedgerSettings
  ledger : LedgerTables
  book : Book

abbrev Books := Table String LeagueBook

/-- Dividends among the published corporate actions, under ticker and ex-date. -/
abbrev Published := Table (Ticker × Int) ℚ

inductive StepError where
  | ledger (raised : LedgerError)
  | creditedTwice             -- the primary key of sim_dividends
  | other

/-- A dividend row to write. -/
structure Credit where
  portfolioId : String
  ticker : Ticker
  exDate : Int
  row : DividendRow

/-- A published dividend in the window of a step. -/
structure Due where
  ticker : Ticker
  exDate : Int
  dps : ℚ

/-- How far back a step looks for rows that arrive late. -/
def dividendLookbackDays : Int := 10

/-- The dividends of the window, by ex-date and ticker. -/
def dueDividends (published : Published) (day : Int) : List Due :=
  ((published.entries.filter fun row =>
      decide (day - dividendLookbackDays < row.1.2) && decide (row.1.2 ≤ day)).map fun row =>
    ⟨row.1.1, row.1.2, row.2⟩).insertionSort fun left right =>
      toLex (left.exDate, left.ticker) ≤ toLex (right.exDate, right.ticker)

/-- Instruments that a portfolio can hold: it traded them or was paid in them. -/
def tradedTickers (ledger : LedgerTables) : List Ticker :=
  ledger.fills.entries.map (fun row => row.2.ticker) ++
    ledger.settlements.entries.filterMap fun row => row.2.intoTicker

/-- The dividends that a portfolio has not been paid. -/
def eligible (row : LeagueBook) (dues : List Due) : List Due :=
  dues.filter fun due => decide (due.ticker ∈ tradedTickers row.ledger) &&
    (row.ledger.dividends.lookup (due.ticker, due.exDate)).isNone

/-- The quantity of an instrument in the snapshot of a close. -/
def heldIn (prefixes : List (Int × Snapshot)) (day : Int) (ticker : Ticker) : ℚ :=
  match prefixes.find? fun entry => decide (entry.1 = day) with
  | none => 0
  | some entry =>
    ((entry.2.positions.find? fun row => decide (row.1 = ticker)).map fun row => row.2.qty).getD 0

/-- The credit of one dividend. A quantity that is nothing but rounding is not paid. -/
def creditOf (portfolioId : String) (prefixes : List (Int × Snapshot)) (due : Due) :
    Option Credit :=
  let qty := heldIn prefixes (due.exDate - 1) due.ticker
  if |qty| < 1 / 10 ^ 9 then none
  else some ⟨portfolioId, due.ticker, due.exDate, ⟨qty, due.dps, qty * due.dps⟩⟩

/-- The credits of one portfolio, from one replay of its ledger. -/
def portfolioCredits (zone : Zone) (portfolioId : String) (row : LeagueBook) (dues : List Due) :
    Except StepError (List Credit) :=
  let owed := eligible row dues
  let request : Request :=
    ⟨⟨portfolioId, "", row.settings, row.ledger⟩, owed.map fun due => due.exDate - 1⟩
  match (projectedStatesAtCloses zone (fun _ => ()) none request).1 with
  | .error raised => .error (.ledger raised)
  | .ok prefixes => .ok (owed.filterMap (creditOf portfolioId prefixes))

/-- Portfolios of the league's own step, in order: active and outside the account engine. -/
def steppedPortfolios (books : Books) : List (String × LeagueBook) :=
  ((books.entries.map fun row => (row.1, row.2)).filter fun row =>
    row.2.active && decide (row.2.settings.engine ≠ .account)).insertionSort
      fun left right => left.1 ≤ right.1

/-- Pay one credit: cash and the row under its key. -/
def payCredit (books : Books) (credit : Credit) : Except StepError Books :=
  match books.lookup credit.portfolioId with
  | none => .error .other
  | some row =>
    if (row.ledger.dividends.lookup (credit.ticker, credit.exDate)).isSome then
      .error .creditedTwice
    else
      let ledger := { row.ledger with
        dividends := row.ledger.dividends.insert (credit.ticker, credit.exDate) credit.row }
      .ok (books.insert credit.portfolioId
        { row with ledger := ledger, book := row.book.credit credit.row.amount })

/-- A credit with the portfolio as it stood when the credit was planned. -/
structure Planned where
  credit : Credit
  payer : LeagueBook

/-- Plan the credits of every portfolio. -/
def plannedCredits (zone : Zone) (books : Books) (dues : List Due) :
    Except StepError (List Planned) :=
  ((steppedPortfolios books).mapM fun entry =>
    (portfolioCredits zone entry.1 entry.2 dues).map fun credits =>
      credits.map fun credit => (⟨credit, entry.2⟩ : Planned)).map List.flatten

/-- Pay every dividend of the window that is not paid yet. -/
def creditDividends (zone : Zone) (published : Published) (books : Books) (day : Int) :
    Except StepError (Books × List Planned) :=
  let dues := dueDividends published day
  if dues.any fun due => decide (due.dps ≤ 0) then .error (.ledger .nonPositiveDividend)
  else do
    let planned ← plannedCredits zone books dues
    let paid ← (planned.map Planned.credit).foldlM payCredit books
    .ok (paid, planned)

/-- Writes that leave the dividends of every portfolio. -/
structure Writes where
  run : Books → Except StepError Books
  dividends : ∀ books after, run books = .ok after → ∀ portfolioId,
    (after.lookup portfolioId).map (fun row => row.ledger.dividends) =
      (books.lookup portfolioId).map fun row => row.ledger.dividends

/-- The tables of a portfolio without a date's dividends and fills. -/
def LeagueBook.without (row : LeagueBook) (day : Int) : LedgerTables :=
  { row.ledger with
    dividends := filterRows (fun key _ => decide (key.2 ≠ day)) row.ledger.dividends
    fills := filterRows (fun _ fill => decide (fill.fillDate ≠ day)) row.ledger.fills }

/-- Take a date back from one portfolio and rebuild it. -/
def cleanBook (zone : Zone) (day : Int) (books : Books) (portfolioId : String) :
    Except StepError Books :=
  match books.lookup portfolioId with
  | none => .ok books
  | some row =>
    if row.settings.engine = .account then .ok books
    else
      match rebuildState zone row.settings (row.without day) none with
      | .error raised => .error (.ledger raised)
      | .ok book =>
        .ok (books.insert portfolioId { row with ledger := row.without day, book := book })

def rerunCleanup (zone : Zone) (books : Books) (day : Int) : Except StepError Books :=
  books.keys.foldlM (cleanBook zone day) books

/-- One call of the step: its date, what is published by then and what the later phases
write. -/
structure DayStep where
  day : Int
  rerun : Bool
  published : Published
  rest : Writes

/-- The portfolios and the dates that were stepped. -/
structure League where
  books : Books
  stepped : List Int

/-- What the steps did with dividends. -/
inductive Entry where
  | credited (planned : Planned)
  | cleared (exDate : Int)

/-- Clean up where the date is stepped again. -/
def prepared (zone : Zone) (league : League) (call : DayStep) :
    Except StepError (Books × List Entry) :=
  if call.day ∈ league.stepped then
    (rerunCleanup zone league.books call.day).map fun books => (books, [.cleared call.day])
  else .ok (league.books, [])

/-- A day-step: refused for a stepped date, unless it reruns the last one. -/
def step (zone : Zone) (league : League) (call : DayStep) :
    Except StepError (League × List Entry) :=
  if call.day ∈ league.stepped ∧ (call.rerun = false ∨ ∃ later ∈ league.stepped, call.day < later)
  then .ok (league, [])
  else do
    let (cleaned, cleared) ← prepared zone league call
    let (paid, planned) ← creditDividends zone call.published cleaned call.day
    let done ← call.rest.run paid
    .ok (⟨done, if call.day ∈ league.stepped then league.stepped
        else call.day :: league.stepped⟩, cleared ++ planned.map .credited)

/-- A day-step, or what other programs write between two of them. -/
inductive Turn where
  | step (call : DayStep)
  | outside (writes : Writes)

/-- A turn is a transaction: what raises leaves no trace. -/
def perform (zone : Zone) (state : League × List Entry) : Turn → League × List Entry
  | .step call =>
    match step zone state.1 call with
    | .error _ => state
    | .ok (league, entries) => (league, state.2 ++ entries)
  | .outside writes =>
    match writes.run state.1.books with
    | .error _ => state
    | .ok books => ({ state.1 with books := books }, state.2)

/-- The league and its history after some turns. -/
def run (zone : Zone) (league : League) (turns : List Turn) : League × List Entry :=
  turns.foldl (perform zone) (league, [])

end TradingEngine.LeagueSteps
