import TradingEngine.Ledger
import TradingEngine.Nyse

/-!
# The retained ledger and its replay

Everything a portfolio ever booked is kept in five tables. Replay sorts their
rows into one chronological sequence and applies them to an opening book with
the same mutations as live settlement. The order is by instant, then by phase
(elapsed interest, splits, dividends, settlements, borrow charges, fills, other
cash), then by the row's own identity.
-/

namespace TradingEngine.Ledger

open KeyedTables OrderTypes Nyse

/-- A split ratio. Both readers of split tables select positive ratios only. -/
structure SplitRatio where
  value : ℚ
  positive : 0 < value
  deriving Repr

instance : DecidableEq SplitRatio := fun one other =>
  decidable_of_iff (one.value = other.value) (by cases one; cases other; simp)

theorem two_positive : (0 : ℚ) < 2 := by norm_num

/-- A dividend row. -/
structure DividendRow where
  qty : ℚ
  dps : ℚ
  amount : ℚ
  deriving DecidableEq

/-- A settlement row. -/
structure SettlementRow where
  kind : SettlementKind
  qty : ℚ
  price : ℚ
  intoTicker : Option Ticker
  ratio : Option ℚ
  createdAt : Int
  deriving DecidableEq

inductive CashKind where
  | borrowFee | marginInterest | shortDividend | buyInPenalty | expiry | assignment | exercise
  | cashSettlement | adjustment
  deriving DecidableEq

/-- A cash movement that is not a fill. Interest is charged to the account and
borrow to an instrument; no writer does otherwise. -/
structure CashRow where
  kind : CashKind
  amount : ℚ
  instrumentId : Option Ticker
  refOrderId : Option OrderId
  note : String
  createdAt : Int
  interest_of_account : kind = .marginInterest → instrumentId = none
  borrow_of_instrument : kind = .borrowFee → instrumentId.isSome
  deriving DecidableEq

theorem interest_unnamed : CashKind.marginInterest = .marginInterest → (none : Option Ticker) = none :=
  fun _ => rfl

theorem interest_unborrowed :
    CashKind.marginInterest = .borrowFee → (none : Option Ticker).isSome = true := nofun

/-- A fill with its details and fees. -/
structure FillRow where
  ticker : Ticker
  side : Side
  qty : ℚ
  fillDate : Int
  openPx : ℚ
  fillPx : ℚ
  fillTs : Option Int
  multiplier : ℚ
  fees : Option Fees
  deriving DecidableEq

/-- The retained tables of one portfolio, each under its primary key. -/
structure LedgerTables where
  initialCash : ℚ
  splits : Table (Ticker × Int) SplitRatio
  dividends : Table (Ticker × Int) DividendRow
  settlements : Table (Ticker × Int) SettlementRow
  cashEvents : Table (Int × Nat) CashRow
  fills : Table OrderId FillRow

/-- One row of the retained tables. -/
inductive Event where
  | split (ticker : Ticker) (ex : Int) (ratio : SplitRatio)
  | dividend (ticker : Ticker) (ex : Int) (row : DividendRow)
  | settlement (ticker : Ticker) (effective : Int) (row : SettlementRow)
  | cash (eventDate : Int) (seq : Nat) (row : CashRow)
  | fill (orderId : OrderId) (row : FillRow)
  deriving DecidableEq

/-- The note of a corrected dividend entitlement. -/
def entitlementCorrection : String := "historical dividend entitlement correction"

/-- Interest and borrow charges. -/
def CashKind.financing : CashKind → Bool
  | .borrowFee | .marginInterest => true
  | _ => false

/-- A correction takes its dividend's place in the day. -/
def CashRow.corrects (row : CashRow) : Bool :=
  decide (row.kind = .adjustment) && decide (row.note = entitlementCorrection)

/-- The instant of an event. -/
def Event.stamp (zone : Zone) (engine : Engine) : Event → Int
  | .split _ ex _ | .dividend _ ex _ => opened zone ex
  | .settlement _ effective _ => opened zone effective
  | .cash eventDate _ row =>
    if row.kind.financing || row.corrects then opened zone eventDate
    else if dateOf row.createdAt = eventDate then row.createdAt
    else closed zone eventDate
  | .fill _ row => if engine = .account then row.fillTs.getD 0 else opened zone row.fillDate

/-- The phase of an event within its instant. Interest covers the preceding debit
interval, so nothing booked at the open may reduce it. -/
def Event.phase : Event → Int
  | .split _ _ _ => 0
  | .dividend _ _ _ => 1
  | .settlement _ _ _ => 2
  | .cash _ _ row =>
    if row.kind = .marginInterest then -1
    else if row.kind = .borrowFee then 3
    else if row.corrects then 1
    else 5
  | .fill _ _ => 4

/-- The identity that orders events of one phase: rank, instrument and number. -/
def Event.sequence (engine : Engine) : Event → Int ×ₗ String ×ₗ Nat
  | .split ticker _ _ | .dividend ticker _ _ | .settlement ticker _ _ =>
    toLex (1, toLex (ticker, 0))
  | .cash _ seq _ => toLex (1, toLex ("", seq))
  | .fill orderId row =>
    toLex (if engine = .account ∨ row.side.closing then 0 else 1, toLex ("", orderId))

abbrev EventKey := Int ×ₗ Int ×ₗ Int ×ₗ String ×ₗ Nat

/-- The sort key of an event. -/
def Event.key (zone : Zone) (engine : Engine) (event : Event) : EventKey :=
  toLex (event.stamp zone engine, toLex (event.phase, event.sequence engine))

/-- The date whose replay an event belongs to. -/
def Event.date (zone : Zone) (engine : Engine) (event : Event) : Int :=
  dateOf (event.stamp zone engine)

/-- Every retained row as an event. -/
def LedgerTables.rows (ledger : LedgerTables) : List Event :=
  ledger.splits.entries.map (fun row => .split row.1.1 row.1.2 row.2) ++
  ledger.dividends.entries.map (fun row => .dividend row.1.1 row.1.2 row.2) ++
  ledger.settlements.entries.map (fun row => .settlement row.1.1 row.1.2 row.2) ++
  ledger.cashEvents.entries.map (fun row => .cash row.1.1 row.1.2 row.2) ++
  ledger.fills.entries.map (fun row => .fill row.1 row.2)

/-- A fill of an account without an authoritative time. -/
def LedgerTables.untimed (engine : Engine) (ledger : LedgerTables) : Option OrderId :=
  (ledger.fills.entries.find? fun row => decide (engine = .account) && row.2.fillTs.isNone).map
    Sigma.fst

/-- Events ordered by key. -/
def inOrder (zone : Zone) (engine : Engine) (events : List Event) : List Event :=
  events.insertionSort fun a b => a.key zone engine ≤ b.key zone engine

theorem inOrder_perm (zone : Zone) (engine : Engine) (events : List Event) :
    (inOrder zone engine events).Perm events :=
  List.perm_insertionSort _ events

theorem inOrder_sorted (zone : Zone) (engine : Engine) (events : List Event) :
    (inOrder zone engine events).Pairwise fun a b => a.key zone engine ≤ b.key zone engine :=
  List.pairwise_insertionSort _ events

/-- The shared chronological sequence, restricted to a window of dates. -/
def events (zone : Zone) (engine : Engine) (ledger : LedgerTables) (since through : Option Int) :
    Except LedgerError (List Event) :=
  match ledger.untimed engine with
  | some orderId => .error (.missingFillTs orderId)
  | none =>
    .ok (inOrder zone engine (ledger.rows.filter fun event =>
      (since.all fun day => decide (day ≤ event.date zone engine)) &&
        (through.all fun day => decide (event.date zone engine ≤ day))))

/-- Recorded fill times. -/
def LedgerTables.times (ledger : LedgerTables) : FillTimes :=
  fun orderId => (ledger.fills.lookup orderId).bind FillRow.fillTs

/-- A recorded fill as the ledger applies it. -/
def FillRow.toFill (orderId : OrderId) (row : FillRow) : Fill :=
  ⟨some (orderId, row.fillDate), row.ticker, row.side, row.qty, row.fillPx, row.multiplier⟩

/-- A recorded settlement's terms. -/
def SettlementRow.terms (ticker : Ticker) (row : SettlementRow) : SettlementTerms :=
  ⟨ticker, row.kind, row.qty, row.price, row.intoTicker, row.ratio⟩

/-- Add signed dollars. -/
def Book.credit (book : Book) (amount : ℚ) : Book := { book with cash := book.cash + amount }

/-- Apply one recorded event using the same mutations as normal settlement. -/
def applyEvent (settings : LedgerSettings) (times : FillTimes) (book : Book) :
    Event → Except LedgerError (Book × List Close)
  | .fill orderId row =>
    match applyFill settings times book (row.toFill orderId) row.fees with
    | .error raised => .error raised
    | .ok applied =>
      if isClose applied.qty row.qty (1 / 10 ^ 12) (1 / 10 ^ 12) then
        .ok (applied.book, applied.closes)
      else .error (.changedQuantity orderId)
  | .split ticker ex ratio => .ok (applySplit book ticker ex ratio.value, [])
  | .settlement ticker _ row => applySettlementEvent settings times book (row.terms ticker)
  | .dividend _ _ row =>
    if row.dps ≤ 0 then .error .nonPositiveDividend else .ok (book.credit row.amount, [])
  | .cash _ _ row => .ok (book.credit row.amount, [])

/-- The book after one recorded event. -/
def replayEvent (settings : LedgerSettings) (times : FillTimes) (book : Book) (event : Event) :
    Except LedgerError Book :=
  (applyEvent settings times book event).map Prod.fst

/-- Rebuild a book from the shared event sequence. -/
def rebuildState (zone : Zone) (settings : LedgerSettings) (ledger : LedgerTables)
    (through : Option Int) : Except LedgerError Book :=
  match events zone settings.engine ledger none through with
  | .error raised => .error raised
  | .ok sequence =>
    sequence.foldlM (replayEvent settings ledger.times) (.opening ledger.initialCash)

/-- The lots and positions that a snapshot shows, in its order. -/
structure Snapshot where
  cash : ℚ
  positions : List (Ticker × Position)
  lots : List ((Ticker × OrderId) × Lot)

/-- The order in which a snapshot lists lots. -/
def lotOrder (row : Σ _ : Ticker × OrderId, Lot) : String ×ₗ Int ×ₗ Nat :=
  toLex (row.1.1, toLex (row.2.openedSession, row.1.2))

/-- Canonical persisted cash, aggregate basis and FIFO lot state. -/
def Book.state (book : Book) : Snapshot where
  cash := book.cash
  positions := ((book.positions.entries.filter fun row => row.2.qty ≠ 0).insertionSort
    fun a b => a.1 ≤ b.1).map fun row => (row.1, row.2)
  lots := ((book.lots.entries.filter fun row => row.2.qty ≠ 0).insertionSort
    fun a b => lotOrder a ≤ lotOrder b).map fun row => (row.1, row.2)

/-- Instruments held with a non-zero quantity, by name. -/
def Book.held (book : Book) : List (Ticker × ℚ) :=
  book.state.positions.map fun row => (row.1, row.2.qty)

/-- Read a chronological prefix without a second accounting implementation. -/
def projectedState (zone : Zone) (settings : LedgerSettings) (ledger : LedgerTables)
    (through : Option Int) : Except LedgerError Snapshot :=
  (rebuildState zone settings ledger through).map Book.state

/-- Signed dollars that an event moves without touching positions. -/
def Event.dollars : Event → ℚ
  | .dividend _ _ row => row.amount
  | .cash _ _ row => row.amount
  | _ => 0

/-- Whether an event falls into a window of dates. -/
def Event.within (zone : Zone) (engine : Engine) (since through : Option Int) (event : Event) :
    Bool :=
  (since.all fun day => decide (day ≤ event.date zone engine)) &&
    (through.all fun day => decide (event.date zone engine ≤ day))

theorem events_ok {zone : Zone} {engine : Engine} {ledger : LedgerTables} {since through : Option Int}
    {sequence : List Event} (listed : events zone engine ledger since through = .ok sequence) :
    ledger.untimed engine = none ∧
      sequence = inOrder zone engine (ledger.rows.filter (Event.within zone engine since through)) := by
  unfold events at listed
  split at listed
  · cases listed
  · rename_i timed
    cases listed
    exact ⟨timed, rfl⟩

theorem mem_events {zone : Zone} {engine : Engine} {ledger : LedgerTables} {since through : Option Int}
    {sequence : List Event} (listed : events zone engine ledger since through = .ok sequence)
    {event : Event} :
    event ∈ sequence ↔ event ∈ ledger.rows ∧ event.within zone engine since through = true := by
  rw [(events_ok listed).2, (inOrder_perm _ _ _).mem_iff, List.mem_filter]

theorem fill_mem_rows {ledger : LedgerTables} {orderId : OrderId} {row : FillRow} :
    Event.fill orderId row ∈ ledger.rows ↔ ledger.fills.lookup orderId = some row := by
  unfold LedgerTables.rows
  simp only [List.mem_append, List.mem_map, reduceCtorEq, and_false, exists_false, false_or,
    Event.fill.injEq]
  constructor
  · rintro ⟨entry, listed, rfl, rfl⟩
    exact lookup_of_mem listed
  · intro found
    exact ⟨⟨orderId, row⟩, mem_of_lookup found, rfl, rfl⟩

theorem listed_fill_dated {zone : Zone} {ledger : LedgerTables} {day : Int} {sequence : List Event}
    (listed : events zone .account ledger (some day) (some day) = .ok sequence) {orderId : OrderId}
    {row : FillRow} (inside : Event.fill orderId row ∈ sequence) :
    ledger.fills.lookup orderId = some row ∧ ∃ ts, row.fillTs = some ts ∧ dateOf ts = day := by
  obtain ⟨recorded, window⟩ := (mem_events listed).mp inside
  have found := fill_mem_rows.mp recorded
  have timed : row.fillTs.isSome := by
    have none' := Option.map_eq_none_iff.mp (events_ok listed).1
    rw [List.find?_eq_none] at none'
    have entry := none' ⟨orderId, row⟩ (mem_of_lookup found)
    rw [Option.isSome_iff_ne_none]
    simpa using entry
  obtain ⟨ts, stamped⟩ := Option.isSome_iff_exists.mp timed
  simp only [Event.within, Option.all_some, Bool.and_eq_true, decide_eq_true_eq, Event.date,
    Event.stamp, if_true, stamped, Option.getD_some] at window
  exact ⟨found, ts, stamped, le_antisymm window.2 window.1⟩

end TradingEngine.Ledger
