import TradingEngine.Runs

/-!
# Event studies

An event strategy names orders at every session of a window. Orders are taken up one
by one: an order that is refused leaves nothing behind, and an accepted one occupies
a slot from its entry session to its exit session, or to the end of the window when
it finds no exit.

A view of the data at a decision is a function of the session, so strategies and exit
predicates are functions of the session that may raise. The costs, dividends and
returns of a trade are computed by a function that may raise; no check reads them.
Sessions are day numbers, clock times are minutes and prices are exact.
-/

namespace TradingEngine.Study

open Runs

abbrev Date := Nat
abbrev Ticker := String

inductive StudyError where
  | value (reason : String)
  | raised
  deriving DecidableEq

inductive Field where
  | barClose (at_ : Nat) | close | open_

inductive FillPoint where
  | openAuction | closeAuction | nextOpen
  | barClose (at_ : Nat)
  deriving DecidableEq

def FillPoint.field : FillPoint → Field
  | .openAuction | .nextOpen => .open_
  | .closeAuction => .close
  | .barClose at_ => .barClose at_

inductive DecisionTime where
  | preOpen | atOpen | atClose
  | clock (minutes : Nat)
  deriving DecidableEq

inductive Side where
  | long | short

/-- What an exit predicate sees of a position. -/
structure Holding where
  ticker : Ticker
  side : Side
  entrySession : Date
  entryPrice : ℚ
  shares : ℚ
  notional : ℚ

inductive FirstCheck where
  | nextSession | entrySession
  deriving DecidableEq

inductive ExitRule where
  | sameSessionClose
  | atTime (at_ : Nat)
  | afterNSessions (sessions : Nat) (fill : FillPoint)
  | firstCondition (sessions : Nat) (fallback : FillPoint) (decisionTime : DecisionTime)
      (firstCheck : FirstCheck) (predicate : Date → Holding → Except StudyError Bool)

structure Order where
  ticker : Ticker
  side : Side
  entry : FillPoint
  exit : ExitRule
  notional : ℚ
  priority : Option ℚ
  signal : Option (List (String × ℚ))

structure OpenPosition where
  holding : Holding
  order : Order

/-- The bars of a source: the sessions in order, which tickers have a bar, and the
values of its fields. -/
structure PriceSource where
  sessions : List Date
  ordered : sessions.Pairwise (· < ·)
  present : Ticker → Date → Bool
  value : Ticker → Date → Field → Option ℚ
  tickers : List Ticker
  sessionOpen : Nat
  sessionClose : Nat

structure ListingInterval where
  listedFrom : Date
  listedThrough : Option Date

def ListingInterval.contains (interval : ListingInterval) (session : Date) : Bool :=
  interval.listedFrom ≤ session ∧ ∀ last ∈ interval.listedThrough, session ≤ last

structure Universe where
  listings : Option (List (Ticker × ListingInterval))
  delistingReturn : ℚ

structure DelistingExit where
  session : Date
  exitPrice : ℚ
  usedFallback : Bool

inductive AlreadyHeld where
  | reject | allow
  deriving DecidableEq

inductive WindowEnd where
  | forceClose | unevaluable
  deriving DecidableEq

/-- A field that orders are sorted by. -/
inductive SortField where
  | ticker | side | notional | entry | priority | signal
  | signalField (name : String)

structure SortKey where
  field : SortField
  descending : Bool

structure EventStrategy where
  decisionTime : DecisionTime
  orders : Date → Except StudyError (List Order)
  maxConcurrent : Nat
  maxNewPerSession : Nat
  orderSortKey : List SortKey
  openAsIndication : Bool
  closeAsIndication : Bool
  alreadyHeld : AlreadyHeld
  windowEnd : WindowEnd
  requireCompletePath : Bool

inductive Window where
  | study (splitDate validateEnd : Date)
  | span (first last : Date)
  | dates (requested : List Date)

def Window.contains : Window → Date → Bool
  | .study splitDate validateEnd, day => splitDate < day ∧ day ≤ validateEnd
  | .span first last, day => first ≤ day ∧ day ≤ last
  | .dates requested, day => day ∈ requested

def sessions (source : PriceSource) (window : Window) : Except StudyError (List Date) :=
  let days := source.sessions.filter window.contains
  if days = [] then .error (.value "simulation window contains no source sessions") else .ok days

/-- A next-open fill falls on the following session. -/
def FillPoint.delay (fill : FillPoint) : Nat :=
  if fill = .nextOpen then 1 else 0

/-- The session at which an order decided at a session fills. -/
def fillDay (days : List Date) (baseIndex : Nat) (fill : FillPoint) : Option Date :=
  days[baseIndex + fill.delay]?

section Ordering

/-- The order of the texts that the fields are named by. -/
def Field.rank : Field → ℕ ×ₗ ℕ
  | .barClose at_ => toLex (0, at_)
  | .close => toLex (1, 0)
  | .open_ => toLex (2, 0)

def Side.rank : Side → ℕ
  | .long => 0
  | .short => 1

def ExitRule.rank : ExitRule → ℕ
  | .afterNSessions _ _ => 0
  | .atTime _ => 1
  | .firstCondition _ _ _ _ _ => 2
  | .sameSessionClose => 3

def Order.signalItems (order : Order) : List (String ×ₗ ℚ) :=
  (order.signal.getD []).map toLex

def Order.signalValue (order : Order) (name : String) : ℚ :=
  ((order.signal.getD []).lookup name).getD 0

/-- The order in which orders stand before any declared key. -/
def Order.place (order : Order) :
    String ×ₗ ℕ ×ₗ ℚ ×ₗ (ℕ ×ₗ ℕ) ×ₗ ℕ ×ₗ ℚ ×ₗ List (String ×ₗ ℚ) :=
  toLex (order.ticker, toLex (order.side.rank, toLex (order.notional, toLex
    (order.entry.field.rank, toLex (order.exit.rank, toLex (order.priority.getD 0,
      order.signalItems))))))

def SortField.le (field : SortField) (first second : Order) : Bool :=
  match field with
  | .ticker => first.ticker ≤ second.ticker
  | .side => first.side.rank ≤ second.side.rank
  | .notional => first.notional ≤ second.notional
  | .entry => first.entry.field.rank ≤ second.entry.field.rank
  | .priority => first.priority.getD 0 ≤ second.priority.getD 0
  | .signal => first.signalItems ≤ second.signalItems
  | .signalField name => first.signalValue name ≤ second.signalValue name

/-- A stable sort by one declared key. -/
def SortKey.sort (key : SortKey) (orders : List Order) : List Order :=
  orders.insertionSort fun first second =>
    if key.descending then key.field.le second first else key.field.le first second

/-- Orders in the declared order; the last declared key is sorted by first. -/
def ordered (orders : List Order) (keys : List SortKey) : List Order :=
  keys.foldr SortKey.sort (orders.insertionSort fun first second => first.place ≤ second.place)

end Ordering

section Data

variable (strategy : EventStrategy) (source : PriceSource) (listed : Universe)

/-- The fill comes after the decision, or at it where the price is taken as indication. -/
def validEntryTime (fill : FillPoint) : Bool :=
  let decision := match strategy.decisionTime with
    | .preOpen => source.sessionOpen - 1
    | .atOpen => source.sessionOpen
    | .atClose => source.sessionClose
    | .clock minutes => minutes
  match fill with
  | .nextOpen => true
  | .openAuction => decision < source.sessionOpen ∨
      source.sessionOpen = decision ∧ strategy.openAsIndication
  | .closeAuction => decision < source.sessionClose ∨
      source.sessionClose = decision ∧ strategy.closeAsIndication
  | .barClose minutes => decision < minutes

def listingInterval (ticker : Ticker) : Option ListingInterval :=
  listed.listings.bind (List.lookup ticker)

def isListed (ticker : Ticker) (session : Date) : Bool :=
  match listingInterval listed ticker with
  | some interval => interval.contains session
  | none => listed.listings.isNone ∧ ticker ∈ source.tickers

/-- The last session of a span with a usable close. -/
def lastClose (ticker : Ticker) (first last : Date) : Option (Date × ℚ) :=
  ((source.sessions.filter fun day => first ≤ day ∧ day ≤ last).filterMap fun day =>
    if source.present ticker day then
      ((source.value ticker day .close).filter fun close => 0 ≤ close).map (day, ·)
    else none).getLast?

def delistingExit (ticker : Ticker) (heldOn : Date) (entryPrice : ℚ) : Option DelistingExit :=
  match (listingInterval listed ticker).bind ListingInterval.listedThrough with
  | none => none
  | some listedThrough =>
    if listedThrough < heldOn then none
    else match lastClose source ticker heldOn listedThrough with
      | some (session, close) => some ⟨session, close, false⟩
      | none => some ⟨listedThrough, entryPrice * (1 + listed.delistingReturn), true⟩

inductive ExitReason where
  | sameSessionClose | atTime | afterNSessions | firstCondition | firstConditionFallback
  | delisting | delistingFallback

inductive Flag where
  | missingExitBar | delistingReturn

structure Exit where
  session : Date
  field : Field
  price : ℚ
  reason : ExitReason
  flags : List Flag

/-- What became of the search for an exit. -/
inductive ExitResult where
  | unevaluable (reason : String)
  | missing
  | found (exit : Exit)

/-- The exit at a delisting, where one is known. -/
def delistingResult (position : OpenPosition) (flags : List Flag) : ExitResult :=
  match delistingExit source listed position.holding.ticker position.holding.entrySession
      position.holding.entryPrice with
  | none => .missing
  | some delist => .found
      { session := delist.session, field := .close, price := delist.exitPrice
        reason := if delist.usedFallback then .delistingFallback else .delisting
        flags := flags ++ if delist.usedFallback then [.delistingReturn] else [] }

/-- The first price after the planned exit, up to the delisting. -/
def laterPrice (position : OpenPosition) (field : Field) (later : List Date) :
    Option (Date × ℚ) :=
  let ticker := position.holding.ticker
  let alive := later.takeWhile fun day =>
    ¬ ((listingInterval listed ticker).bind ListingInterval.listedThrough).any (· < day)
  alive.findSome? fun day => (source.value ticker day field).map (day, ·)

/-- The exit at the planned session, or at what stands in for it. -/
def settleExit (days : List Date) (position : OpenPosition) (targetIndex : Nat)
    (fill : FillPoint) (reason : ExitReason) : ExitResult :=
  match fillDay days targetIndex fill with
  | none => .missing
  | some actual =>
    let ticker := position.holding.ticker
    let listedThrough := (listingInterval listed ticker).bind ListingInterval.listedThrough
    if listedThrough.any (· < actual) then delistingResult source listed position []
    else match source.value ticker actual fill.field with
      | some value => .found ⟨actual, fill.field, value, reason, []⟩
      | none =>
        match laterPrice source listed position fill.field (days.filter (actual < ·)) with
        | some (later, value) => .found ⟨later, fill.field, value, reason, [.missingExitBar]⟩
        | none =>
          match listedThrough with
          | none => .missing
          | some last =>
            if days.getLast?.any (· < last) then .missing
            else delistingResult source listed position [.missingExitBar]

/-- The first session of a span at which the predicate holds. -/
def firstHolding (predicate : Date → Holding → Except StudyError Bool) (holding : Holding) :
    List (Nat × Date) → Except StudyError (Option Nat)
  | [] => .ok none
  | (index, day) :: rest =>
    (predicate day holding).bind fun holds =>
      if holds then .ok (some index) else firstHolding predicate holding rest

/-- The exit of a position that is entered at a session of the window. -/
def exit (days : List Date) (position : OpenPosition) (entryIndex : Nat) :
    Except StudyError ExitResult :=
  let settle := settleExit source listed days position
  match position.order.exit with
  | .sameSessionClose => .ok (settle entryIndex .closeAuction .sameSessionClose)
  | .atTime minutes => .ok (settle entryIndex (.barClose minutes) .atTime)
  | .afterNSessions count fill =>
    if (fillDay days (entryIndex + count) fill).isNone ∧ strategy.windowEnd = .unevaluable then
      .ok (.unevaluable "unevaluable_window_end")
    else .ok (settle (entryIndex + count) fill .afterNSessions)
  | .firstCondition count fallback decisionTime firstCheck predicate =>
    if decisionTime = .atClose ∧ ¬ strategy.closeAsIndication then
      .error (.value "first_condition at close requires close_as_indication=True")
    else
      let limit := min (entryIndex + count) (days.length - 1)
      let first := if firstCheck = .entrySession then entryIndex else entryIndex + 1
      let checked := (days.zipIdx.map Prod.swap).filter fun indexed =>
        first ≤ indexed.1 ∧ indexed.1 ≤ limit
      (firstHolding predicate position.holding checked).bind fun
        | some index =>
          match decisionTime with
          | .atOpen => .ok (settle index .openAuction .firstCondition)
          | .atClose => .ok (settle index .closeAuction .firstCondition)
          | .clock minutes => .ok (settle index (.barClose minutes) .firstCondition)
          | .preOpen => .error (.value "invalid time 'pre_open'; expected HH:MM")
        | none =>
          if days.length ≤ entryIndex + count ∧ strategy.windowEnd = .unevaluable then
            .ok (.unevaluable "unevaluable_window_end")
          else .ok (settle limit fallback .firstConditionFallback)

end Data

section Simulation

/-- An order that was not taken up. -/
structure OrderOutcome where
  session : Date
  ticker : Ticker
  reason : String

/-- A trade with the account of its costs, dividends and returns. -/
structure Trade (Account : Type) where
  position : OpenPosition
  exit : Exit
  account : Account

/-- What the loop over the orders carries. -/
structure Book (Account : Type) where
  trades : List (Trade Account)
  rejected : List OrderOutcome
  unfilled : List OrderOutcome
  positions : List OpenPosition
  activeByDay : Nat → Nat
  heldThrough : Ticker → ℤ

def Book.initial {Account : Type} : Book Account := ⟨[], [], [], [], fun _ => 0, fun _ => -1⟩

/-- The index of an exit session, or of the last session before it. -/
def exitIndex (days : List Date) (exitSession : Date) : ℤ :=
  match days.idxOf? exitSession with
  | some index => index
  | none => (days.countP (· ≤ exitSession) : ℤ) - 1

/-- What is decided about one order. -/
inductive Decision where
  | rejected (reason : String)
  | unfilled (reason : String)
  | held (position : OpenPosition) (entryIndex : Nat)
  | traded (position : OpenPosition) (entryIndex : Nat) (exit : Exit)

variable {Account : Type} (strategy : EventStrategy) (source : PriceSource) (listed : Universe)
  (days : List Date)

/-- Whether the ticker has a usable close on every session of a span. -/
def completePath (ticker : Ticker) (entryIndex : Nat) (last : ℤ) : Bool :=
  days.zipIdx.all fun indexed =>
    ¬ (entryIndex ≤ indexed.2 ∧ (indexed.2 : ℤ) ≤ last) ∨
      source.present ticker indexed.1 ∧ (source.value ticker indexed.1 .close).any (0 ≤ ·)

/-- The decision about one order, given what was accepted before it. -/
def decideOrder (book : Book Account) (accepted decisionIndex : Nat) (session : Date)
    (order : Order) : Except StudyError Decision :=
  if ¬ isListed source listed order.ticker session then .ok (.rejected "not_in_universe")
  else if order.notional ≤ 0 then .ok (.rejected "non_positive_notional")
  else if ¬ validEntryTime strategy source order.entry then .ok (.rejected "invalid_fill_timing")
  else
  let entryIndex := decisionIndex + order.entry.delay
  match fillDay days decisionIndex order.entry with
  | none => .ok (.unfilled "entry_outside_window")
  | some entrySession =>
    if strategy.alreadyHeld = .reject ∧ (entryIndex : ℤ) ≤ book.heldThrough order.ticker then
      .ok (.rejected "already_held")
    else match (source.value order.ticker entrySession order.entry.field).filter (0 < ·) with
    | none => .ok (.unfilled "missing_entry_bar")
    | some entryPrice =>
      if strategy.maxNewPerSession ≤ accepted then .ok (.rejected "max_new_per_session")
      else if strategy.maxConcurrent ≤ book.activeByDay entryIndex then
        .ok (.rejected "max_concurrent")
      else
        let position : OpenPosition :=
          ⟨⟨order.ticker, order.side, entrySession, entryPrice, order.notional / entryPrice,
            order.notional⟩, order⟩
        (exit strategy source listed days position entryIndex).map fun
          | .unevaluable reason => .unfilled reason
          | .missing => .held position entryIndex
          | .found exit =>
            if strategy.requireCompletePath ∧
                ¬ completePath source days order.ticker entryIndex
                  (exitIndex days exit.session) then
              .unfilled "unevaluable_incomplete_path"
            else .traded position entryIndex exit

/-- One more position from a session on, to the end or to its exit. -/
def occupy (active : Nat → Nat) (entryIndex : Nat) (last : Option ℤ) : Nat → Nat :=
  fun index =>
    if entryIndex ≤ index ∧ ∀ exit ∈ last, (index : ℤ) ≤ exit then active index + 1
    else active index

variable (account : OpenPosition → Exit → Except StudyError Account)

/-- One order is taken up. -/
def takeOrder (decisionIndex : Nat) (session : Date) (state : Book Account × Nat)
    (order : Order) : Except StudyError (Book Account × Nat) :=
  let (book, accepted) := state
  (decideOrder strategy source listed days book accepted decisionIndex session order).bind fun
  | .rejected reason =>
    .ok ({ book with rejected := book.rejected ++ [⟨session, order.ticker, reason⟩] }, accepted)
  | .unfilled reason =>
    .ok ({ book with unfilled := book.unfilled ++ [⟨session, order.ticker, reason⟩] }, accepted)
  | .held position entryIndex =>
    .ok ({ book with
        positions := book.positions ++ [position]
        unfilled := book.unfilled ++ [⟨session, order.ticker, "missing_exit_bar"⟩]
        activeByDay := occupy book.activeByDay entryIndex none
        heldThrough := Function.update book.heldThrough order.ticker days.length },
      accepted + 1)
  | .traded position entryIndex exit =>
    (account position exit).map fun account =>
      ({ book with
          trades := book.trades ++ [⟨position, exit, account⟩]
          activeByDay := occupy book.activeByDay entryIndex (some (exitIndex days exit.session))
          heldThrough := Function.update book.heldThrough order.ticker
            (max (book.heldThrough order.ticker) (exitIndex days exit.session)) },
        accepted + 1)

/-- One decision session: its orders are taken up in the declared order. -/
def takeSession (book : Book Account) (decision : Date × Nat) :
    Except StudyError (Book Account) :=
  (strategy.orders decision.1).bind fun orders =>
  ((ordered orders strategy.orderSortKey).foldlM
    (takeOrder strategy source listed days account decision.2 decision.1) (book, 0)).map Prod.fst

/-- The result of a study. -/
structure TradeLedger (Account : Type) where
  days : List Date
  trades : List (Trade Account)
  rejected : List OrderOutcome
  unfilled : List OrderOutcome
  openPositions : List OpenPosition

def Trade.place (trade : Trade Account) : Date ×ₗ Ticker ×ₗ ℕ ×ₗ Date :=
  toLex (trade.position.holding.entrySession, toLex (trade.position.holding.ticker,
    toLex (trade.position.holding.side.rank, trade.exit.session)))

/-- Event orders turned into fills and a ledger of trades. -/
def simulateEvents (window : Window) : Except StudyError (TradeLedger Account) :=
  (sessions source window).bind fun days =>
  (days.zipIdx.foldlM (takeSession strategy source listed days account) .initial).map fun book =>
    { days
      trades := book.trades.insertionSort fun first second => first.place ≤ second.place
      rejected := book.rejected
      unfilled := book.unfilled
      openPositions := book.positions }

end Simulation

end TradingEngine.Study
