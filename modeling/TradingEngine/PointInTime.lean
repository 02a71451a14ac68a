import TradingEngine.Runs

/-!
# Point-in-time views

A source holds the bars and dividends of a declared set of prices; studies bring
derived inputs of their own. A view is taken at a decision moment of a session. It
answers questions about fields, histories, derived inputs and dividends, and raises
where the answer was not available at the decision moment.

When a value became available depends on its kind: an open at the session's open, the
fields of a daily bar at the close and the lag of the daily bars, funding at its own
time, the close of an intraday bar at its clock, a derived row and a dividend at the
time that the row names. Sessions are day numbers, clocks are minutes, and a moment of
a session is a parameter of the declaration. A missing number has no value.
-/

namespace TradingEngine.PointInTime

open Runs

abbrev Date := Int
abbrev Instant := Int
abbrev Ticker := String

inductive ViewError where
  | lookAhead (reason : String)
  | keyError (key : String)
  | valueError (reason : String)

inductive DailyField where
  | high | low | close | volume | auctionVolume
  deriving DecidableEq

/-- A field of a bar. -/
inductive BarField where
  | open_
  | daily (field : DailyField)
  | funding
  | barClose (at_ : Nat)
  deriving DecidableEq

/-- What a study asks for: a field of a bar, a column of a derived input, or a name that
is neither. -/
inductive Field where
  | bar (field : BarField)
  | derived (name column : String)
  | other (name : String)

structure Bar where
  ticker : Ticker
  session : Date
  open_ : Option ℚ
  daily : DailyField → Option ℚ
  funding : Option ℚ
  fundingAt : Option Instant
  intradayCloses : List (Nat × Option ℚ)

/-- A field of a bar. A clock that the bar does not carry has no value. -/
def Bar.read (bar : Bar) : BarField → Option ℚ
  | .open_ => bar.open_
  | .daily field => bar.daily field
  | .funding => bar.funding
  | .barClose at_ => (bar.intradayCloses.lookup at_).join

/-- A bar carries the close of an intraday bar only for its own clocks. -/
def Bar.carries (bar : Bar) : BarField → Bool
  | .barClose at_ => (bar.intradayCloses.lookup at_).isSome
  | _ => true

structure Declaration where
  localMoment : Date → Nat → Instant
  sessionOpen : Nat
  sessionClose : Nat
  dailyBarLag : Instant

structure Dividend where
  ticker : Ticker
  exDate : Date
  cashAmount : ℚ
  availableAt : Instant

/-- One declared, immutable set of bars, in order of their sessions, and dividends. -/
structure PriceSource where
  declaration : Declaration
  sessions : List Date
  bars : List Bar
  dividends : List Dividend
  ordered : sessions.Pairwise (· < ·)
  dated : ∀ bar ∈ bars, bar.session ∈ sessions
  oneBar : bars.Pairwise fun first second =>
    (first.ticker, first.session) ≠ (second.ticker, second.session)
  inOrder : dividends.Pairwise fun first second =>
    (toLex (first.exDate, first.ticker) : Date ×ₗ Ticker) < toLex (second.exDate, second.ticker)

variable {Value : Type}

/-- A record of a study: its key, when it became available, and its other columns. -/
structure DerivedRow (Value : Type) where
  ticker : Option Ticker
  session : Date
  availableAt : Instant
  columns : String → Option Value

/-- Records of a study, either all by session or all by ticker and session. -/
structure DerivedInput (Value : Type) where
  name : String
  availableAtColumn : String
  rows : List (DerivedRow Value)
  keyedByTicker : Bool
  uniform : ∀ row ∈ rows, row.ticker.isSome = keyedByTicker
  oneRow : rows.Pairwise fun first second =>
    (first.ticker, first.session) ≠ (second.ticker, second.session)

/-- What a study sees: a source, and derived inputs of distinct names. -/
structure MarketData (Value : Type) where
  source : PriceSource
  derivedInputs : List (DerivedInput Value)
  distinct : (derivedInputs.map DerivedInput.name).Nodup

inductive DecisionTime where
  | preOpen | atOpen | atClose
  | clock (minutes : Nat)
  deriving DecidableEq

def decisionMoment (session : Date) (decisionTime : DecisionTime) (declaration : Declaration) :
    Instant :=
  match decisionTime with
  | .preOpen => declaration.localMoment session declaration.sessionOpen - 1
  | .atOpen => declaration.localMoment session declaration.sessionOpen
  | .atClose => declaration.localMoment session declaration.sessionClose
  | .clock minutes => declaration.localMoment session minutes

/-- The decision that a view is taken at. -/
structure Decision where
  session : Date
  decisionTime : DecisionTime
  hardMaxDate : Date
  openAsIndication : Bool
  within_ : session ≤ hardMaxDate

section Panel

variable (source : PriceSource)

/-- The bar of a ticker on a session. -/
def PriceSource.get (ticker : Ticker) (session : Date) : Option Bar :=
  source.bars.find? fun bar => bar.ticker = ticker ∧ bar.session = session

/-- Whether the source has a bar of a ticker on a session. -/
def PriceSource.present (ticker : Ticker) (session : Date) : Bool :=
  (source.get ticker session).isSome

/-- A field that the panel stores: an intraday clock only if some bar carries it. -/
def PriceSource.stores (field : BarField) : Bool :=
  match field with
  | .barClose _ => source.bars.any fun bar => bar.carries field
  | _ => true

def PriceSource.value (ticker : Ticker) (session : Date) (field : BarField) :
    Except ViewError (Option ℚ) :=
  match source.get ticker session with
  | none => .ok none
  | some bar => if source.stores field then .ok (bar.read field) else .error (.keyError "field")

/-- When a field of a bar became available. -/
def available (declaration : Declaration) (bar : Bar) : BarField → Instant
  | .open_ => declaration.localMoment bar.session declaration.sessionOpen
  | .daily _ =>
    declaration.localMoment bar.session declaration.sessionClose + declaration.dailyBarLag
  | .funding => bar.fundingAt.getD
    (declaration.localMoment bar.session declaration.sessionClose + declaration.dailyBarLag)
  | .barClose at_ => declaration.localMoment bar.session at_

end Panel

/-- The last rows of a list, as a slice from a negated limit takes them. -/
def lastSlice (limit : Int) (days : List Date) : List Date :=
  if 0 < limit then days.drop (days.length - limit.toNat) else days.drop (-limit).toNat

/-- What a view reads: a number of a bar or a value of a derived row. -/
inductive Reading (Value : Type) where
  | number (value : Option ℚ)
  | derived (value : Value)

/-- A row of a history. -/
structure HistoryRow (Value : Type) where
  session : Date
  values : List (Field × Reading Value)

section Views

variable (data : MarketData Value) (decision : Decision)

def decisionAt : Instant :=
  decisionMoment decision.session decision.decisionTime data.source.declaration

/-- A target beyond the session of the view or beyond the data that a run may see. -/
def beyond (target : Date) : Bool := decision.hardMaxDate < target ∨ decision.session < target

/-- The row of a derived input, as a ticker and a session name it. -/
def DerivedInput.get (input : DerivedInput Value) (session : Date) (ticker : Option Ticker) :
    Except ViewError (Option (DerivedRow Value)) :=
  if input.keyedByTicker ∧ ticker.all (· = "") then
    .error (.valueError "derived input is keyed by ticker")
  else
    let key := if input.keyedByTicker then ticker else none
    .ok (input.rows.find? fun row => row.ticker = key ∧ row.session = session)

def derived (name column : String) (session : Option Date) (ticker : Option Ticker) :
    Except ViewError Value :=
  let target := session.getD decision.session
  if beyond decision target then .error (.lookAhead "derived input is beyond the view boundary")
  else
    match data.derivedInputs.find? fun input => input.name = name with
    | none => .error (.keyError name)
    | some input =>
      (input.get target ticker).bind fun
        | none => .error (.keyError name)
        | some row =>
          if decisionAt data decision < row.availableAt then
            .error (.lookAhead "derived input is not known at decision time")
          else if column = "session" ∨ column = "ticker" ∨ column = input.availableAtColumn then
            .error (.keyError column)
          else match row.columns column with
            | none => .error (.keyError column)
            | some value => .ok value

/-- A field of a bar. The official open is no information at the open itself, unless it is
taken as an indication. -/
def barValue (ticker : Ticker) (field : BarField) (target : Date) :
    Except ViewError (Option ℚ) :=
  match data.source.get ticker target with
  | none => .error (.keyError ticker)
  | some bar =>
    if field = .open_ ∧ target = decision.session ∧ decision.decisionTime = .atOpen ∧
        ¬ decision.openAsIndication then
      .error (.lookAhead "official open at at_open requires open_as_indication=True")
    else
      (data.source.value ticker target field).bind fun value =>
        if decisionAt data decision < available data.source.declaration bar field then
          .error (.lookAhead "field is not known at decision time")
        else .ok value

def value (ticker : Ticker) (field : Field) (session : Option Date) :
    Except ViewError (Reading Value) :=
  let target := session.getD decision.session
  if beyond decision target then .error (.lookAhead "field is beyond the view boundary")
  else match field with
    | .derived name column =>
      (derived data decision name column (some target) (some ticker)).map .derived
    | .bar field => (barValue data decision ticker field target).map .number
    | .other name => .error (.keyError name)

/-- Whether a history is asked for a derived column. -/
def Field.isDerived : Field → Bool
  | .derived _ _ => true
  | _ => false

/-- The sessions that a history spans, whether or not they have bars. -/
def span (fields : List Field) (before : Option Date) (limit : Option Int) : List Date :=
  let cutoff := before.getD (decision.session + 1)
  if fields.any Field.isDerived then
    let days := data.source.sessions.filter fun day => day < cutoff ∧ day ≤ decision.session
    match limit with
    | none => days
    | some limit => lastSlice limit days
  else
    let stop := min (data.source.sessions.countP (· < cutoff))
      (data.source.sessions.countP (· ≤ decision.session))
    let start := match limit with
      | none => 0
      | some limit => ((stop : Int) - limit).toNat
    (data.source.sessions.take stop).drop start

/-- A row with the values that the view reads. -/
def viewRow (ticker : Ticker) (fields : List Field) (day : Date) :
    Except ViewError (HistoryRow Value) :=
  (fields.mapM fun field =>
    (value data decision ticker field (some day)).map fun reading => (field, reading)).map
      fun values => ⟨day, values⟩

/-- A row with the values that the panel stores. -/
def panelRow (ticker : Ticker) (fields : List Field) (day : Date) :
    Except ViewError (HistoryRow Value) :=
  (fields.mapM fun (field : Field) => match field with
    | .bar column => (data.source.value ticker day column).map fun number =>
        (field, Reading.number number)
    | _ => .error (.keyError "field")).map fun values => ⟨day, values⟩

/-- The history of a ticker: read from the view where a column is derived, and otherwise
read from the panel and checked field by field afterwards. -/
def history (ticker : Ticker) (fields : List Field) (before : Option Date) (limit : Option Int) :
    Except ViewError (List (HistoryRow Value)) :=
  let days := (span data decision fields before limit).filter (data.source.present ticker)
  if fields.any Field.isDerived then days.mapM (viewRow data decision ticker fields)
  else
    (days.mapM (panelRow data ticker fields)).bind fun rows =>
      (rows.mapM fun row => fields.mapM fun field =>
        value data decision ticker field (some row.session)).map fun _ => rows

def dividendRows (ticker : Ticker) (after through : Date) : Except ViewError (List Dividend) :=
  if beyond decision through then .error (.lookAhead "dividends are beyond the view boundary")
  else
    let rows := data.source.dividends.filter fun row =>
      row.ticker = ticker ∧ after < row.exDate ∧ row.exDate ≤ through
    if rows.any fun row => decisionAt data decision < row.availableAt then
      .error (.lookAhead "dividend is not known at decision time")
    else .ok rows

end Views

/-- A question to a view. -/
inductive Call where
  | value (ticker : Ticker) (field : Field) (session : Option Date)
  | history (ticker : Ticker) (fields : List Field) (before : Option Date) (limit : Option Int)
  | derived (name column : String) (session : Option Date) (ticker : Option Ticker)
  | dividendRows (ticker : Ticker) (after through : Date)

inductive Answer (Value : Type) where
  | reading (value : Reading Value)
  | rows (rows : List (HistoryRow Value))
  | dividends (rows : List Dividend)

def answer (data : MarketData Value) (decision : Decision) :
    Call → Except ViewError (Answer Value)
  | .value ticker field session => (value data decision ticker field session).map .reading
  | .history ticker fields before limit =>
    (history data decision ticker fields before limit).map .rows
  | .derived name column session ticker =>
    (derived data decision name column session ticker).map fun value => .reading (.derived value)
  | .dividendRows ticker after through =>
    (dividendRows data decision ticker after through).map .dividends

end TradingEngine.PointInTime
