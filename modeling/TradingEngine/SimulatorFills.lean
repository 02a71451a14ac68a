import TradingEngine.BrokerSnapshots
import TradingEngine.HaltChains
import TradingEngine.KeyedTables

/-!
# Reading fills page by page

The simulator's adapter pages through the stored fills of one account by the id of their
order. A cursor is the execution identifier of the last fill of a page, which names its order.
A stored fill that does not match its order, or whose values are not those of a fill, makes
the page fail.

A snapshot reads one page after another until a page is not truncated. It asks an adapter that
may answer anything, and keep a state of its own.
-/

namespace TradingEngine.Broker

open KeyedTables

def ORDER_ID_PREFIX : List Char := ['s', 'i', 'm', '-', 'o', 'r', 'd', 'e', 'r', ':']

def EXECUTION_ID_PREFIX : List Char := ['s', 'i', 'm', '-', 'f', 'i', 'l', 'l', ':']

def MAX_SAFE_INTEGER : ℕ := 9007199254740991

/-- Read the number of an identifier: decimal digits without a leading zero after a stem. -/
def simulatorId (value : List Char) (stem : List Char) (label : String) : Except BrokerError ℕ :=
  let raw := value.drop stem.length
  if !stem.isPrefixOf value || raw.isEmpty || !raw.all Char.isDigit || raw.head? == some '0' then
    .error (.valueError (label ++ " is invalid"))
  else
    let identifier := Nat.ofDigitChars 10 raw 0
    if MAX_SAFE_INTEGER < identifier then .error (.valueError (label ++ " is invalid"))
    else .ok identifier

def brokerOrderIdText (orderId : ℕ) : List Char := ORDER_ID_PREFIX ++ Nat.toDigits 10 orderId

def executionIdText (orderId : ℕ) : List Char := EXECUTION_ID_PREFIX ++ Nat.toDigits 10 orderId

/-- A row of `sim_fills`. A value that is missing or not finite is none. -/
structure SimFill where
  orderId : Option ℤ
  portfolioId : Option String
  ticker : Option String
  side : Option String
  qty : Option ℚ
  fillDate : Option Int
  openPx : Option ℚ
  fillPx : Option ℚ
  costBps : Option ℚ

/-- What the fills read of a row of `sim_orders`. -/
structure SimOrder where
  portfolioId : Option String
  ticker : Option String
  side : Option String
  status : Option String

/-- The tables that the fills are read from. The keys of orders are none before the adapter
has made their table. -/
structure Simulator where
  portfolios : List String
  fills : List SimFill
  orders : Table ℤ SimOrder
  orderKeys : Option (Table ℤ String)

namespace Simulator

variable (simulator : Simulator)

/-- The number of stored fills of an order. -/
def fillCount (orderId : ℤ) : ℕ :=
  (simulator.fills.filter fun row => row.orderId = some orderId).length

def idempotencyKey (orderId : ℕ) : String :=
  let unkeyed := String.ofList (Nat.toDigits 10 orderId)
  match simulator.orderKeys with
  | none => unkeyed
  | some keys => (keys.lookup (orderId : ℤ)).getD unkeyed

end Simulator

def storedId (value : Option ℤ) (label : String) : Except BrokerError ℕ :=
  match value with
  | some id =>
    if id ≤ 0 ∨ (MAX_SAFE_INTEGER : ℤ) < id then
      .error (.stateError ("stored " ++ label ++ " is invalid"))
    else .ok id.toNat
  | none => .error (.stateError ("stored " ++ label ++ " is invalid"))

def storedSymbol (value : Option String) : Except BrokerError Symbol :=
  match value with
  | some text =>
    if valid : validSymbol text then .ok ⟨text, valid⟩
    else .error (.stateError "stored fill symbol is invalid")
  | none => .error (.stateError "stored fill symbol is invalid")

def storedSide (value : Option String) : Except BrokerError BrokerSide :=
  if value = some "buy" then .ok .buy
  else if value = some "sell" then .ok .sell
  else .error (.stateError "stored fill side is invalid")

def storedPositive (value : Option ℚ) (label : String) :
    Except BrokerError { number : ℚ // 0 < number } :=
  match value with
  | some number =>
    if positive : 0 < number then .ok ⟨number, positive⟩
    else .error (.stateError ("stored " ++ label ++ " is invalid"))
  | none => .error (.stateError ("stored " ++ label ++ " is invalid"))

def storedNonnegative (value : Option ℚ) (label : String) :
    Except BrokerError { number : ℚ // 0 ≤ number } :=
  match value with
  | some number =>
    if nonneg : 0 ≤ number then .ok ⟨number, nonneg⟩
    else .error (.stateError ("stored " ++ label ++ " is invalid"))
  | none => .error (.stateError ("stored " ++ label ++ " is invalid"))

def storedDate (value : Option Int) (label : String) : Except BrokerError Int :=
  match value with
  | some date => .ok date
  | none => .error (.stateError ("stored " ++ label ++ " is invalid"))

/-- Whether a stored fill is the only one of its order and agrees with it. -/
def Simulator.matchesOrder (simulator : Simulator) (accountId : Identifier) (row : SimFill)
    (orderId : ℕ) : Bool :=
  simulator.fillCount orderId == 1 && row.portfolioId == some accountId.text &&
    match simulator.orders.lookup (orderId : ℤ) with
    | none => false
    | some order => order.portfolioId == some accountId.text && row.ticker == order.ticker &&
        row.side == order.side && order.status == some "filled"

def Simulator.requireOrder (simulator : Simulator) (accountId : Identifier) (row : SimFill)
    (orderId : ℕ) : Except BrokerError Unit :=
  if simulator.matchesOrder accountId row orderId then .ok ()
  else .error (.stateError "stored fill does not match its simulator order")

/-- The fill that a stored row stands for. -/
def Simulator.fill (simulator : Simulator) (accountId : Identifier) (row : SimFill) :
    Except BrokerError BrokerFill := do
  let orderId ← storedId row.orderId "fill order identifier"
  simulator.requireOrder accountId row orderId
  let symbol ← storedSymbol row.ticker
  let side ← storedSide row.side
  let cost ← storedNonnegative row.costBps "fill total cost"
  let quantity ← storedPositive row.qty "fill quantity"
  let occurredOn ← storedDate row.fillDate "fill date"
  let reference ← storedPositive row.openPx "fill reference price"
  let price ← storedPositive row.fillPx "fill price"
  let executionId ← requireIdentifier (String.ofList (executionIdText orderId))
    "execution identifier"
  let brokerOrderId ← requireIdentifier (String.ofList (brokerOrderIdText orderId))
    "broker order identifier"
  let idempotencyKey ← requireIdentifier (simulator.idempotencyKey orderId) "idempotency key"
  return { executionId, brokerOrderId, idempotencyKey, accountId, symbol, side
           quantity := quantity, occurredOn, referencePrice := reference, price := price
           totalCostBps := cost, quantityPositive := quantity.2, referencePositive := reference.2
           pricePositive := price.2, costNonneg := cost.2 }

/-- The constructor of a page. -/
def makeBatch (fills : List BrokerFill) (nextCursor : Option Identifier) (truncated : Bool) :
    Except BrokerError FillBatch :=
  if bounded : fills.length ≤ MAX_FILL_BATCH then
    if continues : truncated = true → fills ≠ [] then
      .ok ⟨fills, nextCursor, truncated, bounded, continues⟩
    else .error (.valueError "truncated fill batch cannot be empty")
  else .error (.valueError "fill batch is invalid")

/-- The number of the order that a cursor names; without a cursor, zero. -/
def cursorId (after : Option Identifier) : Except BrokerError ℕ :=
  match after with
  | none => .ok 0
  | some cursor => simulatorId cursor.text.toList EXECUTION_ID_PREFIX "fill cursor"

/-- Whether a stored fill belongs to an account and comes after an order. -/
def SimFill.after (row : SimFill) (accountId : Identifier) (orderId : ℕ) : Bool :=
  row.portfolioId == some accountId.text && row.orderId.any fun id => decide ((orderId : ℤ) < id)

def Simulator.rowsAfter (simulator : Simulator) (accountId : Identifier) (orderId : ℕ) :
    List SimFill :=
  (simulator.fills.insertionSort fun first second =>
    first.orderId.getD 0 ≤ second.orderId.getD 0).filter fun row => row.after accountId orderId

/-- The identifier of the last fill of a page, or the cursor before an empty one. -/
def nextCursor (fills : List BrokerFill) (after : Option Identifier) : Option Identifier :=
  match fills.getLast? with
  | some last => some last.executionId
  | none => after

/-- An account that is not there has an exception of its own. -/
def Simulator.requireAccount (simulator : Simulator) (accountId : Identifier) :
    Except BrokerError Unit :=
  if accountId.text ∈ simulator.portfolios then .ok () else .error .adapterRaised

def requireLimit (limit : ℕ) : Except BrokerError Unit :=
  if 1 ≤ limit ∧ limit ≤ MAX_FILL_BATCH then .ok ()
  else .error (.valueError "fill limit must be from 1 through 500")

def Simulator.streamFills (simulator : Simulator) (accountId : Identifier)
    (after : Option Identifier) (limit : ℕ) : Except BrokerError FillBatch := do
  simulator.requireAccount accountId
  requireLimit limit
  let afterId ← cursorId after
  let rows := (simulator.rowsAfter accountId afterId).take (limit + 1)
  let fills ← (rows.take limit).mapM (simulator.fill accountId)
  makeBatch fills (nextCursor fills after) (decide (limit < rows.length))

/-- An adapter's stream of fills. It may keep a state, raise, or answer with something that is
no page. -/
abbrev FillStream (σ : Type*) :=
  σ → Option Identifier → ℕ → Except BrokerError (Option FillBatch) × σ

/-- What a snapshot has read. -/
structure Reading where
  fills : List BrokerFill
  cursor : Option Identifier
  seenCursors : List Identifier

/-- One turn of the loop finishes it or goes on. -/
inductive Turn (σ : Type*) where
  | finished (result : Except BrokerError (List BrokerFill))
  | onward (state : σ) (reading : Reading)

/-- Read one page. -/
def captureTurn {σ : Type*} (stream : FillStream σ) (pageSize maxFills : ℕ) (state : σ)
    (reading : Reading) : Turn σ :=
  if maxFills ≤ reading.fills.length then
    .finished (.error (.stateError "adapter fill history exceeds reconciliation limit"))
  else
    match stream state reading.cursor (min pageSize (maxFills - reading.fills.length)) with
    | (.error error, _) => .finished (.error error)
    | (.ok none, _) => .finished (.error (.stateError "adapter fill batch is invalid"))
    | (.ok (some batch), state) =>
      let fills := reading.fills ++ batch.fills
      if maxFills < fills.length then
        .finished (.error (.stateError "adapter fill history exceeds reconciliation limit"))
      else if batch.truncated = false then .finished (.ok fills)
      else
        match batch.nextCursor with
        | none => .finished (.error (.stateError "adapter fill cursor did not advance"))
        | some next =>
          if reading.cursor = some next ∨ next ∈ reading.seenCursors ∨ batch.fills = [] then
            .finished (.error (.stateError "adapter fill cursor did not advance"))
          else .onward state ⟨fills, some next, next :: reading.seenCursors⟩

/-- Read pages until one is not truncated. Without fuel there is no result. -/
def captureFuel {σ : Type*} (stream : FillStream σ) (pageSize maxFills : ℕ) :
    ℕ → σ → Reading → Option (Except BrokerError (List BrokerFill))
  | 0, _, _ => none
  | fuel + 1, state, reading =>
    match captureTurn stream pageSize maxFills state reading with
    | .finished result => some result
    | .onward state reading => captureFuel stream pageSize maxFills fuel state reading

/-- The simulator as an adapter. Its tables do not change while they are read. -/
def Simulator.stream (simulator : Simulator) (accountId : Identifier) : FillStream Unit :=
  fun state after limit => ((simulator.streamFills accountId after limit).map some, state)

end TradingEngine.Broker
