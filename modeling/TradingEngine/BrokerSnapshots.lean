import TradingEngine.BrokerContract

/-!
# Stable snapshots

One account read twice through an adapter. A reading is refused when it mixes
accounts, repeats an identifier or does not end; what remains is listed in a fixed
order, and two readings must agree. Adapter answers of another type, and adapters
that raise, are covered by the caller: they yield no reading.
-/

namespace TradingEngine.Broker

def MAX_SNAPSHOT_FILLS : Nat := 10000

/-- A bounded page of fill observations. -/
structure FillBatch where
  fills : List BrokerFill
  nextCursor : Option Identifier
  truncated : Bool
  bounded : fills.length ≤ MAX_FILL_BATCH
  continues : truncated = true → fills ≠ []

/-- What an adapter answers during one read: account, positions, open orders and one
fill batch after another. -/
structure AccountReading where
  account : BrokerAccount
  positions : List BrokerPosition
  openOrders : List BrokerOrder
  batches : List FillBatch

structure BrokerSnapshot where
  account : BrokerAccount
  positions : List BrokerPosition
  openOrders : List BrokerOrder
  fills : List BrokerFill
  deriving DecidableEq

/-- Collect batches until one is not truncated. A batch that never comes is an adapter
that raised. -/
def captureFills (maxFills : Nat) : List FillBatch → List BrokerFill → Option Identifier →
    List Identifier → Except BrokerError (List BrokerFill)
  | batches, fills, cursor, seenCursors =>
    if maxFills ≤ fills.length then
      .error (.stateError "adapter fill history exceeds reconciliation limit")
    else
      match batches with
      | [] => .error .adapterRaised
      | batch :: later =>
        let fills := fills ++ batch.fills
        if maxFills < fills.length then
          .error (.stateError "adapter fill history exceeds reconciliation limit")
        else if batch.truncated = false then .ok fills
        else
          match batch.nextCursor with
          | none => .error (.stateError "adapter fill cursor did not advance")
          | some next =>
            if cursor = some next ∨ next ∈ seenCursors ∨ batch.fills = [] then
              .error (.stateError "adapter fill cursor did not advance")
            else captureFills maxFills later fills (some next) (next :: seenCursors)

/-- Read one complete, bounded adapter state. -/
def captureOnce (accountId : Identifier) (reading : AccountReading) :
    Except BrokerError BrokerSnapshot :=
  if reading.account.accountId ≠ accountId then
    .error (.stateError "adapter returned a different account")
  else if MAX_ACCOUNT_ROWS < reading.positions.length then
    .error (.stateError "adapter position collection is invalid")
  else if MAX_ACCOUNT_ROWS < reading.openOrders.length ∨
      ∃ order ∈ reading.openOrders, order.status.stands = false then
    .error (.stateError "adapter open-order collection is invalid")
  else
    (captureFills MAX_SNAPSHOT_FILLS reading.batches [] none []).bind fun fills =>
    if (∃ item ∈ reading.positions, item.accountId ≠ accountId) ∨
        (∃ item ∈ reading.openOrders, item.accountId ≠ accountId) ∨
        (∃ item ∈ fills, item.accountId ≠ accountId) then
      .error (.stateError "adapter returned state from another account")
    else if ¬ (reading.positions.map (·.symbol)).Nodup then
      .error (.stateError "adapter returned duplicate position symbols")
    else if ¬ (reading.openOrders.map (·.idempotencyKey)).Nodup then
      .error (.stateError "adapter returned duplicate open-order idempotency keys")
    else if ¬ (reading.openOrders.map (·.brokerOrderId)).Nodup then
      .error (.stateError "adapter returned duplicate open-order identifiers")
    else if ¬ (fills.map (·.executionId)).Nodup then
      .error (.stateError "adapter returned duplicate execution identifiers")
    else
      .ok
        { account := reading.account
          positions := reading.positions.mergeSort fun a b => a.symbol.text ≤ b.symbol.text
          openOrders := reading.openOrders.mergeSort fun a b =>
            a.idempotencyKey.text ≤ b.idempotencyKey.text
          fills := fills.mergeSort BrokerFill.listedBefore }

/-- Capture stable state or fail if it changes across the bounded read. -/
def captureSnapshot (accountId : Identifier) (first second : AccountReading) :
    Except BrokerError BrokerSnapshot :=
  (captureOnce accountId first).bind fun before =>
  (captureOnce accountId second).bind fun after =>
  if before ≠ after then .error (.stateError "adapter state changed during snapshot capture")
  else .ok after

end TradingEngine.Broker
