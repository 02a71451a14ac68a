import TradingEngine.AccountService

/-!
# The preview of a day trade

Before an account fill, the lots that a close would take are matched without being consumed,
and the close is said to create a day trade if one of them was opened in its session. The
executor matches again, consumes the lots and records the first one of the session. Both
walk the same queue, and consuming a lot changes only what is stored, not what is taken.
-/

namespace TradingEngine.Accounts

open KeyedTables OrderTypes Nyse Ledger Costs Fills

variable {zone : Zone}

/-- Preview the executor's close: the opening order of the day trade that it would create. -/
def matchedDayTradeOpen (account : Account) (ticker : Ticker) (side : Side) (qty : ℚ)
    (sessionDate : Int) : Option OrderId :=
  if side.closing then
    ((matchLots account.ledger.times account.book.lots ticker qty (side = .cover) false).1.find?
      fun lot => lot.openedSession = sessionDate).map MatchedLot.openOrderId
  else none

/-- The whole answer of the day-trading rule. -/
structure PdtReport where
  allowed : Bool
  reason : Option Reason
  createsDayTrade : Bool
  count : Nat
  rule : DayTradeRule

/-- The rule's answer before a fill, with what it observed. -/
def pdtReport (market : Market zone) (account : Account) (ticker : Ticker) (side : Side) (qty : ℚ)
    (sessionDate : Int) (price : ℚ) (asOf availableAt : Option Int) :
    Except AccountError PdtReport := do
  let checked ← pdtCheck market account ticker side qty sessionDate price asOf availableAt
  .ok ⟨checked.refusal.isNone, checked.refusal,
    (matchedDayTradeOpen account ticker side qty sessionDate).isSome,
    trailingDayTrades account sessionDate, account.settings.dayTradeRule⟩

/-- What a walk takes does not depend on whether it consumes, nor on what is stored. -/
theorem matchLoop_taken (ticker : Ticker) (closingShort : Bool) (queue : List (OrderId × Lot))
    (remaining : ℚ) (lots other : Lots) :
    (matchLoop ticker closingShort true queue remaining lots).1 =
      (matchLoop ticker closingShort false queue remaining other).1 := by
  induction queue generalizing remaining lots other with
  | nil => rfl
  | cons row rest ih =>
    simp only [matchLoop]
    split
    · rfl
    · rw [ih]

theorem matchLots_taken (times : FillTimes) (lots : Lots) (ticker : Ticker) (qty : ℚ)
    (closingShort : Bool) :
    (matchLots times lots ticker qty closingShort true).1 =
      (matchLots times lots ticker qty closingShort false).1 := by
  unfold matchLots
  split
  · rfl
  · exact matchLoop_taken ticker closingShort _ qty lots lots

/-- A close of no more than the holding trades its own quantity. -/
theorem fillQty_close {settings : LedgerSettings} {book : Book} {fill : Fill} {fees : Option Fees}
    {qty : ℚ} (closing : fill.side.closing = true)
    (within : fill.qty ≤ |(book.position fill.ticker).qty|)
    (quantity : fillQty settings book fill fees = .ok (some qty)) : qty = fill.qty := by
  unfold fillQty at quantity
  dsimp only at quantity
  split at quantity
  · cases quantity
  · cases quantity
  · unfold tradedQty at quantity
    cases side : fill.side with
    | buy => simp [side, Side.closing] at closing
    | short => simp [side, Side.closing] at closing
    | sell =>
      simp only [side] at quantity
      split at quantity
      · cases quantity
      · rename_i held
        rw [abs_of_pos (not_le.mp held)] at within
        simpa [min_eq_left within] using quantity.symm
    | cover =>
      simp only [side] at quantity
      split at quantity
      · cases quantity
      · simpa [min_eq_left within] using quantity.symm

/-- The day trades after an accepted close: what the preview found is added. -/
theorem applyFill_close {account : Account} {fill : Fill} {fees : Option Fees} {applied : Applied}
    {orderId : OrderId} {session : Int} (closing : fill.side.closing = true)
    (origin : fill.origin = some (orderId, session))
    (within : fill.qty ≤ |(account.book.position fill.ticker).qty|)
    (filled : applyFill account.ledgerSettings account.ledger.times account.book fill fees =
      .ok applied) (accepted : 0 < applied.qty) :
    applied.book.dayTrades = account.book.dayTrades ++
      (matchedDayTradeOpen account fill.ticker fill.side fill.qty session).toList.map
        fun opened => ⟨session, fill.ticker, opened, orderId⟩ := by
  rcases applyFill_cases filled with ⟨_, rfl⟩ | ⟨qty, lots, trades, closes, quantity, moved, rfl⟩
  · exact absurd accepted (lt_irrefl 0)
  · obtain rfl := fillQty_close closing within quantity
    change trades = _
    unfold moveLots at moved
    rw [if_pos closing] at moved
    rw [matchedDayTradeOpen, if_pos closing, ← matchLots_taken]
    generalize matchLots account.ledger.times account.book.lots fill.ticker fill.qty
      (fill.side = .cover) true = match' at moved ⊢
    obtain ⟨matched, left⟩ := match'
    cases moved
    unfold recordDayTrade
    rw [origin]
    dsimp only
    split
    · rename_i absent
      rw [absent, Option.map_none, Option.toList_none, List.map_nil, List.append_nil]
    · rename_i lot found
      have engine : account.ledgerSettings.engine = Engine.account := rfl
      rw [if_pos engine, found]
      rfl

/-- The preview of an accepted close finds an opening order exactly if the executor records
a day trade, and the recorded one has that order. -/
theorem dayTradePreview_exact {account : Account} {fill : Fill} {fees : Option Fees}
    {applied : Applied} {orderId : OrderId} {session : Int} (closing : fill.side.closing = true)
    (origin : fill.origin = some (orderId, session))
    (within : fill.qty ≤ |(account.book.position fill.ticker).qty|)
    (filled : applyFill account.ledgerSettings account.ledger.times account.book fill fees =
      .ok applied) (accepted : 0 < applied.qty) :
    (∀ opened, matchedDayTradeOpen account fill.ticker fill.side fill.qty session = some opened ↔
      applied.book.dayTrades =
        account.book.dayTrades ++ [⟨session, fill.ticker, opened, orderId⟩]) ∧
    (matchedDayTradeOpen account fill.ticker fill.side fill.qty session = none ↔
      applied.book.dayTrades = account.book.dayTrades) ∧
    ∀ (market : Market zone) (price : ℚ) (asOf availableAt : Option Int) (report : PdtReport),
      pdtReport market account fill.ticker fill.side fill.qty session price asOf availableAt =
        .ok report →
      (report.createsDayTrade = true ↔ ∃ opened, applied.book.dayTrades =
        account.book.dayTrades ++ [⟨session, fill.ticker, opened, orderId⟩]) := by
  have recorded := applyFill_close closing origin within filled accepted
  have exact : ∀ opened,
      matchedDayTradeOpen account fill.ticker fill.side fill.qty session = some opened ↔
        applied.book.dayTrades =
          account.book.dayTrades ++ [⟨session, fill.ticker, opened, orderId⟩] := by
    intro opened
    rw [recorded, List.append_cancel_left_eq]
    cases matchedDayTradeOpen account fill.ticker fill.side fill.qty session with
    | none => simp
    | some other => simp
  refine ⟨exact, ?_, fun market price asOf availableAt report reported => ?_⟩
  · rw [recorded, List.append_right_eq_self]
    cases matchedDayTradeOpen account fill.ticker fill.side fill.qty session with
    | none => simp
    | some other => simp
  · obtain ⟨checked, -, rfl⟩ : ∃ checked, pdtCheck market account fill.ticker fill.side fill.qty
        session price asOf availableAt = .ok checked ∧
        report = ⟨checked.refusal.isNone, checked.refusal,
          (matchedDayTradeOpen account fill.ticker fill.side fill.qty session).isSome,
          trailingDayTrades account session, account.settings.dayTradeRule⟩ := by
      unfold pdtReport at reported
      cases looked : pdtCheck market account fill.ticker fill.side fill.qty session price asOf
          availableAt with
      | error raised =>
        rw [looked] at reported
        contradiction
      | ok checked =>
        rw [looked] at reported
        exact ⟨checked, rfl, (Except.ok.inj reported).symm⟩
    simp only [Option.isSome_iff_exists, exact]

/-- A margin account that bought in the session in which it sells. -/
def dayTrader : Account :=
  { sampleAccount with
    settings := { sampleAccount.settings with accountType := .margin, status := .active }
    book := ⟨1000, (∅ : Table Ticker Position).insert "XYZ" ⟨10, 50⟩,
      (∅ : Lots).insert ("XYZ", 7) ⟨739769, 10, 50⟩, []⟩ }

def halfSold : Fill := ⟨some (8, 739769), "XYZ", .sell, 5, 60, 1⟩

theorem halfSold_applies : ∃ applied, applyFill dayTrader.ledgerSettings dayTrader.ledger.times
    dayTrader.book halfSold none = .ok applied ∧ 0 < applied.qty := by
  have ran : (applyFill dayTrader.ledgerSettings dayTrader.ledger.times dayTrader.book halfSold
      none).map Applied.qty = .ok 5 := by
    decide +kernel
  cases filled : applyFill dayTrader.ledgerSettings dayTrader.ledger.times dayTrader.book halfSold
      none with
  | error raised =>
    rw [filled] at ran
    cases ran
  | ok applied =>
    rw [filled] at ran
    have sold : applied.qty = 5 := Except.ok.inj ran
    exact ⟨applied, rfl, sold ▸ by norm_num⟩

theorem halfSold_previewed : matchedDayTradeOpen dayTrader "XYZ" .sell 5 739769 = some 7 ∧
    ∃ applied, applyFill dayTrader.ledgerSettings dayTrader.ledger.times dayTrader.book halfSold
      none = .ok applied ∧ applied.book.dayTrades = [⟨739769, "XYZ", 7, 8⟩] := by
  obtain ⟨applied, filled, accepted⟩ := halfSold_applies
  have found : matchedDayTradeOpen dayTrader "XYZ" .sell 5 739769 = some 7 := by decide +kernel
  have within : halfSold.qty ≤ |(dayTrader.book.position halfSold.ticker).qty| := by
    decide +kernel
  exact ⟨found, applied, filled, ((@dayTradePreview_exact daylightTime _ _ _ _ _ _ rfl rfl within
    filled accepted).1 7).mp found⟩

end TradingEngine.Accounts
