import TradingEngine.OrderFlow
import TradingEngine.LotCarry

/-!
# Stopped accounts only shrink

In a halted or retiring account an ordinary order is stopped before its fill is
looked at. What is left are the engine's own reductions: buy-ins, margin calls and
liquidations. These close a position, they were queued as closes, and a close
never takes more than the position holds.
-/

namespace TradingEngine.Accounts

open KeyedTables OrderTypes Nyse Ledger Costs Fills Runs

variable {zone : Zone}

/-- A pending row that the engine queued itself closes a position. -/
def Order.ClosesWhenForced (order : Order) : Prop :=
  ∀ details, order.details = some details → order.status = .pending → details.state = .queued →
    details.stateReason.any Reason.forces = true → order.side.closing = true

theorem Write.closesWhenForced {order next : Order} (write : Write false order next)
    (closes : order.ClosesWhenForced) : next.ClosesWhenForced := by
  cases write with
  | @settled closed reason stateAt queued ends =>
    intro details _ pending
    rcases ends with rfl | rfl | rfl <;> simp [Order.withState, settledStatus] at pending
  | @waited row stateAt queued stored =>
    intro details kept pending state forced
    simp only [Order.withState, stored, Option.map_some, Option.some.injEq] at kept
    subst kept
    rw [waitingReasons_forces] at forced
    obtain ⟨open', _, found, isQueued⟩ := queued
    obtain rfl := Option.some.inj (stored.symm.trans found)
    exact closes row stored open' isQueued forced
  | cancelled reason stateAt pending =>
    intro details _ open'
    simp [Order.cancel] at open'
  | lapsed reason stateAt queued =>
    intro details _ open'
    simp [Order.withState, settledStatus] at open'
  | stale reason pending =>
    intro details _ open'
    simp at open'
  | swept ticker effective now planned id =>
    intro details kept open' state forced
    unfold settleCancel at kept open'
    dsimp only at kept open'
    split at open'
    · cases open'
    · obtain ⟨row, stored, rfl⟩ := Option.map_eq_some_iff.mp kept
      split at state
      · cases state
      · rename_i untouched
        rw [if_neg untouched] at forced
        exact closes row stored open' state forced

theorem NewOrder.closesWhenForced {intake : Bool} {order : Order} (new : NewOrder intake order) :
    order.ClosesWhenForced := by
  cases new with
  | forced ticker side qty orderType unlimited sessionDate receivedAt reason closing =>
    intro _ _ _ _ _
    exact closing
  | entered =>
    intro details stored _ _ forced
    cases stored
    simp at forced

/-- Every pending row that the engine queued itself closes a position. -/
def ForcedOrdersClose (orders : Table OrderId Order) : Prop :=
  ∀ id order, orders.lookup id = some order → order.ClosesWhenForced

theorem forcedOrdersClose_lawful : OrderLaw false true ForcedOrdersClose :=
  .everyRow (fun _ _ => Write.closesWhenForced) fun _ => NewOrder.closesWhenForced

variable {account : Account}

theorem preflight_stopped {world : World zone} {session : Session}
    {row : PendingRow} {qty : ℚ}
    (stopped : session.settings.status = .halted ∨ session.settings.status = .retiring)
    (ready : preflight world session account row = .go qty) : isForced row = true := by
  by_contra ordinary
  unfold preflight at ready
  split at ready
  · cases ready
  · split at ready
    · cases ready
    · rcases stopped with status | status <;> simp [status, stopReason] at ready

/-- A fill that brings a position closer to zero and not past it. -/
def Shrinks (side : Side) (before after : ℚ) : Prop :=
  (side = .sell ∧ 0 < before ∧ 0 ≤ after ∧ after < before) ∨
    (side = .cover ∧ before < 0 ∧ after ≤ 0 ∧ before < after)

/-- A shrinking fill has a smaller absolute position. -/
theorem Shrinks.abs {side : Side} {before after : ℚ} (shrinks : Shrinks side before after) :
    |after| < |before| := by
  rcases shrinks with ⟨_, long, nonneg, less⟩ | ⟨_, short, nonpos, less⟩
  · rw [abs_of_nonneg nonneg, abs_of_pos long]
    exact less
  · rw [abs_of_nonpos nonpos, abs_of_neg short]
    linarith

/-- A closing fill shrinks the position that it meets. -/
theorem applyFill_shrinks {settings : LedgerSettings} {times : FillTimes} {book : Book}
    {fill : Fill} {fees : Option Fees} {applied : Applied} (closing : fill.side.closing = true)
    (traded : 0 < applied.qty) (filled : applyFill settings times book fill fees = .ok applied) :
    Shrinks fill.side (book.position fill.ticker).qty
      (applied.book.position fill.ticker).qty := by
  rcases applyFill_cases filled with ⟨_, rfl⟩ | ⟨qty, lots, trades, closes, quantity, _, rfl⟩
  · exact absurd traded (lt_irrefl 0)
  · have held := fillQty_traded quantity
    have position : ((filledBook book fill (feeTotal fees) qty lots trades).position
        fill.ticker).qty = (book.position fill.ticker).qty + fill.side.sign * qty := by
      simp [filledBook, Book.position]
    have sided := held.sided
    have positive := held.positive
    dsimp only
    rw [position]
    rcases side : fill.side with _ | _ | _ | _
    · simp [side, Side.closing] at closing
    · simp only [side] at sided
      exact .inl ⟨rfl, sided.1, by simp only [Side.sign]; linarith, by simp only [Side.sign]; linarith⟩
    · simp [side, Side.closing] at closing
    · simp only [side] at sided
      exact .inr ⟨rfl, sided.1, by simp only [Side.sign]; linarith, by simp only [Side.sign]; linarith⟩

/-- A fill that a turn records: a forced close that shrinks its position. -/
structure ForcedReduction (turn : Turn) (next : Account) (id : OrderId) (fill : FillRow) : Prop where
  forced : ∃ row result, turn.item = .execute row result ∧ row.orderId = id ∧ isForced row = true ∧
    row.side = fill.side ∧ row.ticker = fill.ticker
  shrinks : Shrinks fill.side (turn.account.book.position fill.ticker).qty
    (next.book.position fill.ticker).qty

/-- What a stopped account's turn records. -/
theorem turn_forcedReduction {world : World zone} {next : Account} {stop : Int}
    {turn : Turn} {id : OrderId} {fill : FillRow}
    (stopped : account.settings.status = .halted ∨ account.settings.status = .retiring)
    (holds : ForcedOrdersClose account.orders)
    (member : turn ∈ foldTurns world account stop)
    (applied : applyItem world turn.session turn.account turn.item = .ok next)
    (before : turn.account.ledger.fills.lookup id ≠ some fill)
    (after : next.ledger.fills.lookup id = some fill) :
    ForcedReduction turn next id fill := by
  obtain ⟨day, sequence, _, _, session, visited⟩ := mem_foldTurns member
  cases executes : turn.item.order with
  | none =>
    rw [(applyItem_booksOnly executes applied).fills] at after
    exact absurd after before
  | some executed =>
    cases item : turn.item with
    | execute row result =>
      rw [item] at visited applied
      obtain ⟨outcome, settled, rfl⟩ := map_ok.mp applied
      rcases settleOrder_books settled with ⟨_, same⟩ | ⟨qty, terms, flagged, ready, _, execution,
        book, recorded, _⟩
      · rw [same] at after
        exact absurd after before
      · obtain ⟨pending, order, found, _, stored, _, prepared, _⟩ := executing_order visited
        obtain rfl : id = row.orderId := by
          by_contra different
          rw [recorded, AList.lookup_insert_ne different] at after
          exact before after
        rw [recorded, AList.lookup_insert, Option.some.injEq] at after
        have forced : isForced row = true := by
          refine preflight_stopped ?_ ready
          rw [session]
          exact stopped
        have closing : row.side.closing = true := by
          have lawful := (foldTurns_orders forcedOrdersClose_lawful rfl holds turn member).2
          obtain ⟨isPending, details, kept, queued⟩ := pendingRow_queued stored
          have closes := lawful row.orderId order found details kept isPending queued
          have sides : row.side = order.side ∧ row.stateReason = details.stateReason := by
            rw [prepared]
            simp only [pendingRow, kept, isPending, queued, and_self, if_true,
              Option.some.injEq] at stored
            rw [← stored]
            exact ⟨rfl, rfl⟩
          rw [sides.1]
          refine closes ?_
          rw [← sides.2]
          exact forced
        subst after
        refine ⟨⟨row, result, item, rfl, forced, rfl, rfl⟩, ?_⟩
        have shrinks := applyFill_shrinks closing execution.traded execution.filled
        simpa only [book, afterPdt_book, executedFill, executedRow] using shrinks
    | recorded event => simp [item, Item.order] at executes
    | interest => simp [item, Item.order] at executes
    | dividends => simp [item, Item.order] at executes
    | borrow => simp [item, Item.order] at executes

/-- The fills that a stopped account's fold adds are forced reductions of its turns. -/
theorem foldAccount_shrinks {operation : Operation zone} {world : World zone}
    {folded : Account} {stop : Int} {mutation : Account → Except AccountError Account}
    {id : OrderId} {fill : FillRow} (call : FoldCall account operation world stop mutation)
    (stopped : account.settings.status = .halted ∨ account.settings.status = .retiring)
    (holds : ForcedOrdersClose account.orders)
    (done : foldAccount world account stop mutation = .ok folded)
    (before : account.ledger.fills.lookup id = none)
    (after : folded.ledger.fills.lookup id = some fill) :
    ∃ turn ∈ mutatedTurns world account stop mutation, ∃ next,
      applyItem world turn.session turn.account turn.item = .ok next ∧
      ForcedReduction turn next id fill := by
  obtain ⟨_, _, done⟩ := bind_ok.mp done
  obtain ⟨changed, mutated, done⟩ := bind_ok.mp done
  obtain ⟨looped, loop, finished⟩ := bind_ok.mp done
  obtain ⟨_, tables, administration, orders⟩ := call.mutates mutated
  have ledger : folded.ledger = looped.ledger := congrArg Prod.snd (finishFold_supervised finished).books
  rw [ledger] at after
  have still : changed.settings = account.settings :=
    congrArg Administration.settings administration
  have unrecorded : ∀ opened plan, openFold world changed stop = .ok (opened, plan) →
      ¬ opened.ledger.fills.lookup id = some fill := by
    intro opened plan opening recorded
    obtain ⟨_, _, _, _, rfl, _⟩ := openFold_ok opening
    change changed.ledger.fills.lookup id = some fill at recorded
    rw [tables, before] at recorded
    cases recorded
  have unmarked : ∀ (state : Account) (day : Int) (next : Account),
      ¬ state.ledger.fills.lookup id = some fill → markAccount world state day = .ok next →
      ¬ next.ledger.fills.lookup id = some fill := by
    intro state day next absent marked
    obtain ⟨row, prices, rfl⟩ := markAccount_ok marked
    exact absent
  obtain ⟨turn, member, next, applied, absent, recorded⟩ :=
    foldLoop_change (fun state => state.ledger.fills.lookup id = some fill) unrecorded unmarked
      loop after
  refine ⟨turn, ?_, next, applied, ?_⟩
  · unfold mutatedTurns
    rw [mutated]
    exact member
  · exact turn_forcedReduction (still ▸ stopped) (orders _ _ _ forcedOrdersClose_lawful holds) member
      applied absent recorded

/-- Whatever ran before, the fills that a call records in a halted or retiring account
belong to forced orders; each is a sell of a long or a cover of a short that brings the
position closer to zero and not past it. -/
theorem stopped_accounts_shrink {spec : Spec} {capital : ℚ} {source : PriceSource}
    {rule : DayTradeRule} {allowShort : Bool} {now : Int} {account reached : Account}
    (created : createAccount zone spec capital source rule allowShort now = .ok account)
    (operations : List (Operation zone)) (run : reached = operations.foldl step account)
    (stopped : reached.settings.status = .halted ∨ reached.settings.status = .retiring)
    (operation : Operation zone) (id : OrderId) (fill : FillRow)
    (before : reached.ledger.fills.lookup id = none)
    (after : (step reached operation).ledger.fills.lookup id = some fill) :
    ∃ world turns, foldedTurns reached operation = some (world, turns) ∧
      ∃ turn ∈ turns, ∃ next, applyItem world turn.session turn.account turn.item = .ok next ∧
        ForcedReduction turn next id fill ∧
        |(next.book.position fill.ticker).qty| <
          |(turn.account.book.position fill.ticker).qty| := by
  have holds : ForcedOrdersClose reached.orders := by
    rw [run]
    refine foldl_invariant (fun state : Account => ForcedOrdersClose state.orders) ?_ ?_
    · intro operation _ state lawfully
      exact step_orders forcedOrdersClose_lawful lawfully (fun _ _ _ => rfl) (by simp) (by simp)
    · intro other order found
      rw [createAccount_ok created] at found
      simp [newAccount] at found
  rcases step_folds reached operation with same | ⟨world, stop, mutation, folded, call, done, books, _⟩
  · have ledger : (step reached operation).ledger = reached.ledger := congrArg Prod.snd same
    rw [ledger, before] at after
    cases after
  · have ledger : (step reached operation).ledger = folded.ledger := congrArg Prod.snd books
    rw [ledger] at after
    obtain ⟨turn, member, next, applied, reduction⟩ :=
      foldAccount_shrinks call stopped holds done before after
    exact ⟨world, _, call.turns, turn, member, next, applied, reduction, reduction.shrinks.abs⟩

/-- A holding whose retirement was requested on Tuesday night. -/
def retiringAccount : Account :=
  retire (sampleWorld 739769 23) (heldOverTuesday.foldl step sampleAccount)

/-- On Wednesday the closing auction takes the retiring account out of its position. -/
theorem retiringAccount_shrinks :
    ∃ fill, (step retiringAccount (.settle (sampleWorld 739770 22) 739770)).ledger.fills.lookup 2 =
        some fill ∧
      ∃ world turns, foldedTurns retiringAccount (.settle (sampleWorld 739770 22) 739770) =
          some (world, turns) ∧
        ∃ turn ∈ turns, ∃ next, applyItem world turn.session turn.account turn.item = .ok next ∧
          ForcedReduction turn next 2 fill ∧
          |(next.book.position fill.ticker).qty| <
            |(turn.account.book.position fill.ticker).qty| := by
  have liquidated : ((step retiringAccount
      (.settle (sampleWorld 739770 22) 739770)).ledger.fills.lookup 2).isSome = true := by
    decide +kernel
  obtain ⟨fill, recorded⟩ := Option.isSome_iff_exists.mp liquidated
  refine ⟨fill, recorded, ?_⟩
  exact stopped_accounts_shrink sampleAccount_created
    (heldOverTuesday ++ [.retire (sampleWorld 739769 23)]) (by rw [List.foldl_append]; rfl)
    (by decide +kernel) _ 2 fill (by decide +kernel) recorded

end TradingEngine.Accounts
