import TradingEngine.LiquiditySharing
import TradingEngine.SafeFolds

/-!
# The day-trade limit

Under the legacy rule a margin account whose last close shows less than 25,000 dollars
makes at most three day trades in five sessions. The executor asks before it books a new
fill; the engine's own reductions are not refused. A fold rebuilds every session from the
recorded fills and does not ask again about these, so a fill that arrives for an earlier
session can leave more day trades behind than the rule admits.
-/

namespace TradingEngine.Accounts

open KeyedTables OrderTypes Nyse Ledger Costs Fills Runs

variable {zone : Zone}

/-- A larger close reaches every opening session that a smaller one does. Induction on the
queue: where the smaller close goes on, so does the larger. -/
theorem matchLoop_reaches {ticker : Ticker} {closingShort consume other : Bool}
    {rows : List (OrderId × Lot)} {remaining larger : ℚ} {lots stored : Lots}
    (within : remaining ≤ larger) {taken : MatchedLot}
    (reached : taken ∈ (matchLoop ticker closingShort consume rows remaining lots).1) :
    ∃ more ∈ (matchLoop ticker closingShort other rows larger stored).1,
      more.openedSession = taken.openedSession := by
  induction rows generalizing remaining larger lots stored with
  | nil => cases reached
  | cons row rest ih =>
    obtain ⟨orderId, lot⟩ := row
    simp only [matchLoop] at reached ⊢
    have ordered : remaining - min remaining |lot.qty| ≤ larger - min larger |lot.qty| := by
      rcases le_total remaining |lot.qty| with short | long
      · rw [min_eq_left short, sub_self]
        exact sub_nonneg.mpr (min_le_left _ _)
      · rw [min_eq_right long, min_eq_right (long.trans within)]
        exact sub_le_sub_right within _
    split at reached
    · rw [List.mem_singleton] at reached
      subst reached
      split
      · exact ⟨_, .head _, rfl⟩
      · exact ⟨_, .head _, rfl⟩
    · rename_i unfinished
      rw [if_neg (not_le.mpr ((not_le.mp unfinished).trans_le ordered))]
      rcases List.mem_cons.mp reached with rfl | later
      · exact ⟨_, .head _, rfl⟩
      · obtain ⟨more, listed, same⟩ := ih ordered later
        exact ⟨more, .tail _ listed, same⟩

/-- A close that would make a day trade for its whole quantity is recognised beforehand. -/
theorem matchLots_reaches {times : FillTimes} {lots : Lots} {ticker : Ticker} {qty larger : ℚ}
    {closingShort consume : Bool} (within : qty ≤ larger) {taken : MatchedLot}
    (reached : taken ∈ (matchLots times lots ticker qty closingShort consume).1) :
    ∃ more ∈ (matchLots times lots ticker larger closingShort false).1,
      more.openedSession = taken.openedSession := by
  unfold matchLots at reached ⊢
  split at reached
  · cases reached
  · rename_i some'
    rw [if_neg (not_le.mpr ((not_le.mp some').trans_le within))]
    exact matchLoop_reaches within reached

/-- What a fill does to the day trades of a book: nothing, or one more of its session. -/
theorem applyFill_dayTrades {settings : LedgerSettings} {times : FillTimes} {book : Book}
    {fill : Fill} {fees : Option Fees} {applied : Applied} {id : OrderId} {day : Int}
    (origin : fill.origin = some (id, day))
    (filled : applyFill settings times book fill fees = .ok applied) :
    applied.book.dayTrades = book.dayTrades ∨
      ∃ opened, applied.book.dayTrades = book.dayTrades ++ [⟨day, fill.ticker, opened, id⟩] ∧
        fill.side.closing = true ∧
        ∃ taken ∈ (matchLots times book.lots fill.ticker fill.qty (fill.side = .cover) false).1,
          taken.openedSession = day := by
  rcases applyFill_cases filled with ⟨_, rfl⟩ | ⟨qty, lots, trades, closes, quantity, moved, rfl⟩
  · exact .inl rfl
  · change trades = book.dayTrades ∨ _
    unfold moveLots at moved
    split at moved
    · rename_i closing
      cases moved
      unfold recordDayTrade
      rw [origin]
      dsimp only
      split
      · exact .inl rfl
      · rename_i lot found
        split
        · refine .inr ⟨lot.openOrderId, rfl, closing, ?_⟩
          have same : lot.openedSession = day := by simpa using List.find?_some found
          rw [← same]
          exact matchLots_reaches (fillQty_traded quantity).atMost (List.mem_of_find?_eq_some found)
        · exact .inl rfl
    · split at moved
      · cases moved
      · cases moved
        exact .inl rfl

/-- Whether the limit refuses a close: a fourth day trade below the minimum equity. -/
def refusesDayTrade (account : Account) (ticker : Ticker) (side : Side) (qty : ℚ) (day : Int) :
    Bool :=
  wouldCreateDayTrade account ticker side qty day && decide (priorCloseEquity account day < 25000) &&
    decide (3 ≤ trailingDayTrades account day)

/-- The rules of an account that the limit is about. -/
def Limited (settings : AccountSettings) : Prop :=
  settings.accountType = .margin ∧ settings.dayTradeRule = .pdt25kLegacy

variable {account : Account}

/-- The check of a limited account lets no refused close through. -/
theorem pdtCheck_admits {market : Market zone} {ticker : Ticker} {side : Side}
    {qty price : ℚ} {day : Int} {asOf availableAt : Option Int} {pdt : PdtResult}
    (limited : Limited account.settings)
    (checked : pdtCheck market account ticker side qty day price asOf availableAt = .ok pdt)
    (admitted : pdt.refusal = none) : refusesDayTrade account ticker side qty day = false := by
  by_contra refused
  rw [Bool.not_eq_false] at refused
  simp only [refusesDayTrade, Bool.and_eq_true, decide_eq_true_eq] at refused
  obtain ⟨⟨creates, poor⟩, used⟩ := refused
  unfold pdtCheck at checked
  rw [if_neg (not_not.mpr limited.1), limited.2] at checked
  dsimp only at checked
  split at checked
  · cases checked
    cases admitted
  · rw [if_pos ⟨creates, poor, used⟩] at checked
    cases checked
    cases admitted

variable {world : World zone}

/-- A priced order that is ready leaves the book alone, or it passed the check or is forced. -/
theorem settleOrder_checked {session : Session}
    {row : PendingRow} {qty : ℚ} {terms : FillTerms} {outcome : Account × Settled}
    (ready : preflight world session account row = .go qty)
    (settled : settleOrder world session account row (.filled terms) = .ok outcome) :
    outcome.1.book = account.book ∨
      ∃ pdt, pdtCheck world.market account row.ticker row.side qty session.day terms.fillPx
          (some terms.fillTs) (some world.now) = .ok pdt ∧
        (isForced row = true ∨ pdt.refusal = none) := by
  unfold settleOrder at settled
  simp only [ready] at settled
  split at settled
  · cases settled
    exact .inl rfl
  · obtain ⟨pdt, checked, settled⟩ := bind_ok.mp settled
    by_cases forced : isForced row = true
    · exact .inr ⟨pdt, checked, .inl forced⟩
    · cases refusal : pdt.refusal with
      | none => exact .inr ⟨pdt, checked, .inr refusal⟩
      | some reason =>
        have ordinary : isForced { row with qty := qty } = false := by
          rw [← Bool.not_eq_true]
          exact forced
        simp only [ordinary, refusal, Bool.false_eq_true, if_false, Except.ok.injEq] at settled
        rw [← settled]
        exact .inl (afterPdt_book _ _ _ _)

/-- A day trade that an order makes passed the check or belongs to a forced order. -/
theorem settleOrder_dayTrades {session : Session}
    {row : PendingRow} {result : FillResult} {outcome : Account × Settled}
    (limited : Limited account.settings)
    (settled : settleOrder world session account row result = .ok outcome) :
    outcome.1.book.dayTrades = account.book.dayTrades ∨
      ∃ opened, outcome.1.book.dayTrades = account.book.dayTrades ++
          [⟨session.day, row.ticker, opened, row.orderId⟩] ∧
        outcome.1.orders = rewriteOrder row.orderId
          (Order.withState .filled row.stateReason world.now) account.orders ∧
        (isForced row = true ∨
          ¬ (priorCloseEquity account session.day < 25000 ∧
            3 ≤ trailingDayTrades account session.day)) := by
  obtain ⟨same, -⟩ | ⟨qty, terms, flagged, ready, priced, execution, booked, -, written⟩ :=
    settleOrder_books settled
  · exact .inl (by rw [same])
  · subst priced
    have origin : (executedFill { row with qty := qty } execution.sized.qty terms
        session.day).origin = some (row.orderId, session.day) := rfl
    rcases settleOrder_checked ready settled with same | ⟨pdt, checked, admitted⟩
    · exact .inl (by rw [same])
    rw [booked]
    rcases applyFill_dayTrades origin execution.filled with same | ⟨opened, more, closing, taken,
      listed, own⟩
    · rw [afterPdt_book] at same
      exact .inl same
    · rw [afterPdt_book] at more
      refine .inr ⟨opened, more, written, ?_⟩
      rcases admitted with forced | admitted
      · exact .inl forced
      · right
        rintro ⟨poor, used⟩
        have quiet := pdtCheck_admits limited checked admitted
        have creates : wouldCreateDayTrade account row.ticker row.side qty session.day = true := by
          obtain ⟨larger, reached, same⟩ := matchLots_reaches (sizeFill_atMost execution.sizing) listed
          unfold wouldCreateDayTrade
          rw [Bool.and_eq_true, List.any_eq_true]
          refine ⟨closing, larger, ?_, ?_⟩
          · rw [afterPdt_book, afterPdt_ledger] at reached
            exact reached
          · simpa using same.trans own
        simp [refusesDayTrade, creates, poor, used] at quiet

/-- Filled in both tables. -/
def Done (order : Order) : Prop :=
  order.status = .filled ∧ ∃ details, order.details = some details ∧ details.state = .filled

/-- Whether the engine itself queued an order, to reduce a position. -/
def Order.forced (order : Order) : Bool :=
  order.details.any fun details => details.stateReason.any Reason.forces

/-- No write changes an order that is filled in both tables. -/
theorem Write.done {order next : Order} (write : Write false order next) (done : Done order) :
    next = order := by
  obtain ⟨filled, details, stored, state⟩ := done
  cases write with
  | settled reason stateAt queued closes => simp [queued.1] at filled
  | waited stateAt queued stored => simp [queued.1] at filled
  | cancelled reason stateAt pending => simp [pending] at filled
  | lapsed reason stateAt queued => simp [queued.1] at filled
  | stale reason pending => simp [pending] at filled
  | swept =>
    cases order
    simp only at filled stored
    subst filled stored
    simp [settleCancel, state]

theorem withState_done {order : Order} {reason : List Reason} {stateAt : Int}
    (detailed : order.details.isSome) : Done (order.withState .filled reason stateAt) := by
  obtain ⟨details, stored⟩ := Option.isSome_iff_exists.mp detailed
  exact ⟨rfl, _, by rw [Order.withState, stored]; rfl, rfl⟩

theorem filledKind_done : FilledKind Done where
  filled _ done := done.1
  kept _ _ write done := by rwa [write.done done]
  made _ _ _ detailed := withState_done detailed

/-- What the session of a turn requires of a day trade at its place in the record. -/
structure TradedAt (turn : Turn) (orders : Table OrderId Order) (before : List DayTrade)
    (trade : DayTrade) : Prop where
  earlier : turn.account.book.dayTrades = before
  dated : trade.sessionDate = turn.session.day
  admitted : ∃ order, orders.lookup trade.closeOrderId = some order ∧ Done order ∧
    (order.forced = true ∨ ¬ (priorCloseEquity turn.account turn.session.day < 25000 ∧
      3 ≤ trailingDayTrades turn.account turn.session.day))

/-- Every recorded day trade was made in one of the turns. -/
def TradesMade (turns : List Turn) (trades : List DayTrade) (orders : Table OrderId Order) : Prop :=
  ∀ before trade after, trades = before ++ trade :: after →
    ∃ turn ∈ turns, TradedAt turn orders before trade

theorem tradesMade_lawful (turns : List Turn) (trades : List DayTrade) :
    OrderLaw false true (TradesMade turns trades) where
  rewritten := by
    intro orders change made writes before trade after split
    obtain ⟨turn, member, earlier, dated, order, found, done, admitted⟩ := made before trade after split
    refine ⟨turn, member, earlier, dated, order, ?_, done, admitted⟩
    rw [lookup_mapRows, found]
    rcases writes _ order found with same | write
    · simp [same]
    · simp [write.done done]
  inserted := by
    intro orders id order made missing new before trade after split
    obtain ⟨turn, member, earlier, dated, known, found, done, admitted⟩ := made before trade after split
    refine ⟨turn, member, earlier, dated, known, ?_, done, admitted⟩
    rw [AList.lookup_insert_ne, found]
    intro same
    rw [same, missing] at found
    cases found

theorem TradesMade.append {turns : List Turn} {trades : List DayTrade}
    {orders : Table OrderId Order} {turn : Turn} {trade : DayTrade}
    (made : TradesMade turns trades orders) (member : turn ∈ turns)
    (traded : TradedAt turn orders trades trade) :
    TradesMade turns (trades ++ [trade]) orders := by
  intro before other after split
  rcases List.eq_nil_or_concat after with rfl | ⟨rest, final, rfl⟩
  · obtain ⟨rfl, same⟩ := List.append_inj' split rfl
    cases same
    exact ⟨turn, member, traded⟩
  · rw [List.concat_eq_append, ← List.cons_append, ← List.append_assoc] at split
    obtain ⟨same, -⟩ := List.append_inj' split rfl
    exact made before other rest same

/-- Whether a turn replays an ordinary close that the limit would refuse now. -/
def Turn.replaysRefused (turn : Turn) : Bool :=
  match turn.item with
  | .recorded (.fill id row) =>
    !(turn.account.orders.lookup id).any Order.forced &&
      refusesDayTrade turn.account row.ticker row.side row.qty turn.session.day
  | _ => false

/-- A replayed event makes at most the day trade of its recorded fill. -/
theorem replayEvent_dayTrades {settings : LedgerSettings} {times : FillTimes} {book next : Book}
    {event : Event} (replayed : replayEvent settings times book event = .ok next) :
    next.dayTrades = book.dayTrades ∨ ∃ id row opened, event = .fill id row ∧
      next.dayTrades = book.dayTrades ++ [⟨row.fillDate, row.ticker, opened, id⟩] ∧
      row.side.closing = true ∧
      ∃ taken ∈ (matchLots times book.lots row.ticker row.qty (row.side = .cover) false).1,
        taken.openedSession = row.fillDate := by
  obtain ⟨⟨booked, closes⟩, applied, rfl⟩ := map_ok.mp replayed
  cases event with
  | fill id row =>
    simp only [applyEvent] at applied
    split at applied
    · cases applied
    · rename_i result filled
      split at applied
      · cases applied
        have origin : (row.toFill id).origin = some (id, row.fillDate) := rfl
        rcases applyFill_dayTrades origin filled with same | ⟨opened, more, rest⟩
        · exact .inl same
        · exact .inr ⟨id, row, opened, rfl, more, rest⟩
      · cases applied
  | split ticker ex ratio =>
    cases applied
    left
    change (applySplit book ticker ex ratio.value).dayTrades = _
    unfold applySplit
    dsimp only
    split
    · split <;> rfl
    · rfl
  | settlement ticker effective row =>
    left
    obtain ⟨-, ⟨-, same, -⟩ | ⟨-, _, _, _, _, _, _, same, -⟩⟩ := applySettlementEvent_cases applied
    · rw [same]
      rfl
    · rw [same]
      rfl
  | dividend ticker day row =>
    simp only [applyEvent] at applied
    split at applied
    · cases applied
    · cases applied
      exact .inl rfl
  | cash day seq row =>
    cases applied
    exact .inl rfl

/-- Recorded fills are filed under the day of their time. -/
def FillsDated (account : Account) : Prop :=
  ∀ id fill, account.ledger.fills.lookup id = some fill → ∀ ts, fill.fillTs = some ts →
    fill.fillDate = dateOf ts

variable {settings : AccountSettings}

/-- A turn of a session keeps recorded fills under their days. -/
theorem visit_fillsDated {begun : Account}
    {day : Int} {sequence : List Event} {visit : Account × Item} {next : Account}
    (visited : visit ∈ sessionVisits world settings begun day sequence) (dated : FillsDated visit.1)
    (applied : applyItem world (openSession world settings begun day) visit.1 visit.2 = .ok next) :
    FillsDated next := by
  obtain ⟨state, item⟩ := visit
  cases executes : item.order with
  | none =>
    unfold FillsDated
    rw [(applyItem_booksOnly executes applied).fills]
    exact dated
  | some id =>
    cases item with
    | execute row result =>
      obtain ⟨outcome, settled, rfl⟩ := map_ok.mp applied
      obtain ⟨_, _, _, _, _, _, _, attempted⟩ := executing_order visited
      obtain ⟨-, same⟩ | ⟨_, terms, _, _, priced, _, -, inserted, -⟩ := settleOrder_books settled
      · unfold FillsDated
        rw [same]
        exact dated
      · intro other fill found ts stamped
        rw [inserted] at found
        by_cases own : other = row.orderId
        · subst own
          rw [AList.lookup_insert, Option.some.injEq] at found
          subst found
          cases stamped
          exact (fillAttempt_filled (attempted.symm.trans priced)).dated.symm
        · rw [AList.lookup_insert_ne own] at found
          exact dated other fill found ts stamped
    | _ => cases executes

/-- What a turn does to the day trades: nothing, or one more that is admitted. -/
theorem applyItem_dayTrades {next : Account} {stop : Int} {turn : Turn}
    (limited : Limited account.settings) (member : turn ∈ foldTurns world account stop)
    (recorded : FillsHave Done turn.account) (dated : FillsDated turn.begun)
    (fresh : turn.replaysRefused = false)
    (applied : applyItem world turn.session turn.account turn.item = .ok next) :
    next.book.dayTrades = turn.account.book.dayTrades ∨
      ∃ trade, next.book.dayTrades = turn.account.book.dayTrades ++ [trade] ∧
        TradedAt turn next.orders turn.account.book.dayTrades trade := by
  have settings : turn.account.settings = account.settings :=
    congrArg Administration.settings (foldTurns_administration turn member)
  rw [← settings] at limited
  obtain ⟨day, sequence, _, read, session, visited⟩ := mem_foldTurns member
  have sameDay : turn.session.day = day := by rw [session]; rfl
  cases item : turn.item with
  | recorded event =>
    rw [item] at visited applied
    obtain ⟨book, replayed, done⟩ := bind_ok.mp applied
    cases done
    rcases replayEvent_dayTrades (ofLedger_ok.mp replayed) with same | ⟨id, row, opened, rfl, more,
      closing, taken, listed, own⟩
    · exact .inl same
    · obtain ⟨order, present, isDone⟩ := recorded id (recorded_fill_known read visited)
      obtain ⟨known, ts, stamped, today⟩ := listed_fill_dated read (recorded_listed visited)
      have filed : row.fillDate = turn.session.day := by
        rw [sameDay, dated id row known ts stamped, today]
      refine .inr ⟨_, more, rfl, filed, order, present, isDone, ?_⟩
      by_cases forced : order.forced = true
      · exact .inl forced
      · right
        rintro ⟨poor, used⟩
        have creates : wouldCreateDayTrade turn.account row.ticker row.side row.qty
            turn.session.day = true := by
          unfold wouldCreateDayTrade
          rw [Bool.and_eq_true, List.any_eq_true]
          exact ⟨closing, taken, listed, by simpa [filed] using own⟩
        simp [Turn.replaysRefused, item, present, forced, refusesDayTrade, creates, poor, used] at fresh
  | interest =>
    rw [item] at applied
    cases applied
    exact .inl (by rw [(accrueInterest_moneyOnly _ _ _).dayTrades])
  | dividends =>
    rw [item] at applied
    exact .inl (by rw [(creditDividends_moneyOnly applied).dayTrades])
  | borrow =>
    rw [item] at applied
    exact .inl (by rw [(accrueBorrow_moneyOnly applied).dayTrades])
  | execute row result =>
    rw [item] at visited applied
    obtain ⟨outcome, settled, rfl⟩ := map_ok.mp applied
    obtain ⟨pending, order, found, _, stored, _⟩ := executing_order visited
    rcases settleOrder_dayTrades limited settled with same | ⟨opened, more, written, admitted⟩
    · exact .inl same
    · refine .inr ⟨_, more, rfl, rfl, order.withState .filled row.stateReason world.now, ?_,
        withState_done (pendingRow_detailed stored), ?_⟩
      · rw [written, lookup_rewriteOrder, found]
        simp
      · refine admitted.imp_left fun forced => ?_
        obtain ⟨details, kept⟩ := Option.isSome_iff_exists.mp (pendingRow_detailed stored)
        unfold isForced at forced
        simpa [Order.forced, Order.withState, kept] using forced

/-- A turn of a session makes day trades of its own day only. -/
theorem visit_tradeDay {begun : Account}
    {day : Int} {sequence : List Event} {visit : Account × Item} {next : Account}
    (read : events zone .account begun.ledger (some day) (some day) = .ok sequence)
    (visited : visit ∈ sessionVisits world settings begun day sequence) (dated : FillsDated begun)
    (applied : applyItem world (openSession world settings begun day) visit.1 visit.2 = .ok next) :
    ∀ trade ∈ next.book.dayTrades, trade ∈ visit.1.book.dayTrades ∨ trade.sessionDate = day := by
  obtain ⟨state, item⟩ := visit
  intro trade made
  cases item with
  | recorded event =>
    obtain ⟨book, replayed, done⟩ := bind_ok.mp applied
    cases done
    rcases replayEvent_dayTrades (ofLedger_ok.mp replayed) with same | ⟨id, row, opened, rfl, more, -⟩
    · exact .inl (same ▸ made)
    · obtain ⟨known, ts, stamped, today⟩ := listed_fill_dated read (recorded_listed visited)
      rw [show (_ : Account).book.dayTrades = _ from more, List.mem_append, List.mem_singleton] at made
      refine made.imp_right ?_
      rintro rfl
      exact (dated id row known ts stamped).trans today
  | interest =>
    cases applied
    exact .inl ((accrueInterest_moneyOnly _ _ _).dayTrades ▸ made)
  | dividends => exact .inl ((creditDividends_moneyOnly applied).dayTrades ▸ made)
  | borrow => exact .inl ((accrueBorrow_moneyOnly applied).dayTrades ▸ made)
  | execute row result =>
    obtain ⟨outcome, settled, rfl⟩ := map_ok.mp applied
    obtain ⟨same, -⟩ | ⟨_, _, flagged, _, _, execution, booked, -, -⟩ := settleOrder_books settled
    · exact .inl (same ▸ made)
    · rw [booked] at made
      rcases @applyFill_dayTrades _ _ _ _ _ _ row.orderId day rfl execution.filled with
        same | ⟨opened, more, -⟩
      · rw [same, afterPdt_book] at made
        exact .inl made
      · rw [more, afterPdt_book, List.mem_append, List.mem_singleton] at made
        refine made.imp_right ?_
        rintro rfl
        rfl

theorem foldSession_tradeDay
    {next : Account} {day : Int} (dated : FillsDated account)
    (folded : foldSession world settings account day = .ok next) :
    FillsDated next ∧
      ∀ trade ∈ next.book.dayTrades, trade ∈ account.book.dayTrades ∨ trade.sessionDate = day := by
  obtain ⟨sequence, _, read, ran⟩ := foldSession_ok folded
  constructor
  · refine foldlM_visited FillsDated ?_ dated ran
    intro visit visited after kept applied
    exact visit_fillsDated visited kept applied
  · refine foldlM_visited (fun state => ∀ trade ∈ state.book.dayTrades,
      trade ∈ account.book.dayTrades ∨ trade.sessionDate = day) ?_ (fun _ listed => .inl listed) ran
    intro visit visited after kept applied trade made
    rcases visit_tradeDay read visited dated applied trade made with old | today
    · exact kept trade old
    · exact .inr today

/-- A fold starts from a book without day trades. -/
theorem openFold_dayTrades {opened : Account} {stop : Int}
    {plan : FoldPlan} (done : openFold world account stop = .ok (opened, plan)) :
    opened.book.dayTrades = [] := by
  obtain ⟨_, book, _, rebuilt, rfl, _⟩ := openFold_ok done
  change book.dayTrades = []
  unfold rebuildState at rebuilt
  split at rebuilt
  · cases rebuilt
  · rename_i sequence listed
    refine foldlM_invariant (fun state : Book => state.dayTrades = []) ?_ rfl rebuilt
    intro event member state next none' replayed
    obtain ⟨recorded, window⟩ := (mem_events listed).mp member
    have before : event.date zone .account < plan.start := by
      simp only [Event.within, Option.all_none, Option.all_some, Bool.true_and,
        decide_eq_true_eq] at window
      exact Int.lt_of_le_sub_one window
    obtain ⟨ticker, ex, ratio, rfl⟩ := split_of_before done recorded before
    rcases replayEvent_dayTrades replayed with same | ⟨_, _, _, isFill, _⟩
    · rw [same, none']
    · cases isFill

/-- In its turn an entry finds day trades of its own session and of earlier ones. -/
theorem turn_tradesBefore {stop : Int} {turn : Turn}
    (dated : FillsDated account) (member : turn ∈ foldTurns world account stop) :
    ∀ trade ∈ turn.account.book.dayTrades, trade.sessionDate ≤ turn.session.day := by
  obtain ⟨⟨begunDated, begun⟩, opens, sequence, visited⟩ := foldTurns_before
    (fun state => FillsDated state ∧
      ∀ trade ∈ state.book.dayTrades, trade.sessionDate < turn.session.day) turn.session.day
    (by
      intro opened plan done
      refine ⟨?_, by rw [openFold_dayTrades done]; nofun⟩
      obtain ⟨_, _, _, _, rfl, _⟩ := openFold_ok done
      exact dated)
    (by
      rintro state day next before ⟨kept, earlier⟩ ran
      obtain ⟨keeps, days⟩ := foldSession_tradeDay kept ran
      refine ⟨keeps, fun trade made => ?_⟩
      rcases days trade made with old | today
      · exact earlier trade old
      · exact today ▸ before)
    (by
      intro state day next kept marked
      obtain ⟨_, _, rfl⟩ := markAccount_ok marked
      exact kept)
    turn member rfl
  obtain ⟨day, sequence, _, read, session, visited⟩ := mem_foldTurns member
  have sameDay : turn.session.day = day := by rw [session]; rfl
  rw [sameDay] at begun ⊢
  refine visitedM_invariant (fun state => ∀ trade ∈ state.book.dayTrades, trade.sessionDate ≤ day)
    ?_ (fun trade made => (begun trade made).le) (turn.account, turn.item) visited
  intro visit inside next kept applied trade made
  rcases visit_tradeDay read inside begunDated applied trade made with old | today
  · exact kept trade old
  · exact today.le

theorem markAccount_prior {next : Account} {day marked : Int}
    (later : day ≤ marked) (done : markAccount world account marked = .ok next) :
    priorCloseEquity next day = priorCloseEquity account day := by
  obtain ⟨row, prices, rfl⟩ := markAccount_ok done
  unfold priorCloseEquity
  dsimp only
  rw [filter_insert account.equity row (fun _ => decide_eq_false (not_lt.mpr later))]

/-- What the equity before a day is read from. -/
def Account.capital (account : Account) : Table Int EquityRow × ℚ :=
  (account.equity, account.ledger.initialCash)

theorem priorCloseEquity_congr {next : Account} (same : next.capital = account.capital)
    (day : Int) : priorCloseEquity next day = priorCloseEquity account day := by
  obtain ⟨equity, cash⟩ := Prod.mk.inj same
  unfold priorCloseEquity
  rw [equity, cash]

theorem settleOrder_capital {session : Session}
    {row : PendingRow} {result : FillResult} {outcome : Account × Settled}
    (settled : settleOrder world session account row result = .ok outcome) :
    outcome.1.capital = account.capital := by
  have flags : ∀ flagged, (afterPdt world session account flagged).capital = account.capital := by
    intro flagged
    cases flagged <;> rfl
  have penalties : ∀ (state : Account) (row : PendingRow),
      (recordPenalty world session state row).capital = state.capital := by
    intro state row
    unfold recordPenalty
    split <;> rfl
  cases settleOrder_settlement settled with
  | stopped => rfl
  | waited => rfl
  | unfilled => rfl
  | lapsed => rfl
  | refused qty terms flagged => exact flags flagged
  | vanished qty terms flagged => exact (penalties _ _).trans (flags flagged)
  | executed qty terms flagged => exact (penalties _ _).trans (flags flagged)

theorem applyItem_capital {session : Session} {next : Account}
    {item : Item} (applied : applyItem world session account item = .ok next) :
    next.capital = account.capital := by
  cases executes : item.order with
  | none =>
    rw [applyItem_booksOnly executes applied]
    rfl
  | some id =>
    cases item with
    | execute row result =>
      obtain ⟨outcome, settled, rfl⟩ := map_ok.mp applied
      exact settleOrder_capital settled
    | _ => cases executes

theorem foldTurns_prior {final : Account} {stop : Int} {turn : Turn}
    (completed : foldLoop world account stop = .ok final)
    (member : turn ∈ foldTurns world account stop) :
    priorCloseEquity final turn.session.day = priorCloseEquity turn.account turn.session.day := by
  obtain ⟨next, applied, lasts⟩ := foldTurns_onward
    (fun state => priorCloseEquity state turn.session.day =
      priorCloseEquity turn.account turn.session.day) completed turn member
    (fun state day next later kept marked => (markAccount_prior later marked).trans kept)
    (fun _ _ _ _ kept applied => (priorCloseEquity_congr (applyItem_capital applied) _).trans kept)
  exact lasts (priorCloseEquity_congr (applyItem_capital applied) _)

/-- The rules of the limit hold in every turn. -/
theorem foldLoop_tradesMade {final : Account} {stop : Int}
    (limited : Limited account.settings) (recorded : FillsHave Done account)
    (dated : FillsDated account)
    (fresh : ∀ turn ∈ foldTurns world account stop, turn.replaysRefused = false)
    (completed : foldLoop world account stop = .ok final) :
    FillsHave Done final ∧ FillsDated final ∧
      TradesMade (foldTurns world account stop) final.book.dayTrades final.orders := by
  refine foldLoop_invariant (fun state => FillsHave Done state ∧ FillsDated state ∧
    TradesMade (foldTurns world account stop) state.book.dayTrades state.orders) ?_ ?_ ?_ completed
  · intro opened plan done
    refine ⟨?_, ?_, ?_⟩
    · obtain ⟨_, _, _, _, rfl, _⟩ := openFold_ok done
      exact recorded
    · obtain ⟨_, _, _, _, rfl, _⟩ := openFold_ok done
      exact dated
    · intro before trade after split
      rw [openFold_dayTrades done] at split
      exact absurd split.symm (List.append_ne_nil_of_right_ne_nil _ (List.cons_ne_nil _ _))
  · rintro turn member next ⟨_, begunDated, _⟩ ⟨kept, filed, made⟩ applied
    obtain ⟨_, _, _, _, session, visited⟩ := mem_foldTurns member
    refine ⟨applyItem_fillsHave filledKind_done member kept applied,
      visit_fillsDated visited filed (session ▸ applied), ?_⟩
    have written : TradesMade (foldTurns world account stop) turn.account.book.dayTrades next.orders :=
      applyItem_orders (tradesMade_lawful _ _) member made (by simp) applied
    rcases applyItem_dayTrades limited member kept begunDated (fresh turn member) applied with
      same | ⟨trade, more, traded⟩
    · rw [same]
      exact written
    · rw [more]
      exact written.append member traded
  · rintro state day next ⟨kept, filed, made⟩ marked
    obtain ⟨row, prices, rfl⟩ := markAccount_ok marked
    exact ⟨kept, filed, made⟩

theorem windowStart_mono {first second : Int} (count : Nat) (ordered : first ≤ second) :
    windowStart first count ≤ windowStart second count := by
  unfold windowStart sessionOnOrBefore
  exact previousSession_mono.iterate _ (previousSession_mono (add_le_add_left ordered 1))

/-- Whether a day trade was closed by an order of the account's own intents. -/
def ordinary (orders : Table OrderId Order) (trade : DayTrade) : Bool :=
  !(orders.lookup trade.closeOrderId).any Order.forced

/-- At most three ordinary day trades in five sessions that all open below the minimum
equity. -/
def WithinLimit (prior : Int → ℚ) (orders : Table OrderId Order) (trades : List DayTrade) : Prop :=
  ∀ day, isSession day = true →
    (∀ session, isSession session = true → windowStart day 5 ≤ session → session ≤ day →
      prior session < 25000) →
    (trades.filter fun trade => ordinary orders trade &&
      decide (windowStart day 5 ≤ trade.sessionDate) && decide (trade.sessionDate ≤ day)).length ≤ 3

/-- After a fold that replays no refused close the day trades are within the limit: the
last ordinary one of a window found fewer than three behind it. -/
theorem foldLoop_withinLimit {final : Account} {stop : Int}
    (dated : FillsDated account)
    (made : TradesMade (foldTurns world account stop) final.book.dayTrades final.orders)
    (completed : foldLoop world account stop = .ok final) :
    WithinLimit (priorCloseEquity final) final.orders final.book.dayTrades := by
  intro day trading poor
  by_contra more
  rw [not_le] at more
  rcases List.eq_nil_or_concat (final.book.dayTrades.filter fun trade =>
      ordinary final.orders trade && decide (windowStart day 5 ≤ trade.sessionDate) &&
        decide (trade.sessionDate ≤ day)) with none' | ⟨first, last, selected⟩
  · rw [none'] at more
    cases more
  · rw [selected, List.concat_eq_append, List.length_append, List.length_singleton] at more
    rw [List.concat_eq_append, List.filter_eq_append_iff] at selected
    obtain ⟨front, back, split, firsts, lasts⟩ := selected
    rw [List.filter_eq_cons_iff] at lasts
    obtain ⟨skipped, rest, rfl, none', inWindow, -⟩ := lasts
    simp only [Bool.and_eq_true, decide_eq_true_eq] at inWindow
    obtain ⟨⟨isOrdinary, starts⟩, stops⟩ := inWindow
    rw [← List.append_assoc] at split
    obtain ⟨turn, member, earlier, sameDay, order, found, -, admitted⟩ := made _ _ _ split
    rcases admitted with forced | admitted
    · simp [ordinary, found, forced] at isOrdinary
    · apply admitted
      rw [← foldTurns_prior completed member, ← sameDay]
      obtain ⟨own, _, isTrading, _, session, _⟩ := mem_foldTurns member
      have ownDay : turn.session.day = own := by rw [session]; rfl
      constructor
      · exact poor _ (by rw [sameDay, ownDay]; exact isTrading) starts stops
      · have before := turn_tradesBefore dated member
        unfold trailingDayTrades
        rw [earlier] at before ⊢
        have behind : 3 ≤ ((front ++ skipped).filter fun trade => ordinary final.orders trade &&
            decide (windowStart day 5 ≤ trade.sessionDate) &&
              decide (trade.sessionDate ≤ day)).length := by
          rw [List.filter_append, firsts, List.filter_eq_nil_iff.mpr none', List.append_nil]
          omega
        refine behind.trans ?_
        rw [← List.countP_eq_length_filter, ← List.countP_eq_length_filter]
        refine List.countP_mono_left fun trade listed inside => ?_
        simp only [Bool.and_eq_true, decide_eq_true_eq] at inside ⊢
        refine ⟨(windowStart_mono 5 stops).trans inside.1.2, ?_⟩
        rw [sameDay]
        exact before trade listed

/-- The closing orders of the day trades are filled, and the trades within the limit. -/
def Supervises (prior : Int → ℚ) (trades : List DayTrade) (orders : Table OrderId Order) : Prop :=
  (∀ trade ∈ trades, ∃ order, orders.lookup trade.closeOrderId = some order ∧ Done order) ∧
    WithinLimit prior orders trades

theorem supervises_lawful (prior : Int → ℚ) (trades : List DayTrade) :
    OrderLaw false true (Supervises prior trades) := by
  -- A filled order stays as it is, and so does the kind of each day trade.
  have same : ∀ {before after : Table OrderId Order}, Supervises prior trades before →
      (∀ id order, before.lookup id = some order → Done order → after.lookup id = some order) →
      Supervises prior trades after := by
    rintro before after ⟨closed, within⟩ kept
    refine ⟨fun trade listed => ?_, fun day trading poor => ?_⟩
    · obtain ⟨order, found, done⟩ := closed trade listed
      exact ⟨order, kept _ order found done, done⟩
    · refine le_of_eq_of_le (congrArg List.length ?_) (within day trading poor)
      refine List.filter_congr fun trade listed => ?_
      obtain ⟨order, found, done⟩ := closed trade listed
      simp only [ordinary, found, kept _ order found done]
  refine ⟨fun orders change supervised writes => same supervised ?_,
    fun orders id order supervised missing new => same supervised ?_⟩
  · intro id order found done
    rw [lookup_mapRows, found]
    rcases writes id order found with same | write
    · simp [same]
    · simp [write.done done]
  · intro other known found done
    rw [AList.lookup_insert_ne, found]
    rintro rfl
    rw [missing] at found
    cases found

/-- What the limit keeps up between the calls. -/
structure DayTrading (account : Account) : Prop where
  limited : Limited account.settings
  recorded : FillsHave Done account
  dated : FillsDated account
  supervised : Supervises (priorCloseEquity account) account.book.dayTrades account.orders

/-- A fold that the account is taken from replays no ordinary close that the limit would
refuse now. -/
def ReplaysAdmitted (account : Account) (operation : Operation zone) : Prop :=
  ∀ folded ∈ foldedTurns account operation, ∀ turn ∈ folded.2, turn.replaysRefused = false

instance (account : Account) (operation : Operation zone) :
    Decidable (ReplaysAdmitted account operation) := by
  unfold ReplaysAdmitted
  infer_instance

theorem Limited.step (limited : Limited account.settings)
    (operation : Operation zone) : Limited (step account operation).settings := by
  obtain ⟨status, same⟩ := step_settings account operation
  rw [same]
  exact limited

/-- Every call whose replays are admitted keeps the limit. -/
theorem step_dayTrading (trading : DayTrading account)
    {operation : Operation zone} (admitted : ReplaysAdmitted account operation) :
    DayTrading (step account operation) := by
  have recorded := step_fillsHave filledKind_done trading.recorded operation
  rcases step_supervises account operation with same | ⟨world, stop, mutation, folded, call, done,
    same, orders⟩
  · have ledger : (step account operation).ledger = account.ledger := congrArg Prod.snd same.books
    have book : (step account operation).book = account.book := congrArg Prod.fst same.books
    refine ⟨trading.limited.step operation, recorded, by
      unfold FillsDated
      rw [ledger]
      exact trading.dated, ?_⟩
    have prior : priorCloseEquity (step account operation) = priorCloseEquity account :=
      funext (priorCloseEquity_congr (Prod.ext same.equity (by rw [Account.capital, ledger]; rfl)))
    rw [prior, book]
    exact step_orders (supervises_lawful _ _) trading.supervised (fun _ _ _ => rfl) (by simp) (by simp)
  · obtain ⟨_, _, done⟩ := bind_ok.mp done
    obtain ⟨changed, mutated, done⟩ := bind_ok.mp done
    obtain ⟨looped, loop, finished⟩ := bind_ok.mp done
    obtain ⟨_, tables, administration, _⟩ := call.mutates mutated
    have fresh : ∀ turn ∈ foldTurns world changed stop, turn.replaysRefused = false := by
      have allowed := admitted _ call.turns
      unfold mutatedTurns at allowed
      rw [mutated] at allowed
      exact allowed
    have limited : Limited changed.settings := by
      rw [show changed.settings = account.settings from
        congrArg Administration.settings administration]
      exact trading.limited
    have dated : FillsDated changed := by
      unfold FillsDated
      rw [tables]
      exact trading.dated
    obtain ⟨_, loopedDated, made⟩ := foldLoop_tradesMade limited
      (call.fillsHave filledKind_done mutated trading.recorded) dated fresh loop
    have supervised : Supervises (priorCloseEquity looped) looped.book.dayTrades looped.orders := by
      refine ⟨fun trade listed => ?_, foldLoop_withinLimit dated made loop⟩
      obtain ⟨before, after, split⟩ := List.append_of_mem listed
      obtain ⟨_, _, _, _, order, found, isDone, _⟩ := made before trade after split
      exact ⟨order, found, isDone⟩
    have after := (finishFold_supervised finished).trans same
    have ledger : (step account operation).ledger = looped.ledger := congrArg Prod.snd after.books
    have book : (step account operation).book = looped.book := congrArg Prod.fst after.books
    refine ⟨trading.limited.step operation, recorded, by
      unfold FillsDated
      rw [ledger]
      exact loopedDated, ?_⟩
    have prior : priorCloseEquity (step account operation) = priorCloseEquity looped :=
      funext (priorCloseEquity_congr (Prod.ext after.equity (by rw [Account.capital, ledger]; rfl)))
    rw [prior, book]
    refine orders _ _ (supervises_lawful _ _) ?_
    exact finishFold_orders (supervises_lawful _ _) supervised finished

/-- In every run of a legacy margin account whose folds replay no ordinary close that the
limit would refuse now, five sessions that open below the minimum equity hold at most
three ordinary day trades. -/
theorem day_trades_limited {spec : Spec} {capital : ℚ} {source : PriceSource} {allowShort : Bool}
    {now : Int} {account : Account}
    (created : createAccount zone spec capital source .pdt25kLegacy allowShort now = .ok account)
    (operations : List (Operation zone))
    (run : Admissible step ReplaysAdmitted account operations) :
    ∀ reached ∈ states step account operations,
      WithinLimit (priorCloseEquity reached) reached.orders reached.book.dayTrades := by
  have initially : DayTrading account := by
    rw [createAccount_ok created]
    refine ⟨⟨rfl, rfl⟩, ?_, ?_, ?_, ?_⟩
    · intro id recorded
      exact absurd rfl recorded
    · intro id fill found
      simp [newAccount] at found
    · intro trade listed
      cases listed
    · intro day _ _
      exact Nat.zero_le _
  have kept : ∀ reached ∈ states step account operations, DayTrading reached :=
    invariant_of_steps (fun _ _ trading admitted => step_dayTrading trading admitted) initially run
  exact fun reached member => (kept reached member).supervised.2

/-- A steady world in which no bar of one instrument has arrived. -/
def withheldWorld (day hours : Int) : World daylightTime :=
  { sampleWorld day hours with
    market := { (sampleWorld day hours).market with
      dailyBar := fun source ticker date now =>
        if ticker = "LATE" then none else (sampleWorld day hours).market.dailyBar source ticker date now } }

/-- A purchase at the open and its sale at the close of the same session. -/
def roundTrip (ticker : Ticker) (day : Int) : List (Operation daylightTime) :=
  [.submit (sampleWorld day 12)
      ⟨"in " ++ toString day, ticker, true, .moo, .buy, 10, none, day, none⟩,
    .submit (sampleWorld day 13)
      ⟨"out " ++ toString day, ticker, true, .moc, .sell, 10, none, day,
        some ("in " ++ toString day)⟩]

/-- One round trip on Tuesday whose bar is withheld, and three more from Wednesday on. -/
def fourTrips : List (Operation daylightTime) :=
  roundTrip "LATE" 739769 ++
    roundTrip "SYM" 739770 ++ [.settle (withheldWorld 739770 22) 739770] ++
    roundTrip "SYM" 739771 ++ [.settle (withheldWorld 739771 22) 739771] ++
    roundTrip "SYM" 739772 ++ [.settle (withheldWorld 739772 22) 739772]

theorem fourTrips_limited :
    (fourTrips.foldl step sampleAccount).book.dayTrades.length = 3 ∧
      ∀ reached ∈ states step sampleAccount fourTrips,
        WithinLimit (priorCloseEquity reached) reached.orders reached.book.dayTrades :=
  ⟨by decide +kernel, day_trades_limited sampleAccount_created fourTrips (by decide +kernel)⟩

/-- The same run, and Tuesday's bar arriving on Friday. -/
def lateTrip : List (Operation daylightTime) :=
  fourTrips ++ [.settle (sampleWorld 739772 23) 739772]

/-- The week then has a fourth day trade. -/
theorem lateTrip_exceeds :
    ¬ ∀ reached ∈ states step sampleAccount lateTrip,
      WithinLimit (priorCloseEquity reached) reached.orders reached.book.dayTrades := by
  intro limited
  have last := limited _ (last_mem_states step sampleAccount lateTrip) 739772 (by decide +kernel)
  have week : windowStart 739772 5 = 739768 := by decide +kernel
  have poor : ∀ offset ∈ List.range 5,
      priorCloseEquity (lateTrip.foldl step sampleAccount) (739768 + (offset : Nat)) < 25000 := by
    decide +kernel
  rw [week] at last
  refine absurd (last ?_) (by decide +kernel)
  intro session _ starts stops
  have inside := poor (session - 739768).toNat (List.mem_range.mpr (by omega))
  rwa [show 739768 + ((session - 739768).toNat : Int) = session by omega] at inside

end TradingEngine.Accounts
