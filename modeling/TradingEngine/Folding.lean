import TradingEngine.AccountService
import TradingEngine.Runs

/-!
# What a fold can do

The inversion of one settled order says once which writes it can make; every
later argument about settlement goes through it. The day loop of a fold leaves
the administration of the account alone: its settings, specification, lifecycle
log, intakes and reconciliations are those from before.
-/

namespace TradingEngine.Accounts

open KeyedTables OrderTypes Nyse Ledger Costs Fills Runs

variable {zone : Zone}

theorem ofLedger_ok {α : Type} {result : Except LedgerError α} {value : α} :
    ofLedger result = .ok value ↔ result = .ok value := by
  cases result <;> simp [ofLedger]

section AfterPdt

variable (world : World zone) (session : Session) (account : Account) (flagged : Bool)

@[simp] theorem afterPdt_book : (afterPdt world session account flagged).book = account.book := by
  cases flagged <;> rfl

@[simp] theorem afterPdt_ledger :
    (afterPdt world session account flagged).ledger = account.ledger := by
  cases flagged <;> rfl

@[simp] theorem afterPdt_settings :
    (afterPdt world session account flagged).settings = account.settings := by
  cases flagged <;> rfl

@[simp] theorem afterPdt_orders :
    (afterPdt world session account flagged).orders = account.orders := by
  cases flagged <;> rfl

end AfterPdt

/-- What an attempt that fills an order found: a positive quantity, a positive reference
and price, a time of the session, and the volume of the order's own price source. -/
structure PricedTerms (world : World zone) (account : Account) (row : PendingRow) (day : Int)
    (terms : FillTerms) : Prop where
  traded : 0 < row.qty
  referenced : 0 < terms.referencePx
  priced : 0 < terms.fillPx
  dated : dateOf terms.fillTs = day
  volume : terms.medianDollarVol =
    world.market.medianDollarVolume account.settings.priceSource row.ticker day (some world.now)

theorem v2Result_filled {market : Market zone} {profile : ExecutionProfile} {side : Side}
    {qty reference : ℚ} {volume : Option ℚ} {friction : Friction} {kind : FillKind} {fillTs : Int}
    {terms : FillTerms}
    (priced : v2Result market profile side qty reference volume friction kind fillTs =
      .filled terms) :
    0 < qty ∧ 0 < terms.referencePx ∧ 0 < terms.fillPx ∧ terms.fillTs = fillTs ∧
      terms.medianDollarVol = volume := by
  unfold v2Result at priced
  split at priced
  · cases priced
  · rename_i traded
    split at priced
    · cases priced
    · rename_i referenced
      extract_lets participation impactBps slipBps fillPx at priced
      split at priced
      · cases priced
      · split at priced
        · cases priced
        · rename_i positive
          cases priced
          exact ⟨not_le.mp traded, not_le.mp referenced, not_le.mp positive, rfl, rfl⟩

/-- Every kind of attempt that fills an order prices it in the same way. -/
theorem fillAttempt_filled {world : World zone} {account : Account} {row : PendingRow} {day : Int}
    {terms : FillTerms} (filled : fillAttempt world account row day = .filled terms) :
    PricedTerms world account row day terms := by
  have priced : ∀ {reference : ℚ} {friction : Friction} {kind : FillKind} {fillTs : Int},
      v2Result world.market account.executionProfile row.side row.qty reference
        (world.market.medianDollarVolume account.settings.priceSource row.ticker day
          (some world.now)) friction kind fillTs = .filled terms →
      dateOf fillTs = day → PricedTerms world account row day terms := by
    intro reference friction kind fillTs attempted date
    obtain ⟨traded, referenced, positive, rfl, volume⟩ := v2Result_filled attempted
    exact ⟨traded, referenced, positive, date, volume⟩
  have traded : ∀ bar ∈ eligibleMinutes world.market account.settings.priceSource row day world.now,
      dateOf (bar.ts + minute) = day := by
    intro bar listed
    obtain ⟨after, before⟩ := world.market.minutes_within _ _ _ _ bar (List.mem_of_mem_filter listed)
    exact dateOf_traded after before
  unfold fillAttempt at filled
  dsimp only at filled
  split at filled
  · cases filled
  · split at filled
    · unfold attemptNextOpenFill at filled
      split at filled
      · cases filled
      · split at filled
        · split at filled <;> cases filled
        · exact priced filled (dateOf_opened zone day)
    · unfold attemptAuctionFill at filled
      split at filled
      · cases filled
      · split at filled
        · cases filled
        · split at filled
          · cases filled
          · exact priced filled (by simp)
    · unfold attemptAuctionFill at filled
      split at filled
      · cases filled
      · split at filled
        · cases filled
        · split at filled
          · cases filled
          · exact priced filled (by simp)
    · unfold attemptIntradayMarketFill at filled
      split at filled
      · cases filled
      · split at filled
        · cases filled
        · split at filled
          · split at filled
            · cases filled
            · unfold missingIntradayResult at filled
              split at filled <;> cases filled
          · rename_i bar rest bars
            exact priced filled (traded bar (by rw [bars]; exact List.mem_cons_self))
    · unfold attemptIntradayLimitFill at filled
      split at filled
      · cases filled
      · split at filled
        · cases filled
        · split at filled
          · cases filled
          · extract_lets complete bars at filled
            split at filled
            · split at filled
              · cases filled
              · unfold missingIntradayResult at filled
                split at filled <;> cases filled
            · split at filled
              · split at filled
                · cases filled
                · unfold missingIntradayResult at filled
                  split at filled <;> cases filled
              · rename_i bar touched
                exact priced filled (traded bar (List.mem_of_find?_eq_some touched))
    · cases filled

/-- A fill that went through: the checks it passed and what it booked. -/
structure Execution (world : World zone) (session : Session) (account : Account) (row : PendingRow)
    (terms : FillTerms) where
  sized : Sized
  applied : Applied
  sizing : sizeFill session account row terms = .ok (some sized)
  margin : marginRefusal world session account row sized terms = .ok none
  filled : applyFill account.ledgerSettings account.ledger.times account.book
    (executedFill row sized.qty terms session.day) (some sized.fees) = .ok applied
  unchanged : isClose applied.qty sized.qty (1 / 10 ^ 12) (1 / 10 ^ 12) = true
  traded : 0 < applied.qty
  unfilled : account.ledger.fills.lookup row.orderId = none

/-- The account with an executed fill booked and recorded. -/
def Execution.booked {world : World zone} {session : Session} {account : Account}
    {row : PendingRow} {terms : FillTerms} (execution : Execution world session account row terms) :
    Account :=
  recordFill session account row execution.applied terms execution.sized.fees

/-- Everything that settling one order can do. -/
inductive Settlement (world : World zone) (session : Session) (account : Account)
    (row : PendingRow) (result : FillResult) : Account × Settled → Prop where
  | stopped (state : OrderState) (reason : List Reason)
      (stopped : preflight world session account row = .stop state reason) :
      Settlement world session account row result
        (account.setState row.orderId state reason world.now, .rejected)
  | waited (unready : preflight world session account row = .wait ∨
      ∃ qty, preflight world session account row = .go qty ∧ result = .pending) :
      Settlement world session account row result (account.missingBar row world.now, .pending)
  | unfilled (qty : ℚ) (reason : Reason) (fillTs : Option Int)
      (ready : preflight world session account row = .go qty)
      (rejected : result = .rejected reason fillTs) :
      Settlement world session account row result
        (account.setState row.orderId .rejected [reason] world.now, .rejected)
  | lapsed (qty : ℚ) (reason : Reason)
      (ready : preflight world session account row = .go qty) (expired : result = .expired reason) :
      Settlement world session account row result
        (account.setState row.orderId .expired [reason] world.now, .expired)
  | refused (qty : ℚ) (terms : FillTerms) (flagged : Bool) (reason : Reason)
      (ready : preflight world session account row = .go qty) (priced : result = .filled terms) :
      Settlement world session account row result
        ((afterPdt world session account flagged).setState row.orderId .rejected [reason]
          world.now, .rejected)
  | vanished (qty : ℚ) (terms : FillTerms) (flagged : Bool)
      (ready : preflight world session account row = .go qty) (priced : result = .filled terms) :
      Settlement world session account row result
        (recordPenalty world session ((afterPdt world session account flagged).setState row.orderId
          .filled row.stateReason world.now) { row with qty := qty }, .filled)
  | executed (qty : ℚ) (terms : FillTerms) (flagged : Bool)
      (ready : preflight world session account row = .go qty) (priced : result = .filled terms)
      (execution : Execution world session (afterPdt world session account flagged)
        { row with qty := qty } terms) :
      Settlement world session account row result
        (recordPenalty world session (execution.booked.setState row.orderId .filled
          row.stateReason world.now) { row with qty := qty }, .filled)

theorem persistFill_cases {session : Session} {account booked : Account} {row : PendingRow}
    {sized : Sized} {terms : FillTerms} {quantity : ℚ}
    (persisted : persistFill session account row sized terms = .ok (booked, quantity)) :
    (booked = account ∧ quantity = 0) ∨
    ∃ applied, applyFill account.ledgerSettings account.ledger.times account.book
        (executedFill row sized.qty terms session.day) (some sized.fees) = .ok applied ∧
      0 < applied.qty ∧ account.ledger.fills.lookup row.orderId = none ∧
      booked = recordFill session account row applied terms sized.fees ∧
      quantity = applied.qty := by
  obtain ⟨applied, filled, persisted⟩ := bind_ok.mp persisted
  by_cases refused : applied.qty ≤ 0
  · simp only [if_pos refused, Except.ok.injEq, Prod.mk.injEq] at persisted
    exact .inl ⟨persisted.1.symm, persisted.2.symm⟩
  · simp only [if_neg refused] at persisted
    by_cases present : (account.ledger.fills.lookup row.orderId).isSome
    · simp [present] at persisted
    · simp only [if_neg present, Except.ok.injEq, Prod.mk.injEq] at persisted
      exact .inr ⟨applied, ofLedger_ok.mp filled, not_le.mp refused, by simpa using present,
        persisted.1.symm, persisted.2.symm⟩

/-- A fill that does not raise was refused, vanished in the tolerance, or executed. -/
theorem executeFill_settlement {world : World zone} {session : Session} {account : Account}
    {row : PendingRow} {qty : ℚ} {terms : FillTerms} {outcome : Account × Settled}
    (ready : preflight world session account row = .go qty)
    (settled : executeFill world session account { row with qty := qty } terms = .ok outcome) :
    Settlement world session account row (.filled terms) outcome := by
  obtain ⟨⟨refusal, flagged⟩, checked, settled⟩ := bind_ok.mp settled
  simp only at settled
  split at settled
  · cases settled
    exact .refused qty terms flagged _ ready rfl
  · obtain ⟨sizing, sized, settled⟩ := bind_ok.mp settled
    cases sizing with
    | none =>
      cases settled
      exact .refused qty terms flagged .ledgerRefused ready rfl
    | some order =>
      obtain ⟨refusal, margined, settled⟩ := bind_ok.mp settled
      cases refusal with
      | some reason =>
        cases settled
        exact .refused qty terms flagged reason ready rfl
      | none =>
        obtain ⟨⟨booked, quantity⟩, persisted, settled⟩ := bind_ok.mp settled
        simp only at settled
        split at settled
        · rename_i same
          cases settled
          rcases persistFill_cases persisted with ⟨rfl, rfl⟩ | ⟨applied, filled, traded, unfilled,
            rfl, rfl⟩
          · exact .vanished qty terms flagged ready rfl
          · exact .executed qty terms flagged ready rfl
              ⟨order, applied, sized, margined, filled, same, traded, unfilled⟩
        · cases settled

/-- A settled order did one of the listed things. -/
theorem settleOrder_settlement {world : World zone} {session : Session} {account : Account}
    {row : PendingRow} {result : FillResult} {outcome : Account × Settled}
    (settled : settleOrder world session account row result = .ok outcome) :
    Settlement world session account row result outcome := by
  unfold settleOrder at settled
  cases checked : preflight world session account row with
  | stop state reason =>
    simp only [checked, Except.ok.injEq] at settled
    exact settled ▸ .stopped state reason checked
  | wait =>
    simp only [checked, Except.ok.injEq] at settled
    exact settled ▸ .waited (.inl checked)
  | go qty =>
    simp only [checked] at settled
    cases result with
    | pending =>
      cases settled
      exact .waited (.inr ⟨qty, checked, rfl⟩)
    | rejected reason fillTs =>
      cases settled
      exact .unfilled qty reason fillTs checked rfl
    | expired reason =>
      cases settled
      exact .lapsed qty reason checked rfl
    | filled terms =>
      simp only at settled
      split at settled
      · cases settled
        exact .refused qty terms false .illiquidAggregate checked rfl
      · exact executeFill_settlement checked settled

/-- What settlement only reads. -/
structure Administration where
  settings : AccountSettings
  spec : Spec
  executionProfile : ExecutionProfile
  created : Int
  active : Bool
  log : List AccountEvent
  reconciliations : Table Int Reconciliation
  intakes : Table String Intake

/-- The administration of an account. -/
def Account.administration (account : Account) : Administration :=
  ⟨account.settings, account.spec, account.executionProfile, account.created, account.active,
    account.log, account.reconciliations, account.intakes⟩

@[simp] theorem setState_administration (account : Account) (id : OrderId) (state : OrderState)
    (reason : List Reason) (stateAt : Int) :
    (account.setState id state reason stateAt).administration = account.administration := rfl

@[simp] theorem missingBar_administration (account : Account) (row : PendingRow) (now : Int) :
    (account.missingBar row now).administration = account.administration := rfl

@[simp] theorem afterPdt_administration (world : World zone) (session : Session)
    (account : Account) (flagged : Bool) :
    (afterPdt world session account flagged).administration = account.administration := by
  cases flagged <;> rfl

@[simp] theorem recordFill_administration (session : Session) (account : Account)
    (row : PendingRow) (applied : Applied) (terms : FillTerms) (fees : Fees) :
    (recordFill session account row applied terms fees).administration = account.administration :=
  rfl

@[simp] theorem recordPenalty_administration (world : World zone) (session : Session)
    (account : Account) (row : PendingRow) :
    (recordPenalty world session account row).administration = account.administration := by
  unfold recordPenalty
  split <;> rfl

@[simp] theorem recordPenalty_orders (world : World zone) (session : Session)
    (account : Account) (row : PendingRow) :
    (recordPenalty world session account row).orders = account.orders := by
  unfold recordPenalty
  split <;> rfl

/-- Only the book and the retained dividends and cash movements differ. -/
def BooksOnly (before after : Account) : Prop :=
  after = { before with
    book := after.book
    ledger := { before.ledger with
      dividends := after.ledger.dividends, cashEvents := after.ledger.cashEvents } }

namespace BooksOnly

theorem refl (account : Account) : BooksOnly account account := rfl

theorem trans {first second third : Account} (earlier : BooksOnly first second)
    (later : BooksOnly second third) : BooksOnly first third := by
  unfold BooksOnly at *
  rw [later, earlier]

theorem administration {before after : Account} (same : BooksOnly before after) :
    after.administration = before.administration := by
  rw [same]
  rfl

theorem orders {before after : Account} (same : BooksOnly before after) :
    after.orders = before.orders := by
  rw [same]

theorem fills {before after : Account} (same : BooksOnly before after) :
    after.ledger.fills = before.ledger.fills := by
  rw [same]

end BooksOnly

/-- Only money moved: the positions and the lots are those from before. -/
structure MoneyOnly (before after : Account) : Prop where
  books : BooksOnly before after
  credited : ∃ amount, after.book = before.book.credit amount

namespace MoneyOnly

theorem refl (account : Account) : MoneyOnly account account :=
  ⟨rfl, 0, by simp [Book.credit]⟩

theorem trans {first second third : Account} (earlier : MoneyOnly first second)
    (later : MoneyOnly second third) : MoneyOnly first third := by
  obtain ⟨paid, before⟩ := earlier.credited
  obtain ⟨more, after⟩ := later.credited
  exact ⟨earlier.books.trans later.books, paid + more,
    by rw [after, before]; simp [Book.credit, add_assoc]⟩

theorem dayTrades {before after : Account} (moved : MoneyOnly before after) :
    after.book.dayTrades = before.book.dayTrades := by
  obtain ⟨amount, same⟩ := moved.credited
  rw [same]
  rfl

end MoneyOnly

theorem applyCashEvent_moneyOnly (account : Account) (day : Int) (row : CashRow) :
    MoneyOnly account (applyCashEvent account day row) :=
  ⟨rfl, row.amount, rfl⟩

theorem postAccrual_moneyOnly (account : Account) (day : Int) (row : CashRow) :
    MoneyOnly account (postAccrual account day row) := by
  have replayed : ∀ amount, MoneyOnly account { account with book := account.book.credit amount } :=
    fun amount => ⟨rfl, amount, rfl⟩
  unfold postAccrual
  dsimp only
  split
  · exact replayed _
  · exact (replayed _).trans (applyCashEvent_moneyOnly _ _ _)

theorem accrueInterest_moneyOnly (zone : Zone) (account : Account) (day : Int) :
    MoneyOnly account (accrueInterest zone account day) := by
  unfold accrueInterest
  split
  · exact postAccrual_moneyOnly _ _ _
  · exact .refl account

theorem accrueBorrow_moneyOnly {market : Market zone} {account next : Account} {day : Int}
    (accrued : accrueBorrow market account day = .ok next) : MoneyOnly account next := by
  unfold accrueBorrow at accrued
  split at accrued
  · refine foldlM_invariant (MoneyOnly account) ?_ (.refl account) accrued
    intro row _ state after same charged
    obtain ⟨close, _, posted⟩ := bind_ok.mp charged
    cases posted
    exact same.trans (postAccrual_moneyOnly _ _ _)
  · cases accrued
    exact .refl account

theorem creditDividend_moneyOnly (zone : Zone) (day : Int) (account : Account)
    (payment : Ticker × ℚ × ℚ) : MoneyOnly account (creditDividend zone day account payment) := by
  unfold creditDividend
  dsimp only
  split
  · split
    · exact .refl account
    · exact ⟨rfl, _, rfl⟩
  · split
    · exact applyCashEvent_moneyOnly _ _ _
    · exact .refl account

theorem creditDividends_moneyOnly {world : World zone} {account next : Account} {day : Int}
    (credited : creditDividends world account day = .ok next) : MoneyOnly account next := by
  unfold creditDividends at credited
  dsimp only at credited
  split at credited
  · cases credited
    exact .refl account
  · split at credited
    · cases credited
    · obtain ⟨holding, _, credited⟩ := bind_ok.mp credited
      cases credited
      refine foldl_invariant (MoneyOnly account) ?_ (.refl account)
      intro payment _ state same
      exact same.trans (creditDividend_moneyOnly _ _ _ _)

/-- The order that an entry executes. -/
def Item.order : Item → Option OrderId
  | .execute row _ => some row.orderId
  | _ => none

/-- Entries other than executions change the book and the ledger only. -/
theorem applyItem_booksOnly {world : World zone} {session : Session} {account next : Account}
    {item : Item} (idle : item.order = none)
    (applied : applyItem world session account item = .ok next) : BooksOnly account next := by
  cases item with
  | recorded event =>
    obtain ⟨book, _, done⟩ := bind_ok.mp applied
    cases done
    rfl
  | interest =>
    cases applied
    exact (accrueInterest_moneyOnly _ _ _).books
  | dividends => exact (creditDividends_moneyOnly applied).books
  | borrow => exact (accrueBorrow_moneyOnly applied).books
  | execute row result => cases idle

theorem settleOrder_administration {world : World zone} {session : Session} {account : Account}
    {row : PendingRow} {result : FillResult} {outcome : Account × Settled}
    (settled : settleOrder world session account row result = .ok outcome) :
    outcome.1.administration = account.administration := by
  cases settleOrder_settlement settled with
  | stopped => simp
  | waited => simp
  | unfilled => simp
  | lapsed => simp
  | refused => simp
  | vanished => simp
  | executed => simp [Execution.booked]

theorem applyItem_administration {world : World zone} {session : Session}
    {account next : Account} {item : Item}
    (applied : applyItem world session account item = .ok next) :
    next.administration = account.administration := by
  cases idle : item.order with
  | none => exact (applyItem_booksOnly idle applied).administration
  | some id =>
    cases item with
    | execute row result =>
      obtain ⟨outcome, settled, rfl⟩ := map_ok.mp applied
      exact settleOrder_administration settled
    | _ => cases idle

variable {settings : AccountSettings}

theorem foldSession_ok {world : World zone} {account next : Account}
    {day : Int} (folded : foldSession world settings account day = .ok next) :
    ∃ sequence, requireSources world account settings
        ((localPrepared world account day).map Prod.fst) = .ok () ∧
      events zone .account account.ledger (some day) (some day) = .ok sequence ∧
      (sessionItems world account day sequence).foldlM
        (applyItem world (openSession world settings account day)) account = .ok next := by
  obtain ⟨_, sources, folded⟩ := bind_ok.mp folded
  obtain ⟨sequence, listed, folded⟩ := bind_ok.mp folded
  exact ⟨sequence, sources, ofLedger_ok.mp listed, folded⟩

theorem markAccount_ok {world : World zone} {account next : Account} {day : Int}
    (marked : markAccount world account day = .ok next) :
    ∃ row prices, next = { account with
      equity := account.equity.insert day row, marks := account.marks.insert day prices } := by
  obtain ⟨marks, _, marked⟩ := bind_ok.mp marked
  cases marked
  exact ⟨_, _, rfl⟩

theorem foldDay_ok {world : World zone} {plan : FoldPlan} {account next : Account} {day : Int}
    (folded : foldDay world plan account day = .ok next) :
    (isSession day = false ∧ next = account) ∨
    (isSession day = true ∧ ∃ settled, foldSession world plan.settings account day = .ok settled ∧
      (next = settled ∨ markAccount world settled day = .ok next)) := by
  unfold foldDay at folded
  split at folded
  · rename_i session
    obtain ⟨settled, done, folded⟩ := bind_ok.mp folded
    refine .inr ⟨session, settled, done, ?_⟩
    split at folded
    · exact .inr folded
    · cases folded
      exact .inl rfl
  · rename_i weekend
    cases folded
    exact .inl ⟨by simpa using weekend, rfl⟩

theorem openFold_ok {world : World zone} {account opened : Account} {stop : Int} {plan : FoldPlan}
    (done : openFold world account stop = .ok (opened, plan)) :
    ∃ sequence book, events zone .account account.ledger none none = .ok sequence ∧
      rebuildState zone account.ledgerSettings (captureSplits world account plan.stop).ledger
        (some (plan.start - 1)) = .ok book ∧
      opened = { captureSplits world account plan.stop with book := book } ∧
      plan.start = (sequence.map fun event => event.date zone .account).foldl min account.created ∧
      plan.stop = (account.equity.keys ++
        sequence.map fun event => event.date zone .account).foldl max stop ∧
      plan.settings = account.settings := by
  obtain ⟨sequence, listed, done⟩ := bind_ok.mp done
  obtain ⟨book, rebuilt, done⟩ := bind_ok.mp done
  cases done
  exact ⟨sequence, book, ofLedger_ok.mp listed, ofLedger_ok.mp rebuilt, rfl, rfl, rfl, rfl⟩

theorem openFold_window {world : World zone} {account opened : Account} {stop : Int}
    {plan : FoldPlan} (done : openFold world account stop = .ok (opened, plan)) :
    plan.start ≤ account.created ∧ stop ≤ plan.stop := by
  obtain ⟨_, _, _, _, _, start, last, _⟩ := openFold_ok done
  rw [start, last]
  exact ⟨(foldl_min_le _ _).1, (le_foldl_max _ _).1⟩

variable {final : Account}

theorem foldLoop_ok {world : World zone} {account : Account} {stop : Int}
    (completed : foldLoop world account stop = .ok final) :
    ∃ opened plan, openFold world account stop = .ok (opened, plan) ∧
      (daysFrom plan.start plan.stop).foldlM (foldDay world plan) opened = .ok final := by
  obtain ⟨⟨opened, plan⟩, done, completed⟩ := bind_ok.mp completed
  exact ⟨opened, plan, done, completed⟩

/-- Settling an order writes no other order. -/
theorem settleOrder_otherOrders {world : World zone} {session : Session} {account : Account}
    {row : PendingRow} {result : FillResult} {outcome : Account × Settled} {other : OrderId}
    (different : other ≠ row.orderId)
    (settled : settleOrder world session account row result = .ok outcome) :
    outcome.1.orders.lookup other = account.orders.lookup other := by
  have written : ∀ (state : Account) (next : OrderState) (reason : List Reason),
      (state.setState row.orderId next reason world.now).orders.lookup other =
        state.orders.lookup other := by
    intro state next reason
    simp [Account.setState, lookup_rewriteOrder, different]
  cases settleOrder_settlement settled with
  | stopped => exact written _ _ _
  | waited => exact written _ _ _
  | unfilled => exact written _ _ _
  | lapsed => exact written _ _ _
  | refused => rw [written, afterPdt_orders]
  | vanished => rw [recordPenalty_orders, written, afterPdt_orders]
  | executed qty terms flagged _ _ execution =>
    rw [recordPenalty_orders, written]
    simp [Execution.booked, recordFill]

/-- An entry writes at most the order that it executes. -/
theorem applyItem_otherOrders {world : World zone} {session : Session} {account next : Account}
    {item : Item} {other : OrderId} (different : item.order ≠ some other)
    (applied : applyItem world session account item = .ok next) :
    next.orders.lookup other = account.orders.lookup other := by
  cases executes : item.order with
  | none => rw [(applyItem_booksOnly executes applied).orders]
  | some id =>
    cases item with
    | execute row result =>
      obtain ⟨outcome, settled, rfl⟩ := map_ok.mp applied
      exact settleOrder_otherOrders (fun same => different (by simp [Item.order, same])) settled
    | _ => cases executes

theorem pendingRow_orderId {id : OrderId} {order : Order} {row : PendingRow}
    (pending : pendingRow id order = some row) : row.orderId = id := by
  unfold pendingRow at pending
  split at pending
  · cases pending
  · split at pending
    · cases pending
      rfl
    · cases pending

theorem mem_pendingRows {account : Account} {row : PendingRow} :
    row ∈ account.pendingRows ↔
      ∃ order, account.orders.lookup row.orderId = some order ∧
        pendingRow row.orderId order = some row := by
  unfold Account.pendingRows
  rw [List.mem_insertionSort, List.mem_filterMap]
  constructor
  · rintro ⟨entry, listed, pending⟩
    have id := pendingRow_orderId pending
    refine ⟨entry.2, ?_, ?_⟩
    · rw [id]
      exact lookup_of_mem listed
    · rw [id]
      exact pending
  · rintro ⟨order, found, pending⟩
    exact ⟨⟨row.orderId, order⟩, mem_of_lookup found, pending⟩

theorem pendingRows_unique {account : Account} {row other : PendingRow}
    (waits : row ∈ account.pendingRows) (alsoWaits : other ∈ account.pendingRows)
    (same : row.orderId = other.orderId) : row = other := by
  obtain ⟨order, found, read⟩ := mem_pendingRows.mp waits
  obtain ⟨otherOrder, present, readOther⟩ := mem_pendingRows.mp alsoWaits
  rw [same] at found read
  rw [found] at present
  cases present
  rw [read] at readOther
  exact Option.some.inj readOther

theorem pendingRows_distinct (account : Account) :
    account.pendingRows.Pairwise fun a b => a.orderId ≠ b.orderId := by
  have keys := List.nodupKeys_iff_pairwise.mp account.orders.nodupKeys
  have listed : (account.orders.entries.filterMap fun row => pendingRow row.1 row.2).Pairwise
      fun a b => a.orderId ≠ b.orderId := by
    refine keys.filterMap _ ?_
    intro a b different row found other foundOther same
    rw [pendingRow_orderId found, pendingRow_orderId foundOther] at same
    exact different same
  exact (List.perm_insertionSort _ _).symm.pairwise listed fun h => h.symm

/-- The entries of a session execute distinct orders. -/
theorem sessionItems_distinct (world : World zone) (account : Account) (day : Int)
    (sequence : List Event) :
    (sessionItems world account day sequence).Pairwise
      fun a b => ∀ id ∈ a.order, b.order ≠ some id := by
  have rows := pendingRows_distinct account
  have listed : ((replayed sequence).map Item.recorded ++
      [Item.dividends, Item.borrow, Item.interest] ++
      (localPrepared world account day).map fun item => Item.execute item.1 item.2).Pairwise
        fun a b => ∀ id ∈ a.order, b.order ≠ some id := by
    rw [List.pairwise_append]
    refine ⟨?_, ?_, ?_⟩
    · refine List.pairwise_of_forall_mem_list ?_
      intro a inside b _ id executes
      simp only [List.mem_append, List.mem_map, List.mem_cons, List.not_mem_nil, or_false] at inside
      rcases inside with ⟨event, _, rfl⟩ | rfl | rfl | rfl <;> simp [Item.order] at executes
    · simp only [localPrepared, List.map_map, List.pairwise_map]
      refine (rows.filter _).imp ?_
      intro a b different id executes same
      simp only [Function.comp_apply, Item.order, Option.mem_def, Option.some.injEq] at executes same
      exact different (executes.trans same.symm)
    · intro a inside b _ id executes
      simp only [List.mem_append, List.mem_map, List.mem_cons, List.not_mem_nil, or_false] at inside
      rcases inside with ⟨event, _, rfl⟩ | rfl | rfl | rfl <;> simp [Item.order] at executes
  refine (List.perm_insertionSort _ _).symm.pairwise listed ?_
  intro a b apart id executes same
  exact apart id same executes

/-- The entries of a session with the states in which they are applied. -/
def sessionVisits (world : World zone) (settings : AccountSettings) (begun : Account) (day : Int)
    (sequence : List Event) : List (Account × Item) :=
  visitedM (applyItem world (openSession world settings begun day)) begun
    (sessionItems world begun day sequence)

/-- An order is as it was at the start of the session when its turn comes. -/
theorem sessionVisits_untouched {world : World zone}
    {begun : Account} {day : Int} {sequence : List Event} :
    ∀ visit ∈ sessionVisits world settings begun day sequence, ∀ id ∈ visit.2.order,
      visit.1.orders.lookup id = begun.orders.lookup id := by
  have general : ∀ (session : Session) (items : List Item) (state : Account),
      items.Pairwise (fun a b => ∀ id ∈ a.order, b.order ≠ some id) →
      ∀ visit ∈ visitedM (applyItem world session) state items, ∀ id ∈ visit.2.order,
        visit.1.orders.lookup id = state.orders.lookup id := by
    intro session items
    induction items with
    | nil => simp [visitedM]
    | cons item rest ih =>
      intro state distinct visit member id executes
      rcases List.mem_cons.mp member with rfl | later
      · rfl
      · split at later
        · rename_i next applied
          have other : item.order ≠ some id := fun same =>
            (List.pairwise_cons.mp distinct).1 visit.2 (visitedM_mem visit later) id same executes
          rw [ih next (List.pairwise_cons.mp distinct).2 visit later id executes,
            applyItem_otherOrders other applied]
        · simp at later
  exact general _ _ _ (sessionItems_distinct world begun day sequence)

/-- One entry of a fold: the session it belongs to, the account at the start of that
session, and the account in its turn. -/
structure Turn where
  session : Session
  begun : Account
  account : Account
  item : Item

/-- The entries of one day as turns. Other days than sessions, and sessions whose
sources are unreadable, have none. -/
def dayTurns (world : World zone) (settings : AccountSettings) (begun : Account) (day : Int) :
    List Turn :=
  if isSession day ∧ requireSources world begun settings
      ((localPrepared world begun day).map Prod.fst) = .ok () then
    match events zone .account begun.ledger (some day) (some day) with
    | .ok sequence => (sessionVisits world settings begun day sequence).map fun visit =>
        ⟨openSession world settings begun day, begun, visit.1, visit.2⟩
    | .error _ => []
  else []

/-- Every entry that the day loop of a fold reaches, in order. -/
def foldTurns (world : World zone) (account : Account) (stop : Int) : List Turn :=
  match openFold world account stop with
  | .ok (opened, plan) =>
    (visitedM (foldDay world plan) opened (daysFrom plan.start plan.stop)).flatMap fun visit =>
      dayTurns world plan.settings visit.1 visit.2
  | .error _ => []

theorem mem_dayTurns {world : World zone} {begun : Account}
    {day : Int} {turn : Turn} :
    turn ∈ dayTurns world settings begun day ↔
      turn.begun = begun ∧ turn.session = openSession world settings begun day ∧
      (isSession day = true ∧ requireSources world begun settings
        ((localPrepared world begun day).map Prod.fst) = .ok ()) ∧
      ∃ sequence, events zone .account begun.ledger (some day) (some day) = .ok sequence ∧
        (turn.account, turn.item) ∈ sessionVisits world settings begun day sequence := by
  unfold dayTurns
  constructor
  · intro member
    split at member
    · rename_i running
      split at member
      · rename_i sequence listed
        obtain ⟨visit, stepped, rfl⟩ := List.mem_map.mp member
        exact ⟨rfl, rfl, running, sequence, listed, stepped⟩
      · simp at member
    · simp at member
  · rintro ⟨rfl, session, running, sequence, listed, stepped⟩
    rw [if_pos running, listed]
    exact List.mem_map.mpr ⟨(turn.account, turn.item), stepped, by rw [← session]⟩

theorem mem_foldTurns {world : World zone} {account : Account} {stop : Int} {turn : Turn}
    (member : turn ∈ foldTurns world account stop) :
    ∃ day sequence, isSession day = true ∧
      events zone .account turn.begun.ledger (some day) (some day) = .ok sequence ∧
      turn.session = openSession world account.settings turn.begun day ∧
      (turn.account, turn.item) ∈ sessionVisits world account.settings turn.begun day sequence := by
  unfold foldTurns at member
  split at member
  · rename_i opened plan done
    obtain ⟨_, _, _, _, _, _, _, settings⟩ := openFold_ok done
    obtain ⟨visit, _, inside⟩ := List.mem_flatMap.mp member
    obtain ⟨begun, session, running, sequence, listed, visited⟩ := mem_dayTurns.mp inside
    rw [settings] at session visited
    exact ⟨visit.2, sequence, running.1, begun ▸ listed, begun ▸ session, begun ▸ visited⟩
  · simp at member

theorem foldDay_invariant {world : World zone} {plan : FoldPlan} (invariant : Account → Prop)
    {account next : Account} {day : Int}
    (entries : ∀ turn ∈ dayTurns world plan.settings account day, ∀ next,
      invariant turn.begun → invariant turn.account →
      applyItem world turn.session turn.account turn.item = .ok next → invariant next)
    (marks : ∀ state next, invariant state → markAccount world state day = .ok next →
      invariant next)
    (initially : invariant account)
    (folded : foldDay world plan account day = .ok next) : invariant next := by
  rcases foldDay_ok folded with ⟨_, rfl⟩ | ⟨session, settled, done, finished⟩
  · exact initially
  · obtain ⟨sequence, sources, listed, ran⟩ := foldSession_ok done
    have kept : invariant settled := by
      refine foldlM_visited invariant ?_ initially ran
      intro visit visited after holds applied
      exact entries ⟨openSession world plan.settings account day, account, visit.1, visit.2⟩
        (mem_dayTurns.mpr ⟨rfl, rfl, ⟨session, sources⟩, sequence, listed, visited⟩)
        after initially holds applied
    rcases finished with rfl | marked
    · exact kept
    · exact marks settled next kept marked

section FoldInvariants

variable {world : World zone} (invariant : Account → Prop) {account : Account} {stop : Int}
  (opening : ∀ opened plan, openFold world account stop = .ok (opened, plan) → invariant opened)
  (entries : ∀ turn ∈ foldTurns world account stop, ∀ next,
    invariant turn.begun → invariant turn.account →
    applyItem world turn.session turn.account turn.item = .ok next → invariant next)
  (marks : ∀ state day next, invariant state → markAccount world state day = .ok next →
    invariant next)

include opening entries marks

/-- What the entries and the marks of a fold preserve holds at the start of each day. -/
theorem foldDays_invariant {opened : Account} {plan : FoldPlan}
    (done : openFold world account stop = .ok (opened, plan)) :
    ∀ visit ∈ visitedM (foldDay world plan) opened (daysFrom plan.start plan.stop),
      invariant visit.1 ∧ ∀ next, foldDay world plan visit.1 visit.2 = .ok next →
        invariant next := by
  have turns : ∀ visit ∈ visitedM (foldDay world plan) opened (daysFrom plan.start plan.stop),
      ∀ turn ∈ dayTurns world plan.settings visit.1 visit.2,
        turn ∈ foldTurns world account stop := by
    intro visit visited turn inside
    unfold foldTurns
    rw [done]
    exact List.mem_flatMap.mpr ⟨visit, visited, inside⟩
  have kept : ∀ visit ∈ visitedM (foldDay world plan) opened (daysFrom plan.start plan.stop),
      ∀ next, invariant visit.1 → foldDay world plan visit.1 visit.2 = .ok next →
        invariant next := by
    intro visit visited next holds folded
    exact foldDay_invariant invariant
      (fun turn inside => entries turn (turns visit visited turn inside))
      (fun state after => marks state visit.2 after) holds folded
  intro visit visited
  have reached := visitedM_invariant invariant kept (opening opened plan done) visit visited
  exact ⟨reached, fun next => kept visit visited next reached⟩

/-- What the entries and the marks of a fold preserve holds after its day loop. -/
theorem foldLoop_invariant {final : Account} (completed : foldLoop world account stop = .ok final) :
    invariant final := by
  obtain ⟨opened, plan, done, days⟩ := foldLoop_ok completed
  refine foldlM_visited invariant ?_ (opening opened plan done) days
  intro visit visited next _ folded
  exact (foldDays_invariant invariant opening entries marks done visit visited).2 next folded

/-- What the entries and the marks of a fold preserve holds in every turn, and where
the turn's session began. -/
theorem foldTurns_invariant :
    ∀ turn ∈ foldTurns world account stop, invariant turn.begun ∧ invariant turn.account := by
  intro turn member
  unfold foldTurns at member
  split at member
  · rename_i opened plan done
    obtain ⟨visit, visited, inside⟩ := List.mem_flatMap.mp member
    obtain ⟨begun, session, running, sequence, listed, stepped⟩ := mem_dayTurns.mp inside
    have reached := (foldDays_invariant invariant opening entries marks done visit visited).1
    refine ⟨begun ▸ reached, ?_⟩
    refine visitedM_invariant invariant ?_ reached (turn.account, turn.item) stepped
    intro inner innerVisited next holds applied
    refine entries ⟨openSession world plan.settings visit.1 visit.2, visit.1, inner.1, inner.2⟩ ?_
      next reached holds applied
    unfold foldTurns
    rw [done]
    exact List.mem_flatMap.mpr ⟨visit, visited,
      mem_dayTurns.mpr ⟨rfl, rfl, running, sequence, listed, innerVisited⟩⟩
  · simp at member

end FoldInvariants

/-- What the entries and the marks of a completed fold preserve lasts from any turn to
the end. -/
theorem foldTurns_lasts {world : World zone} (invariant : Account → Prop) {account : Account}
    {stop : Int}
    (entries : ∀ turn ∈ foldTurns world account stop, ∀ next, invariant turn.account →
      applyItem world turn.session turn.account turn.item = .ok next → invariant next)
    (marks : ∀ state day next, invariant state → markAccount world state day = .ok next →
      invariant next)
    (completed : foldLoop world account stop = .ok final) :
    ∀ turn ∈ foldTurns world account stop, ∃ next,
      applyItem world turn.session turn.account turn.item = .ok next ∧
      (invariant next → invariant final) := by
  obtain ⟨opened, plan, done, days⟩ := foldLoop_ok completed
  have turns : foldTurns world account stop =
      (visitedM (foldDay world plan) opened (daysFrom plan.start plan.stop)).flatMap fun visit =>
        dayTurns world plan.settings visit.1 visit.2 := by
    unfold foldTurns
    rw [done]
  have daily := visitedM_lasts invariant (by
    intro visit visited next holds folded
    refine foldDay_invariant invariant ?_ (fun state after => marks state visit.2 after) holds folded
    intro turn inside after _ before applied
    refine entries turn ?_ after before applied
    rw [turns]
    exact List.mem_flatMap.mpr ⟨visit, visited, inside⟩) days
  intro turn member
  rw [turns] at member entries
  obtain ⟨visit, visited, inside⟩ := List.mem_flatMap.mp member
  obtain ⟨nextDay, folded, lasts⟩ := daily visit visited
  obtain ⟨begun, session, running, sequence, listed, stepped⟩ := mem_dayTurns.mp inside
  rcases foldDay_ok folded with ⟨closed, _⟩ | ⟨_, settled, folding, finished⟩
  · simp [closed] at running
  · obtain ⟨sequence', _, listed', ran⟩ := foldSession_ok folding
    obtain rfl : sequence = sequence' := Except.ok.inj (listed.symm.trans listed')
    obtain ⟨next, applied, carries⟩ := visitedM_lasts invariant (by
      intro inner innerVisited after holds applied
      refine entries ⟨openSession world plan.settings visit.1 visit.2, visit.1, inner.1, inner.2⟩ ?_
        after holds applied
      exact List.mem_flatMap.mpr ⟨visit, visited,
        mem_dayTurns.mpr ⟨rfl, rfl, running, sequence, listed, innerVisited⟩⟩) ran
      (turn.account, turn.item) stepped
    refine ⟨next, by rw [session]; exact applied, ?_⟩
    intro holds
    apply lasts
    rcases finished with rfl | marked
    · exact carries holds
    · exact marks settled visit.2 nextDay (carries holds) marked

/-- What the entries of a fold preserve lasts from the start of a session to its turns. -/
theorem foldTurns_since {world : World zone} (invariant : Account → Prop) {account : Account}
    {stop : Int}
    (entries : ∀ turn ∈ foldTurns world account stop, ∀ next, invariant turn.account →
      applyItem world turn.session turn.account turn.item = .ok next → invariant next) :
    ∀ turn ∈ foldTurns world account stop, invariant turn.begun → invariant turn.account := by
  intro turn member begins
  unfold foldTurns at member entries
  split at member
  · rename_i opened plan done
    simp only [done] at entries
    obtain ⟨visit, visited, inside⟩ := List.mem_flatMap.mp member
    obtain ⟨begun, session, running, sequence, listed, stepped⟩ := mem_dayTurns.mp inside
    refine visitedM_invariant invariant ?_ (begun ▸ begins) (turn.account, turn.item) stepped
    intro inner innerVisited next holds applied
    refine entries ⟨openSession world plan.settings visit.1 visit.2, visit.1, inner.1, inner.2⟩ ?_
      next holds applied
    exact List.mem_flatMap.mpr ⟨visit, visited,
      mem_dayTurns.mpr ⟨rfl, rfl, running, sequence, listed, innerVisited⟩⟩
  · simp at member

/-- Every entry of every session of a completed fold has its turn. -/
theorem foldTurns_covers {world : World zone} {account : Account} {stop : Int}
    (completed : foldLoop world account stop = .ok final) {opened : Account} {plan : FoldPlan}
    (done : openFold world account stop = .ok (opened, plan)) {day : Int}
    (window : plan.start ≤ day ∧ day ≤ plan.stop) (session : isSession day = true) :
    ∃ begun sequence, (begun, day) ∈ visitedM (foldDay world plan) opened
        (daysFrom plan.start plan.stop) ∧
      events zone .account begun.ledger (some day) (some day) = .ok sequence ∧
      ∀ item ∈ sessionItems world begun day sequence, ∃ state,
        (⟨openSession world plan.settings begun day, begun, state, item⟩ : Turn) ∈
          foldTurns world account stop ∧
        (state, item) ∈ sessionVisits world plan.settings begun day sequence := by
  obtain ⟨opened', plan', done', days⟩ := foldLoop_ok completed
  obtain ⟨rfl, rfl⟩ := Prod.mk.inj (Except.ok.inj (done.symm.trans done'))
  have listed : day ∈ daysFrom plan.start plan.stop := by
    unfold daysFrom
    rw [List.mem_map]
    exact ⟨(day - plan.start).toNat, by rw [List.mem_range]; omega, by omega⟩
  obtain ⟨begun, visited⟩ := visitedM_covers days day listed
  obtain ⟨next, folded, _⟩ := visitedM_lasts (fun _ => True) (by simp) days (begun, day) visited
  rcases foldDay_ok folded with ⟨closed, _⟩ | ⟨_, settled, folding, _⟩
  · simp [session] at closed
  · obtain ⟨sequence, sources, read, ran⟩ := foldSession_ok folding
    refine ⟨begun, sequence, visited, read, ?_⟩
    intro item inside
    obtain ⟨state, stepped⟩ := visitedM_covers ran item inside
    refine ⟨state, ?_, stepped⟩
    unfold foldTurns
    rw [done]
    exact List.mem_flatMap.mpr ⟨(begun, day), visited,
      mem_dayTurns.mpr ⟨rfl, rfl, ⟨session, sources⟩, sequence, read, stepped⟩⟩

/-- The day loop leaves the administration alone. -/
theorem foldLoop_administration {world : World zone} {account : Account} {stop : Int}
    (completed : foldLoop world account stop = .ok final) :
    final.administration = account.administration := by
  refine foldLoop_invariant (fun state => state.administration = account.administration) ?_ ?_ ?_
    completed
  · intro opened plan done
    obtain ⟨_, _, _, _, rfl, _⟩ := openFold_ok done
    rfl
  · intro turn _ next _ same applied
    exact (applyItem_administration applied).trans same
  · intro state day next same marked
    obtain ⟨row, prices, rfl⟩ := markAccount_ok marked
    exact same

theorem foldTurns_administration {world : World zone} {account : Account} {stop : Int} :
    ∀ turn ∈ foldTurns world account stop,
      turn.account.administration = account.administration := by
  intro turn member
  refine (foldTurns_invariant (fun state => state.administration = account.administration) ?_ ?_ ?_
    turn member).2
  · intro opened plan done
    obtain ⟨_, _, _, _, rfl, _⟩ := openFold_ok done
    rfl
  · intro turn _ next _ kept applied
    exact (applyItem_administration applied).trans kept
  · intro state day next kept marked
    obtain ⟨row, prices, rfl⟩ := markAccount_ok marked
    exact kept

/-- What a fold brings about, one of its entries brings about. -/
theorem foldLoop_change {world : World zone} {account : Account} {stop : Int}
    (reached : Account → Prop)
    (opening : ∀ opened plan, openFold world account stop = .ok (opened, plan) → ¬ reached opened)
    (marks : ∀ state day next, ¬ reached state → markAccount world state day = .ok next →
      ¬ reached next)
    (completed : foldLoop world account stop = .ok final) (after : reached final) :
    ∃ turn ∈ foldTurns world account stop, ∃ next,
      applyItem world turn.session turn.account turn.item = .ok next ∧
      ¬ reached turn.account ∧ reached next := by
  by_contra never
  push Not at never
  refine foldLoop_invariant (fun state => ¬ reached state) opening ?_ marks completed after
  intro turn member next _ before applied
  exact never turn member next applied before

/-- The penalty of a buy-in moves no money. -/
theorem recordPenalty_book (world : World zone) (session : Session) (account : Account)
    (row : PendingRow) : (recordPenalty world session account row).book = account.book := by
  unfold recordPenalty
  split
  · simp [applyCashEvent, Book.credit]
  · rfl

theorem recordPenalty_fills (world : World zone) (session : Session) (account : Account)
    (row : PendingRow) :
    (recordPenalty world session account row).ledger.fills = account.ledger.fills := by
  unfold recordPenalty
  split <;> rfl

/-- A settled order leaves the book and the recorded fills alone, or it is filled, books
its execution and records it. -/
theorem settleOrder_books {world : World zone} {session : Session} {account : Account}
    {row : PendingRow} {result : FillResult} {outcome : Account × Settled}
    (settled : settleOrder world session account row result = .ok outcome) :
    (outcome.1.book = account.book ∧ outcome.1.ledger.fills = account.ledger.fills) ∨
    ∃ qty terms flagged, preflight world session account row = .go qty ∧
      result = .filled terms ∧
      ∃ execution : Execution world session (afterPdt world session account flagged)
          { row with qty := qty } terms,
        outcome.1.book = execution.applied.book ∧
        outcome.1.ledger.fills = account.ledger.fills.insert row.orderId
          (executedRow row execution.applied.qty terms execution.sized.fees session.day) ∧
        outcome.1.orders = rewriteOrder row.orderId
          (Order.withState .filled row.stateReason world.now) account.orders := by
  cases settleOrder_settlement settled with
  | stopped => exact .inl ⟨rfl, rfl⟩
  | waited => exact .inl ⟨rfl, rfl⟩
  | unfilled => exact .inl ⟨rfl, rfl⟩
  | lapsed => exact .inl ⟨rfl, rfl⟩
  | refused => exact .inl (by simp [Account.setState])
  | vanished =>
    left
    rw [recordPenalty_book, recordPenalty_fills]
    simp [Account.setState]
  | executed qty terms flagged ready priced execution =>
    refine .inr ⟨qty, terms, flagged, ready, priced, execution, ?_, ?_, ?_⟩
    · rw [recordPenalty_book]
      rfl
    · rw [recordPenalty_fills]
      simp [Account.setState, Execution.booked, recordFill, executedRow]
    · rw [recordPenalty_orders]
      simp [Account.setState, Execution.booked, recordFill]

end TradingEngine.Accounts
