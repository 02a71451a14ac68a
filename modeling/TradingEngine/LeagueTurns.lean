import TradingEngine.BookSoundness
import TradingEngine.LeagueFills
import TradingEngine.SplitBasis

/-!
# Turns of the league's due orders

Over books that are long, the ledger raises nothing while it applies a buy or a sale, and the
turn of every due order returns: it writes its own order, its fill and the book of its
portfolio. The pass over the due orders leaves each book with what its sales bring, which is
read off the orders, the holdings and the session, and collects the executable buys.
-/

namespace TradingEngine.LeagueFills

open KeyedTables OrderTypes Ledger Costs Fills Runs

/-- A book that holds nothing short and nothing below zero in basis. -/
structure LongBook (book : Book) : Prop where
  held : ∀ ticker, 0 ≤ (book.position ticker).qty
  rooted : Rooted (fun _ => True) book
  lots : ∀ ticker, Signed 1 book.lots ticker

/-- A long book in a store of the league. -/
structure Trading (portfolio : Portfolio) : Prop where
  league : portfolio.settings.engine = .league
  long : LongBook portfolio.book

section Ledger

variable {settings : LedgerSettings} {times : FillTimes} {book : Book} {fill : Fill}
  {fees : Option Fees}

/-- The ledger raises nothing while it sizes a buy or a sale of a long book. -/
theorem fillQty_long (league : settings.engine = .league) (long : LongBook book)
    (sided : fill.side = .buy ∨ fill.side = .sell)
    (positive : 0 < fill.qty ∧ 0 < fill.px ∧ 0 < fill.multiplier)
    (charged : ∀ known ∈ fees, ∀ component ∈ known.components, 0 ≤ component) :
    fillQty settings book fill fees =
      tradedQty settings book.cash (feeTotal fees) (book.position fill.ticker).qty fill := by
  have nonneg : ¬ ∃ known ∈ fees, ∃ component ∈ known.components, component < 0 := by
    rintro ⟨known, listed, component, inside, negative⟩
    exact absurd (charged known listed component inside) (not_le.mpr negative)
  have sided : ¬ (fill.side = .short ∧ settings.accountType = .cashLegacy) := by
    rintro ⟨short, _⟩
    rcases sided with buy | sell
    · rw [buy] at short
      cases short
    · rw [sell] at short
      cases short
  unfold fillQty fillChecks
  dsimp only
  rw [if_neg (not_not.mpr positive), if_neg (by simp [league]), if_neg sided, if_neg nonneg,
    if_neg (not_lt.mpr (long.rooted.priced fill.ticker))]

/-- Nor while it moves the lots of the traded quantity. -/
theorem moveLots_long (settings : LedgerSettings) (times : FillTimes) (long : LongBook book)
    {qty : ℚ} (sided : fill.side = .buy ∨ fill.side = .sell) (positive : 0 < qty) (fee : ℚ) :
    ∃ moved, moveLots settings times book fill fee qty = .ok moved ∧
      ∀ ticker, Signed 1 moved.1 ticker := by
  unfold moveLots
  rcases sided with buy | sell
  · simp only [buy, Side.closing, Bool.false_eq_true, if_false]
    cases origin : fill.origin with
    | none =>
      simp only [openLot, origin]
      exact ⟨_, rfl, long.lots⟩
    | some source =>
      obtain ⟨orderId, session⟩ := source
      have added : ∃ lots, addLot book.lots fill.ticker session orderId qty fill.px = .ok lots := by
        unfold addLot
        cases stored : book.lots.lookup (fill.ticker, orderId) with
        | none => exact ⟨_, rfl⟩
        | some old =>
          have own := long.lots fill.ticker _ old stored rfl
          rw [one_mul] at own
          simp only [not_lt.mpr (mul_pos own positive).le, if_false]
          exact ⟨_, rfl⟩
      obtain ⟨lots, opened⟩ := added
      simp only [openLot, origin, buy, Side.sign, one_mul, opened]
      refine ⟨_, rfl, ?_⟩
      intro ticker
      by_cases same : ticker = fill.ticker
      · subst same
        exact addLot_signed (long.lots _) (by simpa using positive) opened
      · exact addLot_elsewhere same opened (long.lots ticker)
  · simp only [sell, Side.closing, if_true]
    exact ⟨_, rfl, fun ticker => matchLots_signed (long.lots ticker)⟩

/-- The ledger applies a buy or a sale to a long book, which stays long. -/
theorem applyFill_long (league : settings.engine = .league) (long : LongBook book)
    (sided : fill.side = .buy ∨ fill.side = .sell)
    (positive : 0 < fill.qty ∧ 0 < fill.px ∧ 0 < fill.multiplier)
    (charged : ∀ known ∈ fees, ∀ component ∈ known.components, 0 ≤ component) :
    ∃ applied, applyFill settings times book fill fees = .ok applied ∧ LongBook applied.book := by
  have sized := fillQty_long league long sided positive charged
  have trades : ∃ size, fillQty settings book fill fees = .ok size := by
    rw [sized]
    have held := long.held fill.ticker
    rcases sided with buy | sell
    · simp only [tradedQty, buy, not_lt.mpr held, if_false]
      split
      · split
        · exact ⟨_, rfl⟩
        · exact ⟨_, rfl⟩
      · exact ⟨_, rfl⟩
    · simp only [tradedQty, sell]
      split
      · exact ⟨_, rfl⟩
      · exact ⟨_, rfl⟩
  obtain ⟨size, traded⟩ := trades
  have returns : ∃ applied, applyFill settings times book fill fees = .ok applied := by
    cases size with
    | none => exact ⟨⟨book, 0, []⟩, by simp only [applyFill, traded]⟩
    | some qty =>
      obtain ⟨⟨lots, trades, closes⟩, moves, _⟩ := moveLots_long settings times long sided
        (fillQty_traded traded).positive (feeTotal fees)
      exact ⟨⟨filledBook book fill (feeTotal fees) qty lots trades, qty, closes⟩, by
        simp only [applyFill, traded, moves, assertLotsMatchPositions, league, reduceCtorEq,
          false_and, if_false]⟩
  obtain ⟨applied, filled⟩ := returns
  refine ⟨applied, filled, ?_⟩
  have rooted := applyFill_rooted long.rooted (fun _ _ => trivial) filled
  rcases applyFill_cases filled with ⟨_, rfl⟩ | ⟨qty, lots, trades, closes, quantity, moved, rfl⟩
  · exact long
  · have sizes := fillQty_traded quantity
    constructor
    · intro ticker
      by_cases same : ticker = fill.ticker
      · subst same
        have held := long.held fill.ticker
        have sided' := sizes.sided
        simp only [filledBook, Book.position, AList.lookup_insert, Option.getD_some]
        simp only [Book.position] at held sided'
        rcases sided with buy | sell
        · simp only [buy, Side.sign, one_mul]
          linarith [sizes.positive]
        · simp only [sell] at sided'
          simp only [sell, Side.sign]
          linarith [sided'.2]
      · simp only [filledBook, Book.position, AList.lookup_insert_ne same]
        exact long.held ticker
    · exact rooted
    · obtain ⟨result, moves, signed⟩ := moveLots_long settings times long
        sided sizes.positive (feeTotal fees)
      rw [moved] at moves
      cases moves
      exact signed

/-- A sale within the position trades all of it. -/
theorem applyFill_sale {applied : Applied} (league : settings.engine = .league)
    (long : LongBook book) (sell : fill.side = .sell)
    (positive : 0 < fill.qty ∧ 0 < fill.px ∧ 0 < fill.multiplier)
    (charged : ∀ known ∈ fees, ∀ component ∈ known.components, 0 ≤ component)
    (within : fill.qty ≤ (book.position fill.ticker).qty)
    (filled : applyFill settings times book fill fees = .ok applied) :
    applied.book.cash =
        book.cash + (fill.qty * fill.px * fill.multiplier - feeTotal fees) ∧
      ∀ ticker, (applied.book.position ticker).qty =
        Function.update (fun other => (book.position other).qty) fill.ticker
          ((book.position fill.ticker).qty - fill.qty) ticker := by
  have held : ¬ (book.position fill.ticker).qty ≤ 0 := not_le.mpr (positive.1.trans_le within)
  have trades := fillQty_long league long (.inr sell) positive charged
  simp only [tradedQty, sell, held, if_false, min_eq_left within] at trades
  rcases applyFill_cases filled with ⟨none, _⟩ | ⟨qty, lots, days, closes, traded, _, rfl⟩
  · rw [trades] at none
    cases none
  · rw [trades] at traded
    cases traded
    constructor
    · simp only [filledBook, sell, Side.sign]
      ring
    · intro ticker
      by_cases same : ticker = fill.ticker
      · subst same
        simp [filledBook, Book.position, sell, Side.sign]
        ring
      · simp [filledBook, Book.position, AList.lookup_insert_ne same, Function.update_of_ne same]

end Ledger

section Charges

variable {session : Session} {portfolio : Portfolio} {side : Side} {qty px : ℚ} {fees : Fees}

theorem fillFees_charge :
    fillFees session portfolio side qty px = .ok fees ↔
      charge (effectiveCostProfile portfolio session.day) side qty px .nextOpen session.day =
        some fees := by
  unfold fillFees
  cases charge (effectiveCostProfile portfolio session.day) side qty px .nextOpen session.day with
  | none => simp
  | some charged => simp

/-- The fee table refuses nothing but a quantity or a value of zero under the broker's fees. -/
theorem fillFees_returns_iff (priced : 0 < px) :
    (∃ fees, fillFees session portfolio side qty px = .ok fees) ↔
      effectiveCostProfile portfolio session.day = .baselineV1 ∨ qty ≠ 0 := by
  simp only [fillFees_charge]
  cases effectiveCostProfile portfolio session.day with
  | baselineV1 => simp [charge]
  | ibkrProTieredV1 =>
    by_cases zero : qty = 0
    · simp [charge, zero]
    · have shares : 0 < |qty| := abs_pos.mpr zero
      simp [charge, zero, shares, mul_pos shares priced]

theorem keptFees_total (charged : fillFees session portfolio side qty px = .ok fees) :
    feeTotal (keptFees (effectiveCostProfile portfolio session.day) fees) = fees.totalUsd := by
  rw [fillFees_charge] at charged
  unfold keptFees
  cases profile : effectiveCostProfile portfolio session.day with
  | baselineV1 =>
    rw [profile] at charged
    cases charged
    rfl
  | ibkrProTieredV1 => rfl

theorem keptFees_nonneg (charged : fillFees session portfolio side qty px = .ok fees) :
    ∀ known ∈ keptFees (effectiveCostProfile portfolio session.day) fees,
      ∀ component ∈ known.components, 0 ≤ component := by
  intro known kept
  unfold keptFees at kept
  split at kept
  · cases kept
  · cases kept
    exact charge_nonneg (fillFees_charge.mp charged)

end Charges

/-- Whatever waits afterwards waited before, and nothing was filled for it. -/
def StillWaits (before after : Store) : Prop :=
  ∀ id next, after.orders.lookup id = some next → next.status = .pending →
    (∃ order, before.orders.lookup id = some order ∧ order.status = .pending) ∧
      after.fills.lookup id = before.fills.lookup id

theorem StillWaits.refl (store : Store) : StillWaits store store :=
  fun _ next found pending => ⟨⟨next, found, pending⟩, rfl⟩

theorem StillWaits.trans {before middle after : Store} (first : StillWaits before middle)
    (second : StillWaits middle after) : StillWaits before after := by
  intro id next found pending
  obtain ⟨⟨order, written, waits⟩, same⟩ := second id next found pending
  obtain ⟨waited, kept⟩ := first id order written waits
  exact ⟨waited, same.trans kept⟩

/-- No portfolio appears or changes its settings, and long books stay long. -/
def KeepsLong (before after : Store) : Prop :=
  ∀ portfolioId portfolio, after.portfolios.lookup portfolioId = some portfolio →
    ∃ earlier, before.portfolios.lookup portfolioId = some earlier ∧
      earlier.settings = portfolio.settings ∧ (LongBook earlier.book → LongBook portfolio.book)

theorem KeepsLong.refl (store : Store) : KeepsLong store store :=
  fun _ portfolio found => ⟨portfolio, found, rfl, id⟩

theorem KeepsLong.trans {before middle after : Store} (first : KeepsLong before middle)
    (second : KeepsLong middle after) : KeepsLong before after := by
  intro portfolioId portfolio found
  obtain ⟨between, stored, settings, long⟩ := second portfolioId portfolio found
  obtain ⟨earlier, owned, same, held⟩ := first portfolioId between stored
  exact ⟨earlier, owned, same.trans settings, long ∘ held⟩

theorem KeepsLong.write {before after : Store} {portfolioId : String} {portfolio : Portfolio}
    {book : Book} (found : before.portfolios.lookup portfolioId = some portfolio)
    (stored : after.portfolios.lookup portfolioId = some { portfolio with book := book })
    (long : LongBook book)
    (others : ∀ other, other ≠ portfolioId →
      after.portfolios.lookup other = before.portfolios.lookup other) :
    KeepsLong before after := by
  intro other written reached
  by_cases own : other = portfolioId
  · subst own
    rw [stored] at reached
    cases reached
    exact ⟨portfolio, found, rfl, fun _ => long⟩
  · rw [others other own] at reached
    exact ⟨written, reached, rfl, id⟩

/-- A turn that writes one order, its fill and the book of one portfolio. -/
structure Touches (id : OrderId) (portfolioId : String) (before after : Store) : Prop where
  fills : ∀ other, other ≠ id → after.fills.lookup other = before.fills.lookup other
  orders : ∀ other, other ≠ id → after.orders.lookup other = before.orders.lookup other
  status : ∀ order, before.orders.lookup id = some order →
    ∃ next, after.orders.lookup id = some next ∧
      (next.status = order.status ∨ next.status = .filled ∨ next.status = .rejected)
  portfolios : ∀ other, other ≠ portfolioId →
    after.portfolios.lookup other = before.portfolios.lookup other
  waits : StillWaits before after

namespace Touches

variable {id : OrderId} {portfolioId : String} {before middle after : Store}

theorem refl (id : OrderId) (portfolioId : String) (store : Store) :
    Touches id portfolioId store store :=
  ⟨fun _ _ => rfl, fun _ _ => rfl, fun order found => ⟨order, found, .inl rfl⟩, fun _ _ => rfl,
    .refl store⟩

theorem trans (first : Touches id portfolioId before middle)
    (second : Touches id portfolioId middle after) : Touches id portfolioId before after := by
  constructor
  · intro other differs
    rw [second.fills other differs, first.fills other differs]
  · intro other differs
    rw [second.orders other differs, first.orders other differs]
  · intro order found
    obtain ⟨next, stored, reached⟩ := first.status order found
    obtain ⟨last, final, ended⟩ := second.status next stored
    refine ⟨last, final, ?_⟩
    rcases ended with same | ended
    · rwa [same]
    · exact .inr ended
  · intro other differs
    rw [second.portfolios other differs, first.portfolios other differs]
  · exact first.waits.trans second.waits

/-- Writing attempts touches nothing else. -/
theorem executions (id : OrderId) (portfolioId : String) (store : Store)
    (executions : Table (OrderId × Int) Execution) :
    Touches id portfolioId store { store with executions := executions } :=
  ⟨fun _ _ => rfl, fun _ _ => rfl, fun order found => ⟨order, found, .inl rfl⟩, fun _ _ => rfl,
    .refl store⟩

theorem ended_waits (id : OrderId) (store : Store) (change : Order → Order)
    (ends : ∀ order, (change order).status = .filled ∨ (change order).status = .rejected)
    {other : OrderId} {next : Order}
    (found : (updateOrder store id change).orders.lookup other = some next)
    (pending : next.status = .pending) :
    other ≠ id ∧ store.orders.lookup other = some next := by
  simp only [updateOrder, lookup_mapRows, Option.map_eq_some_iff] at found
  obtain ⟨order, stored, written⟩ := found
  split at written
  · subst written
    rcases ends order with filled | rejected
    · rw [filled] at pending
      cases pending
    · rw [rejected] at pending
      cases pending
  · rename_i differs
    exact ⟨differs, written ▸ stored⟩

/-- Ending an order writes its row. -/
theorem ended (id : OrderId) (portfolioId : String) (store : Store) (change : Order → Order)
    (ends : ∀ order, (change order).status = .filled ∨ (change order).status = .rejected) :
    Touches id portfolioId store (updateOrder store id change) := by
  constructor
  · exact fun _ _ => rfl
  · intro other differs
    simp [updateOrder, lookup_mapRows, differs]
  · intro order found
    exact ⟨change order, by simp [updateOrder, lookup_mapRows, found], .inr (ends order)⟩
  · exact fun _ _ => rfl
  · intro other next found pending
    exact ⟨⟨next, (ended_waits id store change ends found pending).2, pending⟩, rfl⟩

theorem reject (id : OrderId) (portfolioId : String) (store : Store) (day : Int)
    (reason : Refusal) : Touches id portfolioId store (reject store day id reason) :=
  (ended id portfolioId store _ fun _ => .inr rfl).trans (executions id portfolioId _ _)

end Touches

@[simp] theorem reject_portfolios (store : Store) (day : Int) (id : OrderId) (reason : Refusal) :
    (reject store day id reason).portfolios = store.portfolios := rfl

@[simp] theorem reject_fills (store : Store) (day : Int) (id : OrderId) (reason : Refusal) :
    (reject store day id reason).fills = store.fills := rfl

section Records

variable {session : Session} {store : Store} {id : OrderId} {order : Order} {qty : ℚ}
  {terms : OpenFill} {portfolio : Portfolio}

theorem recordTerms_within (positive : 0 < qty)
    (within : order.side = .sell → qty ≤ heldQty portfolio order.ticker) :
    recordTerms session portfolio order qty terms = .ok (some (qty, terms)) := by
  unfold recordTerms
  split
  · rename_i sell
    have same : min qty (heldQty portfolio order.ticker) = qty := min_eq_left (within sell)
    simp only [same, sub_self, abs_zero, not_le.mpr positive, if_false]
    norm_num
  · rfl

/-- What fills of a session bought of a ticker for a book. -/
def boughtQty (store : Store) (day : Int) (portfolioId : String) (ticker : Ticker) : ℚ :=
  total (fun _ row => if row.portfolioId = portfolioId ∧ row.ticker = ticker ∧ row.side = .buy ∧
    row.fillDate = day then row.qty else 0) store.fills

/-- What the ledger makes of a priced order of a long book. -/
structure Recorded (session : Session) (portfolio : Portfolio) (store : Store) (id : OrderId)
    (order : Order) (qty : ℚ) (terms : OpenFill) (next : Store) (fees : Fees)
    (applied : Applied) : Prop where
  charged : fillFees session portfolio order.side qty terms.fillPx = .ok fees
  filled : applyFill portfolio.settings session.times portfolio.book
    ⟨some (id, session.day), order.ticker, order.side, qty, terms.fillPx, 1⟩
    (keptFees (effectiveCostProfile portfolio session.day) fees) = .ok applied
  long : LongBook applied.book
  written : next =
    if applied.qty ≤ 0 then reject store session.day id (shortfall order.side)
    else filledStore session store id order portfolio terms applied
      (keptFees (effectiveCostProfile portfolio session.day) fees)

/-- A priced order of a long book is recorded without an error. -/
theorem record_returns (found : store.portfolios.lookup order.portfolioId = some portfolio)
    (trading : Trading portfolio) (sided : order.side = .buy ∨ order.side = .sell)
    (positive : 0 < qty) (within : order.side = .sell → qty ≤ heldQty portfolio order.ticker)
    (unfilled : store.fills.lookup id = none) :
    ∃ next fees applied, record session store id order qty terms = .ok next ∧
      Recorded session portfolio store id order qty terms next fees applied := by
  obtain ⟨fees, charged⟩ : ∃ fees, fillFees session portfolio order.side qty terms.fillPx =
      .ok fees := (fillFees_returns_iff terms.priced).mpr (.inr positive.ne')
  obtain ⟨applied, filled, long⟩ : ∃ applied, applyFill portfolio.settings session.times
      portfolio.book ⟨some (id, session.day), order.ticker, order.side, qty, terms.fillPx, 1⟩
      (keptFees (effectiveCostProfile portfolio session.day) fees) = .ok applied ∧
        LongBook applied.book :=
    applyFill_long trading.league trading.long sided ⟨positive, terms.priced, one_pos⟩
      (keptFees_nonneg charged)
  refine ⟨_, fees, applied, ?_, charged, filled, long, rfl⟩
  simp only [record, found, recordTerms_within positive within, charged, filled, unfilled,
    Option.isSome_none, Bool.false_eq_true, if_false]
  split
  · rfl
  · rfl

theorem filledStore_touches (applied : Applied) (fees : Option Fees) :
    Touches id order.portfolioId store
      (filledStore session store id order portfolio terms applied fees) := by
  have ended := Touches.ended id order.portfolioId store
    (fun order => { order with status := .filled }) fun _ => .inl rfl
  constructor
  · intro other differs
    exact AList.lookup_insert_ne differs
  · exact ended.orders
  · exact ended.status
  · intro other differs
    exact AList.lookup_insert_ne differs
  · intro other next found pending
    have apart := Touches.ended_waits id store (fun order => { order with status := .filled })
      (fun _ => .inl rfl) found pending
    exact ⟨⟨next, apart.2, pending⟩, AList.lookup_insert_ne apart.1⟩

namespace Recorded

variable {next : Store} {fees : Fees} {applied : Applied}

theorem touches (recorded : Recorded session portfolio store id order qty terms next fees applied) :
    Touches id order.portfolioId store next := by
  rw [recorded.written]
  split
  · exact Touches.reject id order.portfolioId store _ _
  · exact filledStore_touches applied _

/-- The portfolio has the ledger's book: its own again when nothing was applied. -/
theorem portfolio_lookup
    (recorded : Recorded session portfolio store id order qty terms next fees applied)
    (found : store.portfolios.lookup order.portfolioId = some portfolio) :
    next.portfolios.lookup order.portfolioId =
      some { portfolio with book := applied.book } := by
  rw [recorded.written]
  split
  · rename_i nothing
    have same : applied.book = portfolio.book := by
      rcases applyFill_cases recorded.filled with ⟨_, rfl⟩ | ⟨qty, _, _, _, traded, _, rfl⟩
      · rfl
      · exact absurd nothing (not_le.mpr (fillQty_traded traded).positive)
    rw [same]
    exact found
  · simp [filledStore, updateOrder]

theorem boughtQty (recorded : Recorded session portfolio store id order qty terms next fees applied)
    (unfilled : store.fills.lookup id = none) (day : Int) (portfolioId : String)
    (ticker : Ticker) :
    LeagueFills.boughtQty next day portfolioId ticker =
      LeagueFills.boughtQty store day portfolioId ticker +
        if order.portfolioId = portfolioId ∧ order.ticker = ticker ∧ order.side = .buy ∧
          session.day = day then applied.qty else 0 := by
  rw [recorded.written]
  split
  · rename_i nothing
    have zero : applied.qty = 0 := by
      rcases applyFill_cases recorded.filled with ⟨_, rfl⟩ | ⟨qty, _, _, _, traded, _, rfl⟩
      · rfl
      · exact absurd nothing (not_le.mpr (fillQty_traded traded).positive)
    rw [zero, ite_self, add_zero]
    rfl
  · change total _ (store.fills.insert id _) = _
    rw [total_insert_new _ _ unfilled, add_comm]
    rfl

end Recorded

end Records

/-- An attempt after the signal's date returns. -/
theorem attemptFill_returns (session : Session) (profile : ExecutionProfile) (ticker : Ticker)
    (side : Side) (qty : ℚ) {signalDate : Int} (after : signalDate < session.day) :
    ∃ result, attemptFill session profile ticker side qty signalDate = .ok result := by
  unfold attemptFill
  rw [if_neg (not_le.mpr after)]
  cases orderRefusal side qty with
  | some reason => exact ⟨_, rfl⟩
  | none =>
    dsimp only
    cases session.openPx ticker with
    | none =>
      dsimp only
      split
      · exact ⟨_, rfl⟩
      · exact ⟨_, rfl⟩
    | some openPx =>
      dsimp only
      split
      · exact ⟨_, rfl⟩
      · split
        · exact ⟨_, rfl⟩
        · exact ⟨_, rfl⟩

/-- Only an order of a positive quantity fills. -/
theorem attemptFill_positive {session : Session} {profile : ExecutionProfile} {ticker : Ticker}
    {side : Side} {qty : ℚ} {signalDate : Int} {terms : OpenFill}
    (filled : attemptFill session profile ticker side qty signalDate = .ok (.filled terms)) :
    0 < qty := by
  unfold attemptFill at filled
  split at filled
  · cases filled
  · cases refused : orderRefusal side qty with
    | some reason => simp [refused] at filled
    | none =>
      unfold orderRefusal at refused
      split at refused
      · cases refused
      · split at refused
        · cases refused
        · rename_i positive
          exact not_le.mp positive

/-- A quantity sold and what it brings after its fees. -/
structure Sale where
  qty : ℚ
  net : ℚ

/-- What an order sells of a holding. -/
def saleOf (session : Session) (portfolio : Portfolio) (held : ℚ) (order : Order) : Sale :=
  let qty := min order.qty held
  if order.side = .sell ∧ 0 < qty then
    match attemptFill session (profileOf portfolio) order.ticker .sell qty order.signalDate with
    | .ok (.filled terms) =>
      match fillFees session portfolio .sell qty terms.fillPx with
      | .ok fees => ⟨qty, qty * terms.fillPx - fees.totalUsd⟩
      | .error _ => ⟨0, 0⟩
    | _ => ⟨0, 0⟩
  else ⟨0, 0⟩

/-- What a book's orders bring when each sells from what the earlier ones leave. -/
def netSales (session : Session) (portfolio : Portfolio) : (Ticker → ℚ) → List Order → ℚ
  | _, [] => 0
  | held, order :: rest =>
    let sale := saleOf session portfolio (held order.ticker) order
    sale.net + netSales session portfolio
      (Function.update held order.ticker (held order.ticker - sale.qty)) rest

/-- The executable buy of an entry. -/
def executable (session : Session) (portfolio : Portfolio) (entry : OrderId × Order) :
    Option Candidate :=
  if entry.2.side = .buy ∧ 0 < entry.2.qty ∧ session.quarantine entry.2.ticker = none then
    match attemptFill session (profileOf portfolio) entry.2.ticker .buy entry.2.qty
        entry.2.signalDate with
    | .ok (.filled terms) => some ⟨entry.1, entry.2, terms⟩
    | _ => none
  else none

/-- What the pass collects from an entry. -/
def collected (session : Session) (store : Store) (entry : OrderId × Order) :
    Option (String × Candidate) :=
  (store.portfolios.lookup entry.2.portfolioId).bind fun portfolio =>
    (executable session portfolio entry).map fun candidate => (entry.2.portfolioId, candidate)

/-- An entry whose turn can come. -/
structure Ready (session : Session) (store : Store) (entry : OrderId × Order) : Prop where
  portfolio : ∃ portfolio, store.portfolios.lookup entry.2.portfolioId = some portfolio ∧
    Trading portfolio
  unfilled : store.fills.lookup entry.1 = none
  waited : entry.2.signalDate < session.day

/-- What one turn does: it sells from its book, or it collects a buy. -/
structure Turn (session : Session) (portfolio : Portfolio) (progress next : Progress)
    (entry : OrderId × Order) (book : Book) : Prop where
  touches : Touches entry.1 entry.2.portfolioId progress.store next.store
  candidates : next.candidates =
    progress.candidates ++ (collected session progress.store entry).toList
  unfilled : entry.2.side ≠ .sell → next.store.fills = progress.store.fills
  bought : ∀ day portfolioId ticker, boughtQty next.store day portfolioId ticker =
    boughtQty progress.store day portfolioId ticker
  stored : next.store.portfolios.lookup entry.2.portfolioId =
    some { portfolio with book := book }
  long : LongBook book
  cash : book.cash = portfolio.book.cash +
    (saleOf session portfolio (heldQty portfolio entry.2.ticker) entry.2).net
  held : ∀ ticker, (book.position ticker).qty =
    Function.update (heldQty portfolio) entry.2.ticker (heldQty portfolio entry.2.ticker -
      (saleOf session portfolio (heldQty portfolio entry.2.ticker) entry.2).qty) ticker

section Turns

variable {session : Session} {progress : Progress} {entry : OrderId × Order}
  {portfolio : Portfolio}

/-- A turn that neither sells nor collects. -/
theorem Turn.idle (found : progress.store.portfolios.lookup entry.2.portfolioId = some portfolio)
    (trading : Trading portfolio)
    (none : collected session progress.store entry = none)
    (nothing : saleOf session portfolio (heldQty portfolio entry.2.ticker) entry.2 = ⟨0, 0⟩)
    {store : Store} (touches : Touches entry.1 entry.2.portfolioId progress.store store)
    (portfolios : store.portfolios = progress.store.portfolios)
    (fills : store.fills = progress.store.fills) :
    Turn session portfolio progress { progress with store := store } entry portfolio.book where
  touches := touches
  candidates := by simp [none]
  unfilled := fun _ => fills
  bought := fun _ _ _ => by rw [boughtQty, fills]; rfl
  stored := by rw [portfolios]; exact found
  long := trading.long
  cash := by simp [nothing]
  held := by
    intro ticker
    rw [nothing, sub_zero, Function.update_eq_self]
    rfl

/-- The turn of a ready entry returns. -/
theorem attemptOrder_turn
    (found : progress.store.portfolios.lookup entry.2.portfolioId = some portfolio)
    (trading : Trading portfolio) (unfilled : progress.store.fills.lookup entry.1 = none)
    (waited : entry.2.signalDate < session.day) :
    ∃ next book, attemptOrder session progress entry = .ok next ∧
      Turn session portfolio progress next entry book := by
  obtain ⟨id, order⟩ := entry
  dsimp only at found unfilled waited
  have refusal (reason : Refusal) :
      Touches id order.portfolioId progress.store
        (refuse progress.store session.day id (profileOf portfolio) reason) :=
    (Touches.executions id order.portfolioId _ _).trans (Touches.reject id order.portfolioId _ _ _)
  simp only [attemptOrder, found]
  cases refused : orderRefusal order.side order.qty with
  | some reason =>
    have invalid : ¬ ((order.side = .buy ∨ order.side = .sell) ∧ 0 < order.qty) := by
      rintro ⟨sided, positive⟩
      unfold orderRefusal at refused
      rw [if_neg (by tauto), if_neg (not_le.mpr positive)] at refused
      cases refused
    refine ⟨_, _, rfl, Turn.idle found trading ?_ ?_ (refusal reason) rfl rfl⟩
    · simp only [collected, found, Option.bind_some, executable]
      rw [if_neg (by tauto)]
      rfl
    · simp only [saleOf, lt_min_iff]
      rw [if_neg (by tauto)]
  | none =>
    obtain ⟨sided, positive⟩ : (order.side = .buy ∨ order.side = .sell) ∧ 0 < order.qty := by
      unfold orderRefusal at refused
      split at refused
      · cases refused
      · split at refused
        · cases refused
        · exact ⟨by tauto, by linarith⟩
    dsimp only
    rcases sided with buy | sell
    · have stays : saleOf session portfolio (heldQty portfolio order.ticker) order = ⟨0, 0⟩ := by
        simp [saleOf, buy]
      simp only [quarantineReason, attemptQty, buy, if_true, reduceCtorEq, false_and, if_false]
      cases quarantined : session.quarantine order.ticker with
      | some why =>
        refine ⟨_, _, rfl, Turn.idle found trading ?_ stays (refusal _) rfl rfl⟩
        simp [collected, found, executable, quarantined]
      | none =>
        dsimp only
        obtain ⟨result, attempts⟩ := attemptFill_returns session (profileOf portfolio)
          order.ticker .buy order.qty waited
        rw [attempts]
        cases result with
        | filled terms =>
          have buys : executable session portfolio (id, order) = some ⟨id, order, terms⟩ := by
            simp [executable, buy, positive, quarantined, attempts]
          refine ⟨_, portfolio.book, rfl, ?_, ?_, fun _ => rfl, fun _ _ _ => rfl, found,
            trading.long, ?_, ?_⟩
          · exact Touches.executions id order.portfolioId _ _
          · simp [collected, found, buys]
          · simp [stays]
          · intro ticker
            rw [stays, sub_zero, Function.update_eq_self]
            rfl
        | rejected reason openPx volume =>
          refine ⟨_, _, rfl, Turn.idle found trading ?_ stays ?_ rfl rfl⟩
          · simp [collected, found, executable, attempts]
          · exact (Touches.executions id order.portfolioId _ _).trans
              (Touches.reject id order.portfolioId _ _ _)
        | pending reason =>
          refine ⟨_, _, rfl, Turn.idle found trading ?_ stays ?_ rfl rfl⟩
          · simp [collected, found, executable, attempts]
          · exact Touches.executions id order.portfolioId _ _
    · have collects : collected session progress.store (id, order) = none := by
        simp [collected, found, executable, sell]
      simp only [quarantineReason, attemptQty, sell, reduceCtorEq, if_false, if_true, true_and]
      split
      · rename_i nothing
        refine ⟨_, _, rfl, Turn.idle found trading collects ?_ (refusal _) rfl rfl⟩
        simp only [saleOf, sell, true_and, if_neg (not_lt.mpr nothing)]
      · rename_i something
        rw [not_le] at something
        obtain ⟨result, attempts⟩ := attemptFill_returns session (profileOf portfolio)
          order.ticker .sell (min order.qty (heldQty portfolio order.ticker)) waited
        rw [attempts]
        cases result with
        | filled terms =>
          dsimp only
          let qty := min order.qty (heldQty portfolio order.ticker)
          let store := attempted progress.store id session.day
            (firstExecution (profileOf portfolio) qty (.filled terms))
          obtain ⟨next, fees, applied, recorded, sold⟩ : ∃ next fees applied,
              record session store id order qty terms = .ok next ∧
                Recorded session portfolio store id order qty terms next fees applied :=
            record_returns found trading (.inr sell) something (fun _ => min_le_right _ _) unfilled
          rw [recorded]
          have sale : saleOf session portfolio (heldQty portfolio order.ticker) order =
              ⟨min order.qty (heldQty portfolio order.ticker),
                min order.qty (heldQty portfolio order.ticker) * terms.fillPx -
                  fees.totalUsd⟩ := by
            have charged : fillFees session portfolio .sell
                (min order.qty (heldQty portfolio order.ticker)) terms.fillPx = .ok fees :=
              sell ▸ sold.charged
            simp only [saleOf, sell, true_and, if_pos something, attempts, charged]
          obtain ⟨cash, held⟩ := applyFill_sale trading.league trading.long sell
            ⟨something, terms.priced, one_pos⟩ (keptFees_nonneg sold.charged)
            (min_le_right _ _) sold.filled
          rw [keptFees_total sold.charged, mul_one] at cash
          refine ⟨_, applied.book, rfl, ?_, ?_, ?_, ?_, ?_, sold.long, ?_, ?_⟩
          · exact (Touches.executions id order.portfolioId _ _).trans sold.touches
          · simp [collects]
          · intro other
            exact absurd sell other
          · intro day portfolioId ticker
            rw [sold.boughtQty unfilled day portfolioId ticker, sell]
            simp only [reduceCtorEq, false_and, and_false, if_false, add_zero]
            rfl
          · exact sold.portfolio_lookup found
          · rw [cash, sale]
          · intro ticker
            rw [held, sale]
            rfl
        | rejected reason openPx volume =>
          refine ⟨_, _, rfl, Turn.idle found trading collects ?_ ?_ rfl rfl⟩
          · simp only [saleOf, sell, true_and, if_pos something, attempts]
          · exact (Touches.executions id order.portfolioId _ _).trans
              (Touches.reject id order.portfolioId _ _ _)
        | pending reason =>
          refine ⟨_, _, rfl, Turn.idle found trading collects ?_ ?_ rfl rfl⟩
          · simp only [saleOf, sell, true_and, if_pos something, attempts]
          · exact Touches.executions id order.portfolioId _ _

end Turns

/-- The orders of one book among entries. -/
def ordersOf (portfolioId : String) (entries : List (OrderId × Order)) : List Order :=
  (entries.filter fun entry => decide (entry.2.portfolioId = portfolioId)).map Prod.snd

theorem netSales_book (session : Session) (portfolio : Portfolio) (book : Book)
    (held : Ticker → ℚ) (orders : List Order) :
    netSales session { portfolio with book := book } held orders =
      netSales session portfolio held orders := by
  induction orders generalizing held with
  | nil => rfl
  | cons order rest ih =>
    simp only [netSales, ih]
    rfl

/-- What the pass over some entries leaves. -/
structure Passed (session : Session) (progress after : Progress)
    (entries : List (OrderId × Order)) : Prop where
  candidates : after.candidates =
    progress.candidates ++ entries.filterMap (collected session progress.store)
  books : ∀ portfolioId portfolio, progress.store.portfolios.lookup portfolioId = some portfolio →
    Trading portfolio → ∃ book,
      after.store.portfolios.lookup portfolioId = some { portfolio with book := book } ∧
      LongBook book ∧
      book.cash = portfolio.book.cash + netSales session portfolio (heldQty portfolio)
        (ordersOf portfolioId entries)
  orders : ∀ id order, progress.store.orders.lookup id = some order →
    ∃ next, after.store.orders.lookup id = some next ∧
      (next.status = order.status ∨ next.status = .filled ∨ next.status = .rejected)
  fills : ∀ id, (∀ entry ∈ entries, entry.1 = id → entry.2.side ≠ .sell) →
    after.store.fills.lookup id = progress.store.fills.lookup id
  bought : ∀ day portfolioId ticker, boughtQty after.store day portfolioId ticker =
    boughtQty progress.store day portfolioId ticker
  keeps : KeepsLong progress.store after.store
  waits : StillWaits progress.store after.store

section Passes

variable {session : Session} {progress next : Progress} {entry : OrderId × Order}
  {portfolio : Portfolio} {book : Book}

theorem Turn.collected_same (turn : Turn session portfolio progress next entry book)
    (found : progress.store.portfolios.lookup entry.2.portfolioId = some portfolio) :
    collected session next.store = collected session progress.store := by
  funext other
  unfold collected
  by_cases same : other.2.portfolioId = entry.2.portfolioId
  · rw [same, turn.stored, found]
    rfl
  · rw [turn.touches.portfolios _ same]

/-- Nor does it keep another entry from its turn. -/
theorem Turn.ready (turn : Turn session portfolio progress next entry book)
    (trading : Trading portfolio) {other : OrderId × Order} (differs : other.1 ≠ entry.1)
    (ready : Ready session progress.store other) : Ready session next.store other := by
  obtain ⟨⟨owner, owned, trades⟩, unfilled, waited⟩ := ready
  refine ⟨?_, ?_, waited⟩
  · by_cases same : other.2.portfolioId = entry.2.portfolioId
    · rw [same, turn.stored]
      exact ⟨_, rfl, trading.league, turn.long⟩
    · rw [turn.touches.portfolios _ same]
      exact ⟨owner, owned, trades⟩
  · rw [turn.touches.fills _ differs]
    exact unfilled

/-- Every ready entry gets its turn. -/
theorem attempts_pass {entries : List (OrderId × Order)} {progress : Progress}
    (distinct : (entries.map Prod.fst).Nodup)
    (ready : ∀ entry ∈ entries, Ready session progress.store entry) :
    ∃ after, entries.foldlM (attemptOrder session) progress = .ok after ∧
      Passed session progress after entries := by
  induction entries generalizing progress with
  | nil =>
    refine ⟨progress, rfl, by simp, ?_, fun _ order found => ⟨order, found, .inl rfl⟩,
      fun _ _ => rfl, fun _ _ _ => rfl, .refl _, .refl _⟩
    intro portfolioId portfolio found trading
    exact ⟨portfolio.book, found, trading.long, by simp [ordersOf, netSales]⟩
  | cons entry rest ih =>
    rw [List.map_cons, List.nodup_cons] at distinct
    obtain ⟨⟨portfolio, found, trading⟩, unfilled, waited⟩ := ready entry List.mem_cons_self
    obtain ⟨next, book, stepped, turn⟩ := attemptOrder_turn found trading unfilled waited
    have later (other : OrderId × Order) (listed : other ∈ rest) :
        Ready session next.store other := by
      refine turn.ready trading ?_ (ready other (List.mem_cons_of_mem _ listed))
      intro same
      exact distinct.1 (same ▸ List.mem_map_of_mem listed)
    obtain ⟨after, passes, passed⟩ := ih distinct.2 later
    refine ⟨after, foldlM_cons_ok.mpr ⟨next, stepped, passes⟩, ?_, ?_, ?_, ?_,
      fun day portfolioId ticker => by rw [passed.bought, turn.bought],
      (KeepsLong.write found turn.stored turn.long turn.touches.portfolios).trans passed.keeps,
      turn.touches.waits.trans passed.waits⟩
    · rw [passed.candidates, turn.candidates, turn.collected_same found, List.filterMap_cons,
        List.append_assoc]
      cases collected session progress.store entry with
      | none => rfl
      | some candidate => rfl
    · intro portfolioId owner owned trades
      by_cases own : portfolioId = entry.2.portfolioId
      · subst own
        rw [found] at owned
        cases owned
        obtain ⟨last, stored, long, cash⟩ :=
          passed.books _ _ turn.stored ⟨trading.league, turn.long⟩
        refine ⟨last, stored, long, ?_⟩
        have holding : heldQty { portfolio with book := book } =
            Function.update (heldQty portfolio) entry.2.ticker
              (heldQty portfolio entry.2.ticker -
                (saleOf session portfolio (heldQty portfolio entry.2.ticker) entry.2).qty) :=
          funext turn.held
        rw [cash, netSales_book, turn.cash, holding]
        simp only [ordersOf, decide_true, List.filter_cons_of_pos, List.map_cons, netSales]
        ring
      · obtain ⟨last, stored, long, cash⟩ := passed.books portfolioId owner
          (by rw [turn.touches.portfolios _ own]; exact owned) trades
        refine ⟨last, stored, long, ?_⟩
        rw [cash]
        have skipped : ordersOf portfolioId (entry :: rest) = ordersOf portfolioId rest := by
          simp [ordersOf, Ne.symm own]
        rw [skipped]
    · intro id order stored
      by_cases own : id = entry.1
      · subst own
        obtain ⟨middle, written, ended⟩ := turn.touches.status order stored
        obtain ⟨last, final, settled⟩ := passed.orders _ middle written
        refine ⟨last, final, ?_⟩
        rcases settled with same | settled
        · rwa [same]
        · exact .inr settled
      · rw [← turn.touches.orders id own] at stored
        exact passed.orders id order stored
    · intro id kept
      rw [passed.fills id fun other listed => kept other (List.mem_cons_of_mem _ listed)]
      by_cases own : id = entry.1
      · rw [turn.unfilled (kept entry List.mem_cons_self own.symm)]
      · exact turn.touches.fills id own

end Passes

end TradingEngine.LeagueFills
